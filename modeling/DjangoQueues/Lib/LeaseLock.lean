import Mathlib.Tactic

/-! A lock kept as a key with an expiry: set where the key is absent, deleted only by the token it was set with. -/

/-- The token under the key, with the instant at which the key expires. -/
structure LeaseLock (τ : Type*) where
  stored : Option (τ × ℕ)

namespace LeaseLock

variable {τ : Type*} {l l' : LeaseLock τ} {now lease deadline : ℕ} {token token' : τ}

/-- The token that a reader of the key finds. -/
def live? (l : LeaseLock τ) (now : ℕ) : Option τ :=
  match l.stored with
  | none => none
  | some (token, deadline) => if now < deadline then some token else none

/-- The key is set with its expiry unless there is one; `none` where there is. -/
def acquire (l : LeaseLock τ) (now lease : ℕ) (token : τ) : Option (LeaseLock τ) :=
  match l.live? now with
  | none => some ⟨some (token, now + lease)⟩
  | some _ => none

theorem live?_of_stored (h : l.stored = some (token, deadline)) (hnow : now < deadline) : l.live? now = some token := by
  rw [live?, h]
  exact if_pos hnow

theorem acquire_eq_none_of_stored (h : l.stored = some (token, deadline)) (hnow : now < deadline) :
    l.acquire now lease token' = none := by
  rw [acquire, live?_of_stored h hnow]

/-- The key is set only where nothing that was stored is still alive. -/
theorem acquire_eq_some (h : l.acquire now lease token = some l') :
    l'.stored = some (token, now + lease) ∧ ∀ t d, l.stored = some (t, d) → ¬now < d := by
  refine ⟨?_, fun t d hstored hlt => ?_⟩
  · unfold acquire at h
    split at h
    · cases h
      rfl
    · cases h
  · rw [acquire_eq_none_of_stored hstored hlt] at h
    cases h

section Release

variable [DecidableEq τ]

/-- The key is compared and deleted in one step. -/
def release (l : LeaseLock τ) (now : ℕ) (token : τ) : LeaseLock τ :=
  if l.live? now = some token then ⟨none⟩ else l

/-- A release with another token leaves the key. -/
theorem release_stored_of_ne (h : l.stored = some (token, deadline)) (hne : token ≠ token') :
    (l.release now token').stored = some (token, deadline) := by
  unfold release
  split_ifs with hlive
  · rw [live?, h] at hlive
    dsimp only at hlive
    split_ifs at hlive
    exact absurd (Option.some.inj hlive) hne
  · exact h

end Release

end LeaseLock
