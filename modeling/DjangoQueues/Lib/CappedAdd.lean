import Mathlib.Tactic

/-! Adding a batch to a store of limited size, one item after the other: the size is tested before each item, and
the batch is refused at the first one that finds the store full. A limit of 0 is none. -/

namespace CappedAdd

variable {σ β : Type*}

/-- Whether the batch was refused, and what is stored then. -/
def addEach (cap : ℕ) (size : σ → ℕ) (add : β → σ → σ) : List β → σ → Bool × σ
  | [], s => (false, s)
  | x :: xs, s => if 0 < cap ∧ cap ≤ size s then (true, s) else addEach cap size add xs (add x s)

variable {cap : ℕ} {size : σ → ℕ} {add : β → σ → σ}

theorem cap_le_of_refused {xs : List β} {s : σ} (h : (addEach cap size add xs s).1 = true) :
    cap ≤ size (addEach cap size add xs s).2 := by
  induction xs generalizing s with
  | nil => cases h
  | cons x xs ih =>
    rw [addEach] at h ⊢
    split_ifs at h ⊢ with hfull
    · exact hfull.2
    · exact ih h

/-- A refused batch has left nothing behind exactly where there was no room at all. -/
theorem eq_iff_of_refused (size : σ → ℕ) (add : β → σ → σ) (hcap : 0 < cap) (xs : List β) (s : σ)
    (h : (addEach cap size add xs s).1 = true) :
    (addEach cap size add xs s).2 = s ↔ cap ≤ size s := by
  constructor
  · intro heq
    have hcap := cap_le_of_refused h
    rwa [heq] at hcap
  · intro hfull
    cases xs with
    | nil => rfl
    | cons x xs => rw [addEach, if_pos ⟨hcap, hfull⟩]

theorem size_le_foldl (hmono : ∀ x s, size s ≤ size (add x s)) (xs : List β) (s : σ) :
    size s ≤ size (xs.foldl (fun s x => add x s) s) := by
  induction xs generalizing s with
  | nil => exact le_rfl
  | cons x xs ih => exact (hmono x s).trans (ih (add x s))

/-- The last item is the one that finds the store largest. -/
theorem refused_iff (size : σ → ℕ) (add : β → σ → σ) (hmono : ∀ x s, size s ≤ size (add x s)) (hcap : 0 < cap)
    (xs : List β) (s : σ) :
    (addEach cap size add xs s).1 = true ↔ xs ≠ [] ∧ cap ≤ size (xs.dropLast.foldl (fun s x => add x s) s) := by
  induction xs generalizing s with
  | nil => simp [addEach]
  | cons x xs ih =>
    rw [addEach]
    split_ifs with hfull
    · exact ⟨fun _ => ⟨List.cons_ne_nil x xs, hfull.2.trans (size_le_foldl hmono _ s)⟩, fun _ => rfl⟩
    · rw [ih]
      cases xs with
      | nil =>
        constructor
        · exact fun h => absurd rfl h.1
        · exact fun h => absurd ⟨hcap, h.2⟩ hfull
      | cons y ys =>
        rw [List.dropLast_cons_of_ne_nil (List.cons_ne_nil y ys), List.foldl_cons]
        exact and_congr_left fun _ => ⟨fun _ => List.cons_ne_nil x _, fun _ => List.cons_ne_nil y ys⟩

end CappedAdd
