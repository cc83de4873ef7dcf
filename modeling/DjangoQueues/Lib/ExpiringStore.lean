import DjangoQueues.Lib.Run
import Mathlib.Data.Set.Card

/-! A store of items with a deadline. One call of `expire` removes at most one item that is due, and never one while
an item with an earlier deadline is there. Which of several items with the earliest deadline goes is left open. -/

/-- What is stored under each identity, with its deadline. -/
abbrev ExpiringStore (ι β τ : Type*) := ι → Option (β × τ)

namespace ExpiringStore

inductive Op (ι β τ : Type*) where
  | put (i : ι) (v : β) (deadline : τ)
  | get (i : ι)
  | has
  | expire (now : τ)
  | clear

inductive Reply (ι β : Type*) where
  | done
  | got (v : Option β)
  | held (b : Bool)
  | expired (i : Option ι)

section Spec

variable {ι β τ : Type*} [LinearOrder τ]

/-- The items whose deadline is not after `now`. -/
def dueBy (m : ExpiringStore ι β τ) (now : τ) : Set ι := { i | ∃ v d, m i = some (v, d) ∧ d ≤ now }

/-- An item that no other one precedes. -/
def Earliest (m : ExpiringStore ι β τ) (i : ι) : Prop :=
  ∃ v d, m i = some (v, d) ∧ ∀ j w e, m j = some (w, e) → d ≤ e

variable {m m' : ExpiringStore ι β τ} {T : τ} {i : ι}

/-- The earliest item is among those due by `T` as soon as there are any. -/
theorem Earliest.mem_dueBy (h : m.Earliest i) (hT : (m.dueBy T).Nonempty) : i ∈ m.dueBy T := by
  obtain ⟨v, d, hi, hmin⟩ := h
  obtain ⟨j, w, e, hj, hle⟩ := hT
  exact ⟨v, d, hi, (hmin j w e hj).trans hle⟩

variable [DecidableEq ι]

inductive Step : ExpiringStore ι β τ → Op ι β τ × Reply ι β → ExpiringStore ι β τ → Prop
  | put {m : ExpiringStore ι β τ} {i : ι} {v : β} {d : τ} :
      Step m (.put i v d, .done) (Function.update m i (some (v, d)))
  | get {m : ExpiringStore ι β τ} {i : ι} : Step m (.get i, .got ((m i).map Prod.fst)) m
  | has {m : ExpiringStore ι β τ} {b : Bool} : (b = true ↔ ∃ i, m i ≠ none) → Step m (.has, .held b) m
  | expire {m : ExpiringStore ι β τ} {now : τ} {i : ι} : i ∈ m.dueBy now → m.Earliest i →
      Step m (.expire now, .expired (some i)) (Function.update m i none)
  | idle {m : ExpiringStore ι β τ} {now : τ} : m.dueBy now = ∅ → Step m (.expire now, .expired none) m
  | clear {m : ExpiringStore ι β τ} : Step m (.clear, .done) fun _ => none

/-- A call that leaves the items due by `T` to `expire`: nothing is stored among them and none is cleared away. -/
def LeavesDue (T : τ) : Op ι β τ → Prop
  | .put _ _ d => T < d
  | .get _ | .has => True
  | .expire now => T ≤ now
  | .clear => False

/-- A call that leaves an item with this deadline. -/
def Leaves (i : ι) (d : τ) : Op ι β τ → Prop
  | .put j _ _ => j ≠ i
  | .get _ | .has => True
  | .expire now => now < d
  | .clear => False

def isExpire : Op ι β τ × Reply ι β → Bool
  | (.expire _, _) => true
  | _ => false

variable {l : Op ι β τ × Reply ι β} {ls : List (Op ι β τ × Reply ι β)}

/-! ## Draining -/

theorem dueBy_update_subset {v : β} {d : τ} (hd : T < d) :
    dueBy (Function.update m i (some (v, d))) T ⊆ m.dueBy T := by
  rintro j ⟨w, e, he, hle⟩
  by_cases hj : j = i
  · subst hj
    rw [Function.update_self] at he
    cases he
    exact absurd hle (not_le.mpr hd)
  · rw [Function.update_of_ne hj] at he
    exact ⟨w, e, he, hle⟩

theorem dueBy_update_none_subset : dueBy (Function.update m i none) T ⊆ m.dueBy T \ {i} := by
  rintro j ⟨w, e, he, hle⟩
  by_cases hj : j = i
  · subst hj
    rw [Function.update_self] at he
    cases he
  · rw [Function.update_of_ne hj] at he
    exact ⟨⟨w, e, he, hle⟩, hj⟩

/-- One call takes one of the items due by `T`, if there are any, when it comes at `T` or later. -/
theorem Step.ncard_dueBy_le (h : Step m l m') (hl : LeavesDue T l.1) (hfin : (m.dueBy T).Finite) :
    (m'.dueBy T).Finite ∧ (m'.dueBy T).ncard ≤ (m.dueBy T).ncard - if isExpire l then 1 else 0 := by
  cases h with
  | @put i v d =>
    have hsub := dueBy_update_subset (m := m) (i := i) (v := v) hl
    exact ⟨hfin.subset hsub, Set.ncard_le_ncard hsub hfin⟩
  | get => exact ⟨hfin, le_rfl⟩
  | has => exact ⟨hfin, le_rfl⟩
  | @expire now i hdue hearly =>
    have hsub := dueBy_update_none_subset (m := m) (i := i) (T := T)
    refine ⟨hfin.subset (hsub.trans Set.sdiff_subset), (Set.ncard_le_ncard hsub hfin.sdiff).trans ?_⟩
    by_cases hT : (m.dueBy T).Nonempty
    · exact (Set.ncard_sdiff_singleton_of_mem (hearly.mem_dueBy hT)).le
    · rw [Set.not_nonempty_iff_eq_empty.mp hT, Set.empty_sdiff, Set.ncard_empty]
      exact Nat.zero_le _
  | idle hidle =>
    -- nothing is due now, so nothing was due at the earlier instant
    have hempty : m.dueBy T = ∅ := Set.subset_empty_iff.mp fun j ⟨v, d, hj, hd⟩ => by
      rw [← hidle]
      exact ⟨v, d, hj, hd.trans hl⟩
    rw [hempty, Set.ncard_empty]
    exact ⟨Set.finite_empty, Nat.zero_le _⟩
  | clear => exact hl.elim

theorem ncard_dueBy_le_of_run (h : Run Step m ls m') (hls : ∀ l ∈ ls, LeavesDue T l.1) (hfin : (m.dueBy T).Finite) :
    (m'.dueBy T).Finite ∧ (m'.dueBy T).ncard ≤ (m.dueBy T).ncard - ls.countP isExpire := by
  induction h with
  | nil _ => exact ⟨hfin, le_rfl⟩
  | @cons m m₁ m₂ l ls hstep _ ih =>
    rw [List.forall_mem_cons] at hls
    obtain ⟨hfin₁, hle₁⟩ := hstep.ncard_dueBy_le hls.1 hfin
    obtain ⟨hfin₂, hle₂⟩ := ih hls.2 hfin₁
    rw [List.countP_cons]
    exact ⟨hfin₂, by omega⟩

/-- As many calls as items were due by `T`, at `T` or later, leave none of them. -/
theorem dueBy_eq_empty_of_run (h : Run Step m ls m') (hls : ∀ l ∈ ls, LeavesDue T l.1) (hfin : (m.dueBy T).Finite)
    (hcount : (m.dueBy T).ncard ≤ ls.countP isExpire) : m'.dueBy T = ∅ := by
  obtain ⟨hfin', hle⟩ := ncard_dueBy_le_of_run h hls hfin
  rw [← Set.ncard_eq_zero hfin']
  omega

/-! ## What is not due stays -/

theorem Step.kept (h : Step m l m') {v : β} {d : τ} (hi : m i = some (v, d)) (hl : Leaves i d l.1) :
    m' i = some (v, d) := by
  cases h with
  | put => rwa [Function.update_of_ne (Ne.symm hl)]
  | get => exact hi
  | has => exact hi
  | @expire now j hdue hearly =>
    rw [Function.update_of_ne]
    · exact hi
    · rintro rfl
      obtain ⟨w, e, he, hle⟩ := hdue
      rw [hi] at he
      cases he
      exact absurd hle (not_le.mpr hl)
  | idle => exact hi
  | clear => exact hl.elim

theorem kept_of_run (h : Run Step m ls m') {v : β} {d : τ} (hi : m i = some (v, d)) (hls : ∀ l ∈ ls, Leaves i d l.1) :
    m' i = some (v, d) :=
  h.invariant_of_forall (I := fun m => m i = some (v, d)) (P := fun l => Leaves i d l.1)
    (fun _ _ _ hl hm hstep => hstep.kept hm hl) hls hi

end Spec

end ExpiringStore
