import Mathlib.Data.List.Basic

/-! Lists that are popped at one of their ends: at the head, or at the tail for a stack. -/

variable {α : Type*}

/-- The order in which the items are popped. -/
def popOrder (stack : Bool) (l : List α) : List α := if stack then l.reverse else l

variable (stack : Bool)

@[simp]
theorem popOrder_popOrder (l : List α) : popOrder stack (popOrder stack l) = l := by
  unfold popOrder
  cases stack <;> simp

theorem popOrder_filter (p : α → Bool) (l : List α) : popOrder stack (l.filter p) = (popOrder stack l).filter p := by
  unfold popOrder
  cases stack with
  | false => rfl
  | true => exact (List.filter_reverse ..).symm

theorem count_popOrder [BEq α] (l : List α) (a : α) : (popOrder stack l).count a = l.count a := by
  unfold popOrder
  cases stack with
  | false => rfl
  | true => exact List.count_reverse

theorem length_popOrder (l : List α) : (popOrder stack l).length = l.length := by
  unfold popOrder
  cases stack with
  | false => rfl
  | true => exact List.length_reverse

/-- A skipped item is put back where it is popped last. -/
theorem popOrder_skipped (l : List α) (a : α) :
    popOrder stack (if stack then a :: l else l ++ [a]) = popOrder stack l ++ [a] := by
  unfold popOrder
  cases stack <;> simp

theorem filter_erase_of_not [DecidableEq α] {p : α → Bool} {a : α} (h : p a = false) (l : List α) :
    (l.erase a).filter p = l.filter p := by
  induction l with
  | nil => rfl
  | cons b l ih =>
    by_cases hb : b = a
    · subst hb
      rw [List.erase_cons_head, List.filter_cons_of_neg (by simp [h])]
    · rw [List.erase_cons_tail (by simpa using hb), List.filter_cons, List.filter_cons, ih]

/-- An item that is not looked for can go. -/
theorem find?_popOrder_erase [DecidableEq α] {p : α → Bool} {a : α} (h : p a = false) (l : List α) :
    (popOrder stack (l.erase a)).find? p = (popOrder stack l).find? p := by
  rw [← List.head?_filter, ← List.head?_filter, ← popOrder_filter, ← popOrder_filter, filter_erase_of_not h]
