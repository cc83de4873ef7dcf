import Mathlib.Data.List.Nodup
import Mathlib.Tactic

/-! Insertion-ordered dictionaries: writing an existing key keeps its position, a new
key goes to the end. A key occurs once by construction. -/

/-- Where keys are unique, searching by key finds exactly the member with that key. -/
theorem List.find?_key_eq_some {γ α : Type*} [DecidableEq α] {f : γ → α} {l : List γ}
    (hl : (l.map f).Nodup) {a : α} {p : γ} :
    l.find? (fun q => f q = a) = some p ↔ p ∈ l ∧ f p = a := by
  constructor
  · intro h
    exact ⟨List.mem_of_find?_eq_some h, by simpa using List.find?_some h⟩
  · rintro ⟨hp, rfl⟩
    obtain ⟨q, hq⟩ := Option.isSome_iff_exists.mp
      (List.find?_isSome.mpr ⟨p, hp, by simp⟩ : (l.find? (fun q => f q = f p)).isSome)
    have hf : f q = f p := by simpa using List.find?_some hq
    rw [hq, List.inj_on_of_nodup_map hl (List.mem_of_find?_eq_some hq) hp hf]

/-- A fold that keeps one of its two arguments ends with one of the elements. -/
theorem List.foldl_choice_mem {α : Type*} {f : α → α → α} (hf : ∀ a b, f a b = a ∨ f a b = b) (l : List α) (a : α) :
    l.foldl f a ∈ a :: l := by
  induction l generalizing a with
  | nil => exact List.mem_cons_self ..
  | cons b l ih =>
    rw [List.foldl_cons]
    rcases List.mem_cons.mp (ih (f a b)) with heq | hin
    · rw [heq]
      rcases hf a b with h | h <;> simp [h]
    · exact List.mem_cons_of_mem _ (List.mem_cons_of_mem _ hin)

theorem List.lookup_cons_of_ne {α β : Type*} [DecidableEq α] {k k' : α} (h : k ≠ k') (v : β)
    (l : List (α × β)) : ((k', v) :: l).lookup k = l.lookup k := by
  rw [List.lookup_cons, beq_false_of_ne h]

structure Dict (α β : Type*) where
  items : List (α × β)
  nodup : (items.map Prod.fst).Nodup

namespace Dict

variable {α β : Type*} [DecidableEq α]

def empty : Dict α β := ⟨[], List.nodup_nil⟩

/-- The raw list update behind `set`. -/
def setList (a : α) (b : β) : List (α × β) → List (α × β)
  | [] => [(a, b)]
  | (k, v) :: l => if k = a then (a, b) :: l else (k, v) :: setList a b l

theorem map_fst_setList (a : α) (b : β) (l : List (α × β)) :
    (setList a b l).map Prod.fst =
      if a ∈ l.map Prod.fst then l.map Prod.fst else l.map Prod.fst ++ [a] := by
  induction l with
  | nil => simp [setList]
  | cons p l ih =>
    obtain ⟨k, v⟩ := p
    by_cases hk : k = a
    · simp [setList, hk]
    · have hak : a ≠ k := fun h => hk h.symm
      simp only [setList, if_neg hk, List.map_cons, ih, List.mem_cons, hak, false_or]
      split_ifs <;> simp

@[simp]
theorem lookup_setList (a k : α) (b : β) (l : List (α × β)) :
    (setList a b l).lookup k = if k = a then some b else l.lookup k := by
  induction l with
  | nil =>
    by_cases h : k = a
    · simp [setList, h]
    · rw [setList, List.lookup_cons_of_ne h, if_neg h]
  | cons p l ih =>
    obtain ⟨k', v⟩ := p
    by_cases hk : k' = a
    · subst hk
      by_cases h : k = k'
      · simp [setList, h]
      · simp only [setList, if_true, List.lookup_cons_of_ne h, if_neg h]
    · by_cases h : k = k'
      · subst h
        simp [setList, hk]
      · simp only [setList, if_neg hk, List.lookup_cons_of_ne h, ih]

theorem mem_of_mem_setList {a : α} {b : β} {l : List (α × β)} {p : α × β} (h : p ∈ setList a b l) :
    p = (a, b) ∨ p ∈ l := by
  induction l with
  | nil => exact .inl (List.mem_singleton.mp h)
  | cons q l ih =>
    obtain ⟨k, v⟩ := q
    rw [setList] at h
    split_ifs at h
    · exact (List.mem_cons.mp h).imp_right (List.mem_cons_of_mem _)
    · rcases List.mem_cons.mp h with rfl | hp
      · exact .inr (List.mem_cons_self ..)
      · exact (ih hp).imp_right (List.mem_cons_of_mem _)

theorem mem_setList {a : α} {b : β} {l : List (α × β)} (hl : (l.map Prod.fst).Nodup) {p : α × β} :
    p ∈ setList a b l ↔ p = (a, b) ∨ p.1 ≠ a ∧ p ∈ l := by
  induction l with
  | nil => simp [setList]
  | cons q l ih =>
    obtain ⟨k, v⟩ := q
    simp only [List.map_cons, List.nodup_cons] at hl
    by_cases hk : k = a
    · subst hk
      have hfresh : ∀ p ∈ l, p.1 ≠ k := fun p hp he => hl.1 (he ▸ List.mem_map_of_mem hp)
      simp only [setList, if_true, List.mem_cons]
      constructor
      · rintro (rfl | hp)
        · exact .inl rfl
        · exact .inr ⟨hfresh p hp, .inr hp⟩
      · rintro (rfl | ⟨hne, rfl | hp⟩)
        · exact .inl rfl
        · exact absurd rfl hne
        · exact .inr hp
    · simp only [setList, if_neg hk, List.mem_cons, ih hl.2]
      constructor
      · rintro (rfl | rfl | ⟨hne, hp⟩)
        · exact .inr ⟨hk, .inl rfl⟩
        · exact .inl rfl
        · exact .inr ⟨hne, .inr hp⟩
      · rintro (rfl | ⟨hne, rfl | hp⟩)
        · exact .inr (.inl rfl)
        · exact .inl rfl
        · exact .inr (.inr ⟨hne, hp⟩)

def get? (d : Dict α β) (a : α) : Option β := (d.items.find? (·.1 = a)).map Prod.snd

def set (d : Dict α β) (a : α) (b : β) : Dict α β where
  items := setList a b d.items
  nodup := by
    rw [map_fst_setList]
    split_ifs with h
    · exact d.nodup
    · exact List.nodup_append.mpr ⟨d.nodup, List.nodup_singleton a, by
        rintro x hx y hy rfl
        exact h (List.mem_singleton.mp hy ▸ hx)⟩

def erase (d : Dict α β) (a : α) : Dict α β where
  items := d.items.filter (·.1 ≠ a)
  nodup := d.nodup.sublist (List.Sublist.map _ List.filter_sublist)

def keys (d : Dict α β) : List α := d.items.map Prod.fst

theorem get?_eq_some {d : Dict α β} {a : α} {b : β} : d.get? a = some b ↔ (a, b) ∈ d.items := by
  rw [get?, Option.map_eq_some_iff]
  constructor
  · rintro ⟨⟨k, v⟩, hf, rfl⟩
    obtain ⟨hp, rfl⟩ := (List.find?_key_eq_some d.nodup).mp hf
    exact hp
  · intro h
    exact ⟨(a, b), (List.find?_key_eq_some d.nodup).mpr ⟨h, rfl⟩, rfl⟩

theorem get?_eq_none {d : Dict α β} {a : α} : d.get? a = none ↔ a ∉ d.keys := by
  rw [Option.eq_none_iff_forall_ne_some, keys, List.mem_map]
  simp [get?_eq_some]

@[simp]
theorem get?_empty (a : α) : (empty : Dict α β).get? a = none := rfl

@[simp, grind =]
theorem get?_set (d : Dict α β) (a a' : α) (b : β) :
    (d.set a b).get? a' = if a' = a then some b else d.get? a' := by
  ext c
  rw [get?_eq_some, set, mem_setList d.nodup]
  split_ifs with h
  · subst h
    simp [eq_comm]
  · simp [h, get?_eq_some]

@[simp, grind =]
theorem get?_erase (d : Dict α β) (a a' : α) :
    (d.erase a).get? a' = if a' = a then none else d.get? a' := by
  ext c
  rw [get?_eq_some, erase]
  split_ifs with h
  · simp [h]
  · simp [h, get?_eq_some]

theorem keys_set_of_get?_eq_none {d : Dict α β} {a : α} (h : d.get? a = none) (b : β) :
    (d.set a b).keys = d.keys ++ [a] := by
  have hmem := get?_eq_none.mp h
  unfold keys at hmem
  rw [keys, set, map_fst_setList, if_neg hmem]
  rfl

theorem keys_erase_sublist (d : Dict α β) (a : α) : (d.erase a).keys.Sublist d.keys :=
  List.Sublist.map _ List.filter_sublist

theorem get?_foldl_erase (as : List α) (d : Dict α β) (a : α) :
    (as.foldl erase d).get? a = if a ∈ as then none else d.get? a := by
  induction as generalizing d with
  | nil => rfl
  | cons b as ih =>
    rw [List.foldl_cons, ih, get?_erase]
    by_cases hb : a = b
    · simp [hb]
    · simp [hb]

theorem length_erase_lt {d : Dict α β} {a : α} {b : β} (h : d.get? a = some b) :
    (d.erase a).items.length < d.items.length := by
  apply List.length_filter_lt_length_iff_exists.mpr
  exact ⟨(a, b), get?_eq_some.mp h, by simp⟩

theorem length_foldl_erase_le (as : List α) (d : Dict α β) : (as.foldl erase d).items.length ≤ d.items.length := by
  induction as generalizing d with
  | nil => exact le_rfl
  | cons a as ih => exact (ih (d.erase a)).trans (List.length_filter_le _ _)

end Dict
