import DjangoQueues.Lib.Dict
import Mathlib.Data.List.Sort
import Mathlib.Data.Rat.Floor

/-! Sorted sets: members with a rational score, kept in ascending order of score and,
within one score, of member. The list is the canonical form, so two sorted sets with
the same scores are equal. -/

/-- Order of two scored members: by score, then by member. -/
def ScoreLE {α : Type*} [LinearOrder α] (p q : ℚ × α) : Prop :=
  p.1 < q.1 ∨ p.1 = q.1 ∧ p.2 ≤ q.2

section ScoreLE

variable {α : Type*} [LinearOrder α]

instance : DecidableRel (ScoreLE (α := α)) := fun p q =>
  inferInstanceAs (Decidable (p.1 < q.1 ∨ p.1 = q.1 ∧ p.2 ≤ q.2))

instance : Std.Total (ScoreLE (α := α)) where
  total p q := by
    rcases lt_trichotomy p.1 q.1 with h | h | h
    · exact .inl (.inl h)
    · rcases le_total p.2 q.2 with h' | h'
      · exact .inl (.inr ⟨h, h'⟩)
      · exact .inr (.inr ⟨h.symm, h'⟩)
    · exact .inr (.inl h)

instance : IsTrans (ℚ × α) ScoreLE where
  trans p q r := by
    rintro (h | ⟨h, h'⟩) (k | ⟨k, k'⟩)
    · exact .inl (h.trans k)
    · exact .inl (k ▸ h)
    · exact .inl (h ▸ k)
    · exact .inr ⟨h.trans k, h'.trans k'⟩

instance : Std.Antisymm (ScoreLE (α := α)) where
  antisymm p q := by
    rintro (h | ⟨h, h'⟩) (k | ⟨k, k'⟩)
    · exact absurd (h.trans k) (lt_irrefl _)
    · exact absurd h (k ▸ lt_irrefl _)
    · exact absurd k (h ▸ lt_irrefl _)
    · exact Prod.ext h (le_antisymm h' k')

end ScoreLE

structure SortedSet (α : Type*) [LinearOrder α] where
  items : List (ℚ × α)
  sorted : items.Pairwise ScoreLE
  nodup : (items.map Prod.snd).Nodup

namespace SortedSet

variable {α : Type*} [LinearOrder α]

def empty : SortedSet α := ⟨[], List.Pairwise.nil, List.nodup_nil⟩

def score? (z : SortedSet α) (m : α) : Option ℚ := (z.items.find? (·.2 = m)).map Prod.fst

def rem (z : SortedSet α) (m : α) : SortedSet α where
  items := z.items.filter (·.2 ≠ m)
  sorted := z.sorted.sublist List.filter_sublist
  nodup := z.nodup.sublist (List.Sublist.map _ List.filter_sublist)

def add (z : SortedSet α) (m : α) (s : ℚ) : SortedSet α where
  items := (z.rem m).items.orderedInsert ScoreLE (s, m)
  sorted := (z.rem m).sorted.orderedInsert _ _
  nodup := by
    refine (((z.rem m).items.perm_orderedInsert ScoreLE (s, m)).map Prod.snd).nodup_iff.mpr ?_
    rw [List.map_cons, List.nodup_cons]
    refine ⟨?_, (z.rem m).nodup⟩
    simp [rem]

def card (z : SortedSet α) : ℕ := z.items.length

/-- Members with score at most `x`, in ascending order. -/
def upTo (z : SortedSet α) (x : ℚ) : List (ℚ × α) := z.items.filter (·.1 ≤ x)

/-- Members with score exactly `x`, in ascending order of member. -/
def withScore (z : SortedSet α) (x : ℚ) : List α := (z.items.filter (·.1 = x)).map Prod.snd

/-- The last member in ascending order, with its score. -/
def top? (z : SortedSet α) : Option (ℚ × α) := z.items.getLast?

theorem score?_eq_some {z : SortedSet α} {m : α} {s : ℚ} :
    z.score? m = some s ↔ (s, m) ∈ z.items := by
  rw [score?, Option.map_eq_some_iff]
  constructor
  · rintro ⟨⟨t, k⟩, hf, rfl⟩
    obtain ⟨hp, rfl⟩ := (List.find?_key_eq_some z.nodup).mp hf
    exact hp
  · intro h
    exact ⟨(s, m), (List.find?_key_eq_some z.nodup).mpr ⟨h, rfl⟩, rfl⟩

@[simp]
theorem score?_empty (m : α) : (empty : SortedSet α).score? m = none := rfl

@[simp, grind =]
theorem score?_rem (z : SortedSet α) (m m' : α) :
    (z.rem m).score? m' = if m' = m then none else z.score? m' := by
  ext c
  rw [score?_eq_some, rem]
  split_ifs with h
  · simp [h]
  · simp [h, score?_eq_some]

@[simp, grind =]
theorem score?_add (z : SortedSet α) (m m' : α) (s : ℚ) :
    (z.add m s).score? m' = if m' = m then some s else z.score? m' := by
  ext c
  rw [score?_eq_some, add, List.mem_orderedInsert, ← score?_eq_some, score?_rem]
  split_ifs with h
  · simp [h, eq_comm]
  · simp [h]

/-- The canonical form: equal scores make equal sorted sets. -/
theorem ext_score {z w : SortedSet α} (h : ∀ m, z.score? m = w.score? m) : z = w := by
  have hmem : ∀ p, p ∈ z.items ↔ p ∈ w.items := fun p => by
    rw [← score?_eq_some (m := p.2), ← score?_eq_some (m := p.2), h]
  have hperm : z.items.Perm w.items :=
    (List.perm_ext_iff_of_nodup (List.Nodup.of_map _ z.nodup) (List.Nodup.of_map _ w.nodup)).mpr hmem
  have he : z.items = w.items := hperm.eq_of_pairwise' z.sorted w.sorted
  cases z
  cases w
  cases he
  rfl

theorem rem_of_score?_eq_none {z : SortedSet α} {m : α} (h : z.score? m = none) : z.rem m = z :=
  ext_score fun m' => by
    rw [score?_rem]
    split_ifs with hm
    · rw [hm, h]
    · rfl

theorem add_rem_self {z : SortedSet α} {m : α} {s : ℚ} (h : z.score? m = some s) :
    (z.rem m).add m s = z :=
  ext_score fun m' => by
    rw [score?_add, score?_rem]
    split_ifs with hm
    · rw [hm, h]
    · rfl

theorem card_eq_zero {z : SortedSet α} : z.card = 0 ↔ ∀ m, z.score? m = none := by
  rw [card, List.length_eq_zero_iff, List.eq_nil_iff_forall_not_mem]
  constructor
  · intro h m
    exact Option.eq_none_iff_forall_ne_some.mpr fun s hs => h _ (score?_eq_some.mp hs)
  · intro h p hp
    exact absurd (score?_eq_some.mpr hp) (by simp [h])

theorem mem_upTo {z : SortedSet α} {x : ℚ} {p : ℚ × α} :
    p ∈ z.upTo x ↔ z.score? p.2 = some p.1 ∧ p.1 ≤ x := by
  simp [upTo, score?_eq_some]

theorem nodup_upTo (z : SortedSet α) (x : ℚ) : ((z.upTo x).map Prod.snd).Nodup :=
  z.nodup.sublist (List.Sublist.map _ List.filter_sublist)

theorem mem_withScore {z : SortedSet α} {x : ℚ} {m : α} :
    m ∈ z.withScore x ↔ z.score? m = some x := by
  rw [score?_eq_some, withScore, List.mem_map]
  constructor
  · rintro ⟨⟨s, k⟩, hp, rfl⟩
    obtain ⟨hp, hs⟩ := List.mem_filter.mp hp
    exact (by simpa using hs : s = x) ▸ hp
  · intro h
    exact ⟨(x, m), List.mem_filter.mpr ⟨h, by simp⟩, rfl⟩

theorem nodup_withScore (z : SortedSet α) (x : ℚ) : (z.withScore x).Nodup :=
  z.nodup.sublist (List.Sublist.map _ List.filter_sublist)

theorem scoreLE_of_head?_upTo {z : SortedSet α} {x : ℚ} {p q : ℚ × α} (h : (z.upTo x).head? = some p)
    (hq : q ∈ z.upTo x) : ScoreLE p q := by
  have hs : (z.upTo x).Pairwise ScoreLE := z.sorted.sublist List.filter_sublist
  obtain ⟨l, hl⟩ := List.head?_eq_some_iff.mp h
  rw [hl] at hs hq
  rcases List.mem_cons.mp hq with rfl | hin
  · exact .inr ⟨rfl, le_rfl⟩
  · exact List.rel_of_pairwise_cons hs hin

theorem withScore_sorted (z : SortedSet α) (x : ℚ) : (z.withScore x).Pairwise (· < ·) := by
  have hle : (z.withScore x).Pairwise (· ≤ ·) := by
    refine List.pairwise_map.mpr (List.Pairwise.imp_of_mem ?_ (z.sorted.sublist List.filter_sublist))
    intro p q hp hq hpq
    have hp' : p.1 = x := by simpa using (List.mem_filter.mp hp).2
    have hq' : q.1 = x := by simpa using (List.mem_filter.mp hq).2
    rcases hpq with hlt | ⟨-, h⟩
    · rw [hp', hq'] at hlt
      exact absurd hlt (lt_irrefl x)
    · exact h
  exact hle.imp₂ (fun a b hab hne => lt_of_le_of_ne hab hne) (z.nodup_withScore x)

theorem top?_eq_none {z : SortedSet α} : z.top? = none ↔ z.card = 0 := by
  rw [top?, List.getLast?_eq_none_iff, card, List.length_eq_zero_iff]

theorem top?_eq_some {z : SortedSet α} {p : ℚ × α} (h : z.top? = some p) :
    z.score? p.2 = some p.1 ∧ ∀ m s, z.score? m = some s → ScoreLE (s, m) p := by
  obtain ⟨l, hl⟩ := List.getLast?_eq_some_iff.mp h
  refine ⟨score?_eq_some.mpr (by rw [hl]; simp), fun m s hm => ?_⟩
  have hmem : (s, m) ∈ l ++ [p] := hl ▸ score?_eq_some.mp hm
  rcases List.mem_append.mp hmem with hin | hin
  · have hs := hl ▸ z.sorted
    exact (List.pairwise_append.mp hs).2.2 _ hin _ (List.mem_singleton_self p)
  · rw [List.mem_singleton.mp hin]
    exact .inr ⟨rfl, le_rfl⟩

theorem top?_of_max {z : SortedSet α} {m : α} {s : ℚ} (h : z.score? m = some s)
    (hmax : ∀ m' s', z.score? m' = some s' → ScoreLE (s', m') (s, m)) : z.top? = some (s, m) := by
  cases htop : z.top? with
  | none => simp [card_eq_zero.mp (top?_eq_none.mp htop) m] at h
  | some p =>
    obtain ⟨hp, hle⟩ := top?_eq_some htop
    exact congrArg some (Std.Antisymm.antisymm _ _ (hmax p.2 p.1 hp) (hle m s h))

theorem card_add {z : SortedSet α} {m : α} (h : z.score? m = none) (s : ℚ) : (z.add m s).card = z.card + 1 := by
  have hins : (z.add m s).card = (z.rem m).card + 1 := List.orderedInsert_length ..
  rw [hins, rem_of_score?_eq_none h]

theorem card_rem {z : SortedSet α} {m : α} {s : ℚ} (h : z.score? m = some s) : (z.rem m).card + 1 = z.card := by
  have habsent : (z.rem m).score? m = none := by simp
  rw [← card_add habsent s, add_rem_self h]

theorem card_rem_le (z : SortedSet α) (m : α) : (z.rem m).card ≤ z.card :=
  List.length_filter_le _ _

/-- The first member has the least score. -/
theorem head?_eq_some {z : SortedSet α} {p : ℚ × α} (h : z.items.head? = some p) :
    z.score? p.2 = some p.1 ∧ ∀ m x, z.score? m = some x → p.1 ≤ x := by
  obtain ⟨rest, hitems⟩ := List.head?_eq_some_iff.mp h
  refine ⟨score?_eq_some.mpr (by rw [hitems]; exact List.mem_cons_self), fun m x hm => ?_⟩
  have hmem := score?_eq_some.mp hm
  have hsorted := z.sorted
  rw [hitems] at hmem hsorted
  rcases List.mem_cons.mp hmem with heq | hmem
  · rw [← heq]
  · rcases List.rel_of_pairwise_cons hsorted hmem with hlt | ⟨heq, -⟩
    · exact hlt.le
    · exact heq.le

theorem score?_eq_none_of_head? {z : SortedSet α} (h : z.items.head? = none) (m : α) : z.score? m = none := by
  rw [score?, List.head?_eq_none_iff.mp h]
  rfl

end SortedSet
