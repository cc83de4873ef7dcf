import DjangoQueues.Lib.SortedSet

/-! Priority queues that serve equal priorities in the order of arrival, and how a sorted
set keeps one when priority and arrival are packed into a single score. -/

/-- Each present element has a priority and the number of the push it came with. -/
structure StampedQueue (α : Type*) where
  entries : α → Option (ℤ × ℕ)
  count : ℕ
  le_count : ∀ {a p n}, entries a = some (p, n) → n ≤ count
  stamp_inj : ∀ {a b p q n}, entries a = some (p, n) → entries b = some (q, n) → a = b

namespace StampedQueue

variable {α : Type*} [DecidableEq α]

def empty : StampedQueue α where
  entries _ := none
  count := 0
  le_count h := by cases h
  stamp_inj h := by cases h

def push (a : α) (p : ℤ) (Q : StampedQueue α) : StampedQueue α where
  entries := Function.update Q.entries a (some (p, Q.count + 1))
  count := Q.count + 1
  le_count {b q n} h := by
    by_cases hb : b = a
    · subst hb
      simp only [Function.update_self, Option.some.injEq, Prod.mk.injEq] at h
      omega
    · rw [Function.update_of_ne hb] at h
      exact (Q.le_count h).trans (Nat.le_succ _)
  stamp_inj {b c q r n} hb hc := by
    by_cases h : b = a <;> by_cases h' : c = a
    · rw [h, h']
    · subst h
      rw [Function.update_of_ne h'] at hc
      simp only [Function.update_self, Option.some.injEq, Prod.mk.injEq] at hb
      have := Q.le_count hc
      omega
    · subst h'
      rw [Function.update_of_ne h] at hb
      simp only [Function.update_self, Option.some.injEq, Prod.mk.injEq] at hc
      have := Q.le_count hb
      omega
    · rw [Function.update_of_ne h] at hb
      rw [Function.update_of_ne h'] at hc
      exact Q.stamp_inj hb hc

def drop (a : α) (Q : StampedQueue α) : StampedQueue α where
  entries := Function.update Q.entries a none
  count := Q.count
  le_count {b q n} h := by
    by_cases hb : b = a
    · simp [hb] at h
    · rw [Function.update_of_ne hb] at h
      exact Q.le_count h
  stamp_inj {b c q r n} hb hc := by
    by_cases h : b = a
    · simp [h] at hb
    · by_cases h' : c = a
      · simp [h'] at hc
      · rw [Function.update_of_ne h] at hb
        rw [Function.update_of_ne h'] at hc
        exact Q.stamp_inj hb hc

variable {Q : StampedQueue α} {a b : α} {p q : ℤ} {n m : ℕ}

theorem entries_push (a b : α) (p : ℤ) (Q : StampedQueue α) :
    (Q.push a p).entries b = if b = a then some (p, Q.count + 1) else Q.entries b := by
  simp [push, Function.update_apply]

theorem entries_drop (a b : α) (Q : StampedQueue α) :
    (Q.drop a).entries b = if b = a then none else Q.entries b := by
  simp [drop, Function.update_apply]

/-- `a` has the greatest priority and, among equals, came first. -/
def IsFirst (Q : StampedQueue α) (a : α) : Prop :=
  ∃ p n, Q.entries a = some (p, n) ∧ ∀ b q m, Q.entries b = some (q, m) → q < p ∨ q = p ∧ n ≤ m

/-- What the queue serves next, if anything. -/
def Serves (Q : StampedQueue α) : Option α → Prop
  | none => ∀ a, Q.entries a = none
  | some a => Q.IsFirst a

omit [DecidableEq α] in
theorem IsFirst.unique (ha : Q.IsFirst a) (hb : Q.IsFirst b) : a = b := by
  obtain ⟨p, n, ha, hmax⟩ := ha
  obtain ⟨q, m, hb, hmax'⟩ := hb
  have h₁ := hmax b q m hb
  have h₂ := hmax' a p n ha
  obtain rfl : n = m := by omega
  exact Q.stamp_inj ha hb

omit [DecidableEq α] in
theorem Serves.unique {o o' : Option α} (h : Q.Serves o) (h' : Q.Serves o') : o = o' := by
  cases o with
  | none =>
    cases o' with
    | none => rfl
    | some b =>
      obtain ⟨p, n, hb, -⟩ := h'
      simp [h b] at hb
  | some a =>
    cases o' with
    | none =>
      obtain ⟨p, n, ha, -⟩ := h
      simp [h' a] at ha
    | some b => rw [IsFirst.unique h h']

/-! ## Packed scores -/

/-- Priorities `space` apart, and earlier arrivals above later ones. -/
def pack (space : ℕ) (p : ℤ) (n : ℕ) : ℤ := p * space - n

/-- Within a window of `space` arrivals the packed order is the order of service. -/
theorem pack_le_pack {space : ℕ} (h : m < n + space)
    (hle : pack space q m ≤ pack space p n) : q < p ∨ q = p ∧ n ≤ m := by
  unfold pack at hle
  rcases lt_trichotomy q p with hlt | rfl | hgt
  · exact .inl hlt
  · exact .inr ⟨rfl, by omega⟩
  · have hstep : (p + 1) * space ≤ q * space :=
      mul_le_mul_of_nonneg_right (by omega) (by omega)
    rw [add_mul, one_mul] at hstep
    omega

end StampedQueue

namespace SortedSet

open StampedQueue

/-- The sorted set holds the elements of the queue at their packed scores. Its counter stands at
`k`: it was last reset `k` pushes ago, before every present element came, and no two present
elements came `space` pushes apart. -/
structure Packs {α : Type*} [LinearOrder α] (space : ℕ) (z : SortedSet α) (k : ℕ)
    (Q : StampedQueue α) : Prop where
  le : k ≤ Q.count
  score : ∀ a, z.score? a =
    (Q.entries a).map fun e => (pack space e.1 (e.2 - (Q.count - k)) : ℚ)
  recent : ∀ {a p n}, Q.entries a = some (p, n) → Q.count - k < n
  window : ∀ {a b p q n m}, Q.entries a = some (p, n) → Q.entries b = some (q, m) → n < m + space

namespace Packs

variable {α : Type*} [LinearOrder α] {space k : ℕ} {z : SortedSet α} {Q : StampedQueue α} {a : α} {p : ℤ}

theorem empty (space : ℕ) : Packs space (SortedSet.empty : SortedSet α) 0 .empty where
  le := le_rfl
  score _ := rfl
  recent h := by cases h
  window h := by cases h

theorem push [DecidableEq α] (h : Packs space z k Q)
    (hwin : ∀ b q m, b ≠ a → Q.entries b = some (q, m) → Q.count + 1 < m + space) (hspace : 0 < space) :
    Packs space (z.add a (pack space p (k + 1) : ℚ)) (k + 1) (Q.push a p) := by
  have hle := h.le
  have hcount : (Q.push a p).count = Q.count + 1 := rfl
  have hoff : Q.count + 1 - (k + 1) = Q.count - k := by omega
  refine ⟨by rw [hcount]; omega, fun b => ?_, fun {b q n} hb => ?_, fun {b c q r n m} hb hc => ?_⟩
  · rw [SortedSet.score?_add, entries_push, hcount, hoff]
    split_ifs with hb
    · rw [Option.map_some, show Q.count + 1 - (Q.count - k) = k + 1 by omega]
    · exact h.score b
  · rw [hcount, hoff]
    rw [entries_push] at hb
    split_ifs at hb with hba
    · simp only [Option.some.injEq, Prod.mk.injEq] at hb
      omega
    · exact h.recent hb
  · rw [entries_push] at hb hc
    split_ifs at hb hc with hba hca hca
    · simp only [Option.some.injEq, Prod.mk.injEq] at hb hc
      omega
    · simp only [Option.some.injEq, Prod.mk.injEq] at hb
      have := hwin c r m hca hc
      omega
    · simp only [Option.some.injEq, Prod.mk.injEq] at hc
      have := Q.le_count hb
      omega
    · exact h.window hb hc

theorem drop [DecidableEq α] (h : Packs space z k Q) (a : α) : Packs space (z.rem a) k (Q.drop a) := by
  have hkeep {b : α} {e : ℤ × ℕ} (hb : (Q.drop a).entries b = some e) : Q.entries b = some e := by
    rw [entries_drop] at hb
    split_ifs at hb
    exact hb
  refine ⟨h.le, fun b => ?_, fun hb => h.recent (hkeep hb), fun hb hc => h.window (hkeep hb) (hkeep hc)⟩
  rw [SortedSet.score?_rem, entries_drop]
  split_ifs
  · rfl
  · exact h.score b

theorem entries_eq_none (h : Packs space z k Q) : Q.entries a = none ↔ z.score? a = none := by
  rw [h.score, Option.map_eq_none_iff]

/-- The counter may be reset when nothing is present. -/
theorem reset (h : Packs space z k Q) (hz : z.card = 0) : Packs space z 0 Q := by
  have hnone (a : α) : Q.entries a = none := h.entries_eq_none.mpr (SortedSet.card_eq_zero.mp hz a)
  refine ⟨Nat.zero_le _, fun a => ?_, fun {a p n} ha => ?_, fun {a b p q n m} ha _ => ?_⟩
  · rw [hnone, Option.map_none]
    exact SortedSet.card_eq_zero.mp hz a
  · simp [hnone] at ha
  · simp [hnone] at ha

/-- The last member in ascending order is the one the queue serves next. -/
theorem serves_top (h : Packs space z k Q) : Q.Serves (z.top?.map Prod.snd) := by
  rcases htop : z.top? with _ | ⟨x, a⟩
  · intro a
    exact h.entries_eq_none.mpr (SortedSet.card_eq_zero.mp (SortedSet.top?_eq_none.mp htop) a)
  · obtain ⟨hx, hmax⟩ := SortedSet.top?_eq_some htop
    rw [h.score, Option.map_eq_some_iff] at hx
    obtain ⟨⟨p, n⟩, ha, rfl⟩ := hx
    refine ⟨p, n, ha, fun b q m hb => ?_⟩
    have hscore : z.score? b = some (pack space q (m - (Q.count - k)) : ℚ) := by
      rw [h.score, hb, Option.map_some]
    have hle : (pack space q (m - (Q.count - k)) : ℚ) ≤ pack space p (n - (Q.count - k)) := by
      rcases hmax b _ hscore with hlt | ⟨heq, -⟩
      · exact hlt.le
      · exact heq.le
    have hn := h.recent ha
    have hm := h.recent hb
    have hwindow := h.window hb ha
    have := pack_le_pack (by omega) (Int.cast_le.mp hle)
    omega

end Packs

end SortedSet
