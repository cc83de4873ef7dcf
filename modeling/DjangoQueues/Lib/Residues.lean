import Mathlib.Data.Int.CardIntervalMod
import Mathlib.Data.List.Nodup

/-! Runs of consecutive residues. -/

/-- The residues modulo `n` of the `m` numbers from `k` on. -/
def residues (n k m : ℕ) : List ℕ := (List.range m).map fun i => (k + i) % n

variable (n k : ℕ)

@[simp]
theorem length_residues (m : ℕ) : (residues n k m).length = m := by simp [residues]

@[simp]
theorem residues_zero : residues n k 0 = [] := rfl

theorem residues_append (m m' : ℕ) : residues n k m ++ residues n (k + m) m' = residues n k (m + m') := by
  unfold residues
  rw [List.range_add, List.map_append, List.map_map]
  congr 1
  apply List.map_congr_left
  intro i _
  show (k + m + i) % n = (k + (m + i)) % n
  rw [Nat.add_assoc]

variable {n}

/-- One round meets no residue twice. -/
theorem nodup_residues {m : ℕ} (h : m ≤ n) : (residues n k m).Nodup := by
  refine (List.nodup_map_iff_inj_on List.nodup_range).mpr fun i hi j hj hij => ?_
  rw [List.mem_range] at hi hj
  have hmod : i ≡ j [MOD n] := Nat.ModEq.add_left_cancel' k hij
  exact Nat.ModEq.eq_of_lt_of_lt hmod (hi.trans_le h) (hj.trans_le h)

theorem count_residues (m i : ℕ) (hi : i < n) : (residues n 0 m).count i = Nat.count (· ≡ i [MOD n]) m := by
  induction m with
  | zero => rfl
  | succ m ih =>
    rw [← residues_append, List.count_append, ih, Nat.count_succ]
    have hone : residues n (0 + m) 1 = [m % n] := by simp [residues]
    rw [hone, List.count_singleton]
    simp only [beq_iff_eq, Nat.ModEq, Nat.mod_eq_of_lt hi]

/-- Two residues have been met equally often, or one of them once more. -/
theorem count_residues_le (m : ℕ) {i j : ℕ} (hi : i < n) (hj : j < n) :
    (residues n 0 m).count i ≤ (residues n 0 m).count j + 1 := by
  have hn : 0 < n := Nat.zero_lt_of_lt hi
  rw [count_residues m i hi, count_residues m j hj, Nat.count_modEq_card m hn, Nat.count_modEq_card m hn]
  split_ifs <;> omega
