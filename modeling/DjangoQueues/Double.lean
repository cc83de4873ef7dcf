import DjangoQueues.Lib.Rounding

/-! The number formats between Python, Lua and Redis: IEEE binary64 values as
rationals, and the 14 significant decimal digits with which `cjson` prints one. -/

namespace DjangoQueues

open Rounding

def binary64 : Format where
  base := 2
  digits := 53
  emin := some (-1074)
  one_lt_base := by norm_num
  digits_pos := by norm_num
  emin_nonpos := by simp

/-- The `%.14g` conversion of `cjson.encode`. -/
def decimal14 : Format where
  base := 10
  digits := 14
  emin := none
  one_lt_base := by norm_num
  digits_pos := by norm_num
  emin_nonpos := by simp

/-- The nearest binary64 value, overflow aside. -/
def fl (x : ℚ) : ℚ := binary64.round x

theorem fl_intCast {n : ℤ} (h : |n| < 2 ^ 53) : fl n = n :=
  binary64.round_intCast (by simpa [binary64] using (by exact_mod_cast h : |(n : ℚ)| < 2 ^ 53))

theorem fl_natCast {n : ℕ} (h : n < 2 ^ 53) : fl n = n := binary64.round_natCast h

theorem two_pow_le_fl {x : ℚ} {m : ℕ} (h : 2 ^ m ≤ x) : 2 ^ m ≤ fl x := by
  have hb : ((binary64.base : ℕ) : ℚ) = 2 := rfl
  have := binary64.zpow_le_round (x := x) (m := m) (by rw [hb]; exact h)
  rwa [hb] at this

/-- Below `2 ^ 53` rounding neither merges nor reorders whole numbers. -/
theorem fl_natCast_le_iff {m n : ℕ} (hn : n < 2 ^ 53) : fl m ≤ n ↔ m ≤ n := by
  rcases lt_or_ge m (2 ^ 53) with hm | hm
  · rw [fl_natCast hm, Nat.cast_le]
  · have hbig : (2 : ℚ) ^ 53 ≤ fl m := two_pow_le_fl (by exact_mod_cast hm)
    have hn' : (n : ℚ) < 2 ^ 53 := by exact_mod_cast hn
    exact iff_of_false (not_le.mpr (hn'.trans_le hbig)) (by omega)

theorem fl_natCast_eq_iff {m n : ℕ} (hn : n < 2 ^ 53) : fl m = n ↔ m = n := by
  constructor
  · intro h
    have hm : m ≤ n := (fl_natCast_le_iff hn).mp h.le
    rw [fl_natCast (hm.trans_lt hn)] at h
    exact_mod_cast h
  · rintro rfl
    exact fl_natCast hn

/-- The error of a number below `2 ^ k`. -/
theorem abs_fl_sub_le {x : ℚ} {k : ℤ} (h : |x| < 2 ^ k) (hk : -1021 ≤ k) : |fl x - x| ≤ 2 ^ (k - 54) := by
  have hb : ((binary64.base : ℕ) : ℚ) = 2 := rfl
  have herr := binary64.abs_round_sub_le_zpow (x := x) (k := k) (by rwa [hb]) (by
    intro e he
    obtain rfl : -1074 = e := Option.some.inj he
    change -1074 ≤ k - 53
    omega)
  have hhalf : (2 : ℚ) ^ (k - 53) / 2 = 2 ^ (k - 54) := by
    rw [show k - 53 = k - 54 + 1 by ring, zpow_add_one₀ (by norm_num)]
    ring
  rw [hb] at herr
  calc |fl x - x| ≤ 2 ^ (k - 53) / 2 := herr
    _ = 2 ^ (k - 54) := hhalf

theorem natCast_le_fl {n : ℕ} {x : ℚ} (h : n ≤ x) (hx : |x| < 2 ^ 53) : n ≤ fl x :=
  binary64.natCast_le_round h (by simpa [binary64] using hx)

theorem fl_nonneg {x : ℚ} (h : 0 ≤ x) : 0 ≤ fl x := binary64.round_nonneg h

theorem fl_le_fl {x y : ℚ} (hx : 0 ≤ x) (hxy : x ≤ y) : fl x ≤ fl y := binary64.round_le_round hx hxy

theorem fl_fl (x : ℚ) : fl (fl x) = fl x := binary64.round_round x

/-- Numbers in the range of exact integers do not overflow. -/
theorem lt_overflow {x : ℚ} (h : x < 2 ^ 53) : x < 2 ^ 1024 :=
  h.trans (pow_lt_pow_right₀ (by norm_num) (by norm_num))

def IsDouble (q : ℚ) : Prop := fl q = q ∧ |q| < 2 ^ 1024

instance (q : ℚ) : Decidable (IsDouble q) := inferInstanceAs (Decidable (_ ∧ _))

/-- A binary64 value. A finite one is representable by construction. -/
inductive Double where
  | finite (q : ℚ) (h : IsDouble q)
  | infinite (negative : Bool)
  | nan
deriving DecidableEq

namespace Double

/-- The nearest binary64 value; magnitudes from 2^1024 on overflow. -/
def ofRat (x : ℚ) : Double :=
  if h : |fl x| < 2 ^ 1024 then .finite (fl x) ⟨fl_fl x, h⟩ else .infinite (decide (x < 0))

theorem ofRat_of_isDouble {q : ℚ} (h : IsDouble q) : ofRat q = .finite q h := by
  unfold ofRat
  rw [dif_pos (by rw [h.1]; exact h.2)]
  simp only [h.1]

theorem ofRat_natCast {n : ℕ} (h : n < 2 ^ 53) : ∃ hn, ofRat n = .finite n hn := by
  have hb : |(n : ℚ)| < 2 ^ 1024 := by
    rw [Nat.abs_cast]
    exact lt_overflow (by exact_mod_cast h)
  exact ⟨⟨fl_natCast h, hb⟩, ofRat_of_isDouble _⟩

end Double

end DjangoQueues
