import Mathlib.Data.Int.Log
import Mathlib.Data.Rat.Floor
import Mathlib.Tactic

/-! Rounding a rational to the nearest value with a fixed number of significant
digits in a fixed base, ties to even. Binary floating point and decimal printing
are both instances; no assertion about Lean's `Float` is made. -/

namespace Rounding

/-- The nearest integer, an exact half going to the even neighbour. -/
def halfEven (x : ℚ) : ℤ :=
  if x - ⌊x⌋ < 1 / 2 then ⌊x⌋
  else if 1 / 2 < x - ⌊x⌋ then ⌊x⌋ + 1
  else if ⌊x⌋ % 2 = 0 then ⌊x⌋ else ⌊x⌋ + 1

theorem halfEven_intCast (n : ℤ) : halfEven n = n := by
  unfold halfEven
  rw [Int.floor_intCast, sub_self, if_pos (by norm_num)]

theorem abs_halfEven_sub_le (x : ℚ) : |(halfEven x : ℚ) - x| ≤ 1 / 2 := by
  have h0 : 0 ≤ x - ⌊x⌋ := sub_nonneg.mpr (Int.floor_le x)
  have h1 : x - ⌊x⌋ < 1 := by linarith [Int.lt_floor_add_one x]
  unfold halfEven
  rw [abs_le]
  split_ifs with h h' h''
  · constructor <;> linarith
  · push_cast
    constructor <;> linarith
  · constructor <;> linarith
  · push_cast
    constructor <;> linarith

theorem halfEven_eq_of_abs_lt {x : ℚ} {n : ℤ} (h : |x - n| < 1 / 2) : halfEven x = n := by
  have hx := abs_halfEven_sub_le x
  have hlt : |((halfEven x - n : ℤ) : ℚ)| < 1 := by
    push_cast
    calc |(halfEven x : ℚ) - n| = |((halfEven x : ℚ) - x) + (x - n)| := by congr 1; ring
      _ ≤ |(halfEven x : ℚ) - x| + |x - n| := abs_add_le _ _
      _ < 1 := by linarith
  have hz : |halfEven x - n| < 1 := by exact_mod_cast hlt
  have := Int.abs_lt_one_iff.mp hz
  omega

theorem floor_le_halfEven (x : ℚ) : ⌊x⌋ ≤ halfEven x := by
  unfold halfEven
  split_ifs <;> omega

theorem halfEven_le_floor_add_one (x : ℚ) : halfEven x ≤ ⌊x⌋ + 1 := by
  unfold halfEven
  split_ifs <;> omega

theorem le_halfEven {n : ℤ} {x : ℚ} (h : (n : ℚ) ≤ x) : n ≤ halfEven x :=
  (Int.le_floor.mpr h).trans (floor_le_halfEven x)

theorem halfEven_mono {x y : ℚ} (h : x ≤ y) : halfEven x ≤ halfEven y := by
  rcases (Int.floor_mono h).lt_or_eq with hlt | heq
  · exact (halfEven_le_floor_add_one x).trans (le_trans (by omega) (floor_le_halfEven y))
  · unfold halfEven
    rw [heq]
    have hd : x - ⌊y⌋ ≤ y - ⌊y⌋ := by linarith
    split_ifs <;> first | omega | (exfalso; linarith)

theorem halfEven_le {n : ℤ} {x : ℚ} (h : x ≤ n) : halfEven x ≤ n := by
  simpa [halfEven_intCast] using halfEven_mono h

theorem abs_halfEven_le {n : ℤ} {x : ℚ} (h : |x| ≤ n) : |halfEven x| ≤ n := by
  obtain ⟨hl, hr⟩ := abs_le.mp h
  exact abs_le.mpr ⟨le_halfEven (by push_cast; exact hl), halfEven_le hr⟩

/-- Halfway between two whole numbers. -/
def Tie (x : ℚ) : Prop := x - ⌊x⌋ = 1 / 2

/-- Rounding commutes with adding a whole number, but for ties that an odd number moves to the other parity. -/
theorem halfEven_add_intCast_iff (x : ℚ) (n : ℤ) : halfEven (x + n) = halfEven x + n ↔ Even n ∨ ¬Tie x := by
  have hfrac : x + n - ((⌊x⌋ + n : ℤ) : ℚ) = x - ⌊x⌋ := by
    push_cast
    ring
  unfold halfEven Tie
  rw [Int.floor_add_intCast, hfrac]
  split_ifs with h₁ h₂ h₃ h₄ h₄
  · exact ⟨fun _ => .inr h₁.ne, fun _ => rfl⟩
  · exact ⟨fun _ => .inr h₂.ne', fun _ => by omega⟩
  · exact ⟨fun _ => .inl (Int.even_iff.mpr (by omega)), fun _ => rfl⟩
  · have htie : x - ⌊x⌋ = 1 / 2 := le_antisymm (not_lt.mp h₂) (not_lt.mp h₁)
    refine ⟨fun h => by omega, fun h => ?_⟩
    have heven := Int.even_iff.mp (h.resolve_right (not_not.mpr htie))
    omega
  · have htie : x - ⌊x⌋ = 1 / 2 := le_antisymm (not_lt.mp h₂) (not_lt.mp h₁)
    refine ⟨fun h => by omega, fun h => ?_⟩
    have heven := Int.even_iff.mp (h.resolve_right (not_not.mpr htie))
    omega
  · exact ⟨fun _ => .inl (Int.even_iff.mpr (by omega)), fun _ => by omega⟩

/-- Rounding to a multiple of `u`. -/
def roundAt (u x : ℚ) : ℚ := u * halfEven (x / u)

theorem roundAt_eq_self {u x : ℚ} (hu : u ≠ 0) {n : ℤ} (hx : x = u * n) : roundAt u x = x := by
  rw [hx, roundAt, mul_div_cancel_left₀ _ hu, halfEven_intCast]

theorem abs_roundAt_sub_le {u : ℚ} (hu : 0 < u) (x : ℚ) : |roundAt u x - x| ≤ u / 2 := by
  have h := abs_halfEven_sub_le (x / u)
  have he : roundAt u x - x = u * ((halfEven (x / u) : ℚ) - x / u) := by
    rw [roundAt, mul_sub, mul_div_cancel₀ _ hu.ne']
  rw [he, abs_mul, abs_of_pos hu]
  calc u * |(halfEven (x / u) : ℚ) - x / u| ≤ u * (1 / 2) := mul_le_mul_of_nonneg_left h hu.le
    _ = u / 2 := by ring

theorem roundAt_mono {u : ℚ} (hu : 0 < u) {x y : ℚ} (h : x ≤ y) : roundAt u x ≤ roundAt u y := by
  have hd : x / u ≤ y / u := div_le_div_of_nonneg_right h hu.le
  exact mul_le_mul_of_nonneg_left (by exact_mod_cast halfEven_mono hd) hu.le

/-- A floating-point format: `digits` significant digits in `base`, the unit in the
last place never below `base ^ emin` where a least exponent is given. -/
structure Format where
  base : ℕ
  digits : ℕ
  emin : Option ℤ
  one_lt_base : 1 < base
  digits_pos : 0 < digits
  emin_nonpos : ∀ e ∈ emin, e ≤ 0

namespace Format

variable (F : Format)

def unitExp (x : ℚ) : ℤ :=
  match F.emin with
  | none => Int.log F.base |x| + 1 - F.digits
  | some e => max (Int.log F.base |x| + 1 - F.digits) e

def ulp (x : ℚ) : ℚ := (F.base : ℚ) ^ F.unitExp x

def round (x : ℚ) : ℚ := roundAt (F.ulp x) x

theorem base_pos : (0 : ℚ) < F.base := by
  exact_mod_cast (Nat.zero_lt_one.trans F.one_lt_base)

theorem ulp_pos (x : ℚ) : 0 < F.ulp x := zpow_pos F.base_pos _

@[simp]
theorem round_zero : F.round 0 = 0 := by
  exact roundAt_eq_self (F.ulp_pos 0).ne' (n := 0) (by simp)

theorem round_nonneg {x : ℚ} (h : 0 ≤ x) : 0 ≤ F.round x := by
  have hq : ((0 : ℤ) : ℚ) ≤ x / F.ulp x := by
    simpa using div_nonneg h (F.ulp_pos x).le
  have hn : (0 : ℚ) ≤ halfEven (x / F.ulp x) := by exact_mod_cast le_halfEven hq
  exact mul_nonneg (F.ulp_pos x).le hn

theorem abs_round_sub_le (x : ℚ) : |F.round x - x| ≤ F.ulp x / 2 :=
  abs_roundAt_sub_le (F.ulp_pos x) x

theorem log_sub_le_unitExp (x : ℚ) : Int.log F.base |x| + 1 - F.digits ≤ F.unitExp x := by
  unfold unitExp
  cases F.emin with
  | none => exact le_rfl
  | some e => exact le_max_left _ _

theorem emin_le_unitExp (x : ℚ) : ∀ e ∈ F.emin, e ≤ F.unitExp x := by
  intro e he
  unfold unitExp
  rw [Option.mem_def.mp he]
  exact le_max_right _ _

theorem unitExp_le {x : ℚ} {m : ℤ} (h : Int.log F.base |x| + 1 - F.digits ≤ m)
    (he : ∀ e ∈ F.emin, e ≤ m) : F.unitExp x ≤ m := by
  unfold unitExp
  cases hm : F.emin with
  | none => exact h
  | some e => exact max_le h (he e hm)

theorem unitExp_nonpos {x : ℚ} (h : |x| < (F.base : ℚ) ^ F.digits) : F.unitExp x ≤ 0 := by
  have hd := F.digits_pos
  have hlog : Int.log F.base |x| + 1 - F.digits ≤ 0 := by
    rcases eq_or_ne x 0 with rfl | hx
    · simp only [abs_zero, Int.log_zero_right]
      omega
    · have hlt : Int.log F.base |x| < (F.digits : ℤ) :=
        (Int.lt_zpow_iff_log_lt F.one_lt_base (abs_pos.mpr hx)).mp (by simpa using h)
      omega
  exact F.unitExp_le hlog F.emin_nonpos

/-- Below `base ^ k` rounding is off by at most half a unit of that binade. -/
theorem abs_round_sub_le_zpow {x : ℚ} {k : ℤ} (h : |x| < (F.base : ℚ) ^ k)
    (he : ∀ e ∈ F.emin, e ≤ k - F.digits) : |F.round x - x| ≤ (F.base : ℚ) ^ (k - F.digits) / 2 := by
  have hb := F.base_pos
  rcases eq_or_ne x 0 with rfl | hx
  · rw [F.round_zero, sub_zero, abs_zero]
    positivity
  · have hlog : Int.log F.base |x| < k := (Int.lt_zpow_iff_log_lt F.one_lt_base (abs_pos.mpr hx)).mp h
    have hunit : F.unitExp x ≤ k - F.digits := F.unitExp_le (by omega) he
    have hulp : F.ulp x ≤ (F.base : ℚ) ^ (k - F.digits) :=
      zpow_le_zpow_right₀ (by exact_mod_cast F.one_lt_base.le) hunit
    have hround := F.abs_round_sub_le x
    linarith

/-- Rounding does not cross a whole number the format holds. -/
theorem natCast_le_round {n : ℕ} {x : ℚ} (h : (n : ℚ) ≤ x) (hx : |x| < (F.base : ℚ) ^ F.digits) :
    (n : ℚ) ≤ F.round x := by
  have hb := F.base_pos
  have hulp := F.ulp_pos x
  obtain ⟨k, hk⟩ := Int.eq_ofNat_of_zero_le (neg_nonneg.mpr (F.unitExp_nonpos hx))
  have hunit : F.unitExp x = -(k : ℤ) := by omega
  -- the whole number is a multiple of the unit
  have hmul : (n : ℚ) = F.ulp x * ((n * F.base ^ k : ℕ) : ℤ) := by
    rw [ulp, hunit, zpow_neg, zpow_natCast]
    push_cast
    field_simp
  have hle : (((n * F.base ^ k : ℕ) : ℤ) : ℚ) ≤ x / F.ulp x := by
    rw [le_div_iff₀ hulp, mul_comm, ← hmul]
    exact h
  have hhalf : (((n * F.base ^ k : ℕ) : ℤ) : ℚ) ≤ halfEven (x / F.ulp x) := by exact_mod_cast le_halfEven hle
  rw [hmul, round, roundAt]
  exact mul_le_mul_of_nonneg_left hhalf hulp.le

/-- A multiple of the unit of some `x` of magnitude at most `base ^ digits` units is on the grid. -/
theorem round_ulp_mul (x : ℚ) {n : ℤ} (hn : |n| ≤ (F.base : ℤ) ^ F.digits) :
    F.round (F.ulp x * n) = F.ulp x * n := by
  set y := F.ulp x * n with hy
  have hb := F.base_pos
  rcases eq_or_ne y 0 with h0 | h0
  · rw [h0, round, roundAt_eq_self (F.ulp_pos 0).ne' (n := 0) (by simp)]
  rcases le_or_gt (F.unitExp y) (F.unitExp x) with hle | hgt
  · obtain ⟨k, hk⟩ := Int.eq_ofNat_of_zero_le (sub_nonneg.mpr hle)
    refine roundAt_eq_self (F.ulp_pos y).ne' (n := F.base ^ k * n) ?_
    have hx : F.ulp x = F.ulp y * (F.base : ℚ) ^ k := by
      rw [ulp, ulp, ← zpow_natCast, ← zpow_add₀ hb.ne', ← hk, add_sub_cancel]
    push_cast
    calc y = F.ulp x * n := hy
      _ = F.ulp y * ((F.base : ℚ) ^ k * n) := by rw [hx]; ring
  · -- only the power of the base just above the digits has a larger unit
    have hlog : F.unitExp x + F.digits ≤ Int.log F.base |y| := by
      by_contra hlt
      exact absurd (F.unitExp_le (x := y) (m := F.unitExp x) (by omega) (F.emin_le_unitExp x)) (by omega)
    have hlow : (F.base : ℚ) ^ (F.unitExp x + F.digits) ≤ |y| :=
      (Int.zpow_le_iff_le_log F.one_lt_base (abs_pos.mpr h0)).mpr hlog
    have hsplit : (F.base : ℚ) ^ (F.unitExp x + F.digits) = F.ulp x * (F.base : ℚ) ^ F.digits := by
      rw [ulp, zpow_add₀ hb.ne', zpow_natCast]
    have hnle : |(n : ℚ)| ≤ (F.base : ℚ) ^ F.digits := by exact_mod_cast hn
    have habs : |y| = F.ulp x * |(n : ℚ)| := by rw [hy, abs_mul, abs_of_pos (F.ulp_pos x)]
    have hn' : |(n : ℚ)| = (F.base : ℚ) ^ F.digits :=
      le_antisymm hnle (le_of_mul_le_mul_left (by rw [← hsplit, ← habs]; exact hlow) (F.ulp_pos x))
    have hunit : F.unitExp y = F.unitExp x + 1 := by
      have hl : Int.log F.base |y| = F.unitExp x + F.digits := by
        rw [habs, hn', ← hsplit, Int.log_zpow F.one_lt_base]
      refine le_antisymm (F.unitExp_le (by omega) fun e he => ?_) (by omega)
      exact (F.emin_le_unitExp x e he).trans (by omega)
    obtain ⟨d, hd⟩ := Nat.exists_eq_succ_of_ne_zero F.digits_pos.ne'
    have hpow : F.ulp x * (F.base : ℚ) ^ F.digits = F.ulp y * (F.base : ℚ) ^ d := by
      rw [ulp, ulp, hunit, hd, zpow_add₀ hb.ne', zpow_one, Nat.succ_eq_add_one, pow_succ]
      ring
    rcases abs_choice (n : ℚ) with hs | hs
    · refine roundAt_eq_self (F.ulp_pos y).ne' (n := F.base ^ d) ?_
      push_cast
      rw [hy, ← hpow, ← hn', hs]
    · refine roundAt_eq_self (F.ulp_pos y).ne' (n := -F.base ^ d) ?_
      push_cast
      rw [hy, mul_neg, ← hpow, ← hn', hs]
      ring

theorem abs_le_ulp_mul (x : ℚ) : |x| ≤ F.ulp x * (F.base : ℚ) ^ F.digits := by
  have hb := F.base_pos
  have hlt := Int.lt_zpow_succ_log_self F.one_lt_base |x|
  refine hlt.le.trans ?_
  rw [ulp, ← zpow_natCast, ← zpow_add₀ hb.ne']
  have := F.log_sub_le_unitExp x
  exact zpow_le_zpow_right₀ (by exact_mod_cast F.one_lt_base.le) (by omega)

theorem round_round (x : ℚ) : F.round (F.round x) = F.round x := by
  refine F.round_ulp_mul x (abs_halfEven_le ?_)
  rw [abs_div, abs_of_pos (F.ulp_pos x), div_le_iff₀ (F.ulp_pos x)]
  push_cast
  rw [mul_comm]
  exact F.abs_le_ulp_mul x

/-- Integers that fit in the digits are on the grid. -/
theorem round_intCast {n : ℤ} (h : |(n : ℚ)| < (F.base : ℚ) ^ F.digits) : F.round n = n := by
  obtain ⟨k, hk⟩ := Int.eq_ofNat_of_zero_le (neg_nonneg.mpr (F.unitExp_nonpos h))
  have hu : F.ulp n = ((F.base : ℚ) ^ k)⁻¹ := by
    rw [ulp, ← zpow_natCast, ← zpow_neg, ← hk, neg_neg]
  have hb : (F.base : ℚ) ^ k ≠ 0 := pow_ne_zero _ F.base_pos.ne'
  have hn : (n : ℚ) = F.ulp n * ((n * (F.base : ℤ) ^ k : ℤ) : ℚ) := by
    rw [hu]
    push_cast
    field_simp
  exact roundAt_eq_self (F.ulp_pos n).ne' hn

theorem round_natCast {n : ℕ} (h : n < F.base ^ F.digits) : F.round n = n := by
  have hq : |((n : ℤ) : ℚ)| < (F.base : ℚ) ^ F.digits := by
    rw [Int.cast_natCast, Nat.abs_cast]
    exact_mod_cast h
  simpa using F.round_intCast hq

/-- Powers of the base at or above the unit are multiples of it. -/
theorem zpow_eq_ulp_mul {x : ℚ} {k : ℤ} (hk : F.unitExp x ≤ k) : ∃ n : ℤ, (F.base : ℚ) ^ k = F.ulp x * n := by
  obtain ⟨m, hm⟩ := Int.eq_ofNat_of_zero_le (sub_nonneg.mpr hk)
  refine ⟨F.base ^ m, ?_⟩
  rw [ulp]
  push_cast
  rw [← zpow_natCast, ← zpow_add₀ F.base_pos.ne', ← hm, add_sub_cancel]

/-- Rounding never crosses a power of the base, from below. -/
theorem round_le_zpow {x : ℚ} {k : ℤ} (hk : F.unitExp x ≤ k) (h : x ≤ (F.base : ℚ) ^ k) :
    F.round x ≤ (F.base : ℚ) ^ k := by
  obtain ⟨n, hn⟩ := F.zpow_eq_ulp_mul hk
  rw [hn] at h ⊢
  have hdiv : x / F.ulp x ≤ n := by
    rw [div_le_iff₀ (F.ulp_pos x), mul_comm]
    exact h
  exact mul_le_mul_of_nonneg_left (by exact_mod_cast halfEven_le hdiv) (F.ulp_pos x).le

/-- Nor from above. -/
theorem zpow_le_round_of_unitExp_le {x : ℚ} {k : ℤ} (hk : F.unitExp x ≤ k) (h : (F.base : ℚ) ^ k ≤ x) :
    (F.base : ℚ) ^ k ≤ F.round x := by
  obtain ⟨n, hn⟩ := F.zpow_eq_ulp_mul hk
  rw [hn] at h ⊢
  have hdiv : (n : ℚ) ≤ x / F.ulp x := by
    rw [le_div_iff₀ (F.ulp_pos x), mul_comm]
    exact h
  exact mul_le_mul_of_nonneg_left (by exact_mod_cast le_halfEven hdiv) (F.ulp_pos x).le

theorem zpow_log_le_round {x : ℚ} (hx : 0 < x) (he : ∀ e ∈ F.emin, e ≤ Int.log F.base x) :
    (F.base : ℚ) ^ Int.log F.base x ≤ F.round x := by
  have hd := F.digits_pos
  have hle : F.unitExp x ≤ Int.log F.base x := F.unitExp_le (by rw [abs_of_pos hx]; omega) he
  exact F.zpow_le_round_of_unitExp_le hle (Int.zpow_log_le_self F.one_lt_base hx)

theorem zpow_le_round {x : ℚ} {m : ℕ} (hx : (F.base : ℚ) ^ m ≤ x) : (F.base : ℚ) ^ m ≤ F.round x := by
  have hpos : 0 < x := (pow_pos F.base_pos m).trans_le hx
  have hm : (m : ℤ) ≤ Int.log F.base x :=
    (Int.zpow_le_iff_le_log F.one_lt_base hpos).mp (by simpa using hx)
  have hlow := F.zpow_log_le_round hpos fun e he => (F.emin_nonpos e he).trans (by omega)
  refine le_trans ?_ hlow
  rw [← zpow_natCast]
  exact zpow_le_zpow_right₀ (by exact_mod_cast F.one_lt_base.le) hm

/-- Either the least exponent decides the unit, or the leading digit does. -/
theorem unitExp_eq_or (x : ℚ) : F.emin = some (F.unitExp x) ∨ F.unitExp x = Int.log F.base |x| + 1 - F.digits := by
  unfold unitExp
  cases F.emin with
  | none => exact .inr rfl
  | some e =>
    rcases max_choice (Int.log F.base |x| + 1 - F.digits) e with h | h
    · exact .inr h
    · exact .inl (congrArg some h.symm)

theorem round_le_round {x y : ℚ} (hx : 0 ≤ x) (hxy : x ≤ y) : F.round x ≤ F.round y := by
  rcases hx.eq_or_lt with rfl | hpos
  · rw [F.round_zero]
    exact F.round_nonneg hxy
  have hypos : 0 < y := hpos.trans_le hxy
  have hd := F.digits_pos
  have hlog : Int.log F.base x ≤ Int.log F.base y := Int.log_mono_right hpos hxy
  have hlogx := F.log_sub_le_unitExp x
  rw [abs_of_pos hpos] at hlogx
  have hunit : F.unitExp x ≤ F.unitExp y := by
    apply F.unitExp_le
    · refine le_trans ?_ (F.log_sub_le_unitExp y)
      rw [abs_of_pos hpos, abs_of_pos hypos]
      omega
    · exact F.emin_le_unitExp y
  rcases hunit.eq_or_lt with heq | hlt
  · rw [round, round, ulp, ulp, heq]
    exact roundAt_mono (zpow_pos F.base_pos _) hxy
  · -- the units differ, and a power of the base lies between the two numbers
    have hy : F.unitExp y = Int.log F.base y + 1 - F.digits := by
      rcases F.unitExp_eq_or y with hmin | hlog
      · exact absurd (F.emin_le_unitExp x _ hmin) hlt.not_ge
      · rwa [abs_of_pos hypos] at hlog
    have hlogs : Int.log F.base x + 1 ≤ Int.log F.base y := by omega
    have hmid : x ≤ (F.base : ℚ) ^ Int.log F.base y :=
      (Int.lt_zpow_succ_log_self F.one_lt_base x).le.trans
        (zpow_le_zpow_right₀ (by exact_mod_cast F.one_lt_base.le) hlogs)
    calc F.round x ≤ (F.base : ℚ) ^ Int.log F.base y := F.round_le_zpow (by omega) hmid
      _ ≤ F.round y := F.zpow_le_round_of_unitExp_le (by omega) (Int.zpow_log_le_self F.one_lt_base hypos)

end Format

end Rounding
