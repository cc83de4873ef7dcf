import DjangoQueues.Clock

/-! The arithmetic of instants, with timestamps and durations read as exact rationals. -/

namespace DjangoQueues.ClockTime

open Rounding

/-- The two ways in which `__post_init__` refuses whole numbers. -/
inductive TimeError where
  | microseconds
  | beforeEpoch
deriving DecidableEq

theorem toNat_lt_million {n : ℤ} (h : 0 ≤ n ∧ n < 1000000) : n.toNat < 1000000 := by omega

/-- The constructor with its checks. -/
def ofParts (seconds microseconds : ℤ) : Except TimeError ClockTime :=
  if h : 0 ≤ microseconds ∧ microseconds < 1000000 then
    if seconds < 0 then .error .beforeEpoch
    else .ok ⟨seconds.toNat, microseconds.toNat, toNat_lt_million h⟩
  else .error .microseconds

namespace Exact

/-- `from_timestamp`: only the fraction is rounded, and a full second carries. -/
def fromTimestamp (timestamp : ℚ) : Except TimeError ClockTime :=
  if timestamp < 0 then .error .beforeEpoch
  else
    let seconds := ⌊timestamp⌋
    let microseconds := halfEven ((timestamp - seconds) * 1000000)
    if microseconds = 1000000 then ofParts (seconds + 1) 0 else ofParts seconds microseconds

/-- `__add__`: the whole duration is rounded. -/
def add (t : ClockTime) (duration : ℚ) : Except TimeError ClockTime :=
  let total := t.totalMicroseconds + halfEven (duration * 1000000)
  if total < 0 then .error .beforeEpoch else ofParts (total / 1000000) (total % 1000000)

/-- `__sub__` of an instant. -/
def sub (t t' : ClockTime) : ℚ := ((t.totalMicroseconds : ℤ) - t'.totalMicroseconds : ℤ) / 1000000

/-- `__sub__` of a duration. -/
def subDuration (t : ClockTime) (duration : ℚ) : Except TimeError ClockTime := add t (-duration)

end Exact

/-! ## Totals -/

/-- The instant of a count of microseconds, where it is not negative. -/
def ofTotal (total : ℤ) : Except TimeError ClockTime :=
  if total < 0 then .error .beforeEpoch else ofParts (total / 1000000) (total % 1000000)

theorem ofParts_eq_ok (seconds microseconds : ℤ) (hs : 0 ≤ seconds) (hm : 0 ≤ microseconds ∧ microseconds < 1000000) :
    ∃ t : ClockTime, ofParts seconds microseconds = .ok t ∧
      (t.totalMicroseconds : ℤ) = seconds * 1000000 + microseconds := by
  refine ⟨⟨seconds.toNat, microseconds.toNat, toNat_lt_million hm⟩, ?_, ?_⟩
  · rw [ofParts, dif_pos hm, if_neg (not_lt.mpr hs)]
  · unfold totalMicroseconds
    dsimp only
    omega

theorem ofTotal_eq_ok {total : ℤ} (h : 0 ≤ total) :
    ∃ t : ClockTime, ofTotal total = .ok t ∧ (t.totalMicroseconds : ℤ) = total := by
  obtain ⟨t, ht, htotal⟩ := ofParts_eq_ok (total / 1000000) (total % 1000000) (by omega) (by omega)
  refine ⟨t, ?_, by omega⟩
  rw [ofTotal, if_neg (not_lt.mpr h), ht]

theorem ofTotal_of_neg {total : ℤ} (h : total < 0) : ofTotal total = .error .beforeEpoch := if_pos h

theorem ofTotal_totalMicroseconds (t : ClockTime) : ofTotal t.totalMicroseconds = .ok t := by
  have hpos : (0 : ℤ) ≤ t.totalMicroseconds := by omega
  obtain ⟨t', ht', htotal⟩ := ofTotal_eq_ok hpos
  rw [ht', totalMicroseconds_injective (Nat.cast_injective htotal : t'.totalMicroseconds = t.totalMicroseconds)]

theorem totalMicroseconds_of_ofTotal {total : ℤ} {t : ClockTime} (h : ofTotal total = .ok t) :
    (t.totalMicroseconds : ℤ) = total := by
  rcases lt_or_ge total 0 with hneg | hpos
  · rw [ofTotal_of_neg hneg] at h
    cases h
  · obtain ⟨t', ht', htotal⟩ := ofTotal_eq_ok hpos
    rw [ht'] at h
    rw [← Except.ok.inj h]
    exact htotal

theorem ofTotal_error_iff (total : ℤ) : (∃ err, ofTotal total = .error err) ↔ total < 0 := by
  constructor
  · rintro ⟨err, herr⟩
    by_contra hpos
    obtain ⟨t, ht, -⟩ := ofTotal_eq_ok (not_lt.mp hpos)
    rw [ht] at herr
    cases herr
  · exact fun hneg => ⟨_, ofTotal_of_neg hneg⟩

/-- Different counts give different instants, unless both are negative. -/
theorem ofTotal_eq_iff (x y : ℤ) : ofTotal x = ofTotal y ↔ x = y ∨ x < 0 ∧ y < 0 := by
  constructor
  · intro h
    rcases lt_or_ge x 0 with hx | hx
    · exact .inr ⟨hx, (ofTotal_error_iff y).mp ⟨_, h.symm.trans (ofTotal_of_neg hx)⟩⟩
    · obtain ⟨t, ht, htotal⟩ := ofTotal_eq_ok hx
      exact .inl (htotal.symm.trans (totalMicroseconds_of_ofTotal (h.symm.trans ht)))
  · rintro (rfl | ⟨hx, hy⟩)
    · rfl
    · rw [ofTotal_of_neg hx, ofTotal_of_neg hy]

/-! ## Exact arithmetic -/

namespace Exact

theorem add_eq (t : ClockTime) (d : ℚ) : add t d = ofTotal (t.totalMicroseconds + halfEven (d * 1000000)) := rfl

theorem add_sub (a b : ClockTime) : add a (sub b a) = .ok b := by
  have hwhole : sub b a * 1000000 = ((b.totalMicroseconds - a.totalMicroseconds : ℤ) : ℚ) := by
    unfold sub
    exact div_mul_cancel₀ _ (by norm_num)
  rw [add_eq, hwhole, halfEven_intCast, add_sub_cancel]
  exact ofTotal_totalMicroseconds b

/-- Adding in two steps: only a tie that an odd number of microseconds moves is rounded to another side. -/
theorem add_add_iff {a c : ClockTime} {d : ℚ} {n : ℤ} (hd : d * 1000000 = n) (hc : add a d = .ok c) (e : ℚ) :
    add c e = add a (d + e) ↔
      Even n ∨ ¬Tie (e * 1000000) ∨ (∃ err, add c e = .error err) ∧ ∃ err, add a (d + e) = .error err := by
  have htotal : (c.totalMicroseconds : ℤ) = a.totalMicroseconds + n := by
    rw [add_eq, hd, halfEven_intCast] at hc
    exact totalMicroseconds_of_ofTotal hc
  have hsum : (d + e) * 1000000 = e * 1000000 + n := by
    rw [add_mul, hd, add_comm]
  rw [add_eq, add_eq, htotal, hsum, ofTotal_eq_iff, ofTotal_error_iff, ofTotal_error_iff, ← or_assoc,
    ← halfEven_add_intCast_iff]
  refine or_congr_left ?_
  constructor <;> intro h <;> omega

/-- A whole second is an even number of microseconds, so rounding the fraction is rounding the whole. -/
theorem halfEven_fraction (r : ℚ) :
    halfEven (r * 1000000) = ⌊r⌋ * 1000000 + halfEven ((r - ⌊r⌋) * 1000000) := by
  have heven : Even (⌊r⌋ * 1000000) := (by decide : Even (1000000 : ℤ)).mul_left _
  have h := (halfEven_add_intCast_iff ((r - ⌊r⌋) * 1000000) (⌊r⌋ * 1000000)).mpr (.inl heven)
  have hsplit : (r - ⌊r⌋) * 1000000 + ((⌊r⌋ * 1000000 : ℤ) : ℚ) = r * 1000000 := by
    push_cast
    ring
  rw [hsplit] at h
  omega

theorem fromTimestamp_eq {r : ℚ} (hr : 0 ≤ r) : fromTimestamp r = ofTotal (halfEven (r * 1000000)) := by
  have hfloor : 0 ≤ ⌊r⌋ := Int.floor_nonneg.mpr hr
  have hfrac₀ : 0 ≤ (r - ⌊r⌋) * 1000000 := mul_nonneg (sub_nonneg.mpr (Int.floor_le r)) (by norm_num)
  have hfrac₁ : (r - ⌊r⌋) * 1000000 ≤ ((1000000 : ℤ) : ℚ) := by
    push_cast
    linarith [Int.lt_floor_add_one r]
  have hm₀ : 0 ≤ halfEven ((r - ⌊r⌋) * 1000000) := le_halfEven (by exact_mod_cast hfrac₀)
  have hm₁ : halfEven ((r - ⌊r⌋) * 1000000) ≤ 1000000 := halfEven_le hfrac₁
  rw [halfEven_fraction]
  unfold fromTimestamp ofTotal
  rw [if_neg (not_lt.mpr hr)]
  dsimp only
  generalize halfEven ((r - ⌊r⌋) * 1000000) = m at hm₀ hm₁
  rw [if_neg (show ¬⌊r⌋ * 1000000 + m < 0 by omega)]
  split_ifs with hcarry
  · rw [show (⌊r⌋ * 1000000 + m) / 1000000 = ⌊r⌋ + 1 by omega, show (⌊r⌋ * 1000000 + m) % 1000000 = 0 by omega]
  · rw [show (⌊r⌋ * 1000000 + m) / 1000000 = ⌊r⌋ by omega, show (⌊r⌋ * 1000000 + m) % 1000000 = m by omega]

theorem fromTimestamp_error_iff (r : ℚ) : (∃ err, fromTimestamp r = .error err) ↔ r < 0 := by
  constructor
  · intro herr
    by_contra hr
    rw [fromTimestamp_eq (not_lt.mp hr), ofTotal_error_iff] at herr
    have hpos : 0 ≤ halfEven (r * 1000000) :=
      le_halfEven (by exact_mod_cast mul_nonneg (not_lt.mp hr) (by norm_num))
    omega
  · exact fun hr => ⟨.beforeEpoch, if_pos hr⟩

def epoch : ClockTime := ⟨0, 0, zero_lt_million⟩

/-- Order, range, the cases that raise, and the laws of `__add__`, `__sub__` and `from_timestamp`. -/
theorem instant_arithmetic (a b : ClockTime) (d e r : ℚ) :
    (a < b ↔ a.totalMicroseconds < b.totalMicroseconds) ∧
    (∀ t, add a d = .ok t ∨ subDuration a d = .ok t ∨ fromTimestamp r = .ok t →
      0 ≤ t.seconds ∧ 0 ≤ t.microseconds ∧ t.microseconds < 1000000) ∧
    ((∃ err, add a d = .error err) ↔ a.totalMicroseconds + halfEven (d * 1000000) < 0) ∧
    ((∃ err, subDuration a d = .error err) ↔ a.totalMicroseconds + halfEven (-d * 1000000) < 0) ∧
    ((∃ err, fromTimestamp r = .error err) ↔ r < 0) ∧
    add a (sub b a) = .ok b ∧
    (∀ (n : ℤ) (c : ClockTime), d * 1000000 = n → add a d = .ok c → (add c e = add a (d + e) ↔
      Even n ∨ ¬Tie (e * 1000000) ∨ (∃ err, add c e = .error err) ∧ ∃ err, add a (d + e) = .error err)) ∧
    (0 ≤ r → fromTimestamp r = add epoch r) := by
  refine ⟨lt_iff_totalMicroseconds_lt, ?_, ?_, ?_, fromTimestamp_error_iff r, add_sub a b, ?_, ?_⟩
  · exact fun t _ => ⟨Nat.zero_le _, Nat.zero_le _, t.microseconds_lt⟩
  · rw [add_eq]
    exact ofTotal_error_iff _
  · rw [subDuration, add_eq]
    exact ofTotal_error_iff _
  · exact fun n c hd hc => add_add_iff hd hc e
  · intro hr
    have hepoch : (epoch.totalMicroseconds : ℤ) = 0 := rfl
    rw [fromTimestamp_eq hr, add_eq, hepoch, zero_add]

theorem instant_arithmetic_half :
    (0 : ℚ) ≤ 1 / 2 ∧ fromTimestamp (1 / 2) = add epoch (1 / 2) := by
  have hr : (0 : ℚ) ≤ 1 / 2 := by norm_num
  exact ⟨hr, (instant_arithmetic epoch epoch 0 0 (1 / 2)).2.2.2.2.2.2.2 hr⟩

theorem one_lt_million : 1 < 1000000 := by norm_num

theorem two_lt_million : 2 < 1000000 := by norm_num

/-- One microsecond and then half of one are one microsecond; their sum is two. -/
theorem add_not_associative :
    (1 / 1000000 : ℚ) * 1000000 = (1 : ℤ) ∧
    add epoch (1 / 1000000) = .ok ⟨0, 1, one_lt_million⟩ ∧
    add ⟨0, 1, one_lt_million⟩ (1 / 2000000) = .ok ⟨0, 1, one_lt_million⟩ ∧
    add epoch (1 / 1000000 + 1 / 2000000) = .ok ⟨0, 2, two_lt_million⟩ := by
  refine ⟨by norm_num, ?_, ?_, ?_⟩
  · rw [add_eq, show epoch.totalMicroseconds + halfEven (1 / 1000000 * 1000000) = 1 by decide +kernel]
    rfl
  · rw [add_eq, show ((⟨0, 1, one_lt_million⟩ : ClockTime).totalMicroseconds : ℤ) +
      halfEven (1 / 2000000 * 1000000) = 1 by decide +kernel]
    rfl
  · rw [add_eq, show epoch.totalMicroseconds + halfEven ((1 / 1000000 + 1 / 2000000) * 1000000) = 2 by decide +kernel]
    rfl

end Exact

end DjangoQueues.ClockTime
