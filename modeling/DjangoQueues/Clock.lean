import DjangoQueues.Double
import Mathlib.Data.Prod.Lex
import Mathlib.Order.Lattice

/-! Instants as the package keeps them, and the server time a script reads. -/

namespace DjangoQueues

open Rounding

/-- `ClockTime`: whole seconds and microseconds since the Unix epoch. -/
@[ext]
structure ClockTime where
  seconds : ℕ
  microseconds : ℕ
  microseconds_lt : microseconds < 1000000
deriving DecidableEq

namespace ClockTime

theorem zero_lt_million : 0 < 1000000 := by norm_num

/-- `_total_microseconds`. -/
def totalMicroseconds (t : ClockTime) : ℕ := t.seconds * 1000000 + t.microseconds

theorem totalMicroseconds_injective : Function.Injective totalMicroseconds := by
  intro a b h
  have ha := a.microseconds_lt
  have hb := b.microseconds_lt
  unfold totalMicroseconds at h
  ext <;> omega

/-- The field order of the dataclass. -/
instance : LinearOrder ClockTime :=
  LinearOrder.lift' (fun t => toLex (t.seconds, t.microseconds)) fun a b h => by
    have h' := (Prod.mk.injEq _ _ _ _ ▸ toLex.injective h : a.seconds = b.seconds ∧ _)
    exact ClockTime.ext h'.1 h'.2

theorem lt_iff_totalMicroseconds_lt {a b : ClockTime} :
    a < b ↔ a.totalMicroseconds < b.totalMicroseconds := by
  have ha := a.microseconds_lt
  have hb := b.microseconds_lt
  change toLex (a.seconds, a.microseconds) < toLex (b.seconds, b.microseconds) ↔ _
  rw [Prod.Lex.toLex_lt_toLex]
  unfold totalMicroseconds
  simp only
  omega

theorem le_iff_totalMicroseconds_le {a b : ClockTime} :
    a ≤ b ↔ a.totalMicroseconds ≤ b.totalMicroseconds := by
  rw [← not_lt, lt_iff_totalMicroseconds_lt, not_lt]

/-- `__add__` of a duration that is a whole number of microseconds. -/
def add (t : ClockTime) (duration : ℕ) : ClockTime where
  seconds := (t.totalMicroseconds + duration) / 1000000
  microseconds := (t.totalMicroseconds + duration) % 1000000
  microseconds_lt := Nat.mod_lt _ (by norm_num)

@[simp]
theorem totalMicroseconds_add (t : ClockTime) (duration : ℕ) :
    (t.add duration).totalMicroseconds = t.totalMicroseconds + duration := by
  simp only [totalMicroseconds, add]
  omega

/-- `__sub__` of an earlier instant, in microseconds. -/
def sub (t t' : ClockTime) : ℕ := t.totalMicroseconds - t'.totalMicroseconds

/-- `to_timestamp`: an integer division and an addition in binary64. -/
def toTimestamp (t : ClockTime) : ℚ := fl (fl t.seconds + fl (t.microseconds / 1000000))

/-- `from_timestamp` of a non-negative count of seconds: only the fraction is scaled and
rounded, and a full second carries. -/
def fromTimestamp (q : ℚ) : ClockTime :=
  let seconds := ⌊q⌋.toNat
  let microseconds := (halfEven (fl (fl (q - seconds) * 1000000))).toNat
  if h : microseconds < 1000000 then ⟨seconds, microseconds, h⟩ else ⟨seconds + 1, 0, by norm_num⟩

/-- `from_timestamp` is off by hardly more than half a microsecond. -/
theorem abs_total_fromTimestamp_sub_le {v : ℚ} (hv : 0 ≤ v) :
    |((fromTimestamp v).totalMicroseconds : ℚ) - v * 1000000| ≤ 1 / 2 + 2 ^ (-33 : ℤ) := by
  have hfloor : 0 ≤ ⌊v⌋ := Int.floor_nonneg.mpr hv
  have hsec : ((⌊v⌋.toNat : ℕ) : ℚ) = (⌊v⌋ : ℚ) := by exact_mod_cast Int.toNat_of_nonneg hfloor
  set f := v - (⌊v⌋.toNat : ℚ) with hf
  have hf₀ : 0 ≤ f := by
    rw [hf, hsec]
    linarith [Int.floor_le v]
  have hf₁ : f < 1 := by
    rw [hf, hsec]
    linarith [Int.lt_floor_add_one v]
  have herr₁ := abs_le.mp (abs_fl_sub_le (x := f) (k := 0) (by rw [abs_of_nonneg hf₀]; simpa using hf₁) (by norm_num))
  have hsmall : |fl f * 1000000| < 2 ^ (20 : ℤ) := by
    rw [abs_of_nonneg (mul_nonneg (fl_nonneg hf₀) (by norm_num))]
    norm_num at herr₁ ⊢
    linarith [herr₁.2]
  have herr₂ := abs_le.mp (abs_fl_sub_le hsmall (by norm_num))
  set x := fl (fl f * 1000000) with hx
  have herr₃ := abs_le.mp (abs_halfEven_sub_le x)
  norm_num at herr₁ herr₂ herr₃
  have hm₀ : 0 ≤ halfEven x := le_halfEven (by
    rw [Int.cast_zero]
    exact fl_nonneg (mul_nonneg (fl_nonneg hf₀) (by norm_num)))
  have hm₁ : halfEven x ≤ 1000000 := by
    have hlt : (halfEven x : ℚ) < 1000001 := by linarith [herr₁.2, herr₂.2, herr₃.2]
    have hlt' : halfEven x < 1000001 := by exact_mod_cast hlt
    omega
  have hcast : (((halfEven x).toNat : ℕ) : ℚ) = halfEven x := by exact_mod_cast Int.toNat_of_nonneg hm₀
  -- with or without the carry the result is the whole seconds plus the rounded fraction
  have htotal : ((fromTimestamp v).totalMicroseconds : ℚ) = (⌊v⌋.toNat : ℚ) * 1000000 + halfEven x := by
    unfold fromTimestamp totalMicroseconds
    dsimp only
    rw [← hf, ← hx]
    split_ifs with hc
    · push_cast
      rw [hcast]
    · have hm : halfEven x = 1000000 := by omega
      push_cast
      rw [hm]
      push_cast
      ring
  have hv' : v = (⌊v⌋.toNat : ℚ) + f := by rw [hf]; ring
  rw [htotal]
  norm_num
  rw [abs_le]
  constructor <;> linarith [herr₁.1, herr₁.2, herr₂.1, herr₂.2, herr₃.1, herr₃.2]

theorem toTimestamp_nonneg (t : ClockTime) : 0 ≤ t.toTimestamp := by
  have hs : 0 ≤ fl (t.seconds : ℚ) := fl_nonneg (Nat.cast_nonneg _)
  have hu : 0 ≤ fl ((t.microseconds : ℚ) / 1000000) := fl_nonneg (by positivity)
  exact fl_nonneg (add_nonneg hs hu)

section Bounded

variable {t : ClockTime} (ht : t.seconds + 1 < 2 ^ 33)
include ht

theorem sum_bounds : (t.seconds : ℚ) ≤ fl t.seconds + fl (t.microseconds / 1000000) ∧
    fl t.seconds + fl (t.microseconds / 1000000) < 2 ^ 33 ∧
    |(fl t.seconds + fl (t.microseconds / 1000000)) * 1000000 - t.totalMicroseconds| ≤ 2 ^ (-34 : ℤ) := by
  have hs : fl (t.seconds : ℚ) = t.seconds := fl_natCast (by omega)
  have hm : (t.microseconds : ℚ) < 1000000 := by exact_mod_cast t.microseconds_lt
  have hm₀ : (0 : ℚ) ≤ t.microseconds / 1000000 := by positivity
  have hm₁ : (t.microseconds : ℚ) / 1000000 < 1 := by
    rw [div_lt_one (by norm_num)]
    exact hm
  have hlt : (t.seconds : ℚ) + 2 ≤ 2 ^ 33 := by exact_mod_cast ht
  have herr := abs_le.mp (abs_fl_sub_le (x := (t.microseconds : ℚ) / 1000000) (k := 0)
    (by rw [abs_of_nonneg hm₀]; simpa using hm₁) (by norm_num))
  have hnonneg := fl_nonneg hm₀
  have htotal : (t.totalMicroseconds : ℚ) = t.seconds * 1000000 + t.microseconds / 1000000 * 1000000 := by
    unfold totalMicroseconds
    push_cast
    ring
  rw [hs, htotal]
  norm_num at herr hlt ⊢
  refine ⟨hnonneg, ?_, ?_⟩
  · linarith [herr.2]
  · rw [abs_le]
    constructor <;> linarith [herr.1, herr.2]

/-- In the documented range a timestamp is within half a microsecond of its instant. -/
theorem abs_toTimestamp_sub_le :
    |t.toTimestamp * 1000000 - t.totalMicroseconds| ≤ 48 / 100 := by
  obtain ⟨hlow, hhigh, hsum⟩ := sum_bounds ht
  have hpos : (0 : ℚ) ≤ fl t.seconds + fl (t.microseconds / 1000000) := (Nat.cast_nonneg _).trans hlow
  have herr := abs_le.mp (abs_fl_sub_le (k := 33) (by rw [abs_of_nonneg hpos]; exact_mod_cast hhigh) (by norm_num))
  have hsum' := abs_le.mp hsum
  unfold toTimestamp
  norm_num at herr hsum'
  rw [abs_le]
  constructor <;> linarith [herr.1, herr.2, hsum'.1, hsum'.2]

theorem seconds_le_toTimestamp : (t.seconds : ℚ) ≤ t.toTimestamp := by
  obtain ⟨hlow, hhigh, -⟩ := sum_bounds ht
  have hpos : (0 : ℚ) ≤ fl t.seconds + fl (t.microseconds / 1000000) := (Nat.cast_nonneg _).trans hlow
  refine natCast_le_fl hlow ?_
  rw [abs_of_nonneg hpos]
  exact hhigh.trans (by norm_num)

end Bounded

end ClockTime

/-- A reply of the Redis `TIME` command. Readings stay below 2^33 seconds, the range in
which the package documents its instants. -/
structure ServerTime extends ClockTime where
  seconds_lt : seconds < 2 ^ 33

namespace ServerTime

theorem second_0 : 0 < 2 ^ 33 := by norm_num

theorem second_1000 : 1000 < 2 ^ 33 := by norm_num

theorem second_2000 : 2000 < 2 ^ 33 := by norm_num

theorem second_3000 : 3000 < 2 ^ 33 := by norm_num

theorem second_1700000000 : 1700000000 < 2 ^ 33 := by norm_num

theorem second_1700000001 : 1700000001 < 2 ^ 33 := by norm_num

/-- The reading of `TIME` at a whole second. -/
def ofSeconds (n : ℕ) (h : n < 2 ^ 33) : ServerTime := ⟨⟨n, 0, ClockTime.zero_lt_million⟩, h⟩

/-- `tonumber(now[1]) * 1000000 + tonumber(now[2])`. -/
def nowUs (t : ServerTime) : ℚ := fl (fl (t.seconds * 1000000) + t.microseconds)

theorem total_lt (t : ServerTime) : t.totalMicroseconds < 2 ^ 33 * 1000000 := by
  have h := t.seconds_lt
  have h' := t.microseconds_lt
  unfold ClockTime.totalMicroseconds
  omega

/-- The server time in microseconds is exact in binary64. -/
theorem nowUs_eq (t : ServerTime) : t.nowUs = t.totalMicroseconds := by
  have h := t.seconds_lt
  have h' := t.microseconds_lt
  have h₁ : fl (t.seconds * 1000000) = t.seconds * 1000000 := by
    have := fl_natCast (n := t.seconds * 1000000) (by omega)
    push_cast at this
    exact this
  have h₂ := fl_natCast (n := t.seconds * 1000000 + t.microseconds) (by omega)
  push_cast at h₂
  rw [nowUs, h₁, h₂, ClockTime.totalMicroseconds]
  push_cast
  ring

instance : LE ServerTime := ⟨fun a b => a.totalMicroseconds ≤ b.totalMicroseconds⟩

theorem le_refl (t : ServerTime) : t ≤ t := Nat.le_refl t.totalMicroseconds

theorem total_lt_exact (t : ServerTime) : t.totalMicroseconds < 2 ^ 53 :=
  t.total_lt.trans (by norm_num)

end ServerTime

/-- An instant is due for the script exactly if it has come. -/
theorem fl_le_nowUs_iff (a : ClockTime) (t : ServerTime) :
    fl a.totalMicroseconds ≤ t.nowUs ↔ a ≤ t.toClockTime := by
  rw [t.nowUs_eq, fl_natCast_le_iff t.total_lt_exact, ClockTime.le_iff_totalMicroseconds_le]

end DjangoQueues
