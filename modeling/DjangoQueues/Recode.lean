import DjangoQueues.Json

/-! What a JSON value loses on its way through `cjson.decode` and `cjson.encode`. Encoding
raises exactly for numbers that are not finite; where it succeeds, the value read back
equals the one written exactly if it has no empty array and every number has a 14-digit
rendering. -/

namespace DjangoQueues

open Rounding

/-! ## Numbers -/

/-- The number is a finite binary64 value once `cjson` has read it. -/
def PyNum.Encodable (x : PyNum) : Prop :=
  match x with
  | .int n => |fl n| < 2 ^ 1024
  | .float (.finite _ _) => True
  | .float _ => False

/-- The number is the binary64 value nearest to what `%.14g` prints for it. -/
def PyNum.Fits14 (x : PyNum) : Prop :=
  match x with
  | .int n => |(n : ℚ)| < 2 ^ 1024 ∧ fl (decimal14.round (fl n)) = n
  | .float (.finite q _) => fl (decimal14.round q) = q
  | .float _ => False

theorem print14_intCast {n : ℤ} (h : |n| < 10 ^ 14) : print14 n = .int n := by
  have hq : |(n : ℚ)| < 10 ^ 14 := by exact_mod_cast h
  have hround : decimal14.round n = n := decimal14.round_intCast hq
  unfold print14
  simp only [hround, Rat.den_intCast, hq, and_self, if_true, Rat.num_intCast]

theorem lt_of_print14_eq_int {q : ℚ} {n : ℤ} (h : print14 q = .int n) : |n| < 10 ^ 14 := by
  unfold print14 at h
  dsimp only at h
  split_ifs at h with hint
  obtain ⟨hden, hlt⟩ := hint
  rw [← Rat.coe_int_num_of_den_eq_one hden, PyNum.int.inj h] at hlt
  exact_mod_cast hlt

theorem PyNum.encode_toDouble_isSome (x : PyNum) : x.toDouble.encode.isSome ↔ x.Encodable := by
  cases x with
  | int n =>
    simp only [toDouble, Double.ofRat, Encodable]
    split_ifs with h
    · simp [Double.encode, h]
    · simp [Double.encode, h]
  | float d => cases d <;> simp [toDouble, Double.encode, Encodable]

theorem Double.value_ofRat_of_lt {q : ℚ} (h : |fl q| < 2 ^ 1024) : (Double.ofRat q).value = .rat (fl q) := by
  rw [Double.ofRat, dif_pos h]
  rfl

theorem Double.value_ofRat_ne {q r : ℚ} (h : ¬|fl q| < 2 ^ 1024) : (Double.ofRat q).value ≠ .rat r := by
  rw [Double.ofRat, dif_neg h]
  simp [Double.value]

/-- What Python reads back for a printed number. -/
theorem value_print14_eq_iff {q r : ℚ} :
    (print14 q).value = .rat r ↔ |r| < 2 ^ 1024 ∧ fl (decimal14.round q) = r := by
  unfold print14
  dsimp only
  split_ifs with h
  · -- an integer below 10^14 is exact in both formats
    obtain ⟨hden, hlt⟩ := h
    have hnum : ((decimal14.round q).num : ℚ) = decimal14.round q := Rat.coe_int_num_of_den_eq_one hden
    have habs : |(decimal14.round q).num| < 2 ^ 53 := by
      have hq : |((decimal14.round q).num : ℚ)| < 2 ^ 53 := by
        rw [hnum]
        exact hlt.trans (by norm_num)
      exact_mod_cast hq
    have hfl : fl (decimal14.round q) = decimal14.round q := by
      rw [← hnum]
      exact fl_intCast habs
    simp only [PyNum.value, NumValue.rat.injEq, hfl, hnum]
    constructor
    · rintro rfl
      exact ⟨lt_overflow (hlt.trans (by norm_num)), rfl⟩
    · exact And.right
  · by_cases hfin : |fl (decimal14.round q)| < 2 ^ 1024
    · simp only [PyNum.value, Double.value_ofRat_of_lt hfin, NumValue.rat.injEq]
      constructor
      · rintro rfl
        exact ⟨hfin, rfl⟩
      · exact And.right
    · constructor
      · intro hv
        exact absurd hv (Double.value_ofRat_ne hfin)
      · rintro ⟨hr, rfl⟩
        exact absurd hr hfin

theorem PyNum.fits14_iff (x : PyNum) :
    (∃ y, x.toDouble.encode = some y ∧ x.value = y.value ∧ y.value ≠ .nan) ↔ x.Fits14 := by
  cases x with
  | int n =>
    simp only [toDouble, Double.ofRat, Fits14]
    split_ifs with h
    · simp only [Double.encode, Option.some.injEq, exists_eq_left']
      constructor
      · rintro ⟨hv, -⟩
        exact value_print14_eq_iff.mp hv.symm
      · intro hfit
        have hv := value_print14_eq_iff.mpr hfit
        exact ⟨hv.symm, by rw [hv]; simp⟩
    · constructor
      · rintro ⟨y, hy, -⟩
        cases hy
      · rintro ⟨hlt, hfit⟩
        -- a number that survives is its own binary64 value
        have hn : fl (n : ℚ) = n := by
          rw [← hfit, fl_fl]
        rw [hn] at h
        exact absurd hlt h
  | float d =>
    cases d with
    | finite q hq =>
      simp only [toDouble, Double.encode, Option.some.injEq, exists_eq_left', Fits14]
      constructor
      · rintro ⟨hv, -⟩
        exact (value_print14_eq_iff.mp hv.symm).2
      · intro hfit
        have hv := value_print14_eq_iff.mpr ⟨hq.2, hfit⟩
        exact ⟨hv.symm, by rw [hv]; simp⟩
    | infinite b => simp [toDouble, Double.encode, Fits14]
    | nan => simp [toDouble, Double.encode, Fits14]

/-! ## Values -/

namespace Cjson

open JValue

mutual

theorem recode_isSome_iff : ∀ j : Json, (encode (j.map PyNum.toDouble)).isSome ↔ j.AllNum PyNum.Encodable
  | .null => by simp [JValue.map, encode, AllNum]
  | .bool _ => by simp [JValue.map, encode, AllNum]
  | .num x => by simpa [JValue.map, encode, AllNum] using x.encode_toDouble_isSome
  | .str _ => by simp [JValue.map, encode, AllNum]
  | .arr [] => by simp [JValue.map, mapList, encode, AllNum, AllNumList]
  | .arr (x :: xs) => by
    have h₁ := recode_isSome_iff x
    have h₂ := recodeList_isSome_iff xs
    simp only [JValue.map, mapList, encode, AllNum, AllNumList, ← h₁, ← h₂]
    cases encode (x.map PyNum.toDouble) <;> simp
  | .obj kvs => by
    have h := recodeFields_isSome_iff kvs
    simp only [JValue.map, encode, AllNum, ← h, Option.isSome_map]

theorem recodeList_isSome_iff : ∀ js : List Json,
    (encodeList (mapList PyNum.toDouble js)).isSome ↔ AllNumList PyNum.Encodable js
  | [] => by simp [mapList, encodeList, AllNumList]
  | x :: xs => by
    have h₁ := recode_isSome_iff x
    have h₂ := recodeList_isSome_iff xs
    simp only [mapList, encodeList, AllNumList, ← h₁, ← h₂]
    cases encode (x.map PyNum.toDouble) <;> simp

theorem recodeFields_isSome_iff : ∀ kvs : List (Text × Json),
    (encodeFields (mapFields PyNum.toDouble kvs)).isSome ↔ AllNumFields PyNum.Encodable kvs
  | [] => by simp [mapFields, encodeFields, AllNumFields]
  | (k, v) :: kvs => by
    have h₁ := recode_isSome_iff v
    have h₂ := recodeFields_isSome_iff kvs
    simp only [mapFields, encodeFields, AllNumFields, ← h₁, ← h₂]
    cases encode (v.map PyNum.toDouble) <;> simp

end

mutual

/-- The value read back equals the one written. -/
theorem recode_pyEq_iff : ∀ j : Json,
    (∃ j', encode (j.map PyNum.toDouble) = some j' ∧ PyEq j j') ↔ j.NoEmptyArray ∧ j.AllNum PyNum.Fits14
  | .null => by simp [JValue.map, encode, AllNum, NoEmptyArray, PyEq]
  | .bool _ => by simp [JValue.map, encode, AllNum, NoEmptyArray, PyEq]
  | .num x => by
    have h := x.fits14_iff
    simp only [JValue.map, encode, AllNum, NoEmptyArray, true_and, ← h, Option.map_eq_some_iff]
    constructor
    · rintro ⟨j', ⟨y, hy, rfl⟩, heq, hnan⟩
      exact ⟨y, hy, by simpa [JValue.map] using heq, hnan⟩
    · rintro ⟨y, hy, heq, hnan⟩
      exact ⟨.num y, ⟨y, hy, rfl⟩, by simpa [JValue.map] using heq, hnan⟩
  | .str _ => by simp [JValue.map, encode, AllNum, NoEmptyArray, PyEq]
  | .arr [] => by simp [JValue.map, mapList, encode, AllNum, AllNumList, NoEmptyArray, PyEq]
  | .arr (x :: xs) => by
    have h₁ := recode_pyEq_iff x
    have h₂ := recodeList_pyEq_iff xs
    simp only [JValue.map, mapList, encode, AllNum, AllNumList, NoEmptyArray, Option.bind_eq_some_iff,
      Option.map_eq_some_iff]
    constructor
    · rintro ⟨j', ⟨y, hy, ys, hys, rfl⟩, heq, hnan⟩
      simp only [JValue.map, mapList, JValue.arr.injEq, List.cons.injEq] at heq
      obtain ⟨hn₁, hf₁⟩ := h₁.mp ⟨y, hy, heq.1, hnan.1⟩
      obtain ⟨hn₂, hf₂⟩ := h₂.mp ⟨ys, hys, heq.2, hnan.2⟩
      exact ⟨⟨hn₁, hn₂⟩, hf₁, hf₂⟩
    · rintro ⟨⟨hn₁, hn₂⟩, hf₁, hf₂⟩
      obtain ⟨y, hy, heq₁, hnan₁⟩ := h₁.mpr ⟨hn₁, hf₁⟩
      obtain ⟨ys, hys, heq₂, hnan₂⟩ := h₂.mpr ⟨hn₂, hf₂⟩
      refine ⟨.arr (y :: ys), ⟨y, hy, ys, hys, rfl⟩, ?_, hnan₁, hnan₂⟩
      simp only [JValue.map, mapList, heq₁, heq₂]
  | .obj kvs => by
    have h := recodeFields_pyEq_iff kvs
    simp only [JValue.map, encode, AllNum, NoEmptyArray, Option.map_eq_some_iff, ← h]
    constructor
    · rintro ⟨j', ⟨ws, hws, rfl⟩, heq, hnan⟩
      exact ⟨ws, hws, by simpa [JValue.map] using heq, hnan⟩
    · rintro ⟨ws, hws, heq, hnan⟩
      exact ⟨.obj ws, ⟨ws, hws, rfl⟩, by simp only [JValue.map, heq], hnan⟩

theorem recodeList_pyEq_iff : ∀ js : List Json,
    (∃ js', encodeList (mapList PyNum.toDouble js) = some js' ∧
      mapList PyNum.value js = mapList PyNum.value js' ∧ AllNumList (fun x => x.value ≠ .nan) js') ↔
      NoEmptyArrayList js ∧ AllNumList PyNum.Fits14 js
  | [] => by simp [mapList, encodeList, AllNumList, NoEmptyArrayList]
  | x :: xs => by
    have h₁ := recode_pyEq_iff x
    have h₂ := recodeList_pyEq_iff xs
    simp only [mapList, encodeList, AllNumList, NoEmptyArrayList, Option.bind_eq_some_iff, Option.map_eq_some_iff]
    constructor
    · rintro ⟨js', ⟨y, hy, ys, hys, rfl⟩, heq, hnan⟩
      simp only [mapList, List.cons.injEq] at heq
      obtain ⟨hn₁, hf₁⟩ := h₁.mp ⟨y, hy, heq.1, hnan.1⟩
      obtain ⟨hn₂, hf₂⟩ := h₂.mp ⟨ys, hys, heq.2, hnan.2⟩
      exact ⟨⟨hn₁, hn₂⟩, hf₁, hf₂⟩
    · rintro ⟨⟨hn₁, hn₂⟩, hf₁, hf₂⟩
      obtain ⟨y, hy, heq₁, hnan₁⟩ := h₁.mpr ⟨hn₁, hf₁⟩
      obtain ⟨ys, hys, heq₂, hnan₂⟩ := h₂.mpr ⟨hn₂, hf₂⟩
      refine ⟨y :: ys, ⟨y, hy, ys, hys, rfl⟩, ?_, hnan₁, hnan₂⟩
      simp only [mapList, heq₁, heq₂]

theorem recodeFields_pyEq_iff : ∀ kvs : List (Text × Json),
    (∃ ws, encodeFields (mapFields PyNum.toDouble kvs) = some ws ∧
      mapFields PyNum.value kvs = mapFields PyNum.value ws ∧ AllNumFields (fun x => x.value ≠ .nan) ws) ↔
      NoEmptyArrayFields kvs ∧ AllNumFields PyNum.Fits14 kvs
  | [] => by simp [mapFields, encodeFields, AllNumFields, NoEmptyArrayFields]
  | (k, v) :: kvs => by
    have h₁ := recode_pyEq_iff v
    have h₂ := recodeFields_pyEq_iff kvs
    simp only [mapFields, encodeFields, AllNumFields, NoEmptyArrayFields, Option.bind_eq_some_iff,
      Option.map_eq_some_iff]
    constructor
    · rintro ⟨ws', ⟨y, hy, ys, hys, rfl⟩, heq, hnan⟩
      simp only [mapFields, List.cons.injEq, Prod.mk.injEq, true_and] at heq
      obtain ⟨hn₁, hf₁⟩ := h₁.mp ⟨y, hy, heq.1, hnan.1⟩
      obtain ⟨hn₂, hf₂⟩ := h₂.mp ⟨ys, hys, heq.2, hnan.2⟩
      exact ⟨⟨hn₁, hn₂⟩, hf₁, hf₂⟩
    · rintro ⟨⟨hn₁, hn₂⟩, hf₁, hf₂⟩
      obtain ⟨y, hy, heq₁, hnan₁⟩ := h₁.mpr ⟨hn₁, hf₁⟩
      obtain ⟨ys, hys, heq₂, hnan₂⟩ := h₂.mpr ⟨hn₂, hf₂⟩
      refine ⟨(k, y) :: ys, ⟨y, hy, ys, hys, rfl⟩, ?_, hnan₁, hnan₂⟩
      simp only [mapFields, heq₁, heq₂]

end

theorem allNum_lookup {p : PyNum → Prop} {kvs : List (Text × Json)} (h : AllNumFields p kvs) {k : Text}
    {v : Json} (hv : kvs.lookup k = some v) : v.AllNum p := by
  induction kvs with
  | nil => cases hv
  | cons q kvs ih =>
    obtain ⟨k', v'⟩ := q
    by_cases hk : k = k'
    · subst hk
      rw [List.lookup_cons_self, Option.some.injEq] at hv
      exact hv ▸ h.1
    · rw [List.lookup_cons_of_ne hk] at hv
      exact ih h.2 hv

theorem field?_recode {j raw : Json} (h : recode j = some raw) (hj : ∃ kvs, j = .obj kvs) (k : Text) :
    raw.field? k = (j.field? k).bind recode := by
  obtain ⟨kvs, rfl⟩ := hj
  rw [recode, table, JValue.map, encode, Option.map_eq_some_iff] at h
  obtain ⟨ws, hws, rfl⟩ := h
  rw [JValue.field?, lookup_encodeFields hws, lookup_mapFields, JValue.field?, Option.bind_map]
  rfl

/-- A table that was encoded has each of its fields encoded. -/
theorem exists_field?_recode {kvs : List (Text × Json)} {raw : Json} (h : recode (.obj kvs) = some raw)
    {k : Text} {v : Json} (hv : kvs.lookup k = some v) :
    ∃ w, recode v = some w ∧ raw.field? k = some w := by
  have hall : AllNumFields PyNum.Encodable kvs := (recode_isSome_iff (.obj kvs)).mp (Option.isSome_of_mem h)
  have hsome : (recode v).isSome := (recode_isSome_iff v).mpr (allNum_lookup hall hv)
  obtain ⟨w, hw⟩ := Option.isSome_iff_exists.mp hsome
  refine ⟨w, hw, ?_⟩
  rw [field?_recode h ⟨kvs, rfl⟩, JValue.field?, hv, Option.bind_some, hw]

end Cjson

end DjangoQueues
