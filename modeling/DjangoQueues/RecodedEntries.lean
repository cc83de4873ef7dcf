import DjangoQueues.Entries
import DjangoQueues.Recode

/-! What an entry loses when its record goes through `cjson`: which records can be encoded
again at all, and which of these read back as the entry that was written. -/

namespace DjangoQueues.QueueEntry

open Rounding

variable {cls : EntryClass}

/-- The entry with the lifecycle fields recovery resets. -/
def requeue (c : QueueEntry cls) : QueueEntry cls :=
  { c with status := .queued, dispatchedAt := none, finishedAt := none, result := .null, error := .null }

theorem lookup_zip {names : List Text} (hn : names.Nodup) {vs : List Json} (hl : vs.length = names.length) :
    names.map (fun n => (names.zip vs).lookup n) = vs.map some := by
  induction names generalizing vs with
  | nil =>
    obtain rfl := List.length_eq_zero_iff.mp hl
    rfl
  | cons n names ih =>
    cases vs with
    | nil => cases hl
    | cons v vs =>
      rw [List.nodup_cons] at hn
      have htail : names.map (fun m => ((n, v) :: names.zip vs).lookup m) =
          names.map fun m => (names.zip vs).lookup m := by
        apply List.map_congr_left
        intro m hm
        have hne : m ≠ n := by
          rintro rfl
          exact hn.1 hm
        exact List.lookup_cons_of_ne hne _ _
      simp only [List.zip_cons_cons, List.map_cons, List.lookup_cons_self, htail,
        ih hn.2 (Nat.succ.inj hl)]

/-- The fields of a subclass are stored under their names. -/
theorem field?_toDict_extra (e : QueueEntry cls) :
    cls.fields.map (fun p => e.toDict.field? p.1) = e.extra.map some := by
  have hnodup : (cls.fields.map fun p => (p.1 : Text)).Nodup := by
    have hmap := cls.nodup.map (f := Text.plain) fun _ _ h => Text.plain.inj h
    rwa [List.map_map] at hmap
  rw [← lookup_zip hnodup (by simpa using e.extra_length), List.map_map]
  apply List.map_congr_left
  intro q hq
  have hbase : e.toDictBase.lookup (q.1 : Text) = none := by
    rw [List.lookup_eq_none_iff]
    intro p hp
    have hmem : p.1 ∈ e.toDictBase.map Prod.fst := List.mem_map_of_mem hp
    have hnames : e.toDictBase.map Prod.fst = baseFields.map Text.plain := rfl
    rw [hnames] at hmem
    have hne : (q.1 : Text) ≠ p.1 := fun h => by
      obtain ⟨n, hn, hp⟩ := List.mem_map.mp (h ▸ hmem)
      exact cls.disjoint q.1 (List.mem_map.mpr ⟨q, hq, rfl⟩) (Text.plain.inj hp ▸ hn)
    simpa using hne
  change e.toDict.field? q.1 = _
  rw [toDict, JValue.field?, List.lookup_append, hbase, Option.none_or]
  rfl

/-- Both entries are the same to a reader that compares values as Python does. -/
structure SameEntry (e e' : QueueEntry cls) : Prop where
  id : e'.id = e.id
  queue : e'.queue = e.queue
  status : e'.status = e.status
  queuedAt : e'.queuedAt = e.queuedAt
  dispatchedAt : e'.dispatchedAt = e.dispatchedAt
  finishedAt : e'.finishedAt = e.finishedAt
  payload : PyEq e.payload e'.payload
  result : PyEq e.result e'.result
  error : PyEq e.error e'.error
  timeoutSeconds : e'.timeoutSeconds.map PyNum.value = e.timeoutSeconds.map PyNum.value
  priority : e'.priority = e.priority
  extra : List.Forall₂ PyEq e.extra e'.extra

/-- `json.dumps` gets through each value of the entry, as `__post_init__` checks when the entry is made. -/
def Writable (limits : RecursionLimits) (e : QueueEntry cls) : Prop := ∀ v ∈ e.values, v.nesting ≤ limits.dumps

/-- The instant printed with 14 significant digits is restored to itself. -/
def InstantKept (t : ClockTime) : Prop :=
  t.toTimestamp < 2 ^ 1024 ∧ restoreInstant "queued_at" (.num (print14 t.toTimestamp)) = .ok (some t)

/-- What `cjson` keeps of an entry: every container of its own kind, every number with 14
significant digits, a priority it prints as an integer. -/
structure Kept (e : QueueEntry cls) : Prop where
  payload : e.payload.NoEmptyArray ∧ e.payload.AllNum PyNum.Fits14
  extra : ∀ v ∈ e.extra, v.NoEmptyArray ∧ v.AllNum PyNum.Fits14
  timeoutSeconds : ∀ t ∈ e.timeoutSeconds, t.Fits14
  priority : |e.priority| < 10 ^ 14
  queuedAt : InstantKept e.queuedAt

theorem recode_encodeInstant {t : ClockTime} (h : t.toTimestamp < 2 ^ 1024) :
    Cjson.recode (encodeInstant t) = some (.num (print14 t.toTimestamp)) := by
  have hfl : fl t.toTimestamp = t.toTimestamp := fl_fl _
  have habs : |fl t.toTimestamp| < 2 ^ 1024 := by
    rwa [hfl, abs_of_nonneg t.toTimestamp_nonneg]
  rw [Cjson.recode, Cjson.table, encodeInstant, JValue.map, Cjson.encode, PyNum.toDouble,
    Double.encode_ofRat habs, hfl]
  rfl

theorem toTimestamp_lt_of_recode {t : ClockTime} {w : Json} (h : Cjson.recode (encodeInstant t) = some w) :
    t.toTimestamp < 2 ^ 1024 := by
  by_contra hge
  have hfl : fl t.toTimestamp = t.toTimestamp := fl_fl _
  have habs : ¬|fl t.toTimestamp| < 2 ^ 1024 := by
    rwa [hfl, abs_of_nonneg t.toTimestamp_nonneg]
  rw [Cjson.recode, Cjson.table, encodeInstant, JValue.map, Cjson.encode, PyNum.toDouble, Double.ofRat,
    dif_neg habs] at h
  cases h

theorem restoreInstant_print14 {q : ℚ} (hq : 0 ≤ q) (hlt : fl (decimal14.round q) < 2 ^ 1024) (name : String) :
    restoreInstant name (.num (print14 q)) = .ok (some (.fromTimestamp (fl (decimal14.round q)))) := by
  have hd : 0 ≤ decimal14.round q := decimal14.round_nonneg hq
  have hfl : 0 ≤ fl (decimal14.round q) := fl_nonneg hd
  have habs : |fl (decimal14.round q)| < 2 ^ 1024 := by
    rw [abs_of_nonneg hfl]
    exact hlt
  have hv : (print14 q).value = .rat (fl (decimal14.round q)) := value_print14_eq_iff.mpr ⟨habs, rfl⟩
  cases hp : print14 q with
  | int n =>
    rw [hp] at hv
    have hn : (n : ℚ) = fl (decimal14.round q) := by simpa [PyNum.value] using hv
    have hn₀ : 0 ≤ n := by
      have hq₀ : (0 : ℚ) ≤ n := by
        rw [hn]
        exact hfl
      exact_mod_cast hq₀
    have hfin : ¬2 ^ 1024 ≤ |fl (fl (decimal14.round q))| := by
      rw [fl_fl]
      exact not_le.mpr habs
    simp only [restoreInstant, hn, hfin, if_false, not_lt.mpr hn₀]
  | float x =>
    rw [hp] at hv
    cases x with
    | finite r hr =>
      have hr' : r = fl (decimal14.round q) := by simpa [PyNum.value, Double.value] using hv
      rw [restoreInstant, if_neg (not_lt.mpr (hr' ▸ hfl)), hr']
    | infinite b => simp [PyNum.value, Double.value] at hv
    | nan => simp [PyNum.value, Double.value] at hv

/-- Seconds of ten digits leave four decimals: an instant of today's magnitude is kept exactly
if its microseconds are a multiple of 100. -/
theorem instantKept_iff {t : ClockTime} (h₁ : 10 ^ 9 ≤ t.seconds) (h₂ : t.seconds + 1 < 2 ^ 33) :
    InstantKept t ↔ 100 ∣ t.microseconds := by
  have hbound : (t.seconds : ℚ) + 2 ≤ 2 ^ 33 := by exact_mod_cast h₂
  have hτ := abs_le.mp (t.abs_toTimestamp_sub_le h₂)
  have hτ₁ : (10 : ℚ) ^ 9 ≤ t.toTimestamp := le_trans (by exact_mod_cast h₁) (t.seconds_le_toTimestamp h₂)
  have htotal : (t.totalMicroseconds : ℚ) = t.seconds * 1000000 + t.microseconds := by
    unfold ClockTime.totalMicroseconds
    push_cast
    ring
  have hmicro : (t.microseconds : ℚ) < 1000000 := by exact_mod_cast t.microseconds_lt
  have hτ₂ : t.toTimestamp < 2 ^ 33 := by linarith [hτ.2]
  -- the unit of `%.14g` at this magnitude is a tenth of a millisecond
  have hunit : decimal14.round t.toTimestamp = roundAt (1 / 10000) t.toTimestamp := by
    have hlog : Int.log 10 t.toTimestamp = 9 := by
      have hpos : 0 < t.toTimestamp := lt_of_lt_of_le (by norm_num) hτ₁
      apply le_antisymm
      · have hlt : Int.log 10 t.toTimestamp < 10 :=
          (Int.lt_zpow_iff_log_lt (by norm_num) hpos).mp (hτ₂.trans (by norm_num))
        omega
      · exact (Int.zpow_le_iff_le_log (by norm_num) hpos).mp (by exact_mod_cast hτ₁)
    have hexp : decimal14.unitExp t.toTimestamp = -4 := by
      change Int.log 10 |t.toTimestamp| + 1 - 14 = -4
      rw [abs_of_nonneg t.toTimestamp_nonneg, hlog]
      norm_num
    rw [Format.round, Format.ulp, hexp]
    norm_num [decimal14]
  obtain ⟨k, hk⟩ : ∃ k, k = halfEven (t.toTimestamp / (1 / 10000)) := ⟨_, rfl⟩
  have hd : decimal14.round t.toTimestamp = 1 / 10000 * k := by rw [hunit, roundAt, hk]
  have hkerr := abs_le.mp (abs_halfEven_sub_le (t.toTimestamp / (1 / 10000)))
  rw [← hk] at hkerr
  have hd₀ : 0 ≤ decimal14.round t.toTimestamp := decimal14.round_nonneg t.toTimestamp_nonneg
  have hd₁ : decimal14.round t.toTimestamp < 2 ^ 33 := by
    rw [hd]
    linarith [hkerr.2, hτ.2]
  have hv := abs_le.mp (abs_fl_sub_le (k := 33) (by rw [abs_of_nonneg hd₀]; exact_mod_cast hd₁) (by norm_num))
  have hv₀ := fl_nonneg hd₀
  have hfrom := abs_le.mp (ClockTime.abs_total_fromTimestamp_sub_le hv₀)
  have hkept : InstantKept t ↔ ClockTime.fromTimestamp (fl (decimal14.round t.toTimestamp)) = t := by
    have hfin : fl (decimal14.round t.toTimestamp) < 2 ^ 1024 := by
      apply lt_overflow
      norm_num at hv hd₁ ⊢
      linarith [hv.2]
    rw [InstantKept, restoreInstant_print14 t.toTimestamp_nonneg hfin]
    constructor
    · rintro ⟨-, h⟩
      simpa using h
    · intro h
      rw [h]
      exact ⟨lt_overflow (hτ₂.trans (by norm_num)), rfl⟩
  rw [hkept]
  norm_num at hv hfrom
  constructor
  · intro h
    rw [h] at hfrom
    have hclose : |(t.totalMicroseconds : ℚ) - 100 * k| < 1 := by
      rw [abs_lt]
      constructor <;> linarith [hv.1, hv.2, hfrom.1, hfrom.2]
    have heq : (t.totalMicroseconds : ℤ) = 100 * k := by
      have hint : |(t.totalMicroseconds : ℤ) - 100 * k| < 1 := by exact_mod_cast hclose
      rw [Int.abs_lt_one_iff] at hint
      omega
    unfold ClockTime.totalMicroseconds at heq
    omega
  · rintro ⟨n, hn⟩
    have hgoal : k = t.seconds * 10000 + n := by
      rw [hk]
      apply halfEven_eq_of_abs_lt
      rw [hn] at htotal
      push_cast at htotal ⊢
      rw [abs_lt]
      constructor <;> linarith [hτ.1, hτ.2]
    apply ClockTime.totalMicroseconds_injective
    have hk' : (100 : ℚ) * k = t.totalMicroseconds := by
      rw [hgoal, htotal, hn]
      push_cast
      ring
    generalize (ClockTime.fromTimestamp (fl (decimal14.round t.toTimestamp))).totalMicroseconds = m at hfrom ⊢
    have hlt₁ : (m : ℚ) < t.totalMicroseconds + 1 := by linarith [hv.1, hv.2, hfrom.1, hfrom.2]
    have hlt₂ : (t.totalMicroseconds : ℚ) < m + 1 := by linarith [hv.1, hv.2, hfrom.1, hfrom.2]
    have hle₁ : m < t.totalMicroseconds + 1 := by exact_mod_cast hlt₁
    have hle₂ : t.totalMicroseconds < m + 1 := by exact_mod_cast hlt₂
    omega

theorem restoreBudget_ok {t : PyNum} {b : { b : Option PyNum // ∀ x ∈ b, x.IsBudget }}
    (h : restoreBudget (.num t) = .ok b) : b.1 = some t ∧ t.IsBudget := by
  unfold restoreBudget at h
  dsimp only at h
  split_ifs at h with hb
  · cases h
    exact ⟨rfl, hb⟩
  · cases t with
    | int n =>
      dsimp only at h
      split_ifs at h
    | float x => cases h

theorem value_ne_nan_of_isBudget {t : PyNum} (h : t.IsBudget) : t.value ≠ .nan := by
  cases t with
  | int n => simp [PyNum.value]
  | float x =>
    cases x with
    | finite q hq => simp [PyNum.value, Double.value]
    | infinite b => cases h
    | nan => cases h

theorem exists_print14_of_encode {x : Double} {y : PyNum} (h : x.encode = some y) : ∃ q, y = print14 q := by
  cases x with
  | finite q hq => exact ⟨q, (Option.some.inj h).symm⟩
  | infinite b => cases h
  | nan => cases h

theorem recode_num {x : PyNum} {w : Json} (h : Cjson.recode (.num x) = some w) :
    ∃ y, x.toDouble.encode = some y ∧ w = .num y := by
  rw [Cjson.recode, Cjson.table, JValue.map, Cjson.encode, Option.map_eq_some_iff] at h
  obtain ⟨y, hy, rfl⟩ := h
  exact ⟨y, hy, rfl⟩

/-- A budget that survives as a number is still a budget. -/
theorem isBudget_of_encode {t y : PyNum} (ht : t.IsBudget) (hy : t.toDouble.encode = some y)
    (hv : t.value = y.value) : y.IsBudget := by
  obtain ⟨r, hr, hpos⟩ : ∃ r, t.value = .rat r ∧ 0 < r := by
    cases t with
    | int n => exact ⟨n, rfl, by exact_mod_cast ht.1⟩
    | float x =>
      cases x with
      | finite q hq => exact ⟨q, rfl, ht⟩
      | infinite b => cases ht
      | nan => cases ht
  rw [hr] at hv
  obtain ⟨q, rfl⟩ := exists_print14_of_encode hy
  cases hp : print14 q with
  | int n =>
    have hlt := lt_of_print14_eq_int hp
    rw [hp] at hv
    obtain rfl : r = n := by simpa [PyNum.value] using hv
    have hn : 0 < n := by exact_mod_cast hpos
    refine ⟨hn, ?_⟩
    rw [fl_intCast (hlt.trans (by norm_num))]
    have hq : |(n : ℚ)| < 10 ^ 14 := by exact_mod_cast hlt
    exact lt_overflow (hq.trans (by norm_num))
  | float x =>
    rw [hp] at hv
    cases x with
    | finite q' hq' =>
      obtain rfl : r = q' := by simpa [PyNum.value, Double.value] using hv
      exact hpos
    | infinite b => simp [PyNum.value, Double.value] at hv
    | nan => simp [PyNum.value, Double.value] at hv

theorem Decodable.requeue {c : QueueEntry cls} (h : c.Decodable) : c.requeue.Decodable :=
  h.of_values rfl rfl rfl fits_null fits_null

section Recoded

variable {limits : RecursionLimits} {e : QueueEntry cls} {raw : Json}

theorem exists_field?_recoded (h : Cjson.recode e.toDict = some raw) {n : String} {v : Json}
    (hv : e.toDict.field? n = some v) : ∃ w, Cjson.recode v = some w ∧ raw.field? n = some w :=
  Cjson.exists_field?_recode h hv

/-- Each field of a subclass is re-encoded on its own. -/
theorem recoded_extra (h : Cjson.recode e.toDict = some raw) :
    List.Forall₂ (fun v x => Cjson.recode v = some x) e.extra
      (cls.fields.map fun p => fieldD raw p.1 p.2) := by
  have heq : List.Forall₂ (fun (p : String × Json) v => e.toDict.field? p.1 = some v) cls.fields e.extra := by
    have hmap := e.field?_toDict_extra
    rw [← List.forall₂_eq_eq_eq, List.forall₂_map_left_iff, List.forall₂_map_right_iff] at hmap
    exact hmap
  rw [List.forall₂_map_right_iff]
  refine heq.flip.imp fun v p hv => ?_
  obtain ⟨w, hw, hfield⟩ := exists_field?_recoded h hv
  rw [fieldD, hfield, hw]
  rfl

theorem forall₂_pyEq_iff {vs xs : List Json} (h : List.Forall₂ (fun v x => Cjson.recode v = some x) vs xs) :
    List.Forall₂ PyEq vs xs ↔ ∀ v ∈ vs, v.NoEmptyArray ∧ v.AllNum PyNum.Fits14 := by
  induction h with
  | nil => simp
  | @cons v x vs xs hx _ ih =>
    have hv : PyEq v x ↔ v.NoEmptyArray ∧ v.AllNum PyNum.Fits14 := by
      rw [← Cjson.recode_pyEq_iff v]
      constructor
      · intro heq
        exact ⟨x, hx, heq⟩
      · rintro ⟨x', hx', heq⟩
        rwa [Option.some.inj (hx.symm.trans hx')]
    rw [List.forall₂_cons, hv, ih, List.forall_mem_cons]

theorem missingFields_recoded (h : Cjson.recode e.toDict = some raw) : missingFields raw = [] := by
  rw [missingFields, List.filter_eq_nil_iff]
  intro n hn
  have hsome : (e.toDict.field? n).isSome := by
    fin_cases hn <;> rfl
  obtain ⟨v, hv⟩ := Option.isSome_iff_exists.mp hsome
  obtain ⟨w, -, hw⟩ := exists_field?_recoded h hv
  simp [hw]

theorem fieldD_recoded (h : Cjson.recode e.toDict = some raw) {n : String} {v w d : Json}
    (hv : e.toDict.field? n = some v) (hw : Cjson.recode v = some w) : fieldD raw n d = w := by
  obtain ⟨w', hw', hfield⟩ := exists_field?_recoded h hv
  rw [fieldD, hfield, Option.getD_some, Option.some.inj (hw.symm.trans hw')]

theorem field?_timeoutSeconds (e : QueueEntry cls) :
    e.toDict.field? "timeout_seconds" = some ((e.timeoutSeconds.map JValue.num).getD .null) := rfl

theorem print14_of_restorePriority {q : ℚ} {n : ℤ} (h : restorePriority (.num (print14 q)) = .ok n) :
    print14 q = .int n := by
  cases hp : print14 q with
  | int m =>
    rw [hp] at h
    rw [Except.ok.inj h]
  | float x =>
    rw [hp] at h
    cases h

theorem kept_of_same (h : Cjson.recode e.toDict = some raw) {e' : QueueEntry cls} (hr : Restores limits raw e')
    (hs : SameEntry e e') : e.Kept where
  payload := by
    obtain ⟨w, hw, hfield⟩ := exists_field?_recoded h (n := "payload") (v := e.payload) rfl
    have hp : e'.payload = w := by
      rw [hr.payload, fieldD, hfield]
      rfl
    exact (Cjson.recode_pyEq_iff e.payload).mp ⟨w, hw, hp ▸ hs.payload⟩
  extra := by
    have hx := hs.extra
    rw [hr.extra] at hx
    exact (forall₂_pyEq_iff (recoded_extra h)).mp hx
  timeoutSeconds t ht := by
    have hv := field?_timeoutSeconds e
    rw [Option.mem_def.mp ht] at hv
    obtain ⟨w, hw, hfield⟩ := exists_field?_recoded h hv
    obtain ⟨y, hy, rfl⟩ := recode_num hw
    have hbudget := hr.timeoutSeconds
    rw [fieldD, hfield, Option.getD_some] at hbudget
    obtain ⟨hty, hb⟩ := restoreBudget_ok hbudget
    have hval := hs.timeoutSeconds
    rw [show e'.timeoutSeconds = some y from hty, Option.mem_def.mp ht, Option.map_some, Option.map_some,
      Option.some.injEq] at hval
    exact (t.fits14_iff).mp ⟨y, hy, hval.symm, value_ne_nan_of_isBudget hb⟩
  priority := by
    obtain ⟨w, hw, hfield⟩ := exists_field?_recoded h (n := "priority") (v := .num (.int e.priority)) rfl
    obtain ⟨y, hy, rfl⟩ := recode_num hw
    obtain ⟨q, rfl⟩ := exists_print14_of_encode hy
    have hp := hr.priority
    rw [fieldD, hfield, Option.getD_some, hs.priority] at hp
    exact lt_of_print14_eq_int (print14_of_restorePriority hp)
  queuedAt := by
    obtain ⟨w, hw, hfield⟩ := exists_field?_recoded h (n := "queued_at") (v := encodeInstant e.queuedAt) rfl
    have hlt := toTimestamp_lt_of_recode hw
    refine ⟨hlt, ?_⟩
    have hq := hr.queuedAt
    rw [fieldD_recoded h rfl (recode_encodeInstant hlt), hs.queuedAt] at hq
    exact hq

/-- A budget with a 14-digit rendering is restored with its value. -/
theorem restoreBudget_recoded (h : Cjson.recode e.toDict = some raw) (hk : ∀ t ∈ e.timeoutSeconds, t.Fits14) :
    ∃ b : { b : Option PyNum // ∀ x ∈ b, x.IsBudget },
      restoreBudget (fieldD raw "timeout_seconds" .null) = .ok b ∧
        b.1.map PyNum.value = e.timeoutSeconds.map PyNum.value := by
  have hv := field?_timeoutSeconds e
  cases ht : e.timeoutSeconds with
  | none =>
    rw [ht] at hv
    rw [fieldD_recoded h hv rfl]
    exact ⟨⟨none, by simp⟩, rfl, rfl⟩
  | some t =>
    rw [ht] at hv
    obtain ⟨y, hy, hval, -⟩ := (t.fits14_iff).mpr (hk t ht)
    have hw : Cjson.recode (.num t) = some (.num y) := by
      rw [Cjson.recode, Cjson.table, JValue.map, Cjson.encode, hy]
      rfl
    have hb : y.IsBudget := isBudget_of_encode (e.budget t ht) hy hval
    rw [fieldD_recoded h hv hw]
    refine ⟨⟨some y, by simpa using hb⟩, ?_, by simp [hval]⟩
    unfold restoreBudget
    exact dif_pos hb

theorem restoreId_recoded (h : Cjson.recode e.toDict = some raw) :
    restoreId (fieldD raw "id" .null) = .ok (some e.id.digits) := by
  have hid : fieldD raw "id" .null = .str e.id.toText := fieldD_recoded h rfl rfl
  rw [hid, restoreId, EntryId.parseUuid?_toText]

theorem priority_recoded (h : Cjson.recode e.toDict = some raw) (hk : |e.priority| < 10 ^ 14) (d : Json) :
    fieldD raw "priority" d = .num (.int e.priority) := by
  have hlt : |e.priority| < 2 ^ 53 := hk.trans (by norm_num)
  have hfl : fl (e.priority : ℚ) = e.priority := fl_intCast hlt
  have hfin : |fl (e.priority : ℚ)| < 2 ^ 1024 := by
    have hq : |(e.priority : ℚ)| < 2 ^ 53 := by exact_mod_cast hlt
    rw [hfl]
    exact lt_overflow hq
  have hw : Cjson.recode (.num (.int e.priority)) = some (.num (.int e.priority)) := by
    rw [Cjson.recode, Cjson.table, JValue.map, Cjson.encode, PyNum.toDouble, Double.encode_ofRat hfin, hfl,
      print14_intCast hk]
    rfl
  exact fieldD_recoded h rfl hw

theorem forall_nesting_iff {vs ws : List Json} (h : List.Forall₂ (fun v w => w.nesting = v.nesting) vs ws) (n : ℕ) :
    (∀ w ∈ ws, w.nesting ≤ n) ↔ ∀ v ∈ vs, v.nesting ≤ n := by
  induction h with
  | nil => simp
  | cons hv _ ih => rw [List.forall_mem_cons, List.forall_mem_cons, hv, ih]

/-- The values of the re-encoded record are as deeply nested as those of the entry. -/
theorem writable_recoded (h : Cjson.recode e.toDict = some raw) :
    validateJsonValues limits (jsonFields cls raw) = .ok () ↔ e.Writable limits := by
  have hfield : ∀ {n : String} {v : Json}, e.toDict.field? n = some v →
      (fieldD raw n .null).nesting = v.nesting := fun {n v} hv => by
    obtain ⟨w, hw, hfield⟩ := exists_field?_recoded h hv
    rw [fieldD, hfield]
    exact Cjson.nesting_recode hw
  have hvalues : List.Forall₂ (fun v w => w.nesting = v.nesting) e.values ((jsonFields cls raw).map Prod.snd) := by
    rw [jsonFields, List.map_append, List.map_map, List.map_map]
    refine .cons (hfield rfl) (.cons (hfield rfl) (.cons (hfield rfl) ?_))
    exact (recoded_extra h).imp fun _ _ hw => Cjson.nesting_recode hw
  rw [validateJsonValues_eq_ok, Writable, ← forall_nesting_iff hvalues, List.forall_mem_map]

/-- The re-encoded record of an entry that `cjson` keeps is read back as that entry. -/
theorem same_of_kept (hnew : e.requeue = e) (h : Cjson.recode e.toDict = some raw) (hk : e.Kept)
    (hw : e.Writable limits) : ∃ e', fromDict limits cls raw = .ok e' ∧ SameEntry e e' := by
  -- an entry that is its own requeued form has not run
  have hstatus : e.status = .queued := by rw [← hnew]; rfl
  have hdispatched : e.dispatchedAt = none := by rw [← hnew]; rfl
  have hfinished : e.finishedAt = none := by rw [← hnew]; rfl
  have hresult : e.result = .null := by rw [← hnew]; rfl
  have herror : e.error = .null := by rw [← hnew]; rfl
  obtain ⟨w, hpw, hpayload⟩ := (Cjson.recode_pyEq_iff e.payload).mpr hk.payload
  obtain ⟨b, hb, hbval⟩ := restoreBudget_recoded h hk.timeoutSeconds
  have hid := restoreId_recoded h
  have hpriority := priority_recoded h hk.priority (.num (.int 0))
  have hstored : fieldD raw "status" .null = .str e.status.value := fieldD_recoded h rfl rfl
  have hnull : ∀ n : String, e.toDict.field? n = some .null → fieldD raw n .null = .null := fun n hn =>
    fieldD_recoded h hn rfl
  refine ⟨{ e with
    payload := w
    timeoutSeconds := b.1
    extra := cls.fields.map fun p => fieldD raw p.1 p.2
    budget := b.2
    extra_length := by simp }, fromDict_eq_ok_iff.mpr ?_, ?_⟩
  · exact
      { missing := missingFields_recoded h
        id := hid
        status := by
          rw [hstored, restoreStatus, QueueEntryStatus.ofValue?_value]
        queuedAt := by
          rw [fieldD_recoded h rfl (recode_encodeInstant hk.queuedAt.1)]
          exact hk.queuedAt.2
        dispatchedAt := by
          have hf : e.toDict.field? "dispatched_at" = some (encodeOptionalInstant e.dispatchedAt) := rfl
          rw [hdispatched] at hf
          rw [hnull _ hf, hdispatched]
          rfl
        finishedAt := by
          have hf : e.toDict.field? "finished_at" = some (encodeOptionalInstant e.finishedAt) := rfl
          rw [hfinished] at hf
          rw [hnull _ hf, hfinished]
          rfl
        queue := fieldD_recoded h rfl rfl
        timeoutSeconds := hb
        priority := by
          rw [hpriority]
          rfl
        nesting := (writable_recoded h).mpr hw
        payload := (fieldD_recoded h rfl hpw).symm
        result := by
          have hf : e.toDict.field? "result" = some e.result := rfl
          rw [hresult] at hf
          rw [hnull _ hf, hresult]
        error := by
          have hf : e.toDict.field? "error" = some e.error := rfl
          rw [herror] at hf
          rw [hnull _ hf, herror]
        extra := rfl }
  · have hrefl : PyEq .null .null := ⟨rfl, trivial⟩
    exact
      { id := rfl
        queue := rfl
        status := rfl
        queuedAt := rfl
        dispatchedAt := rfl
        finishedAt := rfl
        payload := hpayload
        result := by rw [hresult]; exact hrefl
        error := by rw [herror]; exact hrefl
        timeoutSeconds := hbval
        priority := rfl
        extra := (forall₂_pyEq_iff (recoded_extra h)).mpr hk.extra }

theorem readsBack_iff (hnew : e.requeue = e) (h : Cjson.recode e.toDict = some raw) :
    (∃ e', fromDict limits cls raw = .ok e' ∧ SameEntry e e') ↔ e.Kept ∧ e.Writable limits := by
  constructor
  · rintro ⟨e', hd, hs⟩
    have hr := fromDict_eq_ok_iff.mp hd
    exact ⟨kept_of_same h hr hs, (writable_recoded h).mp hr.nesting⟩
  · exact fun hk => same_of_kept hnew h hk.1 hk.2

end Recoded

/-- Every number of the entry is finite once it is read as a binary64 value. -/
structure Encodable (e : QueueEntry cls) : Prop where
  payload : e.payload.AllNum PyNum.Encodable
  extra : ∀ v ∈ e.extra, v.AllNum PyNum.Encodable
  priority : |fl (e.priority : ℚ)| < 2 ^ 1024
  queuedAt : e.queuedAt.toTimestamp < 2 ^ 1024

theorem encodable_of_isBudget {t : PyNum} (h : t.IsBudget) : t.Encodable := by
  cases t with
  | int n => exact h.2
  | float x =>
    cases x with
    | finite q hq => trivial
    | infinite b => cases h
    | nan => cases h

theorem encodable_instant_iff (t : ClockTime) :
    (encodeInstant t).AllNum PyNum.Encodable ↔ t.toTimestamp < 2 ^ 1024 := by
  rw [← Cjson.recode_isSome_iff]
  constructor
  · intro h
    obtain ⟨w, hw⟩ := Option.isSome_iff_exists.mp h
    exact toTimestamp_lt_of_recode hw
  · intro h
    exact Option.isSome_of_mem (recode_encodeInstant h)

theorem allNumFields_append {p : PyNum → Prop} {kvs kvs' : List (Text × Json)} :
    JValue.AllNumFields p (kvs ++ kvs') ↔ JValue.AllNumFields p kvs ∧ JValue.AllNumFields p kvs' := by
  induction kvs with
  | nil => simp [JValue.AllNumFields]
  | cons q kvs ih =>
    obtain ⟨k, v⟩ := q
    simp only [List.cons_append, JValue.AllNumFields, ih, and_assoc]

theorem allNumFields_zip {p : PyNum → Prop} {names : List Text} {vs : List Json}
    (h : vs.length = names.length) :
    JValue.AllNumFields p (names.zip vs) ↔ ∀ v ∈ vs, v.AllNum p := by
  induction names generalizing vs with
  | nil =>
    obtain rfl := List.length_eq_zero_iff.mp h
    simp [JValue.AllNumFields]
  | cons n names ih =>
    cases vs with
    | nil => cases h
    | cons v vs =>
      simp only [List.zip_cons_cons, JValue.AllNumFields, ih (Nat.succ.inj h), List.forall_mem_cons]

theorem recode_toDict_isSome_iff {e : QueueEntry cls} (hnew : e.requeue = e) :
    (Cjson.recode e.toDict).isSome ↔ e.Encodable := by
  have hdispatched : e.dispatchedAt = none := by rw [← hnew]; rfl
  have hfinished : e.finishedAt = none := by rw [← hnew]; rfl
  have hresult : e.result = .null := by rw [← hnew]; rfl
  have herror : e.error = .null := by rw [← hnew]; rfl
  have hbudget : ((e.timeoutSeconds.map JValue.num).getD .null).AllNum PyNum.Encodable := by
    cases ht : e.timeoutSeconds with
    | none => trivial
    | some t => exact encodable_of_isBudget (e.budget t ht)
  have hext : JValue.AllNumFields PyNum.Encodable ((cls.fields.map fun p => (p.1 : Text)).zip e.extra) ↔ _ :=
    allNumFields_zip (by simpa using e.extra_length)
  have hinst := encodable_instant_iff e.queuedAt
  rw [Cjson.recode, Cjson.table, Cjson.recode_isSome_iff, toDict, JValue.AllNum, allNumFields_append, hext,
    toDictBase, hdispatched, hfinished, hresult, herror]
  simp only [JValue.AllNumFields, encodeOptionalInstant, hinst, hbudget, JValue.AllNum, PyNum.Encodable,
    true_and, and_true]
  constructor
  · rintro ⟨⟨h₁, h₂, h₃⟩, h₄⟩
    exact ⟨h₂, h₄, h₃, h₁⟩
  · rintro ⟨h₂, h₄, h₃, h₁⟩
    exact ⟨⟨h₁, h₂, h₃⟩, h₄⟩

end DjangoQueues.QueueEntry
