import DjangoQueues.RestoredEntries

/-! Python values as producers pass them, stored as JSON text and read back. Values of the
classes `json.dumps` refuses are `other`; the text of a float used as a key and the nesting at
which the interpreter gives up are parameters. -/

namespace DjangoQueues

/-- A key of a `dict`. -/
inductive PyKey where
  | none
  | bool (b : Bool)
  | int (n : ℤ)
  | float (x : Double)
  | str (s : PyStr)
  | other
deriving DecidableEq

inductive PyValue where
  | none
  | bool (b : Bool)
  | num (x : PyNum)
  | str (s : PyStr)
  | list (xs : List PyValue)
  | tuple (xs : List PyValue)
  | dict (kvs : List (PyKey × PyValue))
  | other

/-! ## `json.dumps` and `json.loads` -/

/-- The text of a key; `TypeError` for other classes. -/
def PyKey.text (floatRepr : Double → String) : PyKey → Option Text
  | .none => some "null"
  | .bool b => some (if b then "true" else "false" : String)
  | .int n => some (toString n)
  | .float x => some (floatRepr x)
  | .str s => some (.ofStr s)
  | .other => Option.none

/-- The `dict` of the members of an object: the last of equal keys counts. -/
def loadsObject (ps : List (Text × Json)) : List (Text × Json) :=
  ps.foldl (fun d p => Dict.setList p.1 p.2 d) []

namespace PyValue

mutual

/-- `json.loads(json.dumps(value))`, or nothing where `json.dumps` raises. -/
def dumps (floatRepr : Double → String) : PyValue → Option Json
  | .none => some .null
  | .bool b => some (.bool b)
  | .num x => some (.num x)
  | .str s => some (.str (.ofStr s))
  | .list xs => (dumpsList floatRepr xs).map .arr
  | .tuple xs => (dumpsList floatRepr xs).map .arr
  | .dict kvs => (dumpsFields floatRepr kvs).map fun ps => .obj (loadsObject ps)
  | .other => Option.none

def dumpsList (floatRepr : Double → String) : List PyValue → Option (List Json)
  | [] => some []
  | x :: xs => (x.dumps floatRepr).bind fun y => (dumpsList floatRepr xs).map fun ys => y :: ys

def dumpsFields (floatRepr : Double → String) : List (PyKey × PyValue) → Option (List (Text × Json))
  | [] => some []
  | (k, v) :: kvs => (k.text floatRepr).bind fun s => (v.dumps floatRepr).bind fun w =>
      (dumpsFields floatRepr kvs).map fun ps => (s, w) :: ps

end

mutual

/-- How deeply lists, tuples and dictionaries stand in each other. -/
def nesting : PyValue → ℕ
  | .list xs => nestingList xs + 1
  | .tuple xs => nestingList xs + 1
  | .dict kvs => nestingFields kvs + 1
  | _ => 0

def nestingList : List PyValue → ℕ
  | [] => 0
  | x :: xs => max x.nesting (nestingList xs)

def nestingFields : List (PyKey × PyValue) → ℕ
  | [] => 0
  | (_, v) :: kvs => max v.nesting (nestingFields kvs)

end

mutual

/-- The keys of every `dict` are distinct. -/
def Distinct : PyValue → Prop
  | .list xs => DistinctList xs
  | .tuple xs => DistinctList xs
  | .dict kvs => (kvs.map Prod.fst).Nodup ∧ DistinctFields kvs
  | _ => True

def DistinctList : List PyValue → Prop
  | [] => True
  | x :: xs => x.Distinct ∧ DistinctList xs

def DistinctFields : List (PyKey × PyValue) → Prop
  | [] => True
  | (_, v) :: kvs => v.Distinct ∧ DistinctFields kvs

end

def boolValue (b : Bool) : NumValue := .rat (if b then 1 else 0)

mutual

/-- Python's `==` between a value and one read from JSON: numbers and booleans compare by
value, a `tuple` equals no `list`, and dictionaries need the same keys with equal values. -/
def Equals : PyValue → Json → Prop
  | .none, .null => True
  | .bool b, .bool b' => b = b'
  | .bool b, .num y => boolValue b = y.value
  | .num x, .num y => x.value = y.value ∧ x.value ≠ .nan
  | .num x, .bool b => x.value = boolValue b
  | .str s, .str t => s = t.codePoints
  | .list xs, .arr ys => EqualsList xs ys
  | .dict kvs, .obj ws => kvs.length = ws.length ∧ EqualsFields kvs ws
  | _, _ => False

def EqualsList : List PyValue → List Json → Prop
  | [], [] => True
  | x :: xs, y :: ys => x.Equals y ∧ EqualsList xs ys
  | _, _ => False

def EqualsFields : List (PyKey × PyValue) → List (Text × Json) → Prop
  | [], _ => True
  | (k, v) :: kvs, ws =>
    (∃ t w, k = .str (Text.codePoints t) ∧ ws.lookup t = some w ∧ v.Equals w) ∧ EqualsFields kvs ws

end

mutual

/-- A value of JSON itself: no `tuple`, no key that is not a `str`, no NaN, and in no `str` a high surrogate right
before a low one. -/
def Native : PyValue → Prop
  | .num x => x.value ≠ .nan
  | .str s => s.joinPairs = s
  | .list xs => NativeList xs
  | .tuple _ => False
  | .dict kvs => NativeFields kvs
  | .other => False
  | _ => True

def NativeList : List PyValue → Prop
  | [] => True
  | x :: xs => x.Native ∧ NativeList xs

def NativeFields : List (PyKey × PyValue) → Prop
  | [] => True
  | (k, v) :: kvs => (∃ s : PyStr, k = .str s ∧ s.joinPairs = s) ∧ v.Native ∧ NativeFields kvs

end

/-! ## What survives -/

variable {floatRepr : Double → String}

theorem setList_of_notMem {k : Text} {w : Json} {l : List (Text × Json)} (h : k ∉ l.map Prod.fst) :
    Dict.setList k w l = l ++ [(k, w)] := by
  induction l with
  | nil => rfl
  | cons p l ih =>
    obtain ⟨k', v⟩ := p
    rw [List.map_cons, List.mem_cons, not_or] at h
    rw [Dict.setList, if_neg (fun heq => h.1 heq.symm), ih h.2, List.cons_append]

/-- Distinct members are all kept. -/
theorem loadsObject_of_nodup {ps : List (Text × Json)} (h : (ps.map Prod.fst).Nodup) : loadsObject ps = ps := by
  have hfold : ∀ (ps acc : List (Text × Json)), ((acc ++ ps).map Prod.fst).Nodup →
      ps.foldl (fun d p => Dict.setList p.1 p.2 d) acc = acc ++ ps := by
    intro ps
    induction ps with
    | nil => simp
    | cons p ps ih =>
      intro acc hnodup
      have hnot : p.1 ∉ acc.map Prod.fst := by
        rw [List.map_append, List.nodup_append] at hnodup
        exact fun hmem => hnodup.2.2 _ hmem _ (List.mem_cons_self ..) rfl
      rw [List.foldl_cons, setList_of_notMem hnot, ih, List.append_assoc, List.singleton_append]
      rwa [List.append_assoc, List.singleton_append]
  exact hfold ps [] h

/-- Every key is a `str` that is read back as itself. -/
def TextKeys (kvs : List (PyKey × PyValue)) : Prop := ∀ p ∈ kvs, ∃ t : Text, p.1 = .str t.codePoints

theorem EqualsFields.textKeys {kvs : List (PyKey × PyValue)} {ws : List (Text × Json)} (h : EqualsFields kvs ws) :
    TextKeys kvs := by
  induction kvs with
  | nil => exact fun p hp => by cases hp
  | cons p kvs ih =>
    obtain ⟨⟨t, w, hk, -⟩, htail⟩ := h
    exact List.forall_mem_cons.mpr ⟨⟨t, hk⟩, ih htail⟩

theorem NativeFields.textKeys {kvs : List (PyKey × PyValue)} (h : NativeFields kvs) : TextKeys kvs := by
  induction kvs with
  | nil => exact fun p hp => by cases hp
  | cons p kvs ih =>
    obtain ⟨⟨s, hk, hs⟩, -, htail⟩ := h
    refine List.forall_mem_cons.mpr ⟨⟨.ofStr s, ?_⟩, ih htail⟩
    rw [hk, Text.codePoints_ofStr, hs]

/-- The members written for a `dict` with such keys are under these keys. -/
theorem map_str_of_dumpsFields {kvs : List (PyKey × PyValue)} {ps : List (Text × Json)} (htext : TextKeys kvs)
    (h : dumpsFields floatRepr kvs = some ps) : kvs.map Prod.fst = ps.map fun p => PyKey.str p.1.codePoints := by
  induction kvs generalizing ps with
  | nil =>
    obtain rfl := Option.some.inj h
    rfl
  | cons p kvs ih =>
    obtain ⟨k, v⟩ := p
    rw [TextKeys, List.forall_mem_cons] at htext
    obtain ⟨t, rfl⟩ := htext.1
    rw [dumpsFields, Option.bind_eq_some_iff] at h
    obtain ⟨t', ht', h⟩ := h
    obtain ⟨w, hw, h⟩ := Option.bind_eq_some_iff.mp h
    obtain ⟨ps', hps', rfl⟩ := Option.map_eq_some_iff.mp h
    rw [List.map_cons, List.map_cons, ih htext.2 hps', ← Option.some.inj ht', Text.ofStr_codePoints]

theorem lookup_of_mem {ps : List (Text × Json)} (h : (ps.map Prod.fst).Nodup) {p : Text × Json} (hp : p ∈ ps) :
    ps.lookup p.1 = some p.2 := by
  induction ps with
  | nil => cases hp
  | cons q ps ih =>
    rw [List.map_cons, List.nodup_cons] at h
    rcases List.mem_cons.mp hp with rfl | hp
    · exact List.lookup_cons_self
    · have hne : p.1 ≠ q.1 := fun heq => h.1 (heq ▸ List.mem_map_of_mem hp)
      rw [List.lookup_cons_of_ne hne]
      exact ih h.2 hp

mutual

/-- A value that is stored is read back as itself exactly if it is a value of JSON. -/
theorem equals_iff_native : ∀ (v : PyValue) {w : Json}, v.Distinct → v.dumps floatRepr = some w →
    (v.Equals w ↔ v.Native)
  | .none, _, _, h => by
    obtain rfl := Option.some.inj h
    exact Iff.rfl
  | .bool b, _, _, h => by
    obtain rfl := Option.some.inj h
    exact ⟨fun _ => trivial, fun _ => rfl⟩
  | .num x, _, _, h => by
    obtain rfl := Option.some.inj h
    exact ⟨fun hx => hx.2, fun hx => ⟨rfl, hx⟩⟩
  | .str s, _, _, h => by
    obtain rfl := Option.some.inj h
    show s = (Text.ofStr s).codePoints ↔ s.joinPairs = s
    rw [Text.codePoints_ofStr]
    exact eq_comm
  | .list xs, _, hd, h => by
    obtain ⟨ys, hys, rfl⟩ := Option.map_eq_some_iff.mp h
    exact equalsList_iff_native xs hd hys
  | .tuple xs, _, _, h => by
    obtain ⟨ys, hys, rfl⟩ := Option.map_eq_some_iff.mp h
    exact Iff.rfl
  | .dict kvs, _, hd, h => by
    obtain ⟨ps, hps, rfl⟩ := Option.map_eq_some_iff.mp h
    show kvs.length = (loadsObject ps).length ∧ EqualsFields kvs (loadsObject ps) ↔ NativeFields kvs
    -- keys that are not read back as themselves make both sides false, and the others do not collide
    by_cases htext : TextKeys kvs
    · have hkeys := map_str_of_dumpsFields htext hps
      have hnodup : (ps.map Prod.fst).Nodup := by
        apply List.Nodup.of_map fun t : Text => PyKey.str t.codePoints
        rw [List.map_map]
        exact hkeys ▸ hd.1
      have hlength : kvs.length = ps.length := by
        have hlen := congrArg List.length hkeys
        rwa [List.length_map, List.length_map] at hlen
      rw [loadsObject_of_nodup hnodup]
      have hfields := equalsFields_iff_native kvs hd.2 hps (fun p hp => lookup_of_mem hnodup hp)
      exact ⟨fun h => hfields.mp h.2, fun h => ⟨hlength, hfields.mpr h⟩⟩
    · exact ⟨fun h => absurd h.2.textKeys htext, fun h => absurd h.textKeys htext⟩
  | .other, _, _, h => by cases h

theorem equalsList_iff_native : ∀ (xs : List PyValue) {ys : List Json}, DistinctList xs →
    dumpsList floatRepr xs = some ys → (EqualsList xs ys ↔ NativeList xs)
  | [], _, _, h => by
    obtain rfl := Option.some.inj h
    exact Iff.rfl
  | x :: xs, _, hd, h => by
    rw [dumpsList, Option.bind_eq_some_iff] at h
    obtain ⟨y, hy, h⟩ := h
    obtain ⟨ys, hys, rfl⟩ := Option.map_eq_some_iff.mp h
    exact and_congr (equals_iff_native x hd.1 hy) (equalsList_iff_native xs hd.2 hys)

theorem equalsFields_iff_native : ∀ (kvs : List (PyKey × PyValue)) {ps ws : List (Text × Json)},
    DistinctFields kvs → dumpsFields floatRepr kvs = some ps → (∀ p ∈ ps, ws.lookup p.1 = some p.2) →
      (EqualsFields kvs ws ↔ NativeFields kvs)
  | [], _, _, _, _, _ => Iff.rfl
  | (k, v) :: kvs, _, ws, hd, h, hws => by
    rw [dumpsFields, Option.bind_eq_some_iff] at h
    obtain ⟨s, hs, h⟩ := h
    obtain ⟨w, hw, h⟩ := Option.bind_eq_some_iff.mp h
    obtain ⟨ps, hps, rfl⟩ := Option.map_eq_some_iff.mp h
    rw [List.forall_mem_cons] at hws
    have hvalue := equals_iff_native v hd.1 hw
    have htail := equalsFields_iff_native kvs hd.2 hps hws.2
    show (∃ t w, k = .str (Text.codePoints t) ∧ ws.lookup t = some w ∧ v.Equals w) ∧ EqualsFields kvs ws ↔
      (∃ s : PyStr, k = .str s ∧ s.joinPairs = s) ∧ v.Native ∧ NativeFields kvs
    rw [htail, ← and_assoc]
    refine and_congr_left fun _ => ⟨?_, ?_⟩
    · rintro ⟨t, w', rfl, hlookup, hequals⟩
      obtain rfl : t = s := (Text.ofStr_codePoints t).symm.trans (Option.some.inj hs)
      obtain rfl := Option.some.inj (hlookup.symm.trans hws.1)
      exact ⟨⟨_, rfl, t.joinPairs_codePoints⟩, hvalue.mp hequals⟩
    · rintro ⟨⟨s', rfl, hjoined⟩, hnative⟩
      obtain rfl : Text.ofStr s' = s := Option.some.inj hs
      refine ⟨.ofStr s', w, ?_, hws.1, hvalue.mpr hnative⟩
      rw [Text.codePoints_ofStr, hjoined]

end

end PyValue

/-! ## Nesting -/

namespace PyValue

theorem mem_of_mem_loadsObject {ps : List (Text × Json)} {p : Text × Json} (h : p ∈ loadsObject ps) : p ∈ ps := by
  have hfold : ∀ (ps acc : List (Text × Json)),
      p ∈ ps.foldl (fun d q => Dict.setList q.1 q.2 d) acc → p ∈ acc ∨ p ∈ ps := by
    intro ps
    induction ps with
    | nil => exact fun acc h => .inl h
    | cons q ps ih =>
      intro acc h
      rcases ih _ h with hacc | htail
      · rcases Dict.mem_of_mem_setList hacc with rfl | hold
        · exact .inr (List.mem_cons_self ..)
        · exact .inl hold
      · exact .inr (List.mem_cons_of_mem _ htail)
  exact (hfold ps [] h).resolve_left (by simp)

mutual

/-- What is read back is nested no deeper than the value. -/
theorem nesting_dumps : ∀ (v : PyValue) {w : Json}, v.dumps floatRepr = some w → w.nesting ≤ v.nesting
  | .none, _, h | .bool _, _, h | .num _, _, h | .str _, _, h => by
    obtain rfl := Option.some.inj h
    exact Nat.le_refl _
  | .list xs, _, h | .tuple xs, _, h => by
    obtain ⟨ys, hys, rfl⟩ := Option.map_eq_some_iff.mp h
    exact Nat.succ_le_succ (nesting_dumpsList xs hys)
  | .dict kvs, _, h => by
    obtain ⟨ps, hps, rfl⟩ := Option.map_eq_some_iff.mp h
    apply Nat.succ_le_succ
    rw [Cjson.nestingFields_le]
    have hle := Cjson.nestingFields_le.mp (nesting_dumpsFields kvs hps)
    exact fun p hp => hle p (mem_of_mem_loadsObject hp)
  | .other, _, h => by cases h

theorem nesting_dumpsList : ∀ (xs : List PyValue) {ys : List Json}, dumpsList floatRepr xs = some ys →
    JValue.nestingList ys ≤ nestingList xs
  | [], _, h => by
    obtain rfl := Option.some.inj h
    exact Nat.le_refl _
  | x :: xs, _, h => by
    rw [dumpsList, Option.bind_eq_some_iff] at h
    obtain ⟨y, hy, h⟩ := h
    obtain ⟨ys, hys, rfl⟩ := Option.map_eq_some_iff.mp h
    exact max_le_max (nesting_dumps x hy) (nesting_dumpsList xs hys)

theorem nesting_dumpsFields : ∀ (kvs : List (PyKey × PyValue)) {ps : List (Text × Json)},
    dumpsFields floatRepr kvs = some ps → JValue.nestingFields ps ≤ nestingFields kvs
  | [], _, h => by
    obtain rfl := Option.some.inj h
    exact Nat.le_refl _
  | (k, v) :: kvs, _, h => by
    rw [dumpsFields, Option.bind_eq_some_iff] at h
    obtain ⟨s, -, h⟩ := h
    obtain ⟨w, hw, h⟩ := Option.bind_eq_some_iff.mp h
    obtain ⟨ps, hps, rfl⟩ := Option.map_eq_some_iff.mp h
    exact max_le_max (nesting_dumps v hw) (nesting_dumpsFields kvs hps)

end

end PyValue

/-! ## Entries -/

/-- A value that `validate_json_value` accepts. -/
structure Payload (limits : RecursionLimits) (floatRepr : Double → String) where
  value : PyValue
  distinct : value.Distinct
  accepted : (value.dumps floatRepr).isSome
  nested : value.nesting ≤ limits.dumps

namespace Payload

variable {limits : RecursionLimits}

/-- The value in the stored record. -/
def stored (p : Payload limits floatRepr) : Json := (p.value.dumps floatRepr).get p.accepted

theorem dumps_eq (p : Payload limits floatRepr) : p.value.dumps floatRepr = some p.stored :=
  (Option.some_get p.accepted).symm

theorem equals_iff_native (p : Payload limits floatRepr) : p.value.Equals p.stored ↔ p.value.Native :=
  PyValue.equals_iff_native p.value p.distinct p.dumps_eq

theorem nesting_stored (p : Payload limits floatRepr) : p.stored.nesting ≤ limits.dumps :=
  (PyValue.nesting_dumps p.value p.dumps_eq).trans p.nested

end Payload

/-- `from_timestamp` inverts `to_timestamp`, which does not overflow. -/
def ClockTime.Inverts (t : ClockTime) : Prop := t.toTimestamp < 2 ^ 1024 ∧ fromTimestamp t.toTimestamp = t

instance (t : ClockTime) : Decidable t.Inverts := inferInstanceAs (Decidable (_ ∧ _))

/-- In the documented range every instant is read back. -/
theorem ClockTime.inverts_of_lt {t : ClockTime} (h : t.seconds + 1 < 2 ^ 33) : t.Inverts := by
  have hto := abs_le.mp (abs_toTimestamp_sub_le h)
  have hfrom := abs_le.mp (abs_total_fromTimestamp_sub_le t.toTimestamp_nonneg)
  have hsmall : (2 : ℚ) ^ (-33 : ℤ) ≤ 1 / 100 := by norm_num
  have htotal : t.totalMicroseconds < 2 ^ 33 * 1000000 := by
    have hlt := t.microseconds_lt
    unfold totalMicroseconds
    omega
  constructor
  · have hbound : t.toTimestamp * 1000000 < 2 ^ 33 * 1000000 + 1 := by
      have hcast : (t.totalMicroseconds : ℚ) < 2 ^ 33 * 1000000 := by exact_mod_cast htotal
      linarith [hto.2]
    have hlt : t.toTimestamp < 2 ^ 34 := by linarith
    exact hlt.trans (pow_lt_pow_right₀ (by norm_num) (by norm_num))
  · -- both roundings together move the instant by less than a microsecond
    apply totalMicroseconds_injective
    have hlt₁ : ((fromTimestamp t.toTimestamp).totalMicroseconds : ℚ) < t.totalMicroseconds + 1 := by
      linarith [hto.2, hfrom.2]
    have hlt₂ : (t.totalMicroseconds : ℚ) < (fromTimestamp t.toTimestamp).totalMicroseconds + 1 := by
      linarith [hto.1, hfrom.1]
    have hnat₁ : (fromTimestamp t.toTimestamp).totalMicroseconds < t.totalMicroseconds + 1 := by exact_mod_cast hlt₁
    have hnat₂ : t.totalMicroseconds < (fromTimestamp t.toTimestamp).totalMicroseconds + 1 := by exact_mod_cast hlt₂
    omega

/-- `QueueEntry` as its producer builds it. -/
structure PyEntry (limits : RecursionLimits) (floatRepr : Double → String) (cls : EntryClass) where
  id : EntryId
  queue : PyStr
  status : QueueEntryStatus
  queuedAt : ClockTime
  dispatchedAt : Option ClockTime
  finishedAt : Option ClockTime
  payload : Payload limits floatRepr
  result : Payload limits floatRepr
  error : Payload limits floatRepr
  timeoutSeconds : Option PyNum
  priority : ℤ
  extra : List (Payload limits floatRepr)
  queue_ne : queue ≠ []
  budget : ∀ t ∈ timeoutSeconds, t.IsBudget
  extra_length : extra.length = cls.fields.length

namespace PyEntry

variable {limits : RecursionLimits} {floatRepr : Double → String} {cls : EntryClass}

theorem ofStr_queue_ne (e : PyEntry limits floatRepr cls) : Text.ofStr e.queue ≠ "" :=
  fun h => e.queue_ne (Text.eq_nil_of_ofStr h)

theorem length_stored (e : PyEntry limits floatRepr cls) : (e.extra.map Payload.stored).length = cls.fields.length := by
  rw [List.length_map, e.extra_length]

/-- The entry with its values as JSON text carries them. -/
def jsonEntry (e : PyEntry limits floatRepr cls) : QueueEntry cls where
  id := e.id
  queue := .ofStr e.queue
  status := e.status
  queuedAt := e.queuedAt
  dispatchedAt := e.dispatchedAt
  finishedAt := e.finishedAt
  payload := e.payload.stored
  result := e.result.stored
  error := e.error.stored
  timeoutSeconds := e.timeoutSeconds
  priority := e.priority
  extra := e.extra.map Payload.stored
  queue_ne := e.ofStr_queue_ne
  budget := e.budget
  extra_length := e.length_stored

/-- The values of the entry that can be nested. -/
def values (e : PyEntry limits floatRepr cls) : List (Payload limits floatRepr) :=
  e.payload :: e.result :: e.error :: e.extra

/-- How deeply the dictionary of the entry is nested. -/
def nesting (e : PyEntry limits floatRepr cls) : ℕ :=
  e.values.foldr (fun p n => max p.value.nesting n) 0 + 1

/-- `from_dict(json.loads(json.dumps(entry.to_dict())))`, nothing where `json` raises `RecursionError`. -/
def readBack (e : PyEntry limits floatRepr cls) : Option (Except RestoreError (QueueEntry cls)) :=
  if e.nesting ≤ limits.dumps ∧ e.nesting ≤ limits.loads then some (QueueEntry.fromDict limits cls e.jsonEntry.toDict)
  else none

/-- `==` of the dataclass. -/
structure Equals (e : PyEntry limits floatRepr cls) (e' : QueueEntry cls) : Prop where
  id : e.id = e'.id
  queue : e.queue = e'.queue.codePoints
  status : e.status = e'.status
  queuedAt : e.queuedAt = e'.queuedAt
  dispatchedAt : e.dispatchedAt = e'.dispatchedAt
  finishedAt : e.finishedAt = e'.finishedAt
  payload : e.payload.value.Equals e'.payload
  result : e.result.value.Equals e'.result
  error : e.error.value.Equals e'.error
  timeoutSeconds : e.timeoutSeconds.map PyNum.value = e'.timeoutSeconds.map PyNum.value
  priority : e.priority = e'.priority
  extra : List.Forall₂ (fun p w => p.value.Equals w) e.extra e'.extra

/-- `from_timestamp` inverts `to_timestamp` for the instants of the entry. -/
structure Restorable (e : PyEntry limits floatRepr cls) : Prop where
  queuedAt : e.queuedAt.Inverts
  dispatchedAt : ∀ t ∈ e.dispatchedAt, t.Inverts
  finishedAt : ∀ t ∈ e.finishedAt, t.Inverts

/-- Every value of the entry is one of JSON, and its record is one that `json` gets through. -/
structure Survives (e : PyEntry limits floatRepr cls) : Prop where
  queue : e.queue.joinPairs = e.queue
  payload : e.payload.value.Native
  result : e.result.value.Native
  error : e.error.value.Native
  extra : ∀ p ∈ e.extra, p.value.Native
  dumps : e.nesting ≤ limits.dumps
  loads : e.nesting ≤ limits.loads

theorem Restorable.timestamped {e : PyEntry limits floatRepr cls} (h : e.Restorable) : e.jsonEntry.Timestamped where
  queuedAt := h.queuedAt.1
  dispatchedAt := fun t ht => (h.dispatchedAt t ht).1
  finishedAt := fun t ht => (h.finishedAt t ht).1

/-- `validate_json_value` accepts the values again when they are read. -/
theorem writable (e : PyEntry limits floatRepr cls) : e.jsonEntry.Writable limits := by
  have hvalues : e.jsonEntry.values = e.values.map Payload.stored := rfl
  rw [QueueEntry.Writable, hvalues, List.forall_mem_map]
  exact fun p _ => p.nesting_stored

theorem map_fromTimestamp {o : Option ClockTime} (h : ∀ t ∈ o, t.Inverts) :
    o.map (fun t => .fromTimestamp t.toTimestamp) = o := by
  cases o with
  | none => rfl
  | some t => exact congrArg some (h t rfl).2

/-- The restored entry has the instants of the original. -/
theorem restored_eq {e : PyEntry limits floatRepr cls} (h : e.Restorable) : e.jsonEntry.restored = e.jsonEntry := by
  unfold QueueEntry.restored
  show QueueEntry.mk _ _ _ _ _ _ _ _ _ _ _ _ _ _ _ = _
  simp only [jsonEntry, h.queuedAt.2, map_fromTimestamp h.dispatchedAt, map_fromTimestamp h.finishedAt]

theorem fromDict_jsonEntry {e : PyEntry limits floatRepr cls} (h : e.Restorable) :
    QueueEntry.fromDict limits cls e.jsonEntry.toDict = .ok e.jsonEntry := by
  rw [QueueEntry.exists_fromDict_toDict h.timestamped e.writable, restored_eq h]

theorem readBack_eq_some {e : PyEntry limits floatRepr cls} (h : e.Restorable) {e' : QueueEntry cls} :
    e.readBack = some (.ok e') ↔ (e.nesting ≤ limits.dumps ∧ e.nesting ≤ limits.loads) ∧ e.jsonEntry = e' := by
  rw [readBack, fromDict_jsonEntry h]
  split_ifs with hfits
  · rw [Option.some.injEq, Except.ok.injEq]
    exact (and_iff_right hfits).symm
  · exact ⟨(fun h => by cases h), fun h => absurd h.1 hfits⟩

theorem forall₂_stored_iff (ps : List (Payload limits floatRepr)) :
    List.Forall₂ (fun p w => p.value.Equals w) ps (ps.map Payload.stored) ↔ ∀ p ∈ ps, p.value.Native := by
  rw [List.forall₂_map_right_iff, List.forall₂_same]
  exact forall₂_congr fun p _ => p.equals_iff_native

/-- An entry survives storage exactly if all its values are JSON values and its record is not nested too deeply. -/
theorem payload_survives_iff (e : PyEntry limits floatRepr cls) (h : e.Restorable) :
    (∃ e', e.readBack = some (.ok e') ∧ e.Equals e') ↔ e.Survives := by
  constructor
  · rintro ⟨e', he', hequals⟩
    obtain ⟨⟨hdumps, hloads⟩, rfl⟩ := (readBack_eq_some h).mp he'
    exact
      { queue := by rw [← Text.codePoints_ofStr]; exact hequals.queue.symm
        payload := e.payload.equals_iff_native.mp hequals.payload
        result := e.result.equals_iff_native.mp hequals.result
        error := e.error.equals_iff_native.mp hequals.error
        extra := (forall₂_stored_iff e.extra).mp hequals.extra
        dumps := hdumps
        loads := hloads }
  · intro hsurvives
    refine ⟨e.jsonEntry, (readBack_eq_some h).mpr ⟨⟨hsurvives.dumps, hsurvives.loads⟩, rfl⟩, ?_⟩
    exact
      { id := rfl
        queue := (hsurvives.queue.symm.trans (Text.codePoints_ofStr _).symm)
        status := rfl
        queuedAt := rfl
        dispatchedAt := rfl
        finishedAt := rfl
        payload := e.payload.equals_iff_native.mpr hsurvives.payload
        result := e.result.equals_iff_native.mpr hsurvives.result
        error := e.error.equals_iff_native.mpr hsurvives.error
        timeoutSeconds := rfl
        priority := rfl
        extra := (forall₂_stored_iff e.extra).mpr hsurvives.extra }

/-- `None`, which every entry starts with as its result and its error. -/
def null (limits : RecursionLimits) (floatRepr : Double → String) : Payload limits floatRepr :=
  ⟨.none, trivial, rfl, Nat.zero_le _⟩

theorem jobs_ne : PyStr.ofString "jobs" ≠ [] := by decide

theorem unbounded : ∀ t ∈ (none : Option PyNum), t.IsBudget := by simp

/-- `create` with this payload and nothing else to choose. -/
def create (payload : Payload limits floatRepr) : PyEntry limits floatRepr .base where
  id := .ofLast 1
  queue := .ofString "jobs"
  status := .queued
  queuedAt := ⟨0, 0, ClockTime.zero_lt_million⟩
  dispatchedAt := none
  finishedAt := none
  payload := payload
  result := null limits floatRepr
  error := null limits floatRepr
  timeoutSeconds := none
  priority := 0
  extra := []
  queue_ne := jobs_ne
  budget := unbounded
  extra_length := rfl

theorem restorable_create (payload : Payload limits floatRepr) : (create payload).Restorable where
  queuedAt := ClockTime.inverts_of_lt (t := ⟨0, 0, ClockTime.zero_lt_million⟩) (by norm_num)
  dispatchedAt := fun t ht => by cases ht
  finishedAt := fun t ht => by cases ht

/-- The list and the tuple of one number. -/
def oneList : Payload thousandLevels fun _ => "0.0" := ⟨.list [.num (.int 1)], ⟨trivial, trivial⟩, rfl, by decide⟩

def oneTuple : Payload thousandLevels fun _ => "0.0" := ⟨.tuple [.num (.int 1)], ⟨trivial, trivial⟩, rfl, by decide⟩

/-- A list is returned as it was enqueued. -/
theorem payload_survives_list :
    (create oneList).Restorable ∧ ∃ e', (create oneList).readBack = some (.ok e') ∧ (create oneList).Equals e' := by
  refine ⟨restorable_create oneList, (payload_survives_iff _ (restorable_create oneList)).mpr ?_⟩
  have hone : (PyValue.list [.num (.int 1)]).Native := ⟨(fun h => by cases h), trivial⟩
  exact ⟨by decide, hone, trivial, trivial, (fun p hp => by cases hp), by decide, by decide⟩

/-- A tuple is accepted and comes back as a list. -/
theorem payload_tuple_lost :
    (create oneTuple).Restorable ∧
      ¬∃ e', (create oneTuple).readBack = some (.ok e') ∧ (create oneTuple).Equals e' := by
  refine ⟨restorable_create oneTuple, ?_⟩
  rintro ⟨e', he', hequals⟩
  obtain ⟨-, rfl⟩ := (readBack_eq_some (restorable_create oneTuple)).mp he'
  exact hequals.payload

end PyEntry

end DjangoQueues
