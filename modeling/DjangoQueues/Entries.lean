import DjangoQueues.Clock
import DjangoQueues.Identities
import DjangoQueues.Json

/-! Queue-entry records: the lifecycle graph, the record with its checks, and the JSON wire form. -/

namespace DjangoQueues

open Rounding

/-! ## Lifecycle -/

inductive QueueEntryStatus where
  | queued
  | running
  | succeeded
  | failed
  | cancelled
  | timeout
  | terminated
deriving DecidableEq

namespace QueueEntryStatus

def value : QueueEntryStatus → String
  | queued => "queued"
  | running => "running"
  | succeeded => "succeeded"
  | failed => "failed"
  | cancelled => "cancelled"
  | timeout => "timeout"
  | terminated => "terminated"

def nextState : QueueEntryStatus → List QueueEntryStatus
  | queued => [running, failed]
  | running => [queued, succeeded, failed, cancelled, timeout]
  | succeeded => [terminated]
  | failed => [terminated]
  | cancelled => [terminated]
  | timeout => [terminated]
  | terminated => []

/-- The statuses a record keeps until it is pruned. -/
def Terminal (s : QueueEntryStatus) : Prop := terminated ∈ s.nextState

instance : DecidablePred Terminal := fun s => inferInstanceAs (Decidable (_ ∈ s.nextState))

/-- Lookup of a status by its stored text. -/
def ofValue? : String → Option QueueEntryStatus
  | "queued" => some queued
  | "running" => some running
  | "succeeded" => some succeeded
  | "failed" => some failed
  | "cancelled" => some cancelled
  | "timeout" => some timeout
  | "terminated" => some terminated
  | _ => none

@[simp]
theorem ofValue?_value (s : QueueEntryStatus) : ofValue? s.value = some s := by
  cases s <;> rfl

end QueueEntryStatus

/-! ## Records -/

/-- `validate_budget`: a finite, strictly positive `int` or `float`. An integer too large
for a float makes `math.isfinite` raise, so it is no budget either. -/
def PyNum.IsBudget (t : PyNum) : Prop :=
  match t with
  | .int n => 0 < n ∧ |fl n| < 2 ^ 1024
  | .float (.finite q _) => 0 < q
  | .float _ => False

instance : DecidablePred PyNum.IsBudget := fun t =>
  match t with
  | .int n => inferInstanceAs (Decidable (0 < n ∧ |fl n| < 2 ^ 1024))
  | .float (.finite q _) => inferInstanceAs (Decidable (0 < q))
  | .float (.infinite _) => .isFalse id
  | .float .nan => .isFalse id

/-- The fields of `QueueEntry` itself, in declaration order. -/
def baseFields : List String :=
  ["id", "queue", "status", "queued_at", "dispatched_at", "finished_at", "payload", "result",
    "error", "timeout_seconds", "priority"]

/-- An entry class: the JSON fields a subclass declares, with their defaults. -/
structure EntryClass where
  fields : List (String × Json)
  nodup : (fields.map Prod.fst).Nodup
  disjoint : ∀ n ∈ fields.map Prod.fst, n ∉ baseFields

/-- `QueueEntry` itself, without a field of a subclass. -/
def EntryClass.base : EntryClass := ⟨[], List.nodup_nil, by simp⟩

/-- `QueueEntry` with the checks of `__post_init__`; `None` in `result` and `error` is `null`. -/
structure QueueEntry (cls : EntryClass) where
  id : EntryId
  queue : Text
  status : QueueEntryStatus
  queuedAt : ClockTime
  dispatchedAt : Option ClockTime
  finishedAt : Option ClockTime
  payload : Json
  result : Json
  error : Json
  timeoutSeconds : Option PyNum
  priority : ℤ
  extra : List Json
  queue_ne : queue ≠ ""
  budget : ∀ t ∈ timeoutSeconds, t.IsBudget
  extra_length : extra.length = cls.fields.length

/-- Why `from_dict` fails. The first three are raised as `ValueError`; the others escape. -/
inductive RestoreError where
  | missing (names : List String)
  | notRestored (name : String)
  | invalid (name : String)
  | attributeError (name : String)
  | overflowError (name : String)
  | recursionError (name : String)
deriving DecidableEq

/-- How deeply nested a value `json.dumps`, `json.loads` and `repr` get through before the interpreter's stack is
spent and they raise `RecursionError`. -/
structure RecursionLimits where
  dumps : ℕ
  loads : ℕ
  repr : ℕ

/-- The interpreter gets through a thousand levels. -/
def thousandLevels : RecursionLimits := ⟨1000, 1000, 1000⟩

namespace QueueEntry

variable {cls : EntryClass}

/-- `create`, as `aenqueue` calls it; the fields of a subclass take their defaults. -/
def create (cls : EntryClass) (id : EntryId) (queue : { q : Text // q ≠ "" }) (queuedAt : ClockTime)
    (payload : Json) (timeoutSeconds : Option { t : PyNum // t.IsBudget }) (priority : ℤ) :
    QueueEntry cls where
  id := id
  queue := queue
  status := .queued
  queuedAt := queuedAt
  dispatchedAt := none
  finishedAt := none
  payload := payload
  result := .null
  error := .null
  timeoutSeconds := timeoutSeconds.map Subtype.val
  priority := priority
  extra := cls.fields.map Prod.snd
  queue_ne := queue.2
  budget t ht := by
    obtain ⟨x, -, rfl⟩ := Option.mem_map.mp ht
    exact x.2
  extra_length := List.length_map _

/-- An entry with an identity and a payload and nothing else to choose. -/
def plain (id : EntryId) (payload : Json) : QueueEntry .base :=
  create .base id ⟨"jobs", by decide⟩ ⟨0, 0, ClockTime.zero_lt_million⟩ payload none 0

/-- `_encode_wire_value` of an instant. -/
def encodeInstant (t : ClockTime) : Json := .num (.float (.ofRat t.toTimestamp))

def encodeOptionalInstant : Option ClockTime → Json
  | none => .null
  | some t => encodeInstant t

def toDictBase (e : QueueEntry cls) : List (Text × Json) :=
  [("id", .str e.id.toText), ("queue", .str e.queue), ("status", .str e.status.value),
    ("queued_at", encodeInstant e.queuedAt), ("dispatched_at", encodeOptionalInstant e.dispatchedAt),
    ("finished_at", encodeOptionalInstant e.finishedAt), ("payload", e.payload),
    ("result", e.result), ("error", e.error),
    ("timeout_seconds", (e.timeoutSeconds.map .num).getD .null), ("priority", .num (.int e.priority))]

/-- `to_dict`, as the value `json.dumps` writes. -/
def toDict (e : QueueEntry cls) : Json :=
  .obj (e.toDictBase ++ (cls.fields.map fun p => (p.1 : Text)).zip e.extra)

/-- `_decode_wire_value` of an identity; a value without `replace` raises past the handler. -/
def restoreId : Json → Except RestoreError (Option (List (Fin 16)))
  | .null => .ok none
  | .str (.plain s) =>
    match EntryId.parseUuid? s with
    | some d => .ok (some d)
    | none => .error (.notRestored "id")
  | .str (.lone _) => .error (.notRestored "id")
  | _ => .error (.attributeError "id")

def restoreStatus : Json → Except RestoreError (Option QueueEntryStatus)
  | .null => .ok none
  | .str (.plain s) =>
    match QueueEntryStatus.ofValue? s with
    | some st => .ok (some st)
    | none => .error (.notRestored "status")
  | _ => .error (.notRestored "status")

/-- `_decode_wire_value` of an instant through `ClockTime.from_timestamp`. -/
def restoreInstant (name : String) : Json → Except RestoreError (Option ClockTime)
  | .null => .ok none
  | .num (.int n) =>
    if 2 ^ 1024 ≤ |fl n| then .error (.overflowError name)
    else if n < 0 then .error (.notRestored name) else .ok (some (.fromTimestamp n))
  | .num (.float (.finite q _)) =>
    if q < 0 then .error (.notRestored name) else .ok (some (.fromTimestamp q))
  | _ => .error (.notRestored name)

/-- The checks of `__post_init__` on a budget. -/
def restoreBudget : Json → Except RestoreError { t : Option PyNum // ∀ x ∈ t, x.IsBudget }
  | .null => .ok ⟨none, by simp⟩
  | .num t =>
    if h : t.IsBudget then .ok ⟨some t, by simpa using h⟩
    else
      match t with
      | .int n => if 2 ^ 1024 ≤ |fl n| then .error (.overflowError "timeout_seconds")
          else .error (.invalid "timeout_seconds")
      | .float _ => .error (.invalid "timeout_seconds")
  | _ => .error (.invalid "timeout_seconds")

def restorePriority : Json → Except RestoreError ℤ
  | .num (.int n) => .ok n
  | _ => .error (.invalid "priority")

/-- A check whose message shows the value it refuses, with `repr`. -/
def shown {α : Type} (limits : RecursionLimits) (name : String) (check : Json → Except RestoreError α) (v : Json) :
    Except RestoreError α :=
  (check v).mapError fun err => if v.nesting ≤ limits.repr then err else .recursionError name

/-- `validate_json_value` of each field: its handler takes no `RecursionError`. -/
def validateJsonValues (limits : RecursionLimits) : List (String × Json) → Except RestoreError Unit
  | [] => .ok ()
  | (name, v) :: vs =>
    if v.nesting ≤ limits.dumps then validateJsonValues limits vs else .error (.recursionError name)

/-- Fields without a default, which a record must have. -/
def requiredFields : List String := baseFields.take 9

def missingFields (v : Json) : List String :=
  requiredFields.filter fun n => (v.field? n).isNone

def fieldD (v : Json) (n : String) (default : Json) : Json := (v.field? n).getD default

/-- The fields without a wire conversion that can hold a nested value, as `__post_init__` meets them. -/
def jsonFields (cls : EntryClass) (v : Json) : List (String × Json) :=
  ["payload", "result", "error"].map (fun n => (n, fieldD v n .null)) ++
    cls.fields.map fun p => (p.1, fieldD v p.1 p.2)

/-- `from_dict` with the checks of `__post_init__` in their order. -/
def fromDict (limits : RecursionLimits) (cls : EntryClass) (v : Json) : Except RestoreError (QueueEntry cls) := do
  if missingFields v ≠ [] then throw (.missing (missingFields v))
  let id? ← restoreId (fieldD v "id" .null)
  let status? ← shown limits "status" restoreStatus (fieldD v "status" .null)
  let queuedAt? ← shown limits "queued_at" (restoreInstant "queued_at") (fieldD v "queued_at" .null)
  let dispatchedAt ← shown limits "dispatched_at" (restoreInstant "dispatched_at") (fieldD v "dispatched_at" .null)
  let finishedAt ← shown limits "finished_at" (restoreInstant "finished_at") (fieldD v "finished_at" .null)
  let some digits := id? | throw (.invalid "id")
  let .str queue := fieldD v "queue" .null | throw (.invalid "queue")
  let some status := status? | throw (.invalid "status")
  let some queuedAt := queuedAt? | throw (.invalid "queued_at")
  let ⟨timeoutSeconds, budget⟩ ← shown limits "timeout_seconds" restoreBudget (fieldD v "timeout_seconds" .null)
  let priority ← shown limits "priority" restorePriority (fieldD v "priority" (.num (.int 0)))
  if hv : IsVersion7 digits then
    if hq : queue = "" then throw (.invalid "queue")
    else
      validateJsonValues limits (jsonFields cls v)
      return {
        id := ⟨digits, hv⟩, queue, status, queuedAt, dispatchedAt, finishedAt
        payload := fieldD v "payload" .null
        result := fieldD v "result" .null
        error := fieldD v "error" .null
        timeoutSeconds, priority
        extra := cls.fields.map fun p => fieldD v p.1 p.2
        queue_ne := hq, budget
        extra_length := by simp }
  else throw (.invalid "id")

/-- The values of an entry that `validate_json_value` looks into. -/
def values (e : QueueEntry cls) : List Json := e.payload :: e.result :: e.error :: e.extra

theorem shown_eq_ok {α : Type} {limits : RecursionLimits} {name : String} {check : Json → Except RestoreError α}
    {v : Json} {a : α} : shown limits name check v = .ok a ↔ check v = .ok a := by
  unfold shown
  cases check v <;> simp [Except.mapError]

theorem validateJsonValues_eq_ok {limits : RecursionLimits} {vs : List (String × Json)} :
    validateJsonValues limits vs = .ok () ↔ ∀ p ∈ vs, p.2.nesting ≤ limits.dumps := by
  induction vs with
  | nil => simp [validateJsonValues]
  | cons p vs ih =>
    rw [validateJsonValues, List.forall_mem_cons, ← ih]
    split_ifs with h <;> simp [h]

/-- The entry `from_dict` builds from `v`, field by field. -/
structure Restores (limits : RecursionLimits) (v : Json) (e : QueueEntry cls) : Prop where
  missing : missingFields v = []
  id : restoreId (fieldD v "id" .null) = .ok (some e.id.digits)
  status : restoreStatus (fieldD v "status" .null) = .ok (some e.status)
  queuedAt : restoreInstant "queued_at" (fieldD v "queued_at" .null) = .ok (some e.queuedAt)
  dispatchedAt : restoreInstant "dispatched_at" (fieldD v "dispatched_at" .null) = .ok e.dispatchedAt
  finishedAt : restoreInstant "finished_at" (fieldD v "finished_at" .null) = .ok e.finishedAt
  queue : fieldD v "queue" .null = .str e.queue
  timeoutSeconds : restoreBudget (fieldD v "timeout_seconds" .null) = .ok ⟨e.timeoutSeconds, e.budget⟩
  priority : restorePriority (fieldD v "priority" (.num (.int 0))) = .ok e.priority
  nesting : validateJsonValues limits (jsonFields cls v) = .ok ()
  payload : e.payload = fieldD v "payload" .null
  result : e.result = fieldD v "result" .null
  error : e.error = fieldD v "error" .null
  extra : e.extra = cls.fields.map fun p => fieldD v p.1 p.2

theorem Restores.values_eq {limits : RecursionLimits} {v : Json} {e : QueueEntry cls} (h : Restores limits v e) :
    (jsonFields cls v).map Prod.snd = e.values := by
  rw [values, h.payload, h.result, h.error, h.extra, jsonFields, List.map_append, List.map_map, List.map_map]
  rfl

theorem fromDict_eq_ok_iff {limits : RecursionLimits} {v : Json} {e : QueueEntry cls} :
    fromDict limits cls v = .ok e ↔ Restores limits v e := by
  constructor
  · intro h
    unfold fromDict at h
    simp only [bind, Except.bind, pure, Except.pure, throw, throwThe, MonadExceptOf.throw] at h
    -- each check that fails leaves the goal with an error equal to `.ok e`
    by_cases hm : missingFields v = []
    swap
    · simp only [hm, ne_eq, not_false_eq_true, if_true, reduceCtorEq] at h
    simp only [hm, ne_eq, not_true_eq_false, if_false] at h
    split at h
    · cases h
    next id? hid =>
    split at h
    · cases h
    next status? hstatus =>
    split at h
    · cases h
    next queuedAt? hqueuedAt =>
    split at h
    · cases h
    next dispatchedAt hdispatchedAt =>
    split at h
    · cases h
    next finishedAt hfinishedAt =>
    split at h
    swap
    · cases h
    next digits =>
    split at h
    swap
    · cases h
    next queue hqueue =>
    split at h
    swap
    · cases h
    next status =>
    split at h
    swap
    · cases h
    next queuedAt =>
    split at h
    · cases h
    next budget hbudget =>
    split at h
    · cases h
    next priority hpriority =>
    split_ifs at h
    split at h
    · cases h
    next hnesting =>
    cases h
    exact ⟨hm, hid, shown_eq_ok.mp hstatus, shown_eq_ok.mp hqueuedAt, shown_eq_ok.mp hdispatchedAt,
      shown_eq_ok.mp hfinishedAt, hqueue, shown_eq_ok.mp hbudget, shown_eq_ok.mp hpriority, hnesting, rfl, rfl, rfl, rfl⟩
  · intro h
    have hq : e.queue ≠ "" := e.queue_ne
    unfold fromDict
    simp only [h.missing, h.id, shown_eq_ok.mpr h.status, shown_eq_ok.mpr h.queuedAt, shown_eq_ok.mpr h.dispatchedAt,
      shown_eq_ok.mpr h.finishedAt, h.queue, shown_eq_ok.mpr h.timeoutSeconds, shown_eq_ok.mpr h.priority,
      h.nesting, bind, Except.bind, pure, Except.pure, e.id.version7,
      hq, ne_eq, not_true_eq_false, if_false,
      dif_pos, dif_neg, not_false_eq_true]
    simp only [← h.payload, ← h.result, ← h.error, ← h.extra]

/-! ## Records that `cjson.decode` takes -/

/-- The record of the entry is one that `cjson.decode` takes. -/
def Decodable (e : QueueEntry cls) : Prop := Cjson.Accepts e.toDict

instance (e : QueueEntry cls) : Decidable e.Decodable := inferInstanceAs (Decidable (Cjson.Accepts _))

/-- What `cjson.decode` asks of a member of the record. -/
def Fits (v : Json) : Prop := v.nesting < 1000 ∧ v.allPlain = true

theorem fits_scalar {v : Json} (hn : v.nesting = 0) (hp : v.allPlain = true) : Fits v :=
  ⟨lt_of_le_of_lt hn.le (by norm_num), hp⟩

theorem fits_null : Fits .null := fits_scalar rfl rfl

theorem fits_instant (t : ClockTime) : Fits (encodeInstant t) := fits_scalar rfl rfl

theorem fits_optionalInstant (t : Option ClockTime) : Fits (encodeOptionalInstant t) := by
  cases t with
  | none => exact fits_null
  | some t => exact fits_instant t

theorem fits_budget (t : Option PyNum) : Fits ((t.map .num).getD .null) := by
  cases t <;> exact fits_scalar rfl rfl

/-- No text of the entry has a lone surrogate, and no value of it needs all the levels below the record. -/
theorem decodable_iff {e : QueueEntry cls} : e.Decodable ↔ e.queue.isPlain = true ∧ ∀ v ∈ e.values, Fits v := by
  have hextra : (∀ p ∈ (cls.fields.map fun p => (p.1 : Text)).zip e.extra,
      p.2.nesting < 1000 ∧ p.1.isPlain = true ∧ p.2.allPlain = true) ↔ ∀ v ∈ e.extra, Fits v := by
    have hsnd : ((cls.fields.map fun p => (p.1 : Text)).zip e.extra).map Prod.snd = e.extra :=
      List.map_snd_zip (by rw [List.length_map, e.extra_length])
    constructor
    · intro h v hv
      rw [← hsnd] at hv
      obtain ⟨p, hp, rfl⟩ := List.mem_map.mp hv
      exact ⟨(h p hp).1, (h p hp).2.2⟩
    · intro h p hp
      obtain ⟨hname, hvalue⟩ := List.of_mem_zip hp
      obtain ⟨q, -, hq⟩ := List.mem_map.mp hname
      exact ⟨(h p.2 hvalue).1, by rw [← hq]; rfl, (h p.2 hvalue).2⟩
  rw [Decodable, toDict, Cjson.accepts_obj, List.forall_mem_append, hextra, values]
  simp only [toDictBase, List.forall_mem_cons]
  constructor
  · rintro ⟨⟨-, hqueue, -, -, -, -, hpayload, hresult, herror, -⟩, hextra⟩
    exact ⟨hqueue.2.2, ⟨hpayload.1, hpayload.2.2⟩, ⟨hresult.1, hresult.2.2⟩, ⟨herror.1, herror.2.2⟩, hextra⟩
  · rintro ⟨hqueue, hpayload, hresult, herror, hextra⟩
    have hmember {k : String} {v : Json} (h : Fits v) :
        v.nesting < 1000 ∧ (k : Text).isPlain = true ∧ v.allPlain = true := ⟨h.1, rfl, h.2⟩
    have hplain {s : String} : Fits (.str s) := fits_scalar rfl rfl
    exact ⟨⟨hmember hplain, hmember (fits_scalar rfl hqueue), hmember hplain, hmember (fits_instant _),
      hmember (fits_optionalInstant _), hmember (fits_optionalInstant _), hmember hpayload, hmember hresult,
      hmember herror, hmember (fits_budget _), hmember (fits_scalar rfl rfl), by simp⟩, hextra⟩

/-- Only the result and the error are new in the record of a later status. -/
theorem Decodable.of_values {e e' : QueueEntry cls} (h : e.Decodable) (hqueue : e'.queue = e.queue)
    (hpayload : e'.payload = e.payload) (hextra : e'.extra = e.extra) (hresult : Fits e'.result)
    (herror : Fits e'.error) : e'.Decodable := by
  rw [decodable_iff] at h ⊢
  obtain ⟨hq, hvalues⟩ := h
  rw [values, List.forall_mem_cons, List.forall_mem_cons, List.forall_mem_cons] at hvalues
  obtain ⟨hp, -, -, hx⟩ := hvalues
  rw [hqueue, values, hpayload, hextra, List.forall_mem_cons, List.forall_mem_cons, List.forall_mem_cons]
  exact ⟨hq, hp, hresult, herror, hx⟩

end QueueEntry

end DjangoQueues
