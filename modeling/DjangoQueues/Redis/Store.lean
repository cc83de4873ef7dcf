import DjangoQueues.Entries
import DjangoQueues.Lib.SortedSet

/-! The Redis structures of one tracked queue, one field for each key the provider
names: the records and claims kept under a prefix, the pending list and the sorted sets. -/

namespace DjangoQueues.Redis

/-- Worker identities, as the text a claim record carries. -/
abbrev WorkerId := String

structure Store where
  records : Dict EntryId Json
  pending : List EntryId
  scheduled : SortedSet EntryId
  delayed : SortedSet EntryId
  priority : SortedSet EntryId
  /-- The priority sequence counter, absent until it is first incremented. -/
  sequence : Option ℕ
  claims : Dict EntryId Json
  leases : SortedSet EntryId
  unclaimed : SortedSet EntryId

namespace Store

def empty : Store where
  records := .empty
  pending := []
  scheduled := .empty
  delayed := .empty
  priority := .empty
  sequence := none
  claims := .empty
  leases := .empty
  unclaimed := .empty

end Store

/-! ## What the scripts read off stored JSON -/

/-- The `status` text of a decoded record. -/
def statusField {ν : Type} (entry : JValue ν) : Option String :=
  match entry.field? "status" with
  | some (.str (.plain s)) => some s
  | _ => none

/-- The `status` text that a script reads: `none` also where there is no record or `cjson.decode` raises. -/
def statusText (raw : Option Json) : Option String := (raw.bind Cjson.decode).bind statusField

/-- The `status` text that Python reads, from every record. -/
def recordStatus (raw : Option Json) : Option String := raw.bind statusField

/-- `tonumber` of a decoded field. Every number the scripts read is finite: claims are
written by `cjson.encode`, which refuses the others, and priorities are bounded integers. -/
def tonumber : Option Lua → Option ℚ
  | some (.num (.finite q _)) => some q
  | _ => none

/-- `tonumber(entry.priority) or 0`, with `0` also for a record that `cjson.decode` refuses. -/
def recordPriority (raw : Option Json) : ℚ :=
  (tonumber ((raw.bind Cjson.decode).bind fun entry => entry.field? "priority")).getD 0

/-- `worker_id` of a decoded claim. -/
def workerField (claim : Lua) : Option WorkerId :=
  match claim.field? "worker_id" with
  | some (.str (.plain o)) => some o
  | _ => none

/-- The claim table of `id` when it names `w` as its owner. -/
def Store.ownClaim? (s : Store) (id : EntryId) (w : WorkerId) : Option Lua :=
  match (s.claims.get? id).bind Cjson.decode with
  | none => none
  | some claim => if workerField claim = some w then some claim else none

/-- `worker_id` of the claim record of `id`. -/
def Store.owner? (s : Store) (id : EntryId) : Option WorkerId :=
  ((s.claims.get? id).bind Cjson.decode).bind workerField

theorem Store.ownClaim?_eq_some {s : Store} {id : EntryId} {w : WorkerId} {c : Lua} :
    s.ownClaim? id w = some c ↔
      ∃ raw, s.claims.get? id = some raw ∧ Cjson.decode raw = some c ∧ s.owner? id = some w := by
  unfold ownClaim? owner?
  cases s.claims.get? id with
  | none => simp
  | some raw =>
    rw [Option.bind_some]
    cases hd : Cjson.decode raw with
    | none => simp
    | some claim =>
      simp only [Option.bind_some, Option.ite_none_right_eq_some, Option.some.injEq, exists_eq_left', hd]
      exact and_comm

theorem Store.ownClaim?_eq_none {s : Store} {id : EntryId} {w : WorkerId} :
    s.ownClaim? id w = none ↔ s.owner? id ≠ some w := by
  rw [← not_iff_not, not_not, ← ne_eq, Option.ne_none_iff_exists']
  constructor
  · rintro ⟨c, hc⟩
    exact (ownClaim?_eq_some.mp hc).choose_spec.2.2
  · intro h
    obtain ⟨c, hc, -⟩ := Option.bind_eq_some_iff.mp h
    obtain ⟨raw, hraw, hd⟩ := Option.bind_eq_some_iff.mp hc
    exact ⟨c, ownClaim?_eq_some.mpr ⟨raw, hraw, hd, h⟩⟩

/-! ## The two readings of a status -/

theorem statusField_map {ν μ : Type} (f : ν → μ) (v : JValue ν) : statusField (v.map f) = statusField v := by
  unfold statusField
  rw [JValue.field?_map]
  cases v.field? "status" with
  | none => rfl
  | some w =>
    cases w with
    | str t => cases t <;> rfl
    | _ => rfl

/-- What a script reads is what the record says. -/
theorem recordStatus_of_statusText {raw : Option Json} {st : String} (h : statusText raw = some st) :
    recordStatus raw = some st := by
  obtain ⟨t, ht, hst⟩ := Option.bind_eq_some_iff.mp h
  obtain ⟨j, rfl, hj⟩ := Option.bind_eq_some_iff.mp ht
  rw [← (Cjson.decode_eq_some.mp hj).2, Cjson.table, statusField_map] at hst
  exact hst

theorem statusText_of_accepts {raw : Json} (h : Cjson.Accepts raw) : statusText (some raw) = recordStatus (some raw) := by
  rw [statusText, recordStatus, Option.bind_some, Option.bind_some, Cjson.decode_of_accepts h, Option.bind_some,
    Cjson.table, statusField_map]

/-- The record of this id is there and `cjson.decode` refuses it. -/
def Store.Refused (s : Store) (id : EntryId) : Prop := ∃ raw, s.records.get? id = some raw ∧ ¬Cjson.Accepts raw

theorem Store.refused_iff {s : Store} {id : EntryId} :
    s.Refused id ↔ (s.records.get? id).any fun raw => ¬Cjson.Accepts raw := by
  rw [Option.any_eq_true]
  simp [Refused]

instance (s : Store) (id : EntryId) : Decidable (s.Refused id) := decidable_of_iff' _ Store.refused_iff

theorem Store.statusText_eq {s : Store} {id : EntryId} (h : ¬s.Refused id) :
    statusText (s.records.get? id) = recordStatus (s.records.get? id) := by
  cases hr : s.records.get? id with
  | none => rfl
  | some raw => exact statusText_of_accepts (not_not.mp fun hraw => h ⟨raw, hr, hraw⟩)

end DjangoQueues.Redis
