import DjangoQueues.RecodedEntries

/-! Records written by `to_dict` and read back by `from_dict`. -/

namespace DjangoQueues

variable {cls : EntryClass}

theorem QueueEntryStatus.value_of_ofValue? {s : String} {st : QueueEntryStatus} (h : ofValue? s = some st) :
    st.value = s := by
  unfold ofValue? at h
  split at h <;> cases h <;> rfl

namespace QueueEntry

/-- `to_dict` does not overflow on an instant. -/
structure Timestamped (e : QueueEntry cls) : Prop where
  queuedAt : e.queuedAt.toTimestamp < 2 ^ 1024
  dispatchedAt : ∀ t ∈ e.dispatchedAt, t.toTimestamp < 2 ^ 1024
  finishedAt : ∀ t ∈ e.finishedAt, t.toTimestamp < 2 ^ 1024

/-- The entry with its instants as a stored record carries them. -/
def restored (e : QueueEntry cls) : QueueEntry cls :=
  { e with
    queuedAt := .fromTimestamp e.queuedAt.toTimestamp
    dispatchedAt := e.dispatchedAt.map fun t => .fromTimestamp t.toTimestamp
    finishedAt := e.finishedAt.map fun t => .fromTimestamp t.toTimestamp }

theorem restoreInstant_encodeInstant {t : ClockTime} (h : t.toTimestamp < 2 ^ 1024) (name : String) :
    restoreInstant name (encodeInstant t) = .ok (some (.fromTimestamp t.toTimestamp)) := by
  have hdouble : IsDouble t.toTimestamp := by
    refine ⟨fl_fl _, ?_⟩
    rw [abs_of_nonneg t.toTimestamp_nonneg]
    exact h
  rw [encodeInstant, Double.ofRat_of_isDouble hdouble]
  exact if_neg (not_lt.mpr t.toTimestamp_nonneg)

theorem restoreInstant_encodeOptionalInstant {t : Option ClockTime} (h : ∀ x ∈ t, x.toTimestamp < 2 ^ 1024)
    (name : String) :
    restoreInstant name (encodeOptionalInstant t) = .ok (t.map fun x => .fromTimestamp x.toTimestamp) := by
  cases t with
  | none => rfl
  | some x => exact restoreInstant_encodeInstant (h x rfl) name

theorem restoreBudget_toDict (e : QueueEntry cls) :
    restoreBudget (fieldD e.toDict "timeout_seconds" .null) = .ok ⟨e.timeoutSeconds, e.budget⟩ := by
  show restoreBudget ((e.timeoutSeconds.map JValue.num).getD .null) = _
  cases e with
  | mk id queue status queuedAt dispatchedAt finishedAt payload result error timeoutSeconds priority extra hq hb hx =>
    cases timeoutSeconds with
    | none => rfl
    | some t =>
      show restoreBudget (.num t) = _
      rw [restoreBudget, dif_pos (hb t rfl)]

theorem extra_toDict (e : QueueEntry cls) : e.extra = cls.fields.map fun p => fieldD e.toDict p.1 p.2 := by
  apply List.map_injective_iff.mpr (Option.some_injective Json)
  rw [List.map_map, ← e.field?_toDict_extra]
  apply List.map_congr_left
  intro p hp
  have hmem : e.toDict.field? p.1 ∈ e.extra.map some := by
    rw [← e.field?_toDict_extra]
    exact List.mem_map.mpr ⟨p, hp, rfl⟩
  obtain ⟨v, -, hv⟩ := List.mem_map.mp hmem
  show e.toDict.field? p.1 = some ((e.toDict.field? p.1).getD p.2)
  rw [← hv, Option.getD_some]

/-- A record that `to_dict` has written is read back. -/
theorem restores_toDict {limits : RecursionLimits} {e : QueueEntry cls} (h : e.Timestamped) (hw : e.Writable limits) :
    Restores limits e.toDict e.restored where
  missing := rfl
  id := by
    show restoreId (.str e.id.toText) = _
    rw [restoreId, EntryId.parseUuid?_toText]
    rfl
  status := by
    show restoreStatus (.str e.status.value) = _
    rw [restoreStatus, QueueEntryStatus.ofValue?_value]
    rfl
  queuedAt := restoreInstant_encodeInstant h.queuedAt _
  dispatchedAt := restoreInstant_encodeOptionalInstant h.dispatchedAt _
  finishedAt := restoreInstant_encodeOptionalInstant h.finishedAt _
  queue := rfl
  timeoutSeconds := restoreBudget_toDict e
  priority := rfl
  payload := rfl
  result := rfl
  error := rfl
  nesting := by
    rw [validateJsonValues_eq_ok]
    intro p hp
    apply hw p.2
    have hvalues : (jsonFields cls e.toDict).map Prod.snd = e.values := by
      rw [jsonFields, List.map_append, List.map_map, List.map_map, values, extra_toDict e]
      rfl
    rw [← hvalues]
    exact List.mem_map_of_mem hp
  extra := extra_toDict e

theorem exists_fromDict_toDict {limits : RecursionLimits} {e : QueueEntry cls} (h : e.Timestamped)
    (hw : e.Writable limits) : fromDict limits cls e.toDict = .ok e.restored :=
  fromDict_eq_ok_iff.mpr (restores_toDict h hw)

end QueueEntry

end DjangoQueues
