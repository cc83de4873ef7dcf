import DjangoQueues.Worker.Dispatch
import DjangoQueues.Lib.Run

/-! What becomes of a handler's outcome: which record is stored, and how often it is published and counted. -/

namespace DjangoQueues.Worker

variable {cls : EntryClass}

/-- The write from this site is made and takes effect. -/
def Calls.Applied (E : Calls) (site : Site) : Prop :=
  (E.clock site).isSome = true ∧ E.find site = true ∧ E.write site ≠ .failed

instance (E : Calls) (site : Site) : Decidable (E.Applied site) :=
  inferInstanceAs (Decidable (_ ∧ _ ∧ _))

theorem markedEntry_id (o : Outcome) (now : ClockTime) (e : QueueEntry cls) : (markedEntry o now e).id = e.id := by
  cases o <;> rfl

theorem markedEntry_status (o : Outcome) (now : ClockTime) (e : QueueEntry cls) :
    (markedEntry o now e).status = o.status := by
  cases o <;> rfl

theorem Outcome.status_terminal (o : Outcome) : o.status.Terminal := by
  cases o <;> simp [Outcome.status, QueueEntryStatus.Terminal, QueueEntryStatus.nextState]

theorem Outcome.status_mem (o : Outcome) : o.status ∈ QueueEntryStatus.running.nextState := by
  cases o <;> simp [Outcome.status, QueueEntryStatus.nextState]

theorem Outcome.status_ne (o : Outcome) : o.status ≠ .running := by
  cases o <;> simp [Outcome.status]

namespace State

variable {E : Calls} {site : Site} {id : EntryId} {s : State cls} {r : QueueEntry cls}

@[simp]
theorem get?_store (e : QueueEntry cls) (s : State cls) (k : EntryId) :
    (s.store e).records.get? k = if k = e.id then some e else s.records.get? k := Dict.get?_set ..

theorem afind_of_find (hf : E.find site = true) (hr : s.records.get? id = some r) : s.afind E site id = .ok r := by
  rw [afind, if_pos hf, hr]

theorem afind_of_not_find (hf : E.find site = false) : s.afind E site id = .error .unavailable := by
  rw [afind, if_neg (by simp [hf])]

/-! ## Without a lease -/

/-- What `amark` does with a running record. -/
inductive Marked (E : Calls) (site : Site) (o : Outcome) (r : QueueEntry cls) (s : State cls) :
    Except WorkerError (QueueEntry cls) × State cls → Prop
  | untouched (h : ¬E.Applied site) (err : WorkerError) : Marked E site o r s (.error err, s)
  | replied (h : E.Applied site) (now : ClockTime) :
    Marked E site o r s (.ok (markedEntry o now r), s.store (markedEntry o now r))
  | lost (h : E.Applied site) (now : ClockTime) (err : WorkerError) :
    Marked E site o r s (.error err, s.store (markedEntry o now r))

theorem amark_marked (site : Site) (hr : s.records.get? id = some r) (hrun : r.status = .running) (o : Outcome) :
    Marked E site o r s (s.amark E site id o) := by
  unfold amark areplaceEntry
  cases hc : E.clock site with
  | none =>
    have hnot : ¬E.Applied site := fun h => by simp [Calls.Applied, hc] at h
    exact .untouched hnot _
  | some now =>
    cases hf : E.find site with
    | false =>
      have hnot : ¬E.Applied site := fun h => by simp [Calls.Applied, hf] at h
      rw [afind_of_not_find hf]
      exact .untouched hnot _
    | true =>
      have hmem : o.status ∈ r.status.nextState := by
        rw [hrun]
        exact o.status_mem
      rw [afind_of_find hf hr]
      dsimp only
      rw [if_pos hmem]
      cases hw : E.write site with
      | replied => exact .replied ⟨by simp [hc], hf, by simp [hw]⟩ now
      | lost => exact .lost ⟨by simp [hc], hf, by simp [hw]⟩ now _
      | failed => exact .untouched (fun h => h.2.2 hw) _

/-- The two records that can come of an outcome: its own, or that it could not be stored. -/
def FinalEntry (E : Calls) (o : Outcome) (r e : QueueEntry cls) : Prop :=
  ∃ now, E.Applied .outcome ∧ e = markedEntry o now r ∨
    ¬E.Applied .outcome ∧ e = markedEntry (.failed persistenceError) now r

theorem FinalEntry.id_eq {o : Outcome} {e : QueueEntry cls} (h : FinalEntry E o r e) : e.id = r.id := by
  obtain ⟨now, ⟨-, rfl⟩ | ⟨-, rfl⟩⟩ := h
  · exact markedEntry_id ..
  · exact markedEntry_id ..

theorem FinalEntry.terminal {o : Outcome} {e : QueueEntry cls} (h : FinalEntry E o r e) : e.status.Terminal := by
  obtain ⟨now, ⟨-, rfl⟩ | ⟨-, rfl⟩⟩ := h
  · rw [markedEntry_status]
    exact o.status_terminal
  · rw [markedEntry_status]
    exact Outcome.status_terminal _

/-- The entry is stored, then published and counted. -/
def recordedAs (e : QueueEntry cls) (s : State cls) : State cls := (s.store e).announce e

/-- A running record becomes terminal, is published and counted once, or the worker stops. -/
theorem publishTerminal_running (hr : s.records.get? id = some r) (hid : r.id = id) (hrun : r.status = .running)
    (o : Outcome) :
    (∃ e, FinalEntry E o r e ∧ s.publishTerminal E id o = (.ok (), s.recordedAs e)) ∨
      (s.publishTerminal E id o).1 = .error .persistence := by
  have hmark := amark_marked (E := E) .outcome hr hrun o
  unfold publishTerminal
  generalize s.amark E .outcome id o = m at hmark
  cases hmark with
  | replied h now => exact .inl ⟨markedEntry o now r, ⟨now, .inl ⟨h, rfl⟩⟩, rfl⟩
  | lost h now err =>
    -- the record is terminal already, and is found so
    have hstored : (s.store (markedEntry o now r)).records.get? id = some (markedEntry o now r) := by
      rw [get?_store, markedEntry_id, if_pos hid.symm]
    dsimp only
    unfold recordPersistenceFailure
    cases hf : E.find .inspect with
    | false =>
      rw [afind_of_not_find hf]
      exact .inr rfl
    | true =>
      rw [afind_of_find hf hstored]
      dsimp only
      rw [if_neg (by rw [markedEntry_status]; exact o.status_ne)]
      exact .inl ⟨markedEntry o now r, ⟨now, .inl ⟨h, rfl⟩⟩, rfl⟩
  | untouched h err =>
    dsimp only
    unfold recordPersistenceFailure
    cases hf : E.find .inspect with
    | false =>
      rw [afind_of_not_find hf]
      exact .inr rfl
    | true =>
      rw [afind_of_find hf hr]
      dsimp only
      rw [if_pos hrun]
      have hfailure := amark_marked (E := E) .failure hr hrun (.failed persistenceError)
      generalize s.amark E .failure id (.failed persistenceError) = m at hfailure
      cases hfailure with
      | replied h' now => exact .inl ⟨_, ⟨now, .inr ⟨h, rfl⟩⟩, rfl⟩
      | lost h' now err => exact .inr rfl
      | untouched h' err => exact .inr rfl

/-! ## With a lease -/

theorem settledEntry_id (o : Outcome) (now : ClockTime) (e : QueueEntry cls) : (settledEntry o now e).id = e.id := by
  cases o <;> rfl

theorem settledEntry_status (o : Outcome) (now : ClockTime) (e : QueueEntry cls) :
    (settledEntry o now e).status = o.status := by
  cases o <;> rfl

/-- What a write for the owner of a claim does over a record with the status that it asks for. -/
inductive Written (E : Calls) (site : Site) (e : QueueEntry cls) (s : State cls) :
    Except WorkerError Bool × State cls → Prop
  | applied (ho : E.owned site = true) (hw : E.write site = .replied) : Written E site e s (.ok true, s.store e)
  | refused (ho : E.owned site = false) (hw : E.write site = .replied) : Written E site e s (.ok false, s)
  | lost (ho : E.owned site = true) (hw : E.write site = .lost) (err : WorkerError) :
    Written E site e s (.error err, s.store e)
  | untouched (h : ¬(E.owned site = true ∧ E.write site = .lost)) (hw : E.write site ≠ .replied) (err : WorkerError) :
    Written E site e s (.error err, s)

theorem writeClaimed_written {required : QueueEntryStatus} {e : QueueEntry cls} (site : Site)
    (hr : s.records.get? e.id = some r) (hs : r.status = required) :
    Written E site e s (s.writeClaimed E site required e) := by
  unfold writeClaimed
  rw [hr]
  cases ho : E.owned site with
  | true =>
    cases hw : E.write site with
    | replied => simpa [hs] using Written.applied ho hw
    | lost => simpa [hs] using Written.lost ho hw .unavailable
    | failed => simpa [hs] using Written.untouched (fun h => by simp [hw] at h) (by simp [hw]) .unavailable
  | false =>
    have hnot : ¬(E.owned site = true ∧ E.write site = .lost) := fun h => by simp [ho] at h
    cases hw : E.write site with
    | replied => simpa using Written.refused ho hw
    | lost => simpa using Written.untouched hnot (by simp [hw]) .unavailable
    | failed => simpa using Written.untouched hnot (by simp [hw]) .unavailable

/-- A running record is stored as failed, published and counted, or the worker stops. -/
theorem recordClaimPersistenceFailure_running (hr : s.records.get? id = some r) (hid : r.id = id)
    (hrun : r.status = .running) :
    (∃ e, e.id = id ∧ e.status.Terminal ∧ s.recordClaimPersistenceFailure E id = (.ok (), s.recordedAs e)) ∨
      (s.recordClaimPersistenceFailure E id).1 = .error .persistence := by
  unfold recordClaimPersistenceFailure
  cases hf : E.find .inspect with
  | false =>
    rw [afind_of_not_find hf]
    exact .inr rfl
  | true =>
    rw [afind_of_find hf hr]
    dsimp only
    rw [if_pos hrun]
    cases E.clock .failure with
    | none => exact .inr rfl
    | some now =>
      have hrecord : s.records.get? (markedEntry (.failed persistenceError) now r).id = some r := by
        rw [markedEntry_id, hid, hr]
      have hwritten := writeClaimed_written (E := E) .failure hrecord hrun
      dsimp only
      generalize s.writeClaimed E .failure .running (markedEntry (.failed persistenceError) now r) = m at hwritten
      cases hwritten with
      | applied ho hw =>
        refine .inl ⟨_, (markedEntry_id ..).trans hid, ?_, rfl⟩
        rw [markedEntry_status]
        exact Outcome.status_terminal _
      | refused ho hw => exact .inr rfl
      | lost ho hw err => exact .inr rfl
      | untouched h hw err => exact .inr rfl

end State

/-- The first settle call takes effect but raises, and the record can be read afterwards. -/
def Calls.LosesReply (E : Calls) : Prop :=
  E.find .outcome = true ∧ (E.clock .outcome).isSome = true ∧ E.owned .outcome = true ∧ E.write .outcome = .lost ∧
    E.find .inspect = true

namespace State

variable {E : Calls} {id : EntryId} {s : State cls} {r : QueueEntry cls}

/-- A running record that is the worker's to settle: only where a reply is lost is it stored and no more. -/
theorem settleTerminal_running (hr : s.records.get? id = some r) (hid : r.id = id) (hrun : r.status = .running)
    (o : Outcome) :
    (E.LosesReply ∧ ∃ e, e.id = id ∧ e.status.Terminal ∧ s.settleTerminal E id o = (.ok (), s.store e)) ∨
    (¬E.LosesReply ∧ ((∃ e, e.id = id ∧ e.status.Terminal ∧ s.settleTerminal E id o = (.ok (), s.recordedAs e)) ∨
      s.settleTerminal E id o = (.ok (), s) ∨ (s.settleTerminal E id o).1 = .error .persistence)) := by
  have hretry := recordClaimPersistenceFailure_running (E := E) hr hid hrun
  unfold settleTerminal
  cases hf : E.find .outcome with
  | false =>
    rw [afind_of_not_find hf]
    exact .inr ⟨fun h => by simp [Calls.LosesReply, hf] at h, hretry.imp_right .inr⟩
  | true =>
    rw [afind_of_find hf hr]
    dsimp only
    cases hc : E.clock .outcome with
    | none =>
      exact .inr ⟨fun h => by simp [Calls.LosesReply, hc] at h, hretry.imp_right .inr⟩
    | some now =>
      have hrecord : s.records.get? (settledEntry o now r).id = some r := by rw [settledEntry_id, hid, hr]
      have hsettled : (settledEntry o now r).id = id := (settledEntry_id ..).trans hid
      have hterminal : (settledEntry o now r).status.Terminal := by
        rw [settledEntry_status]
        exact o.status_terminal
      have hwritten := writeClaimed_written (E := E) .outcome hrecord hrun
      dsimp only
      generalize s.writeClaimed E .outcome .running (settledEntry o now r) = m at hwritten
      cases hwritten with
      | applied ho hw =>
        exact .inr ⟨fun h => by simp [Calls.LosesReply, hw] at h, .inl ⟨_, hsettled, hterminal, rfl⟩⟩
      | refused ho hw => exact .inr ⟨fun h => by simp [Calls.LosesReply, hw] at h, .inr (.inl rfl)⟩
      | untouched hnot hw err =>
        exact .inr ⟨fun h => hnot ⟨h.2.2.1, h.2.2.2.1⟩, hretry.imp_right .inr⟩
      | lost ho hw err =>
        -- the write went through, so the second look finds a terminal record and is content
        have hstored : (s.store (settledEntry o now r)).records.get? id = some (settledEntry o now r) := by
          rw [get?_store, hsettled, if_pos rfl]
        dsimp only
        unfold recordClaimPersistenceFailure
        cases hf' : E.find .inspect with
        | false =>
          rw [afind_of_not_find hf']
          exact .inr ⟨fun h => by simp [Calls.LosesReply, hf'] at h, .inr (.inr rfl)⟩
        | true =>
          rw [afind_of_find hf' hstored]
          dsimp only
          rw [if_neg (by rw [settledEntry_status]; exact o.status_ne)]
          exact .inl ⟨⟨hf, by simp [hc], ho, hw, hf'⟩, _, hsettled, hterminal, rfl⟩

/-! ## The running record -/

theorem mem_nextState_running : ∀ st : QueueEntryStatus, .running ∈ st.nextState ↔ st = .queued := by
  intro st
  cases st <;> decide

theorem amarkRunning_cases (hr : s.records.get? id = some r) :
    (∃ err s', s.amarkRunning E id = (.error err, s')) ∨
      ∃ now, r.status = .queued ∧ s.amarkRunning E id = (.ok (runningEntry now r), s.store (runningEntry now r)) := by
  unfold amarkRunning areplaceEntry
  cases E.clock .running with
  | none => exact .inl ⟨_, _, rfl⟩
  | some now =>
    cases hf : E.find .running with
    | false =>
      rw [afind_of_not_find hf]
      exact .inl ⟨_, _, rfl⟩
    | true =>
      rw [afind_of_find hf hr]
      dsimp only
      split_ifs with hmem
      · cases E.write .running with
        | replied => exact .inr ⟨now, (mem_nextState_running _).mp hmem, rfl⟩
        | lost => exact .inl ⟨_, _, rfl⟩
        | failed => exact .inl ⟨_, _, rfl⟩
      · exact .inl ⟨_, _, rfl⟩

/-- The claimed entry is marked running. -/
def Marks (E : Calls) (r : QueueEntry cls) : Prop :=
  E.find .running = true ∧ (E.clock .running).isSome = true ∧ E.owned .running = true ∧ E.write .running = .replied ∧
    r.status = .queued

theorem markRunning_cases (hr : s.records.get? id = some r) (hid : r.id = id) :
    (¬Marks E r ∧ ((∃ err s', s.markRunning E id = (.error err, s')) ∨ s.markRunning E id = (.ok none, s))) ∨
      (Marks E r ∧ ∃ now, s.markRunning E id = (.ok (some (runningEntry now r)), s.store (runningEntry now r))) := by
  unfold markRunning
  cases hf : E.find .running with
  | false =>
    rw [afind_of_not_find hf]
    exact .inl ⟨fun h => by simp [Marks, hf] at h, .inl ⟨_, _, rfl⟩⟩
  | true =>
    rw [afind_of_find hf hr]
    dsimp only
    cases hc : E.clock .running with
    | none => exact .inl ⟨fun h => by simp [Marks, hc] at h, .inl ⟨_, _, rfl⟩⟩
    | some now =>
      have hrecord : s.records.get? (runningEntry now r).id = some r := hid ▸ hr
      dsimp only
      by_cases hs : r.status = .queued
      · have hwritten := writeClaimed_written (E := E) .running hrecord hs
        generalize s.writeClaimed E .running .queued (runningEntry now r) = m at hwritten
        cases hwritten with
        | applied ho hw => exact .inr ⟨⟨hf, by simp [hc], ho, hw, hs⟩, now, rfl⟩
        | refused ho hw => exact .inl ⟨fun h => by simp [Marks, ho] at h, .inr rfl⟩
        | lost ho hw err => exact .inl ⟨fun h => by simp [Marks, hw] at h, .inl ⟨_, _, rfl⟩⟩
        | untouched hnot hw err => exact .inl ⟨fun h => hw h.2.2.2.1, .inl ⟨_, _, rfl⟩⟩
      · have hnot : ¬Marks E r := fun h => hs h.2.2.2.2
        refine .inl ⟨hnot, ?_⟩
        unfold writeClaimed
        rw [hrecord]
        cases E.write .running with
        | replied => exact .inr (by simp [hs])
        | lost => exact .inl ⟨_, _, rfl⟩
        | failed => exact .inl ⟨_, _, rfl⟩

end State

/-! ## Publications and counters -/

namespace State

def status? (s : State cls) (id : EntryId) : Option QueueEntryStatus := (s.records.get? id).map (·.status)

/-- How many snapshots with this status have been published. -/
def publications (s : State cls) (st : QueueEntryStatus) : ℕ := s.published.countP fun e => e.status = st

end State

/-- A record that has become terminal from `s` to `s'` has been published and counted once; where it has not become
terminal, nothing has been counted. -/
structure PublishedOnce (s s' : State cls) (id : EntryId) : Prop where
  made : ∀ st st', s.status? id = some st → ¬st.Terminal → s'.status? id = some st' → st'.Terminal →
    s'.publications st' = s.publications st' + 1 ∧ s'.counters = s.counters.record st'
  unmade : ∀ st st', s.status? id = some st → ¬st.Terminal → s'.status? id = some st' → ¬st'.Terminal →
    s'.counters = s.counters

/-- No terminal snapshot and no count lie between the two states. -/
structure SameTally (s m : State cls) : Prop where
  counters : m.counters = s.counters
  publications : ∀ st : QueueEntryStatus, st.Terminal → m.publications st = s.publications st

section Tally

variable {s m : State cls} {id : EntryId} {e : QueueEntry cls}

theorem SameTally.refl (s : State cls) : SameTally s s := ⟨rfl, fun _ _ => rfl⟩

theorem SameTally.store (h : SameTally s m) (e : QueueEntry cls) : SameTally s (m.store e) :=
  ⟨h.counters, h.publications⟩

theorem publications_publish (m : State cls) (e : QueueEntry cls) (st : QueueEntryStatus) :
    (m.publish e).publications st = m.publications st + if e.status = st then 1 else 0 := by
  unfold State.publications State.publish
  rw [List.countP_append, List.countP_singleton]
  simp only [decide_eq_true_eq]

theorem SameTally.publish (h : SameTally s m) (he : ¬e.status.Terminal) : SameTally s (m.publish e) := by
  refine ⟨h.counters, fun st hst => ?_⟩
  have hne : e.status ≠ st := fun heq => he (heq ▸ hst)
  rw [publications_publish, if_neg hne, h.publications st hst, Nat.add_zero]

/-- Stored, published and counted. -/
theorem SameTally.publishedOnce_recordedAs (h : SameTally s m) (hid : e.id = id) (he : e.status.Terminal) :
    PublishedOnce s (m.recordedAs e) id := by
  have hstatus : (m.recordedAs e).status? id = some e.status := by
    show (((m.store e).records.get? id).map _) = _
    rw [State.get?_store, hid, if_pos rfl]
    rfl
  refine ⟨fun st st' _ _ hst' _ => ?_, fun st st' _ _ hst' hnot => ?_⟩
  · rw [hstatus] at hst'
    obtain rfl := Option.some.inj hst'
    refine ⟨?_, congrArg (fun c : Counters => c.record e.status) h.counters⟩
    have hone := publications_publish (m.store e) e e.status
    rw [if_pos rfl, (h.store e).publications e.status he] at hone
    exact hone
  · rw [hstatus] at hst'
    exact absurd (Option.some.inj hst' ▸ he) hnot

/-- Not terminal, and nothing counted. -/
theorem SameTally.publishedOnce_of_not (h : SameTally s m) (hnot : ∀ st, m.status? id = some st → ¬st.Terminal) :
    PublishedOnce s m id :=
  ⟨fun _ st' _ _ hst' ht => absurd ht (hnot st' hst'), fun _ _ _ _ _ _ => h.counters⟩

/-- Stored and not published. -/
theorem SameTally.not_publishedOnce_store (h : SameTally s m) (hid : e.id = id) (he : e.status.Terminal)
    {st : QueueEntryStatus} (hs : s.status? id = some st) (hst : ¬st.Terminal) : ¬PublishedOnce s (m.store e) id := by
  intro hp
  have hstatus : (m.store e).status? id = some e.status := by
    show (((m.store e).records.get? id).map _) = _
    rw [State.get?_store, hid, if_pos rfl]
    rfl
  obtain ⟨hcount, -⟩ := hp.made st e.status hs hst hstatus he
  have hsame := (h.store e).publications e.status he
  omega

end Tally

/-- The leased entry is marked running, has an outcome, and the reply of its first settlement is lost. -/
def LostReply (lease : Lease) (E : Calls) (h : HandlerEnd) (entry : QueueEntry cls) : Prop :=
  lease = .held false ∧ State.Marks E entry ∧ h.outcome?.isSome = true ∧ E.LosesReply

section Dispatch

variable {s : State cls} {E : Calls} {h : HandlerEnd} {entry : QueueEntry cls}

theorem sameTally_entry (observed : Bool) (s : State cls) (hq : ¬entry.status.Terminal) :
    SameTally s (if observed then s else s.publish entry) := by
  split_ifs
  · exact .refl s
  · exact (SameTally.refl s).publish hq

theorem records_entry (observed : Bool) (s : State cls) (entry : QueueEntry cls) :
    (if observed then s else s.publish entry).records = s.records := by
  split_ifs <;> rfl

/-- Once the record is running, one publication can only be missed by a lost reply. -/
theorem publishedOnce_finish_iff {m : State cls} {r : QueueEntry cls} {id : EntryId} {st : QueueEntryStatus}
    (hm : SameTally s m) (hr : m.records.get? id = some r) (hid : r.id = id) (hrun : r.status = .running)
    (hs : s.status? id = some st) (hst : ¬st.Terminal) (lease : Lease) :
    ((m.finish lease E h id).1 = .ok () → PublishedOnce s (m.finish lease E h id).2 id) ↔
      ¬(lease = .held false ∧ h.outcome?.isSome = true ∧ E.LosesReply) := by
  have hunchanged : PublishedOnce s m id := by
    refine hm.publishedOnce_of_not fun st' hst' => ?_
    rw [State.status?, hr, Option.map_some, hrun] at hst'
    rw [← Option.some.inj hst']
    decide
  unfold State.finish
  cases lease with
  | none =>
    refine ⟨(fun _ hl => by cases hl.1), fun _ => ?_⟩
    dsimp only
    cases h.outcome? with
    | none => exact fun hok => by cases hok
    | some o =>
      dsimp only
      rcases State.publishTerminal_running (E := E) hr hid hrun o with ⟨e, he, heq⟩ | herr
      · rw [heq]
        exact fun _ => hm.publishedOnce_recordedAs (he.id_eq.trans hid) he.terminal
      · exact fun hok => by rw [herr] at hok; cases hok
  | held renewalLost =>
    cases renewalLost with
    | true =>
      refine ⟨(fun _ hl => by cases hl.1), fun _ => ?_⟩
      dsimp only
      split
      · exact fun hok => by cases hok
      · exact fun _ => hunchanged
    | false =>
      dsimp only
      cases ho : h.outcome? with
      | none => exact ⟨(fun _ hl => by cases hl.2.1), (fun _ hok => by cases hok)⟩
      | some o =>
        dsimp only
        rcases State.settleTerminal_running (E := E) hr hid hrun o with ⟨hlost, e, he, hterm, heq⟩ | ⟨hnot, hcases⟩
        · rw [heq]
          refine ⟨fun hp => absurd (hp rfl) (hm.not_publishedOnce_store he hterm hs hst), fun hl => ?_⟩
          exact absurd ⟨rfl, rfl, hlost⟩ hl
        · refine ⟨fun _ hl => hnot hl.2.2, fun _ => ?_⟩
          rcases hcases with ⟨e, he, hterm, heq⟩ | heq | herr
          · rw [heq]
            exact fun _ => hm.publishedOnce_recordedAs he hterm
          · rw [heq]
            exact fun _ => hunchanged
          · exact fun hok => by rw [herr] at hok; cases hok

/-- A dispatch publishes and counts the terminal record that its calls have stored, exactly once, unless the reply of
its first settlement is lost. -/
theorem published_once_iff (lease : Lease) (observed : Bool) (E : Calls) (h : HandlerEnd) (entry : QueueEntry cls)
    (s : State cls) (hentry : s.records.get? entry.id = some entry) :
    ((s.dispatch lease observed E h entry).1 = .ok () →
      PublishedOnce s (s.dispatch lease observed E h entry).2 entry.id) ↔ ¬LostReply lease E h entry := by
  have hstatus : s.status? entry.id = some entry.status := by
    rw [State.status?, hentry]
    rfl
  by_cases hterm : entry.status.Terminal
  · -- the record was terminal before: nothing is promised, and it is not marked running
    refine ⟨fun _ hl => ?_, fun _ _ => ?_⟩
    · rw [hl.2.1.2.2.2.2] at hterm
      exact absurd hterm (by decide)
    · refine ⟨fun st _ hst hnot => ?_, fun st _ hst hnot => ?_⟩
      · rw [hstatus] at hst
        exact absurd (Option.some.inj hst ▸ hterm) hnot
      · rw [hstatus] at hst
        exact absurd (Option.some.inj hst ▸ hterm) hnot
  have htally := sameTally_entry observed s hterm
  have hrecords := records_entry observed s entry
  unfold State.dispatch
  dsimp only
  generalize (if observed then s else s.publish entry) = m at htally hrecords
  have hm : m.records.get? entry.id = some entry := by rw [hrecords, hentry]
  have hrunning (now : ClockTime) : SameTally s ((m.store (runningEntry now entry)).publish (runningEntry now entry)) :=
    (htally.store _).publish (by show ¬QueueEntryStatus.running.Terminal; decide)
  have hfound (now : ClockTime) : ((m.store (runningEntry now entry)).publish (runningEntry now entry)).records.get?
      entry.id = some (runningEntry now entry) := by
    show (m.store (runningEntry now entry)).records.get? entry.id = _
    rw [State.get?_store]
    exact if_pos rfl
  cases lease with
  | none =>
    have hnone : ¬LostReply .none E h entry := fun hl => by cases hl.1
    refine ⟨fun _ => hnone, fun _ => ?_⟩
    rcases State.amarkRunning_cases (E := E) hm with ⟨err, s', heq⟩ | ⟨now, -, heq⟩
    · rw [heq]
      exact fun hok => by cases hok
    · rw [heq]
      exact (publishedOnce_finish_iff (hrunning now) (hfound now) rfl rfl hstatus hterm .none).mpr
        fun hl => by cases hl.1
  | held renewalLost =>
    dsimp only
    rcases State.markRunning_cases (E := E) hm rfl with ⟨hnot, hcases⟩ | ⟨hmarks, now, heq⟩
    · refine ⟨fun _ hl => hnot hl.2.1, fun _ => ?_⟩
      rcases hcases with ⟨err, s', heq⟩ | heq
      · rw [heq]
        exact fun hok => by cases hok
      · rw [heq]
        refine fun _ => htally.publishedOnce_of_not fun st hst => ?_
        rw [State.status?, hm] at hst
        exact Option.some.inj hst ▸ hterm
    · rw [heq]
      refine (publishedOnce_finish_iff (hrunning now) (hfound now) rfl rfl hstatus hterm _).trans ?_
      apply not_congr
      constructor
      · exact fun hl => ⟨hl.1, hmarks, hl.2⟩
      · exact fun hl => ⟨hl.1, hl.2.2⟩

end Dispatch

/-- Every call is answered, but for the reply of the first attempt to record the outcome. -/
def answered (outcome : CallEnd) : Calls where
  clock _ := some ⟨1000, 0, ClockTime.zero_lt_million⟩
  find _ := true
  write site := if site = .outcome then outcome else .replied
  owned _ := true

def job : QueueEntry .base := .plain (.ofLast 1) .null

def waiting : State .base := ⟨Dict.empty.set job.id job, [], ⟨0, 0, 0, 0⟩⟩

theorem waiting_get : waiting.records.get? job.id = some job := by
  show (Dict.empty.set job.id job).get? job.id = some job
  rw [Dict.get?_set, if_pos rfl]

theorem published_once_job : waiting.records.get? job.id = some job ∧
    (waiting.dispatch .none false (answered .lost) (.returned .null) job).1 = .ok () ∧
    PublishedOnce waiting (waiting.dispatch .none false (answered .lost) (.returned .null) job).2 job.id := by
  have hok : (waiting.dispatch .none false (answered .lost) (.returned .null) job).1 = .ok () := by rfl
  exact ⟨waiting_get, hok, (published_once_iff .none false (answered .lost) (.returned .null) job waiting waiting_get).mpr
    (fun h => by cases h.1) hok⟩

/-- The entry is stored as succeeded by the first settlement. Its reply is lost, and the dispatch ends without a
publication and without a count. -/
theorem reply_lost :
    (waiting.dispatch (.held false) false (answered .lost) (.returned .null) job).1 = .ok () ∧
    (waiting.dispatch (.held false) false (answered .lost) (.returned .null) job).2.status? job.id = some .succeeded ∧
    (waiting.dispatch (.held false) false (answered .lost) (.returned .null) job).2.counters = waiting.counters ∧
    ((waiting.dispatch (.held false) false (answered .lost) (.returned .null) job).2.publications .succeeded = 0) ∧
    ¬PublishedOnce waiting (waiting.dispatch (.held false) false (answered .lost) (.returned .null) job).2 job.id := by
  have hstatus : (waiting.dispatch (.held false) false (answered .lost) (.returned .null) job).2.status? job.id =
      some .succeeded := by decide +kernel
  have hcounters : (waiting.dispatch (.held false) false (answered .lost) (.returned .null) job).2.counters =
      waiting.counters := by decide +kernel
  have hbefore : waiting.status? job.id = some .queued := by decide +kernel
  refine ⟨rfl, hstatus, hcounters, by decide +kernel, fun h => ?_⟩
  have hcounted := (h.made .queued .succeeded hbefore (by decide) hstatus (by decide)).2
  rw [hcounters] at hcounted
  exact absurd hcounted (by decide)

end DjangoQueues.Worker
