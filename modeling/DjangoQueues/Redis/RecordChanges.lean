import DjangoQueues.RestoredEntries
import DjangoQueues.Redis.Schedule

/-! What the calls of the workers of a tracked queue do to the stored records. -/

namespace DjangoQueues.Redis

variable {limits : RecursionLimits} {cls : EntryClass}

/-- The calls of workers on a tracked queue: each entry is enqueued under an identity that was
never stored, and settled entries have a terminal status and were written by `json.dumps`. -/
def Working (limits : RecursionLimits) (fresh : EntryId → Prop) (s : Store) : Call cls → Prop
  | .enqueue e _ => e.status = .queued ∧ s.records.get? e.id = none ∧ fresh e.id
  | .claim _ _ expireUnclaimed => expireUnclaimed = false
  | .markRunning _ e => e.status = .running
  | .settle _ e => e.status.Terminal ∧ e.Timestamped ∧ e.Writable limits
  | .renew .. | .release .. | .ack .. | .recover .. => True
  | _ => False

/-- A terminal record that `from_dict` restores. -/
structure Settled (limits : RecursionLimits) (cls : EntryClass) (id : EntryId) (raw : Json) : Prop where
  prunable : Library.prunable (recordStatus (some raw)) = true
  restored : ∃ e : QueueEntry cls, QueueEntry.fromDict limits cls raw = .ok e ∧ e.id = id ∧ e.status.Terminal

theorem settled_toDict {e : QueueEntry cls} (ht : e.status.Terminal) (h : e.Timestamped) (hw : e.Writable limits) :
    Settled limits cls e.id e.toDict where
  prunable := prunable_toDict ht
  restored := ⟨e.restored, QueueEntry.exists_fromDict_toDict h hw, rfl, ht⟩

/-- What a call can do to the record of one id. -/
inductive RecordChange (limits : RecursionLimits) (cls : EntryClass) (fresh : EntryId → Prop) (id : EntryId)
    (s s' : Store) : Prop
  | same (h : s'.records.get? id = s.records.get? id)
  | stored {raw : Json} (hn : s.records.get? id = none) (hf : fresh id) (hs : s'.records.get? id = some raw)
      (hp : Library.prunable (recordStatus (some raw)) = false)
  | moved {old raw : Json} (hr : s.records.get? id = some old) (ho : Library.prunable (recordStatus (some old)) = false)
      (hs : s'.records.get? id = some raw)
      (hp : Library.prunable (recordStatus (some raw)) = true → Settled limits cls id raw)

variable {fresh : EntryId → Prop}

theorem RecordChange.set {e : QueueEntry cls} {s : Store} {old : Json} (hr : s.records.get? e.id = some old)
    (ho : Library.prunable (recordStatus (some old)) = false)
    (hp : Library.prunable (recordStatus (some e.toDict)) = true → Settled limits cls e.id e.toDict) {s' : Store}
    (hs : s'.records = s.records.set e.id e.toDict) (id : EntryId) : RecordChange limits cls fresh id s s' := by
  by_cases hid : id = e.id
  · subst hid
    exact .moved hr ho (by rw [hs, Dict.get?_set, if_pos rfl]) hp
  · exact .same (by rw [hs, Dict.get?_set, if_neg hid])

theorem exists_record_of_statusText {s : Store} {id : EntryId} {st : String}
    (h : statusText (s.records.get? id) = some st) :
    ∃ raw, s.records.get? id = some raw ∧ recordStatus (some raw) = some st := by
  cases hr : s.records.get? id with
  | none =>
    rw [hr] at h
    cases h
  | some raw =>
    rw [hr] at h
    exact ⟨raw, rfl, recordStatus_of_statusText h⟩

theorem RecordChange.congr {s m m' : Store} {id : EntryId} (h : RecordChange limits cls fresh id s m)
    (heq : m'.records.get? id = m.records.get? id) : RecordChange limits cls fresh id s m' := by
  cases h with
  | same hsame => exact .same (heq.trans hsame)
  | stored hn hf hs hp => exact .stored hn hf (heq.trans hs) hp
  | moved hr ho hs hp => exact .moved hr ho (heq.trans hs) hp

/-- Recovery writes a record that was not terminal and is queued afterwards. -/
theorem RecordChange.recoverOne {s m : Store} {id : EntryId} (h : RecordChange limits cls fresh id s m)
    {redeliver : Lua → EntryId → Store → Store} (hre : Library.Redelivers redeliver) (now : ℚ) (id' : EntryId) :
    RecordChange limits cls fresh id s (Library.recoverOne redeliver now id' m).2 := by
  by_cases hid : id = id'
  · subst hid
    have hcase := Library.recoverOne_case redeliver now id m
    generalize Library.recoverOne redeliver now id m = res at hcase
    cases hcase with
    | kept hd hlt => exact h.congr rfl
    | discarded hd hs => exact h.congr rfl
    | error hd hr hs he => exact h
    | @recovered rawEntry raw hd hr hs he =>
      have hreq := Library.requeued hre (Library.resetEntry (Cjson.table rawEntry))
        ((m.claims.get? id).bind Cjson.decode) now id raw m
      have hst : ∃ st, statusText (some rawEntry) = some st ∧ Library.prunable (some st) = false := by
        rcases hs with hs | hs
        · exact ⟨_, hs, rfl⟩
        · exact ⟨_, hs, rfl⟩
      obtain ⟨st, hst, hold⟩ := hst
      have hnew : Library.prunable (recordStatus (some raw)) = false := by
        rw [recordStatus_of_statusText (Library.statusText_of_recovered hst he)]
        rfl
      have hget : (m.records.set id raw).get? id = some raw := by rw [Dict.get?_set, if_pos rfl]
      rw [← hreq.records] at hget
      rw [← recordStatus_of_statusText hst] at hold
      cases h with
      | same hsame =>
        refine .moved (hsame.symm.trans hr) hold hget fun hp => ?_
        rw [hnew] at hp
        cases hp
      | stored hn hf hs hp => exact .stored hn hf hget hnew
      | moved hr' ho hs hp =>
        refine .moved hr' ho hget fun hp => ?_
        rw [hnew] at hp
        cases hp
  · exact h.congr (Library.recoverOne_other hre now hid m).1

/-- Terminal records stay as they are and only terminal entries are settled. -/
theorem recordChange_exec {s : Store} {c : Call cls} (hc : Working limits fresh s c)
    (kind : QueueKind) (t : ServerTime) (id : EntryId) : RecordChange limits cls fresh id s (exec kind c t s).2 := by
  cases c with
  | enqueue e a =>
    rcases astoreAndPush_cases kind e a t s with hr | ⟨s', hr, hs'⟩
    · exact .same (by simp only [exec, hr])
    · simp only [exec, hr]
      by_cases hid : id = e.id
      · subst hid
        refine .stored hc.2.1 hc.2.2 (by rw [hs'.records, Dict.get?_set, if_pos rfl]) ?_
        rw [recordStatus_toDict, hc.1]
        rfl
      · exact .same (by rw [hs'.records, Dict.get?_set, if_neg hid])
  | claim w lease x =>
    obtain rfl : x = false := hc
    exact .same (by simp only [exec, (aclaim_frame kind w lease t s).1])
  | renew w lease id =>
    rcases Library.renew_cases w lease id t s with ⟨r, hr, -⟩ | ⟨_, _, _, _, _, _, _, hr⟩
    · exact .same (by simp only [exec, hr])
    · exact .same (by simp only [exec, hr])
  | release w id delay => exact .same (by simp only [exec, records_arelease])
  | ack w id =>
    refine .same ?_
    simp only [exec, Library.ack]
    split <;> rfl
  | markRunning w e =>
    rcases Library.markRunning_cases w e.id e.toDict s with ⟨hr, -⟩ | ⟨-, hq, hr⟩
    · exact .same (by simp only [exec, hr])
    · obtain ⟨old, hold, hst⟩ := exists_record_of_statusText hq
      refine .set hold (by rw [hst]; rfl) (fun h => ?_) (by simp only [exec, hr]) id
      rw [recordStatus_toDict, show e.status = .running from hc] at h
      cases h
  | settle w e =>
    rcases Library.settle_cases w e.id e.toDict s with ⟨hr, -⟩ | ⟨-, hq, hr⟩
    · exact .same (by simp only [exec, hr])
    · obtain ⟨old, hold, hst⟩ := exists_record_of_statusText hq
      exact .set hold (by rw [hst]; rfl) (fun _ => settled_toDict hc.1 hc.2.1 hc.2.2)
        (by simp only [exec, hr, Library.dropClaim]) id
  | recover batch =>
    exact (arecover_rule (I := fun _ m => RecordChange limits cls fresh id s m)
      (fun redeliver hre id' _ m hm => hm.recoverOne hre t.nowUs id') kind batch (.same rfl)).choose_spec
  | _ => exact hc.elim

end DjangoQueues.Redis
