import DjangoQueues.Memory.Schedule
import DjangoQueues.Redis.RecordChanges
import DjangoQueues.Worker.Dispatch

/-! The lifecycle transitions of an `AsyncQueue` under concurrency. Each is two steps: the record is read and the
transition checked against it, and later the new record is written. Any number of callers interleave, with each other
and with the atomic functions that Redis workers call. -/

namespace DjangoQueues.Lifecycle

variable {cls : EntryClass} {ι : Type}

/-! ## Callers -/

/-- `_amark_running`, `_amark_succeeded`, `_amark_failed`, `_amark_cancelled` and `_amark_timed_out`. -/
inductive Mark where
  | running
  | succeeded (result : Json)
  | failed (error : Json)
  | cancelled
  | timedOut

def Mark.status : Mark → QueueEntryStatus
  | running => .running
  | succeeded _ => .succeeded
  | failed _ => .failed
  | cancelled => .cancelled
  | timedOut => .timeout

/-- The record that replaces the one that was read. -/
def Mark.replace (mark : Mark) (now : ClockTime) (previous : QueueEntry cls) : QueueEntry cls :=
  match mark with
  | running => Worker.runningEntry now previous
  | succeeded result => Worker.markedEntry (.succeeded result) now previous
  | failed error => Worker.markedEntry (.failed error) now previous
  | cancelled => { previous with status := .cancelled, finishedAt := some now }
  | timedOut => Worker.markedEntry .timedOut now previous

theorem Mark.replace_id (mark : Mark) (now : ClockTime) (previous : QueueEntry cls) :
    (mark.replace now previous).id = previous.id := by
  cases mark <;> rfl

theorem Mark.replace_status (mark : Mark) (now : ClockTime) (previous : QueueEntry cls) :
    (mark.replace now previous).status = mark.status := by
  cases mark <;> rfl

/-- A caller of `_areplace_entry` between its read and its write. -/
structure Prepared (cls : EntryClass) where
  mark : Mark
  now : ClockTime
  previous : QueueEntry cls
  allowed : mark.status ∈ previous.status.nextState

/-- The check of `_areplace_entry`; nothing is prepared where the read or the check raises. -/
def prepare (mark : Mark) (now : ClockTime) : Option (QueueEntry cls) → Option (Prepared cls)
  | none => none
  | some previous =>
    if h : mark.status ∈ previous.status.nextState then some ⟨mark, now, previous, h⟩ else none

def Prepared.entry (p : Prepared cls) : QueueEntry cls := p.mark.replace p.now p.previous

/-! ## Backends -/

/-- A change of one record's status is an edge of the lifecycle, and a terminal status stays. -/
def Follows (before after : Option QueueEntryStatus) : Prop :=
  ∀ st, before = some st → ∃ st', after = some st' ∧ (st' = st ∨ st' ∈ st.nextState) ∧ (st.Terminal → st' = st)

theorem Follows.refl (before : Option QueueEntryStatus) : Follows before before :=
  fun st h => ⟨st, h, .inl rfl, fun _ => rfl⟩

theorem Follows.of_none (after : Option QueueEntryStatus) : Follows none after := fun _ h => by cases h

/-- What the callers use of a backend, with the other calls that are made on it. -/
structure Backend (cls : EntryClass) where
  Store : Type
  Call : Type
  afind : EntryId → Store → Option (QueueEntry cls)
  astore : QueueEntry cls → Store → Store
  astoreAndDiscard : QueueEntry cls → Store → Store
  status? : EntryId → Store → Option QueueEntryStatus
  Ok : Store → Call → Prop
  exec : Call → Store → Store
  status?_astore : ∀ e s id, status? id (astore e s) = if id = e.id then some e.status else status? id s
  status?_astoreAndDiscard :
    ∀ e s id, status? id (astoreAndDiscard e s) = if id = e.id then some e.status else status? id s
  exec_follows : ∀ c s, Ok s c → ∀ id, Follows (status? id s) (status? id (exec c s))

/-- The write of `_areplace_entry`. -/
def Prepared.write (B : Backend cls) (p : Prepared cls) (s : B.Store) : B.Store :=
  if p.previous.status = .queued ∧ p.mark.status = .failed then B.astoreAndDiscard p.entry s else B.astore p.entry s

theorem Prepared.status?_write (B : Backend cls) (p : Prepared cls) (s : B.Store) (id : EntryId) :
    B.status? id (p.write B s) = if id = p.previous.id then some p.mark.status else B.status? id s := by
  have hid : p.entry.id = p.previous.id := Mark.replace_id ..
  have hstatus : p.entry.status = p.mark.status := Mark.replace_status ..
  unfold Prepared.write
  split_ifs with h hid'
  · rw [B.status?_astoreAndDiscard, hid, hstatus, if_pos hid']
  · rw [B.status?_astoreAndDiscard, hid, if_neg hid']
  · rw [B.status?_astore, hid, hstatus, if_pos (by assumption)]
  · rw [B.status?_astore, hid, if_neg (by assumption)]

structure World (B : Backend cls) (ι : Type) where
  store : B.Store
  prepared : ι → Option (Prepared cls)

inductive Act (B : Backend cls) (ι : Type) where
  | read (i : ι) (id : EntryId) (mark : Mark) (now : ClockTime)
  | write (i : ι)
  | call (c : B.Call)

variable {B : Backend cls} [DecidableEq ι]

def World.exec (w : World B ι) : Act B ι → World B ι
  | .read i id mark now =>
    { w with prepared := Function.update w.prepared i (prepare mark now (B.afind id w.store)) }
  | .write i =>
    match w.prepared i with
    | none => w
    | some p => ⟨p.write B w.store, Function.update w.prepared i none⟩
  | .call c => { w with store := B.exec c w.store }

def Act.Enabled (w : World B ι) : Act B ι → Prop
  | .read i _ _ _ => w.prepared i = none
  | .write i => (w.prepared i).isSome = true
  | .call c => B.Ok w.store c

def Step (w : World B ι) (a : Act B ι) (w' : World B ι) : Prop := a.Enabled w ∧ w' = w.exec a

/-- The step is made, and every change of a stored status follows the lifecycle. -/
def LawfulStep (w : World B ι) (a : Act B ι) (w' : World B ι) : Prop :=
  Step w a w' ∧ ∀ id, Follows (B.status? id w.store) (B.status? id w'.store)

/-- The stored status is still the one that was read, or already the one that is written, or the write is a failure of
an entry that is not finished. -/
def Prepared.Current (p : Prepared cls) (stored : QueueEntryStatus) : Prop :=
  stored = p.previous.status ∨ stored = p.mark.status ∨
    p.mark.status = .failed ∧ (stored = .queued ∨ stored = .running)

def Act.Current (w : World B ι) : Act B ι → Prop
  | .write i => ∀ p stored, w.prepared i = some p → B.status? p.previous.id w.store = some stored → p.Current stored
  | _ => True

def CurrentStep (w : World B ι) (a : Act B ι) (w' : World B ι) : Prop := Step w a w' ∧ a.Current w

theorem Prepared.edge_iff (p : Prepared cls) (stored : QueueEntryStatus) :
    (p.mark.status = stored ∨ p.mark.status ∈ stored.nextState) ↔ p.Current stored := by
  obtain ⟨mark, now, previous, allowed⟩ := p
  unfold Prepared.Current
  dsimp only at allowed ⊢
  generalize previous.status = r at allowed
  cases mark <;> cases r <;> cases stored <;> simp_all [Mark.status, QueueEntryStatus.nextState]

theorem Prepared.terminal_eq (p : Prepared cls) {stored : QueueEntryStatus} (h : p.mark.status = stored ∨
    p.mark.status ∈ stored.nextState) (ht : stored.Terminal) : p.mark.status = stored := by
  obtain ⟨mark, now, previous, allowed⟩ := p
  cases mark <;> cases stored <;> simp_all [Mark.status, QueueEntryStatus.nextState, QueueEntryStatus.Terminal]

theorem follows_write_iff (p : Prepared cls) (s : B.Store) :
    (∀ id, Follows (B.status? id s) (B.status? id (p.write B s))) ↔
      ∀ stored, B.status? p.previous.id s = some stored → p.Current stored := by
  constructor
  · intro h stored hstored
    obtain ⟨st', hst', hedge, -⟩ := h p.previous.id stored hstored
    rw [p.status?_write, if_pos rfl] at hst'
    rw [← Option.some.inj hst'] at hedge
    exact (p.edge_iff stored).mp hedge
  · intro h id
    rw [p.status?_write]
    split_ifs with hid
    · intro st hst
      rw [hid] at hst
      have hedge := (p.edge_iff st).mpr (h st hst)
      exact ⟨p.mark.status, rfl, hedge, fun ht => p.terminal_eq hedge ht⟩
    · exact .refl _

theorem lawfulStep_iff {w w' : World B ι} {a : Act B ι} : LawfulStep w a w' ↔ CurrentStep w a w' := by
  unfold LawfulStep CurrentStep
  refine and_congr_right ?_
  rintro ⟨henabled, rfl⟩
  cases a with
  | read i id mark now => exact ⟨fun _ => trivial, fun _ id => .refl _⟩
  | call c => exact ⟨fun _ => trivial, fun _ => B.exec_follows c w.store henabled⟩
  | write i =>
    obtain ⟨p, hp⟩ := Option.isSome_iff_exists.mp henabled
    have hstore : (w.exec (.write i)).store = p.write B w.store := by simp only [World.exec, hp]
    rw [hstore, follows_write_iff]
    constructor
    · intro h q stored hq
      obtain rfl : p = q := Option.some.inj (hp.symm.trans hq)
      exact h stored
    · exact fun h stored => h p stored hp

/-- A run keeps to the lifecycle where all its writes are current. -/
theorem run_lawful_iff {w w' : World B ι} {acts : List (Act B ι)} :
    Run LawfulStep w acts w' ↔ Run CurrentStep w acts w' :=
  ⟨Run.mono fun _ _ _ => lawfulStep_iff.mp, Run.mono fun _ _ _ => lawfulStep_iff.mpr⟩

/-! ## The Redis backend -/

section Redis

open Redis

def redisStatus? (id : EntryId) (s : Store) : Option QueueEntryStatus :=
  (recordStatus (s.records.get? id)).bind QueueEntryStatus.ofValue?

/-- `afind`; a record that cannot be restored raises. -/
def redisFind (limits : RecursionLimits) (id : EntryId) (s : Store) : Option (QueueEntry cls) :=
  (s.records.get? id).bind fun raw => (QueueEntry.fromDict limits cls raw).toOption

/-- `SET` of the record. -/
def redisStore (e : QueueEntry cls) (s : Store) : Store := { s with records := s.records.set e.id e.toDict }

/-- The calls of producers and of workers: an entry is enqueued under a new id, marked running, and settled with a
terminal status. -/
def RedisCall (s : Store) : Redis.Call cls → Prop
  | .enqueue e _ => e.status = .queued ∧ s.records.get? e.id = none
  | .claim _ _ expireUnclaimed => expireUnclaimed = false
  | .markRunning _ e => e.status = .running
  | .settle _ e => e.status.Terminal
  | .renew .. | .release .. | .ack .. | .recover .. => True
  | _ => False

theorem redisStatus?_eq_some {id : EntryId} {s : Store} (st : QueueEntryStatus)
    (h : recordStatus (s.records.get? id) = some st.value) : redisStatus? id s = some st := by
  rw [redisStatus?, h]
  exact QueueEntryStatus.ofValue?_value st

theorem redisStatus?_set {e : QueueEntry cls} {s s' : Store} (h : s'.records = s.records.set e.id e.toDict)
    (id : EntryId) : redisStatus? id s' = if id = e.id then some e.status else redisStatus? id s := by
  rw [redisStatus?, h, Dict.get?_set]
  split_ifs with hid
  · exact QueueEntryStatus.ofValue?_value e.status
  · rfl

/-- A record of this status is written over one from which the lifecycle leads to it. -/
theorem follows_set (e : QueueEntry cls) (st : QueueEntryStatus) {s s' : Store}
    (h : s'.records = s.records.set e.id e.toDict) (hst : recordStatus (s.records.get? e.id) = some st.value)
    (hedge : e.status ∈ st.nextState) (hterm : ¬st.Terminal) (id : EntryId) :
    Follows (redisStatus? id s) (redisStatus? id s') := by
  rw [redisStatus?_set h]
  split_ifs with hid
  · rw [hid, redisStatus?_eq_some st hst]
    intro x hx
    rw [← Option.some.inj hx]
    exact ⟨e.status, rfl, .inr hedge, fun ht => absurd ht hterm⟩
  · exact .refl _

/-- Recovery leaves a status alone, or an unfinished one is queued. -/
def Requeues (id : EntryId) (s m : Store) : Prop :=
  m.records.get? id = s.records.get? id ∨
    (statusText (s.records.get? id) = some "queued" ∨ statusText (s.records.get? id) = some "running") ∧
      statusText (m.records.get? id) = some "queued"

theorem Requeues.recoverOne {id : EntryId} {s m : Store} (h : Requeues id s m)
    {redeliver : Lua → EntryId → Store → Store} (hre : Library.Redelivers redeliver) (now : ℚ) (id' : EntryId) :
    Requeues id s (Library.recoverOne redeliver now id' m).2 := by
  by_cases hid : id = id'
  · subst hid
    have hcase := Library.recoverOne_case redeliver now id m
    generalize Library.recoverOne redeliver now id m = res at hcase
    cases hcase with
    | kept hd hlt => exact h
    | discarded hd hs => exact h
    | error hd hr hs he => exact h
    | @recovered rawEntry raw hd hr hs he =>
      have hreq := Library.requeued hre (Library.resetEntry (Cjson.table rawEntry))
        ((m.claims.get? id).bind Cjson.decode) now id raw m
      have hqueued : statusText (some raw) = some "queued" :=
        hs.elim (Library.statusText_of_recovered · he) (Library.statusText_of_recovered · he)
      have hget : (m.records.set id raw).get? id = some raw := by rw [Dict.get?_set, if_pos rfl]
      refine .inr ⟨?_, ?_⟩
      · rcases h with h | h
        · rw [← h, hr]
          exact hs
        · exact h.1
      · show statusText (Dict.get? _ id) = _
        rw [hreq.records, hget]
        exact hqueued
  · rcases h with h | h
    · exact .inl ((Library.recoverOne_other hre now hid m).1.trans h)
    · refine .inr ⟨h.1, ?_⟩
      rw [(Library.recoverOne_other hre now hid m).1]
      exact h.2

theorem Requeues.follows {id : EntryId} {s m : Store} (h : Requeues id s m) :
    Follows (redisStatus? id s) (redisStatus? id m) := by
  rcases h with h | ⟨hold, hnew⟩
  · rw [redisStatus?, redisStatus?, h]
    exact .refl _
  · rw [redisStatus?_eq_some .queued (recordStatus_of_statusText hnew)]
    rcases hold with hold | hold
    · rw [redisStatus?_eq_some .queued (recordStatus_of_statusText hold)]
      exact .refl _
    · rw [redisStatus?_eq_some .running (recordStatus_of_statusText hold)]
      intro x hx
      rw [← Option.some.inj hx]
      exact ⟨.queued, rfl, .inr (by decide), fun ht => absurd ht (by decide)⟩

theorem redisCall_follows (kind : QueueKind) (t : ServerTime) {s : Store} {c : Redis.Call cls} (hc : RedisCall s c)
    (id : EntryId) : Follows (redisStatus? id s) (redisStatus? id (Redis.exec kind c t s).2) := by
  have same {s' : Store} (h : s'.records = s.records) : Follows (redisStatus? id s) (redisStatus? id s') := by
    unfold redisStatus?
    rw [h]
    exact .refl _
  cases c with
  | enqueue e a =>
    rcases astoreAndPush_cases kind e a t s with hr | ⟨s', hr, hs'⟩
    · exact same (by simp only [exec, hr])
    · simp only [exec, hr]
      rw [redisStatus?_set hs'.records]
      split_ifs with hid
      · rw [redisStatus?, hid, hc.2]
        exact .of_none _
      · exact .refl _
  | claim w lease x =>
    obtain rfl : x = false := hc
    exact same (aclaim_frame kind w lease t s).1
  | renew w lease id' =>
    rcases Library.renew_cases w lease id' t s with ⟨r, hr, -⟩ | ⟨_, _, _, _, _, _, _, hr⟩
    · exact same (by simp only [exec, hr])
    · exact same (by simp only [exec, hr])
  | release w id' delay => exact same (records_arelease ..)
  | ack w id' =>
    refine same ?_
    simp only [exec, Library.ack]
    split <;> rfl
  | markRunning w e =>
    have he : e.status = .running := hc
    rcases Library.markRunning_cases w e.id e.toDict s with ⟨hr, -⟩ | ⟨-, hq, hr⟩
    · exact same (by simp only [exec, hr])
    · refine follows_set e .queued (by simp only [exec, hr]) (recordStatus_of_statusText hq) ?_ (by decide) id
      rw [he]
      decide
  | settle w e =>
    have he : e.status.Terminal := hc
    rcases Library.settle_cases w e.id e.toDict s with ⟨hr, -⟩ | ⟨-, hq, hr⟩
    · exact same (by simp only [exec, hr])
    · refine follows_set e .running (by simp only [exec, hr, Library.dropClaim]) (recordStatus_of_statusText hq) ?_
        (by decide) id
      revert he
      cases e.status <;> decide
  | recover batch =>
    have hrec : Requeues id s (arecover kind batch t s).2 :=
      (arecover_rule (I := fun _ m => Requeues id s m)
        (fun redeliver hre id' _ m hm => hm.recoverOne hre t.nowUs id') kind batch (.inl rfl)).choose_spec
    exact hrec.follows
  | _ => exact hc.elim

theorem redisStatus?_redisStore (e : QueueEntry cls) (s : Store) (id : EntryId) :
    redisStatus? id (redisStore e s) = if id = e.id then some e.status else redisStatus? id s :=
  redisStatus?_set rfl id

theorem redisStatus?_storeAndDiscard (e : QueueEntry cls) (s : Store) (id : EntryId) :
    redisStatus? id (Library.storeAndDiscard e.toDict e.id s) =
      if id = e.id then some e.status else redisStatus? id s := by
  refine redisStatus?_set ?_ id
  unfold Library.storeAndDiscard Library.resetSequence
  split_ifs <;> rfl

theorem redisExec_follows (kind : QueueKind) (c : Redis.Call cls × ServerTime) (s : Store) (hc : RedisCall s c.1)
    (id : EntryId) : Follows (redisStatus? id s) (redisStatus? id (Redis.exec kind c.1 c.2 s).2) :=
  redisCall_follows kind c.2 hc id

/-- `RedisAsyncQueue`. -/
def redis (limits : RecursionLimits) (cls : EntryClass) (kind : QueueKind) : Backend cls where
  Store := Store
  Call := Redis.Call cls × ServerTime
  afind := redisFind limits
  astore := redisStore
  astoreAndDiscard e := Library.storeAndDiscard e.toDict e.id
  status? := redisStatus?
  Ok s c := RedisCall s c.1
  exec c s := (Redis.exec kind c.1 c.2 s).2
  status?_astore := redisStatus?_redisStore
  status?_astoreAndDiscard := redisStatus?_storeAndDiscard
  exec_follows := redisExec_follows kind

end Redis

/-! ## The memory backend -/

section Memory

open Memory
open Redis (QueueKind)

def memoryStatus? (id : EntryId) (s : State cls) : Option QueueEntryStatus := (s.entries.get? id).map (·.status)

/-- The other calls on an in-process queue. -/
inductive MemoryCall (cls : EntryClass) where
  | enqueue (e : QueueEntry cls) (availableAt : Option ClockTime) (now : ClockTime)
  | dequeue (now : ClockTime)

def MemoryCall.Ok (s : State cls) : MemoryCall cls → Prop
  | .enqueue e _ _ => e.status = .queued ∧ s.entries.get? e.id = none
  | .dequeue _ => True

def MemoryCall.exec (kind : QueueKind) (s : State cls) : MemoryCall cls → State cls
  | .enqueue e availableAt now => Queue.astoreAndPush kind e availableAt now s
  | .dequeue now => (Queue.adequeue kind now s).2

theorem memoryStatus?_set {e : QueueEntry cls} {s s' : State cls} (h : s'.entries = s.entries.set e.id e)
    (id : EntryId) : memoryStatus? id s' = if id = e.id then some e.status else memoryStatus? id s := by
  rw [memoryStatus?, h, Dict.get?_set]
  split_ifs with hid
  · rfl
  · rfl

theorem memoryStatus?_astore (e : QueueEntry cls) (s : State cls) (id : EntryId) :
    memoryStatus? id (s.astore e) = if id = e.id then some e.status else memoryStatus? id s :=
  memoryStatus?_set rfl id

theorem memoryStatus?_astoreAndDiscard (kind : QueueKind) (e : QueueEntry cls) (s : State cls) (id : EntryId) :
    memoryStatus? id (Queue.astoreAndDiscard kind e s) =
      if id = e.id then some e.status else memoryStatus? id s := by
  refine memoryStatus?_set ?_ id
  cases kind <;> rfl

theorem memoryExec_follows (kind : QueueKind) (c : MemoryCall cls) (s : State cls) (hc : c.Ok s) (id : EntryId) :
    Follows (memoryStatus? id s) (memoryStatus? id (c.exec kind s)) := by
  cases c with
  | enqueue e a now =>
    show Follows _ (memoryStatus? id (Queue.astoreAndPush kind e a now s))
    rw [memoryStatus?_set (entries_astoreAndPush kind e a now s)]
    split_ifs with hid
    · rw [memoryStatus?, hid, hc.2]
      exact .of_none _
    · exact .refl _
  | dequeue now =>
    unfold memoryStatus?
    rw [show (MemoryCall.exec kind s (.dequeue now)).entries = s.entries from entries_adequeue kind now s]
    exact .refl _

/-- The in-process `AsyncQueue`. -/
def memory (cls : EntryClass) (kind : QueueKind) : Backend cls where
  Store := State cls
  Call := MemoryCall cls
  afind id s := (s.afind id).toOption
  astore := State.astore
  astoreAndDiscard := Queue.astoreAndDiscard kind
  status? := memoryStatus?
  Ok s c := c.Ok s
  exec c s := c.exec kind s
  status?_astore := memoryStatus?_astore
  status?_astoreAndDiscard := memoryStatus?_astoreAndDiscard kind
  exec_follows := memoryExec_follows kind

end Memory

/-- On both backends, and for any callers, a run changes stored statuses along the lifecycle and leaves terminal ones
alone exactly where every write finds the status that was read, or the one it writes, or fails an unfinished entry. -/
theorem lifecycle_followed_iff (limits : RecursionLimits) (cls : EntryClass) (kind : Redis.QueueKind) :
    (∀ (w w' : World (redis limits cls kind) ι) (acts : List (Act (redis limits cls kind) ι)),
      Run LawfulStep w acts w' ↔ Run CurrentStep w acts w') ∧
    ∀ (w w' : World (memory cls kind) ι) (acts : List (Act (memory cls kind) ι)),
      Run LawfulStep w acts w' ↔ Run CurrentStep w acts w' :=
  ⟨fun _ _ _ => run_lawful_iff, fun _ _ _ => run_lawful_iff⟩

def callTime : ClockTime := ⟨1000, 0, ClockTime.zero_lt_million⟩

def job : QueueEntry .base := .plain (.ofLast 1) .null

/-- An entry is queued and marked running; then two callers read it, one to mark it succeeded and one to mark it
failed, and the first writes. -/
def overlapping : List (Act (memory .base .fifo) Bool) :=
  [.call (.enqueue job none callTime), .read false job.id .running callTime, .write false,
    .read false job.id (.succeeded .null) callTime, .read true job.id (.failed .null) callTime, .write false]

def World.execAll (w : World B ι) (acts : List (Act B ι)) : World B ι := acts.foldl World.exec w

def idleCallers : World (memory .base .fifo) Bool := ⟨Memory.State.empty, fun _ => none⟩

theorem run_overlapping : Run Step idleCallers overlapping (idleCallers.execAll overlapping) :=
  .cons ⟨⟨rfl, rfl⟩, rfl⟩ (.cons ⟨rfl, rfl⟩ (.cons ⟨rfl, rfl⟩ (.cons ⟨rfl, rfl⟩ (.cons ⟨rfl, rfl⟩
    (.cons ⟨rfl, rfl⟩ (.nil _))))))

/-- The second caller then writes `failed` over `succeeded`. -/
theorem terminal_replaced : Run Step idleCallers overlapping (idleCallers.execAll overlapping) ∧
    Step (idleCallers.execAll overlapping) (.write true) ((idleCallers.execAll overlapping).exec (.write true)) ∧
    memoryStatus? job.id (idleCallers.execAll overlapping).store = some .succeeded ∧
    memoryStatus? job.id ((idleCallers.execAll overlapping).exec (.write true)).store = some .failed ∧
    ¬Follows (some .succeeded) (some .failed) := by
  refine ⟨run_overlapping, ⟨rfl, rfl⟩, by decide +kernel, by decide +kernel, fun h => ?_⟩
  obtain ⟨st', hst', -, hterm⟩ := h .succeeded rfl
  rw [hterm (by decide)] at hst'
  cases hst'

end DjangoQueues.Lifecycle
