import DjangoQueues.Entries
import DjangoQueues.Lib.Dict

/-! The dispatch of one entry by a worker, with and without a lease: the entry is marked running, its handler ends in
some way, and the outcome is recorded. Every call to the store and to the clock may fail, and a write may take effect
while its reply is lost. Only the calls of the dispatch change the record. -/

namespace DjangoQueues.Worker

variable {cls : EntryClass}

/-- How a write to the store ends. -/
inductive CallEnd where
  | replied
  /-- It takes effect, and raises. -/
  | lost
  /-- It raises without an effect. -/
  | failed
deriving DecidableEq

/-- Where a call is made from. -/
inductive Site where
  /-- `_amark_running`, or `_mark_running` of a claim. -/
  | running
  /-- The first attempt to record the outcome. -/
  | outcome
  /-- The record is read again after that has failed. -/
  | inspect
  /-- The attempt to record that failure. -/
  | failure
deriving DecidableEq

/-- How the calls of one dispatch end. -/
structure Calls where
  /-- `None` where the clock raises. -/
  clock : Site → Option ClockTime
  /-- Whether `afind` can be answered. -/
  find : Site → Bool
  write : Site → CallEnd
  /-- Whether the claim is still this worker's when the write arrives. -/
  owned : Site → Bool

structure Counters where
  succeeded : ℕ
  failed : ℕ
  cancelled : ℕ
  timedOut : ℕ
deriving DecidableEq

/-- `_record_terminal`. -/
def Counters.record (c : Counters) : QueueEntryStatus → Counters
  | .succeeded => { c with succeeded := c.succeeded + 1 }
  | .failed => { c with failed := c.failed + 1 }
  | .cancelled => { c with cancelled := c.cancelled + 1 }
  | .timeout => { c with timedOut := c.timedOut + 1 }
  | _ => c

structure State (cls : EntryClass) where
  records : Dict EntryId (QueueEntry cls)
  /-- What the worker has passed to `apublish`. -/
  published : List (QueueEntry cls)
  counters : Counters

inductive WorkerError where
  /-- `QueuePersistenceError`. -/
  | persistence
  | notFound (id : EntryId)
  /-- A transition that the lifecycle does not have. -/
  | valueError
  /-- What a failing call raises. -/
  | unavailable
  | cancelled
  /-- `TimeoutError`. -/
  | timeout
  | exited
  /-- `json.dumps` of a result raises neither `TypeError` nor `ValueError`. -/
  | unserialisable
deriving DecidableEq

/-- An outcome to record; an error is its type's name and its message. -/
inductive Outcome where
  | succeeded (result : Json)
  | failed (error : Json)
  | timedOut

def Outcome.status : Outcome → QueueEntryStatus
  | .succeeded _ => .succeeded
  | .failed _ => .failed
  | .timedOut => .timeout

def runningEntry (now : ClockTime) (e : QueueEntry cls) : QueueEntry cls :=
  { e with status := .running, dispatchedAt := some now }

/-- The record of an outcome: a result clears the error, and the rest stays as it was. -/
def markedEntry (o : Outcome) (now : ClockTime) (e : QueueEntry cls) : QueueEntry cls :=
  match o with
  | .succeeded result => { e with status := .succeeded, result := result, error := .null, finishedAt := some now }
  | .failed error => { e with status := .failed, error := error, finishedAt := some now }
  | .timedOut => { e with status := .timeout, finishedAt := some now }

/-- The terminal entry of a claim: what the outcome does not give is `None`. -/
def settledEntry (o : Outcome) (now : ClockTime) (e : QueueEntry cls) : QueueEntry cls :=
  match o with
  | .succeeded result => { e with status := .succeeded, result := result, error := .null, finishedAt := some now }
  | .failed error => { e with status := .failed, result := .null, error := error, finishedAt := some now }
  | .timedOut => { e with status := .timeout, result := .null, error := .null, finishedAt := some now }

/-- The error of a `QueuePersistenceError`. -/
def persistenceError : Json :=
  .obj [("type", .str "QueuePersistenceError"), ("message", .str "Unable to persist terminal queue outcome")]

namespace State

def store (e : QueueEntry cls) (s : State cls) : State cls := { s with records := s.records.set e.id e }

def publish (e : QueueEntry cls) (s : State cls) : State cls := { s with published := s.published ++ [e] }

/-- The terminal entry is published and counted. -/
def announce (e : QueueEntry cls) (s : State cls) : State cls :=
  { s.publish e with counters := s.counters.record e.status }

def afind (E : Calls) (site : Site) (id : EntryId) (s : State cls) : Except WorkerError (QueueEntry cls) :=
  if E.find site then
    match s.records.get? id with
    | none => .error (.notFound id)
    | some e => .ok e
  else .error .unavailable

/-! ## Without a lease -/

/-- `_areplace_entry`: the transition is checked against the record that is read, and the new one is made of it. -/
def areplaceEntry (E : Calls) (site : Site) (id : EntryId) (status : QueueEntryStatus)
    (replace : ClockTime → QueueEntry cls → QueueEntry cls) (s : State cls) :
    Except WorkerError (QueueEntry cls) × State cls :=
  match E.clock site with
  | none => (.error .unavailable, s)
  | some now =>
    match s.afind E site id with
    | .error err => (.error err, s)
    | .ok previous =>
      if status ∈ previous.status.nextState then
        match E.write site with
        | .replied => (.ok (replace now previous), s.store (replace now previous))
        | .lost => (.error .unavailable, s.store (replace now previous))
        | .failed => (.error .unavailable, s)
      else (.error .valueError, s)

def amarkRunning (E : Calls) (id : EntryId) (s : State cls) : Except WorkerError (QueueEntry cls) × State cls :=
  s.areplaceEntry E .running id .running runningEntry

/-- `_amark_succeeded`, `_amark_failed` and `_amark_timed_out`. -/
def amark (E : Calls) (site : Site) (id : EntryId) (o : Outcome) (s : State cls) :
    Except WorkerError (QueueEntry cls) × State cls := s.areplaceEntry E site id o.status (markedEntry o)

/-- `_record_persistence_failure`. -/
def recordPersistenceFailure (E : Calls) (id : EntryId) (s : State cls) : Option (QueueEntry cls) × State cls :=
  match s.afind E .inspect id with
  | .error _ => (none, s)
  | .ok current =>
    if current.status = .running then
      match s.amark E .failure id (.failed persistenceError) with
      | (.ok e, s) => (some e, s)
      | (.error _, s) => (none, s)
    else (some current, s)

/-- `_publish_terminal`. -/
def publishTerminal (E : Calls) (id : EntryId) (o : Outcome) (s : State cls) : Except WorkerError Unit × State cls :=
  match s.amark E .outcome id o with
  | (.ok e, s) => (.ok (), s.announce e)
  | (.error _, s) =>
    match s.recordPersistenceFailure E id with
    | (none, s) => (.error .persistence, s)
    | (some e, s) => (.ok (), s.announce e)

/-! ## With a lease -/

/-- A function of the library that stores an entry for the owner of its claim, where the record has this status. -/
def writeClaimed (E : Calls) (site : Site) (required : QueueEntryStatus) (e : QueueEntry cls) (s : State cls) :
    Except WorkerError Bool × State cls :=
  let applies : Bool := E.owned site && (s.records.get? e.id).any fun x => x.status = required
  let written := if applies then s.store e else s
  match E.write site with
  | .replied => (.ok applies, written)
  | .lost => (.error .unavailable, written)
  | .failed => (.error .unavailable, s)

/-- `_mark_running` of a claimed entry; nothing is returned where the claim is lost and the entry released. -/
def markRunning (E : Calls) (id : EntryId) (s : State cls) : Except WorkerError (Option (QueueEntry cls)) × State cls :=
  match s.afind E .running id with
  | .error err => (.error err, s)
  | .ok queued =>
    match E.clock .running with
    | none => (.error .unavailable, s)
    | some now =>
      match s.writeClaimed E .running .queued (runningEntry now queued) with
      | (.error err, s) => (.error err, s)
      | (.ok true, s) => (.ok (some (runningEntry now queued)), s)
      | (.ok false, s) => (.ok none, s)

/-- `_record_claim_persistence_failure`. -/
def recordClaimPersistenceFailure (E : Calls) (id : EntryId) (s : State cls) : Except WorkerError Unit × State cls :=
  match s.afind E .inspect id with
  | .error _ => (.error .persistence, s)
  | .ok current =>
    if current.status = .running then
      match E.clock .failure with
      | none => (.error .persistence, s)
      | some now =>
        match s.writeClaimed E .failure .running (markedEntry (.failed persistenceError) now current) with
        | (.ok true, s) => (.ok (), s.announce (markedEntry (.failed persistenceError) now current))
        | (_, s) => (.error .persistence, s)
    else (.ok (), s)

/-- `_settle_terminal`. -/
def settleTerminal (E : Calls) (id : EntryId) (o : Outcome) (s : State cls) : Except WorkerError Unit × State cls :=
  match s.afind E .outcome id with
  | .error (.notFound _) => (.ok (), s)
  | .error _ => s.recordClaimPersistenceFailure E id
  | .ok current =>
    match E.clock .outcome with
    | none => s.recordClaimPersistenceFailure E id
    | some now =>
      match s.writeClaimed E .outcome .running (settledEntry o now current) with
      | (.error _, s) => s.recordClaimPersistenceFailure E id
      | (.ok false, s) => (.ok (), s)
      | (.ok true, s) => (.ok (), s.announce (settledEntry o now current))

end State

/-! ## Dispatch -/

/-- How the handler ends, when nobody cancels the worker. -/
inductive HandlerEnd where
  | returned (result : Json)
  /-- With a value that `json.dumps` refuses by a `TypeError` or `ValueError`. -/
  | notJson (error : Json)
  /-- With a value on which `json.dumps` raises another exception, such as `RecursionError`. -/
  | unserialisable
  /-- With any `Exception` of its task, its own `TimeoutError` included, or of the call that makes the task, but for a
  `TimeoutError` of that call. -/
  | raised (error : Json)
  /-- The call that makes the task raises a `TimeoutError`, and there is no task to wait for. -/
  | notStarted
  /-- With a `CancelledError` that the worker has not caused. -/
  | cancelled
  /-- With another `BaseException`. -/
  | exited
  /-- It outlives its budget. -/
  | expired

/-- The outcome that is recorded. -/
def HandlerEnd.outcome? : HandlerEnd → Option Outcome
  | .returned result => some (.succeeded result)
  | .notJson error => some (.failed error)
  | .raised error => some (.failed error)
  | .expired => some .timedOut
  | _ => none

/-- What leaves `_dispatch` where no outcome is recorded. Waiting again for a cancelled handler raises
`CancelledError` again, so `_finish_cancellation` records nothing. -/
def HandlerEnd.escape : HandlerEnd → WorkerError
  | .cancelled => .cancelled
  | .notStarted => .timeout
  | .unserialisable => .unserialisable
  | _ => .exited

inductive Lease where
  | none
  /-- A lease, and whether its renewal fails before the handler ends. -/
  | held (renewalLost : Bool)
deriving DecidableEq

namespace State

/-- The handler has ended and its outcome is recorded. -/
def finish (lease : Lease) (E : Calls) (h : HandlerEnd) (id : EntryId) (s : State cls) :
    Except WorkerError Unit × State cls :=
  match lease with
  | .held true =>
    match h with
    -- without a task there is nothing to renew a claim for
    | .notStarted => (.error h.escape, s)
    | _ => (.ok (), s)
  | .held false =>
    match h.outcome? with
    | some o => s.settleTerminal E id o
    | none => (.error h.escape, s)
  | .none =>
    match h.outcome? with
    | some o => s.publishTerminal E id o
    | none => (.error h.escape, s)

/-- `_dispatch` of the entry, which a scan may have published already. -/
def dispatch (lease : Lease) (observed : Bool) (E : Calls) (h : HandlerEnd) (entry : QueueEntry cls) (s : State cls) :
    Except WorkerError Unit × State cls :=
  let s := if observed then s else s.publish entry
  match lease with
  | .none =>
    match s.amarkRunning E entry.id with
    | (.error err, s) => (.error err, s)
    | (.ok e, s) => (s.publish e).finish lease E h entry.id
  | .held _ =>
    match s.markRunning E entry.id with
    | (.error err, s) => (.error err, s)
    | (.ok none, s) => (.ok (), s)
    | (.ok (some e), s) => (s.publish e).finish lease E h entry.id

end State

end DjangoQueues.Worker
