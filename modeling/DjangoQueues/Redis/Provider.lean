import DjangoQueues.Redis.Library

/-! The provider methods a Redis async queue calls, with the arguments they pass to the
Function library. The three queue classes differ in the functions they select: a stack
pops the other end of the pending list, a priority queue works on the priority set. -/

namespace DjangoQueues.Redis

inductive QueueKind where
  | fifo
  | stack
  | priority
deriving DecidableEq

namespace QueueKind

/-- The provider's `stack` flag; priority queues refuse the option. -/
def isStack : QueueKind → Bool
  | fifo => false
  | stack => true
  | priority => false

end QueueKind

/-- `_PRIORITY_SEQUENCE_SPACE`. -/
def prioritySequenceSpace : ℤ := 2 ^ 32

/-- `MAX_PRIORITY_MAGNITUDE`. -/
def maxPriorityMagnitude : ℤ := 100000

/-- `default_claim_lease_seconds`, in the microseconds passed to a script. -/
def defaultClaimLease : ℕ := 600 * 1000000

variable {cls : EntryClass}

/-- One provider call made by a queue or its worker. -/
inductive Call (cls : EntryClass) where
  | enqueue (e : QueueEntry cls) (availableAt : Option ClockTime)
  | storeAndDiscard (e : QueueEntry cls)
  | dequeue
  | claim (w : WorkerId) (lease : ℕ) (expireUnclaimed : Bool)
  | renew (w : WorkerId) (lease : ℕ) (id : EntryId)
  | release (w : WorkerId) (id : EntryId) (delay : ℕ)
  | remove (w : WorkerId) (id : EntryId)
  | ack (w : WorkerId) (id : EntryId)
  | markRunning (w : WorkerId) (e : QueueEntry cls)
  | settle (w : WorkerId) (e : QueueEntry cls)
  | recover (batch : ℕ)
  | prune (id : EntryId)
  | delete (id : EntryId)
  | pushPriority (id : EntryId) (priority : ℤ)
  | popPriority
  | discardPriority (id : EntryId)

inductive Reply where
  | done
  | refused
  | flag (b : Bool)
  | popped (id : Option EntryId)
  | claimed (r : Except ScriptError ClaimOutcome)
  | renewed (r : Except ScriptError Bool)
  | recovered (r : Except ScriptError (ℕ × ℕ))
  | pruned (r : Library.PruneOutcome)

/-- `validate_redis_priority_magnitude` passes. -/
def priorityAllowed (priority : ℤ) : Bool := |priority| ≤ maxPriorityMagnitude

/-- `_astore_and_push` of the queue class: a priority queue refuses priorities its score
cannot hold, before anything is written. -/
def astoreAndPush (kind : QueueKind) (e : QueueEntry cls) (availableAt : Option ClockTime)
    (t : ServerTime) (s : Store) : Reply × Store :=
  let base := e.priority * prioritySequenceSpace
  if e.status = .terminated then (.refused, s)
  else
    match kind with
    | .priority =>
      if priorityAllowed e.priority then
        match availableAt with
        | none => (.done, Library.storeAndPushPriority e.toDict e.id base s)
        | some a => (.done, Library.storeAvailable e.toDict e.id a.totalMicroseconds base true t s)
      else (.refused, s)
    | _ =>
      match availableAt with
      | none => (.done, Library.storeAndPush e.toDict e.id s)
      | some a => (.done, Library.storeAvailable e.toDict e.id a.totalMicroseconds base false t s)

def adequeue (kind : QueueKind) (t : ServerTime) (s : Store) : Option EntryId × Store :=
  match kind with
  | .priority => Library.dequeuePriority prioritySequenceSpace t s
  | k => Library.dequeue k.isStack t s

def aclaim (kind : QueueKind) (w : WorkerId) (lease : ℕ) (expireUnclaimed : Bool) (t : ServerTime)
    (s : Store) : Except ScriptError ClaimOutcome × Store :=
  match kind with
  | .priority => Library.claimPriority w lease false expireUnclaimed prioritySequenceSpace t s
  | k => Library.claim w lease k.isStack expireUnclaimed t s

/-- `arelease`; the priority variant validates the delay and ignores it. -/
def arelease (kind : QueueKind) (w : WorkerId) (id : EntryId) (delay : ℕ) (t : ServerTime)
    (s : Store) : Bool × Store :=
  match kind with
  | .priority => Library.releasePriority w id prioritySequenceSpace t s
  | _ => Library.release w id delay t s

def arecover (kind : QueueKind) (batch : ℕ) (t : ServerTime) (s : Store) :
    Except ScriptError (ℕ × ℕ) × Store :=
  match kind with
  | .priority => Library.recoverPriority batch prioritySequenceSpace t s
  | _ => Library.recover batch t s

def exec (kind : QueueKind) (c : Call cls) (t : ServerTime) (s : Store) : Reply × Store :=
  match c with
  | .enqueue e availableAt => astoreAndPush kind e availableAt t s
  | .storeAndDiscard e => (.done, Library.storeAndDiscard e.toDict e.id s)
  | .dequeue => let r := adequeue kind t s; (.popped r.1, r.2)
  | .claim w lease x => let r := aclaim kind w lease x t s; (.claimed r.1, r.2)
  | .renew w lease id => let r := Library.renew w lease id t s; (.renewed r.1, r.2)
  | .release w id delay => let r := arelease kind w id delay t s; (.flag r.1, r.2)
  | .remove w id => let r := Library.remove w id s; (.flag r.1, r.2)
  | .ack w id => let r := Library.ack w id s; (.flag r.1, r.2)
  | .markRunning w e => let r := Library.markRunning w e.id e.toDict s; (.flag r.1, r.2)
  | .settle w e => let r := Library.settle w e.id e.toDict s; (.flag r.1, r.2)
  | .recover batch => let r := arecover kind batch t s; (.recovered r.1, r.2)
  | .prune id => let r := Library.prune id s; (.pruned r.1, r.2)
  | .delete id => (.done, Library.delete id s)
  | .pushPriority id priority =>
    if priorityAllowed priority then
      (.done, Library.pushPriority (fl (priority * prioritySequenceSpace : ℤ)) id s)
    else (.refused, s)
  | .popPriority => let r := Library.popPriority s; (.popped r.1, r.2)
  | .discardPriority id => (.done, Library.discardPriority id s)

/-- `ahas_pending`: four lengths, no clock. -/
def ahasPending (s : Store) : Bool :=
  s.pending.length ≠ 0 ∨ s.delayed.card ≠ 0 ∨ s.scheduled.card ≠ 0 ∨ s.priority.card ≠ 0

/-- The store after a sequence of calls. -/
def execAll (kind : QueueKind) (cs : List (Call cls × ServerTime)) (s : Store) : Store :=
  cs.foldl (fun s c => (exec kind c.1 c.2 s).2) s

/-! ## Histories -/

/-- A call as an observer of the server sees it. -/
structure Event (cls : EntryClass) where
  call : Call cls
  time : ServerTime
  reply : Reply

structure Timed where
  store : Store
  now : ServerTime

def Timed.init (t : ServerTime) : Timed := ⟨.empty, t⟩

/-- The call is one the callers make in this state, and the clock does not go back. -/
structure Occurs (kind : QueueKind) (Ok : Store → Call cls → Prop) (g : Timed) (l : Event cls) (g' : Timed) :
    Prop where
  le : g.now ≤ l.time
  ok : Ok g.store l.call
  exec_eq : exec kind l.call l.time g.store = (l.reply, g'.store)
  now_eq : g'.now = l.time

theorem Occurs.of_exec {kind : QueueKind} {Ok : Store → Call cls → Prop} {g : Timed} {c : Call cls}
    {t : ServerTime} {r : Reply} (le : g.now ≤ t) (ok : Ok g.store c) (hr : (exec kind c t g.store).1 = r) :
    Occurs kind Ok g ⟨c, t, r⟩ ⟨(exec kind c t g.store).2, t⟩ :=
  ⟨le, ok, Prod.ext hr rfl, rfl⟩

end DjangoQueues.Redis
