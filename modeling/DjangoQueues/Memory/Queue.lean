import DjangoQueues.Memory.Provider
import DjangoQueues.Redis.Provider

/-! The tracked path of the in-process queues: `AsyncQueue` over the memory provider, where
the priority queue selects the methods of the priority store. -/

namespace DjangoQueues.Memory

open Redis (QueueKind)

variable {cls : EntryClass}

namespace Queue

/-- `_apush`. -/
def apush (kind : QueueKind) (e : QueueEntry cls) (s : State cls) : State cls :=
  match kind with
  | .priority => s.apushPriority e.id e.priority
  | _ => s.apush e.id

def astoreAndPush (kind : QueueKind) (e : QueueEntry cls) (availableAt : Option ClockTime)
    (now : ClockTime) (s : State cls) : State cls :=
  let s := s.astore e
  match availableAt with
  | none => apush kind e s
  | some a => if now < a then s.aschedule e.id a else apush kind e s

/-- `adequeue`, which promotes one scheduled entry and pops. -/
def adequeue (kind : QueueKind) (now : ClockTime) (s : State cls) :
    Except QueueError (QueueEntry cls) × State cls :=
  match kind with
  | .priority => (s.apromoteScheduledPriority now).apopPriority
  | k => (s.apromoteScheduled now).apop k.isStack

def adiscard (kind : QueueKind) (id : EntryId) (s : State cls) : State cls :=
  match kind with
  | .priority => (s.adiscardPriority id).adiscardScheduled id
  | _ => (s.adiscard id).adiscardScheduled id

/-- `_astore_and_discard`. -/
def astoreAndDiscard (kind : QueueKind) (e : QueueEntry cls) (s : State cls) : State cls :=
  adiscard kind e.id (s.astore e)

end Queue

end DjangoQueues.Memory
