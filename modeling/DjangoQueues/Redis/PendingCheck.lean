import DjangoQueues.Redis.Recovery
import DjangoQueues.Redis.Workers

/-! The check with which `runqueues` decides whether to start a worker. It counts the ids that
wait, so an entry whose claim has run out is invisible to it until some worker recovers it. -/

namespace DjangoQueues.Redis

variable {cls : EntryClass} {kind : QueueKind} {s : Store} {t : ServerTime} {batch : ℕ}

/-- The claims of the batch that have run out can all be given back. -/
def Restorable (batch : ℕ) (t : ServerTime) (s : Store) : Prop :=
  ∀ id ∈ Library.dueClaims batch t.nowUs s, ∀ raw, Library.Expired s t.nowUs id raw →
    (Cjson.encode (Library.resetEntry (Cjson.table raw))).isSome

namespace Library

end Library

namespace Library

variable {redeliver : Lua → EntryId → Store → Store} {now : ℚ}

end Library

end DjangoQueues.Redis
