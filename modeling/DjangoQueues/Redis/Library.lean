import DjangoQueues.Redis.Store

/-! The Redis Function library, function by function. Each script runs atomically on
the store; a script error keeps the writes made before it. -/

namespace DjangoQueues.Redis

/-- The one error a modelled script can raise: `cjson.encode` of an infinity or a NaN. -/
inductive ScriptError where
  | cannotSerialise
deriving DecidableEq

inductive ClaimOutcome where
  | empty
  | claimed (id : EntryId)
  | conflict (id : EntryId)
  | expired (id : EntryId)
deriving DecidableEq

namespace Library

/-! ## Local functions -/

def pushPriority (base : ℚ) (id : EntryId) (s : Store) : Store :=
  let sequence := s.sequence.getD 0 + 1
  { s with sequence := some sequence, priority := s.priority.add id (fl (base - fl sequence)) }

/-- `LPOP` or, for a stack, `RPOP` of the pending list. -/
def popPending (stack : Bool) (s : Store) : Option EntryId × Store :=
  if stack then (s.pending.getLast?, { s with pending := s.pending.dropLast })
  else (s.pending.head?, { s with pending := s.pending.tail })

/-- Put a popped id back on the end it came from. -/
def unpopPending (stack : Bool) (id : EntryId) (s : Store) : Store :=
  { s with pending := if stack then s.pending ++ [id] else id :: s.pending }

/-- `if ZCARD == 0 then SET sequence 0 XX`. -/
def resetSequence (s : Store) : Store :=
  if s.priority.card = 0 then { s with sequence := s.sequence.map fun _ => 0 } else s

def discardPriority (id : EntryId) (s : Store) : Store :=
  resetSequence { s with priority := s.priority.rem id }

def popPriority (s : Store) : Option EntryId × Store :=
  match s.priority.top? with
  | none => (none, s)
  | some (_, id) => (some id, discardPriority id s)

/-- The loop of `promote_one_scheduled` over one availability group. -/
def promoteFirstQueued : List EntryId → Store → Store
  | [], s => s
  | id :: ids, s =>
    if statusText (s.records.get? id) = some "queued" then
      { s with pending := s.pending ++ [id], scheduled := s.scheduled.rem id }
    else promoteFirstQueued ids { s with scheduled := s.scheduled.rem id }

def promoteOneScheduled (now : ℚ) (s : Store) : Store :=
  match (s.scheduled.upTo now).head? with
  | none => s
  | some (score, _) => promoteFirstQueued (s.scheduled.withScore score) s

/-- The loop of `promote_one_scheduled_priority`: members that are not queued are dropped,
the first of greatest priority is selected. -/
def selectScheduled : List EntryId → Option (EntryId × ℚ) → Store → Option (EntryId × ℚ) × Store
  | [], selected, s => (selected, s)
  | id :: ids, selected, s =>
    if statusText (s.records.get? id) = some "queued" then
      let priority := recordPriority (s.records.get? id)
      match selected with
      | none => selectScheduled ids (some (id, priority)) s
      | some (sid, sp) =>
        if sp < priority then selectScheduled ids (some (id, priority)) s
        else selectScheduled ids (some (sid, sp)) s
    else selectScheduled ids selected { s with scheduled := s.scheduled.rem id }

def promoteOneScheduledPriority (space : ℚ) (now : ℚ) (s : Store) : Store :=
  match (s.scheduled.upTo now).head? with
  | none => s
  | some (score, _) =>
    match selectScheduled (s.scheduled.withScore score) none s with
    | (none, s') => s'
    | (some (id, priority), s') =>
      let pushed := pushPriority (fl (priority * space)) id s'
      { pushed with scheduled := pushed.scheduled.rem id }

/-- Due delayed ids join the pending list, at its head when `left`. -/
def deliverDelayed (left : Bool) : List EntryId → Store → Store
  | [], s => s
  | id :: ids, s =>
    deliverDelayed left ids
      { s with
        pending := if left then id :: s.pending else s.pending ++ [id]
        delayed := s.delayed.rem id }

def deliverDueDelayed (left : Bool) (now : ℚ) (s : Store) : Store :=
  deliverDelayed left ((s.delayed.upTo now).map Prod.snd) s

/-! ## Enqueue and direct dequeue -/

def storeAndPush (raw : Json) (id : EntryId) (s : Store) : Store :=
  { s with records := s.records.set id raw, pending := s.pending ++ [id] }

def storeAndPushPriority (raw : Json) (id : EntryId) (base : ℤ) (s : Store) : Store :=
  pushPriority (fl base) id { s with records := s.records.set id raw }

def storeAvailable (raw : Json) (id : EntryId) (available : ℕ) (base : ℤ) (priority : Bool)
    (t : ServerTime) (s : Store) : Store :=
  let s := { s with records := s.records.set id raw }
  if t.nowUs < fl available then { s with scheduled := s.scheduled.add id (fl available) }
  else if priority then pushPriority (fl base) id s
  else { s with pending := s.pending ++ [id] }

def storeAndDiscard (raw : Json) (id : EntryId) (s : Store) : Store :=
  resetSequence
    { s with
      records := s.records.set id raw
      pending := s.pending.filter (· ≠ id)
      priority := s.priority.rem id
      scheduled := s.scheduled.rem id }

def dequeue (stack : Bool) (t : ServerTime) (s : Store) : Option EntryId × Store :=
  popPending stack (promoteOneScheduled t.nowUs s)

def dequeuePriority (space : ℚ) (t : ServerTime) (s : Store) : Option EntryId × Store :=
  popPriority (promoteOneScheduledPriority space t.nowUs s)

def storeEventAndPush (raw : Json) (id : EntryId) (deadline : ℤ) (s : Store) : Store :=
  { s with
    records := s.records.set id raw
    unclaimed := s.unclaimed.add id (fl deadline)
    pending := s.pending ++ [id] }

/-- Drop an event from every structure `django_queue_dequeue_event` cleans. -/
def dropEvent (id : EntryId) (s : Store) : Store :=
  { s with
    records := s.records.erase id
    delayed := s.delayed.rem id
    leases := s.leases.rem id
    unclaimed := s.unclaimed.rem id
    pending := s.pending.filter (· ≠ id) }

/-- The loop of `django_queue_dequeue_event`, at most as often as there were pending ids. -/
def dequeueEventLoop (stack : Bool) (now : ℚ) : ℕ → Store → Option Json × Store
  | 0, s => (none, s)
  | n + 1, s =>
    match popPending stack s with
    | (none, s') => (none, s')
    | (some id, s') =>
      if (s'.claims.get? id).isSome then
        dequeueEventLoop stack now n
          { s' with pending := if stack then id :: s'.pending else s'.pending ++ [id] }
      else
        match s'.records.get? id, s'.unclaimed.score? id with
        | some raw, some deadline =>
          if now < deadline then (some raw, dropEvent id s')
          else dequeueEventLoop stack now n (dropEvent id s')
        | _, _ => dequeueEventLoop stack now n (dropEvent id s')

def dequeueEvent (stack : Bool) (t : ServerTime) (s : Store) : Option Json × Store :=
  let s := deliverDueDelayed false t.nowUs s
  dequeueEventLoop stack t.nowUs s.pending.length s

/-! ## Operations of a claim's owner -/

def renew (w : WorkerId) (lease : ℕ) (id : EntryId) (t : ServerTime) (s : Store) :
    Except ScriptError Bool × Store :=
  match s.ownClaim? id w with
  | none => (.ok false, s)
  | some claim =>
    match tonumber (claim.field? "lease_deadline") with
    | none => (.ok false, s)
    | some current =>
      if current ≤ t.nowUs then (.ok false, s)
      else
        let deadline := fl (t.nowUs + fl lease)
        match Cjson.encode (claim.setField "lease_deadline" (.num (.ofRat deadline))) with
        | none => (.error .cannotSerialise, s)
        | some raw =>
          (.ok true, { s with claims := s.claims.set id raw, leases := s.leases.add id deadline })

/-- `ZADD unclaimed` of the lifetime a claim still carries. -/
def restoreUnclaimed (claim : Option Lua) (id : EntryId) (now : ℚ) (s : Store) : Store :=
  match tonumber (claim.bind fun c => c.field? "unclaimed_remaining_us") with
  | none => s
  | some remaining => { s with unclaimed := s.unclaimed.add id (fl (now + remaining)) }

def dropClaim (id : EntryId) (s : Store) : Store :=
  { s with claims := s.claims.erase id, leases := s.leases.rem id }

def release (w : WorkerId) (id : EntryId) (delay : ℕ) (t : ServerTime) (s : Store) : Bool × Store :=
  match s.ownClaim? id w with
  | none => (false, s)
  | some claim =>
    let s := dropClaim id s
    (true, restoreUnclaimed (some claim) id t.nowUs
      { s with delayed := s.delayed.add id (fl (t.nowUs + fl delay)) })

def releasePriority (w : WorkerId) (id : EntryId) (space : ℚ) (t : ServerTime) (s : Store) :
    Bool × Store :=
  match s.ownClaim? id w with
  | none => (false, s)
  | some claim =>
    let priority := recordPriority (s.records.get? id)
    (true, restoreUnclaimed (some claim) id t.nowUs
      (pushPriority (fl (priority * space)) id (dropClaim id s)))

def remove (w : WorkerId) (id : EntryId) (s : Store) : Bool × Store :=
  match s.ownClaim? id w with
  | none => (false, s)
  | some _ =>
    let s' := dropClaim id s
    ((s.records.get? id).isSome,
      { s' with
        delayed := s'.delayed.rem id
        pending := s'.pending.filter (· ≠ id)
        unclaimed := s'.unclaimed.rem id
        records := s'.records.erase id })

def ack (w : WorkerId) (id : EntryId) (s : Store) : Bool × Store :=
  match s.ownClaim? id w with
  | none => (false, s)
  | some _ => (true, dropClaim id s)

def markRunning (w : WorkerId) (id : EntryId) (raw : Json) (s : Store) : Bool × Store :=
  match s.ownClaim? id w with
  | none => (false, s)
  | some _ =>
    if statusText (s.records.get? id) = some "queued" then
      (true, { s with records := s.records.set id raw })
    else (false, s)

def settle (w : WorkerId) (id : EntryId) (raw : Json) (s : Store) : Bool × Store :=
  match s.ownClaim? id w with
  | none => (false, s)
  | some _ =>
    if statusText (s.records.get? id) = some "running" then
      (true, dropClaim id { s with records := s.records.set id raw })
    else (false, s)

/-! ## Expiry, pruning and deletion -/

def expire (id : EntryId) (t : ServerTime) (s : Store) : Bool × Store :=
  if (s.claims.get? id).isSome then (false, s)
  else
    match s.unclaimed.score? id with
    | none => (false, s)
    | some deadline =>
      if t.nowUs < deadline then (false, s)
      else if (s.records.get? id).isNone then (false, s)
      else (true, dropEvent id s)

/-- Statuses `django_queue_prune` accepts. -/
def prunable (status : Option String) : Bool :=
  status ∈ [some "succeeded", some "failed", some "cancelled", some "timeout"]

inductive PruneOutcome where
  | missing
  | nonTerminal
  | pruned (raw : Json)

def prune (id : EntryId) (s : Store) : PruneOutcome × Store :=
  match s.records.get? id with
  | none => (.missing, s)
  | some raw =>
    match Cjson.decode raw with
    | some (.obj _) | some (.arr _) =>
      if prunable (statusText (some raw)) then
        (.pruned raw, { s with pending := s.pending.filter (· ≠ id), records := s.records.erase id })
      else (.nonTerminal, s)
    | _ => (.missing, s)

def delete (id : EntryId) (s : Store) : Store :=
  resetSequence
    { s with
      records := s.records.erase id
      pending := s.pending.filter (· ≠ id)
      delayed := s.delayed.rem id
      leases := s.leases.rem id
      unclaimed := s.unclaimed.rem id
      claims := s.claims.erase id
      priority := s.priority.rem id
      scheduled := s.scheduled.rem id }

/-! ## Recovery -/

/-- The fields recovery resets before it writes a record back. -/
def resetEntry (entry : Lua) : Lua :=
  ((((entry.setField "status" (.str "queued")).setField "dispatched_at" .null).setField
    "finished_at" .null).setField "result" .null).setField "error" .null

inductive Recovered where
  | recovered
  | discarded
  | kept
deriving DecidableEq

/-- One iteration of the recovery loop. The claim of a record that is gone, that `cjson.decode` refuses or that is
neither queued nor running is dropped with nothing delivered; `redeliver` is the only part in which
`django_queue_recover` and `django_queue_recover_priority` differ. -/
def recoverOne (redeliver : Lua → EntryId → Store → Store) (now : ℚ) (id : EntryId) (s : Store) :
    Except ScriptError Recovered × Store :=
  let claim := (s.claims.get? id).bind Cjson.decode
  match tonumber (claim.bind fun c => c.field? "lease_deadline") with
  | some deadline =>
    if now < deadline then (.ok .kept, { s with leases := s.leases.add id deadline })
    else recoverExpired claim
  | none => recoverExpired claim
where
  recoverExpired (claim : Option Lua) : Except ScriptError Recovered × Store :=
    match (s.records.get? id).bind Cjson.decode with
    | none => (.ok .discarded, dropClaim id s)
    | some entry =>
      if statusField entry = some "queued" ∨ statusField entry = some "running" then
        let entry := resetEntry entry
        match Cjson.encode entry with
        | none => (.error .cannotSerialise, s)
        | some raw =>
          let s := restoreUnclaimed claim id now { s with records := s.records.set id raw }
          (.ok .recovered, dropClaim id (redeliver entry id s))
      else (.ok .discarded, dropClaim id s)

/-- The loop over the due ids with its two counters; an error ends the script where it is. -/
def recoverLoop (redeliver : Lua → EntryId → Store → Store) (now : ℚ) :
    List EntryId → ℕ → ℕ → Store → Except ScriptError (ℕ × ℕ) × Store
  | [], recovered, discarded, s => (.ok (recovered, discarded), s)
  | id :: ids, recovered, discarded, s =>
    match recoverOne redeliver now id s with
    | (.error e, s') => (.error e, s')
    | (.ok .recovered, s') => recoverLoop redeliver now ids (recovered + 1) discarded s'
    | (.ok .discarded, s') => recoverLoop redeliver now ids recovered (discarded + 1) s'
    | (.ok .kept, s') => recoverLoop redeliver now ids recovered discarded s'

/-- `ZRANGEBYSCORE claim-leases -inf now LIMIT 0 batch`. -/
def dueClaims (batch : ℕ) (now : ℚ) (s : Store) : List EntryId :=
  ((s.leases.upTo now).take batch).map Prod.snd

def redeliverPending (_ : Lua) (id : EntryId) (s : Store) : Store :=
  { s with pending := s.pending ++ [id] }

def redeliverPriority (space : ℚ) (entry : Lua) (id : EntryId) (s : Store) : Store :=
  pushPriority (fl ((tonumber (entry.field? "priority")).getD 0 * space)) id s

def recover (batch : ℕ) (t : ServerTime) (s : Store) : Except ScriptError (ℕ × ℕ) × Store :=
  recoverLoop redeliverPending t.nowUs (dueClaims batch t.nowUs s) 0 0 s

def recoverPriority (batch : ℕ) (space : ℚ) (t : ServerTime) (s : Store) :
    Except ScriptError (ℕ × ℕ) × Store :=
  recoverLoop (redeliverPriority space) t.nowUs (dueClaims batch t.nowUs s) 0 0 s

/-! ## Claims -/

/-- The claim table a script encodes. -/
def claimTable (w : WorkerId) (t : ServerTime) (deadline : ℚ) (remaining : Option ℚ) : Lua :=
  .obj (("worker_id", .str w) ::
    ("claimed_at", .obj [("seconds", .num (.ofRat t.seconds)), ("microseconds", .num (.ofRat t.microseconds))]) ::
    ("lease_deadline", .num (.ofRat deadline)) ::
    match remaining with
    | none => []
    | some r => [("unclaimed_remaining_us", .num (.ofRat r))])

/-- The part both claim functions share once an id is popped. The last three arguments
are what they do apart from each other after an expiry, a claim and a conflict. -/
def claimPopped (w : WorkerId) (lease : ℕ) (expireUnclaimed : Bool) (t : ServerTime) (id : EntryId)
    (afterExpired afterClaimed afterConflict : Store → Store) (s : Store) :
    Except ScriptError ClaimOutcome × Store :=
  if expireUnclaimed then
    match s.unclaimed.score? id with
    | none => expired
    | some expiry =>
      if expiry ≤ t.nowUs then expired
      else take (some (fl (expiry - t.nowUs))) { s with unclaimed := s.unclaimed.rem id }
  else take none s
where
  expired : Except ScriptError ClaimOutcome × Store :=
    (.ok (.expired id), afterExpired
      { s with
        records := s.records.erase id
        delayed := s.delayed.rem id
        leases := s.leases.rem id
        unclaimed := s.unclaimed.rem id })
  take (remaining : Option ℚ) (s : Store) : Except ScriptError ClaimOutcome × Store :=
    let deadline := fl (t.nowUs + fl lease)
    match Cjson.encode (claimTable w t deadline remaining) with
    | none => (.error .cannotSerialise, s)
    | some raw =>
      if (s.claims.get? id).isNone then
        (.ok (.claimed id), afterClaimed
          { s with claims := s.claims.set id raw, leases := s.leases.add id deadline })
      else (.ok (.conflict id), afterConflict s)

def claim (w : WorkerId) (lease : ℕ) (stack expireUnclaimed : Bool) (t : ServerTime) (s : Store) :
    Except ScriptError ClaimOutcome × Store :=
  let s := deliverDueDelayed false t.nowUs (promoteOneScheduled t.nowUs s)
  match popPending stack s with
  | (none, s) => (.ok .empty, s)
  | (some id, s) => claimPopped w lease expireUnclaimed t id (fun s => s) (fun s => s) (unpopPending stack id) s

def claimPriority (w : WorkerId) (lease : ℕ) (stack expireUnclaimed : Bool) (space : ℚ)
    (t : ServerTime) (s : Store) : Except ScriptError ClaimOutcome × Store :=
  let s := deliverDueDelayed stack t.nowUs (promoteOneScheduledPriority space t.nowUs s)
  match popPending stack s with
  | (some id, s) => claimPopped w lease expireUnclaimed t id (fun s => s) (fun s => s) (unpopPending stack id) s
  | (none, s) =>
    match s.priority.top? with
    | none => (.ok .empty, s)
    | some (score, id) =>
      claimPopped w lease expireUnclaimed t id resetSequence resetSequence
        (fun s => { s with priority := s.priority.add id score })
        { s with priority := s.priority.rem id }

end Library

end DjangoQueues.Redis
