import DjangoQueues.Entries
import DjangoQueues.Lib.Dict

/-! The in-process provider: dictionaries of entries, claims and instants beside a pending
queue and a priority queue. Every method runs under the provider's lock, so each is one
function on the state; an exception keeps what was written before it. Durations are whole
microseconds. -/

namespace DjangoQueues.Memory

/-- The worker identities of `_claims`. -/
abbrev WorkerId := String

inductive QueueError where
  | empty
  | notFound (id : EntryId)
  | claimConflict (id : EntryId)
  | expired (id : EntryId)
  /-- A built-in exception that escapes the method. -/
  | attributeError
deriving DecidableEq

structure State (cls : EntryClass) where
  entries : Dict EntryId (QueueEntry cls)
  /-- `_pending`, in the order of arrival. -/
  pending : List EntryId
  /-- The items of `_pending_priority`: negated priority, sequence and id. -/
  pendingPriority : List (ℤ × ℕ × EntryId)
  pendingPrioritySequence : ℕ
  claims : Dict EntryId WorkerId
  claimDeadlines : Dict EntryId ClockTime
  availableAt : Dict EntryId ClockTime
  scheduled : Dict EntryId ClockTime
  unclaimedDeadlines : Dict EntryId ClockTime
  unclaimedRemaining : Dict EntryId ℕ

namespace State

variable {cls : EntryClass}

def empty : State cls where
  entries := .empty
  pending := []
  pendingPriority := []
  pendingPrioritySequence := 0
  claims := .empty
  claimDeadlines := .empty
  availableAt := .empty
  scheduled := .empty
  unclaimedDeadlines := .empty
  unclaimedRemaining := .empty

/-! ## Records and the pending queue -/

def astore (e : QueueEntry cls) (s : State cls) : State cls := { s with entries := s.entries.set e.id e }

/-- `astore_event` of an entry with this lifetime. -/
def astoreEvent (e : QueueEntry cls) (lifetime : ℕ) (s : State cls) : State cls :=
  { s with
    entries := s.entries.set e.id e
    unclaimedDeadlines := s.unclaimedDeadlines.set e.id (e.queuedAt.add lifetime) }

def afind (id : EntryId) (s : State cls) : Except QueueError (QueueEntry cls) :=
  match s.entries.get? id with
  | none => .error (.notFound id)
  | some e => .ok e

/-- `_pending.put_nowait`. -/
def apush (id : EntryId) (s : State cls) : State cls := { s with pending := s.pending ++ [id] }

/-- `_pending.get_nowait`: the first id, or the last of a stack. -/
def getPending (stack : Bool) (s : State cls) : Option EntryId × State cls :=
  if stack then (s.pending.getLast?, { s with pending := s.pending.dropLast })
  else (s.pending.head?, { s with pending := s.pending.tail })

def removePending (id : EntryId) (s : State cls) : State cls := { s with pending := s.pending.erase id }

/-- `_requeue_skipped_pending`. A stack calls `appendleft` on the queue of a `LifoQueue`,
which is a list and has no such method. -/
def requeueSkippedPending (stack : Bool) (id : EntryId) (s : State cls) : Except QueueError (State cls) :=
  if stack then .error .attributeError else .ok (s.apush id)

def apop (stack : Bool) (s : State cls) : Except QueueError (QueueEntry cls) × State cls :=
  match s.getPending stack with
  | (none, s) => (.error .empty, s)
  | (some id, s) => (s.afind id, s)

def adiscard (id : EntryId) (s : State cls) : State cls := s.removePending id

/-! ## The priority queue -/

def apushPriority (id : EntryId) (priority : ℤ) (s : State cls) : State cls :=
  { s with
    pendingPrioritySequence := s.pendingPrioritySequence + 1
    pendingPriority := s.pendingPriority ++ [(-priority, s.pendingPrioritySequence + 1, id)] }

/-- Tuples compare by negated priority, then sequence, then id. -/
def itemLE (a b : ℤ × ℕ × EntryId) : Bool :=
  a.1 < b.1 ∨ a.1 = b.1 ∧ (a.2.1 < b.2.1 ∨ a.2.1 = b.2.1 ∧ a.2.2 ≤ b.2.2)

/-- The smallest item, which `get_nowait` of a priority queue returns. -/
def leastItem : List (ℤ × ℕ × EntryId) → Option (ℤ × ℕ × EntryId)
  | [] => none
  | a :: l =>
    match leastItem l with
    | none => some a
    | some b => if itemLE a b then some a else some b

theorem itemLE_trans {a b c : ℤ × ℕ × EntryId} (h : itemLE a b) (h' : itemLE b c) :
    itemLE a c := by
  obtain ⟨a₁, a₂, a₃⟩ := a
  obtain ⟨b₁, b₂, b₃⟩ := b
  obtain ⟨c₁, c₂, c₃⟩ := c
  simp only [itemLE, decide_eq_true_eq] at h h' ⊢
  rcases h with h | ⟨rfl, h | ⟨rfl, h⟩⟩ <;> rcases h' with h' | ⟨rfl, h' | ⟨rfl, h'⟩⟩
  all_goals
    first
    | exact .inl (by omega)
    | exact .inr ⟨rfl, .inl (by omega)⟩
    | exact .inr ⟨rfl, .inr ⟨rfl, h.trans h'⟩⟩

theorem itemLE_of_not {a b : ℤ × ℕ × EntryId} (h : ¬itemLE a b) : itemLE b a := by
  obtain ⟨a₁, a₂, a₃⟩ := a
  obtain ⟨b₁, b₂, b₃⟩ := b
  simp only [itemLE, decide_eq_true_eq, not_or, not_and, not_lt, not_le] at h ⊢
  rcases h.1.lt_or_eq with hlt | heq
  · exact .inl hlt
  · obtain ⟨h₂, h₃⟩ := h.2 heq.symm
    rcases h₂.lt_or_eq with hlt' | heq'
    · exact .inr ⟨heq, .inl hlt'⟩
    · exact .inr ⟨heq, .inr ⟨heq', (h₃ heq'.symm).le⟩⟩

theorem leastItem_eq_none {l : List (ℤ × ℕ × EntryId)} : leastItem l = none ↔ l = [] := by
  cases l with
  | nil => simp [leastItem]
  | cons a l =>
    simp only [leastItem, reduceCtorEq, iff_false]
    cases leastItem l with
    | none => simp
    | some b =>
      dsimp only
      split_ifs <;> simp

theorem leastItem_le {l : List (ℤ × ℕ × EntryId)} {a : ℤ × ℕ × EntryId} (h : leastItem l = some a) :
    a ∈ l ∧ ∀ b ∈ l, itemLE a b := by
  have hrefl (x : ℤ × ℕ × EntryId) : itemLE x x := by simp [itemLE]
  induction l generalizing a with
  | nil => cases h
  | cons x l ih =>
    unfold leastItem at h
    cases hl : leastItem l with
    | none =>
      rw [hl] at h
      obtain rfl := Option.some.inj h
      rw [leastItem_eq_none.mp hl]
      simp [hrefl]
    | some y =>
      obtain ⟨hy, hmin⟩ := ih hl
      rw [hl] at h
      dsimp only at h
      split_ifs at h with hle
      · obtain rfl := Option.some.inj h
        refine ⟨List.mem_cons_self .., fun b hb => ?_⟩
        rcases List.mem_cons.mp hb with rfl | hb
        · exact hrefl b
        · exact itemLE_trans hle (hmin b hb)
      · obtain rfl := Option.some.inj h
        refine ⟨List.mem_cons_of_mem _ hy, fun b hb => ?_⟩
        rcases List.mem_cons.mp hb with rfl | hb
        · exact itemLE_of_not hle
        · exact hmin b hb

def apopPriority (s : State cls) : Except QueueError (QueueEntry cls) × State cls :=
  match leastItem s.pendingPriority with
  | none => (.error .empty, s)
  | some item => (s.afind item.2.2, { s with pendingPriority := s.pendingPriority.erase item })

def adiscardPriority (id : EntryId) (s : State cls) : State cls :=
  { s with pendingPriority := s.pendingPriority.filter (·.2.2 ≠ id) }

/-! ## Scheduled entries -/

def aschedule (id : EntryId) (availableAt : ClockTime) (s : State cls) : State cls :=
  { s with scheduled := s.scheduled.set id availableAt }

def adiscardScheduled (id : EntryId) (s : State cls) : State cls :=
  { s with scheduled := s.scheduled.erase id }

def isQueued (s : State cls) (id : EntryId) : Bool :=
  (s.entries.get? id).any fun e => e.status = .queued

/-- The due entries of the earliest instant, in the order they were scheduled. -/
def candidates (now : ClockTime) (s : State cls) : List EntryId :=
  let due := s.scheduled.items.filter (·.2 ≤ now)
  match (due.map Prod.snd).min? with
  | none => []
  | some earliest => (due.filter (·.2 = earliest)).map Prod.fst

def priorityOf (s : State cls) (id : EntryId) : ℤ := ((s.entries.get? id).map (·.priority)).getD 0

/-- `max(ids, key=priority)`: the first of the greatest. -/
def greatest (s : State cls) : List EntryId → Option EntryId
  | [] => none
  | id :: ids => some (ids.foldl (fun best id => if s.priorityOf best < s.priorityOf id then id else best) id)

/-- The loop of `_pop_next_due_scheduled`. Every pass but the last drops a scheduled entry. -/
def popNextDueScheduledLoop (priority : Bool) (now : ClockTime) :
    ℕ → State cls → Option EntryId × State cls
  | 0, s => (none, s)
  | n + 1, s =>
    if s.candidates now = [] then (none, s)
    else
      let queued := (s.candidates now).filter s.isQueued
      let dropped := ((s.candidates now).filter (! s.isQueued ·)).foldl (fun s id => s.adiscardScheduled id) s
      match if priority then s.greatest queued else queued.head? with
      | none => popNextDueScheduledLoop priority now n dropped
      | some id => (some id, dropped.adiscardScheduled id)

def popNextDueScheduled (priority : Bool) (now : ClockTime) (s : State cls) :
    Option EntryId × State cls :=
  popNextDueScheduledLoop priority now (s.scheduled.items.length + 1) s

def apromoteScheduled (now : ClockTime) (s : State cls) : State cls :=
  match s.popNextDueScheduled false now with
  | (none, s) => s
  | (some id, s) => s.apush id

def apromoteScheduledPriority (now : ClockTime) (s : State cls) : State cls :=
  match s.popNextDueScheduled true now with
  | (none, s) => s
  | (some id, s) => s.apushPriority id (s.priorityOf id)

def ahasPending (s : State cls) : Bool :=
  s.pending ≠ [] ∨ s.pendingPriority ≠ [] ∨ s.scheduled.items ≠ []

/-! ## Claims -/

/-- One id of `_recover_expired_claims`. -/
def recoverClaim (now : ClockTime) (id : EntryId) (s : State cls) : State cls :=
  let s := { s with claims := s.claims.erase id, claimDeadlines := s.claimDeadlines.erase id }
  if (s.entries.get? id).isNone then s
  else
    match s.unclaimedRemaining.get? id with
    | none => s.apush id
    | some remaining =>
      apush id { s with
        unclaimedRemaining := s.unclaimedRemaining.erase id
        unclaimedDeadlines := s.unclaimedDeadlines.set id (now.add remaining) }

def recoverExpiredClaims (now : ClockTime) (s : State cls) : State cls :=
  ((s.claimDeadlines.items.filter (·.2 ≤ now)).map Prod.fst).foldl (fun s id => s.recoverClaim now id) s

def deleteEvent (id : EntryId) (s : State cls) : State cls :=
  removePending id { s with
    entries := s.entries.erase id
    availableAt := s.availableAt.erase id
    unclaimedDeadlines := s.unclaimedDeadlines.erase id
    unclaimedRemaining := s.unclaimedRemaining.erase id }

/-- The id is not yet due for redelivery. -/
def isDelayed (now : ClockTime) (s : State cls) (id : EntryId) : Bool :=
  (s.availableAt.get? id).any fun a => now < a

/-- The loop of `adequeue`, over the ids pending when it starts. -/
def adequeueLoop (stack : Bool) (now : ClockTime) :
    ℕ → State cls → Except QueueError (QueueEntry cls) × State cls
  | 0, s => (.error .empty, s)
  | n + 1, s =>
    match s.getPending stack with
    | (none, s) => (.error .empty, s)
    | (some id, s) =>
      if s.isDelayed now id ∨ (s.claims.get? id).isSome then
        match s.requeueSkippedPending stack id with
        | .error e => (.error e, s)
        | .ok s => adequeueLoop stack now n s
      else
        match s.entries.get? id, s.unclaimedDeadlines.get? id with
        | some e, some deadline =>
          if deadline ≤ now then adequeueLoop stack now n (s.deleteEvent id)
          else (.ok e, s.deleteEvent id)
        | _, _ => adequeueLoop stack now n (s.deleteEvent id)

def adequeue (stack : Bool) (now : ClockTime) (s : State cls) :
    Except QueueError (QueueEntry cls) × State cls :=
  let s := s.recoverExpiredClaims now
  adequeueLoop stack now s.pending.length s

/-- What `_aclaim` writes for the entry it takes. -/
def takeClaim (w : WorkerId) (lease : Option ℕ) (now : ClockTime) (id : EntryId) (s : State cls) :
    State cls :=
  { s with
    availableAt := s.availableAt.erase id
    claims := s.claims.set id w
    claimDeadlines := match lease with
      | none => s.claimDeadlines
      | some l => s.claimDeadlines.set id (now.add l) }

/-- The loop of `_aclaim`, over the ids pending when it starts. -/
def aclaimLoop (stack : Bool) (w : WorkerId) (lease : Option ℕ) (expireUnclaimed : Bool)
    (now : ClockTime) : ℕ → State cls → Except QueueError (QueueEntry cls) × State cls
  | 0, s => (.error .empty, s)
  | n + 1, s =>
    match s.getPending stack with
    | (none, s) => (.error .empty, s)
    | (some id, s) =>
      if s.isDelayed now id then
        match s.requeueSkippedPending stack id with
        | .error e => (.error e, s)
        | .ok s => aclaimLoop stack w lease expireUnclaimed now n s
      else if (s.claims.get? id).isSome then
        match s.requeueSkippedPending stack id with
        | .error e => (.error e, s)
        | .ok s => (.error (.claimConflict id), s)
      else
        match s.entries.get? id with
        | none => (.error (.notFound id), s)
        | some e =>
          if expireUnclaimed then
            match s.unclaimedDeadlines.get? id with
            | none => (.error (.expired id), s)
            | some deadline =>
              if deadline ≤ now then
                (.error (.expired id), { s with
                  entries := s.entries.erase id
                  availableAt := s.availableAt.erase id
                  unclaimedDeadlines := s.unclaimedDeadlines.erase id })
              else
                (.ok e, takeClaim w lease now id { s with
                  unclaimedDeadlines := s.unclaimedDeadlines.erase id
                  unclaimedRemaining := s.unclaimedRemaining.set id (deadline.sub now) })
          else (.ok e, takeClaim w lease now id s)

/-- `_aclaim`, which reads the clock once for itself and once more to promote. -/
def aclaim (stack : Bool) (w : WorkerId) (lease : Option ℕ) (expireUnclaimed : Bool)
    (now promoted : ClockTime) (s : State cls) : Except QueueError (QueueEntry cls) × State cls :=
  let s := (s.apromoteScheduled promoted).recoverExpiredClaims now
  aclaimLoop stack w lease expireUnclaimed now s.pending.length s

def arenew (w : WorkerId) (lease : ℕ) (id : EntryId) (now : ClockTime) (s : State cls) :
    Bool × State cls :=
  let s := s.recoverExpiredClaims now
  if s.claims.get? id = some w then
    (true, { s with claimDeadlines := s.claimDeadlines.set id (now.add lease) })
  else (false, s)

def arelease (w : WorkerId) (id : EntryId) (delay : ℕ) (now : ClockTime) (s : State cls) :
    Bool × State cls :=
  if s.claims.get? id = some w then
    let s := { s with claims := s.claims.erase id, claimDeadlines := s.claimDeadlines.erase id }
    let s := match s.unclaimedRemaining.get? id with
      | none => s
      | some remaining =>
        { s with
          unclaimedRemaining := s.unclaimedRemaining.erase id
          unclaimedDeadlines := s.unclaimedDeadlines.set id (now.add remaining) }
    (true, apush id { s with availableAt := s.availableAt.set id (now.add delay) })
  else (false, s)

def aremove (w : WorkerId) (id : EntryId) (s : State cls) : Bool × State cls :=
  if s.claims.get? id = some w then
    (true, removePending id { s with
      entries := s.entries.erase id
      claims := s.claims.erase id
      claimDeadlines := s.claimDeadlines.erase id
      availableAt := s.availableAt.erase id
      unclaimedDeadlines := s.unclaimedDeadlines.erase id
      unclaimedRemaining := s.unclaimedRemaining.erase id })
  else (false, s)

def aexpireDue (now : ClockTime) (s : State cls) : List EntryId × State cls :=
  let ids := (s.unclaimedDeadlines.items.filter fun p => p.2 ≤ now ∧ (s.claims.get? p.1).isNone).map Prod.fst
  (ids, ids.foldl (fun s id => s.deleteEvent id) s)

end State

end DjangoQueues.Memory
