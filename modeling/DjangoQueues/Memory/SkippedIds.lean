import DjangoQueues.Lib.PopOrder
import DjangoQueues.Promotion

/-! Ids that `aclaim` and `adequeue` pass over. A FIFO queue takes a skipped id back at its tail; a
stack calls a method that the list inside a `LifoQueue` does not have, and the id is lost. -/

namespace DjangoQueues.Memory

variable {cls : EntryClass}

/-- The id that a claim call has taken off the pending queue. -/
def takenBy : Except QueueError (QueueEntry cls) → Option EntryId
  | .ok e => some e.id
  | .error (.expired id) => some id
  | .error _ => none

/-- A claim call leaves every pending id but the one it takes. -/
def KeptByClaim (s : State cls) (result : Except QueueError (QueueEntry cls) × State cls) : Prop :=
  ∀ e, result.2.pending.count e + (if takenBy result.1 = some e then 1 else 0) = s.pending.count e

/-- A skipped id goes back to the pending queue, where it is not popped before what is there. -/
def PlacedBehind (cls : EntryClass) (stack : Bool) : Prop :=
  ∀ (q : State cls) (id : EntryId), ∃ q', q.requeueSkippedPending stack id = .ok q' ∧
    (∀ e, q'.pending.count e = q.pending.count e + if e = id then 1 else 0) ∧
    (q.pending ≠ [] → (q'.getPending stack).1 = (q.getPending stack).1)

/-- Every record is kept under its own id, and every pending id has one. -/
structure Recorded (s : State cls) : Prop where
  keyed : Keyed s
  pending : ∀ id ∈ s.pending, (s.entries.get? id).isSome

namespace State

/-- Delayed or claimed. -/
def skipped (now : ClockTime) (s : State cls) (id : EntryId) : Bool := s.isDelayed now id || (s.claims.get? id).isSome

/-- With a record and a deadline that has not come. -/
def liveEvent (now : ClockTime) (s : State cls) (id : EntryId) : Bool :=
  (s.entries.get? id).isSome && (s.unclaimedDeadlines.get? id).any (now < ·)

/-- The first id that a claim call pops is one to skip. -/
def ClaimSkips (stack : Bool) (now : ClockTime) (s : State cls) : Prop :=
  ∃ id, (popOrder stack s.pending).head? = some id ∧ s.skipped now id = true

/-- An id to skip is popped before a live event. -/
def DequeueSkips (stack : Bool) (now : ClockTime) (s : State cls) : Prop :=
  ∃ id, (popOrder stack s.pending).find? (fun e => s.liveEvent now e || s.skipped now e) = some id ∧
    s.skipped now id = true

end State

/-- Direct consumption takes the event that it returns off the pending queue. Every other id stays,
unless its event has expired. -/
structure KeptByDequeue (now : ClockTime) (s : State cls) (result : Except QueueError (QueueEntry cls) × State cls) :
    Prop where
  le : ∀ e, result.2.pending.count e ≤ s.pending.count e
  kept : ∀ e, result.2.pending.count e = s.pending.count e ∨ (∃ x, result.1 = .ok x ∧ x.id = e) ∨
    (s.liveEvent now e = false ∧ s.skipped now e = false)
  consumed : ∀ x, result.1 = .ok x → result.2.pending.count x.id < s.pending.count x.id

namespace State

section Pop

variable {stack : Bool} {s : State cls} {id : EntryId} {l : List EntryId}

theorem getPending_cons (h : popOrder stack s.pending = id :: l) :
    s.getPending stack = (some id, { s with pending := popOrder stack l }) := by
  have hpending : s.pending = popOrder stack (id :: l) := by rw [← h, popOrder_popOrder]
  unfold getPending
  rw [hpending]
  unfold popOrder
  cases stack <;> simp

theorem getPending_nil (h : popOrder stack s.pending = []) : s.getPending stack = (none, s) := by
  have hpending : s.pending = [] := by
    rw [← popOrder_popOrder stack s.pending, h]
    cases stack <;> rfl
  unfold getPending
  cases s with
  | mk entries pending =>
    subst hpending
    cases stack <;> rfl

theorem count_cons (h : popOrder stack s.pending = id :: l) (e : EntryId) :
    s.pending.count e = l.count e + if e = id then 1 else 0 := by
  rw [← count_popOrder stack, h, List.count_cons]
  simp only [beq_iff_eq, eq_comm (a := id)]

theorem requeue_fifo (id : EntryId) (s : State cls) :
    s.requeueSkippedPending false id = .ok { s with pending := s.pending ++ [id] } := rfl

theorem requeue_stack (id : EntryId) (s : State cls) : s.requeueSkippedPending true id = .error .attributeError := rfl

end Pop

theorem placedBehind_fifo : PlacedBehind cls false := by
  intro q id
  refine ⟨_, requeue_fifo id q, fun e => ?_, fun hne => ?_⟩
  · rw [List.count_append, List.count_singleton]
    simp only [beq_iff_eq, eq_comm (a := id)]
  · obtain ⟨a, l, hl⟩ := List.exists_cons_of_ne_nil hne
    simp [getPending, hl]

end State

/-! ## Claims -/

section Claims

variable {stack x : Bool} {w : WorkerId} {lease : Option ℕ} {now : ClockTime} {s : State cls} {id : EntryId}
  {l : List EntryId}

theorem Recorded.rotated (h : Recorded s) (hpop : popOrder false s.pending = id :: l) :
    Recorded { s with pending := l ++ [id] } := by
  refine ⟨h.keyed, fun e he => h.pending e ?_⟩
  have hpending : s.pending = id :: l := hpop
  rw [hpending]
  exact List.perm_append_singleton id l |>.mem_iff.mp he

/-- The call ends with an id that is not claimed, or puts a claimed one back in a FIFO queue. -/
theorem keptByClaim_popped (h : Recorded s) (hpop : popOrder stack s.pending = id :: l)
    (hfree : stack = true → s.claims.get? id = none) :
    KeptByClaim s (State.claimPopped stack w lease x now id { s with pending := popOrder stack l }) := by
  have hmem : id ∈ s.pending := by
    rw [← popOrder_popOrder stack s.pending, hpop]
    cases stack <;> simp [popOrder]
  have hcount (e : EntryId) : (popOrder stack l).count e + (if some id = some e then 1 else 0) = s.pending.count e := by
    rw [State.count_cons hpop, count_popOrder]
    simp only [Option.some.injEq, eq_comm (a := id)]
  intro e
  have hcase := State.claimPopped_case stack w lease x now id { s with pending := popOrder stack l }
  generalize State.claimPopped stack w lease x now id { s with pending := popOrder stack l } = result at hcase
  cases hcase with
  | stuck hstack hc => simp [hfree hstack] at hc
  | conflict hstack hc =>
    subst hstack
    rw [State.count_cons hpop]
    simp [State.apush, takenBy, popOrder, List.count_append, List.count_singleton, eq_comm (a := id)]
  | missing hc he => simpa [he] using h.pending id hmem
  | undated hx hc he hd => exact hcount e
  | expired hx hc he hd hle => exact hcount e
  | @claimed e' q hc he hq =>
    have hid : e'.id = id := h.keyed id e' he
    have hq' : q.pending = popOrder stack l := by cases hq <;> rfl
    show q.pending.count e + (if some e'.id = some e then 1 else 0) = s.pending.count e
    rw [hq', hid]
    exact hcount e

theorem aclaimLoop_cons (hpop : popOrder stack s.pending = id :: l) (n : ℕ) :
    s.aclaimLoop stack w lease x now (n + 1) =
      if s.isDelayed now id then
        match State.requeueSkippedPending stack id { s with pending := popOrder stack l } with
        | .error e => (.error e, { s with pending := popOrder stack l })
        | .ok s => s.aclaimLoop stack w lease x now n
      else State.claimPopped stack w lease x now id { s with pending := popOrder stack l } := by
  rw [State.aclaimLoop_succ, State.getPending_cons hpop]
  rfl

theorem aclaimLoop_nil (hpop : popOrder stack s.pending = []) (n : ℕ) :
    s.aclaimLoop stack w lease x now n = (.error .empty, s) := by
  cases n with
  | zero => rfl
  | succ n => rw [State.aclaimLoop_succ, State.getPending_nil hpop]

/-- A FIFO queue: by induction on the ids that are still to be popped. -/
theorem keptByClaim_fifo (n : ℕ) (h : Recorded s) : KeptByClaim s (s.aclaimLoop false w lease x now n) := by
  induction n generalizing s with
  | zero => exact fun e => Nat.add_zero _
  | succ n ih =>
    cases hpop : popOrder false s.pending with
    | nil =>
      rw [aclaimLoop_nil hpop]
      exact fun e => Nat.add_zero _
    | cons id l =>
      rw [aclaimLoop_cons hpop]
      by_cases hd : s.isDelayed now id
      · rw [if_pos hd, State.requeue_fifo]
        intro e
        rw [State.count_cons hpop]
        refine (ih (h.rotated hpop) e).trans ?_
        simp [List.count_append, List.count_singleton, eq_comm (a := id)]
      · rw [if_neg hd]
        exact keptByClaim_popped h hpop (fun hs => by cases hs)

theorem keptByClaim_unskipped (h : Recorded s) (hskip : ¬s.ClaimSkips stack now) :
    KeptByClaim s (s.aclaimLoop stack w lease x now s.pending.length) := by
  cases hpop : popOrder stack s.pending with
  | nil =>
    rw [aclaimLoop_nil hpop]
    exact fun e => Nat.add_zero _
  | cons id l =>
    have hnot : s.skipped now id = false := by
      rw [← Bool.not_eq_true]
      exact fun hs => hskip ⟨id, by rw [hpop]; rfl, hs⟩
    obtain ⟨hd, hc⟩ := Bool.or_eq_false_iff.mp hnot
    have hlen : s.pending.length = l.length + 1 := by rw [← length_popOrder stack, hpop, List.length_cons]
    rw [hlen, aclaimLoop_cons hpop, if_neg (by simp [hd])]
    exact keptByClaim_popped h hpop (fun _ => by simpa using hc)

/-- A stack loses the id that it should have put back. -/
theorem aclaimLoop_stack_skip (hskip : s.ClaimSkips true now) :
    ¬KeptByClaim s (s.aclaimLoop true w lease x now s.pending.length) := by
  obtain ⟨id, hhead, hs⟩ := hskip
  obtain ⟨l, hpop⟩ := List.head?_eq_some_iff.mp hhead
  have hlen : s.pending.length = l.length + 1 := by rw [← length_popOrder true, hpop, List.length_cons]
  have hresult : s.aclaimLoop true w lease x now s.pending.length =
      (.error .attributeError, { s with pending := popOrder true l }) := by
    rw [hlen, aclaimLoop_cons hpop, State.requeue_stack]
    by_cases hd : s.isDelayed now id
    · rw [if_pos hd]
    · rw [if_neg hd]
      have hc : (s.claims.get? id).isSome := by simpa [State.skipped, hd] using hs
      unfold State.claimPopped
      rw [if_pos hc, State.requeue_stack]
  rw [hresult]
  intro hkept
  have hid := hkept id
  rw [State.count_cons hpop] at hid
  simp [takenBy, count_popOrder] at hid

end Claims

/-! ## Direct consumption -/

section Dequeue

variable {stack : Bool} {now : ClockTime} {s : State cls} {id : EntryId} {l : List EntryId}

namespace State

theorem adequeueLoop_nil (hpop : popOrder stack s.pending = []) (n : ℕ) :
    s.adequeueLoop stack now n = (.error .empty, s) := by
  cases n with
  | zero => rfl
  | succ n => rw [adequeueLoop, getPending_nil hpop]

theorem adequeueLoop_skip (hpop : popOrder stack s.pending = id :: l) (hs : s.skipped now id = true) (n : ℕ) :
    s.adequeueLoop stack now (n + 1) =
      match requeueSkippedPending stack id { s with pending := popOrder stack l } with
      | .error e => (.error e, { s with pending := popOrder stack l })
      | .ok s => s.adequeueLoop stack now n := by
  rw [adequeueLoop, getPending_cons hpop]
  exact if_pos (Bool.or_eq_true_iff.mp hs)

theorem adequeueLoop_live (hpop : popOrder stack s.pending = id :: l) (hs : s.skipped now id = false)
    (hl : s.liveEvent now id = true) (n : ℕ) :
    ∃ e, s.entries.get? id = some e ∧
      s.adequeueLoop stack now (n + 1) = (.ok e, deleteEvent id { s with pending := popOrder stack l }) := by
  obtain ⟨hentry, hdeadline⟩ := Bool.and_eq_true_iff.mp hl
  obtain ⟨e, he⟩ := Option.isSome_iff_exists.mp hentry
  have hnot : ¬(s.isDelayed now id = true ∨ (s.claims.get? id).isSome = true) := by simpa [skipped] using hs
  refine ⟨e, he, ?_⟩
  rw [adequeueLoop, getPending_cons hpop]
  refine (if_neg hnot).trans ?_
  cases hd : s.unclaimedDeadlines.get? id with
  | none => simp [hd] at hdeadline
  | some d =>
    have hlt : ¬d ≤ now := by simpa [hd] using hdeadline
    dsimp only
    rw [he]
    exact if_neg hlt

theorem adequeueLoop_dead (hpop : popOrder stack s.pending = id :: l) (hs : s.skipped now id = false)
    (hl : s.liveEvent now id = false) (n : ℕ) : s.adequeueLoop stack now (n + 1) =
      adequeueLoop stack now n (deleteEvent id { s with pending := popOrder stack l }) := by
  have hnot : ¬(s.isDelayed now id = true ∨ (s.claims.get? id).isSome = true) := by simpa [skipped] using hs
  rw [adequeueLoop, getPending_cons hpop]
  refine (if_neg hnot).trans ?_
  dsimp only
  cases he : s.entries.get? id with
  | none => rfl
  | some e =>
    cases hd : s.unclaimedDeadlines.get? id with
    | none => rfl
    | some d =>
      have hle : d ≤ now := by simpa [liveEvent, he, hd] using hl
      exact if_pos hle

/-- Deleting a dead event tells nothing new of any event. -/
theorem skipped_deleteEvent (hs : s.skipped now id = false) (e : EntryId) :
    (s.deleteEvent id).skipped now e = s.skipped now e := by
  by_cases he : e = id
  · subst he
    obtain ⟨-, hc⟩ := Bool.or_eq_false_iff.mp hs
    rw [hs]
    simpa [skipped, isDelayed, deleteEvent, removePending] using hc
  · simp [skipped, isDelayed, deleteEvent, removePending, he]

theorem liveEvent_deleteEvent (hl : s.liveEvent now id = false) (e : EntryId) :
    (s.deleteEvent id).liveEvent now e = s.liveEvent now e := by
  by_cases he : e = id
  · subst he
    rw [hl]
    simp [liveEvent, deleteEvent, removePending]
  · simp [liveEvent, deleteEvent, removePending, he]

theorem dequeueSkips_deleted (hpop : popOrder stack s.pending = id :: l) (hs : s.skipped now id = false)
    (hl : s.liveEvent now id = false) :
    (deleteEvent id { s with pending := popOrder stack l }).DequeueSkips stack now ↔ s.DequeueSkips stack now := by
  set q : State cls := { s with pending := popOrder stack l } with hq
  set p : EntryId → Bool := fun e => s.liveEvent now e || s.skipped now e with hp
  have hdead : p id = false := by
    rw [hp]
    dsimp only
    rw [hl, hs]
    rfl
  have hfun : (fun e => (q.deleteEvent id).liveEvent now e || (q.deleteEvent id).skipped now e) = p := by
    funext e
    rw [liveEvent_deleteEvent (s := q) hl, skipped_deleteEvent (s := q) hs]
    rfl
  have hfind : (popOrder stack (q.deleteEvent id).pending).find? p = (popOrder stack s.pending).find? p := by
    show (popOrder stack ((popOrder stack l).erase id)).find? p = _
    rw [find?_popOrder_erase stack hdead, popOrder_popOrder, hpop, List.find?_cons_of_neg (by simp [hdead])]
  unfold DequeueSkips
  rw [hfun, hfind]
  simp only [skipped_deleteEvent (s := q) hs]
  rfl

end State

theorem Keyed.deleteEvent (h : Keyed s) (id : EntryId) : Keyed (s.deleteEvent id) := by
  intro e x hx
  simp only [State.deleteEvent, State.removePending, Dict.get?_erase] at hx
  split_ifs at hx
  exact h e x hx

namespace KeptByDequeue

variable {result : Except QueueError (QueueEntry cls) × State cls}

theorem empty (now : ClockTime) (s : State cls) : KeptByDequeue now s (.error .empty, s) :=
  ⟨fun _ => le_rfl, fun _ => .inl rfl, fun _ h => by cases h⟩

theorem rotated (hpop : popOrder false s.pending = id :: l) (h : KeptByDequeue now { s with pending := l ++ [id] } result) :
    KeptByDequeue now s result := by
  have hcount (e : EntryId) : (l ++ [id]).count e = s.pending.count e := by
    have hpending : s.pending = id :: l := hpop
    rw [hpending]
    exact (List.perm_append_singleton id l).count_eq e
  exact ⟨fun e => hcount e ▸ h.le e, fun e => hcount e ▸ h.kept e, fun x hx => hcount x.id ▸ h.consumed x hx⟩

theorem count_deleted (hpop : popOrder stack s.pending = id :: l) (e : EntryId) :
    (e ≠ id → ((popOrder stack l).erase id).count e = s.pending.count e) ∧
      ((popOrder stack l).erase id).count e ≤ s.pending.count e ∧
      (e = id → ((popOrder stack l).erase id).count e < s.pending.count e) := by
  have hsplit := State.count_cons hpop e
  have hle : ((popOrder stack l).erase id).count e ≤ l.count e := by
    rw [← count_popOrder stack l]
    exact List.erase_sublist.count_le e
  refine ⟨fun he => ?_, by omega, fun he => ?_⟩
  · rw [List.count_erase_of_ne he, count_popOrder, hsplit, if_neg he, Nat.add_zero]
  · rw [if_pos he] at hsplit
    omega

theorem live {x : QueueEntry cls} (hpop : popOrder stack s.pending = id :: l) (hid : x.id = id) :
    KeptByDequeue now s (.ok x, State.deleteEvent id { s with pending := popOrder stack l }) := by
  refine ⟨fun e => (count_deleted hpop e).2.1, fun e => ?_, fun y hy => ?_⟩
  · by_cases he : e = id
    · exact .inr (.inl ⟨x, rfl, hid.trans he.symm⟩)
    · exact .inl ((count_deleted hpop e).1 he)
  · obtain rfl := Except.ok.inj hy
    exact (count_deleted hpop x.id).2.2 hid

theorem dead (hpop : popOrder stack s.pending = id :: l) (hs : s.skipped now id = false)
    (hl : s.liveEvent now id = false)
    (h : KeptByDequeue now (State.deleteEvent id { s with pending := popOrder stack l }) result) :
    KeptByDequeue now s result := by
  refine ⟨fun e => (h.le e).trans (count_deleted hpop e).2.1, fun e => ?_, fun x hx =>
    (h.consumed x hx).trans_le (count_deleted hpop x.id).2.1⟩
  by_cases he : e = id
  · subst he
    exact .inr (.inr ⟨hl, hs⟩)
  · rcases h.kept e with hcount | hok | ⟨hl', hs'⟩
    · exact .inl (hcount.trans ((count_deleted hpop e).1 he))
    · exact .inr (.inl hok)
    · refine .inr (.inr ⟨?_, ?_⟩)
      · exact (State.liveEvent_deleteEvent (s := { s with pending := popOrder stack l }) hl e).symm.trans hl'
      · exact (State.skipped_deleteEvent (s := { s with pending := popOrder stack l }) hs e).symm.trans hs'

/-- By induction on the passes left: a pass puts an id back, deletes a dead event or ends the loop. -/
theorem adequeueLoop (n : ℕ) (hk : Keyed s) (hskip : stack = true → ¬s.DequeueSkips stack now) :
    KeptByDequeue now s (s.adequeueLoop stack now n) := by
  induction n generalizing s with
  | zero => exact .empty now s
  | succ n ih =>
    cases hpop : popOrder stack s.pending with
    | nil =>
      rw [State.adequeueLoop_nil hpop]
      exact .empty now s
    | cons id l =>
      cases hs : s.skipped now id with
      | true =>
        cases stack with
        | true =>
          refine absurd ⟨id, ?_, hs⟩ (hskip rfl)
          rw [hpop, List.find?_cons_of_pos (by simp [hs])]
        | false =>
          rw [State.adequeueLoop_skip hpop hs, State.requeue_fifo]
          exact rotated hpop (ih hk (fun h => by cases h))
      | false =>
        cases hl : s.liveEvent now id with
        | true =>
          obtain ⟨x, hx, hloop⟩ := State.adequeueLoop_live hpop hs hl n
          rw [hloop]
          exact live hpop (hk id x hx)
        | false =>
          rw [State.adequeueLoop_dead hpop hs hl]
          refine dead hpop hs hl (ih (Keyed.deleteEvent hk id) fun hstack => ?_)
          rw [State.dequeueSkips_deleted hpop hs hl]
          exact hskip hstack

end KeptByDequeue

/-- A stack loses the id that it should have put back, and the error ends the call. -/
theorem adequeueLoop_stack_skip {n : ℕ} (hn : s.pending.length ≤ n) (hskip : s.DequeueSkips true now) :
    (s.adequeueLoop true now n).1 = .error .attributeError ∧
      ∃ id, s.skipped now id = true ∧ (s.adequeueLoop true now n).2.pending.count id < s.pending.count id := by
  induction n generalizing s with
  | zero =>
    obtain ⟨id, hfind, -⟩ := hskip
    rw [List.length_eq_zero_iff.mp (Nat.le_zero.mp hn)] at hfind
    cases hfind
  | succ n ih =>
    cases hpop : popOrder true s.pending with
    | nil =>
      obtain ⟨id, hfind, -⟩ := hskip
      rw [hpop] at hfind
      cases hfind
    | cons id l =>
      have hlen : s.pending.length = l.length + 1 := by rw [← length_popOrder true, hpop, List.length_cons]
      cases hs : s.skipped now id with
      | true =>
        rw [State.adequeueLoop_skip hpop hs, State.requeue_stack]
        refine ⟨rfl, id, hs, ?_⟩
        rw [State.count_cons hpop, count_popOrder, if_pos rfl]
        exact Nat.lt_succ_self _
      | false =>
        cases hl : s.liveEvent now id with
        | true =>
          obtain ⟨id', hfind, hs'⟩ := hskip
          rw [hpop, List.find?_cons_of_pos (by simp [hl])] at hfind
          obtain rfl := Option.some.inj hfind
          rw [hs] at hs'
          cases hs'
        | false =>
          set q : State cls := { s with pending := popOrder true l } with hq
          have hlen' : (q.deleteEvent id).pending.length ≤ n := by
            have hsub : ((popOrder true l).erase id).length ≤ (popOrder true l).length := List.erase_sublist.length_le
            rw [length_popOrder] at hsub
            show ((popOrder true l).erase id).length ≤ n
            omega
          rw [State.adequeueLoop_dead hpop hs hl]
          obtain ⟨herr, e, he, hlt⟩ := ih hlen' ((State.dequeueSkips_deleted hpop hs hl).mpr hskip)
          refine ⟨herr, e, ?_, hlt.trans_le (KeptByDequeue.count_deleted hpop e).2.1⟩
          exact (State.skipped_deleteEvent (s := q) hs e).symm.trans he

end Dequeue

/-! ## Both calls -/

section Calls

variable {now : ClockTime} {s : State cls}

theorem Recorded.apush {id : EntryId} (h : Recorded s) (hid : (s.entries.get? id).isSome) : Recorded (s.apush id) := by
  refine ⟨h.keyed, fun e he => ?_⟩
  rcases List.mem_append.mp he with he | he
  · exact h.pending e he
  · rw [List.mem_singleton.mp he]
    exact hid

theorem Recorded.recoverClaim (h : Recorded s) (now : ClockTime) (id : EntryId) : Recorded (s.recoverClaim now id) := by
  unfold State.recoverClaim
  dsimp only
  split_ifs with hnone
  · exact ⟨h.keyed, h.pending⟩
  · have hsome : (s.entries.get? id).isSome := by simpa [Option.isSome_iff_ne_none] using hnone
    split
    · exact Recorded.apush ⟨h.keyed, h.pending⟩ hsome
    · exact Recorded.apush ⟨h.keyed, h.pending⟩ hsome

theorem Recorded.recoverExpiredClaims (h : Recorded s) (now : ClockTime) : Recorded (s.recoverExpiredClaims now) := by
  rw [State.recoverExpiredClaims_eq]
  generalize s.expiredClaims now = ids
  induction ids generalizing s with
  | nil => exact h
  | cons id ids ih => exact ih (h.recoverClaim now id)

/-- What is promoted was queued, so it has a record. -/
theorem Recorded.apromoteScheduled (h : Recorded s) (now : ClockTime) : Recorded (s.apromoteScheduled now) := by
  obtain ⟨d, hd, -⟩ := State.popNextDueScheduledLoop_spec false now (s.scheduled.items.length + 1) s
  have hpopped : Recorded (s.popNextDueScheduled false now).2 := by
    rw [State.popNextDueScheduled, hd]
    exact ⟨h.keyed, h.pending⟩
  have hentries := State.entries_popNextDueScheduled false now s
  unfold State.apromoteScheduled
  rcases hr : s.popNextDueScheduled false now with ⟨_ | id, m⟩
  · rw [hr] at hpopped
    exact hpopped
  · rw [hr] at hpopped hentries
    obtain ⟨a, ha⟩ := State.due_of_popped (congrArg Prod.fst hr)
    refine hpopped.apush ?_
    rw [hentries]
    have hlive : s.isQueued id = true := ha.live
    unfold State.isQueued at hlive
    cases he : s.entries.get? id with
    | none => simp [he] at hlive
    | some e => rfl

/-- What `aclaim` does before it looks at the pending ids. -/
def State.ready (now promoted : ClockTime) (s : State cls) : State cls :=
  (s.apromoteScheduled promoted).recoverExpiredClaims now

/-- Skipped ids stay pending, behind the others, exactly when the queue is not a stack that has to skip one. -/
theorem skipped_kept_iff (stack x : Bool) (w : WorkerId) (lease : Option ℕ) (now promoted : ClockTime) (s : State cls)
    (h : Recorded s) :
    ((KeptByClaim (s.ready now promoted) (s.aclaim stack w lease x now promoted) ∧
        ((s.ready now promoted).ClaimSkips stack now → PlacedBehind cls stack)) ↔
      ¬(stack = true ∧ (s.ready now promoted).ClaimSkips stack now)) ∧
    ((KeptByDequeue now (s.recoverExpiredClaims now) (s.adequeue stack now) ∧
        ((s.recoverExpiredClaims now).DequeueSkips stack now → PlacedBehind cls stack)) ↔
      ¬(stack = true ∧ (s.recoverExpiredClaims now).DequeueSkips stack now)) := by
  have hready : Recorded (s.ready now promoted) := (h.apromoteScheduled promoted).recoverExpiredClaims now
  have hrecovered : Recorded (s.recoverExpiredClaims now) := h.recoverExpiredClaims now
  refine ⟨⟨?_, fun hnot => ?_⟩, ⟨?_, fun hnot => ?_⟩⟩
  · rintro ⟨hkept, -⟩ ⟨rfl, hskip⟩
    exact aclaimLoop_stack_skip hskip hkept
  · cases stack with
    | false => exact ⟨keptByClaim_fifo _ hready, fun _ => State.placedBehind_fifo⟩
    | true =>
      have hskip : ¬(s.ready now promoted).ClaimSkips true now := fun hs => hnot ⟨rfl, hs⟩
      exact ⟨keptByClaim_unskipped hready hskip, fun hs => absurd hs hskip⟩
  · rintro ⟨hkept, -⟩ ⟨rfl, hskip⟩
    obtain ⟨herr, id, hs, hlt⟩ := adequeueLoop_stack_skip le_rfl hskip
    rcases hkept.kept id with heq | ⟨e, he, -⟩ | ⟨-, hs'⟩
    · exact absurd heq hlt.ne
    · have hboth := herr.symm.trans he
      cases hboth
    · rw [hs] at hs'
      cases hs'
  · cases stack with
    | false =>
      exact ⟨.adequeueLoop _ hrecovered.keyed fun hs => (by cases hs), fun _ => State.placedBehind_fifo⟩
    | true =>
      have hskip : ¬(s.recoverExpiredClaims now).DequeueSkips true now := fun hs => hnot ⟨rfl, hs⟩
      exact ⟨.adequeueLoop _ hrecovered.keyed fun _ => hskip, fun hs => absurd hs hskip⟩

def second (n : ℕ) : ClockTime := ⟨n, 0, ClockTime.zero_lt_million⟩

/-- One event, released by its worker until second 2000. -/
def delayedEvent : State .base :=
  { (State.empty : State .base) with
    entries := Dict.empty.set (.ofLast 1) (QueueEntry.plain (.ofLast 1) .null)
    pending := [.ofLast 1]
    availableAt := Dict.empty.set (.ofLast 1) (second 2000)
    unclaimedDeadlines := Dict.empty.set (.ofLast 1) (second 3000) }

theorem recorded_delayedEvent : Recorded delayedEvent := by
  refine ⟨fun id e he => ?_, fun id hid => ?_⟩
  · simp only [delayedEvent, Dict.get?_set, Dict.get?_empty] at he
    split_ifs at he with hid
    rw [← Option.some.inj he, hid]
    rfl
  · rw [List.mem_singleton.mp hid]
    rfl

/-- A second event waits behind it and may be taken. -/
def delayedThenLive : State .base :=
  { delayedEvent with
    entries := delayedEvent.entries.set (.ofLast 2) (QueueEntry.plain (.ofLast 2) .null)
    pending := [.ofLast 1, .ofLast 2]
    unclaimedDeadlines := delayedEvent.unclaimedDeadlines.set (.ofLast 2) (second 3000) }

theorem recorded_delayedThenLive : Recorded delayedThenLive := by
  refine ⟨fun id e he => ?_, fun id hid => ?_⟩
  · have hget : (delayedEvent.entries.set (.ofLast 2) (QueueEntry.plain (.ofLast 2) .null)).get? id = some e := he
    rw [Dict.get?_set] at hget
    split_ifs at hget with hid
    · rw [← Option.some.inj hget, hid]
      rfl
    · exact recorded_delayedEvent.keyed id e hget
  · have hmem : id = .ofLast 1 ∨ id = .ofLast 2 := by simpa [delayedThenLive] using hid
    rcases hmem with rfl | rfl <;> rfl

/-- A claim and a direct call take the second event, and the first one stays pending. -/
theorem skipped_kept_delayedThenLive :
    let claimed := delayedThenLive.aclaim false "worker" none true (second 1000) (second 1000)
    let taken := delayedThenLive.adequeue false (second 1000)
    KeptByClaim (delayedThenLive.ready (second 1000) (second 1000)) claimed ∧
      KeptByDequeue (second 1000) (delayedThenLive.recoverExpiredClaims (second 1000)) taken ∧
      delayedThenLive.skipped (second 1000) (.ofLast 1) = true ∧ takenBy claimed.1 = some (.ofLast 2) ∧
      takenBy taken.1 = some (.ofLast 2) ∧ claimed.2.pending = [.ofLast 1] ∧ taken.2.pending = [.ofLast 1] := by
  intro claimed taken
  obtain ⟨hclaim, hdequeue⟩ := skipped_kept_iff false true "worker" none (second 1000) (second 1000) delayedThenLive
    recorded_delayedThenLive
  exact ⟨(hclaim.mpr fun h => by cases h.1).1, (hdequeue.mpr fun h => by cases h.1).1, by decide +kernel,
    by decide +kernel, by decide +kernel, by decide +kernel, by decide +kernel⟩

/-- On a stack both calls raise, the event is no longer pending and its record is still there. -/
theorem skipped_lost : Recorded delayedEvent ∧
    delayedEvent.skipped (second 1000) (.ofLast 1) = true ∧
    (delayedEvent.ready (second 1000) (second 1000)).pending = [.ofLast 1] ∧
    (delayedEvent.aclaim true "worker" none true (second 1000) (second 1000)).2.pending = [] ∧
    ((delayedEvent.aclaim true "worker" none true (second 1000) (second 1000)).2.entries.get? (.ofLast 1)).isSome = true ∧
    (delayedEvent.adequeue true (second 1000)).2.pending = [] ∧
    ((delayedEvent.adequeue true (second 1000)).2.entries.get? (.ofLast 1)).isSome = true ∧
    ¬KeptByClaim (delayedEvent.ready (second 1000) (second 1000))
      (delayedEvent.aclaim true "worker" none true (second 1000) (second 1000)) := by
  refine ⟨recorded_delayedEvent, by decide +kernel, by decide +kernel, by decide +kernel, by decide +kernel,
    by decide +kernel, by decide +kernel, ?_⟩
  apply aclaimLoop_stack_skip
  exact ⟨.ofLast 1, by decide +kernel, by decide +kernel⟩

end Calls

end DjangoQueues.Memory
