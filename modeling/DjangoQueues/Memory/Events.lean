import DjangoQueues.Memory.Schedule

/-! Events of an in-process queue. A stored event is pending once or claimed, and its lifetime
runs only while it is not claimed. -/

namespace DjangoQueues.Memory

variable {cls : EntryClass}

inductive EventCall (cls : EntryClass) where
  /-- `astore_event` and `apush`, with `timeout_seconds` in microseconds. -/
  | enqueue (e : QueueEntry cls) (lifetime : ℕ)
  | claim (w : WorkerId) (lease : Option ℕ)
  | renew (w : WorkerId) (lease : ℕ) (id : EntryId)
  | release (w : WorkerId) (id : EntryId) (delay : ℕ)
  | remove (w : WorkerId) (id : EntryId)
  | dequeue
  | expireDue

abbrev EventReply (cls : EntryClass) := Option (Except QueueError (QueueEntry cls))

/-- A call on a provider that is not a stack. A claim reads the clock once more to promote. -/
def execEvent (c : EventCall cls) (now promoted : ClockTime) (s : State cls) : EventReply cls × State cls :=
  match c with
  | .enqueue e lifetime => (none, (s.astoreEvent e lifetime).apush e.id)
  | .claim w lease => let r := s.aclaim false w lease true now promoted; (some r.1, r.2)
  | .renew w lease id => (none, (s.arenew w lease id now).2)
  | .release w id delay => (none, (s.arelease w id delay now).2)
  | .remove w id => (none, (s.aremove w id).2)
  | .dequeue => let r := s.adequeue false now; (some r.1, r.2)
  | .expireDue => (none, (s.aexpireDue now).2)

/-- What the call finds after it has recovered the claims whose lease has run out. -/
def recovered (c : EventCall cls) (now : ClockTime) (s : State cls) : State cls :=
  match c with
  | .claim _ _ | .renew _ _ _ | .dequeue => s.recoverExpiredClaims now
  | _ => s

/-! ## Time spent claimed -/

/-- What an observer notes about each event, in microseconds: its first deadline, the time it
has spent claimed in periods that have ended, and the time of its latest claim. -/
structure Ledger where
  initial : EntryId → ℕ
  spent : EntryId → ℕ
  since : EntryId → ℕ

namespace Ledger

def empty : Ledger := ⟨fun _ => 0, fun _ => 0, fun _ => 0⟩

/-- The first deadline plus the time spent claimed. -/
def deadline (L : Ledger) (e : EntryId) : ℕ := L.initial e + L.spent e

def register (c : EventCall cls) (L : Ledger) : Ledger :=
  match c with
  | .enqueue e lifetime =>
    { L with
      initial := Function.update L.initial e.id (e.queuedAt.add lifetime).totalMicroseconds
      spent := Function.update L.spent e.id 0 }
  | _ => L

/-- A period begins when a claim appears and ends when it is gone. -/
def note (now : ClockTime) (s s' : State cls) (L : Ledger) : Ledger :=
  { L with
    spent := fun e => if (s.claims.get? e).isSome ∧ (s'.claims.get? e).isNone
      then L.spent e + (now.totalMicroseconds - L.since e) else L.spent e
    since := fun e => if (s.claims.get? e).isNone ∧ (s'.claims.get? e).isSome
      then now.totalMicroseconds else L.since e }

end Ledger

structure EventWorld (cls : EntryClass) where
  state : State cls
  ledger : Ledger
  now : ClockTime

def EventWorld.init (t : ClockTime) : EventWorld cls := ⟨.empty, .empty, t⟩

structure EventLabel (cls : EntryClass) where
  call : EventCall cls
  now : ClockTime
  promoted : ClockTime
  reply : EventReply cls

/-- A new event has a fresh id. -/
def Fresh (s : State cls) : EventCall cls → Prop
  | .enqueue e _ => s.entries.get? e.id = none
  | _ => True

/-- A recovery and the call after it may end one period of a claim and begin another. -/
structure EventStep (g : EventWorld cls) (l : EventLabel cls) (g' : EventWorld cls) : Prop where
  started : g.now ≤ l.now
  le : l.now ≤ l.promoted
  fresh : Fresh g.state l.call
  exec_eq : execEvent l.call l.now l.promoted g.state = (l.reply, g'.state)
  ledger_eq : g'.ledger = ((g.ledger.register l.call).note l.now g.state (recovered l.call l.now g.state)).note l.now
    (recovered l.call l.now g.state) g'.state
  now_eq : g'.now = l.promoted

/-! ## Where an event is -/

variable {s s' m : State cls} {L : Ledger} {e id : EntryId} {now : ClockTime} {d : ClockTime} {r : ℕ}

structure AbsentAt (s : State cls) (e : EntryId) : Prop where
  entry : s.entries.get? e = none
  pending : e ∉ s.pending
  claim : s.claims.get? e = none
  lease : s.claimDeadlines.get? e = none
  deadline : s.unclaimedDeadlines.get? e = none
  remaining : s.unclaimedRemaining.get? e = none

structure WaitingAt (s : State cls) (e : EntryId) (d : ClockTime) : Prop where
  entry : (s.entries.get? e).isSome
  pending : s.pending.count e = 1
  claim : s.claims.get? e = none
  lease : s.claimDeadlines.get? e = none
  deadline : s.unclaimedDeadlines.get? e = some d
  remaining : s.unclaimedRemaining.get? e = none

structure HeldAt (s : State cls) (e : EntryId) (r : ℕ) : Prop where
  entry : (s.entries.get? e).isSome
  pending : e ∉ s.pending
  claim : (s.claims.get? e).isSome
  deadline : s.unclaimedDeadlines.get? e = none
  remaining : s.unclaimedRemaining.get? e = some r

inductive EventAt (s : State cls) (L : Ledger) (now : ClockTime) (e : EntryId) : Prop
  | absent (h : AbsentAt s e)
  | waiting {d : ClockTime} (h : WaitingAt s e d) (hd : d.totalMicroseconds = L.deadline e)
  | held {r : ℕ} (h : HeldAt s e r) (hr : r + L.since e = L.deadline e) (hle : L.since e ≤ now.totalMicroseconds)

/-- Everything a call can do to one event. -/
inductive Change (c : EventCall cls) (reply : EventReply cls) (now : ClockTime) (s s' : State cls) (e : EntryId) : Prop
  | same (h : SameAt e s s')
  | claimed {d : ClockTime} (h : WaitingAt s e d) (hlt : now < d) (h' : HeldAt s' e (d.sub now))
      (he : s'.entries.get? e = s.entries.get? e)
  | renewed {r : ℕ} (h : HeldAt s e r) (h' : HeldAt s' e r) (he : s'.entries.get? e = s.entries.get? e)
  | returned {r : ℕ} (h : HeldAt s e r) (h' : WaitingAt s' e (now.add r)) (he : s'.entries.get? e = s.entries.get? e)
  | removed {r : ℕ} {w : WorkerId} (h : HeldAt s e r) (h' : AbsentAt s' e) (hc : c = .remove w e)
      (hw : s.claims.get? e = some w)
  | expired {d : ClockTime} (h : WaitingAt s e d) (hle : d ≤ now) (h' : AbsentAt s' e)
  | taken {d : ClockTime} {x : QueueEntry cls} (h : WaitingAt s e d) (h' : AbsentAt s' e) (hc : c = .dequeue)
      (hx : reply = some (.ok x)) (hid : x.id = e)

theorem SameAt.mem_pending (h : SameAt e s s') : e ∈ s'.pending ↔ e ∈ s.pending := by
  rw [← List.count_pos_iff, ← List.count_pos_iff, h.pending]

theorem AbsentAt.same (h : AbsentAt s e) (hs : SameAt e s s') : AbsentAt s' e where
  entry := hs.entries.trans h.entry
  pending := fun hin => h.pending (hs.mem_pending.mp hin)
  claim := hs.claims.trans h.claim
  lease := hs.claimDeadlines.trans h.lease
  deadline := hs.unclaimedDeadlines.trans h.deadline
  remaining := hs.unclaimedRemaining.trans h.remaining

theorem WaitingAt.same (h : WaitingAt s e d) (hs : SameAt e s s') : WaitingAt s' e d where
  entry := hs.entries ▸ h.entry
  pending := hs.pending.trans h.pending
  claim := hs.claims.trans h.claim
  lease := hs.claimDeadlines.trans h.lease
  deadline := hs.unclaimedDeadlines.trans h.deadline
  remaining := hs.unclaimedRemaining.trans h.remaining

theorem HeldAt.same (h : HeldAt s e r) (hs : SameAt e s s') : HeldAt s' e r where
  entry := hs.entries ▸ h.entry
  pending := fun hin => h.pending (hs.mem_pending.mp hin)
  claim := hs.claims ▸ h.claim
  deadline := hs.unclaimedDeadlines.trans h.deadline
  remaining := hs.unclaimedRemaining.trans h.remaining

theorem EventAt.mono (h : EventAt s L now e) {now' : ClockTime} (hle : now ≤ now') : EventAt s L now' e := by
  cases h with
  | absent h => exact .absent h
  | waiting h hd => exact .waiting h hd
  | held h hr hs => exact .held h hr (hs.trans (ClockTime.le_iff_totalMicroseconds_le.mp hle))

theorem EventAt.waitingAt (h : EventAt s L now e) (hin : e ∈ s.pending) :
    ∃ d, WaitingAt s e d ∧ d.totalMicroseconds = L.deadline e := by
  cases h with
  | absent h => exact absurd hin h.pending
  | waiting h hd => exact ⟨_, h, hd⟩
  | held h => exact absurd hin h.pending

theorem EventAt.heldAt (h : EventAt s L now e) (hc : (s.claims.get? e).isSome) : ∃ r, HeldAt s e r := by
  cases h with
  | absent h => simp [h.claim] at hc
  | waiting h => simp [h.claim] at hc
  | held h => exact ⟨_, h⟩

namespace Ledger

theorem note_kept (h : (s'.claims.get? e).isSome = (s.claims.get? e).isSome) (L : Ledger) (now : ClockTime) :
    (L.note now s s').deadline e = L.deadline e ∧ (L.note now s s').since e = L.since e := by
  unfold note deadline
  dsimp only
  cases hs : s.claims.get? e <;> cases hs' : s'.claims.get? e <;> simp_all

theorem note_begun (h : s.claims.get? e = none) (h' : (s'.claims.get? e).isSome) (L : Ledger) (now : ClockTime) :
    (L.note now s s').deadline e = L.deadline e ∧ (L.note now s s').since e = now.totalMicroseconds := by
  unfold note deadline
  simp [h, h']

theorem note_ended (h : (s.claims.get? e).isSome) (h' : s'.claims.get? e = none) (L : Ledger) (now : ClockTime) :
    (L.note now s s').deadline e = L.deadline e + (now.totalMicroseconds - L.since e) := by
  unfold note deadline
  simp [h, h', Nat.add_assoc]

end Ledger

/-- The notes follow every change. -/
theorem EventAt.change {c : EventCall cls} {reply : EventReply cls} (h : EventAt s L now e)
    (hc : Change c reply now s s' e) : EventAt s' (L.note now s s') now e := by
  cases hc with
  | same hs =>
    obtain ⟨hdeadline, hsince⟩ := Ledger.note_kept (congrArg Option.isSome hs.claims) L now
    cases h with
    | absent h => exact .absent (h.same hs)
    | waiting h hd => exact .waiting (h.same hs) (by rw [hdeadline, hd])
    | held h hr hle => exact .held (h.same hs) (by rw [hdeadline, hsince, hr]) (by rwa [hsince])
  | renewed hh h' =>
    obtain ⟨hdeadline, hsince⟩ := Ledger.note_kept (h'.claim.trans hh.claim.symm) L now
    cases h with
    | absent h => exact absurd hh.claim (by simp [h.claim])
    | waiting h => exact absurd hh.claim (by simp [h.claim])
    | held h hr hle =>
      obtain rfl := Option.some.inj (h.remaining.symm.trans hh.remaining)
      exact .held h' (by rw [hdeadline, hsince, hr]) (by rwa [hsince])
  | @claimed d hw hlt h' =>
    obtain ⟨hdeadline, hsince⟩ := Ledger.note_begun hw.claim h'.claim L now
    obtain ⟨d', hw', hd⟩ := h.waitingAt (List.count_pos_iff.mp (by rw [hw.pending]; exact Nat.one_pos))
    obtain rfl : d' = d := Option.some.inj (hw'.deadline.symm.trans hw.deadline)
    refine .held h' ?_ (le_of_eq hsince)
    have hlt' := ClockTime.lt_iff_totalMicroseconds_lt.mp hlt
    rw [hdeadline, hsince, ← hd, ClockTime.sub]
    omega
  | @returned r hh h' =>
    have hdeadline := Ledger.note_ended hh.claim h'.claim L now
    cases h with
    | absent h => exact absurd hh.claim (by simp [h.claim])
    | waiting h => exact absurd hh.claim (by simp [h.claim])
    | held h hr hle =>
      obtain rfl := Option.some.inj (h.remaining.symm.trans hh.remaining)
      refine .waiting h' ?_
      rw [hdeadline, ClockTime.totalMicroseconds_add, ← hr]
      omega
  | removed _ h' => exact .absent h'
  | expired _ _ h' => exact .absent h'
  | taken _ h' => exact .absent h'

/-! ## Recovery -/

theorem HeldAt.recoverClaim (h : HeldAt s e r) (now : ClockTime) : WaitingAt (s.recoverClaim now e) e (now.add r) := by
  have hcount : s.pending.count e = 0 := List.count_eq_zero.mpr h.pending
  have hsome : ¬(s.entries.get? e).isNone := by
    rw [Option.isNone_iff_eq_none]
    exact Option.isSome_iff_ne_none.mp h.entry
  unfold State.recoverClaim
  dsimp only
  rw [if_neg hsome, h.remaining]
  refine ⟨h.entry, ?_, by simp [State.apush], by simp [State.apush], by simp [State.apush], by simp [State.apush]⟩
  show (s.pending ++ [e]).count e = 1
  rw [List.count_append, hcount, List.count_singleton_self]

theorem HeldAt.recoverClaims {ids : List EntryId} (hids : ids.Nodup) (hin : e ∈ ids) (h : HeldAt s e r)
    (now : ClockTime) : WaitingAt (ids.foldl (fun s id => s.recoverClaim now id) s) e (now.add r) := by
  induction ids generalizing s with
  | nil => cases hin
  | cons id ids ih =>
    obtain ⟨hnotin, hids⟩ := List.nodup_cons.mp hids
    by_cases he : e = id
    · subst he
      exact (h.recoverClaim now).same (SameAt.recoverClaims ids hnotin now _)
    · have hrest := (List.mem_cons.mp hin).resolve_left he
      exact ih hids hrest (h.same (SameAt.recoverClaim he now s))

/-- Recovery gives back claims whose lease has run out and leaves the other events alone. -/
theorem EventAt.recoverExpiredClaims (h : EventAt s L now e) {now' : ClockTime} (c : EventCall cls)
    (reply : EventReply cls) : Change c reply now' s (s.recoverExpiredClaims now') e := by
  rw [State.recoverExpiredClaims_eq]
  by_cases hin : e ∈ s.expiredClaims now'
  · obtain ⟨a, ha, -⟩ := State.mem_expiredClaims.mp hin
    cases h with
    | absent h => simp [h.lease] at ha
    | waiting h => simp [h.lease] at ha
    | held h =>
      exact .returned h (h.recoverClaims (State.nodup_expiredClaims now' s) hin now')
        (by rw [← State.recoverExpiredClaims_eq, State.entries_recoverExpiredClaims])
  · exact .same (SameAt.recoverClaims _ hin now' s)

/-! ## Claims -/

/-- No other id is touched where one is taken from the pending queue. -/
theorem SameAt.popped {skipped rest : List EntryId} (hp : s.pending = skipped ++ id :: rest) (he : e ≠ id) :
    SameAt e s { s with pending := rest ++ skipped } := by
  refine ⟨rfl, ?_, rfl, rfl, rfl, rfl, rfl⟩
  show (rest ++ skipped).count e = s.pending.count e
  rw [hp, List.count_append, List.count_append, List.count_cons_of_ne (Ne.symm he), Nat.add_comm]

theorem WaitingAt.notMem_popped {skipped rest : List EntryId} (h : WaitingAt s e d)
    (hp : s.pending = skipped ++ e :: rest) : e ∉ rest ++ skipped := by
  have hcount := h.pending
  rw [hp, List.count_append, List.count_cons_self] at hcount
  rw [← List.count_eq_zero, List.count_append]
  omega

/-- The ids before the first that is not delayed. -/
theorem State.exists_skipped (s : State cls) (now : ClockTime) :
    (∀ id ∈ s.pending, s.isDelayed now id) ∨ ∃ skipped id rest, s.pending = skipped ++ id :: rest ∧
      (∀ b ∈ skipped, s.isDelayed now b) ∧ ¬s.isDelayed now id := by
  have hsplit (l : List EntryId) : (∀ id ∈ l, s.isDelayed now id) ∨ ∃ skipped id rest, l = skipped ++ id :: rest ∧
      (∀ b ∈ skipped, s.isDelayed now b) ∧ ¬s.isDelayed now id := by
    induction l with
    | nil => exact .inl fun id hid => by cases hid
    | cons a l ih =>
      by_cases ha : s.isDelayed now a
      · rcases ih with hall | ⟨skipped, id, rest, hl, hskip, hid⟩
        · exact .inl fun id hid => by
            rcases List.mem_cons.mp hid with rfl | hid
            · exact ha
            · exact hall id hid
        · refine .inr ⟨a :: skipped, id, rest, by rw [hl, List.cons_append], fun b hb => ?_, hid⟩
          rcases List.mem_cons.mp hb with rfl | hb
          · exact ha
          · exact hskip b hb
      · exact .inr ⟨[], a, l, rfl, (fun b hb => by cases hb), ha⟩
  exact hsplit s.pending

/-- What a claim can answer, and what it does to each event. -/
structure Claims (c : EventCall cls) (now : ClockTime) (s : State cls)
    (res : Except QueueError (QueueEntry cls) × State cls) : Prop where
  change : ∀ e, Change c (some res.1) now s res.2 e
  error : ∀ err, res.1 = .error err → err = .empty ∧ (∀ id ∈ res.2.pending, res.2.isDelayed now id) ∨
    ∃ id, err = .expired id

theorem claims_aclaimLoop (h : ∀ e, EventAt s L now e) (c : EventCall cls) (w : WorkerId) (lease : Option ℕ) :
    Claims c now s (s.aclaimLoop false w lease true now s.pending.length) := by
  rcases s.exists_skipped now with hall | ⟨skipped, id, rest, hp, hskip, hdue⟩
  · have hloop : s.aclaimLoop false w lease true now s.pending.length = (.error .empty, s) := by
      have hskip := State.aclaimLoop_skip w lease true now 0 s.pending [] (List.append_nil _).symm hall
      rw [Nat.add_zero] at hskip
      rw [hskip]
      rfl
    rw [hloop]
    refine ⟨fun e => .same (.refl e s), fun err herr => .inl ?_⟩
    obtain rfl := Except.error.inj herr
    exact ⟨rfl, hall⟩
  · have hlen : s.pending.length = skipped.length + (rest.length + 1) := by
      rw [hp, List.length_append, List.length_cons]
    have hloop : s.aclaimLoop false w lease true now s.pending.length =
        State.claimPopped false w lease true now id { s with pending := rest ++ skipped } := by
      rw [hlen, State.aclaimLoop_skip w lease true now _ skipped _ hp hskip, State.aclaimLoop_succ]
      exact if_neg hdue
    have hin : id ∈ s.pending := by rw [hp]; simp
    obtain ⟨d, hw, -⟩ := (h id).waitingAt hin
    have hout := hw.notMem_popped hp
    have hother (e : EntryId) (he : e ≠ id) : SameAt e s { s with pending := rest ++ skipped } := .popped hp he
    rw [hloop]
    have hcase := State.claimPopped_case false w lease true now id { s with pending := rest ++ skipped }
    generalize State.claimPopped false w lease true now id { s with pending := rest ++ skipped } = res at hcase
    cases hcase with
    | stuck hstack => cases hstack
    | conflict _ hc => simp [hw.claim] at hc
    | missing _ hnone => exact absurd hw.entry (by simp [hnone])
    | undated _ _ _ hnone => exact absurd hw.deadline (by simp [hnone])
    | @expired x d' _ _ _ hd hle =>
      obtain rfl : d = d' := Option.some.inj (hw.deadline.symm.trans hd)
      refine ⟨fun e => ?_, fun err herr => .inr ⟨id, (Except.error.inj herr).symm⟩⟩
      by_cases he : e = id
      · subst he
        exact .expired hw hle ⟨by simp, hout, hw.claim, hw.lease, by simp, hw.remaining⟩
      · exact .same ((hother e he).trans ⟨by simp [he], rfl, rfl, rfl, by simp [he], by simp [he], rfl⟩)
    | @claimed x q _ hentry hq =>
      refine ⟨fun e => ?_, fun err herr => by cases herr⟩
      cases hq with
      | @timed d' hd hlt =>
        obtain rfl : d = d' := Option.some.inj (hw.deadline.symm.trans hd)
        by_cases he : e = id
        · subst he
          exact .claimed hw hlt ⟨hw.entry, hout, by simp [State.takeClaim], by simp [State.takeClaim],
            by simp [State.takeClaim]⟩ rfl
        · refine .same ((hother e he).trans ⟨rfl, rfl, by simp [State.takeClaim, he], ?_, by simp [State.takeClaim, he],
            by simp [State.takeClaim, he], by simp [State.takeClaim, he]⟩)
          cases lease with
          | none => rfl
          | some l => simp [State.takeClaim, he]

/-! ## Events that are deleted -/

theorem SameAt.deleteEvent (he : e ≠ id) (s : State cls) : SameAt e s (s.deleteEvent id) where
  entries := by simp [State.deleteEvent, State.removePending, he]
  pending := List.count_erase_of_ne he
  claims := rfl
  claimDeadlines := rfl
  availableAt := by simp [State.deleteEvent, State.removePending, he]
  unclaimedDeadlines := by simp [State.deleteEvent, State.removePending, he]
  unclaimedRemaining := by simp [State.deleteEvent, State.removePending, he]

/-- An unclaimed id that is pending at most once is gone altogether. -/
theorem State.deleteEvent_absentAt (hc : s.claims.get? e = none) (hl : s.claimDeadlines.get? e = none)
    (hp : s.pending.count e ≤ 1) : AbsentAt (s.deleteEvent e) e where
  entry := by simp [State.deleteEvent, State.removePending]
  pending := by
    show e ∉ s.pending.erase e
    rw [← List.count_eq_zero, List.count_erase_self]
    omega
  claim := hc
  lease := hl
  deadline := by simp [State.deleteEvent, State.removePending]
  remaining := by simp [State.deleteEvent, State.removePending]

theorem EventAt.of_sameAt (h : EventAt s L now e) (hs : SameAt e s s') : EventAt s' L now e := by
  cases h with
  | absent h => exact .absent (h.same hs)
  | waiting h hd => exact .waiting (h.same hs) hd
  | held h hr hle => exact .held (h.same hs) hr hle

/-- Deleted for good, or untouched. -/
inductive Swept (now : ClockTime) (reply : Except QueueError (QueueEntry cls)) (s s' : State cls) (e : EntryId) : Prop
  | same (h : SameAt e s s')
  | expired {d : ClockTime} (h : WaitingAt s e d) (hle : d ≤ now) (h' : AbsentAt s' e)
  | taken {d : ClockTime} {x : QueueEntry cls} (h : WaitingAt s e d) (h' : AbsentAt s' e) (hx : reply = .ok x)
      (hid : x.id = e)

theorem Swept.of_sameAt {reply : Except QueueError (QueueEntry cls)} (hs : SameAt e s m) (h : Swept now reply m s' e)
    (hback : SameAt e m s) : Swept now reply s s' e := by
  cases h with
  | same h => exact .same (hs.trans h)
  | expired h hle h' => exact .expired (h.same hback) hle h'
  | taken h h' hx hid => exact .taken (h.same hback) h' hx hid

theorem SameAt.symm (h : SameAt e s s') : SameAt e s' s :=
  ⟨h.entries.symm, h.pending.symm, h.claims.symm, h.claimDeadlines.symm, h.availableAt.symm,
    h.unclaimedDeadlines.symm, h.unclaimedRemaining.symm⟩

/-- The loop looks at each id that was pending once; `kept` are the delayed ids it has put back. -/
theorem swept_adequeueLoop (todo kept : List EntryId) {s : State cls} (h : ∀ e, EventAt s L now e) (hk : Keyed s)
    (hp : s.pending = todo ++ kept) (hkept : ∀ b ∈ kept, s.isDelayed now b) :
    (∀ e, Swept now (s.adequeueLoop false now todo.length).1 s (s.adequeueLoop false now todo.length).2 e) ∧
      ∀ err, (s.adequeueLoop false now todo.length).1 = .error err → err = .empty ∧
        ∀ b ∈ (s.adequeueLoop false now todo.length).2.pending,
          (s.adequeueLoop false now todo.length).2.isDelayed now b := by
  induction todo generalizing s kept with
  | nil =>
    refine ⟨fun e => .same (.refl e s), fun err herr => ?_⟩
    obtain rfl := Except.error.inj herr
    refine ⟨rfl, fun b hb => hkept b ?_⟩
    rw [← List.nil_append kept, ← hp]
    exact hb
  | cons id todo ih =>
    set q : State cls := { s with pending := todo ++ kept } with hq
    have hget : s.getPending false = (some id, q) := by
      unfold State.getPending
      rw [hp]
      rfl
    obtain ⟨d, hw, hd⟩ := (h id).waitingAt (by rw [hp]; simp)
    have hclaim : q.claims.get? id = none := hw.claim
    rw [List.length_cons, State.adequeueLoop, hget]
    dsimp only
    by_cases hdelayed : s.isDelayed now id
    · -- a delayed id goes to the end of the queue
      have hskip : q.isDelayed now id = true ∨ (q.claims.get? id).isSome = true := .inl hdelayed
      rw [if_pos hskip]
      have hrotated (e : EntryId) : SameAt e s (q.apush id) := by
        have hperm : (todo ++ kept ++ [id]).Perm s.pending := by
          rw [hp]
          exact List.perm_append_singleton ..
        exact SameAt.of_perm e hperm
      have hmem : ∀ b ∈ kept ++ [id], (q.apush id).isDelayed now b := fun b hb => by
        rcases List.mem_append.mp hb with hb | hb
        · exact hkept b hb
        · rw [List.mem_singleton.mp hb]
          exact hdelayed
      obtain ⟨h₁, h₂⟩ := ih (s := q.apush id) (kept ++ [id]) (fun e => (h e).of_sameAt (hrotated e)) hk
        (List.append_assoc ..) hmem
      exact ⟨fun e => (h₁ e).of_sameAt (hrotated e) (hrotated e).symm, h₂⟩
    -- a due id leaves the queue, expired or handed out
    · have hdue : ¬(q.isDelayed now id = true ∨ (q.claims.get? id).isSome = true) := by
        rintro (hx | hx)
        · exact hdelayed hx
        · simp [hclaim] at hx
      obtain ⟨x, hx⟩ := Option.isSome_iff_exists.mp hw.entry
      have hentry : q.entries.get? id = some x := hx
      have hdeadline : q.unclaimedDeadlines.get? id = some d := hw.deadline
      rw [if_neg hdue, hentry, hdeadline]
      dsimp only
      have hsplit : s.pending = [] ++ id :: (todo ++ kept) := hp
      have hout : id ∉ todo ++ kept := by
        have hnotin := hw.notMem_popped hsplit
        rwa [List.append_nil] at hnotin
      have hcount : q.pending.count id ≤ 1 := by
        show (todo ++ kept).count id ≤ 1
        rw [List.count_eq_zero.mpr hout]
        exact Nat.zero_le 1
      have hgone : AbsentAt (q.deleteEvent id) id := State.deleteEvent_absentAt hclaim hw.lease hcount
      have hother (e : EntryId) (he : e ≠ id) : SameAt e s (q.deleteEvent id) := by
        have hpop : SameAt e s q := by
          have hpopped := SameAt.popped hsplit he
          rwa [List.append_nil] at hpopped
        exact hpop.trans (.deleteEvent he q)
      by_cases hle : d ≤ now
      · rw [if_pos hle]
        have hpending : (q.deleteEvent id).pending = todo ++ kept := List.erase_of_not_mem hout
        have hat (e : EntryId) : EventAt (q.deleteEvent id) L now e := by
          by_cases he : e = id
          · subst he
            exact .absent hgone
          · exact (h e).of_sameAt (hother e he)
        have hkeyed : Keyed (q.deleteEvent id) := fun b y hy => by
          simp only [State.deleteEvent, State.removePending, Dict.get?_erase] at hy
          split_ifs at hy
          exact hk b y hy
        have hmem : ∀ b ∈ kept, (q.deleteEvent id).isDelayed now b := fun b hb => by
          have hne : b ≠ id := fun heq => hout (List.mem_append_right _ (heq ▸ hb))
          have hlate := hkept b hb
          unfold State.isDelayed at hlate ⊢
          rw [(hother b hne).availableAt]
          exact hlate
        obtain ⟨h₁, h₂⟩ := ih (s := q.deleteEvent id) kept hat hkeyed hpending hmem
        refine ⟨fun e => ?_, h₂⟩
        by_cases he : e = id
        · subst he
          have hnow := h₁ e
          cases hnow with
          | same h => exact .expired hw hle (hgone.same h)
          | expired h => exact absurd h.entry (by simp [hgone.entry])
          | taken h => exact absurd h.entry (by simp [hgone.entry])
        · exact (h₁ e).of_sameAt (hother e he) (hother e he).symm
      · rw [if_neg hle]
        refine ⟨fun e => ?_, fun err herr => by cases herr⟩
        by_cases he : e = id
        · subst he
          exact .taken hw hgone rfl (hk e x hx)
        · exact .same (hother e he)

/-- Deleting a list of waiting events whose deadline has come. -/
theorem change_deleteEvents (c : EventCall cls) (reply : EventReply cls) (ids : List EntryId) (hids : ids.Nodup)
    (hdue : ∀ id ∈ ids, ∃ d, WaitingAt s id d ∧ d ≤ now) (e : EntryId) :
    Change c reply now s (ids.foldl (fun s id => s.deleteEvent id) s) e := by
  have hother (ids : List EntryId) (he : e ∉ ids) (s : State cls) :
      SameAt e s (ids.foldl (fun s id => s.deleteEvent id) s) := by
    induction ids generalizing s with
    | nil => exact .refl e s
    | cons id ids ih =>
      rw [List.mem_cons, not_or] at he
      exact (SameAt.deleteEvent he.1 s).trans (ih he.2 _)
  have hself (ids : List EntryId) (hids : ids.Nodup) (he : e ∈ ids) {d : ClockTime} {s : State cls}
      (hw : WaitingAt s e d) : AbsentAt (ids.foldl (fun s id => s.deleteEvent id) s) e := by
    induction ids generalizing s with
    | nil => cases he
    | cons id ids ih =>
      obtain ⟨hnotin, hids⟩ := List.nodup_cons.mp hids
      by_cases heq : e = id
      · subst heq
        have hgone : AbsentAt (s.deleteEvent e) e := State.deleteEvent_absentAt hw.claim hw.lease hw.pending.le
        exact hgone.same (hother ids hnotin _)
      · exact ih hids ((List.mem_cons.mp he).resolve_left heq) (hw.same (.deleteEvent heq s))
  by_cases he : e ∈ ids
  · obtain ⟨d, hw, hle⟩ := hdue e he
    exact .expired hw hle (hself ids hids he hw)
  · exact .same (hother ids he s)

theorem change_aexpireDue (h : ∀ e, EventAt s L now e) (c : EventCall cls) (reply : EventReply cls) (e : EntryId) :
    Change c reply now s (s.aexpireDue now).2 e := by
  unfold State.aexpireDue
  dsimp only
  refine change_deleteEvents c reply _ (s.unclaimedDeadlines.nodup.sublist (List.filter_sublist.map _))
    (fun id hid => ?_) e
  obtain ⟨⟨i, d⟩, hp, rfl⟩ := List.mem_map.mp hid
  obtain ⟨hmem, hcond⟩ := List.mem_filter.mp hp
  have hd : s.unclaimedDeadlines.get? i = some d := Dict.get?_eq_some.mpr hmem
  have hle : d ≤ now ∧ (s.claims.get? i).isNone := by simpa using hcond
  have hat := h i
  cases hat with
  | absent ha => simp [ha.deadline] at hd
  | @waiting d' hw _ =>
    obtain rfl : d' = d := Option.some.inj (hw.deadline.symm.trans hd)
    exact ⟨d', hw, hle.1⟩
  | held hh => simp [hh.deadline] at hd

/-! ## Claims that end -/

theorem change_arelease (h : ∀ e, EventAt s L now e) (w : WorkerId) (id : EntryId) (delay : ℕ) (c : EventCall cls)
    (reply : EventReply cls) (e : EntryId) : Change c reply now s (s.arelease w id delay now).2 e := by
  unfold State.arelease
  by_cases hc : s.claims.get? id = some w
  · obtain ⟨r, hheld⟩ := (h id).heldAt (by rw [hc]; rfl)
    rw [if_pos hc]
    dsimp only
    rw [hheld.remaining]
    by_cases he : e = id
    · subst he
      refine .returned hheld ⟨hheld.entry, ?_, by simp [State.apush], by simp [State.apush], by simp [State.apush],
        by simp [State.apush]⟩ rfl
      show (s.pending ++ [e]).count e = 1
      rw [List.count_append, List.count_eq_zero.mpr hheld.pending, List.count_singleton_self]
    · refine .same (SameAt.trans ?_ (.apush he _))
      exact ⟨rfl, rfl, by simp [he], by simp [he], by simp [he], by simp [he], by simp [he]⟩
  · rw [if_neg hc]
    exact .same (.refl e s)

theorem change_aremove (h : ∀ e, EventAt s L now e) (w : WorkerId) (id : EntryId) (reply : EventReply cls)
    (e : EntryId) : Change (.remove w id) reply now s (s.aremove w id).2 e := by
  unfold State.aremove
  by_cases hc : s.claims.get? id = some w
  · obtain ⟨r, hheld⟩ := (h id).heldAt (by rw [hc]; rfl)
    rw [if_pos hc]
    by_cases he : e = id
    · subst he
      refine .removed hheld ⟨by simp [State.removePending], ?_, by simp [State.removePending],
        by simp [State.removePending], by simp [State.removePending], by simp [State.removePending]⟩ rfl hc
      exact fun hin => hheld.pending (List.mem_of_mem_erase hin)
    · exact .same ⟨by simp [State.removePending, he], List.count_erase_of_ne he, by simp [State.removePending, he],
        by simp [State.removePending, he], by simp [State.removePending, he], by simp [State.removePending, he],
        by simp [State.removePending, he]⟩
  · rw [if_neg hc]
    exact .same (.refl e s)

/-- A renewal moves the lease of a claim and nothing else. -/
theorem change_renewed (h : ∀ e, EventAt s L now e) (hc : (s.claims.get? id).isSome) (a : ClockTime)
    (c : EventCall cls) (reply : EventReply cls) (e : EntryId) :
    Change c reply now s { s with claimDeadlines := s.claimDeadlines.set id a } e := by
  by_cases he : e = id
  · subst he
    obtain ⟨r, hheld⟩ := (h e).heldAt hc
    exact .renewed hheld ⟨hheld.entry, hheld.pending, hheld.claim, hheld.deadline, hheld.remaining⟩ rfl
  · exact .same ⟨rfl, rfl, rfl, by simp [he], rfl, rfl, rfl⟩

end DjangoQueues.Memory
