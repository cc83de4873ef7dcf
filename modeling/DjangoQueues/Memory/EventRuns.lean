import DjangoQueues.Memory.Events

/-! Runs of an in-process event queue: one call at a time, and from it every run. -/

namespace DjangoQueues.Memory

variable {cls : EntryClass} {s s' m : State cls} {L : Ledger} {e id : EntryId} {now : ClockTime}

/-! ## Whole calls -/

namespace State

theorem scheduled_recoverExpiredClaims (now : ClockTime) (s : State cls) :
    (s.recoverExpiredClaims now).scheduled = s.scheduled := by
  have hone (id : EntryId) (s : State cls) : (s.recoverClaim now id).scheduled = s.scheduled := by
    unfold recoverClaim
    dsimp only
    split_ifs
    · rfl
    · split <;> rfl
  have hfold (ids : List EntryId) (s : State cls) :
      (ids.foldl (fun s id => s.recoverClaim now id) s).scheduled = s.scheduled := by
    induction ids generalizing s with
    | nil => rfl
    | cons id ids ih => exact (ih _).trans (hone id s)
  exact hfold _ s

theorem scheduled_aclaimLoop (w : WorkerId) (lease : Option ℕ) (now : ClockTime) (n : ℕ) (s : State cls) :
    (s.aclaimLoop false w lease true now n).2.scheduled = s.scheduled := by
  induction n generalizing s with
  | zero => rfl
  | succ n ih =>
    have hget : (s.getPending false).2.scheduled = s.scheduled := rfl
    rw [aclaimLoop_succ]
    rcases hr : s.getPending false with ⟨_ | id, m⟩
    · rw [hr] at hget
      exact hget
    · rw [hr] at hget
      dsimp only at hget ⊢
      by_cases hdelayed : m.isDelayed now id
      · rw [if_pos hdelayed]
        exact (ih (m.apush id)).trans hget
      · rw [if_neg hdelayed]
        have hcase := claimPopped_case false w lease true now id m
        generalize m.claimPopped false w lease true now id = res at hcase
        cases hcase with
        | claimed _ _ hq =>
          cases hq
          exact hget
        | _ => exact hget

theorem scheduled_adequeueLoop (now : ClockTime) (n : ℕ) (s : State cls) :
    (s.adequeueLoop false now n).2.scheduled = s.scheduled := by
  induction n generalizing s with
  | zero => rfl
  | succ n ih =>
    have hget : (s.getPending false).2.scheduled = s.scheduled := rfl
    rw [adequeueLoop]
    rcases hr : s.getPending false with ⟨_ | id, m⟩
    · rw [hr] at hget
      exact hget
    · rw [hr] at hget
      dsimp only at hget ⊢
      by_cases hskip : m.isDelayed now id = true ∨ (m.claims.get? id).isSome = true
      · rw [if_pos hskip]
        exact (ih (m.apush id)).trans hget
      · rw [if_neg hskip]
        split
        · split_ifs
          · exact (ih (m.deleteEvent id)).trans hget
          · exact hget
        · exact (ih (m.deleteEvent id)).trans hget

theorem apromoteScheduled_of_nil (h : s.scheduled.items = []) (now : ClockTime) : s.apromoteScheduled now = s := by
  have hnone : s.candidates now = [] := by
    unfold candidates
    rw [h]
    rfl
  have hpop : s.popNextDueScheduled false now = (none, s) := by
    unfold popNextDueScheduled
    rw [popNextDueScheduledLoop, if_pos hnone]
  unfold apromoteScheduled
  rw [hpop]

end State

theorem scheduled_execEvent (c : EventCall cls) (now promoted : ClockTime) (hs : s.scheduled.items = []) :
    (execEvent c now promoted s).2.scheduled = s.scheduled := by
  cases c with
  | enqueue x lifetime => rfl
  | claim w lease =>
    show (s.aclaim false w lease true now promoted).2.scheduled = s.scheduled
    unfold State.aclaim
    rw [State.scheduled_aclaimLoop, State.scheduled_recoverExpiredClaims, State.apromoteScheduled_of_nil hs]
  | renew w lease id =>
    show (s.arenew w lease id now).2.scheduled = s.scheduled
    unfold State.arenew
    dsimp only
    split_ifs <;> exact State.scheduled_recoverExpiredClaims now s
  | release w id delay =>
    show (s.arelease w id delay now).2.scheduled = s.scheduled
    unfold State.arelease
    split_ifs
    · dsimp only
      split <;> rfl
    · rfl
  | remove w id =>
    show (s.aremove w id).2.scheduled = s.scheduled
    unfold State.aremove
    split_ifs <;> rfl
  | dequeue =>
    show (s.adequeue false now).2.scheduled = s.scheduled
    unfold State.adequeue
    rw [State.scheduled_adequeueLoop, State.scheduled_recoverExpiredClaims]
  | expireDue =>
    have hfold (ids : List EntryId) (s : State cls) :
        (ids.foldl (fun s id => s.deleteEvent id) s).scheduled = s.scheduled := by
      induction ids generalizing s with
      | nil => rfl
      | cons id ids ih => exact (ih _).trans rfl
    exact hfold _ s

/-- Recovery comes first, where the call makes one. -/
theorem EventAt.recovered (h : EventAt s L now e) {now' : ClockTime} (c : EventCall cls) (reply : EventReply cls) :
    Change c reply now' s (recovered c now' s) e := by
  cases c with
  | claim w lease => exact h.recoverExpiredClaims _ reply
  | renew w lease id => exact h.recoverExpiredClaims _ reply
  | dequeue => exact h.recoverExpiredClaims _ reply
  | _ => exact .same (.refl e s)

/-- What a call does to each event after the recovery, and what it can raise. -/
structure Performs (c : EventCall cls) (now : ClockTime) (s : State cls) (res : EventReply cls × State cls) : Prop where
  change : ∀ e, Change c res.1 now (recovered c now s) res.2 e
  error : ∀ err, res.1 = some (.error err) →
    err = .empty ∧ (∀ id ∈ res.2.pending, res.2.isDelayed now id) ∨ ∃ id, err = .expired id

theorem performs_execEvent (c : EventCall cls) (hc : ∀ x lifetime, c ≠ .enqueue x lifetime)
    (h : ∀ e, EventAt (recovered c now s) L now e) (hk : Keyed s) (hs : s.scheduled.items = []) (promoted : ClockTime) :
    Performs c now s (execEvent c now promoted s) := by
  cases c with
  | enqueue x lifetime => exact absurd rfl (hc x lifetime)
  | claim w lease =>
    have hclaim : s.aclaim false w lease true now promoted = (s.recoverExpiredClaims now).aclaimLoop false w lease true
        now (s.recoverExpiredClaims now).pending.length := by
      unfold State.aclaim
      rw [State.apromoteScheduled_of_nil hs]
    obtain ⟨hchange, herror⟩ := claims_aclaimLoop h (.claim w lease) w lease
    show Performs _ now s (some (s.aclaim false w lease true now promoted).1,
      (s.aclaim false w lease true now promoted).2)
    rw [hclaim]
    exact ⟨hchange, fun err herr => herror err (Option.some.inj herr)⟩
  | renew w lease id =>
    refine ⟨fun e => ?_, fun err herr => by cases herr⟩
    show Change _ _ now (s.recoverExpiredClaims now) (s.arenew w lease id now).2 e
    unfold State.arenew
    by_cases hw : (s.recoverExpiredClaims now).claims.get? id = some w
    · have hsome : ((s.recoverExpiredClaims now).claims.get? id).isSome := by rw [hw]; rfl
      rw [if_pos hw]
      exact change_renewed h hsome _ _ _ e
    · rw [if_neg hw]
      exact .same (.refl e _)
  | release w id delay =>
    exact ⟨fun e => change_arelease h w id delay _ _ e, fun err herr => by cases herr⟩
  | remove w id => exact ⟨fun e => change_aremove h w id _ e, fun err herr => by cases herr⟩
  | dequeue =>
    have hkeyed : Keyed (s.recoverExpiredClaims now) := fun id x hx =>
      hk id x (by rwa [State.entries_recoverExpiredClaims] at hx)
    obtain ⟨hswept, herror⟩ := swept_adequeueLoop (s.recoverExpiredClaims now).pending [] h hkeyed
      (List.append_nil _).symm fun b hb => by cases hb
    refine ⟨fun e => ?_, fun err herr => .inl (herror err (Option.some.inj herr))⟩
    have hone := hswept e
    cases hone with
    | same hsame => exact .same hsame
    | expired hw hle h' => exact .expired hw hle h'
    | taken hw h' hx hid => exact .taken hw h' rfl (congrArg some hx) hid
  | expireDue => exact ⟨fun e => change_aexpireDue h _ _ e, fun err herr => by cases herr⟩

/-! ## Runs -/

structure EventInv (g : EventWorld cls) : Prop where
  located : ∀ e, EventAt g.state g.ledger g.now e
  keyed : Keyed g.state
  scheduled : g.state.scheduled.items = []

theorem EventInv.init (t : ClockTime) : EventInv (EventWorld.init t : EventWorld cls) where
  located := fun _ => .absent ⟨rfl, List.not_mem_nil, rfl, rfl, rfl, rfl⟩
  keyed := fun _ _ h => by cases h
  scheduled := rfl

theorem Change.entries {c : EventCall cls} {reply : EventReply cls} (h : Change c reply now s s' e) :
    s'.entries.get? e = s.entries.get? e ∨ s'.entries.get? e = none := by
  cases h with
  | same h => exact .inl h.entries
  | claimed _ _ _ he => exact .inl he
  | renewed _ _ he => exact .inl he
  | returned _ _ he => exact .inl he
  | removed _ h' => exact .inr h'.entry
  | expired _ _ h' => exact .inr h'.entry
  | taken _ h' => exact .inr h'.entry

theorem Keyed.change {c : EventCall cls} {reply : EventReply cls} (h : Keyed s) (hc : ∀ e, Change c reply now s s' e) :
    Keyed s' := fun id x hx => by
  rcases (hc id).entries with heq | hnone
  · exact h id x (heq ▸ hx)
  · rw [hnone] at hx
    cases hx

theorem EventAt.ledger {L' : Ledger} (h : EventAt s L now e) (hd : L'.deadline e = L.deadline e)
    (hs : L'.since e = L.since e) : EventAt s L' now e := by
  cases h with
  | absent h => exact .absent h
  | waiting h heq => exact .waiting h (by rw [hd, heq])
  | held h hr hle => exact .held h (by rw [hd, hs, hr]) (by rwa [hs])

variable {g g' : EventWorld cls} {l : EventLabel cls}

theorem Ledger.register_eq {c : EventCall cls} (hc : ∀ x lifetime, c ≠ .enqueue x lifetime) (L : Ledger) :
    L.register c = L := by
  cases c with
  | enqueue x lifetime => exact absurd rfl (hc x lifetime)
  | _ => rfl

theorem entries_recovered (c : EventCall cls) (now : ClockTime) (s : State cls) :
    (recovered c now s).entries = s.entries := by
  cases c with
  | claim w lease => exact State.entries_recoverExpiredClaims now s
  | renew w lease id => exact State.entries_recoverExpiredClaims now s
  | dequeue => exact State.entries_recoverExpiredClaims now s
  | _ => rfl

namespace EventStep

/-- The state after the recovery, with the notes taken there. -/
theorem located_recovered (h : EventStep g l g') (hg : EventInv g) (e : EntryId) : EventAt (recovered l.call l.now g.state)
      (g.ledger.note l.now g.state (recovered l.call l.now g.state)) l.now e := by
  have hat := (hg.located e).mono h.started
  exact hat.change (hat.recovered l.call l.reply)

theorem performs (h : EventStep g l g') (hg : EventInv g) (hc : ∀ x lifetime, l.call ≠ .enqueue x lifetime) :
    Performs l.call l.now g.state (l.reply, g'.state) := by
  rw [← h.exec_eq]
  exact performs_execEvent l.call hc (h.located_recovered hg) hg.keyed hg.scheduled l.promoted

theorem inv_of_not_enqueue (h : EventStep g l g') (hg : EventInv g) (hc : ∀ x lifetime, l.call ≠ .enqueue x lifetime) :
    EventInv g' where
  located := fun e => by
    have hat := (h.located_recovered hg e).change ((h.performs hg hc).change e)
    rw [h.ledger_eq, Ledger.register_eq hc, h.now_eq]
    exact hat.mono h.le
  keyed := by
    have hkeyed : Keyed (recovered l.call l.now g.state) := fun id x hx => hg.keyed id x (by rwa [entries_recovered] at hx)
    exact hkeyed.change (h.performs hg hc).change
  scheduled := by
    have hsame := scheduled_execEvent l.call l.now l.promoted hg.scheduled
    rw [h.exec_eq] at hsame
    show g'.state.scheduled.items = []
    rw [hsame, hg.scheduled]

theorem inv_of_enqueue (h : EventStep g l g') (hg : EventInv g) {x : QueueEntry cls} {lifetime : ℕ}
    (hc : l.call = .enqueue x lifetime) : EventInv g' := by
  have hstate : g'.state = (g.state.astoreEvent x lifetime).apush x.id := by
    have heq := congrArg Prod.snd h.exec_eq
    rw [hc] at heq
    exact heq.symm
  have hfresh : g.state.entries.get? x.id = none := by
    have hf := h.fresh
    rwa [hc] at hf
  have hrecovered : recovered l.call l.now g.state = g.state := by rw [hc]; rfl
  -- no claim changes, so both notes are without effect
  have hledger (e : EntryId) : g'.ledger.deadline e = (g.ledger.register l.call).deadline e ∧
      g'.ledger.since e = g.ledger.since e := by
    have hsince : (g.ledger.register l.call).since e = g.ledger.since e := by rw [hc]; rfl
    have hclaims : (g'.state.claims.get? e).isSome = (g.state.claims.get? e).isSome := by rw [hstate]; rfl
    have hself : (g.state.claims.get? e).isSome = (g.state.claims.get? e).isSome := rfl
    obtain ⟨h₁, h₂⟩ := Ledger.note_kept hself (g.ledger.register l.call) l.now
    obtain ⟨h₃, h₄⟩ := Ledger.note_kept hclaims ((g.ledger.register l.call).note l.now g.state g.state) l.now
    rw [h.ledger_eq, hrecovered]
    exact ⟨h₃.trans h₁, h₄.trans (h₂.trans hsince)⟩
  refine ⟨fun e => ?_, fun id y hy => ?_, by rw [hstate]; exact hg.scheduled⟩
  · obtain ⟨hdeadline, hsince⟩ := hledger e
    have hat := (hg.located e).mono (h.started.trans h.le)
    rw [h.now_eq, hstate]
    rw [hc] at hdeadline
    by_cases he : e = x.id
    · subst he
      cases hat with
      | waiting hw => exact absurd hw.entry (by simp [hfresh])
      | held hh => exact absurd hh.entry (by simp [hfresh])
      | absent ha =>
        have hcount : g.state.pending.count x.id = 0 := List.count_eq_zero.mpr ha.pending
        refine .waiting (d := x.queuedAt.add lifetime) ⟨by simp [State.astoreEvent, State.apush], ?_, ha.claim, ha.lease,
          by simp [State.astoreEvent, State.apush], ha.remaining⟩ ?_
        · show (g.state.pending ++ [x.id]).count x.id = 1
          rw [List.count_append, hcount, List.count_singleton_self]
        · rw [hdeadline]
          simp [Ledger.register, Ledger.deadline]
    · have hsame : SameAt e g.state ((g.state.astoreEvent x lifetime).apush x.id) := by
        refine SameAt.trans ?_ (.apush he _)
        exact ⟨by simp [State.astoreEvent, he], rfl, rfl, rfl, rfl, by simp [State.astoreEvent, he], rfl⟩
      refine (hat.of_sameAt hsame).ledger ?_ hsince
      rw [hdeadline]
      simp [Ledger.register, Ledger.deadline, he]
  · rw [hstate] at hy
    have hset : (g.state.entries.set x.id x).get? id = some y := hy
    rw [Dict.get?_set] at hset
    split_ifs at hset with heq
    · rw [heq, Option.some.inj hset]
    · exact hg.keyed id y hset

theorem inv (h : EventStep g l g') (hg : EventInv g) : EventInv g' := by
  by_cases hc : ∃ x lifetime, l.call = .enqueue x lifetime
  · obtain ⟨x, lifetime, hc⟩ := hc
    exact h.inv_of_enqueue hg hc
  · push Not at hc
    exact h.inv_of_not_enqueue hg hc

end EventStep

/-- Where a stored event is, and how long it still lives. -/
inductive InOnePlace (s : State cls) (L : Ledger) (e : EntryId) : Prop
  | pending {d : ClockTime} (hp : s.pending.count e = 1) (hc : s.claims.get? e = none)
      (hu : s.unclaimedDeadlines.get? e = some d) (hd : d.totalMicroseconds = L.initial e + L.spent e)
  | claimed {w : WorkerId} {r : ℕ} (hc : s.claims.get? e = some w) (hp : e ∉ s.pending)
      (hr : s.unclaimedRemaining.get? e = some r) (hd : r + L.since e = L.initial e + L.spent e)

/-- The three ways in which an event disappears. -/
inductive Ended (g : EventWorld cls) (l : EventLabel cls) (g' : EventWorld cls) (e : EntryId) : Prop
  | removed {w : WorkerId} (hc : l.call = .remove w e) (hw : g.state.claims.get? e = some w)
  | returned {x : QueueEntry cls} (hc : l.call = .dequeue) (hx : l.reply = some (.ok x)) (hid : x.id = e)
  | expired (hle : g'.ledger.initial e + g'.ledger.spent e ≤ l.now.totalMicroseconds)

theorem EventAt.inOnePlace (h : EventAt s L now e) (hs : (s.entries.get? e).isSome) : InOnePlace s L e := by
  cases h with
  | absent h => simp [h.entry] at hs
  | waiting h hd => exact .pending h.pending h.claim h.deadline hd
  | held h hr =>
    obtain ⟨w, hw⟩ := Option.isSome_iff_exists.mp h.claim
    exact .claimed hw h.pending h.remaining hr

theorem EventStep.ended (h : EventStep g l g') (hg : EventInv g) (hs : (g.state.entries.get? e).isSome)
    (hgone : g'.state.entries.get? e = none) : Ended g l g' e := by
  by_cases hc : ∃ x lifetime, l.call = .enqueue x lifetime
  · obtain ⟨x, lifetime, hc⟩ := hc
    have hstate : (execEvent l.call l.now l.promoted g.state).2 = g'.state := congrArg Prod.snd h.exec_eq
    rw [hc] at hstate
    have hset : (g.state.entries.set x.id x).get? e = none := by
      rw [← hgone, ← hstate]
      rfl
    rw [Dict.get?_set] at hset
    split_ifs at hset
    rw [hset] at hs
    cases hs
  · push Not at hc
    -- what is still stored has not disappeared
    have hkept (hsame : g'.state.entries.get? e = (recovered l.call l.now g.state).entries.get? e) : False := by
      rw [entries_recovered, hgone] at hsame
      rw [← hsame] at hs
      cases hs
    have hchange := (h.performs hg hc).change e
    have hat := h.located_recovered hg e
    cases hchange with
    | same hsame => exact (hkept hsame.entries).elim
    | claimed _ _ _ he => exact (hkept he).elim
    | renewed _ _ he => exact (hkept he).elim
    | returned _ _ he => exact (hkept he).elim
    | removed _ _ hcall hw =>
      have hrecovered : recovered l.call l.now g.state = g.state := by rw [hcall]; rfl
      exact .removed hcall (hrecovered ▸ hw)
    | @expired d hw hle h' =>
      have hmem : e ∈ (recovered l.call l.now g.state).pending := by
        rw [← List.count_pos_iff, hw.pending]
        exact Nat.one_pos
      obtain ⟨d', hw', hd⟩ := hat.waitingAt hmem
      obtain rfl : d' = d := Option.some.inj (hw'.deadline.symm.trans hw.deadline)
      have hclaims : (g'.state.claims.get? e).isSome = ((recovered l.call l.now g.state).claims.get? e).isSome := by
        rw [hw.claim, h'.claim]
      have hnote := (Ledger.note_kept hclaims
        (g.ledger.note l.now g.state (recovered l.call l.now g.state)) l.now).1
      apply Ended.expired
      show g'.ledger.deadline e ≤ l.now.totalMicroseconds
      rw [h.ledger_eq, Ledger.register_eq hc, hnote, ← hd]
      exact ClockTime.le_iff_totalMicroseconds_le.mp hle
    | taken _ _ hcall hx hid => exact .returned hcall hx hid

theorem EventStep.reply (h : EventStep g l g') (hg : EventInv g) {err : QueueError} (herr : l.reply = some (.error err)) :
    err = .empty ∧ (∀ id ∈ g'.state.pending, g'.state.isDelayed l.now id) ∨ ∃ id, err = .expired id := by
  by_cases hc : ∃ x lifetime, l.call = .enqueue x lifetime
  · obtain ⟨x, lifetime, hc⟩ := hc
    have hreply := congrArg Prod.fst h.exec_eq
    rw [hc] at hreply
    have hnone : l.reply = none := hreply.symm
    rw [hnone] at herr
    cases herr
  · push Not at hc
    exact (h.performs hg hc).error err herr

/-- In every state of every run, a stored event is pending once with its first deadline moved by
the time it has spent claimed, or claimed with what was left of it. It disappears only when its
owner removes it, when a dequeue returns it, or after that deadline; a claim raises neither a
conflict nor a missing entry, and the queue is empty only of events that are not delayed. -/
theorem events_kept {t : ClockTime} {ls : List (EventLabel cls)} (hrun : Run EventStep (.init t) ls g) :
    (∀ e, (g.state.entries.get? e).isSome → InOnePlace g.state g.ledger e) ∧
      ∀ l g', EventStep g l g' →
        (∀ e, (g.state.entries.get? e).isSome → g'.state.entries.get? e = none → Ended g l g' e) ∧
          (∀ id, l.reply ≠ some (.error (.claimConflict id)) ∧ l.reply ≠ some (.error (.notFound id))) ∧
          (l.reply = some (.error .empty) → ∀ id ∈ g'.state.pending, g'.state.isDelayed l.now id) := by
  have hg : EventInv g := hrun.invariant (fun _ _ _ hg hst => hst.inv hg) (.init t)
  refine ⟨fun e hs => (hg.located e).inOnePlace hs, fun l g' hst => ⟨fun e => hst.ended hg, fun id => ?_, fun hr => ?_⟩⟩
  · constructor <;> intro hr
    · rcases hst.reply hg hr with ⟨hx, -⟩ | ⟨i, hx⟩ <;> cases hx
    · rcases hst.reply hg hr with ⟨hx, -⟩ | ⟨i, hx⟩ <;> cases hx
  · rcases hst.reply hg hr with ⟨-, hall⟩ | ⟨i, hx⟩
    · exact hall
    · cases hx

/-- The world after a call. -/
def EventWorld.next (c : EventCall cls) (now promoted : ClockTime) (g : EventWorld cls) : EventWorld cls :=
  let s' := (execEvent c now promoted g.state).2
  ⟨s', ((g.ledger.register c).note now g.state (recovered c now g.state)).note now (recovered c now g.state) s', promoted⟩

theorem EventStep.next {c : EventCall cls} {now promoted : ClockTime} (h : g.now ≤ now) (hle : now ≤ promoted)
    (hfresh : Fresh g.state c) :
    EventStep g ⟨c, now, promoted, (execEvent c now promoted g.state).1⟩ (g.next c now promoted) :=
  ⟨h, hle, hfresh, rfl, rfl, rfl⟩

/-- Two seconds under a claim move the deadline of an event by two seconds. -/
theorem events_kept_released :
    let t (n : ℕ) : ClockTime := ⟨n, 0, ClockTime.zero_lt_million⟩
    let x : QueueEntry .base := .plain (.ofLast 1) .null
    let g₁ := (EventWorld.init (t 1000)).next (.enqueue x 2000000000) (t 1000) (t 1000)
    let g₂ := g₁.next (.claim "w" (some 60000000)) (t 1001) (t 1001)
    let g₃ := g₂.next (.release "w" (.ofLast 1) 1000000) (t 1003) (t 1003)
    InOnePlace g₃.state g₃.ledger (.ofLast 1) ∧
      g₃.ledger.initial (.ofLast 1) + g₃.ledger.spent (.ofLast 1) = g₁.ledger.initial (.ofLast 1) + 2000000 := by
  intro t x g₁ g₂ g₃
  have h₁ := EventStep.next (g := .init (t 1000)) (c := .enqueue x 2000000000) (le_refl (t 1000)) (le_refl (t 1000)) rfl
  have h₂ := EventStep.next (g := g₁) (c := .claim "w" (some 60000000)) (show t 1000 ≤ t 1001 by decide)
    (le_refl (t 1001)) trivial
  have h₃ := EventStep.next (g := g₂) (c := .release "w" (.ofLast 1) 1000000) (show t 1001 ≤ t 1003 by decide)
    (le_refl (t 1003)) trivial
  have hrun := Run.cons h₁ (.cons h₂ (.cons h₃ (.nil _)))
  refine ⟨(events_kept hrun).1 (.ofLast 1) ?_, ?_⟩
  · decide +kernel
  · decide +kernel

end DjangoQueues.Memory
