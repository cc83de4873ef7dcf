import DjangoQueues.Redis.Events

/-! Whole runs of an event queue: direct consumption, the step of the invariant over all calls,
and what follows in every reachable state. -/

namespace DjangoQueues.Redis

variable {cls : EntryClass} {stack : Bool} {s s' : Store} {L : Ledger} {e id : EntryId} {t : ServerTime}
variable {now : ℚ}

/-! ## Direct consumption -/

/-- The event is untouched, or it was overdue and is gone. -/
def Swept (now : ℚ) (L : Ledger) (s s' : Store) (e : EntryId) : Prop :=
  SameEvent s s' e ∨ Dropped s' e ∧ L.deadline e ≤ now

/-- What direct consumption does: it sweeps overdue events and takes at most one that is not. -/
inductive Consumed (now : ℚ) (L : Ledger) (s : Store) : Option Json × Store → Prop
  | nothing {s' : Store} (h : ∀ e, Swept now L s s' e) : Consumed now L s (none, s')
  | event {s' : Store} {id : EntryId} {raw : Json} (hr : s.records.get? id = some raw)
      (hlt : now < L.deadline id) (hd : Dropped s' id) (h : ∀ e ≠ id, Swept now L s s' e) :
    Consumed now L s (some raw, s')

theorem Dropped.congr (h : Dropped s e) (hsame : SameEvent s s' e) : Dropped s' e :=
  ⟨hsame.records.trans h.records, hsame.claims.trans h.claims, by simpa [h.leases] using hsame.leases,
    hsame.places.trans h.places⟩

namespace Consumed

theorem of_same {s₁ : Store} {out : Option Json × Store} (hsame : ∀ e, SameEvent s s₁ e)
    (h : Consumed now L s₁ out) : Consumed now L s out := by
  cases h with
  | nothing h => exact .nothing fun e => (h e).imp_left (hsame e).trans
  | event hr hlt hd h =>
    exact .event ((hsame _).records.symm.trans hr) hlt hd fun e he => (h e he).imp_left (hsame e).trans

/-- Consumption after an overdue event has been dropped. -/
theorem of_dropped {s₁ : Store} {out : Option Json × Store} (hdrop : Dropped s₁ id)
    (hle : L.deadline id ≤ now) (hother : ∀ e ≠ id, SameEvent s s₁ e) (h : Consumed now L s₁ out) :
    Consumed now L s out := by
  have hsweep {s' : Store} {e : EntryId} (h : Swept now L s₁ s' e) : Swept now L s s' e := by
    by_cases he : e = id
    · subst he
      rcases h with h | h
      · exact .inr ⟨hdrop.congr h, hle⟩
      · exact .inr h
    · exact h.imp_left (hother e he).trans
  cases h with
  | nothing h => exact .nothing fun e => hsweep (h e)
  | @event _ id' _ hr hlt hd h =>
    have hne : id' ≠ id := by
      rintro rfl
      rw [hdrop.records] at hr
      cases hr
    exact .event ((hother id' hne).records.symm.trans hr) hlt hd fun e he => hsweep (h e he)

end Consumed

namespace EventInv

theorem dequeueEventLoop (h : EventInv s L) (stack : Bool) (now : ℚ) (n : ℕ) :
    Consumed now L s (Library.dequeueEventLoop stack now n s) ∧
      EventInv (Library.dequeueEventLoop stack now n s).2 L := by
  induction n generalizing s with
  | zero => exact ⟨.nothing fun e => .inl (.refl s e), h⟩
  | succ n ih =>
    unfold Library.dequeueEventLoop
    rcases hpop : Library.popPending stack s with ⟨_ | id, p⟩
    · obtain ⟨rfl, -⟩ := Library.popPending_none hpop
      exact ⟨.nothing fun e => .inl (.refl _ e), h⟩
    · have htaken := Library.popPending_taken hpop
      have hcount := htaken.places id
      rw [if_pos rfl] at hcount
      obtain ⟨hst, hc, -, -, hu⟩ := (h.located id).waiting_of_places (by omega)
      obtain ⟨raw, hraw⟩ : ∃ raw, s.records.get? id = some raw := by
        cases hr : s.records.get? id with
        | none => simp [hr, recordStatus] at hst
        | some raw => exact ⟨raw, rfl⟩
      have hclaim : p.claims.get? id = none := by rw [htaken.claims, hc]
      have hrecord : p.records.get? id = some raw := by rw [htaken.records, hraw]
      have hscore : p.unclaimed.score? id = some (L.deadline id) := by rw [htaken.unclaimed, hu]
      have heq := (Library.popPending_some hpop).1
      have hsched : p.scheduled = .empty := by
        rw [heq]
        exact h.scheduled
      have hprio : p.priority = .empty := by
        rw [heq]
        exact h.priority
      obtain ⟨hdrop, hrest⟩ := EventInv.dropEvent hclaim hsched hprio
      have hother (e : EntryId) (he : e ≠ id) : SameEvent s (Library.dropEvent id p) e := by
        have hplaces := htaken.places e
        rw [if_neg he] at hplaces
        exact .trans (.of_sameData htaken.toSameData (by omega)) (hrest e he)
      have hinv : EventInv (Library.dropEvent id p) L := by
        refine ⟨fun e => ?_, hsched, hprio⟩
        by_cases he : e = id
        · subst he
          exact .absent hdrop.records hdrop.claims hdrop.leases hdrop.places
        · exact (h.located e).same (hother e he) rfl rfl
      simp only [hclaim, Option.isSome_none, Bool.false_eq_true, if_false, hrecord, hscore]
      split_ifs with hlt
      · exact ⟨.event hraw hlt hdrop fun e he => .inl (hother e he), hinv⟩
      · obtain ⟨hcons, hlast⟩ := ih hinv
        exact ⟨hcons.of_dropped hdrop (not_lt.mp hlt) hother, hlast⟩

theorem dequeueEvent (h : EventInv s L) (stack : Bool) (t : ServerTime) :
    Consumed t.nowUs L s (Library.dequeueEvent stack t s) ∧ EventInv (Library.dequeueEvent stack t s).2 L := by
  have hsame (e : EntryId) : SameEvent s (Library.deliverDueDelayed false t.nowUs s) e :=
    .of_sameData (Library.deliverDueDelayed_sameData _ _ s) (Library.places_deliverDueDelayed _ _ e)
  have hinv : EventInv (Library.deliverDueDelayed false t.nowUs s) L := by
    obtain ⟨l, z, heq⟩ := Library.deliverDelayed_eq false ((s.delayed.upTo t.nowUs).map Prod.snd) s
    refine ⟨fun e => (h.located e).same (hsame e) rfl rfl, ?_, ?_⟩
    · rw [Library.deliverDueDelayed, heq]
      exact h.scheduled
    · rw [Library.deliverDueDelayed, heq]
      exact h.priority
  obtain ⟨hcons, hlast⟩ := hinv.dequeueEventLoop stack t.nowUs
    (Library.deliverDueDelayed false t.nowUs s).pending.length
  exact ⟨hcons.of_same hsame, hlast⟩

theorem dequeue (h : EventInv s L) (stack : Bool) (t : ServerTime) (e : EntryId) :
    Advance (.dequeue : EventCall cls) t s L (.dequeued (Library.dequeueEvent stack t s).1)
      (Library.dequeueEvent stack t s).2 e := by
  have hcons := (h.dequeueEvent stack t).1
  have hsweep {s' : Store} {r : EventReply} (hs : Swept t.nowUs L s s' e) :
      Advance (.dequeue : EventCall cls) t s L r s' e := by
    rcases hs with hsame | ⟨hdrop, hle⟩
    · exact .of_same (h.located e) (by simp) hsame
    · exact .of_dropped hdrop (.expired trivial (t.nowUs_eq ▸ hle))
  generalize Library.dequeueEvent stack t s = out at hcons ⊢
  cases hcons with
  | nothing hall => exact hsweep (hall e)
  | @event s' id raw hr hlt hd hall =>
    by_cases he : e = id
    · subst he
      exact .of_dropped hd (.returned rfl hr (t.nowUs_eq ▸ hlt))
    · exact hsweep (hall e he)

/-! ## Steps and runs -/

/-- No call schedules or prioritises an event. -/
theorem unscheduled (h : EventInv s L) {c : EventCall cls} {t : ServerTime}
    (hread : ∀ batch, c = .recover batch → ClaimsReadable batch t.nowUs s) :
    (execEvent stack c t s).2.scheduled = .empty ∧ (execEvent stack c t s).2.priority = .empty := by
  cases c with
  | store x d => exact ⟨h.scheduled, h.priority⟩
  | claim w lease =>
    -- promotion finds nothing, and the claim works on the pending list alone
    obtain ⟨hsched, hprio⟩ := h.prepare_unscheduled stack t
    have hm : Library.deliverDueDelayed false t.nowUs (Library.promoteOneScheduled t.nowUs s) =
        Redis.prepare (plainKind stack) t s := by
      cases stack <;> rfl
    simp only [execEvent, Library.claim, hm]
    rcases hpop : Library.popPending stack (Redis.prepare (plainKind stack) t s) with ⟨_ | id, p⟩
    · obtain ⟨rfl, -⟩ := Library.popPending_none hpop
      exact ⟨hsched, hprio⟩
    · have heq := (Library.popPending_some hpop).1
      have hsched' : p.scheduled = .empty := by
        rw [heq]
        exact hsched
      have hprio' : p.priority = .empty := by
        rw [heq]
        exact hprio
      have hcase := Library.claimPopped_case w lease true t id (fun s => s) (fun s => s)
        (Library.unpopPending stack id) p
      dsimp only
      generalize Library.claimPopped w lease true t id (fun s => s) (fun s => s)
        (Library.unpopPending stack id) p = out at hcase ⊢
      have hq {r : Option ℚ} {q : Store} (h : Library.Remaining t id p true r q) :
          q.scheduled = .empty ∧ q.priority = .empty := by
        cases h with
        | left => exact ⟨hsched', hprio'⟩
      cases hcase with
      | expired => exact ⟨hsched', hprio'⟩
      | error h' => exact hq h'
      | claimed h' => exact ⟨(hq h').1, (hq h').2⟩
      | conflict h' => exact ⟨(hq h').1, (hq h').2⟩
  | renew w lease id =>
    rcases Library.renew_cases w lease id t s with ⟨b, hb, -⟩ | ⟨_, _, _, -, -, -, -, hb⟩
    · simp only [execEvent, hb]
      exact ⟨h.scheduled, h.priority⟩
    · simp only [execEvent, hb]
      exact ⟨h.scheduled, h.priority⟩
  | release w id delay =>
    simp only [execEvent, Library.release]
    cases s.ownClaim? id w with
    | none => exact ⟨h.scheduled, h.priority⟩
    | some c =>
      dsimp only
      rw [Library.restoreUnclaimed_eq]
      exact ⟨h.scheduled, h.priority⟩
  | remove w id =>
    simp only [execEvent, Library.remove]
    cases s.ownClaim? id w with
    | none => exact ⟨h.scheduled, h.priority⟩
    | some c => exact ⟨h.scheduled, h.priority⟩
  | recover batch =>
    obtain ⟨ids, hrec⟩ := h.recovering (hread batch rfl)
    exact ⟨hrec.scheduled, hrec.priority⟩
  | expire id =>
    rcases expire_cases id t s with heq | ⟨-, -, -, heq⟩
    · simp only [execEvent, heq]
      exact ⟨h.scheduled, h.priority⟩
    · simp only [execEvent, heq]
      exact ⟨h.scheduled, h.priority⟩
  | dequeue =>
    have hinv := (h.dequeueEvent stack t).2
    exact ⟨hinv.scheduled, hinv.priority⟩

theorem advance (h : EventInv s L) {c : EventCall cls} (hok : EventOk s t c) (hexact : Exact stack s t c)
    (hread : ∀ batch, c = .recover batch → ClaimsReadable batch t.nowUs s) (e : EntryId) :
    Advance c t s L (execEvent stack c t s).1 (execEvent stack c t s).2 e := by
  cases c with
  | store x d => exact h.store hok.1 hok.2 hexact e
  | claim w lease => exact h.claim w lease t hok hexact e
  | renew w lease id => exact h.renew w lease id t e
  | release w id delay => exact h.release w id delay t hexact e
  | remove w id => exact h.remove w id t e
  | recover batch => exact h.recover (hread batch rfl) hexact e
  | expire id => exact h.expire id t e
  | dequeue => exact h.dequeue stack t e

theorem exec (h : EventInv s L) {c : EventCall cls} (hok : EventOk s t c) (hexact : Exact stack s t c)
    (hread : ∀ batch, c = .recover batch → ClaimsReadable batch t.nowUs s) :
    EventInv (execEvent stack c t s).2 (L.note c t s (execEvent stack c t s).2) where
  located e := (h.advance hok hexact hread e).located
  scheduled := (h.unscheduled hread).1
  priority := (h.unscheduled hread).2

end EventInv

/-- The one place of an event, and its lifetime there: the first deadline plus the time spent
claimed, or what was left of it when its present claim began. -/
inductive InOnePlace (s : Store) (L : Ledger) (e : EntryId) : Prop
  | pending (hp : s.pending.count e = 1) (hd : s.delayed.score? e = none) (hc : s.claims.get? e = none)
      (hu : s.unclaimed.score? e = some (L.initial e + L.spent e))
  | delayed (hp : s.pending.count e = 0) (hd : (s.delayed.score? e).isSome) (hc : s.claims.get? e = none)
      (hu : s.unclaimed.score? e = some (L.initial e + L.spent e))
  | claimed (hp : s.pending.count e = 0) (hd : s.delayed.score? e = none) (hc : (s.claims.get? e).isSome)
      (hu : s.unclaimed.score? e = none) (hr : remaining? s e = some (L.initial e + L.spent e - L.since e))

theorem EventInv.inOnePlace (h : EventInv s L) (hr : (s.records.get? e).isSome) : InOnePlace s L e := by
  have hsched : mult s.scheduled e = 0 := mult_eq_zero.mpr (by rw [h.scheduled]; rfl)
  have hprio : mult s.priority e = 0 := mult_eq_zero.mpr (by rw [h.priority]; rfl)
  cases h.located e with
  | absent h₁ => simp [h₁] at hr
  | waiting _ hc _ hp hu =>
    unfold Store.places at hp
    cases hd : s.delayed.score? e with
    | none =>
      have := mult_eq_zero.mpr hd
      exact .pending (by omega) hd hc hu
    | some x =>
      have := mult_eq_one hd
      exact .delayed (by omega) (by simp [hd]) hc hu
  | held _ hc _ hp hu hrem heq =>
    obtain ⟨-, hd, -, hn⟩ := none_of_places hp
    exact .claimed hn hd hc hu (heq ▸ hrem)

/-- What a call may take away or hand out. -/
structure InTime (c : EventCall cls) (t : ServerTime) (s : Store) (L : Ledger) (r : EventReply) (s' : Store) :
    Prop where
  gone : ∀ e, (s.records.get? e).isSome → s'.records.get? e = none → Gone c t s L r e
  claimed : ∀ e, s.claims.get? e = none → (s'.claims.get? e).isSome →
    t.totalMicroseconds < L.initial e + L.spent e
  returned : ∀ raw, r = .dequeued (some raw) → ∃ id, s.records.get? id = some raw ∧
    t.totalMicroseconds < L.initial id + L.spent id ∧
      ∀ e ≠ id, (s.records.get? e).isSome → s'.records.get? e = none →
        L.initial e + L.spent e ≤ t.totalMicroseconds

theorem EventInv.inTime (h : EventInv s L) {c : EventCall cls} (hok : EventOk s t c)
    (hexact : Exact stack s t c) (hread : ∀ batch, c = .recover batch → ClaimsReadable batch t.nowUs s) :
    InTime c t s L (execEvent stack c t s).1 (execEvent stack c t s).2 := by
  refine ⟨fun e => (h.advance hok hexact hread e).gone, fun e => (h.advance hok hexact hread e).claimed, ?_⟩
  intro raw hraw
  cases c with
  | dequeue =>
    have hcons := (h.dequeueEvent stack t).1
    simp only [execEvent] at hraw ⊢
    generalize Library.dequeueEvent stack t s = out at hcons hraw ⊢
    cases hcons with
    | nothing => cases hraw
    | @event s' id raw' hr hlt _ hall =>
      obtain rfl : raw' = raw := by simpa using hraw
      refine ⟨id, hr, t.nowUs_eq ▸ hlt, fun e he hsome hnone => ?_⟩
      rcases hall e he with hsame | ⟨-, hle⟩
      · rw [hsame.records] at hnone
        simp [hnone] at hsome
      · exact t.nowUs_eq ▸ hle
  | _ => simp [execEvent] at hraw

/-- In a run that rounds nothing and recovers no refused record, every event is in one place with its lifetime, and
every next call of this kind takes away and hands out only in time. -/
theorem event_lifetimes_kept (stack : Bool) (t₀ : ServerTime) (ls : List (EventCall cls × ServerTime))
    (g : EventWorld) (hrun : Run (ExactStep stack) (EventWorld.init t₀) ls g) :
    (∀ e, (g.store.records.get? e).isSome → InOnePlace g.store g.ledger e) ∧
      ∀ (c : EventCall cls) (t : ServerTime) (g' : EventWorld), ExactStep stack g (c, t) g' →
        InTime c t g.store g.ledger (execEvent stack c t g.store).1 g'.store := by
  have hinv : EventInv g.store g.ledger := by
    refine Run.invariant (I := fun g => EventInv g.store g.ledger) ?_ hrun (eventInv_empty _)
    rintro g ⟨c, t⟩ g' h hstep
    rw [hstep.eq]
    exact h.exec hstep.ok hstep.exact hstep.readable
  refine ⟨fun e he => hinv.inOnePlace he, ?_⟩
  intro c t g' hstep
  rw [hstep.eq]
  exact hinv.inTime hstep.ok hstep.exact hstep.readable

theorem exact14_natCast {n : ℕ} (h : n < 10 ^ 14) : Exact14 n := by
  have hlt : |(n : ℚ)| < 10 ^ 14 := by
    rw [Nat.abs_cast]
    exact_mod_cast h
  have hround : decimal14.round (n : ℚ) = n := by
    have := decimal14.round_intCast (n := (n : ℤ)) (by exact_mod_cast hlt)
    exact_mod_cast this
  refine ⟨?_, ?_⟩
  · rw [Nat.abs_cast]
    exact lt_overflow (by exact_mod_cast h.trans (by norm_num))
  · rw [hround]
    exact fl_natCast (h.trans (by norm_num))

/-- A worker takes an event and gives it back one second later. -/
def takenBack (deadline : ℕ) : List (EventCall .base × ServerTime) :=
  [(.store (.plain (.ofLast 1) .null) deadline, .ofSeconds 1700000000 ServerTime.second_1700000000),
    (.claim "w" defaultClaimLease, .ofSeconds 1700000000 ServerTime.second_1700000000),
    (.release "w" (.ofLast 1) 0, .ofSeconds 1700000001 ServerTime.second_1700000001)]

namespace EventWorld

def after (stack : Bool) (ls : List (EventCall cls × ServerTime)) (g : EventWorld) : EventWorld :=
  ls.foldl (fun g l => g.next stack l.1 l.2) g

/-- The state in which the first `n` calls of `takenBack` leave an empty queue. -/
def taking (deadline n : ℕ) : EventWorld :=
  after false ((takenBack deadline).take n) (.init (.ofSeconds 1700000000 ServerTime.second_1700000000))

end EventWorld

theorem taking_le (deadline : ℕ) :
    (EventWorld.taking deadline 0).now ≤ .ofSeconds 1700000000 ServerTime.second_1700000000 ∧
      (EventWorld.taking deadline 1).now ≤ .ofSeconds 1700000000 ServerTime.second_1700000000 ∧
      (EventWorld.taking deadline 2).now ≤ .ofSeconds 1700000001 ServerTime.second_1700000001 := by
  change ServerTime.ofSeconds 1700000000 _ ≤ ServerTime.ofSeconds 1700000000 _ ∧
    ServerTime.ofSeconds 1700000000 _ ≤ ServerTime.ofSeconds 1700000000 _ ∧
    ServerTime.ofSeconds 1700000000 _ ≤ ServerTime.ofSeconds 1700000001 _
  decide

theorem lease_taking : Library.LeaseFits (.ofSeconds 1700000000 ServerTime.second_1700000000) defaultClaimLease := by
  apply Library.leaseFits_of_lt
  decide

/-- A lifetime below 14 digits survives being taken back. -/
theorem event_lifetimes_kept_taken_back :
    InOnePlace (EventWorld.taking 1700000005000000 3).store (EventWorld.taking 1700000005000000 3).ledger
      (.ofLast 1) := by
  obtain ⟨hle₀, hle₁, hle₂⟩ := taking_le 1700000005000000
  have hpop : (Library.popPending false (prepare .fifo (.ofSeconds 1700000000 ServerTime.second_1700000000)
      (EventWorld.taking 1700000005000000 1).store)).1 = some (.ofLast 1) := by decide +kernel
  have hdeadline : (EventWorld.taking 1700000005000000 1).store.unclaimed.score? (.ofLast 1) =
      some 1700000005000000 := by decide +kernel
  have hremaining : remaining? (EventWorld.taking 1700000005000000 2).store (.ofLast 1) = some 5000000 := by
    decide +kernel
  have hclaim : ExactStep false (EventWorld.taking 1700000005000000 1)
      ((.claim "w" defaultClaimLease : EventCall .base), .ofSeconds 1700000000 ServerTime.second_1700000000)
      (EventWorld.taking 1700000005000000 2) := by
    refine ⟨⟨hle₁, lease_taking, rfl⟩, fun id d hid hd _ => ?_, fun _ h => by cases h⟩
    obtain rfl := Option.some.inj (hpop.symm.trans hid)
    obtain rfl := Option.some.inj (hdeadline.symm.trans hd)
    have hn : (1700000005000000 : ℚ) - (ServerTime.ofSeconds 1700000000 ServerTime.second_1700000000).nowUs =
        (5000000 : ℕ) := by
      decide +kernel
    rw [hn]
    exact exact14_natCast (by norm_num)
  have hrelease : ExactStep false (EventWorld.taking 1700000005000000 2)
      ((.release "w" (.ofLast 1) 0 : EventCall .base), .ofSeconds 1700000001 ServerTime.second_1700000001)
      (EventWorld.taking 1700000005000000 3) := by
    refine ⟨⟨hle₂, trivial, rfl⟩, fun r hr => ?_, fun _ h => by cases h⟩
    obtain rfl := Option.some.inj (hremaining.symm.trans hr)
    decide +kernel
  have hstore : ExactStep false (EventWorld.taking 1700000005000000 0)
      (.store (.plain (.ofLast 1) .null) 1700000005000000, .ofSeconds 1700000000 ServerTime.second_1700000000)
      (EventWorld.taking 1700000005000000 1) :=
    ⟨⟨hle₀, ⟨rfl, rfl⟩, rfl⟩, fl_natCast (by norm_num), fun _ h => by cases h⟩
  have hrun := Run.cons hstore (.cons hclaim (.cons hrelease (.nil _)))
  exact (event_lifetimes_kept false _ _ _ hrun).1 (.ofLast 1) (by decide +kernel)

/-- A lifetime of more than 14 digits loses its last one in the claim. -/
theorem event_deadline_rounded :
    let d := 1800000000000001
    let g := EventWorld.taking d 3
    Run (EventStep false) (EventWorld.taking d 0) (takenBack d) g ∧ (g.store.records.get? (.ofLast 1)).isSome ∧
      ¬InOnePlace g.store g.ledger (.ofLast 1) := by
  intro d g
  have hrun : Run (EventStep false) (EventWorld.taking d 0) (takenBack d) g := by
    obtain ⟨hle₀, hle₁, hle₂⟩ := taking_le d
    exact .cons ⟨hle₀, ⟨rfl, rfl⟩, rfl⟩ (.cons ⟨hle₁, lease_taking, rfl⟩ (.cons ⟨hle₂, trivial, rfl⟩ (.nil _)))
  have hscore : g.store.unclaimed.score? (.ofLast 1) = some 1800000001000000 := by decide +kernel
  have hdeadline : g.ledger.initial (.ofLast 1) + g.ledger.spent (.ofLast 1) = 1800000001000001 := by
    decide +kernel
  refine ⟨hrun, by decide +kernel, fun h => ?_⟩
  have hclaim : g.store.claims.get? (.ofLast 1) = none := by
    rw [← Option.isNone_iff_eq_none]
    decide +kernel
  cases h with
  | pending _ _ _ hu => simp [hscore, hdeadline] at hu
  | delayed _ _ _ hu => simp [hscore, hdeadline] at hu
  | claimed _ _ hc => simp [hclaim] at hc

end DjangoQueues.Redis
