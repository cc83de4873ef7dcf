import DjangoQueues.Redis.Delivery

/-! Scheduled entries of a Redis queue. An id with an instant still to come is in the schedule
and nowhere else, and every function that promotes passes over it. -/

namespace DjangoQueues.Redis

variable {cls : EntryClass} {kind : QueueKind} {s : Store} {e : EntryId} {t : ServerTime}

/-- The id is neither ready nor under a claim. -/
structure Shelved (s : Store) (e : EntryId) : Prop extends NotReady s e where
  claim : s.claims.get? e = none
  lease : s.leases.score? e = none

/-- What a call has left of a shelved id. -/
structure StillShelved (s : Store) (e : EntryId) (s' : Store) : Prop extends Shelved s' e where
  scheduled : s'.scheduled.score? e = s.scheduled.score? e ∨ s'.scheduled.score? e = none
  records : (s'.records.get? e).isSome = (s.records.get? e).isSome

namespace Shelved

theorem still (h : Shelved s e) : StillShelved s e s := ⟨h, .inl rfl, rfl⟩

theorem owner_ne (h : Shelved s e) (w : WorkerId) : s.owner? e ≠ some w := by
  simp [Store.owner?, h.claim]

theorem storeAndDiscard (h : Shelved s e) {x : QueueEntry cls} (hid : x.id = e)
    (hq : recordStatus (s.records.get? e) = some "queued") :
    StillShelved s e (Library.storeAndDiscard x.toDict x.id s) := by
  subst hid
  have hsome : (s.records.get? x.id).isSome := by
    cases hr : s.records.get? x.id with
    | none =>
      rw [hr] at hq
      cases hq
    | some raw => rfl
  have hmid (m : Store) (hm : StillShelved s x.id m) : StillShelved s x.id (Library.resetSequence m) := by
    have hs := SameAt.resetSequence x.id m
    exact ⟨⟨hs.notReady hm.toNotReady, hs.claims.trans hm.claim, hs.leases.trans hm.lease⟩,
      by rw [hs.scheduled]; exact hm.scheduled, by rw [hs.records]; exact hm.records⟩
  apply hmid
  refine ⟨⟨⟨?_, h.delayed, by simp⟩, h.claim, h.lease⟩, .inr (by simp), by simp [hsome]⟩
  rw [List.count_eq_zero, List.mem_filter]
  simp

/-- Every tracked call but an enqueue leaves the id on the shelf and does not return it. -/
theorem exec (h : Shelved s e) (hd : NotDue s e t) {c : Call cls} (hc : Tracked s c)
    (hnew : ∀ x a, c = .enqueue x a → x.id ≠ e) (kind : QueueKind) :
    StillShelved s e (Redis.exec kind c t s).2 ∧ ¬Returns e ⟨c, t, (Redis.exec kind c t s).1⟩ := by
  by_cases haim : Aims s t e c
  · have refused {r : Reply} (hr : Redis.exec kind c t s = (r, s)) (hret : ¬Returns e (⟨c, t, r⟩ : Event cls)) :
        StillShelved s e (Redis.exec kind c t s).2 ∧ ¬Returns e ⟨c, t, (Redis.exec kind c t s).1⟩ := by
      rw [hr]
      exact ⟨h.still, hret⟩
    cases c with
    | enqueue x a => exact absurd haim (hnew x a rfl)
    | storeAndDiscard x =>
      obtain rfl : x.id = e := haim
      exact ⟨h.storeAndDiscard rfl hc.2, by simp [Returns, Redis.exec]⟩
    | renew w lease id =>
      obtain rfl : id = e := haim
      exact refused (refused_of_not_owner (h.owner_ne w) (.renew lease) kind t) (by simp [Returns])
    | release w id delay =>
      obtain rfl : id = e := haim
      exact refused (refused_of_not_owner (h.owner_ne w) (.release delay) kind t) (by simp [Returns])
    | markRunning w x =>
      exact refused (refused_of_not_owner (h.owner_ne w) (.markRunning x haim) kind t) (by simp [Returns])
    | settle w x =>
      exact refused (refused_of_not_owner (h.owner_ne w) (.settle x haim) kind t) (by simp [Returns])
    | recover batch =>
      obtain ⟨x, -, hx⟩ := mem_dueClaims haim
      rw [h.lease] at hx
      cases hx
    | _ => exact haim.elim
  · obtain ⟨m, hsame, hready, hsched, hat, hret⟩ := h.toNotReady.exec hd hc haim kind
    refine ⟨⟨⟨hat.notReady hready, ?_, ?_⟩, .inl (hat.scheduled.trans hsched), ?_⟩, hret⟩
    · rw [hat.claims, hsame.claims, h.claim]
    · rw [hat.leases, hsame.leases, h.lease]
    · rw [hat.records, hsame.records]

end Shelved

/-! ## Ids without a record -/

theorem records_arelease (kind : QueueKind) (w : WorkerId) (id : EntryId) (delay : ℕ) (t : ServerTime) (s : Store) :
    (arelease kind w id delay t s).2.records = s.records := by
  cases ho : s.ownClaim? id w with
  | none => cases kind <;> simp only [arelease, Library.release, Library.releasePriority, ho]
  | some claim =>
    cases kind <;> simp only [arelease, Library.release, Library.releasePriority, ho] <;>
      rw [Library.restoreUnclaimed_eq] <;> rfl

/-- No tracked call deletes a record. -/
theorem isSome_record_exec {c : Call cls} (hc : Tracked s c) (h : (s.records.get? e).isSome) (kind : QueueKind)
    (t : ServerTime) : ((exec kind c t s).2.records.get? e).isSome := by
  have hset (id : EntryId) (raw : Json) : ((s.records.set id raw).get? e).isSome := by
    rw [Dict.get?_set]
    split_ifs
    · rfl
    · exact h
  cases c with
  | enqueue x a =>
    rcases astoreAndPush_cases kind x a t s with hr | ⟨s', hr, hs'⟩
    · simp only [exec, hr, h]
    · simp only [exec, hr, hs'.records, hset]
  | storeAndDiscard x =>
    have hrec : (Library.storeAndDiscard x.toDict x.id s).records = s.records.set x.id x.toDict :=
      (Library.resetSequence_sameData _).records
    simp only [exec, hrec, hset]
  | dequeue =>
    have hrec : (adequeue kind t s).2.records = s.records := by
      have plain (stack : Bool) : (Library.dequeue stack t s).2.records = s.records := by
        unfold Library.dequeue Library.popPending
        rw [← (Library.promoteOneScheduled_sameData t.nowUs s).records]
        split_ifs <;> rfl
      cases kind with
      | fifo => exact plain false
      | stack => exact plain true
      | priority =>
        have hprom := Library.promoteOneScheduledPriority_sameData prioritySequenceSpace t.nowUs s
        simp only [adequeue, Library.dequeuePriority, Library.popPriority]
        split
        · exact hprom.records
        · exact (Library.resetSequence_sameData _).records.trans hprom.records
    simp only [exec, hrec, h]
  | claim w lease x =>
    obtain rfl : x = false := hc
    simp only [exec, (aclaim_frame kind w lease t s).1, h]
  | renew w lease id =>
    rcases Library.renew_cases w lease id t s with ⟨r, hr, -⟩ | ⟨_, _, _, _, _, _, _, hr⟩ <;> simp only [exec, hr, h]
  | release w id delay =>
    simp only [exec, records_arelease, h]
  | markRunning w x =>
    rcases Library.markRunning_cases w x.id x.toDict s with ⟨hr, -⟩ | ⟨-, -, hr⟩
    · simp only [exec, hr, h]
    · simp only [exec, hr, hset]
  | settle w x =>
    rcases Library.settle_cases w x.id x.toDict s with ⟨hr, -⟩ | ⟨-, -, hr⟩
    · simp only [exec, hr, h]
    · simp only [exec, hr, Library.dropClaim, hset]
  | recover batch =>
    -- a recovered id has its record rewritten, never removed
    have hstep : ∀ redeliver, Library.Redelivers redeliver → ∀ id (ids : List EntryId) m,
        (m.records.get? e).isSome → ((Library.recoverOne redeliver t.nowUs id m).2.records.get? e).isSome := by
      intro redeliver hre id ids m hm
      have hcase := Library.recoverOne_case redeliver t.nowUs id m
      generalize Library.recoverOne redeliver t.nowUs id m = res at hcase
      cases hcase with
      | kept hd hlt => exact hm
      | discarded hd hs => exact hm
      | error hd hr hs he => exact hm
      | @recovered rawEntry raw hd hr hs he =>
        have hreq := Library.requeued hre (Library.resetEntry (Cjson.table rawEntry))
          ((m.claims.get? id).bind Cjson.decode) t.nowUs id raw m
        dsimp only
        rw [hreq.records, Dict.get?_set]
        split_ifs
        · rfl
        · exact hm
    obtain ⟨rest, hrec⟩ := arecover_rule (I := fun _ m => (m.records.get? e).isSome) hstep kind batch h
    exact hrec
  | _ => exact hc.elim

/-- An id without a record is on the shelf and has no instant. -/
structure Blank (s : Store) (e : EntryId) : Prop extends Shelved s e where
  scheduled : s.scheduled.score? e = none

def RecordedOrBlank (s : Store) : Prop := ∀ e, (s.records.get? e).isSome ∨ Blank s e

theorem recordedOrBlank_empty : RecordedOrBlank .empty := fun _ =>
  .inr ⟨⟨⟨rfl, rfl, rfl⟩, rfl, rfl⟩, rfl⟩

theorem RecordedOrBlank.exec (h : RecordedOrBlank s) {c : Call cls} (hc : Tracked s c) (kind : QueueKind)
    (t : ServerTime) : RecordedOrBlank (Redis.exec kind c t s).2 := by
  intro e
  rcases h e with hrec | hblank
  · exact .inl (isSome_record_exec hc hrec kind t)
  · by_cases hnew : ∃ x a, c = .enqueue x a ∧ x.id = e
    · obtain ⟨x, a, rfl, rfl⟩ := hnew
      rcases astoreAndPush_cases kind x a t s with hr | ⟨s', hr, hs'⟩
      · right
        simp only [Redis.exec, hr]
        exact hblank
      · left
        simp [Redis.exec, hr, hs'.records]
    · have hdue : NotDue s e t := fun x hx => by
        rw [hblank.scheduled] at hx
        cases hx
      have hnew' : ∀ x a, c = .enqueue x a → x.id ≠ e := fun x a heq hid => hnew ⟨x, a, heq, hid⟩
      obtain ⟨hstill, -⟩ := hblank.toShelved.exec hdue hc hnew' kind
      refine .inr ⟨hstill.toShelved, ?_⟩
      rcases hstill.scheduled with hs | hs
      · rw [hs, hblank.scheduled]
      · exact hs

/-! ## Before the instant -/

/-- Until its instant the entry is recorded, on the shelf, and scheduled for that instant at most. -/
def HeldBack (T : ClockTime) (e : EntryId) (g : Timed) : Prop :=
  g.now.toClockTime < T → Shelved g.store e ∧ (g.store.records.get? e).isSome ∧
    (g.store.scheduled.score? e = none ∨ g.store.scheduled.score? e = some (fl T.totalMicroseconds))

namespace HeldBack

variable {T : ClockTime} {g g' : Timed} {l : Event cls}

theorem now_lt (hle : g.now ≤ l.time) (hlt : l.time.toClockTime < T) : g.now.toClockTime < T := by
  rw [ClockTime.lt_iff_totalMicroseconds_lt] at hlt ⊢
  exact lt_of_le_of_lt hle hlt

theorem step (h : HeldBack T e g) (hs : Occurs kind Tracked g l g') :
    HeldBack T e g' ∧ (Returns e l → T ≤ l.time.toClockTime) := by
  by_cases hlt : l.time.toClockTime < T
  · obtain ⟨hshelf, hrec, hsched⟩ := h (now_lt hs.le hlt)
    have hdue : NotDue g.store e l.time := fun x hx => by
      rcases hsched with hnone | hsome
      · rw [hnone] at hx
        cases hx
      · obtain rfl := Option.some.inj (hsome.symm.trans hx)
        rw [← not_le, fl_le_nowUs_iff, not_le]
        exact hlt
    have hnew : ∀ x a, l.call = .enqueue x a → x.id ≠ e := fun x a hcall hid => by
      have hok := hs.ok
      rw [hcall] at hok
      rw [← hid, hok.2] at hrec
      cases hrec
    obtain ⟨hstill, hret⟩ := hshelf.exec hdue hs.ok hnew kind
    rw [hs.exec_eq] at hstill hret
    refine ⟨fun _ => ⟨hstill.toShelved, by rw [hstill.records]; exact hrec, ?_⟩, fun hr => absurd hr hret⟩
    rcases hstill.scheduled with hsame | hnone
    · rw [hsame]
      exact hsched
    · exact .inl hnone
  · refine ⟨fun hnow => absurd (hs.now_eq ▸ hnow) hlt, fun _ => not_lt.mp hlt⟩

theorem run (h : HeldBack T e g) {ls : List (Event cls)} (hrun : Run (Occurs kind Tracked) g ls g') :
    ∀ l ∈ ls, Returns e l → T ≤ l.time.toClockTime := by
  induction hrun with
  | nil _ => exact fun l hl => by cases hl
  | cons hs _ ih =>
    obtain ⟨hnext, hret⟩ := h.step hs
    intro l hl
    rcases List.mem_cons.mp hl with rfl | hl
    · exact hret
    · exact ih hnext l hl

/-- An accepted enqueue with an instant still to come only adds the id to the schedule. -/
theorem of_enqueue {x : QueueEntry cls} {r : Reply} (hblank : RecordedOrBlank g.store)
    (hs : Occurs kind Tracked g ⟨.enqueue x (some T), t, r⟩ g') (hr : r = .done) : HeldBack T x.id g' := by
  obtain ⟨hst, hfresh⟩ := hs.ok
  have hb : Blank g.store x.id := (hblank x.id).resolve_left (by simp [hfresh])
  have hexec : astoreAndPush kind x (some T) t g.store = (.done, g'.store) := hr ▸ hs.exec_eq
  intro hnow
  have hlt : t.nowUs < fl T.totalMicroseconds := by
    rw [← not_le, fl_le_nowUs_iff, not_le]
    have heq : g'.now = t := hs.now_eq
    exact heq ▸ hnow
  have hstored : g'.store = { g.store with
      records := g.store.records.set x.id x.toDict
      scheduled := g.store.scheduled.add x.id (fl T.totalMicroseconds) } := by
    have havailable (base : ℤ) (p : Bool) : Library.storeAvailable x.toDict x.id T.totalMicroseconds base p t g.store =
        { g.store with
          records := g.store.records.set x.id x.toDict
          scheduled := g.store.scheduled.add x.id (fl T.totalMicroseconds) } := by
      simp only [Library.storeAvailable, if_pos hlt]
    have hnot : x.status ≠ .terminated := by simp [hst]
    cases kind with
    | priority =>
      by_cases hp : priorityAllowed x.priority
      · simp only [astoreAndPush, if_neg hnot, hp, if_true, havailable] at hexec
        exact (congrArg Prod.snd hexec).symm
      · simp [astoreAndPush, hnot, hp] at hexec
    | _ =>
      simp only [astoreAndPush, if_neg hnot, havailable] at hexec
      exact (congrArg Prod.snd hexec).symm
  rw [hstored]
  exact ⟨⟨⟨hb.pending, hb.delayed, hb.priority⟩, hb.claim, hb.lease⟩, by simp, .inr (by simp)⟩

end HeldBack

/-- No call before the instant of a scheduled entry returns it. -/
theorem scheduled_returned_late (kind : QueueKind) (t₀ : ServerTime) (before after : List (Event cls))
    {x : QueueEntry cls} {T : ClockTime} {t : ServerTime} {g : Timed}
    (h : Run (Occurs kind Tracked) (.init t₀) (before ++ ⟨.enqueue x (some T), t, .done⟩ :: after) g) :
    ∀ l ∈ after, Returns x.id l → T ≤ l.time.toClockTime := by
  obtain ⟨g₁, hbefore, hrest⟩ := h.of_append
  have hblank : RecordedOrBlank g₁.store := by
    refine hbefore.invariant (I := fun g => RecordedOrBlank g.store) (fun g l g' hg hs => ?_) recordedOrBlank_empty
    have hnext := hg.exec hs.ok kind l.time
    rw [hs.exec_eq] at hnext
    exact hnext
  cases hrest with
  | cons hs hrun => exact (HeldBack.of_enqueue hblank hs rfl).run hrun

end DjangoQueues.Redis
