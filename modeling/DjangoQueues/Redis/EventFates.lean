import DjangoQueues.Redis.EventRuns

/-! What a call can do to one event of an event queue, whatever its deadlines. An event with
a claim is in no waiting place, so only its owner can take it away; one without a claim goes
when it is consumed directly or when its deadline has passed. -/

namespace DjangoQueues.Redis

variable {cls : EntryClass} {stack : Bool} {s s' : Store} {e id : EntryId} {t : ServerTime} {now : ℚ}

/-- Where an event is. A claim that cannot be written leaves its event in no waiting place. -/
inductive EventSite (s : Store) (e : EntryId) : Prop
  | gone (hr : s.records.get? e = none) (hc : s.claims.get? e = none) (hl : s.leases.score? e = none)
      (hp : s.places e = 0)
  | unclaimed (hs : recordStatus (s.records.get? e) = some "queued") (hc : s.claims.get? e = none)
      (hl : s.leases.score? e = none) (hp : s.places e ≤ 1)
  | claimed (hs : recordStatus (s.records.get? e) = some "queued") (hc : (s.claims.get? e).isSome)
      (hl : (s.leases.score? e).isSome) (hp : s.places e = 0)

namespace EventSite

theorem same (h : EventSite s e) (hsame : SameEvent s s' e) : EventSite s' e := by
  have hleases := hsame.leases
  cases h with
  | gone hr hc hl hp =>
    exact .gone (hsame.records.trans hr) (hsame.claims.trans hc) (by simpa [hl] using hleases)
      (hsame.places.trans hp)
  | unclaimed hs hc hl hp =>
    exact .unclaimed (by rwa [hsame.records]) (hsame.claims.trans hc) (by simpa [hl] using hleases)
      (by rwa [hsame.places])
  | claimed hs hc hl hp =>
    exact .claimed (by rwa [hsame.records]) (by rwa [hsame.claims]) (by rwa [hleases]) (hsame.places.trans hp)

theorem of_dropped (h : Dropped s e) : EventSite s e := .gone h.records h.claims h.leases h.places

/-- An event in a waiting place has no claim. -/
theorem unclaimed_of_places (h : EventSite s e) (hp : 0 < s.places e) :
    recordStatus (s.records.get? e) = some "queued" ∧ s.claims.get? e = none ∧ s.leases.score? e = none ∧
      s.places e = 1 := by
  cases h with
  | gone _ _ _ h₄ => omega
  | unclaimed h₁ h₂ h₃ h₄ => exact ⟨h₁, h₂, h₃, by omega⟩
  | claimed _ _ _ h₄ => omega

theorem of_claim (h : EventSite s e) (hc : (s.claims.get? e).isSome) :
    recordStatus (s.records.get? e) = some "queued" ∧ (s.leases.score? e).isSome ∧ s.places e = 0 := by
  cases h with
  | gone _ h₂ => simp [h₂] at hc
  | unclaimed _ h₂ => simp [h₂] at hc
  | claimed h₁ _ h₃ h₄ => exact ⟨h₁, h₃, h₄⟩

theorem claim_of_lease (h : EventSite s e) (hl : (s.leases.score? e).isSome) : (s.claims.get? e).isSome := by
  cases h with
  | gone _ _ h₃ => simp [h₃] at hl
  | unclaimed _ _ h₃ => simp [h₃] at hl
  | claimed _ h₂ => exact h₂

theorem of_record (h : EventSite s e) (hr : s.records.get? e = none) :
    s.claims.get? e = none ∧ s.leases.score? e = none ∧ s.places e = 0 := by
  cases h with
  | gone _ h₂ h₃ h₄ => exact ⟨h₂, h₃, h₄⟩
  | unclaimed h₁ =>
    rw [hr] at h₁
    cases h₁
  | claimed h₁ =>
    rw [hr] at h₁
    cases h₁

end EventSite

/-- Where every event is, and that an event queue schedules and prioritises nothing. -/
structure EventSites (s : Store) : Prop where
  site : ∀ e, EventSite s e
  scheduled : s.scheduled = .empty
  priority : s.priority = .empty

theorem eventSites_empty : EventSites .empty := ⟨fun _ => .gone rfl rfl rfl rfl, rfl, rfl⟩

/-- The unclaimed deadline of the event has passed, if it has one. -/
def Overdue (s : Store) (now : ℚ) (e : EntryId) : Prop := ∀ d, s.unclaimed.score? e = some d → d ≤ now

/-- Nothing is scheduled or prioritised. -/
def Unscheduled (s : Store) : Prop := s.scheduled = .empty ∧ s.priority = .empty

/-- A stored event is new. -/
def StoresNew (s : Store) (c : EventCall cls) : Prop :=
  ∀ x d, c = .store x d → x.status = .queued ∧ s.records.get? x.id = none

/-- The event is as it was; or it had no claim and is gone, because it was returned or overdue. -/
inductive Cleared (now : ℚ) (out : Option Json) (s s' : Store) (e : EntryId) : Prop
  | same (h : SameEvent s s' e)
  | gone (hc : s.claims.get? e = none) (hd : Dropped s' e)
      (hr : (out.isSome ∧ s.records.get? e = out) ∨ Overdue s now e)

/-- What a call at `t` with reply `r` may do to the event `e`. -/
inductive Fate (c : EventCall cls) (t : ServerTime) (r : EventReply) (s s' : Store) (e : EntryId) : Prop
  | same (h : SameEvent s s' e)
  | stored {x : QueueEntry cls} {d : ℕ} (hc : c = .store x d) (he : x.id = e) (hr : s.records.get? e = none)
      (hs : EventSite s' e) (hclaim : s'.claims.get? e = none)
  | claimed {w : WorkerId} {lease : ℕ} (hc : c = .claim w lease) (hr : r = .claimed (.ok (.claimed e)))
      (hnone : s.claims.get? e = none) (hs : EventSite s' e) (hsame : s'.records.get? e = s.records.get? e)
      (ho : s'.owner? e = some w)
  | mislaid {w : WorkerId} {lease : ℕ} (hc : c = .claim w lease) (hs : EventSite s' e)
      (hsame : s'.records.get? e = s.records.get? e) (hclaim : s'.claims.get? e = none)
  | renewed {w : WorkerId} {lease : ℕ} (hc : c = .renew w lease e) (hs : EventSite s' e)
      (hsame : s'.records.get? e = s.records.get? e) (ho : s'.owner? e = s.owner? e)
  | returned (h : Restored s t.nowUs s' e)
  | discarded (hq : recordStatus (s.records.get? e) = some "queued") (h : Discarded s s' e)
  | removed {w : WorkerId} (hc : c = .remove w e) (ho : s.owner? e = some w) (hd : Dropped s' e)
  | swept (hc : s.claims.get? e = none) (hd : Dropped s' e)
      (hr : (∃ raw, r = .dequeued (some raw) ∧ s.records.get? e = some raw) ∨ MayExpire c e ∧ Overdue s t.nowUs e)

variable {c : EventCall cls} {r : EventReply} {w : WorkerId}

namespace Fate

theorem site (h : Fate c t r s s' e) (hs : EventSite s e) : EventSite s' e := by
  cases h with
  | same h => exact hs.same h
  | stored _ _ _ hs => exact hs
  | claimed _ _ _ hs => exact hs
  | mislaid _ hs => exact hs
  | renewed _ hs => exact hs
  | returned h => exact .unclaimed h.status h.claims h.leases h.places.le
  | discarded hq h => exact .unclaimed (by rwa [h.records]) h.claims h.leases (by simp [h.places])
  | removed _ _ hd => exact .of_dropped hd
  | swept _ hd => exact .of_dropped hd

theorem owner?_eq_none (h : s.claims.get? e = none) : s.owner? e = none := by
  rw [Store.owner?, h]
  rfl

/-- A claim is the only way to become an owner. -/
theorem owner (h : Fate c t r s s' e) (ho : s'.owner? e = some w) :
    s.owner? e = some w ∨ (∃ lease, c = .claim w lease) ∧ r = .claimed (.ok (.claimed e)) := by
  have hno (hn : s'.claims.get? e = none) : False := by
    rw [owner?_eq_none hn] at ho
    cases ho
  cases h with
  | same h =>
    left
    rwa [Store.owner?, h.claims, ← Store.owner?] at ho
  | stored _ _ _ _ hclaim => exact (hno hclaim).elim
  | @claimed w' lease hc hr _ _ _ ho' =>
    right
    obtain rfl := Option.some.inj (ho'.symm.trans ho)
    exact ⟨⟨lease, hc⟩, hr⟩
  | mislaid _ _ _ hclaim => exact (hno hclaim).elim
  | renewed _ _ _ ho' => exact .inl (ho'.symm.trans ho)
  | returned h => exact (hno h.claims).elim
  | discarded _ h => exact (hno h.claims).elim
  | removed _ _ hd => exact (hno hd.claims).elim
  | swept _ hd => exact (hno hd.claims).elim

/-- A record goes only with a removal by the owner or while the event has no claim. -/
theorem gone (h : Fate c t r s s' e) (hsome : (s.records.get? e).isSome) (hnone : s'.records.get? e = none) :
    (∃ w, c = .remove w e ∧ s.owner? e = some w) ∨ s.claims.get? e = none ∧
      ((∃ raw, r = .dequeued (some raw) ∧ s.records.get? e = some raw) ∨
        MayExpire c e ∧ Overdue s t.nowUs e) := by
  have hkept (hsame : s'.records.get? e = s.records.get? e) : False := by
    rw [← hsame, hnone] at hsome
    cases hsome
  cases h with
  | same h => exact (hkept h.records).elim
  | stored _ _ hr => simp [hr] at hsome
  | claimed _ _ _ _ hsame => exact (hkept hsame).elim
  | mislaid _ _ hsame => exact (hkept hsame).elim
  | renewed _ _ hsame => exact (hkept hsame).elim
  | returned h =>
    have hq := h.status
    rw [hnone] at hq
    cases hq
  | discarded _ h => exact (hkept h.records).elim
  | @removed w hc ho _ => exact .inl ⟨w, hc, ho⟩
  | swept hc _ hr => exact .inr ⟨hc, hr⟩

/-- A record that is not there is written only when the event is stored. -/
theorem record_none (h : Fate c t r s s' e) (hnone : s.records.get? e = none)
    (hstore : ∀ x d, c = .store x d → x.id ≠ e) (hs : EventSite s e) : s'.records.get? e = none := by
  cases h with
  | same h => exact h.records.trans hnone
  | stored hc he => exact absurd he (hstore _ _ hc)
  | claimed _ _ _ _ hsame => exact hsame.trans hnone
  | mislaid _ _ hsame => exact hsame.trans hnone
  | renewed _ _ hsame => exact hsame.trans hnone
  | returned h =>
    have hq := (hs.of_claim h.claimed).1
    rw [hnone] at hq
    cases hq
  | discarded _ h => exact h.records.trans hnone
  | removed _ _ hd => exact hd.records
  | swept _ hd => exact hd.records

end Fate

namespace Cleared

variable {out : Option Json}

theorem trans {s₁ : Store} (hsame : SameEvent s s₁ e) (h : Cleared now out s₁ s' e) : Cleared now out s s' e := by
  cases h with
  | same h => exact .same (hsame.trans h)
  | gone hc hd hr =>
    refine .gone (hsame.claims.symm.trans hc) hd ?_
    unfold Overdue at hr ⊢
    rwa [hsame.records, hsame.unclaimed] at hr

theorem fate (h : Cleared t.nowUs out s s' e) : Fate (.dequeue : EventCall cls) t (.dequeued out) s s' e := by
  cases h with
  | same h => exact .same h
  | gone hc hd hr =>
    refine .swept hc hd ?_
    rcases hr with ⟨hsome, hr⟩ | hr
    · obtain ⟨raw, rfl⟩ := Option.isSome_iff_exists.mp hsome
      exact .inl ⟨raw, rfl, hr⟩
    · exact .inr ⟨trivial, hr⟩

end Cleared

namespace EventSites

theorem prepare (h : EventSites s) (stack : Bool) (t : ServerTime) (e : EntryId) :
    SameEvent s (Redis.prepare (plainKind stack) t s) e :=
  .of_sameData (prepare_sameData _ t s) (places_prepare_of_unscheduled h.scheduled e)

theorem store (h : EventSites s) {x : QueueEntry cls} {d : ℕ} (hq : x.status = .queued)
    (hf : s.records.get? x.id = none) (e : EntryId) :
    Fate (.store x d) t .done s (Library.storeEventAndPush x.toDict x.id d s) e := by
  obtain ⟨hc, hl, hp⟩ := (h.site x.id).of_record hf
  have hplaces := (enqueued_pending s x.id x.toDict).places hp
  by_cases he : e = x.id
  · subst he
    refine .stored rfl rfl hf (.unclaimed ?_ hc hl ((hplaces x.id).trans (by simp [hp])).le) hc
    change recordStatus ((s.records.set x.id x.toDict).get? x.id) = some "queued"
    rw [Dict.get?_set, if_pos rfl, recordStatus_toDict, hq]
    rfl
  · refine .same ⟨?_, rfl, rfl, (hplaces e).trans (by simp [he]), ?_⟩
    · change (s.records.set x.id x.toDict).get? e = _
      rw [Dict.get?_set, if_neg he]
    · change (s.unclaimed.add x.id (fl d)).score? e = _
      rw [SortedSet.score?_add, if_neg he]

theorem renew (h : EventSites s) (w : WorkerId) (lease : ℕ) (id : EntryId) (t : ServerTime) (r : EventReply)
    (e : EntryId) : Fate (.renew w lease id : EventCall cls) t r s (Library.renew w lease id t s).2 e := by
  rcases Library.renew_cases w lease id t s with ⟨b, hb, -⟩ | ⟨c, cur, raw, hc, -, -, henc, hb⟩
  · rw [hb]
    exact .same (.refl s e)
  · rw [hb]
    obtain ⟨raw₀, hg, -, ho⟩ := Store.ownClaim?_eq_some.mp hc
    by_cases he : e = id
    · subst he
      obtain ⟨h₁, -, h₃⟩ := (h.site e).of_claim (by simp [hg])
      have hw := Library.namesOwner_of_ownClaim hc henc
      refine .renewed rfl (.claimed h₁ (by simp) (by simp) h₃) rfl ?_
      rw [ho]
      exact (Library.owner?_of_get? (by simp)).mpr hw
    · exact .same ⟨rfl, by simp [he], by simp [he], rfl, rfl⟩

/-- Giving a claim back leaves its event waiting and the others as they were. -/
theorem giveBack {raw : Json} {claim : Lua} {q : Store} (hg : s.claims.get? id = some raw)
    (hdec : Cjson.decode raw = some claim) (hst : recordStatus (q.records.get? id) = some "queued")
    (hp : q.places id = 1) (hother : ∀ e ≠ id, SameEvent s q e) (e : EntryId) : Fate c t r s
      (Library.restoreUnclaimed (some claim) id t.nowUs (Library.dropClaim id q)) e := by
  rw [← hdec]
  by_cases he : e = id
  · subst he
    exact .returned (giveBack_restored hg hst hp)
  · exact .same (giveBack_other he (hother e he))

theorem release (h : EventSites s) (w : WorkerId) (id : EntryId) (delay : ℕ) (t : ServerTime) (r : EventReply)
    (e : EntryId) : Fate (.release w id delay : EventCall cls) t r s (Library.release w id delay t s).2 e := by
  cases hc : s.ownClaim? id w with
  | none =>
    rw [Library.release, hc]
    exact .same (.refl s e)
  | some c =>
    obtain ⟨raw, hg, hdec, -⟩ := Store.ownClaim?_eq_some.mp hc
    rw [Library.release, hc]
    obtain ⟨hst, -, hp⟩ := (h.site id).of_claim (by simp [hg])
    have hnone := none_of_places hp
    refine giveBack (q := { s with delayed := s.delayed.add id (fl (t.nowUs + fl delay)) }) hg hdec hst ?_ ?_ e
    · simp [Store.places, mult_eq_zero.mpr hnone.1, mult_eq_zero.mpr hnone.2.2.1, hnone.2.2.2]
    · intro x hx
      exact ⟨rfl, rfl, rfl, by simp [Store.places, hx], rfl⟩

theorem remove (h : EventSites s) (w : WorkerId) (id : EntryId) (t : ServerTime) (r : EventReply) (e : EntryId) :
    Fate (.remove w id : EventCall cls) t r s (Library.remove w id s).2 e := by
  cases hc : s.ownClaim? id w with
  | none =>
    rw [Library.remove, hc]
    exact .same (.refl s e)
  | some c =>
    rw [Library.remove, hc]
    obtain ⟨raw, hg, -, ho⟩ := Store.ownClaim?_eq_some.mp hc
    obtain ⟨-, -, hp⟩ := (h.site id).of_claim (by simp [hg])
    by_cases he : e = id
    · subst he
      have hnone := none_of_places hp
      refine .removed rfl ho ⟨by simp, by simp [Library.dropClaim], by simp [Library.dropClaim], ?_⟩
      simp [Store.places, Library.dropClaim, mult_eq_zero.mpr hnone.1, mult_eq_zero.mpr hnone.2.2.1,
        List.count_eq_zero]
    · refine .same ⟨by simp [Library.dropClaim, he], by simp [Library.dropClaim, he],
        by simp [Library.dropClaim, he], ?_, by simp [Library.dropClaim, he]⟩
      simp [Store.places, Library.dropClaim, List.count_filter, he]

theorem expire (h : EventSites s) (id : EntryId) (t : ServerTime) (r : EventReply) (e : EntryId) :
    Fate (.expire id : EventCall cls) t r s (Library.expire id t s).2 e := by
  rcases EventInv.expire_cases id t s with heq | ⟨hc, ⟨d, hle, hd⟩, -, heq⟩
  · rw [heq]
    exact .same (.refl s e)
  · rw [heq]
    obtain ⟨hdrop, hother⟩ := EventInv.dropEvent hc h.scheduled h.priority
    by_cases he : e = id
    · subst he
      refine .swept hc hdrop (.inr ⟨rfl, fun d' hd' => ?_⟩)
      obtain rfl := Option.some.inj (hd.symm.trans hd')
      exact hle
    · exact .same (hother e he)

/-! ## Recovery -/

theorem underClaim (h : EventSites s) (hl : (s.leases.score? e).isSome) : UnderClaim s e := by
  have hclaim := (h.site e).claim_of_lease hl
  obtain ⟨hst, -, hp⟩ := (h.site e).of_claim hclaim
  exact ⟨hst, hclaim, hl, hp⟩

theorem recovering (h : EventSites s) (batch : ℕ) (t : ServerTime) :
    ∃ ids, Recovering True s t.nowUs (Library.dueClaims batch t.nowUs s) ids (Library.recover batch t s).2 :=
  Recovering.recover (fun _ hl => h.underClaim hl) (.inl trivial) h.scheduled h.priority

theorem recover (h : EventSites s) (batch : ℕ) (t : ServerTime) (r : EventReply) (e : EntryId) :
    Fate (.recover batch : EventCall cls) t r s (Library.recover batch t s).2 e := by
  obtain ⟨ids, hrec⟩ := h.recovering batch t
  rcases hrec.event e with hsame | ⟨⟨hdue, -⟩, hres | ⟨-, hdisc⟩⟩
  · exact .same hsame
  · exact .returned hres
  · obtain ⟨x, -, hx⟩ := mem_dueClaims hdue
    exact .discarded (h.underClaim (by simp [hx])).status hdisc

/-! ## Claims and direct consumption -/

theorem prepare_unscheduled (h : EventSites s) (stack : Bool) (t : ServerTime) :
    (Redis.prepare (plainKind stack) t s).scheduled = .empty ∧
      (Redis.prepare (plainKind stack) t s).priority = .empty := by
  have hprom : Library.promoteOneScheduled t.nowUs s = s := by
    unfold Library.promoteOneScheduled
    rw [h.scheduled]
    rfl
  have hprep : Redis.prepare (plainKind stack) t s = Library.deliverDueDelayed false t.nowUs s := by
    cases stack <;> exact congrArg (Library.deliverDueDelayed false t.nowUs) hprom
  obtain ⟨l, z, heq⟩ := Library.deliverDelayed_eq false ((s.delayed.upTo t.nowUs).map Prod.snd) s
  rw [hprep, Library.deliverDueDelayed, heq]
  exact ⟨h.scheduled, h.priority⟩

/-- What is left when the id at the end of the pending list has been popped. -/
structure Popped (s p : Store) (id : EntryId) : Prop where
  queued : recordStatus (s.records.get? id) = some "queued"
  free : s.claims.get? id = none
  records : p.records = s.records
  claims : p.claims.get? id = none
  leases : p.leases.score? id = none
  places : p.places id = 0
  unclaimed : p.unclaimed.score? id = s.unclaimed.score? id
  other : ∀ e ≠ id, SameEvent s p e
  scheduled : p.scheduled = .empty
  priority : p.priority = .empty

theorem popped (h : EventSites s) {p : Store}
    (hpop : Library.popPending stack (Redis.prepare (plainKind stack) t s) = (some id, p)) : Popped s p id := by
  have htaken := Library.popPending_taken hpop
  have hprep := h.prepare stack t
  have hcount := htaken.places id
  rw [(hprep id).places, if_pos rfl] at hcount
  obtain ⟨hst, hc, hl, hone⟩ := (h.site id).unclaimed_of_places (by omega)
  have heq := (Library.popPending_some hpop).1
  obtain ⟨hsched, hprio⟩ := h.prepare_unscheduled stack t
  exact
    { queued := hst
      free := hc
      records := htaken.records.trans (prepare_sameData _ t s).records
      claims := by rw [htaken.claims, (hprep id).claims, hc]
      leases := by
        have := (hprep id).leases
        rw [htaken.leases]
        simpa [hl] using this
      places := by omega
      unclaimed := by rw [htaken.unclaimed, (hprep id).unclaimed]
      other := fun e he => (hprep e).trans (.of_sameData htaken.toSameData (by
        have := htaken.places e
        rw [if_neg he] at this
        omega))
      scheduled := by
        rw [heq]
        exact hsched
      priority := by
        rw [heq]
        exact hprio }

theorem claim (h : EventSites s) (cls : EntryClass) (stack : Bool) (w : WorkerId) (lease : ℕ) (t : ServerTime) :
    (∀ e, Fate (.claim w lease : EventCall cls) t (.claimed (Library.claim w lease stack true t s).1) s
      (Library.claim w lease stack true t s).2 e) ∧ Unscheduled (Library.claim w lease stack true t s).2 ∧
      ∀ id, (Library.claim w lease stack true t s).1 = .ok (.claimed id) →
        recordStatus (s.records.get? id) = some "queued" ∧ s.claims.get? id = none := by
  have hm : Library.deliverDueDelayed false t.nowUs (Library.promoteOneScheduled t.nowUs s) =
      Redis.prepare (plainKind stack) t s := by
    cases stack <;> rfl
  rw [Library.claim, hm]
  rcases hpop : Library.popPending stack (Redis.prepare (plainKind stack) t s) with ⟨_ | id, p⟩
  · obtain ⟨rfl, -⟩ := Library.popPending_none hpop
    exact ⟨fun e => .same (h.prepare stack t e), h.prepare_unscheduled stack t, fun id hid => by cases hid⟩
  · have hp := h.popped hpop
    have hcase := Library.claimPopped_case w lease true t id (fun s => s) (fun s => s)
      (Library.unpopPending stack id) p
    dsimp only
    generalize Library.claimPopped w lease true t id (fun s => s) (fun s => s)
      (Library.unpopPending stack id) p = out at hcase ⊢
    cases hcase with
    | expired _ hd =>
      refine ⟨fun e => ?_, ⟨hp.scheduled, hp.priority⟩, fun id hid => by cases hid⟩
      by_cases he : e = id
      · subst he
        obtain ⟨h₁, -, h₃, h₄⟩ := none_of_places hp.places
        refine .swept hp.free ⟨by simp, hp.claims, by simp, ?_⟩ (.inr ⟨trivial, fun d hd' => hd d ?_⟩)
        · simp [Store.places, mult_eq_zero.mpr h₁, mult_eq_zero.mpr h₃, h₄]
        · rw [hp.unclaimed, hd']
      · refine .same ((hp.other e he).trans ⟨by simp [he], rfl, by simp [he], ?_, by simp [he]⟩)
        simp [Store.places, he]
    | error hq _ =>
      cases hq with
      | left _ _ =>
        refine ⟨fun e => ?_, ⟨hp.scheduled, hp.priority⟩, fun id hid => by cases hid⟩
        by_cases he : e = id
        · subst he
          have hq : recordStatus (p.records.get? e) = some "queued" := by
            rw [hp.records]
            exact hp.queued
          exact .mislaid rfl (.unclaimed hq hp.claims hp.leases (hp.places.le.trans (Nat.zero_le 1)))
            (by rw [hp.records]) hp.claims
        · exact .same ((hp.other e he).trans ⟨rfl, rfl, rfl, rfl, by simp [he]⟩)
    | @claimed _ _ raw hq henc _ =>
      cases hq with
      | left _ _ =>
        refine ⟨fun e => ?_, ⟨hp.scheduled, hp.priority⟩, ?_⟩
        · by_cases he : e = id
          · subst he
            have hw := Library.namesOwner_claimTable henc
            have hq : recordStatus (p.records.get? e) = some "queued" := by
              rw [hp.records]
              exact hp.queued
            exact .claimed rfl rfl hp.free (.claimed hq (by simp) (by simp) hp.places) (by rw [hp.records])
              ((Library.owner?_of_get? (by simp)).mpr hw)
          · exact .same ((hp.other e he).trans ⟨rfl, by simp [he], by simp [he], rfl, by simp [he]⟩)
        · rintro id' hid'
          cases hid'
          exact ⟨hp.queued, hp.free⟩
    | conflict hq _ hsome =>
      cases hq with
      | left _ _ => simp [hp.claims] at hsome

/-- A claim is given only where there is none. -/
theorem free_of_claimed (h : EventSites s) {lease : ℕ} {w : WorkerId}
    (hr : (Library.claim w lease stack true t s).1 = .ok (.claimed id)) :
    recordStatus (s.records.get? id) = some "queued" ∧ s.claims.get? id = none :=
  (h.claim .base stack w lease t).2.2 id hr

theorem of_fates (h : EventSites s) (hf : ∀ e, Fate c t r s s' e) (hu : Unscheduled s') : EventSites s' :=
  ⟨fun e => (hf e).site (h.site e), hu.1, hu.2⟩

/-- Dropping an id that was popped clears it and nothing else. -/
theorem cleared_dropEvent {p : Store} (hpop : Library.popPending stack s = (some id, p)) (h : EventSites s) :
    (s.records.get? id).isSome ∧ p.claims.get? id = none ∧ s.claims.get? id = none ∧ p.records = s.records ∧
      p.unclaimed = s.unclaimed ∧ Dropped (Library.dropEvent id p) id ∧ (∀ e ≠ id, SameEvent s (Library.dropEvent id p) e) ∧
      EventSites (Library.dropEvent id p) := by
  have htaken := Library.popPending_taken hpop
  have hcount := htaken.places id
  rw [if_pos rfl] at hcount
  obtain ⟨hst, hc, -, -⟩ := (h.site id).unclaimed_of_places (by omega)
  have hsome : (s.records.get? id).isSome := by
    cases hr : s.records.get? id with
    | none =>
      rw [hr] at hst
      cases hst
    | some raw => rfl
  have hclaim : p.claims.get? id = none := by rw [htaken.claims, hc]
  have heq := (Library.popPending_some hpop).1
  have hsched : p.scheduled = .empty := by
    rw [heq]
    exact h.scheduled
  have hprio : p.priority = .empty := by
    rw [heq]
    exact h.priority
  obtain ⟨hdrop, hrest⟩ := EventInv.dropEvent hclaim hsched hprio
  have hother (e : EntryId) (he : e ≠ id) : SameEvent s (Library.dropEvent id p) e := by
    have hplaces := htaken.places e
    rw [if_neg he] at hplaces
    exact .trans (.of_sameData htaken.toSameData (by omega)) (hrest e he)
  refine ⟨hsome, hclaim, hc, htaken.records, htaken.unclaimed, hdrop, hother, fun e => ?_, hsched, hprio⟩
  by_cases he : e = id
  · subst he
    exact .of_dropped hdrop
  · exact (h.site e).same (hother e he)

/-- By induction on the iterations: each pops an id without a claim, and drops it. -/
theorem dequeueEventLoop (h : EventSites s) (stack : Bool) (now : ℚ) (n : ℕ) :
    (∀ e, Cleared now (Library.dequeueEventLoop stack now n s).1 s (Library.dequeueEventLoop stack now n s).2 e) ∧
      Unscheduled (Library.dequeueEventLoop stack now n s).2 := by
  induction n generalizing s with
  | zero => exact ⟨fun e => .same (.refl s e), h.scheduled, h.priority⟩
  | succ n ih =>
    unfold Library.dequeueEventLoop
    rcases hpop : Library.popPending stack s with ⟨_ | id, p⟩
    · obtain ⟨rfl, -⟩ := Library.popPending_none hpop
      exact ⟨fun e => .same (.refl _ e), h.scheduled, h.priority⟩
    · obtain ⟨hsome, hclaim, hfree, hrec, hunclaimed, hdrop, hother, hsites⟩ := cleared_dropEvent hpop h
      simp only [hclaim, Option.isSome_none, Bool.false_eq_true, if_false]
      -- an id without a live record is dropped, and the loop goes on
      have hgoOn (hdead : Overdue s now id) :
          (∀ e, Cleared now (Library.dequeueEventLoop stack now n (Library.dropEvent id p)).1 s
            (Library.dequeueEventLoop stack now n (Library.dropEvent id p)).2 e) ∧
            Unscheduled (Library.dequeueEventLoop stack now n (Library.dropEvent id p)).2 := by
        obtain ⟨hclear, hu⟩ := ih hsites
        refine ⟨fun e => ?_, hu⟩
        by_cases he : e = id
        · subst he
          refine .gone hfree ?_ (.inr hdead)
          cases hclear e with
          | same hsame => exact hdrop.congr hsame
          | gone _ hd => exact hd
        · exact (hclear e).trans (hother e he)
      split
      · next raw deadline hraw hdeadline =>
        split_ifs with hlt
        · refine ⟨fun e => ?_, hsites.scheduled, hsites.priority⟩
          by_cases he : e = id
          · subst he
            exact .gone hfree hdrop (.inl ⟨rfl, by rw [← hrec, hraw]⟩)
          · exact .same (hother e he)
        · refine hgoOn fun d hd => ?_
          rw [← hunclaimed, hdeadline] at hd
          obtain rfl := Option.some.inj hd
          exact not_lt.mp hlt
      · next hdead =>
        refine hgoOn fun d hd => ?_
        obtain ⟨raw, hraw⟩ := Option.isSome_iff_exists.mp hsome
        exact (hdead raw d (by rw [hrec, hraw]) (by rw [hunclaimed, hd])).elim

theorem dequeue (h : EventSites s) (stack : Bool) (t : ServerTime) :
    (∀ e, Fate (.dequeue : EventCall cls) t (.dequeued (Library.dequeueEvent stack t s).1) s
      (Library.dequeueEvent stack t s).2 e) ∧ Unscheduled (Library.dequeueEvent stack t s).2 := by
  have hsame (e : EntryId) : SameEvent s (Library.deliverDueDelayed false t.nowUs s) e :=
    .of_sameData (Library.deliverDueDelayed_sameData _ _ s) (Library.places_deliverDueDelayed _ _ e)
  have hsites : EventSites (Library.deliverDueDelayed false t.nowUs s) := by
    obtain ⟨l, z, heq⟩ := Library.deliverDelayed_eq false ((s.delayed.upTo t.nowUs).map Prod.snd) s
    refine ⟨fun e => (h.site e).same (hsame e), ?_, ?_⟩
    · rw [Library.deliverDueDelayed, heq]
      exact h.scheduled
    · rw [Library.deliverDueDelayed, heq]
      exact h.priority
  obtain ⟨hclear, hu⟩ := hsites.dequeueEventLoop stack t.nowUs
    (Library.deliverDueDelayed false t.nowUs s).pending.length
  exact ⟨fun e => ((hclear e).trans (hsame e)).fate, hu⟩

/-! ## Every call -/

theorem exec (h : EventSites s) (hok : StoresNew s c) (stack : Bool) (t : ServerTime) :
    (∀ e, Fate c t (execEvent stack c t s).1 s (execEvent stack c t s).2 e) ∧
      EventSites (execEvent stack c t s).2 := by
  suffices hall : (∀ e, Fate c t (execEvent stack c t s).1 s (execEvent stack c t s).2 e) ∧
      Unscheduled (execEvent stack c t s).2 from ⟨hall.1, h.of_fates hall.1 hall.2⟩
  cases c with
  | store x d =>
    obtain ⟨hq, hf⟩ := hok x d rfl
    exact ⟨h.store hq hf, h.scheduled, h.priority⟩
  | claim w lease =>
    obtain ⟨hfate, hu, -⟩ := h.claim cls stack w lease t
    exact ⟨hfate, hu⟩
  | renew w lease id =>
    refine ⟨h.renew w lease id t _, ?_⟩
    rcases Library.renew_cases w lease id t s with ⟨b, hb, -⟩ | ⟨_, _, _, -, -, -, -, hb⟩
    all_goals
      simp only [execEvent, hb]
      exact ⟨h.scheduled, h.priority⟩
  | release w id delay =>
    refine ⟨h.release w id delay t _, ?_⟩
    simp only [execEvent, Library.release]
    cases s.ownClaim? id w with
    | none => exact ⟨h.scheduled, h.priority⟩
    | some c =>
      dsimp only
      rw [Library.restoreUnclaimed_eq]
      exact ⟨h.scheduled, h.priority⟩
  | remove w id =>
    refine ⟨h.remove w id t _, ?_⟩
    simp only [execEvent, Library.remove]
    cases s.ownClaim? id w <;> exact ⟨h.scheduled, h.priority⟩
  | recover batch =>
    obtain ⟨ids, hrec⟩ := h.recovering batch t
    exact ⟨h.recover batch t _, hrec.scheduled, hrec.priority⟩
  | expire id =>
    refine ⟨h.expire id t _, ?_⟩
    rcases EventInv.expire_cases id t s with heq | ⟨-, -, -, heq⟩
    all_goals
      simp only [execEvent, heq]
      exact ⟨h.scheduled, h.priority⟩
  | dequeue => exact h.dequeue stack t

end EventSites

end DjangoQueues.Redis
