import DjangoQueues.Redis.EventFates
import DjangoQueues.Worker.Listeners

/-! Any number of event workers on one Redis event queue. A worker claims an event, reads its
record, renews the claim once and then visits its listeners; each of its calls can fail or be
cancelled, and a claim can expire and be recovered in between. Whatever they do, a delivery
whose claim was recovered has no effect on the event any more. -/

namespace DjangoQueues.Redis

open EventWorker (Visit rotated)

variable {cls : EntryClass} {ρ : Type} {stack : Bool} {registrations : List ρ}

/-- How far a worker is with the event of its delivery, the `n`-th of that event. -/
inductive Delivery (ρ : Type) where
  | idle
  | claimed (id : EntryId) (n : ℕ)
  | discarding (id : EntryId) (n : ℕ)
  | received (id : EntryId) (n : ℕ)
  | listening (id : EntryId) (n : ℕ) (rest : List (ℕ × ρ))
  | removing (id : EntryId) (n : ℕ) (decision : Visit)
  | releasing (id : EntryId) (n : ℕ)

namespace Delivery

/-- The event of the delivery and its number. -/
def on : Delivery ρ → Option (EntryId × ℕ)
  | .idle => none
  | .claimed id n => some (id, n)
  | .discarding id n => some (id, n)
  | .received id n => some (id, n)
  | .listening id n _ => some (id, n)
  | .removing id n _ => some (id, n)
  | .releasing id n => some (id, n)

/-- Where the visit of a listener leads, with `rest` still to visit. -/
def visited (id : EntryId) (n : ℕ) (rest : List (ℕ × ρ)) (v : Visit) : Delivery ρ :=
  match v.outcome with
  | .next => .listening id n rest
  | .settle .remove => .removing id n v
  | .settle .release => .releasing id n
  | .cancelled => .releasing id n
  | .leaseLost => .idle
  | .exited => .idle

/-- The call that ends the delivery. -/
def settlement (w : WorkerId) (delay : ℕ) : Delivery ρ → Option (EventCall cls)
  | .discarding id _ => some (.remove w id)
  | .removing id _ _ => some (.remove w id)
  | .releasing id _ => some (.release w id delay)
  | _ => none

end Delivery

/-- The store, the workers, and what an observer notes: how often each event was claimed and
who claimed it last. -/
structure EventSystem (ρ : Type) where
  store : Store
  now : ServerTime
  delivery : WorkerId → Delivery ρ
  cursor : WorkerId → ℤ
  turn : EntryId → ℕ
  holder : EntryId → Option WorkerId

namespace EventSystem

def init (t : ServerTime) : EventSystem ρ := ⟨.empty, t, fun _ => .idle, fun _ => -1, fun _ => 0, fun _ => none⟩

def setDelivery (w : WorkerId) (d : Delivery ρ) (g : EventSystem ρ) : EventSystem ρ :=
  { g with delivery := Function.update g.delivery w d }

/-- The effect of a call on the store. -/
def called (stack : Bool) (c : EventCall cls) (t : ServerTime) (g : EventSystem ρ) : EventSystem ρ :=
  { g with
    store := (execEvent stack c t g.store).2
    now := t }

/-- A claim is answered. -/
def claimed (w : WorkerId) (g : EventSystem ρ) : Except ScriptError ClaimOutcome → EventSystem ρ
  | .ok (.claimed id) =>
    { g with
      delivery := Function.update g.delivery w (.claimed id (g.turn id + 1))
      turn := Function.update g.turn id (g.turn id + 1)
      holder := Function.update g.holder id (some w) }
  | _ => g

end EventSystem

inductive EventWork (cls : EntryClass) where
  | call (c : EventCall cls) (t : ServerTime)
  | claim (w : WorkerId) (lease : ℕ) (t : ServerTime)
  | read (w : WorkerId)
  | confirm (w : WorkerId) (lease : ℕ) (t : ServerTime)
  | visit (w : WorkerId) (v : Visit)
  | pass (w : WorkerId)
  | settle (w : WorkerId) (delay : ℕ) (t : ServerTime)
  | settleCancelled (w : WorkerId) (delay : ℕ) (t : ServerTime)
  | cancel (w : WorkerId)
  | fail (w : WorkerId)

/-- Calls that are made at any time: by the queue, by its direct consumers and by renewal
tasks. -/
def SharedCall : EventCall cls → Prop
  | .claim .. | .release .. | .remove .. => False
  | _ => True

/-- One step of the system. -/
inductive EventSystemStep (stack : Bool) (registrations : List ρ) :
    EventSystem ρ → EventWork cls → EventSystem ρ → Prop
  | call {g : EventSystem ρ} {c : EventCall cls} {t : ServerTime} (ht : g.now ≤ t) (hc : SharedCall c)
      (hnew : StoresNew g.store c) : EventSystemStep stack registrations g (.call c t) (g.called stack c t)
  | claim {g : EventSystem ρ} {w : WorkerId} {lease : ℕ} {t : ServerTime} (ht : g.now ≤ t)
      (hd : g.delivery w = .idle) :
    EventSystemStep stack registrations g (.claim w lease t)
      ((g.called stack (.claim w lease : EventCall cls) t).claimed w (Library.claim w lease stack true t g.store).1)
  | found {g : EventSystem ρ} {w : WorkerId} {id : EntryId} {n : ℕ} (hd : g.delivery w = .claimed id n)
      (hr : (g.store.records.get? id).isSome) :
    EventSystemStep stack registrations g (.read w) (g.setDelivery w (.received id n))
  /-- `QueueEntryMissingError`. -/
  | missing {g : EventSystem ρ} {w : WorkerId} {id : EntryId} {n : ℕ} (hd : g.delivery w = .claimed id n)
      (hr : g.store.records.get? id = none) :
    EventSystemStep stack registrations g (.read w) (g.setDelivery w (.discarding id n))
  | confirmed {g : EventSystem ρ} {w : WorkerId} {lease : ℕ} {t : ServerTime} {id : EntryId} {n : ℕ}
      (ht : g.now ≤ t) (hd : g.delivery w = .received id n)
      (hok : (Library.renew w lease id t g.store).1 = .ok true) :
    EventSystemStep stack registrations g (.confirm w lease t)
      ((g.called stack (.renew w lease id : EventCall cls) t).setDelivery w
        (.listening id n (rotated (g.cursor w) registrations)))
  /-- The claim is lost before dispatch, or the call has raised. -/
  | unconfirmed {g : EventSystem ρ} {w : WorkerId} {lease : ℕ} {t : ServerTime} {id : EntryId} {n : ℕ}
      (ht : g.now ≤ t) (hd : g.delivery w = .received id n)
      (hok : (Library.renew w lease id t g.store).1 ≠ .ok true) :
    EventSystemStep stack registrations g (.confirm w lease t)
      ((g.called stack (.renew w lease id : EventCall cls) t).setDelivery w .idle)
  | visit {g : EventSystem ρ} {w : WorkerId} {v : Visit} {id : EntryId} {n index : ℕ} {registration : ρ}
      {rest : List (ℕ × ρ)} (hd : g.delivery w = .listening id n ((index, registration) :: rest)) :
    EventSystemStep stack registrations g (.visit w v)
      ({ g with cursor := Function.update g.cursor w index }.setDelivery w (.visited id n rest v))
  | pass {g : EventSystem ρ} {w : WorkerId} {id : EntryId} {n : ℕ} (hd : g.delivery w = .listening id n []) :
    EventSystemStep stack registrations g (.pass w) (g.setDelivery w (.releasing id n))
  | settle {g : EventSystem ρ} {w : WorkerId} {delay : ℕ} {t : ServerTime} {c : EventCall cls} (ht : g.now ≤ t)
      (hd : (g.delivery w).settlement w delay = some c) :
    EventSystemStep stack registrations g (.settle w delay t) ((g.called stack c t).setDelivery w .idle)
  /-- The call takes place, but the worker is cancelled while it waits for the answer. -/
  | settleCancelled {g : EventSystem ρ} {w : WorkerId} {delay : ℕ} {t : ServerTime} {c : EventCall cls}
      {id : EntryId} {n : ℕ} (ht : g.now ≤ t) (hd : (g.delivery w).settlement w delay = some c)
      (hon : (g.delivery w).on = some (id, n)) (hread : g.delivery w ≠ .discarding id n) :
    EventSystemStep stack registrations g (.settleCancelled w delay t)
      ((g.called stack c t).setDelivery w (.releasing id n))
  /-- `CancelledError` inside `_dispatch`. -/
  | cancelListening {g : EventSystem ρ} {w : WorkerId} {id : EntryId} {n : ℕ} {rest : List (ℕ × ρ)}
      (hd : g.delivery w = .listening id n rest) :
    EventSystemStep stack registrations g (.cancel w) (g.setDelivery w (.releasing id n))
  | cancelRemoving {g : EventSystem ρ} {w : WorkerId} {id : EntryId} {n : ℕ} {v : Visit}
      (hd : g.delivery w = .removing id n v) :
    EventSystemStep stack registrations g (.cancel w) (g.setDelivery w (.releasing id n))
  /-- An exception ends the delivery, or the process dies; its runtime starts a worker again. -/
  | fail {g : EventSystem ρ} {w : WorkerId} :
    EventSystemStep stack registrations g (.fail w)
      ({ g with cursor := Function.update g.cursor w (-1) }.setDelivery w .idle)

/-! ## The invariant -/

/-- The owner of a claim is the last to have claimed the event, and a worker that still has
that claim is in the last delivery. -/
structure EventSystemInv (g : EventSystem ρ) : Prop where
  sites : EventSites g.store
  owner : ∀ e w, g.store.owner? e = some w → g.holder e = some w
  current : ∀ e w n, (g.delivery w).on = some (e, n) → g.holder e = some w → g.turn e = n
  discarding : ∀ e w n, g.delivery w = .discarding e n → g.store.owner? e ≠ some w
  decided : ∀ e w n v, g.delivery w = .removing e n v → v.Decides

theorem eventSystemInv_init (t : ServerTime) : EventSystemInv (.init t : EventSystem ρ) where
  sites := eventSites_empty
  owner _ _ h := by cases h
  current _ _ _ h := by cases h
  discarding _ _ _ h := by cases h
  decided _ _ _ _ h := by cases h

/-- How the delivery of `w` may go on without a claim. -/
structure Continues (s' : Store) (w : WorkerId) (d d' : Delivery ρ) : Prop where
  on : d'.on = none ∨ d'.on = d.on
  discarding : ∀ e n, d' = .discarding e n → d = .discarding e n ∨ s'.owner? e ≠ some w
  decided : ∀ e n v, d' = .removing e n v → d = .removing e n v ∨ v.Decides

namespace Continues

variable {s' : Store} {w : WorkerId} {d : Delivery ρ}

theorem refl (s' : Store) (w : WorkerId) (d : Delivery ρ) : Continues s' w d d where
  on := .inr rfl
  discarding _ _ h := .inl h
  decided _ _ _ h := .inl h

theorem idle (s' : Store) (w : WorkerId) (d : Delivery ρ) : Continues s' w d .idle where
  on := .inl rfl
  discarding _ _ h := by cases h
  decided _ _ _ h := by cases h

/-- To a point of the same delivery at which nothing is removed. -/
theorem of_on {d' : Delivery ρ} (hon : d'.on = d.on) (hdisc : ∀ e n, d' ≠ .discarding e n)
    (hrem : ∀ e n v, d' ≠ .removing e n v) : Continues s' w d d' where
  on := .inr hon
  discarding e n h := absurd h (hdisc e n)
  decided e n v h := absurd h (hrem e n v)

theorem visited {id : EntryId} {n : ℕ} {rest : List (ℕ × ρ)} {v : Visit} (hon : d.on = some (id, n)) :
    Continues s' w d (.visited id n rest v) := by
  have hmeaning := v.outcome_meaning
  unfold Delivery.visited
  generalize v.outcome = o at hmeaning
  cases hmeaning with
  | next => exact .of_on hon.symm (by simp) (by simp)
  | release => exact .of_on hon.symm (by simp) (by simp)
  | remove h =>
    refine ⟨.inr hon.symm, (fun e n h' => by cases h'), fun e n' v' h' => ?_⟩
    cases h'
    exact .inr h
  | leaseLost => exact .idle s' w d
  | cancelled => exact .of_on hon.symm (by simp) (by simp)
  | exited => exact .idle s' w d

end Continues

/-- No owner is new. -/
def OwnersNarrow (s s' : Store) : Prop := ∀ e w, s'.owner? e = some w → s.owner? e = some w

namespace EventSystemInv

variable {g g' : EventSystem ρ}

theorem of_narrow (h : EventSystemInv g) (hs : EventSites g'.store) (hn : OwnersNarrow g.store g'.store)
    (ht : g'.turn = g.turn) (hh : g'.holder = g.holder)
    (hd : ∀ w, Continues g'.store w (g.delivery w) (g'.delivery w)) : EventSystemInv g' where
  sites := hs
  owner e w ho := by
    rw [hh]
    exact h.owner e w (hn e w ho)
  current e w n hon hw := by
    rw [ht]
    rw [hh] at hw
    rcases (hd w).on with hno | hsame
    · cases hno.symm.trans hon
    · exact h.current e w n (hsame.symm.trans hon) hw
  discarding e w n hdisc := by
    rcases (hd w).discarding e n hdisc with hold | hno
    · exact fun ho => h.discarding e w n hold (hn e w ho)
    · exact hno
  decided e w n v hrem := by
    rcases (hd w).decided e n v hrem with hold | hv
    · exact h.decided e w n v hold
    · exact hv

theorem setDelivery {w : WorkerId} {d : Delivery ρ} (h : EventSystemInv g)
    (hd : Continues g.store w (g.delivery w) d) : EventSystemInv (g.setDelivery w d) := by
  refine h.of_narrow h.sites (fun _ _ ho => ho) rfl rfl fun w' => ?_
  by_cases hw : w' = w
  · subst hw
    simpa [EventSystem.setDelivery] using hd
  · simpa [EventSystem.setDelivery, hw] using Continues.refl g.store w' (g.delivery w')

theorem setCursor (h : EventSystemInv g) (cursor : WorkerId → ℤ) : EventSystemInv { g with cursor := cursor } :=
  ⟨h.sites, h.owner, h.current, h.discarding, h.decided⟩

theorem ownersNarrow {c : EventCall cls} (h : EventSystemInv g) (hnew : StoresNew g.store c)
    (hclaim : ∀ w lease, c ≠ .claim w lease) (stack : Bool) (t : ServerTime) :
    OwnersNarrow g.store (execEvent stack c t g.store).2 := by
  intro e w ho
  rcases ((h.sites.exec hnew stack t).1 e).owner ho with ho | ⟨⟨lease, hc⟩, -⟩
  · exact ho
  · exact absurd hc (hclaim w lease)

theorem called {c : EventCall cls} (h : EventSystemInv g) (hnew : StoresNew g.store c)
    (hclaim : ∀ w lease, c ≠ .claim w lease) (stack : Bool) (t : ServerTime) :
    EventSystemInv (g.called stack c t) :=
  h.of_narrow (h.sites.exec hnew stack t).2 (h.ownersNarrow hnew hclaim stack t) rfl rfl fun w =>
    .refl _ w (g.delivery w)

theorem settlement_eq {w : WorkerId} {delay : ℕ} {d : Delivery ρ} {c : EventCall cls}
    (hd : d.settlement w delay = some c) :
    (∃ id n, d = .discarding id n ∧ c = .remove w id) ∨ (∃ id n v, d = .removing id n v ∧ c = .remove w id) ∨
      ∃ id n, d = .releasing id n ∧ c = .release w id delay := by
  cases d with
  | discarding id n => exact .inl ⟨id, n, rfl, (Option.some.inj hd).symm⟩
  | removing id n v => exact .inr (.inl ⟨id, n, v, rfl, (Option.some.inj hd).symm⟩)
  | releasing id n => exact .inr (.inr ⟨id, n, rfl, (Option.some.inj hd).symm⟩)
  | _ => cases hd

/-- A settlement neither stores nor claims. -/
theorem settlement_ne {w : WorkerId} {delay : ℕ} {d : Delivery ρ} {c : EventCall cls}
    (hd : d.settlement w delay = some c) : (∀ x d, c ≠ .store x d) ∧ ∀ w' lease, c ≠ .claim w' lease := by
  rcases settlement_eq hd with ⟨_, _, -, rfl⟩ | ⟨_, _, _, -, rfl⟩ | ⟨_, _, -, rfl⟩ <;> simp

theorem storesNew_of {c : EventCall cls} {s : Store} (h : ∀ x d, c ≠ .store x d) : StoresNew s c :=
  fun x d hc => absurd hc (h x d)

theorem claim (h : EventSystemInv g) {w : WorkerId} (hidle : g.delivery w = .idle) (lease : ℕ) (stack : Bool)
    (t : ServerTime) : EventSystemInv ((g.called stack (.claim w lease : EventCall cls) t).claimed w
      (Library.claim w lease stack true t g.store).1) := by
  have hnew : StoresNew g.store (.claim w lease : EventCall cls) := storesNew_of (by simp)
  obtain ⟨hfates, hsites⟩ := h.sites.exec hnew stack t
  have howner : ∀ e w', (execEvent stack (.claim w lease : EventCall cls) t g.store).2.owner? e = some w' →
      g.store.owner? e = some w' ∨ w' = w ∧ (Library.claim w lease stack true t g.store).1 = .ok (.claimed e) := by
    intro e w' ho
    rcases (hfates e).owner ho with ho | ⟨⟨_, hc⟩, hr⟩
    · exact .inl ho
    · cases hc
      simp only [execEvent, EventReply.claimed.injEq] at hr
      exact .inr ⟨rfl, hr⟩
  by_cases hr : ∃ id, (Library.claim w lease stack true t g.store).1 = .ok (.claimed id)
  · obtain ⟨id, hr⟩ := hr
    rw [hr] at howner ⊢
    obtain ⟨-, hnone⟩ := h.sites.free_of_claimed hr
    have hother : ∀ e w', g.store.owner? e = some w' → e ≠ id := by
      rintro e w' ho rfl
      rw [Fate.owner?_eq_none hnone] at ho
      cases ho
    exact
      { sites := hsites
        owner := fun e w' ho => by
          rcases howner e w' ho with ho | ⟨rfl, hid⟩
          · simpa [EventSystem.claimed, EventSystem.called, hother e w' ho] using h.owner e w' ho
          · cases hid
            simp [EventSystem.claimed]
        current := fun e w' n hon hholder => by
          by_cases hw : w' = w
          · subst hw
            simp only [EventSystem.claimed, Function.update_self, Delivery.on, Option.some.injEq, Prod.mk.injEq] at hon
            obtain ⟨rfl, rfl⟩ := hon
            simp [EventSystem.claimed, EventSystem.called]
          · -- the new holder is another worker
            have he : e ≠ id := by
              rintro rfl
              simp [EventSystem.claimed] at hholder
              exact hw hholder.symm
            simp only [EventSystem.claimed, EventSystem.called, Function.update_of_ne hw,
              Function.update_of_ne he] at hon hholder ⊢
            exact h.current e w' n hon hholder
        discarding := fun e w' n hdisc ho => by
          by_cases hw : w' = w
          · subst hw
            simp [EventSystem.claimed] at hdisc
          · simp only [EventSystem.claimed, EventSystem.called, Function.update_of_ne hw] at hdisc
            rcases howner e w' ho with ho | ⟨hw', -⟩
            · exact h.discarding e w' n hdisc ho
            · exact hw hw'
        decided := fun e w' n v hrem => by
          by_cases hw : w' = w
          · subst hw
            simp [EventSystem.claimed] at hrem
          · simp only [EventSystem.claimed, EventSystem.called, Function.update_of_ne hw] at hrem
            exact h.decided e w' n v hrem }
  · have hsame : (g.called stack (.claim w lease : EventCall cls) t).claimed w
        (Library.claim w lease stack true t g.store).1 = g.called stack (.claim w lease : EventCall cls) t := by
      unfold EventSystem.claimed
      split
      · next id hid => exact absurd ⟨id, hid⟩ hr
      · rfl
    rw [hsame]
    refine h.of_narrow hsites (fun e w' ho => ?_) rfl rfl fun w' => .refl _ w' (g.delivery w')
    rcases howner e w' ho with ho | ⟨-, hid⟩
    · exact ho
    · exact absurd ⟨e, hid⟩ hr

theorem step {a : EventWork cls} (h : EventSystemInv g) (hs : EventSystemStep stack registrations g a g') :
    EventSystemInv g' := by
  cases hs with
  | @call c t ht hc hnew => exact h.called hnew (fun w lease hcl => by simp [hcl, SharedCall] at hc) stack t
  | claim ht hd => exact h.claim hd _ stack _
  | found hd hr => exact h.setDelivery (.of_on (by rw [hd]; rfl) (by simp) (by simp))
  | @missing w id n hd hr =>
    refine h.setDelivery ⟨.inr (by rw [hd]; rfl), fun e n' he => .inr ?_, (fun e n' v he => by cases he)⟩
    -- without a record there is no claim
    cases he
    rw [Fate.owner?_eq_none ((h.sites.site id).of_record hr).1]
    simp
  | confirmed ht hd hok =>
    exact (h.called (storesNew_of (by simp)) (by simp) stack _).setDelivery
      (.of_on (by rw [EventSystem.called, hd]; rfl) (by simp) (by simp))
  | unconfirmed ht hd hok =>
    exact (h.called (storesNew_of (by simp)) (by simp) stack _).setDelivery (.idle ..)
  | visit hd => exact (h.setCursor _).setDelivery (.visited (by rw [hd]; rfl))
  | pass hd => exact h.setDelivery (.of_on (by rw [hd]; rfl) (by simp) (by simp))
  | settle ht hd =>
    obtain ⟨hstore, hclaim⟩ := settlement_ne hd
    exact (h.called (storesNew_of hstore) hclaim stack _).setDelivery (.idle ..)
  | settleCancelled ht hd hon =>
    obtain ⟨hstore, hclaim⟩ := settlement_ne hd
    exact (h.called (storesNew_of hstore) hclaim stack _).setDelivery (.of_on hon.symm (by simp) (by simp))
  | cancelListening hd => exact h.setDelivery (.of_on (by rw [hd]; rfl) (by simp) (by simp))
  | cancelRemoving hd => exact h.setDelivery (.of_on (by rw [hd]; rfl) (by simp) (by simp))
  | fail => exact (h.setCursor _).setDelivery (.idle ..)

end EventSystemInv

theorem eventSystemInv_run {t₀ : ServerTime} {as : List (EventWork cls)} {g : EventSystem ρ}
    (hrun : Run (EventSystemStep stack registrations) (.init t₀) as g) : EventSystemInv g :=
  hrun.invariant (fun _ _ _ h hs => h.step hs) (eventSystemInv_init t₀)

/-! ## Disposal -/

/-- The call a step makes. -/
inductive Calls (g : EventSystem ρ) : EventWork cls → EventCall cls → ServerTime → Prop
  | call (c : EventCall cls) (t : ServerTime) (hc : SharedCall c) : Calls g (.call c t) c t
  | claim (w : WorkerId) (lease : ℕ) (t : ServerTime) : Calls g (.claim w lease t) (.claim w lease) t
  | confirm {w : WorkerId} {id : EntryId} {n : ℕ} (hd : g.delivery w = .received id n) (lease : ℕ) (t : ServerTime) :
    Calls g (.confirm w lease t) (.renew w lease id) t
  | settle {w : WorkerId} {delay : ℕ} {c : EventCall cls} (hd : (g.delivery w).settlement w delay = some c)
      (t : ServerTime) : Calls g (.settle w delay t) c t
  | settleCancelled {w : WorkerId} {delay : ℕ} {c : EventCall cls}
      (hd : (g.delivery w).settlement w delay = some c) (t : ServerTime) : Calls g (.settleCancelled w delay t) c t

/-- How the event `e` can go with the call `c` at `t`: its last delivery has decided, a direct
consumer gets it, or it is overdue and nobody has a claim. -/
inductive Disposal (stack : Bool) (g : EventSystem ρ) (c : EventCall cls) (t : ServerTime) (e : EntryId) : Prop
  | decided {w : WorkerId} {n : ℕ} {v : Visit} (hc : c = .remove w e) (hd : g.delivery w = .removing e n v)
      (hv : v.Decides) (hturn : g.turn e = n) (hholder : g.holder e = some w)
  | returned {raw : Json} (hr : (execEvent stack c t g.store).1 = .dequeued (some raw))
      (hs : g.store.records.get? e = some raw) (hfree : g.store.claims.get? e = none)
  | overdue (hc : MayExpire c e) (hlate : Overdue g.store t.nowUs e) (hfree : g.store.claims.get? e = none)

namespace EventSystemInv

variable {g g' : EventSystem ρ}

theorem claimed_store (w : WorkerId) (g : EventSystem ρ) (r : Except ScriptError ClaimOutcome) :
    (g.claimed w r).store = g.store := by
  unfold EventSystem.claimed
  split <;> rfl

theorem claimed_turn (w : WorkerId) (g : EventSystem ρ) {r : Except ScriptError ClaimOutcome} {e : EntryId}
    (hr : r ≠ .ok (.claimed e)) : (g.claimed w r).turn e = g.turn e := by
  unfold EventSystem.claimed
  split
  · next id =>
    have hne : e ≠ id := by
      rintro rfl
      exact hr rfl
    exact Function.update_of_ne hne _ _
  · rfl

/-- A step makes no call, and claims nothing, or it makes one. -/
theorem step_calls {a : EventWork cls} (h : EventSystemInv g) (hs : EventSystemStep stack registrations g a g') :
    (g'.store = g.store ∧ g'.turn = g.turn) ∨ ∃ c t, Calls g a c t ∧ StoresNew g.store c ∧
      g'.store = (execEvent stack c t g.store).2 ∧
      ∀ e, g'.turn e ≠ g.turn e → g.store.claims.get? e = none ∧ (g.store.records.get? e).isSome := by
  have hquiet {c : EventCall cls} {t : ServerTime} {d : Delivery ρ} {w : WorkerId} : ∀ e : EntryId,
      ((g.called stack c t).setDelivery w d).turn e ≠ g.turn e →
      g.store.claims.get? e = none ∧ (g.store.records.get? e).isSome := fun e he => absurd rfl he
  cases hs with
  | call ht hc hnew => exact .inr ⟨_, _, .call _ _ hc, hnew, rfl, fun e he => absurd rfl he⟩
  | @claim w lease t ht hd =>
    refine .inr ⟨_, t, .claim w lease t, storesNew_of (by simp), claimed_store w _ _, fun e he => ?_⟩
    by_cases hr : (Library.claim w lease stack true t g.store).1 = .ok (.claimed e)
    · obtain ⟨hq, hnone⟩ := h.sites.free_of_claimed hr
      refine ⟨hnone, ?_⟩
      cases hrec : g.store.records.get? e with
      | none =>
        rw [hrec] at hq
        cases hq
      | some raw => rfl
    · exact absurd (claimed_turn w _ hr) he
  | confirmed ht hd hok => exact .inr ⟨_, _, .confirm hd _ _, storesNew_of (by simp), rfl, hquiet⟩
  | unconfirmed ht hd hok => exact .inr ⟨_, _, .confirm hd _ _, storesNew_of (by simp), rfl, hquiet⟩
  | settle ht hd => exact .inr ⟨_, _, .settle hd _, storesNew_of (settlement_ne hd).1, rfl, hquiet⟩
  | settleCancelled ht hd =>
    exact .inr ⟨_, _, .settleCancelled hd _, storesNew_of (settlement_ne hd).1, rfl, hquiet⟩
  | _ => exact .inl ⟨rfl, rfl⟩

/-- A removal that has an effect comes from a decision of the last delivery. -/
theorem decided_of_remove {a : EventWork cls} {c : EventCall cls} {t : ServerTime} {w : WorkerId} {e : EntryId}
    (h : EventSystemInv g) (hcalls : Calls g a c t) (hc : c = .remove w e) (ho : g.store.owner? e = some w) :
    Disposal stack g c t e := by
  have hholder := h.owner e w ho
  have hsettles {w' : WorkerId} {delay : ℕ} (hd : (g.delivery w').settlement w' delay = some c) :
      Disposal stack g c t e := by
    rcases settlement_eq hd with ⟨id, n, hdel, hc'⟩ | ⟨id, n, v, hdel, hc'⟩ | ⟨id, n, -, hc'⟩
    · cases hc.symm.trans hc'
      exact absurd ho (h.discarding e w n hdel)
    · cases hc.symm.trans hc'
      exact .decided hc hdel (h.decided e w n v hdel) (h.current e w n (by rw [hdel]; rfl) hholder) hholder
    · cases hc.symm.trans hc'
  cases hcalls with
  | call _ _ hshared =>
    rw [hc] at hshared
    exact hshared.elim
  | claim => cases hc
  | confirm => cases hc
  | settle hd => exact hsettles hd
  | settleCancelled hd => exact hsettles hd

theorem disposal {a : EventWork cls} {e : EntryId} (h : EventSystemInv g)
    (hs : EventSystemStep stack registrations g a g') (hsome : (g.store.records.get? e).isSome)
    (hnone : g'.store.records.get? e = none) : ∃ c t, Calls g a c t ∧ Disposal stack g c t e := by
  rcases h.step_calls hs with ⟨hsame, -⟩ | ⟨c, t, hcalls, hnew, hstore, -⟩
  · rw [hsame] at hnone
    simp [hnone] at hsome
  · rw [hstore] at hnone
    refine ⟨c, t, hcalls, ?_⟩
    rcases ((h.sites.exec hnew stack t).1 e).gone hsome hnone with ⟨w, hc, ho⟩ | ⟨hfree, ⟨raw, hr, hraw⟩ | ⟨hm, hlate⟩⟩
    · exact h.decided_of_remove hcalls hc ho
    · exact .returned hr hraw hfree
    · exact .overdue hm hlate hfree

/-- The calls of a delivery that is not the last are refused. -/
theorem refused {w : WorkerId} {e : EntryId} {n : ℕ} (h : EventSystemInv g) (hon : (g.delivery w).on = some (e, n))
    (hold : g.turn e ≠ n ∨ g.holder e ≠ some w) (t : ServerTime) :
    execEvent stack (.remove w e : EventCall cls) t g.store = (.flag false, g.store) ∧
      (∀ delay, execEvent stack (.release w e delay : EventCall cls) t g.store = (.flag false, g.store)) ∧
      ∀ lease, execEvent stack (.renew w lease e : EventCall cls) t g.store = (.renewed (.ok false), g.store) := by
  have howner : g.store.owner? e ≠ some w := fun ho => by
    have hholder := h.owner e w ho
    rcases hold with hold | hold
    · exact hold (h.current e w n hon hholder)
    · exact hold hholder
  have hno := Store.ownClaim?_eq_none.mpr howner
  exact ⟨by simp only [execEvent, Library.remove, hno], fun delay => by simp only [execEvent, Library.release, hno],
    fun lease => by simp only [execEvent, Library.renew, hno]⟩

/-- An event that is gone and not stored again stays gone. -/
theorem stays_gone {a : EventWork cls} {e : EntryId} (h : EventSystemInv g)
    (hs : EventSystemStep stack registrations g a g') (hnone : g.store.records.get? e = none)
    (hstore : ∀ x d t, a = .call (.store x d) t → x.id ≠ e) :
    g'.store.records.get? e = none ∧ g'.turn e = g.turn e := by
  rcases h.step_calls hs with ⟨hsame, hturn⟩ | ⟨c, t, hcalls, hnew, heq, hclaimed⟩
  · exact ⟨by rwa [hsame], by rw [hturn]⟩
  · rw [heq]
    refine ⟨((h.sites.exec hnew stack t).1 e).record_none hnone (fun x d hc => ?_) (h.sites.site e), ?_⟩
    · subst hc
      cases hcalls with
      | call _ _ _ => exact hstore x d t rfl
      | settle hd => exact absurd rfl ((settlement_ne hd).1 x d)
      | settleCancelled hd => exact absurd rfl ((settlement_ne hd).1 x d)
    · by_contra hne
      obtain ⟨-, hsome⟩ := hclaimed e hne
      simp [hnone] at hsome

end EventSystemInv

/-- In every run of any number of workers, an event goes only by a decision of a listener in
its last delivery, to a direct consumer or when it is overdue without a claim; a delivery that
is not the last any more can neither remove, release nor renew it; a claim is given only where
there is none; and an event that is gone is never claimed again. -/
theorem event_consumed_by_last_delivery (stack : Bool) (registrations : List ρ) (t₀ : ServerTime)
    {as : List (EventWork cls)} {g : EventSystem ρ}
    (hrun : Run (EventSystemStep stack registrations) (.init t₀) as g) :
    (∀ a g' e, EventSystemStep stack registrations g a g' → (g.store.records.get? e).isSome →
        g'.store.records.get? e = none → ∃ c t, Calls g (a : EventWork cls) c t ∧ Disposal stack g c t e) ∧
      (∀ w e n t, (g.delivery w).on = some (e, n) → g.turn e ≠ n ∨ g.holder e ≠ some w →
        execEvent stack (.remove w e : EventCall cls) t g.store = (.flag false, g.store) ∧
        (∀ delay, execEvent stack (.release w e delay : EventCall cls) t g.store = (.flag false, g.store)) ∧
        ∀ lease, execEvent stack (.renew w lease e : EventCall cls) t g.store = (.renewed (.ok false), g.store)) ∧
      (∀ (a : EventWork cls) g' e, EventSystemStep stack registrations g a g' → g'.turn e ≠ g.turn e →
        g.store.claims.get? e = none ∧ (g.store.records.get? e).isSome) ∧
      ∀ (after : List (EventWork cls)) g' e, Run (EventSystemStep stack registrations) g after g' →
        g.store.records.get? e = none → (∀ a ∈ after, ∀ x d t, a = .call (.store x d) t → x.id ≠ e) →
        g'.store.records.get? e = none ∧ g'.turn e = g.turn e := by
  have hinv := eventSystemInv_run hrun
  refine ⟨fun a g' e hs hsome hnone => hinv.disposal hs hsome hnone,
    fun w e n t hon hold => hinv.refused hon hold t, fun a g' e hs he => ?_, fun after g' e hrest hnone hstore => ?_⟩
  · rcases hinv.step_calls hs with ⟨-, hturn⟩ | ⟨c, t, -, -, -, hclaimed⟩
    · exact absurd (by rw [hturn]) he
    · exact hclaimed e he
  · have hlast := hrest.invariant_of_forall
      (I := fun g' => EventSystemInv g' ∧ g'.store.records.get? e = none ∧ g'.turn e = g.turn e)
      (fun g₁ a g₂ hno hI hs => by
        obtain ⟨hr, ht⟩ := hI.1.stays_gone hs hI.2.1 hno
        exact ⟨hI.1.step hs, hr, ht.trans hI.2.2⟩) hstore ⟨hinv, hnone, rfl⟩
    exact hlast.2

/-- One listener that answers `True`. -/
def acceptingVisit : Visit := ⟨none, .returned .isTrue, false⟩

namespace EventSystem

def startTime : ServerTime := .ofSeconds 1000 ServerTime.second_1000

/-- The first claim has run out by then. -/
def lateTime : ServerTime := .ofSeconds 2000 ServerTime.second_2000

def claimedBy (w : WorkerId) (t : ServerTime) (g : EventSystem Unit) : EventSystem Unit :=
  (g.called false (.claim w defaultClaimLease : EventCall .base) t).claimed w (.ok (.claimed (.ofLast 1)))

def receivedBy (w : WorkerId) (t : ServerTime) (g : EventSystem Unit) : EventSystem Unit :=
  (g.claimedBy w t).setDelivery w (.received (.ofLast 1) (g.turn (.ofLast 1) + 1))

def listeningBy (w : WorkerId) (t : ServerTime) (g : EventSystem Unit) : EventSystem Unit :=
  ((g.receivedBy w t).called false (.renew w defaultClaimLease (.ofLast 1) : EventCall .base) t).setDelivery w
    (.listening (.ofLast 1) (g.turn (.ofLast 1) + 1) [(0, ())])

/-- The worker has claimed the event and its only listener has accepted it. -/
def acceptedBy (w : WorkerId) (t : ServerTime) (g : EventSystem Unit) : EventSystem Unit :=
  { g.listeningBy w t with cursor := Function.update (g.listeningBy w t).cursor w (0 : ℕ) }.setDelivery w
    (.removing (.ofLast 1) (g.turn (.ofLast 1) + 1) acceptingVisit)

theorem run_acceptedBy {g : EventSystem Unit} {w : WorkerId} {t : ServerTime} (ht : g.now ≤ t)
    (hidle : g.delivery w = .idle) (hcursor : rotated (g.cursor w) [()] = [(0, ())])
    (hclaim : (Library.claim w defaultClaimLease false true t g.store).1 = .ok (.claimed (.ofLast 1)))
    (hfound : ((g.claimedBy w t).store.records.get? (.ofLast 1)).isSome)
    (hrenew : (Library.renew w defaultClaimLease (.ofLast 1) t (g.claimedBy w t).store).1 = .ok true) :
    ∃ as : List (EventWork .base), Run (EventSystemStep false [()]) g as (g.acceptedBy w t) := by
  have hs₁ : EventSystemStep false [()] g (.claim w defaultClaimLease t : EventWork .base) (g.claimedBy w t) := by
    have hs : EventSystemStep false [()] g (.claim w defaultClaimLease t : EventWork .base) _ := .claim ht hidle
    rwa [hclaim] at hs
  have hs₂ : EventSystemStep false [()] (g.claimedBy w t) (.read w : EventWork .base) (g.receivedBy w t) :=
    .found (Function.update_self ..) hfound
  have hs₃ : EventSystemStep false [()] (g.receivedBy w t) (.confirm w defaultClaimLease t : EventWork .base)
      (g.listeningBy w t) := by
    have hs : EventSystemStep false [()] (g.receivedBy w t) (.confirm w defaultClaimLease t : EventWork .base) _ :=
      .confirmed t.le_refl (Function.update_self ..) hrenew
    have hsame : (g.receivedBy w t).cursor w = g.cursor w := rfl
    rwa [hsame, hcursor] at hs
  have hs₄ : EventSystemStep false [()] (g.listeningBy w t) (.visit w acceptingVisit : EventWork .base)
      (g.acceptedBy w t) := .visit (Function.update_self ..)
  exact ⟨_, .cons hs₁ (.cons hs₂ (.cons hs₃ (.cons hs₄ (.nil _))))⟩

/-- One event, with a deadline a thousand seconds ahead. -/
def storedOne : EventSystem Unit :=
  (init startTime).called false (.store (.plain (.ofLast 1) .null) 2000000000 : EventCall .base) startTime

/-- The claim of the first worker is recovered after its decision. -/
def recoveredOne : EventSystem Unit :=
  (storedOne.acceptedBy "v" startTime).called false (.recover 1 : EventCall .base) lateTime

end EventSystem

open EventSystem (startTime lateTime storedOne recoveredOne run_acceptedBy)

/-- Two workers have decided about the one event. -/
theorem run_acceptedTwice : ∃ as : List (EventWork .base),
    Run (EventSystemStep false [()]) (.init startTime) as (recoveredOne.acceptedBy "w" lateTime) := by
  have hstore : EventSystemStep false [()] (.init startTime)
      (.call (.store (.plain (.ofLast 1) .null) 2000000000 : EventCall .base) startTime) storedOne :=
    .call startTime.le_refl trivial fun x d hx => by
      cases hx
      exact ⟨rfl, rfl⟩
  obtain ⟨_, hfirst⟩ := run_acceptedBy (g := storedOne) (w := "v") startTime.le_refl rfl (by decide) (by decide +kernel)
    (by decide +kernel) (by decide +kernel)
  have hrecover : EventSystemStep false [()] (storedOne.acceptedBy "v" startTime)
      (.call (.recover 1 : EventCall .base) lateTime) recoveredOne := .call (by decide) trivial fun _ _ hx => by cases hx
  obtain ⟨_, hsecond⟩ := run_acceptedBy (g := recoveredOne) (w := "w") lateTime.le_refl rfl (by decide)
    (by decide +kernel) (by decide +kernel) (by decide +kernel)
  exact ⟨_, .cons hstore (hfirst.append (.cons hrecover hsecond))⟩

/-- The removal by the second is its own decision; that of the first is refused. -/
theorem event_consumed_by_last_delivery_accepted :
    let g := recoveredOne.acceptedBy "w" lateTime
    (∃ c t, Calls g (.settle "w" 0 lateTime : EventWork .base) c t ∧ Disposal false g c t (.ofLast 1)) ∧
      (g.delivery "v").on = some (.ofLast 1, 1) ∧
      execEvent false (.remove "v" (.ofLast 1) : EventCall .base) lateTime g.store = (.flag false, g.store) := by
  obtain ⟨as, hrun⟩ := run_acceptedTwice
  obtain ⟨hdisposed, hstale, -⟩ := event_consumed_by_last_delivery false [()] startTime hrun
  have hsettle : EventSystemStep false [()] (recoveredOne.acceptedBy "w" lateTime)
      (.settle "w" 0 lateTime : EventWork .base)
      (((recoveredOne.acceptedBy "w" lateTime).called false (.remove "w" (.ofLast 1) : EventCall .base)
        lateTime).setDelivery "w" .idle) := .settle lateTime.le_refl rfl
  have hfirst : ((recoveredOne.acceptedBy "w" lateTime).delivery "v").on = some (.ofLast 1, 1) := by decide +kernel
  refine ⟨hdisposed _ _ _ hsettle (by decide +kernel) ?_, hfirst, (hstale _ _ _ _ hfirst (.inl ?_)).1⟩
  · rw [← Option.isNone_iff_eq_none]
    decide +kernel
  · decide +kernel

end DjangoQueues.Redis
