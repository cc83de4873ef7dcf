import DjangoQueues.Lib.Run

/-! Deferred observer registrations of one alias. A step of a call of `_activate_pending_for`
is one block under `_pending_by_alias_lock`, or what `_register_now` does between two of
them. -/

namespace DjangoQueues.Observers.Activation

/-- The identity of a `_PendingRegistration`, of a `QueueSubscription` and of a call. -/
abbrev PendingId := ℕ
abbrev SubscriptionId := ℕ
abbrev CallId := ℕ

structure PendingRegistration where
  cancelled : Bool
  activating : Bool
  subscription : Option SubscriptionId

structure Subscription where
  pending : PendingId
  active : Bool

/-- Where a call of `_activate_pending_for` is. -/
inductive Phase where
  /-- In the first loop, with the entries still to look at and those it has claimed. -/
  | claiming (todo claimed : List PendingId)
  /-- At the head of the second loop. -/
  | registering (todo : List PendingId)
  /-- In `start_one`, after the registration was activated. -/
  | starting (p : PendingId) (k : SubscriptionId) (todo : List PendingId)
  /-- Before the `finally` block. -/
  | finishing (p : PendingId) (subscription : Option SubscriptionId) (todo : List PendingId) (raised : Bool)
  /-- About to unsubscribe what was cancelled in flight. -/
  | tearing (k : SubscriptionId) (todo : List PendingId)

structure Call where
  /-- The call whose `start_one` made this one. -/
  parent : Option CallId
  phase : Phase

structure State where
  /-- `_pending_by_alias` of the alias. -/
  pendings : List PendingId
  pending : PendingId → PendingRegistration
  subscription : SubscriptionId → Option Subscription
  calls : CallId → Option Call
  /-- The calls of `DecoratorSubscription.unsubscribe` that have left their locked block. -/
  unsubscribing : CallId → Option SubscriptionId
  /-- For the reader of a run: `unsubscribe` has been called. -/
  unsubscribed : PendingId → Bool

namespace State

def init : State where
  pendings := []
  pending := fun _ => ⟨false, false, none⟩
  subscription := fun _ => none
  calls := fun _ => none
  unsubscribing := fun _ => none
  unsubscribed := fun _ => false

def setPhase (c : CallId) (parent : Option CallId) (phase : Phase) (s : State) : State :=
  { s with calls := Function.update s.calls c (some ⟨parent, phase⟩) }

def setPending (p : PendingId) (g : PendingRegistration) (s : State) : State :=
  { s with pending := Function.update s.pending p g }

/-- `QueueSubscription.unsubscribe`. -/
def deactivate (k : SubscriptionId) (s : State) : State :=
  { s with subscription := Function.update s.subscription k ((s.subscription k).map fun x => { x with active := false }) }

/-- The entry is skipped by the first loop. -/
def skips (s : State) (p : PendingId) : Bool :=
  (s.pending p).cancelled || (s.pending p).activating || (s.pending p).subscription.isSome

/-- No call made by the `start_one` of this one is in progress. -/
def Alone (s : State) (c : CallId) : Prop := ∀ c' call, s.calls c' = some call → call.parent ≠ some c

/-- An exception that leaves a nested call leaves `start_one` and `_register_now` of its caller. -/
def raiseIn (parent : Option CallId) (s : State) : State :=
  match parent with
  | none => s
  | some c =>
    match s.calls c with
    | some ⟨grandparent, .starting p _ todo⟩ => s.setPhase c grandparent (.finishing p none todo true)
    | _ => s

end State

inductive Action where
  | defer (p : PendingId)
  | call (c : CallId)
  | nest (c c' : CallId)
  | claim (c : CallId)
  | registerRaise (c : CallId)
  | register (c : CallId) (k : SubscriptionId)
  | startRaise (c : CallId)
  | startReturn (c : CallId)
  | finish (c : CallId)
  | tearDown (c : CallId)
  | ret (c : CallId)
  | unsubscribe (u : CallId) (p : PendingId)
  | unsubscribeEnd (u : CallId)

open State

inductive Step (s : State) : Action → State → Prop
  | defer {p : PendingId} (hp : p ∉ s.pendings) : Step s (.defer p) { s with pendings := s.pendings ++ [p] }
  | call {c : CallId} (hc : s.calls c = none) :
    Step s (.call c) (s.setPhase c none (.claiming s.pendings []))
  /-- The re-entrant call through `start_one`. -/
  | nest {c c' : CallId} {parent : Option CallId} {p : PendingId} {k : SubscriptionId} {todo : List PendingId}
      (hc : s.calls c = some ⟨parent, .starting p k todo⟩) (hc' : s.calls c' = none) (halone : s.Alone c) :
    Step s (.nest c c') (s.setPhase c' (some c) (.claiming s.pendings []))
  | skip {c : CallId} {parent : Option CallId} {p : PendingId} {todo claimed : List PendingId}
      (hc : s.calls c = some ⟨parent, .claiming (p :: todo) claimed⟩) (hp : s.skips p = true) :
    Step s (.claim c) (s.setPhase c parent (.claiming todo claimed))
  | claim {c : CallId} {parent : Option CallId} {p : PendingId} {todo claimed : List PendingId}
      (hc : s.calls c = some ⟨parent, .claiming (p :: todo) claimed⟩) (hp : s.skips p = false) :
    Step s (.claim c) ((s.setPending p { s.pending p with activating := true }).setPhase c parent
      (.claiming todo (claimed ++ [p])))
  | claimed {c : CallId} {parent : Option CallId} {claimed : List PendingId}
      (hc : s.calls c = some ⟨parent, .claiming [] claimed⟩) :
    Step s (.claim c) (s.setPhase c parent (.registering claimed))
  /-- `_register_now` refuses the queue, or takes its registration back because `list` raised. -/
  | registerRaise {c : CallId} {parent : Option CallId} {p : PendingId} {todo : List PendingId}
      (hc : s.calls c = some ⟨parent, .registering (p :: todo)⟩) :
    Step s (.registerRaise c) (s.setPhase c parent (.finishing p none todo true))
  | register {c : CallId} {k : SubscriptionId} {parent : Option CallId} {p : PendingId} {todo : List PendingId}
      (hc : s.calls c = some ⟨parent, .registering (p :: todo)⟩) (hk : s.subscription k = none) :
    Step s (.register c k) (setPhase c parent (.starting p k todo)
      { s with subscription := Function.update s.subscription k (some ⟨p, true⟩) })
  | startRaise {c : CallId} {parent : Option CallId} {p : PendingId} {k : SubscriptionId} {todo : List PendingId}
      (hc : s.calls c = some ⟨parent, .starting p k todo⟩) (halone : s.Alone c) :
    Step s (.startRaise c) (s.setPhase c parent (.finishing p none todo true))
  | startReturn {c : CallId} {parent : Option CallId} {p : PendingId} {k : SubscriptionId} {todo : List PendingId}
      (hc : s.calls c = some ⟨parent, .starting p k todo⟩) (halone : s.Alone c) :
    Step s (.startReturn c) (s.setPhase c parent (.finishing p (some k) todo false))
  /-- The `finally` block of an attempt that raised: the call ends with the exception. -/
  | finishRaised {c : CallId} {parent : Option CallId} {p : PendingId} {v : Option SubscriptionId}
      {todo : List PendingId} (hc : s.calls c = some ⟨parent, .finishing p v todo true⟩) :
    Step s (.finish c) (raiseIn parent { s.setPending p { s.pending p with activating := false } with
      calls := Function.update s.calls c none })
  | finish {c : CallId} {parent : Option CallId} {p : PendingId} {k : SubscriptionId} {todo : List PendingId}
      (hc : s.calls c = some ⟨parent, .finishing p (some k) todo false⟩) :
    Step s (.finish c) ((s.setPending p { s.pending p with activating := false, subscription := some k }).setPhase c
      parent (if (s.pending p).cancelled then .tearing k todo else .registering todo))
  | tearDown {c : CallId} {parent : Option CallId} {k : SubscriptionId} {todo : List PendingId}
      (hc : s.calls c = some ⟨parent, .tearing k todo⟩) :
    Step s (.tearDown c) ((s.deactivate k).setPhase c parent (.registering todo))
  | ret {c : CallId} {parent : Option CallId} (hc : s.calls c = some ⟨parent, .registering []⟩) :
    Step s (.ret c) { s with calls := Function.update s.calls c none }
  | cancel {u : CallId} {p : PendingId} (hp : (s.pending p).subscription = none) :
    Step s (.unsubscribe u p) { s.setPending p { s.pending p with cancelled := true } with
      unsubscribed := Function.update s.unsubscribed p true }
  | unsubscribe {u : CallId} {p : PendingId} {k : SubscriptionId} (hu : s.unsubscribing u = none)
      (hp : (s.pending p).subscription = some k) :
    Step s (.unsubscribe u p) { s with
      unsubscribing := Function.update s.unsubscribing u (some k)
      unsubscribed := Function.update s.unsubscribed p true }
  | unsubscribeEnd {u : CallId} {k : SubscriptionId} (hu : s.unsubscribing u = some k) :
    Step s (.unsubscribeEnd u) { s.deactivate k with unsubscribing := Function.update s.unsubscribing u none }

/-- No call of `_activate_pending_for` or of `unsubscribe` is in progress. -/
structure Quiet (s : State) : Prop where
  calls : ∀ c, s.calls c = none
  unsubscribing : ∀ u, s.unsubscribing u = none

/-- `_register_now` raises only before its registration is active, outside `start_one`, and for
the last entry its call has claimed. -/
def RaisesLast (s : State) : Action → Prop
  | .registerRaise c => ∀ parent p todo, s.calls c = some ⟨parent, .registering (p :: todo)⟩ → parent = none ∧ todo = []
  | .startRaise _ => False
  | _ => True

structure LastStep (s : State) (a : Action) (s' : State) : Prop where
  step : Step s a s'
  raisesLast : RaisesLast s a

/-! ## What a call has in hand -/

/-- The entries a call has claimed and not given back. -/
def Phase.holds : Phase → List PendingId
  | .claiming _ claimed => claimed
  | .registering todo => todo
  | .starting p _ todo => p :: todo
  | .finishing p _ todo _ => p :: todo
  | .tearing _ todo => todo

/-- The call has made a subscription that it is going to write into the entry. -/
def Phase.Owes (phase : Phase) (p : PendingId) (k : SubscriptionId) : Prop :=
  (∃ todo, phase = .starting p k todo) ∨ ∃ todo, phase = .finishing p (some k) todo false

theorem Phase.Owes.mem {phase : Phase} {p : PendingId} {k : SubscriptionId} (h : phase.Owes p k) : p ∈ phase.holds := by
  rcases h with ⟨todo, rfl⟩ | ⟨todo, rfl⟩ <;> exact List.mem_cons_self ..

structure Inv (s : State) : Prop where
  activating : ∀ p, (s.pending p).activating = true ↔ ∃ c call, s.calls c = some call ∧ p ∈ call.phase.holds
  nodup : ∀ c call, s.calls c = some call → call.phase.holds.Nodup
  single : ∀ c call c' call' p, s.calls c = some call → s.calls c' = some call' → p ∈ call.phase.holds →
    p ∈ call'.phase.holds → c = c'
  held : ∀ c call p, s.calls c = some call → p ∈ call.phase.holds → (s.pending p).subscription = none
  owned : ∀ k x, s.subscription k = some x → (s.pending x.pending).subscription = some k ∨
    ∃ c call, s.calls c = some call ∧ call.phase.Owes x.pending k
  subscribed : ∀ p k, (s.pending p).subscription = some k → ∃ x, s.subscription k = some x ∧ x.pending = p
  owes : ∀ c call p k, s.calls c = some call → call.phase.Owes p k → ∃ x, s.subscription k = some x ∧ x.pending = p
  raised : ∀ c parent p v todo, s.calls c = some ⟨parent, .finishing p v todo true⟩ → parent = none ∧ todo = []
  unsubscribing : ∀ u k, s.unsubscribing u = some k → ∃ p, (s.pending p).subscription = some k
  tearing : ∀ c parent k todo, s.calls c = some ⟨parent, .tearing k todo⟩ → ∃ p, (s.pending p).subscription = some k
  cancelled : ∀ p, s.unsubscribed p = true → (s.pending p).cancelled = true ∨ (s.pending p).subscription.isSome
  active : ∀ k p, s.subscription k = some ⟨p, true⟩ → s.unsubscribed p = true →
    (∃ u, s.unsubscribing u = some k) ∨ (∃ c parent todo, s.calls c = some ⟨parent, .tearing k todo⟩) ∨
      (s.pending p).cancelled = true ∧ ∃ c call, s.calls c = some call ∧ call.phase.Owes p k

variable {s s' t : State} {c : CallId} {parent : Option CallId} {p : PendingId} {k : SubscriptionId} {v : Option Call}
  {P : Phase → Prop}

/-- Some call is in a phase with this property. -/
def Somewhere (s : State) (P : Phase → Prop) : Prop := ∃ c call, s.calls c = some call ∧ P call.phase

/-- A call other than `c` is. -/
def Elsewhere (s : State) (c : CallId) (P : Phase → Prop) : Prop :=
  ∃ c' call, c' ≠ c ∧ s.calls c' = some call ∧ P call.phase

/-- The call, if there is one, is. -/
def Within (v : Option Call) (P : Phase → Prop) : Prop := ∃ call, v = some call ∧ P call.phase

@[simp] theorem within_none : Within none P ↔ False := by simp [Within]

@[simp] theorem within_some {call : Call} : Within (some call) P ↔ P call.phase := by simp [Within]

theorem somewhere_iff (c : CallId) : Somewhere s P ↔ Within (s.calls c) P ∨ Elsewhere s c P := by
  constructor
  · rintro ⟨c', call, hcall, hP⟩
    by_cases heq : c' = c
    · exact .inl ⟨call, heq ▸ hcall, hP⟩
    · exact .inr ⟨c', call, heq, hcall, hP⟩
  · rintro (⟨call, hcall, hP⟩ | ⟨c', call, -, hcall, hP⟩)
    · exact ⟨c, call, hcall, hP⟩
    · exact ⟨c', call, hcall, hP⟩

theorem calls_update (ht : t.calls = Function.update s.calls c v) {c' : CallId} {call : Call}
    (hcall : t.calls c' = some call) : c' = c ∧ v = some call ∨ c' ≠ c ∧ s.calls c' = some call := by
  rw [ht, Function.update_apply] at hcall
  split_ifs at hcall with heq
  · exact .inl ⟨heq, hcall⟩
  · exact .inr ⟨heq, hcall⟩

theorem somewhere_update (ht : t.calls = Function.update s.calls c v) :
    Somewhere t P ↔ Within v P ∨ Elsewhere s c P := by
  constructor
  · rintro ⟨c', call, hcall, hP⟩
    rcases calls_update ht hcall with ⟨-, hv⟩ | ⟨hne, hs⟩
    · exact .inl ⟨call, hv, hP⟩
    · exact .inr ⟨c', call, hne, hs, hP⟩
  · rintro (⟨call, hv, hP⟩ | ⟨c', call, hne, hs, hP⟩)
    · exact ⟨c, call, by rw [ht, Function.update_self, hv], hP⟩
    · exact ⟨c', call, by rw [ht, Function.update_of_ne hne, hs], hP⟩

attribute [simp] Phase.holds

@[simp] theorem owes_claiming {todo claimed : List PendingId} : (Phase.claiming todo claimed).Owes p k ↔ False := by
  simp [Phase.Owes]

@[simp] theorem owes_registering {todo : List PendingId} : (Phase.registering todo).Owes p k ↔ False := by
  simp [Phase.Owes]

@[simp] theorem owes_starting {p' : PendingId} {k' : SubscriptionId} {todo : List PendingId} :
    (Phase.starting p k todo).Owes p' k' ↔ p = p' ∧ k = k' := by
  simp [Phase.Owes]

@[simp] theorem owes_finishing {p' : PendingId} {v : Option SubscriptionId} {k' : SubscriptionId} {todo : List PendingId}
    {raised : Bool} : (Phase.finishing p v todo raised).Owes p' k' ↔ p = p' ∧ v = some k' ∧ raised = false := by
  simp [Phase.Owes]

@[simp] theorem owes_tearing {p' : PendingId} {k' : SubscriptionId} {todo : List PendingId} :
    (Phase.tearing k todo).Owes p' k' ↔ False := by
  simp [Phase.Owes]

theorem deactivate_inv {k' : SubscriptionId} {x : Subscription} (hx : (s.deactivate k).subscription k' = some x) :
    ∃ y, s.subscription k' = some y ∧ y.pending = x.pending ∧ (x.active = true → k' ≠ k ∧ y = x) := by
  simp only [deactivate, Function.update_apply] at hx
  split_ifs at hx with heq
  · obtain ⟨y, hy, rfl⟩ := Option.map_eq_some_iff.mp hx
    exact ⟨y, heq ▸ hy, rfl, fun h => by cases h⟩
  · exact ⟨x, hx, rfl, fun _ => ⟨heq, rfl⟩⟩

theorem deactivate_some {k' : SubscriptionId} (hx : ∃ x, s.subscription k' = some x ∧ x.pending = p) :
    ∃ x, (s.deactivate k).subscription k' = some x ∧ x.pending = p := by
  obtain ⟨x, hx, hp⟩ := hx
  simp only [deactivate, Function.update_apply]
  split_ifs with heq
  · exact ⟨{ x with active := false }, by rw [← heq, hx]; rfl, hp⟩
  · exact ⟨x, hx, hp⟩

theorem pending_setPending {α : Type} {f : PendingRegistration → α} {g : PendingRegistration}
    (hg : f g = f (s.pending p)) (q : PendingId) : f ((s.setPending p g).pending q) = f (s.pending q) := by
  simp only [setPending, Function.update_apply]
  split_ifs with hq
  · rw [hg, hq]
  · rfl

namespace Inv

theorem init : Inv State.init where
  activating := fun p => ⟨(fun h => by cases h), (fun ⟨c, call, h, _⟩ => by cases h)⟩
  nodup := fun c call h => by cases h
  single := fun c call c' call' p h => by cases h
  held := fun c call p h => by cases h
  owned := fun k x h => by cases h
  subscribed := fun p k h => by cases h
  owes := fun c call p k h => by cases h
  raised := fun c parent p v todo h => by cases h
  unsubscribing := fun u k h => by cases h
  tearing := fun c parent k todo h => by cases h
  cancelled := fun p h => by cases h
  active := fun k p h => by cases h

/-- At most one subscription was ever made for an entry. -/
theorem unique (h : Inv s) {k k' : SubscriptionId} {x x' : Subscription} (hk : s.subscription k = some x)
    (hk' : s.subscription k' = some x') (heq : x.pending = x'.pending) : k = k' := by
  rcases h.owned k x hk with hsub | ⟨c, call, hc, howes⟩
  · rcases h.owned k' x' hk' with hsub' | ⟨c', call', hc', howes'⟩
    · rw [heq] at hsub
      exact Option.some.inj (hsub.symm.trans hsub')
    · rw [heq] at hsub
      cases (h.held c' call' _ hc' howes'.mem).symm.trans hsub
  · rcases h.owned k' x' hk' with hsub' | ⟨c', call', hc', howes'⟩
    · rw [← heq] at hsub'
      cases (h.held c call _ hc howes.mem).symm.trans hsub'
    · rw [← heq] at howes'
      obtain rfl := h.single c call c' call' _ hc hc' howes.mem howes'.mem
      obtain rfl := Option.some.inj (hc.symm.trans hc')
      rcases howes with ⟨todo, hp⟩ | ⟨todo, hp⟩ <;> rcases howes' with ⟨todo', hp'⟩ | ⟨todo', hp'⟩ <;>
        rw [hp] at hp' <;> cases hp' <;> rfl

theorem not_elsewhere (h : Inv s) (hp : Within (s.calls c) (p ∈ ·.holds)) : ¬Elsewhere s c (p ∈ ·.holds) := by
  rintro ⟨c', call', hne, hc', hp'⟩
  obtain ⟨call, hc, hp⟩ := hp
  exact hne (h.single c' call' c call p hc' hc hp' hp)

end Inv

/-- What a step may do that turns the call `c` into `v`: only entries that are free are taken, only
what was owed is written into an entry, and what is made is owed. -/
structure Turn (s : State) (c : CallId) (v : Option Call) (t : State) : Prop where
  calls : t.calls = Function.update s.calls c v
  unsubscribing : t.unsubscribing = s.unsubscribing
  unsubscribed : t.unsubscribed = s.unsubscribed
  cancelled : ∀ p, (t.pending p).cancelled = (s.pending p).cancelled
  activating : ∀ p, (t.pending p).activating = true ↔
    Within v (p ∈ ·.holds) ∨ ¬Within (s.calls c) (p ∈ ·.holds) ∧ (s.pending p).activating = true
  nodup : ∀ call, v = some call → call.phase.holds.Nodup
  taken : ∀ p, Within v (p ∈ ·.holds) → Within (s.calls c) (p ∈ ·.holds) ∨ s.skips p = false
  written : ∀ p, (t.pending p).subscription = (s.pending p).subscription ∨
    ¬Within v (p ∈ ·.holds) ∧ ∃ k, Within (s.calls c) (·.Owes p k) ∧ (t.pending p).subscription = some k
  made : ∀ k, t.subscription k = s.subscription k ∨
    s.subscription k = none ∧ ∃ p, t.subscription k = some ⟨p, true⟩ ∧ Within v (·.Owes p k)
  owes : ∀ p k, Within v (·.Owes p k) → Within (s.calls c) (·.Owes p k) ∨ t.subscription k = some ⟨p, true⟩
  paid : ∀ p k, Within (s.calls c) (·.Owes p k) → Within v (·.Owes p k) ∨ (t.pending p).subscription = some k ∧
    ((s.pending p).cancelled = true → ∃ parent todo, v = some ⟨parent, .tearing k todo⟩)
  tearing : ∀ parent k todo, v = some ⟨parent, .tearing k todo⟩ → ∃ p, (t.pending p).subscription = some k
  torn : ∀ parent k todo, s.calls c = some ⟨parent, .tearing k todo⟩ → ∀ p, s.subscription k ≠ some ⟨p, true⟩
  raised : ∀ parent p o todo, v = some ⟨parent, .finishing p o todo true⟩ → parent = none ∧ todo = []

namespace Turn

/-- A subscription that an entry has is not replaced. -/
theorem subscription_kept (h : Inv s) (ht : Turn s c v t) (hk : (s.pending p).subscription = some k) :
    (t.pending p).subscription = some k := by
  rcases ht.written p with heq | ⟨-, k', ⟨call, hc, ho⟩, -⟩
  · rw [heq, hk]
  · cases (h.held c call p hc ho.mem).symm.trans hk

theorem made_kept (ht : Turn s c v t) {x : Subscription} (hk : s.subscription k = some x) : t.subscription k = some x := by
  rcases ht.made k with heq | ⟨hnone, -⟩
  · rw [heq, hk]
  · cases hnone.symm.trans hk

/-- An entry in the hands of another call is left alone. -/
theorem elsewhere_untouched (h : Inv s) (ht : Turn s c v t) (hp : Elsewhere s c (p ∈ ·.holds)) :
    ¬Within v (p ∈ ·.holds) ∧ (t.pending p).subscription = none := by
  have hmine : ¬Within (s.calls c) (p ∈ ·.holds) := fun hmine => h.not_elsewhere hmine hp
  obtain ⟨c', call, -, hcall, hmem⟩ := hp
  refine ⟨fun hv => ?_, ?_⟩
  · rcases ht.taken p hv with hown | hskips
    · exact hmine hown
    · simp [skips, (h.activating p).mpr ⟨c', call, hcall, hmem⟩] at hskips
  · rcases ht.written p with heq | ⟨-, k, ⟨call', hc, ho⟩, -⟩
    · rw [heq]
      exact h.held c' call p hcall hmem
    · exact absurd ⟨call', hc, ho.mem⟩ hmine

/-- An entry in hand has no subscription. -/
theorem held_none (h : Inv s) (ht : Turn s c v t) (hp : Within v (p ∈ ·.holds)) :
    (t.pending p).subscription = none := by
  rcases ht.written p with heq | ⟨hnot, -⟩
  · rw [heq]
    rcases ht.taken p hp with ⟨call, hc, hmem⟩ | hskips
    · exact h.held c call p hc hmem
    · simp only [skips, Bool.or_eq_false_iff, Option.isSome_eq_false_iff, Option.isNone_iff_eq_none] at hskips
      exact hskips.2
  · exact absurd hp hnot

/-- What was owed is owed still, or it has been written. -/
theorem owed (ht : Turn s c v t) (ho : Somewhere s (·.Owes p k)) :
    Somewhere t (·.Owes p k) ∨ (t.pending p).subscription = some k ∧
      ((s.pending p).cancelled = true → ∃ parent todo, v = some ⟨parent, .tearing k todo⟩) := by
  rw [somewhere_update ht.calls]
  rcases (somewhere_iff c).mp ho with ho | ho
  · rcases ht.paid p k ho with ho' | hpaid
    · exact .inl (.inl ho')
    · exact .inr hpaid
  · exact .inl (.inr ho)

/-- Where a subscription of an unsubscribed entry was active, what will end it is still to come. -/
theorem active_kept (h : Inv s) (ht : Turn s c v t) (hk : s.subscription k = some ⟨p, true⟩)
    (hu : t.unsubscribed p = true) :
    (∃ u, t.unsubscribing u = some k) ∨ (∃ c parent todo, t.calls c = some ⟨parent, .tearing k todo⟩) ∨
      (t.pending p).cancelled = true ∧ Somewhere t (·.Owes p k) := by
  rw [ht.unsubscribing, ht.cancelled]
  rw [ht.unsubscribed] at hu
  rcases h.active k p hk hu with hx | ⟨c', parent, todo, hx⟩ | ⟨hc, ho⟩
  · exact .inl hx
  · have hne : c' ≠ c := by
      rintro rfl
      exact ht.torn parent k todo hx p hk
    exact .inr (.inl ⟨c', parent, todo, by rw [ht.calls, Function.update_of_ne hne, hx]⟩)
  · rcases ht.owed ho with ho' | ⟨-, htears⟩
    · exact .inr (.inr ⟨hc, ho'⟩)
    · obtain ⟨parent, todo, hv⟩ := htears hc
      exact .inr (.inl ⟨c, parent, todo, by rw [ht.calls, Function.update_self, hv]⟩)

/-- A new subscription is owed, and its entry has none yet. -/
theorem active_made (h : Inv s) (ht : Turn s c v t) (hnone : s.subscription k = none)
    (hk : t.subscription k = some ⟨p, true⟩) (hu : t.unsubscribed p = true) :
    (∃ u, t.unsubscribing u = some k) ∨ (∃ c parent todo, t.calls c = some ⟨parent, .tearing k todo⟩) ∨
      (t.pending p).cancelled = true ∧ Somewhere t (·.Owes p k) := by
  rw [ht.unsubscribed] at hu
  rcases ht.made k with heq | ⟨-, p', hk', ho⟩
  · cases (heq.trans hnone).symm.trans hk
  · obtain rfl := congrArg Subscription.pending (Option.some.inj (hk'.symm.trans hk))
    have ho' : Somewhere t (·.Owes p' k) := (somewhere_update ht.calls).mpr (.inl ho)
    obtain ⟨call, hv, howes⟩ := ho
    rcases h.cancelled p' hu with hc | hsub
    · exact .inr (.inr ⟨(ht.cancelled p').trans hc, ho'⟩)
    · obtain ⟨k', hk''⟩ := Option.isSome_iff_exists.mp hsub
      cases (ht.held_none h ⟨call, hv, howes.mem⟩).symm.trans (ht.subscription_kept h hk'')

end Turn

namespace Inv

theorem turn (h : Inv s) (ht : Turn s c v t) : Inv t where
  activating p := by
    refine (ht.activating p).trans (Iff.trans ?_ (somewhere_update (P := (p ∈ ·.holds)) ht.calls).symm)
    rw [show (s.pending p).activating = true ↔ _ from (h.activating p).trans (somewhere_iff (P := (p ∈ ·.holds)) c)]
    refine or_congr_right ⟨fun ⟨hno, hin⟩ => hin.resolve_left hno, fun helse => ⟨fun hin => ?_, .inr helse⟩⟩
    exact h.not_elsewhere hin helse
  nodup c' call hcall := by
    rcases calls_update ht.calls hcall with ⟨-, hv⟩ | ⟨-, hs⟩
    · exact ht.nodup call hv
    · exact h.nodup c' call hs
  single c₁ call₁ c₂ call₂ p h₁ h₂ hp₁ hp₂ := by
    rcases calls_update ht.calls h₁ with ⟨rfl, hv₁⟩ | ⟨hne₁, hs₁⟩ <;>
      rcases calls_update ht.calls h₂ with ⟨rfl, hv₂⟩ | ⟨hne₂, hs₂⟩
    · rfl
    · exact absurd ⟨call₁, hv₁, hp₁⟩ (ht.elsewhere_untouched h ⟨c₂, call₂, hne₂, hs₂, hp₂⟩).1
    · exact absurd ⟨call₂, hv₂, hp₂⟩ (ht.elsewhere_untouched h ⟨c₁, call₁, hne₁, hs₁, hp₁⟩).1
    · exact h.single c₁ call₁ c₂ call₂ p hs₁ hs₂ hp₁ hp₂
  held c' call p hcall hp := by
    rcases calls_update ht.calls hcall with ⟨-, hv⟩ | ⟨hne, hs⟩
    · exact ht.held_none h ⟨call, hv, hp⟩
    · exact (ht.elsewhere_untouched h ⟨c', call, hne, hs, hp⟩).2
  owned k x hk := by
    rcases ht.made k with heq | ⟨-, p, hk', ho⟩
    · rcases h.owned k x (heq ▸ hk) with hsub | ho
      · exact .inl (ht.subscription_kept h hsub)
      · exact (ht.owed ho).symm.imp_left And.left
    · obtain rfl := Option.some.inj (hk'.symm.trans hk)
      exact .inr ((somewhere_update (P := (·.Owes p k)) ht.calls).mpr (.inl ho))
  subscribed p k hk := by
    rcases ht.written p with heq | ⟨-, k', ⟨call, hc, ho⟩, hk'⟩
    · obtain ⟨x, hx, hp⟩ := h.subscribed p k (heq ▸ hk)
      exact ⟨x, ht.made_kept hx, hp⟩
    · obtain rfl := Option.some.inj (hk'.symm.trans hk)
      obtain ⟨x, hx, hp⟩ := h.owes c call p k' hc ho
      exact ⟨x, ht.made_kept hx, hp⟩
  owes c' call p k hcall ho := by
    have hold : Somewhere s (·.Owes p k) → ∃ x, t.subscription k = some x ∧ x.pending = p := by
      rintro ⟨c₀, call₀, hcall₀, ho₀⟩
      obtain ⟨x, hx, hp⟩ := h.owes c₀ call₀ p k hcall₀ ho₀
      exact ⟨x, ht.made_kept hx, hp⟩
    rcases calls_update ht.calls hcall with ⟨-, hv⟩ | ⟨-, hs⟩
    · rcases ht.owes p k ⟨call, hv, ho⟩ with ho' | hk
      · exact hold ((somewhere_iff c).mpr (.inl ho'))
      · exact ⟨_, hk, rfl⟩
    · exact hold ⟨c', call, hs, ho⟩
  raised c' parent p o todo hcall := by
    rcases calls_update ht.calls hcall with ⟨-, hv⟩ | ⟨-, hs⟩
    · exact ht.raised parent p o todo hv
    · exact h.raised c' parent p o todo hs
  unsubscribing u k hu := by
    rw [ht.unsubscribing] at hu
    obtain ⟨p, hp⟩ := h.unsubscribing u k hu
    exact ⟨p, ht.subscription_kept h hp⟩
  tearing c' parent k todo hcall := by
    rcases calls_update ht.calls hcall with ⟨-, hv⟩ | ⟨-, hs⟩
    · exact ht.tearing parent k todo hv
    · obtain ⟨p, hp⟩ := h.tearing c' parent k todo hs
      exact ⟨p, ht.subscription_kept h hp⟩
  cancelled p hu := by
    rw [ht.unsubscribed] at hu
    rcases h.cancelled p hu with hc | hsub
    · exact .inl ((ht.cancelled p).trans hc)
    · obtain ⟨k, hk⟩ := Option.isSome_iff_exists.mp hsub
      exact .inr (by rw [ht.subscription_kept h hk, Option.isSome_some])
  active k p hk hu := by
    rcases ht.made k with heq | ⟨hnone, -⟩
    · exact ht.active_kept h (heq ▸ hk) hu
    · exact ht.active_made h hnone hk hu

/-- A call begins, ends or goes on with the same entries in hand. -/
theorem setCall (h : Inv s) (hholds : ∀ p, Within v (p ∈ ·.holds) ↔ Within (s.calls c) (p ∈ ·.holds))
    (hnodup : ∀ call, v = some call → call.phase.holds.Nodup)
    (howes : ∀ p k, Within v (·.Owes p k) ↔ Within (s.calls c) (·.Owes p k))
    (htear : ∀ parent k todo, v ≠ some ⟨parent, .tearing k todo⟩)
    (htorn : ∀ parent k todo, s.calls c = some ⟨parent, .tearing k todo⟩ → ∀ p, s.subscription k ≠ some ⟨p, true⟩)
    (hraised : ∀ parent p o todo, v = some ⟨parent, .finishing p o todo true⟩ → parent = none ∧ todo = []) :
    Inv { s with calls := Function.update s.calls c v } := by
  apply h.turn (c := c) (v := v)
  exact {
    calls := rfl
    unsubscribing := rfl
    unsubscribed := rfl
    cancelled := fun _ => rfl
    activating := by
      intro p
      rw [hholds p]
      refine ⟨fun hact => or_iff_not_imp_left.mpr fun hno => ⟨hno, hact⟩, ?_⟩
      rintro (⟨call, hc, hmem⟩ | ⟨-, hact⟩)
      · exact (h.activating p).mpr ⟨c, call, hc, hmem⟩
      · exact hact
    nodup := hnodup
    taken := fun p hp => .inl ((hholds p).mp hp)
    written := fun _ => .inl rfl
    made := fun _ => .inl rfl
    owes := fun p k ho => .inl ((howes p k).mp ho)
    paid := fun p k ho => .inl ((howes p k).mpr ho)
    tearing := fun parent k todo hv => absurd hv (htear parent k todo)
    torn := htorn
    raised := hraised }

/-- The same for two phases that are not about a tear-down. -/
theorem rephase {phase phase' : Phase} (h : Inv s) (hc : s.calls c = some ⟨parent, phase⟩)
    (hholds : phase'.holds = phase.holds) (howes : ∀ p k, phase'.Owes p k ↔ phase.Owes p k)
    (htear : ∀ k todo, phase' ≠ .tearing k todo) (htear' : ∀ k todo, phase ≠ .tearing k todo)
    (hraised : ∀ p o todo, phase' = .finishing p o todo true → parent = none ∧ todo = []) :
    Inv (s.setPhase c parent phase') := by
  apply h.setCall
  · intro p
    rw [hc, within_some, within_some, hholds]
  · rintro _ ⟨⟩
    rw [hholds]
    exact h.nodup c _ hc
  · intro p k
    rw [hc, within_some, within_some]
    exact howes p k
  · rintro _ k todo ⟨⟩
    exact htear k todo rfl
  · intro _ k todo hs
    obtain ⟨⟩ := hc.symm.trans hs
    exact absurd rfl (htear' k todo)
  · rintro _ p o todo ⟨⟩
    exact hraised p o todo rfl

/-- A call begins. -/
theorem start (h : Inv s) (hc : s.calls c = none) (todo : List PendingId) :
    Inv (s.setPhase c parent (.claiming todo [])) :=
  h.setCall (by simp [hc]) (by simp) (by simp [hc]) (by simp) (by simp [hc]) (by simp)

theorem ret (h : Inv s) (hc : s.calls c = some ⟨parent, .registering []⟩) :
    Inv { s with calls := Function.update s.calls c none } :=
  h.setCall (by simp [hc]) (by simp) (by simp [hc]) (by simp) (by simp [hc]) (by simp)

theorem tearDown {todo : List PendingId} (h : Inv s) (hk : ∀ p, s.subscription k ≠ some ⟨p, true⟩)
    (hc : s.calls c = some ⟨parent, .tearing k todo⟩) : Inv (s.setPhase c parent (.registering todo)) := by
  have hnodup : todo.Nodup := h.nodup c _ hc
  refine h.setCall (by simp [hc]) (by simp [hnodup]) (by simp [hc]) (by simp) ?_ (by simp)
  intro _ k' todo' hs
  obtain ⟨⟩ := hc.symm.trans hs
  exact hk

theorem claim {todo claimed : List PendingId} (h : Inv s)
    (hc : s.calls c = some ⟨parent, .claiming (p :: todo) claimed⟩) (hp : s.skips p = false) :
    Inv ((s.setPending p { s.pending p with activating := true }).setPhase c parent
      (.claiming todo (claimed ++ [p]))) := by
  have hfree : p ∉ claimed := by
    intro hmem
    simp [skips, (h.activating p).mpr ⟨c, _, hc, hmem⟩] at hp
  have hmine : ∀ q ∈ claimed, (s.pending q).activating = true :=
    fun q hq => (h.activating q).mpr ⟨c, _, hc, hq⟩
  have hnodup : claimed.Nodup := h.nodup c _ hc
  have hsub := pending_setPending (s := s) (p := p) (g := { s.pending p with activating := true })
    (f := PendingRegistration.subscription) rfl
  apply h.turn (c := c) (v := some ⟨parent, .claiming todo (claimed ++ [p])⟩)
  exact {
    calls := rfl
    unsubscribing := rfl
    unsubscribed := rfl
    cancelled := pending_setPending (f := PendingRegistration.cancelled) rfl
    activating := by
      intro q
      simp only [hc, within_some, Phase.holds, List.mem_append, List.mem_singleton, setPhase, setPending,
        Function.update_apply]
      by_cases hq : q = p
      · simp [hq]
      · simp only [hq, if_false, or_false]
        exact ⟨fun hact => or_iff_not_imp_left.mpr fun hno => ⟨hno, hact⟩, fun hx => hx.elim (hmine q) And.right⟩
    nodup := by
      rintro _ ⟨⟩
      exact List.nodup_append.mpr ⟨hnodup, List.nodup_singleton p,
        by simpa using fun a ha => ne_of_mem_of_not_mem ha hfree⟩
    taken := by
      intro q hq
      simp only [within_some, Phase.holds, List.mem_append, List.mem_singleton] at hq
      rw [hc, within_some]
      rcases hq with hq | rfl
      · exact .inl hq
      · exact .inr hp
    written := fun q => .inl (hsub q)
    made := fun _ => .inl rfl
    owes := by simp
    paid := by simp [hc]
    tearing := by simp
    torn := by simp [hc]
    raised := by simp }

theorem register {todo : List PendingId} (h : Inv s) (hc : s.calls c = some ⟨parent, .registering (p :: todo)⟩)
    (hk : s.subscription k = none) :
    Inv (setPhase c parent (.starting p k todo)
      { s with subscription := Function.update s.subscription k (some ⟨p, true⟩) }) := by
  have hmine : ∀ q ∈ p :: todo, (s.pending q).activating = true :=
    fun q hq => (h.activating q).mpr ⟨c, _, hc, hq⟩
  have hnodup : (p :: todo).Nodup := h.nodup c _ hc
  apply h.turn (c := c) (v := some ⟨parent, .starting p k todo⟩)
  exact {
    calls := rfl
    unsubscribing := rfl
    unsubscribed := rfl
    cancelled := fun _ => rfl
    activating := by
      intro q
      rw [hc, within_some, within_some]
      exact ⟨fun hact => or_iff_not_imp_left.mpr fun hno => ⟨hno, hact⟩, fun hx => hx.elim (hmine q) And.right⟩
    nodup := by
      rintro _ ⟨⟩
      exact hnodup
    taken := by
      intro q hq
      rw [hc, within_some]
      exact .inl (within_some.mp hq)
    written := fun _ => .inl rfl
    made := by
      intro k'
      by_cases heq : k' = k
      · subst heq
        exact .inr ⟨hk, p, Function.update_self .., by simp⟩
      · exact .inl (Function.update_of_ne heq ..)
    owes := by
      intro q k' ho
      obtain ⟨rfl, rfl⟩ := owes_starting.mp (within_some.mp ho)
      exact .inr (Function.update_self ..)
    paid := by simp [hc]
    tearing := by simp
    torn := by simp [hc]
    raised := by simp }

theorem finish {todo : List PendingId} (h : Inv s) (hc : s.calls c = some ⟨parent, .finishing p (some k) todo false⟩) :
    Inv ((s.setPending p { s.pending p with activating := false, subscription := some k }).setPhase c
      parent (if (s.pending p).cancelled then .tearing k todo else .registering todo)) := by
  have hholds : (if (s.pending p).cancelled then Phase.tearing k todo else .registering todo).holds = todo := by
    split <;> rfl
  have howes : ∀ q k', ¬(if (s.pending p).cancelled then Phase.tearing k todo else .registering todo).Owes q k' := by
    intro q k'
    split <;> simp
  have hnodup : (p :: todo).Nodup := h.nodup c _ hc
  have hmine : ∀ q ∈ p :: todo, (s.pending q).activating = true :=
    fun q hq => (h.activating q).mpr ⟨c, _, hc, hq⟩
  apply h.turn (c := c)
    (v := some ⟨parent, if (s.pending p).cancelled then .tearing k todo else .registering todo⟩)
  exact {
    calls := rfl
    unsubscribing := rfl
    unsubscribed := rfl
    cancelled := pending_setPending (f := PendingRegistration.cancelled) rfl
    activating := by
      intro q
      rw [hc, within_some, within_some, hholds]
      simp only [setPhase, setPending, Function.update_apply, Phase.holds, List.mem_cons]
      by_cases hq : q = p
      · simp [hq, (List.nodup_cons.mp hnodup).1]
      · simp only [hq, if_false, false_or]
        exact ⟨fun hact => or_iff_not_imp_left.mpr fun hno => ⟨hno, hact⟩,
          fun hx => hx.elim (fun hq => hmine q (List.mem_cons_of_mem p hq)) And.right⟩
    nodup := by
      rintro _ ⟨⟩
      rw [hholds]
      exact (List.nodup_cons.mp hnodup).2
    taken := by
      intro q hq
      rw [within_some, hholds] at hq
      rw [hc, within_some]
      exact .inl (List.mem_cons_of_mem p hq)
    written := by
      intro q
      by_cases hq : q = p
      · subst hq
        refine .inr ⟨?_, k, by simp [hc], by simp [setPhase, setPending]⟩
        rw [within_some, hholds]
        exact (List.nodup_cons.mp hnodup).1
      · exact .inl (by simp [setPhase, setPending, hq])
    made := fun _ => .inl rfl
    owes := fun q k' ho => absurd (within_some.mp ho) (howes q k')
    paid := by
      intro q k' ho
      rw [hc, within_some, owes_finishing] at ho
      obtain ⟨rfl, hk, -⟩ := ho
      obtain rfl := Option.some.inj hk
      exact .inr ⟨by simp [setPhase, setPending], fun hcancelled => ⟨parent, todo, by rw [if_pos hcancelled]⟩⟩
    tearing := by
      intro _ k' todo' hv
      refine ⟨p, ?_⟩
      split_ifs at hv
      · cases hv
        simp [setPhase, setPending]
      · cases hv
    torn := by simp [hc]
    raised := by
      intro _ q o todo' hv
      split_ifs at hv <;> cases hv }

/-- The `finally` block of a call that raised for its last entry. -/
theorem giveBack {o : Option SubscriptionId} (h : Inv s) (hc : s.calls c = some ⟨parent, .finishing p o [] true⟩) :
    Inv { s.setPending p { s.pending p with activating := false } with calls := Function.update s.calls c none } := by
  have hsub := pending_setPending (s := s) (p := p) (g := { s.pending p with activating := false })
    (f := PendingRegistration.subscription) rfl
  apply h.turn (c := c) (v := none)
  exact {
    calls := rfl
    unsubscribing := rfl
    unsubscribed := rfl
    cancelled := pending_setPending (f := PendingRegistration.cancelled) rfl
    activating := by
      intro q
      by_cases hq : q = p <;> simp [hc, setPending, hq]
    nodup := by simp
    taken := by simp
    written := fun q => .inl (hsub q)
    made := fun _ => .inl rfl
    owes := by simp
    paid := by simp [hc]
    tearing := by simp
    torn := by simp [hc]
    raised := by simp }

/-- `QueueSubscription.unsubscribe`, with the reasons to wait for it still in place. -/
theorem deactivate (h : Inv s) (k : SubscriptionId) : Inv (s.deactivate k) := by
  refine ⟨h.activating, h.nodup, h.single, h.held, fun k' x hx => ?_, fun p k' hk => ?_, fun c call p k' hc ho => ?_,
    h.raised, h.unsubscribing, h.tearing, h.cancelled, fun k' p hx hu => ?_⟩
  · obtain ⟨y, hy, hp, -⟩ := deactivate_inv hx
    rw [← hp]
    exact h.owned k' y hy
  · exact deactivate_some (h.subscribed p k' hk)
  · exact deactivate_some (h.owes c call p k' hc ho)
  · obtain ⟨y, hy, -, hact⟩ := deactivate_inv hx
    obtain ⟨-, rfl⟩ := hact rfl
    exact h.active k' p hy hu

theorem cancel (h : Inv s) (hp : (s.pending p).subscription = none) :
    Inv { s.setPending p { s.pending p with cancelled := true } with
      unsubscribed := Function.update s.unsubscribed p true } := by
  have hact := pending_setPending (s := s) (p := p) (g := { s.pending p with cancelled := true })
    (f := PendingRegistration.activating) rfl
  have hsub := pending_setPending (s := s) (p := p) (g := { s.pending p with cancelled := true })
    (f := PendingRegistration.subscription) rfl
  refine ⟨fun q => by rw [hact q]; exact h.activating q, h.nodup, h.single,
    fun c call q hc hq => (hsub q).trans (h.held c call q hc hq),
    fun k x hk => (h.owned k x hk).imp_left (hsub x.pending).trans,
    fun q k hk => h.subscribed q k ((hsub q).symm.trans hk), h.owes, h.raised,
    fun u k hu => (h.unsubscribing u k hu).imp fun q => (hsub q).trans,
    fun c parent k todo hc => (h.tearing c parent k todo hc).imp fun q => (hsub q).trans, fun q hq => ?_,
    fun k q hk hq => ?_⟩
  · by_cases heq : q = p
    · exact .inl (by simp [setPending, heq])
    · simp only [setPending, Function.update_of_ne heq] at hq ⊢
      exact h.cancelled q hq
  · by_cases heq : q = p
    · subst heq
      rcases h.owned k _ hk with hsome | ho
      · cases hsome.symm.trans hp
      · exact .inr (.inr ⟨by simp [setPending], ho⟩)
    · simp only [setPending, Function.update_of_ne heq] at hq ⊢
      exact h.active k q hk hq

theorem unsubscribe {u : CallId} (h : Inv s) (hu : s.unsubscribing u = none) (hp : (s.pending p).subscription = some k) :
    Inv { s with
      unsubscribing := Function.update s.unsubscribing u (some k)
      unsubscribed := Function.update s.unsubscribed p true } := by
  have hfree : ∀ c call, s.calls c = some call → p ∉ call.phase.holds := fun c call hcall hmem => by
    cases (h.held c call p hcall hmem).symm.trans hp
  refine ⟨h.activating, h.nodup, h.single, h.held, h.owned, h.subscribed, h.owes, h.raised, ?_, h.tearing, ?_, ?_⟩ <;>
    simp only [Function.update_apply]
  · have := h.unsubscribing
    grind
  · have := h.cancelled
    grind
  · intro k' p' hk' hu'
    by_cases hp' : p' = p
    · subst hp'
      rcases h.owned k' _ hk' with hsub | ⟨c, call, hcall, howes⟩
      · obtain rfl := Option.some.inj (hp.symm.trans hsub)
        exact .inl ⟨u, if_pos rfl⟩
      · exact absurd howes.mem (hfree c call hcall)
    · rw [if_neg hp'] at hu'
      rcases h.active k' p' hk' hu' with ⟨u', hx⟩ | hx
      · refine .inl ⟨u', ?_⟩
        rw [if_neg (fun heq => ?_), hx]
        rw [heq, hu] at hx
        cases hx
      · exact .inr hx

theorem unsubscribeEnd {u : CallId} (h : Inv s) (hk : ∀ p, s.subscription k ≠ some ⟨p, true⟩)
    (hu : s.unsubscribing u = some k) : Inv { s with unsubscribing := Function.update s.unsubscribing u none } := by
  refine ⟨h.activating, h.nodup, h.single, h.held, h.owned, h.subscribed, h.owes, h.raised, ?_, h.tearing,
    h.cancelled, ?_⟩ <;>
    simp only [Function.update_apply]
  · have := h.unsubscribing
    grind
  · have := h.active
    grind

theorem deactivated (s : State) (k : SubscriptionId) (p : PendingId) :
    (s.deactivate k).subscription k ≠ some ⟨p, true⟩ := by
  intro hx
  obtain ⟨_, _, _, hne⟩ := deactivate_inv hx
  exact (hne rfl).1 rfl

theorem step {a : Action} (h : Inv s) (hstep : LastStep s a s') : Inv s' := by
  obtain ⟨hstep, hlast⟩ := hstep
  cases hstep with
  | defer _ =>
    exact ⟨h.activating, h.nodup, h.single, h.held, h.owned, h.subscribed, h.owes, h.raised, h.unsubscribing,
      h.tearing, h.cancelled, h.active⟩
  | call hc => exact h.start hc _
  | nest _ hc' _ => exact h.start hc' _
  | skip hc _ => exact h.rephase hc rfl (by simp [Phase.Owes]) (by simp) (by simp) (by simp)
  | claim hc hp => exact h.claim hc hp
  | claimed hc => exact h.rephase hc rfl (by simp [Phase.Owes]) (by simp) (by simp) (by simp)
  | registerRaise hc =>
    obtain ⟨rfl, rfl⟩ := hlast _ _ _ hc
    refine h.rephase hc rfl (by simp [Phase.Owes]) (by simp) (by simp) fun p v todo heq => ⟨rfl, ?_⟩
    obtain ⟨-, -, rfl, -⟩ := Phase.finishing.inj heq
    rfl
  | register hc hk => exact h.register hc hk
  | startRaise _ _ => exact hlast.elim
  | startReturn hc _ => exact h.rephase hc rfl (by simp [Phase.Owes]) (by simp) (by simp) (by simp)
  | finishRaised hc =>
    obtain ⟨rfl, rfl⟩ := h.raised _ _ _ _ _ hc
    exact h.giveBack hc
  | finish hc => exact h.finish hc
  | tearDown hc => exact (h.deactivate _).tearDown (deactivated s _) hc
  | ret hc => exact h.ret hc
  | cancel hp => exact h.cancel hp
  | unsubscribe hu hp => exact h.unsubscribe hu hp
  | unsubscribeEnd hu => exact (h.deactivate _).unsubscribeEnd (deactivated s _) hu

end Inv

/-- Nothing is stranded and nothing is doubled. -/
structure Kept (s : State) : Prop where
  once : ∀ k k' x x', s.subscription k = some x → s.subscription k' = some x' → x.pending = x'.pending → k = k'
  idle : (∀ c, s.calls c = none) → ∀ p, (s.pending p).activating = false
  retried : (∀ c, s.calls c = none) → ∀ p, (s.pending p).cancelled = false → (s.pending p).subscription = none →
    s.skips p = false
  inactive : Quiet s → ∀ p, s.unsubscribed p = true → ∀ k, s.subscription k ≠ some ⟨p, true⟩

theorem Inv.kept (h : Inv s) : Kept s := by
  have hidle (hc : ∀ c, s.calls c = none) (p : PendingId) : (s.pending p).activating = false := by
    apply Bool.eq_false_iff.mpr
    intro hact
    obtain ⟨c, call, hcall, -⟩ := (h.activating p).mp hact
    rw [hc c] at hcall
    cases hcall
  refine ⟨fun k k' x x' hk hk' => h.unique hk hk', hidle, fun hc p hcancelled hsub => ?_, fun hq p hu k hk => ?_⟩
  · unfold skips
    rw [hcancelled, hidle hc p, hsub]
    rfl
  · rcases h.active k p hk hu with ⟨u, hx⟩ | ⟨c, parent, todo, hx⟩ | ⟨-, c, call, hx, -⟩
    · rw [hq.unsubscribing u] at hx
      cases hx
    · rw [hq.calls c] at hx
      cases hx
    · rw [hq.calls c] at hx
      cases hx

/-- In every run in which `_register_now` raises only where nothing else is claimed or active. -/
theorem activation_kept {as : List Action} (hrun : Run LastStep .init as s) : Kept s :=
  (hrun.invariant (fun _ _ _ h hst => h.step hst) Inv.init).kept

/-- The attempt for the one entry fails, the next one succeeds although `start_one` re-enters, and
the entry is cancelled in flight. -/
theorem activation_kept_cancelled :
    ∃ s, Run LastStep .init [.defer 0, .call 0, .claim 0, .claim 0, .registerRaise 0, .finish 0, .call 0, .claim 0,
        .claim 0, .register 0 0, .nest 0 1, .claim 1, .claim 1, .ret 1, .startReturn 0, .unsubscribe 0 0, .finish 0,
        .tearDown 0, .ret 0] s ∧
      Quiet s ∧ s.unsubscribed 0 = true ∧ s.subscription 0 = some ⟨0, false⟩ ∧ Kept s := by
  have hrun : Run LastStep State.init [] State.init := .nil _
  replace hrun := hrun.snoc ⟨.defer (p := 0) (by simp [State.init]), trivial⟩
  replace hrun := hrun.snoc ⟨.call (c := 0) rfl, trivial⟩
  replace hrun := hrun.snoc ⟨.claim (c := 0) (p := 0) rfl rfl, trivial⟩
  replace hrun := hrun.snoc ⟨.claimed (c := 0) rfl, trivial⟩
  replace hrun := hrun.snoc ⟨.registerRaise (c := 0) (p := 0) rfl, fun _ _ _ h => by cases h; exact ⟨rfl, rfl⟩⟩
  replace hrun := hrun.snoc ⟨.finishRaised (c := 0) rfl, trivial⟩
  replace hrun := hrun.snoc ⟨.call (c := 0) rfl, trivial⟩
  replace hrun := hrun.snoc ⟨.claim (c := 0) (p := 0) rfl rfl, trivial⟩
  replace hrun := hrun.snoc ⟨.claimed (c := 0) rfl, trivial⟩
  replace hrun := hrun.snoc ⟨.register (c := 0) (k := 0) (p := 0) rfl rfl, trivial⟩
  replace hrun := hrun.snoc ⟨@Step.nest _ 0 1 _ _ _ _ rfl rfl fun c' call hcall hpar => ?_, trivial⟩
  replace hrun := hrun.snoc ⟨.skip (c := 1) (p := 0) rfl rfl, trivial⟩
  replace hrun := hrun.snoc ⟨.claimed (c := 1) rfl, trivial⟩
  replace hrun := hrun.snoc ⟨.ret (c := 1) rfl, trivial⟩
  replace hrun := hrun.snoc ⟨.startReturn (c := 0) rfl fun c' call hcall hpar => ?_, trivial⟩
  replace hrun := hrun.snoc ⟨.cancel (u := 0) (p := 0) rfl, trivial⟩
  replace hrun := hrun.snoc ⟨.finish (c := 0) rfl, trivial⟩
  replace hrun := hrun.snoc ⟨.tearDown (c := 0) rfl, trivial⟩
  replace hrun := hrun.snoc ⟨.ret (c := 0) rfl, trivial⟩
  · refine ⟨_, hrun, ⟨fun c => ?_, fun _ => rfl⟩, rfl, rfl, activation_kept hrun⟩
    rcases c with _ | _ | c <;> rfl
  -- the only call is the outer one
  · rcases c' with _ | _ | c' <;> cases hcall
    cases hpar
  · rcases c' with _ | _ | c' <;> cases hcall
    cases hpar

/-- The call claims two entries and `_register_now` refuses the first: the second stays marked
`activating`, and every later call skips it. -/
theorem activation_stranded : ¬∀ (as : List Action) (s : State), Run Step .init as s → Kept s := by
  intro hall
  have hrun : Run Step State.init [] State.init := .nil _
  replace hrun := hrun.snoc (.defer (p := 0) (by simp [State.init]))
  replace hrun := hrun.snoc (.defer (p := 1) (by simp [State.init]))
  replace hrun := hrun.snoc (.call (c := 0) rfl)
  replace hrun := hrun.snoc (.claim (c := 0) (p := 0) rfl rfl)
  replace hrun := hrun.snoc (.claim (c := 0) (p := 1) rfl rfl)
  replace hrun := hrun.snoc (.claimed (c := 0) rfl)
  replace hrun := hrun.snoc (.registerRaise (c := 0) (p := 0) rfl)
  replace hrun := hrun.snoc (.finishRaised (c := 0) rfl)
  have hidle := (hall _ _ hrun).idle (fun c => by rcases c with _ | c <;> rfl) 1
  cases hidle

end DjangoQueues.Observers.Activation
