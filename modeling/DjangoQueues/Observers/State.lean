import DjangoQueues.Entries
import DjangoQueues.Lib.Run

/-! The observer state of one alias. A step is a block under the lock, one look at a
registration by a publishing thread, one put into the delivery queue, or the dispatcher's
work on one delivery; the delivery queue is never full. -/

namespace DjangoQueues.Observers

variable {cls : EntryClass}

/-- The identity of a `_Registration` object. -/
abbrev RegistrationId := ℕ

/-- A lifecycle snapshot. The number of the publish call it comes from, if any, is a mark for
the reader of a run: no step looks at it. -/
structure Snapshot (cls : EntryClass) where
  entry : QueueEntry cls
  publication : Option ℕ

structure Registration (cls : EntryClass) where
  entryId : Option EntryId
  active : Bool
  initialising : Bool
  pending : List (Snapshot cls)
  startedAtSequence : ℕ
  bootstrappedThroughSequence : ℕ

structure Delivery (cls : EntryClass) where
  snapshot : Snapshot cls
  target : Option RegistrationId
  sequence : ℕ

/-- A publish call after its locked block: it looks for a registration that is not
initialising, and then puts its delivery. -/
inductive Publishing (cls : EntryClass) where
  | checking (delivery : Delivery cls) (registrations : List RegistrationId)
  | queueing (delivery : Delivery cls)

def Publishing.delivery : Publishing cls → Delivery cls
  | checking d _ => d
  | queueing d => d

structure State (cls : EntryClass) where
  sequence : ℕ
  registrations : List RegistrationId
  /-- Every registration made so far. -/
  registration : RegistrationId → Option (Registration cls)
  events : List (Delivery cls)
  /-- The publish calls in progress, by their sequence. -/
  publishing : ℕ → Option (Publishing cls)
  /-- What `activate` has still to put. -/
  bootstrapping : RegistrationId → List (Snapshot cls)
  /-- The calls of callbacks, in their order. -/
  received : List (RegistrationId × Snapshot cls)
  /-- The dispatcher has not ended. -/
  dispatching : Bool

/-! ## The order of a bootstrap batch -/

/-- `order` of `_order_snapshots`. -/
def lifecycleOrder : QueueEntryStatus → ℕ
  | .queued => 0
  | .running => 1
  | .succeeded => 2
  | .failed => 2
  | .cancelled => 2
  | .timeout => 2
  | .terminated => 3

def rank (x : Snapshot cls) : ℕ := lifecycleOrder x.entry.status

/-- `_state_timestamp`. -/
def stateTimestamp (e : QueueEntry cls) : ClockTime := e.finishedAt.getD (e.dispatchedAt.getD e.queuedAt)

/-- The keys of two snapshots compare as tuples. -/
def keyLE (x y : Snapshot cls) : Bool :=
  x.entry.id < y.entry.id ∨ x.entry.id = y.entry.id ∧
    (rank x < rank y ∨ rank x = rank y ∧ stateTimestamp x.entry ≤ stateTimestamp y.entry)

/-- A stable sort, as `sorted` is. -/
def orderSnapshots (l : List (Snapshot cls)) : List (Snapshot cls) := l.insertionSort fun x y => keyLE x y = true

/-! ## Steps -/

/-- How the call of a callback ends, with the wait for what it returns. -/
inductive CallbackEnd where
  /-- It returns, or raises an `Exception`, which is logged. -/
  | handled
  /-- It raises what is no `Exception`, such as `CancelledError`. -/
  | escaped
deriving DecidableEq

inductive Action (cls : EntryClass) where
  | register (r : RegistrationId) (entryId : Option EntryId)
  | unregister (r : RegistrationId)
  | publish (e : QueueEntry cls)
  | check (n : ℕ)
  | put (n : ℕ)
  | activate (r : RegistrationId) (snapshots : List (QueueEntry cls))
  | putBootstrap (r : RegistrationId)
  | dispatch (callback : RegistrationId → CallbackEnd)

/-- The registrations whose callbacks are called: what is no `Exception` leaves the loop over them. -/
def calledOf (callback : RegistrationId → CallbackEnd) : List RegistrationId → List RegistrationId
  | [] => []
  | r :: rs => r :: if callback r = .handled then calledOf callback rs else []

namespace State

def init : State cls where
  sequence := 0
  registrations := []
  registration := fun _ => none
  events := []
  publishing := fun _ => none
  bootstrapping := fun _ => []
  received := []
  dispatching := true

def isInitialising (s : State cls) (r : RegistrationId) : Bool := (s.registration r).any (·.initialising)

def register (r : RegistrationId) (entryId : Option EntryId) (s : State cls) : State cls :=
  { s with
    registration := Function.update s.registration r (some
      { entryId
        active := true
        initialising := true
        pending := []
        startedAtSequence := s.sequence
        bootstrappedThroughSequence := 0 })
    registrations := s.registrations ++ [r] }

def unregister (r : RegistrationId) (s : State cls) : State cls :=
  { s with
    registration := Function.update s.registration r ((s.registration r).map fun g => { g with active := false })
    registrations := s.registrations.erase r }

/-- The locked block of `publish`. -/
def publish (e : QueueEntry cls) (s : State cls) : State cls :=
  let n := s.sequence + 1
  let snapshot : Snapshot cls := ⟨e, some n⟩
  { s with
    sequence := n
    registration := fun r => (s.registration r).map fun g =>
      if r ∈ s.registrations ∧ g.initialising then { g with pending := g.pending ++ [snapshot] } else g
    publishing := Function.update s.publishing n (some (.checking ⟨snapshot, none, n⟩ s.registrations)) }

/-- One registration of the `any` after the locked block. -/
def check (n : ℕ) (s : State cls) : Option (State cls) :=
  match s.publishing n with
  | some (.checking _ []) => some { s with publishing := Function.update s.publishing n none }
  | some (.checking d (r :: rs)) =>
    let p := if s.isInitialising r then .checking d rs else .queueing d
    some { s with publishing := Function.update s.publishing n (some p) }
  | _ => none

def put (n : ℕ) (s : State cls) : Option (State cls) :=
  match s.publishing n with
  | some (.queueing d) =>
    some { s with events := s.events ++ [d], publishing := Function.update s.publishing n none }
  | _ => none

/-- The locked block of `activate`. -/
def activate (r : RegistrationId) (snapshots : List (QueueEntry cls)) (s : State cls) : Option (State cls) :=
  match s.registration r with
  | some g =>
    if g.initialising then
      some { s with
        registration := Function.update s.registration r (some
          { g with
            pending := []
            bootstrappedThroughSequence := s.sequence
            initialising := false })
        bootstrapping := Function.update s.bootstrapping r
          (orderSnapshots (snapshots.map (⟨·, none⟩) ++ g.pending)) }
    else none
  | none => none

def putBootstrap (r : RegistrationId) (s : State cls) : Option (State cls) :=
  match s.bootstrapping r with
  | [] => none
  | x :: rest =>
    some { s with
      events := s.events ++ [⟨x, some r, 0⟩]
      bootstrapping := Function.update s.bootstrapping r rest }

/-- The dispatcher calls the callback of `r` for this delivery. -/
def delivers (s : State cls) (d : Delivery cls) (r : RegistrationId) : Bool :=
  (s.registration r).any fun g =>
    g.active && ! g.initialising &&
      ! (d.target.isNone && g.startedAtSequence < d.sequence && d.sequence ≤ g.bootstrappedThroughSequence) &&
      g.entryId.all (· = d.snapshot.entry.id)

def recipients (s : State cls) (d : Delivery cls) : List RegistrationId :=
  (match d.target with
    | none => s.registrations
    | some r => [r]).filter (s.delivers d)

def called (callback : RegistrationId → CallbackEnd) (s : State cls) (d : Delivery cls) : List RegistrationId :=
  calledOf callback (s.recipients d)

/-- An exception that leaves the loop ends the dispatcher, and nothing starts another. -/
def dispatch (callback : RegistrationId → CallbackEnd) (s : State cls) : Option (State cls) :=
  match s.dispatching, s.events with
  | true, d :: rest =>
    some { s with
      events := rest
      received := s.received ++ (s.called callback d).map (·, d.snapshot)
      dispatching := (s.called callback d).all (callback · = .handled) }
  | _, _ => none

/-- A registration object is made once and registered once. -/
def step (a : Action cls) (s : State cls) : Option (State cls) :=
  match a with
  | .register r entryId => if (s.registration r).isNone then some (s.register r entryId) else none
  | .unregister r => some (s.unregister r)
  | .publish e => some (s.publish e)
  | .check n => s.check n
  | .put n => s.put n
  | .activate r snapshots => s.activate r snapshots
  | .putBootstrap r => s.putBootstrap r
  | .dispatch callback => s.dispatch callback

end State

/-- One step of the observer state. -/
def Step (s : State cls) (a : Action cls) (s' : State cls) : Prop := s.step a = some s'

/-- Everything a step can do. -/
inductive StepCase (s : State cls) : Action cls → State cls → Prop
  | register {r : RegistrationId} {f : Option EntryId} (h : s.registration r = none) :
    StepCase s (.register r f) (s.register r f)
  | unregister {r : RegistrationId} : StepCase s (.unregister r) (s.unregister r)
  | publish {e : QueueEntry cls} : StepCase s (.publish e) (s.publish e)
  | ended {n : ℕ} {d : Delivery cls} (h : s.publishing n = some (.checking d [])) :
    StepCase s (.check n) { s with publishing := Function.update s.publishing n none }
  | passed {n : ℕ} {d : Delivery cls} {r : RegistrationId} {rs : List RegistrationId}
      (h : s.publishing n = some (.checking d (r :: rs))) (hr : s.isInitialising r = true) :
    StepCase s (.check n) { s with publishing := Function.update s.publishing n (some (.checking d rs)) }
  | found {n : ℕ} {d : Delivery cls} {r : RegistrationId} {rs : List RegistrationId}
      (h : s.publishing n = some (.checking d (r :: rs))) (hr : s.isInitialising r = false) :
    StepCase s (.check n) { s with publishing := Function.update s.publishing n (some (.queueing d)) }
  | put {n : ℕ} {d : Delivery cls} (h : s.publishing n = some (.queueing d)) :
    StepCase s (.put n) { s with events := s.events ++ [d], publishing := Function.update s.publishing n none }
  | activate {r : RegistrationId} {snapshots : List (QueueEntry cls)} {g : Registration cls}
      (h : s.registration r = some g) (hg : g.initialising = true) :
    StepCase s (.activate r snapshots) { s with
      registration := Function.update s.registration r (some
        { g with pending := [], bootstrappedThroughSequence := s.sequence, initialising := false })
      bootstrapping := Function.update s.bootstrapping r
        (orderSnapshots (snapshots.map (⟨·, none⟩) ++ g.pending)) }
  | putBootstrap {r : RegistrationId} {x : Snapshot cls} {rest : List (Snapshot cls)}
      (h : s.bootstrapping r = x :: rest) :
    StepCase s (.putBootstrap r) { s with
      events := s.events ++ [⟨x, some r, 0⟩]
      bootstrapping := Function.update s.bootstrapping r rest }
  | dispatch {callback : RegistrationId → CallbackEnd} {d : Delivery cls} {rest : List (Delivery cls)}
      (hgo : s.dispatching = true) (h : s.events = d :: rest) :
    StepCase s (.dispatch callback) { s with
      events := rest
      received := s.received ++ (s.called callback d).map (·, d.snapshot)
      dispatching := (s.called callback d).all (callback · = .handled) }

theorem Step.stepCase {s s' : State cls} {a : Action cls} (h : Step s a s') : StepCase s a s' := by
  unfold Step State.step at h
  cases a with
  | register r f =>
    dsimp only at h
    split_ifs at h with hr
    obtain rfl := Option.some.inj h
    exact .register (Option.isNone_iff_eq_none.mp hr)
  | unregister r =>
    obtain rfl := Option.some.inj h
    exact .unregister
  | publish e =>
    obtain rfl := Option.some.inj h
    exact .publish
  | check n =>
    unfold State.check at h
    dsimp only at h
    split at h
    · next d hp =>
      obtain rfl := Option.some.inj h
      exact .ended hp
    · next d r rs hp =>
      obtain rfl := Option.some.inj h
      cases hr : s.isInitialising r with
      | true => exact .passed hp hr
      | false => exact .found hp hr
    · cases h
  | put n =>
    unfold State.put at h
    dsimp only at h
    split at h
    · next d hp =>
      obtain rfl := Option.some.inj h
      exact .put hp
    · cases h
  | activate r snapshots =>
    unfold State.activate at h
    dsimp only at h
    split at h
    · next g hg =>
      split_ifs at h with hi
      obtain rfl := Option.some.inj h
      exact .activate hg hi
    · cases h
  | putBootstrap r =>
    unfold State.putBootstrap at h
    dsimp only at h
    split at h
    · cases h
    · next x rest hx =>
      obtain rfl := Option.some.inj h
      exact .putBootstrap hx
  | dispatch callback =>
    unfold State.dispatch at h
    dsimp only at h
    split at h
    · next d rest hgo hd =>
      obtain rfl := Option.some.inj h
      exact .dispatch hgo hd
    · cases h

end DjangoQueues.Observers
