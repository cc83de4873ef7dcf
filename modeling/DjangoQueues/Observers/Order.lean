import DjangoQueues.Observers.Delivery

/-! Lifecycle order. The states of an entry are stored and published one after another, and a
registration reads the store between its `register` and its `activate`. -/

namespace DjangoQueues.Observers

variable {cls : EntryClass}

structure World (cls : EntryClass) where
  observers : State cls
  store : EntryId → Option (QueueEntry cls)
  /-- The lifecycle order of the latest state of each entry. -/
  level : EntryId → ℕ
  /-- Every state that has been reached. -/
  history : List (QueueEntry cls)
  published : List (QueueEntry cls)
  /-- What `list` has returned to a registration so far. -/
  fetched : RegistrationId → List (QueueEntry cls)

inductive WorldAction (cls : EntryClass) where
  | observe (a : Action cls)
  | fetch (r : RegistrationId) (id : EntryId)
  | store (x : QueueEntry cls)
  /-- The record is deleted; the final snapshot is never retained. -/
  | terminate (x : QueueEntry cls)

namespace World

def init : World cls where
  observers := .init
  store := fun _ => none
  level := fun _ => 0
  history := []
  published := []
  fetched := fun _ => []

/-- The entry reaches a state. -/
def reach (x : QueueEntry cls) (w : World cls) : World cls :=
  { w with
    level := Function.update w.level x.id (lifecycleOrder x.status)
    history := w.history ++ [x] }

def step (l : WorldAction cls) (w : World cls) : Option (World cls) :=
  match l with
  | .observe a => (w.observers.step a).map fun s =>
    { w with
      observers := s
      published := match a with
        | .publish x => w.published ++ [x]
        | _ => w.published }
  | .fetch r id => (w.store id).map fun x => { w with fetched := Function.update w.fetched r (w.fetched r ++ [x]) }
  | .store x => some { w.reach x with store := Function.update w.store x.id (some x) }
  | .terminate x => some { w.reach x with store := Function.update w.store x.id none }

/-- A publish call for the entry is in progress. -/
def Publishes (w : World cls) (id : EntryId) : Prop :=
  ∃ n p, w.observers.publishing n = some p ∧ p.delivery.snapshot.entry.id = id

/-- What the callers keep to: the states of an entry are reached in lifecycle order, each is
published after it is reached, one call after another, and `activate` gets what was fetched
since the registration. -/
def Allowed (w : World cls) : WorldAction cls → Prop
  | .observe (.publish x) => x ∈ w.history ∧ ¬w.Publishes x.id ∧
      ∀ y ∈ w.published, y.id = x.id → lifecycleOrder y.status ≤ lifecycleOrder x.status
  | .observe (.activate r l) => l = w.fetched r
  | .observe _ => True
  | .fetch r _ => w.observers.isInitialising r = true
  | .store x => w.level x.id ≤ lifecycleOrder x.status ∧ x.status ≠ .terminated
  | .terminate x => x.status = .terminated

/-- No entry moves on while a state of it is still to be published or being published, and a
snapshot published after an activation is not put before an earlier state in the bootstrap
batch of that activation. -/
def InTurn (w : World cls) : WorldAction cls → Prop
  | .observe (.publish x) => w.level x.id ≤ lifecycleOrder x.status
  | .observe (.put n) => ∀ d, w.observers.publishing n = some (.queueing d) → ∀ r g, w.observers.registration r = some g →
      g.bootstrappedThroughSequence < n → ∀ y ∈ w.observers.bootstrapping r,
        y.entry.id = d.snapshot.entry.id → rank d.snapshot ≤ rank y
  | .store x => ¬w.Publishes x.id
  | .terminate x => ¬w.Publishes x.id
  | _ => True

end World

structure WorldStep (w : World cls) (l : WorldAction cls) (w' : World cls) : Prop where
  allowed : w.Allowed l
  step_eq : w.step l = some w'

structure InTurnStep (w : World cls) (l : WorldAction cls) (w' : World cls) : Prop extends WorldStep w l w' where
  inTurn : w.InTurn l

/-- The snapshots of the entry a callback has received, by their lifecycle order. -/
def observed (s : State cls) (r : RegistrationId) (id : EntryId) : List ℕ :=
  (s.received.filter fun p => p.1 = r ∧ p.2.entry.id = id).map fun p => rank p.2

/-! ## What is on its way to a registration -/

def ranksOf (id : EntryId) (l : List (Snapshot cls)) : List ℕ := (l.filter (·.entry.id = id)).map rank

/-- The delivery will not be skipped for the registration because of its sequence. -/
def relevant (r : RegistrationId) (g : Registration cls) (d : Delivery cls) : Bool :=
  match d.target with
  | some r' => r' = r
  | none =>
    if g.initialising then d.sequence ≤ g.startedAtSequence
    else ! (g.startedAtSequence < d.sequence && d.sequence ≤ g.bootstrappedThroughSequence)

/-- What a callback has received of an entry, and what the delivery queue holds for it. -/
def pipe (s : State cls) (r : RegistrationId) (g : Registration cls) (id : EntryId) : List ℕ :=
  observed s r id ++ ranksOf id ((s.events.filter (relevant r g)).map (·.snapshot))

/-- What is going to be put for the registration, or has been put aside for it. -/
def ahead (s : State cls) (fetched : List (QueueEntry cls)) (r : RegistrationId) (g : Registration cls)
    (id : EntryId) : List ℕ :=
  ranksOf id (if g.initialising then fetched.map (⟨·, none⟩) ++ g.pending else s.bootstrapping r)

/-- One registration and one entry. -/
structure InOrder (s : State cls) (fetched : List (QueueEntry cls)) (level : ℕ) (r : RegistrationId)
    (g : Registration cls) (id : EntryId) : Prop where
  pairwise : (pipe s r g id).Pairwise (· ≤ ·)
  ahead : ∀ a ∈ pipe s r g id, ∀ b ∈ ahead s fetched r g id, a ≤ b
  pipe_le : ∀ a ∈ pipe s r g id, a ≤ level
  ahead_le : ∀ b ∈ Observers.ahead s fetched r g id, b ≤ level
  early : ∀ n p, s.publishing n = some p → n ≤ g.startedAtSequence → p.delivery.snapshot.entry.id = id →
    ∀ b ∈ Observers.ahead s fetched r g id, rank p.delivery.snapshot ≤ b
  batch : (ranksOf id (s.bootstrapping r)).Pairwise (· ≤ ·)

structure WorldInv (w : World cls) : Prop where
  sound : Sound w.observers
  unmade : ∀ r, w.observers.registration r = none → w.fetched r = [] ∧ ∀ p ∈ w.observers.received, p.1 ≠ r
  initial : ∀ r g, w.observers.registration r = some g → g.initialising = true →
    w.observers.bootstrapping r = [] ∧ ∀ d ∈ w.observers.events, d.target ≠ some r
  started : ∀ r g, w.observers.registration r = some g → g.startedAtSequence ≤ w.observers.sequence
  store : ∀ id x, w.store id = some x → x.id = id ∧ lifecycleOrder x.status = w.level id
  history : ∀ x ∈ w.history, lifecycleOrder x.status ≤ w.level x.id
  level_le : ∀ id, w.level id ≤ 3
  inFlight : ∀ n p, w.observers.publishing n = some p →
    rank p.delivery.snapshot = w.level p.delivery.snapshot.entry.id
  single : ∀ n m p q, w.observers.publishing n = some p → w.observers.publishing m = some q →
    p.delivery.snapshot.entry.id = q.delivery.snapshot.entry.id → n = m
  ordinary : ∀ id, (ranksOf id ((w.observers.events.filter (·.target = none)).map (·.snapshot))).Pairwise (· ≤ ·)
  ordinary_le : ∀ d ∈ w.observers.events, d.target = none → rank d.snapshot ≤ w.level d.snapshot.entry.id
  inOrder : ∀ r g, w.observers.registration r = some g → ∀ id,
    InOrder w.observers (w.fetched r) (w.level id) r g id

theorem ranksOf_append (id : EntryId) (l l' : List (Snapshot cls)) :
    ranksOf id (l ++ l') = ranksOf id l ++ ranksOf id l' := by
  simp [ranksOf]

theorem mem_ranksOf {id : EntryId} {l : List (Snapshot cls)} {a : ℕ} :
    a ∈ ranksOf id l ↔ ∃ x ∈ l, x.entry.id = id ∧ rank x = a := by
  simp [ranksOf, and_assoc]

theorem ranksOf_perm (id : EntryId) {l l' : List (Snapshot cls)} (h : l.Perm l') : (ranksOf id l).Perm (ranksOf id l') :=
  (h.filter _).map _

/-- The batch of one entry is in lifecycle order. -/
theorem pairwise_orderSnapshots (id : EntryId) (l : List (Snapshot cls)) :
    (ranksOf id (orderSnapshots l)).Pairwise (· ≤ ·) := by
  have hsorted : (orderSnapshots l).Pairwise fun x y => keyLE x y = true := by
    have htrans (x y z : Snapshot cls) (h : keyLE x y = true) (h' : keyLE y z = true) : keyLE x z = true := by
      simp only [keyLE, decide_eq_true_eq] at h h' ⊢
      rcases h with h | ⟨h₁, h⟩ <;> rcases h' with h' | ⟨h₁', h'⟩
      · exact .inl (h.trans h')
      · exact .inl (h₁' ▸ h)
      · exact .inl (h₁ ▸ h')
      · refine .inr ⟨h₁.trans h₁', ?_⟩
        rcases h with h | ⟨h₂, h⟩ <;> rcases h' with h' | ⟨h₂', h'⟩
        · exact .inl (h.trans h')
        · exact .inl (h₂' ▸ h)
        · exact .inl (h₂ ▸ h')
        · exact .inr ⟨h₂.trans h₂', h.trans h'⟩
    have htotal (x y : Snapshot cls) : keyLE x y = true ∨ keyLE y x = true := by
      simp only [keyLE, decide_eq_true_eq]
      rcases lt_trichotomy x.entry.id y.entry.id with h | h | h
      · exact .inl (.inl h)
      · rcases lt_trichotomy (rank x) (rank y) with h' | h' | h'
        · exact .inl (.inr ⟨h, .inl h'⟩)
        · rcases le_total (stateTimestamp x.entry) (stateTimestamp y.entry) with h'' | h''
          · exact .inl (.inr ⟨h, .inr ⟨h', h''⟩⟩)
          · exact .inr (.inr ⟨h.symm, .inr ⟨h'.symm, h''⟩⟩)
        · exact .inr (.inr ⟨h.symm, .inl h'⟩)
      · exact .inr (.inl h)
    have : Std.Total fun x y : Snapshot cls => keyLE x y = true := ⟨htotal⟩
    have : IsTrans (Snapshot cls) fun x y => keyLE x y = true := ⟨htrans⟩
    exact List.pairwise_insertionSort _ l
  unfold ranksOf
  rw [List.pairwise_map]
  have hfilter := hsorted.filter (·.entry.id = id)
  refine hfilter.imp_of_mem fun {x y} hx hy h => ?_
  have hxid : x.entry.id = id := by simpa using (List.mem_filter.mp hx).2
  have hyid : y.entry.id = id := by simpa using (List.mem_filter.mp hy).2
  simp only [keyLE, decide_eq_true_eq, hxid, hyid, lt_self_iff_false, true_and, false_or] at h
  omega

theorem pipe_addEvent (s : State cls) (d : Delivery cls) (r : RegistrationId) (g : Registration cls) (id : EntryId) :
    pipe { s with events := s.events ++ [d] } r g id =
      pipe s r g id ++ if relevant r g d = true ∧ d.snapshot.entry.id = id then [rank d.snapshot] else [] := by
  have hone : ranksOf id (([d].filter (relevant r g)).map (·.snapshot)) =
      if relevant r g d = true ∧ d.snapshot.entry.id = id then [rank d.snapshot] else [] := by
    by_cases hrel : relevant r g d = true <;> by_cases hid : d.snapshot.entry.id = id <;> simp [ranksOf, hrel, hid]
  unfold pipe observed
  dsimp only
  rw [List.filter_append, List.map_append, ranksOf_append, hone, List.append_assoc]

namespace InOrder

variable {s s' : State cls} {fetched fetched' : List (QueueEntry cls)} {level level' : ℕ} {r : RegistrationId}
  {g g' : Registration cls} {id : EntryId}

/-- Nothing is added to what is on its way. -/
theorem keep (h : InOrder s fetched level r g id) (hp : (pipe s' r g' id).Sublist (pipe s r g id))
    (ha : ∀ b ∈ Observers.ahead s' fetched' r g' id, b ∈ Observers.ahead s fetched r g id) (hl : level ≤ level')
    (he : ∀ n p, s'.publishing n = some p → n ≤ g'.startedAtSequence →
      ∃ q, s.publishing n = some q ∧ q.delivery = p.delivery ∧ n ≤ g.startedAtSequence)
    (hb : (ranksOf id (s'.bootstrapping r)).Pairwise (· ≤ ·)) : InOrder s' fetched' level' r g' id where
  pairwise := h.pairwise.sublist hp
  ahead := fun a hain b hbin => h.ahead a (hp.subset hain) b (ha b hbin)
  pipe_le := fun a hain => (h.pipe_le a (hp.subset hain)).trans hl
  ahead_le := fun b hbin => (h.ahead_le b (ha b hbin)).trans hl
  early := fun n p hn hle hid b hbin => by
    obtain ⟨q, hq, hdelivery, hstart⟩ := he n p hn hle
    rw [← hdelivery] at hid ⊢
    exact h.early n q hq hstart hid b (ha b hbin)
  batch := hb

/-- A snapshot joins the delivery queue. -/
theorem push (h : InOrder s fetched level r g id) {a : ℕ} (hp : pipe s' r g id = pipe s r g id ++ [a])
    (hge : ∀ b ∈ pipe s r g id, b ≤ a) (hle : ∀ b ∈ Observers.ahead s' fetched r g id, a ≤ b)
    (ha : ∀ b ∈ Observers.ahead s' fetched r g id, b ∈ Observers.ahead s fetched r g id) (hl : a ≤ level)
    (he : ∀ n p, s'.publishing n = some p → s.publishing n = some p)
    (hb : (ranksOf id (s'.bootstrapping r)).Pairwise (· ≤ ·)) : InOrder s' fetched level r g id where
  pairwise := by
    rw [hp, List.pairwise_append]
    refine ⟨h.pairwise, List.pairwise_singleton .., fun b hbin c hc => ?_⟩
    rw [List.mem_singleton.mp hc]
    exact hge b hbin
  ahead := fun b hbin c hc => by
    rw [hp] at hbin
    rcases List.mem_append.mp hbin with hbin | hbin
    · exact h.ahead b hbin c (ha c hc)
    · rw [List.mem_singleton.mp hbin]
      exact hle c hc
  pipe_le := fun b hbin => by
    rw [hp] at hbin
    rcases List.mem_append.mp hbin with hbin | hbin
    · exact h.pipe_le b hbin
    · rwa [List.mem_singleton.mp hbin]
  ahead_le := fun b hbin => h.ahead_le b (ha b hbin)
  early := fun n p hn hstart hid b hbin => h.early n p (he n p hn) hstart hid b (ha b hbin)
  batch := hb

/-- A snapshot of the latest state is put aside for the registration. -/
theorem putAside (h : InOrder s fetched level r g id) (hp : pipe s' r g' id = pipe s r g id)
    (ha : ∀ b ∈ Observers.ahead s' fetched' r g' id, b ∈ Observers.ahead s fetched r g id ∨ b = level)
    (he : ∀ n p, s'.publishing n = some p → n ≤ g'.startedAtSequence → p.delivery.snapshot.entry.id = id →
      s.publishing n = some p ∧ n ≤ g.startedAtSequence ∧ rank p.delivery.snapshot ≤ level)
    (hb : (ranksOf id (s'.bootstrapping r)).Pairwise (· ≤ ·)) : InOrder s' fetched' level r g' id where
  pairwise := hp ▸ h.pairwise
  ahead := fun a hain b hbin => by
    rw [hp] at hain
    rcases ha b hbin with hold | rfl
    · exact h.ahead a hain b hold
    · exact h.pipe_le a hain
  pipe_le := fun a hain => h.pipe_le a (hp ▸ hain)
  ahead_le := fun b hbin => by
    rcases ha b hbin with hold | rfl
    · exact h.ahead_le b hold
    · exact le_refl _
  early := fun n p hn hstart hid b hbin => by
    obtain ⟨hold, hle, hlevel⟩ := he n p hn hstart hid
    rcases ha b hbin with hin | rfl
    · exact h.early n p hold hle hid b hin
    · exact hlevel
  batch := hb

end InOrder

variable {w w' : World cls} {r : RegistrationId} {g : Registration cls} {id : EntryId}

namespace WorldInv

theorem init : WorldInv (World.init : World cls) where
  sound := .init
  unmade := fun r _ => ⟨rfl, fun p hp => by cases hp⟩
  initial := fun r g hg => by cases hg
  started := fun r g hg => by cases hg
  store := fun id x hx => by cases hx
  history := fun x hx => by cases hx
  level_le := fun id => Nat.zero_le 3
  inFlight := fun n p hp => by cases hp
  single := fun n m p q hp => by cases hp
  ordinary := fun id => List.Pairwise.nil
  ordinary_le := fun d hd => by cases hd
  inOrder := fun r g hg => by cases hg

/-- An entry moves on while no publish call for it is in progress. -/
theorem reach (h : WorldInv w) {x : QueueEntry cls} (hle : w.level x.id ≤ lifecycleOrder x.status)
    (hnone : ¬w.Publishes x.id) {v : Option (QueueEntry cls)} (hv : v = none ∨ v = some x) :
    WorldInv { w.reach x with store := Function.update w.store x.id v } := by
  have hlevel (id : EntryId) : w.level id ≤ (w.reach x).level id := by
    show w.level id ≤ Function.update w.level x.id (lifecycleOrder x.status) id
    by_cases hid : id = x.id
    · rw [hid, Function.update_self]
      exact hle
    · rw [Function.update_of_ne hid]
  refine ⟨h.sound, h.unmade, h.initial, h.started, fun id y hy => ?_, fun y hy => ?_, fun id => ?_, fun n p hp => ?_,
    h.single, h.ordinary, fun d hd ht => (h.ordinary_le d hd ht).trans (hlevel _), fun r g hg id => ?_⟩
  · dsimp only at hy
    show y.id = id ∧ lifecycleOrder y.status = Function.update w.level x.id (lifecycleOrder x.status) id
    by_cases hid : id = x.id
    · subst hid
      rw [Function.update_self] at hy ⊢
      rcases hv with rfl | rfl
      · cases hy
      · obtain rfl := Option.some.inj hy
        exact ⟨rfl, rfl⟩
    · rw [Function.update_of_ne hid] at hy ⊢
      exact h.store id y hy
  · rcases List.mem_append.mp hy with hy | hy
    · exact (h.history y hy).trans (hlevel y.id)
    · rw [List.mem_singleton.mp hy]
      show lifecycleOrder x.status ≤ Function.update w.level x.id (lifecycleOrder x.status) x.id
      rw [Function.update_self]
  · show Function.update w.level x.id (lifecycleOrder x.status) id ≤ 3
    by_cases hid : id = x.id
    · rw [hid, Function.update_self]
      cases x.status <;> decide
    · rw [Function.update_of_ne hid]
      exact h.level_le id
  · have hne : p.delivery.snapshot.entry.id ≠ x.id := fun heq => hnone ⟨n, p, hp, heq⟩
    show rank p.delivery.snapshot = Function.update w.level x.id (lifecycleOrder x.status) _
    rw [Function.update_of_ne hne]
    exact h.inFlight n p hp
  · exact (h.inOrder r g hg id).keep (List.Sublist.refl _) (fun b hb => hb) (hlevel id)
      (fun n p hp hn => ⟨p, hp, rfl, hn⟩) (h.inOrder r g hg id).batch

theorem fetch (h : WorldInv w) (hinit : w.observers.isInitialising r = true) {x : QueueEntry cls}
    (hx : w.store id = some x) :
    WorldInv { w with fetched := Function.update w.fetched r (w.fetched r ++ [x]) } := by
  obtain ⟨hid, hlevel⟩ := h.store id x hx
  refine { h with unmade := fun r' hr' => ?_, inOrder := fun r' g hg id' => ?_ }
  · have hmissing : w.observers.registration r' = none := hr'
    have hne : r' ≠ r := fun heq => by
      rw [State.isInitialising, ← heq, hmissing] at hinit
      cases hinit
    exact ⟨(Function.update_of_ne hne ..).trans (h.unmade r' hr').1, (h.unmade r' hr').2⟩
  · dsimp only
    by_cases hr : r' = r
    · subst hr
      have hg' : g.initialising = true := by
        simpa [State.isInitialising, show w.observers.registration r' = some g from hg] using hinit
      rw [Function.update_self]
      refine (h.inOrder r' g hg id').putAside rfl (fun b hb => ?_) (fun n p hp hn hpid => ⟨hp, hn, ?_⟩)
        (h.inOrder r' g hg id').batch
      · unfold ahead at hb ⊢
        rw [if_pos hg', List.map_append, List.append_assoc, ranksOf_append, ranksOf_append] at hb
        rw [if_pos hg', ranksOf_append]
        rcases List.mem_append.mp hb with hb | hb
        · exact .inl (List.mem_append_left _ hb)
        · rcases List.mem_append.mp hb with hb | hb
          · obtain ⟨y, hy, hyid, rfl⟩ := mem_ranksOf.mp hb
            rw [List.map_singleton, List.mem_singleton] at hy
            subst hy
            have heq : id' = id := hyid.symm.trans hid
            rw [heq, ← hlevel]
            exact .inr rfl
          · exact .inl (List.mem_append_right _ hb)
      · rw [h.inFlight n p hp, hpid]
    · rw [Function.update_of_ne hr]
      exact h.inOrder r' g hg id'

/-- A publish call looks at a registration and keeps its delivery, or ends. -/
theorem checked (h : WorldInv w) {s' : State cls} {n : ℕ} (hst : Step w.observers (.check n) s') {p : Publishing cls}
    (hn : w.observers.publishing n = some p) {v : Option (Publishing cls)}
    (heq : s' = { w.observers with publishing := Function.update w.observers.publishing n v })
    (hv : ∀ q ∈ v, q.delivery = p.delivery) : WorldInv { w with observers := s' } := by
  have hsound := h.sound.step hst
  subst heq
  have hp (m : ℕ) (q : Publishing cls) (hq : Function.update w.observers.publishing n v m = some q) :
      ∃ q', w.observers.publishing m = some q' ∧ q'.delivery = q.delivery := by
    by_cases hm : m = n
    · rw [hm, Function.update_self] at hq
      exact ⟨p, hm ▸ hn, (hv q hq).symm⟩
    · rw [Function.update_of_ne hm] at hq
      exact ⟨q, hq, rfl⟩
  refine { h with
    sound := hsound
    inFlight := fun n p hn => ?_
    single := fun n m p q hn hm hid => ?_
    inOrder := fun r g hg id => ?_ }
  · obtain ⟨q, hq, hd⟩ := hp n p hn
    rw [← hd]
    exact h.inFlight n q hq
  · obtain ⟨p', hp', hdp⟩ := hp n p hn
    obtain ⟨q', hq', hdq⟩ := hp m q hm
    rw [← hdp, ← hdq] at hid
    exact h.single n m p' q' hp' hq' hid
  · refine (h.inOrder r g hg id).keep (List.Sublist.refl _) (fun b hb => hb) (le_refl _) (fun n p hn hle => ?_)
      (h.inOrder r g hg id).batch
    obtain ⟨q, hq, hd⟩ := hp n p hn
    exact ⟨q, hq, hd, hle⟩

theorem register (h : WorldInv w) (hr : w.observers.registration r = none) (f : Option EntryId) :
    WorldInv { w with observers := w.observers.register r f } := by
  have hold {r' : RegistrationId} (hne : r' ≠ r) :
      (w.observers.register r f).registration r' = w.observers.registration r' := Function.update_of_ne hne ..
  have hself : (w.observers.register r f).registration r = some ⟨f, true, true, [], w.observers.sequence, 0⟩ :=
    Function.update_self ..
  have hnew {g : Registration cls} (hg : (w.observers.register r f).registration r = some g) :
      g = ⟨f, true, true, [], w.observers.sequence, 0⟩ := Option.some.inj (hg.symm.trans hself)
  refine { h with
    sound := h.sound.register hr f
    unmade := fun r' hr' => ?_
    initial := fun r' g hg hi => ?_
    started := fun r' g hg => ?_
    inOrder := fun r' g hg id => ?_ }
  · have hne : r' ≠ r := fun heq => by
      rw [heq] at hr'
      cases hself.symm.trans hr'
    exact h.unmade r' ((hold hne).symm.trans hr')
  · by_cases hne : r' = r
    · subst hne
      exact h.sound.unmade r' hr
    · exact h.initial r' g ((hold hne).symm.trans hg) hi
  · by_cases hne : r' = r
    · subst hne
      rw [hnew hg]
      exact le_refl _
    · exact h.started r' g ((hold hne).symm.trans hg)
  · by_cases hne : r' = r
    · subst hne
      -- the new registration sees every ordinary delivery that is still in the queue, and nothing else
      rw [hnew hg]
      set g₀ : Registration cls := ⟨f, true, true, [], w.observers.sequence, 0⟩
      have hobserved : observed (w.observers.register r' f) r' id = [] := by
        unfold observed
        rw [List.map_eq_nil_iff, List.filter_eq_nil_iff]
        intro p hp hcond
        have hboth : p.1 = r' ∧ p.2.entry.id = id := by simpa using hcond
        exact (h.unmade r' hr).2 p hp hboth.1
      have hfilter : (w.observers.register r' f).events.filter (relevant r' g₀) =
          w.observers.events.filter (·.target = none) := by
        refine List.filter_congr fun d hd => ?_
        have hd' : d ∈ w.observers.events := hd
        unfold relevant
        cases ht : d.target with
        | none =>
          have hle := h.sound.events d hd' _ (h.sound.ordinary d hd' ht)
          simpa [g₀] using hle
        | some r'' =>
          have hne : r'' ≠ r' := fun heq => (h.sound.unmade r' hr).2 d hd' (heq ▸ ht)
          simp [hne]
      have hpipe : pipe (w.observers.register r' f) r' g₀ id =
          ranksOf id ((w.observers.events.filter (·.target = none)).map (·.snapshot)) := by
        unfold pipe
        rw [hobserved, hfilter, List.nil_append]
      have hahead : ahead (w.observers.register r' f) (w.fetched r') r' g₀ id = [] := by
        unfold ahead
        rw [(h.unmade r' hr).1]
        rfl
      have hbatch : (w.observers.register r' f).bootstrapping r' = [] := (h.sound.unmade r' hr).1
      refine ⟨hpipe ▸ h.ordinary id, fun a _ b hb => ?_, fun a ha => ?_, fun b hb => ?_, fun n p _ _ _ b hb => ?_, ?_⟩
      · rw [hahead] at hb
        cases hb
      · rw [hpipe] at ha
        obtain ⟨x, hx, hid, rfl⟩ := mem_ranksOf.mp ha
        obtain ⟨d, hd, rfl⟩ := List.mem_map.mp hx
        obtain ⟨hin, ht⟩ := List.mem_filter.mp hd
        rw [← hid]
        exact h.ordinary_le d hin (by simpa using ht)
      · rw [hahead] at hb
        cases hb
      · rw [hahead] at hb
        cases hb
      · rw [hbatch]
        exact List.Pairwise.nil
    · have hin := h.inOrder r' g ((hold hne).symm.trans hg) id
      exact ⟨hin.pairwise, hin.ahead, hin.pipe_le, hin.ahead_le, hin.early, hin.batch⟩

theorem unregister (h : WorldInv w) (r : RegistrationId) :
    WorldInv { w with observers := w.observers.unregister r } := by
  have hself : (w.observers.unregister r).registration r =
      (w.observers.registration r).map fun g => { g with active := false } := Function.update_self ..
  -- the registration is the same but for its `active` flag
  have hold {r' : RegistrationId} {g : Registration cls} (hg : (w.observers.unregister r).registration r' = some g) :
      ∃ g₀, w.observers.registration r' = some g₀ ∧ (g = g₀ ∨ g = { g₀ with active := false }) := by
    by_cases hne : r' = r
    · subst hne
      have hmap := hself.symm.trans hg
      obtain ⟨g₀, hg₀, rfl⟩ := Option.map_eq_some_iff.mp hmap
      exact ⟨g₀, hg₀, .inr rfl⟩
    · exact ⟨g, (Function.update_of_ne hne ..).symm.trans hg, .inl rfl⟩
  refine { h with
    sound := h.sound.unregister r
    unmade := fun r' hr' => h.unmade r' ?_
    initial := fun r' g hg hi => ?_
    started := fun r' g hg => ?_
    inOrder := fun r' g hg id => ?_ }
  · by_cases hne : r' = r
    · subst hne
      exact Option.map_eq_none_iff.mp (hself.symm.trans hr')
    · exact (Function.update_of_ne hne ..).symm.trans hr'
  · obtain ⟨g₀, hg₀, rfl | rfl⟩ := hold hg
    · exact h.initial r' g hg₀ hi
    · exact h.initial r' g₀ hg₀ hi
  · obtain ⟨g₀, hg₀, rfl | rfl⟩ := hold hg
    · exact h.started r' g hg₀
    · exact h.started r' g₀ hg₀
  · obtain ⟨g₀, hg₀, rfl | rfl⟩ := hold hg
    · have hin := h.inOrder r' g hg₀ id
      exact ⟨hin.pairwise, hin.ahead, hin.pipe_le, hin.ahead_le, hin.early, hin.batch⟩
    · have hin := h.inOrder r' g₀ hg₀ id
      exact ⟨hin.pairwise, hin.ahead, hin.pipe_le, hin.ahead_le, hin.early, hin.batch⟩

/-- The locked block of `publish`, for the state the entry has reached. -/
theorem publish (h : WorldInv w) {x : QueueEntry cls} (hx : x ∈ w.history) (hnone : ¬w.Publishes x.id)
    (hle : w.level x.id ≤ lifecycleOrder x.status) :
    WorldInv { w with observers := w.observers.publish x, published := w.published ++ [x] } := by
  set n := w.observers.sequence + 1 with hn
  have hlevel : lifecycleOrder x.status = w.level x.id := le_antisymm (h.history x hx) hle
  have hself : (w.observers.publish x).publishing n =
      some (.checking ⟨⟨x, some n⟩, none, n⟩ w.observers.registrations) := Function.update_self ..
  have hother {m : ℕ} (hm : m ≠ n) : (w.observers.publish x).publishing m = w.observers.publishing m :=
    Function.update_of_ne hm ..
  have hold {r : RegistrationId} {g : Registration cls} (hg : (w.observers.publish x).registration r = some g) :
      ∃ g₀, w.observers.registration r = some g₀ ∧ (g = g₀ ∨ g₀.initialising = true ∧
        g = { g₀ with pending := g₀.pending ++ [⟨x, some n⟩] }) := by
    obtain ⟨g₀, hg₀, rfl⟩ := Option.map_eq_some_iff.mp hg
    refine ⟨g₀, hg₀, ?_⟩
    split_ifs with hcond
    · exact .inr ⟨hcond.2, rfl⟩
    · exact .inl rfl
  -- the new call is for none of the registrations made so far
  have hearly {r : RegistrationId} {g₀ : Registration cls} (hg₀ : w.observers.registration r = some g₀) {m : ℕ}
      (hm : m ≤ g₀.startedAtSequence) : m ≠ n := fun heq => by
    have hstarted := h.started r g₀ hg₀
    omega
  refine { h with
    sound := h.sound.publish x
    unmade := fun r hr => h.unmade r (Option.map_eq_none_iff.mp hr)
    initial := fun r g hg hi => ?_
    started := fun r g hg => ?_
    inFlight := fun m p hp => ?_
    single := fun m m' p q hp hq hid => ?_
    inOrder := fun r g hg id => ?_ }
  · obtain ⟨g₀, hg₀, rfl | ⟨hi₀, rfl⟩⟩ := hold hg
    · exact h.initial r g hg₀ hi
    · exact h.initial r g₀ hg₀ hi₀
  · obtain ⟨g₀, hg₀, rfl | ⟨hi₀, rfl⟩⟩ := hold hg
    · exact Nat.le_succ_of_le (h.started r g hg₀)
    · exact Nat.le_succ_of_le (h.started r g₀ hg₀)
  · by_cases hm : m = n
    · subst hm
      obtain rfl := Option.some.inj (hself.symm.trans hp)
      exact hlevel
    · exact h.inFlight m p ((hother hm).symm.trans hp)
  · by_cases hm : m = n
    · by_cases hm' : m' = n
      · rw [hm, hm']
      · rw [hm] at hp
        obtain rfl := Option.some.inj (hself.symm.trans hp)
        exact absurd ⟨m', q, (hother hm').symm.trans hq, hid.symm⟩ hnone
    · by_cases hm' : m' = n
      · rw [hm'] at hq
        obtain rfl := Option.some.inj (hself.symm.trans hq)
        exact absurd ⟨m, p, (hother hm).symm.trans hp, hid⟩ hnone
      · exact h.single m m' p q ((hother hm).symm.trans hp) ((hother hm').symm.trans hq) hid
  · obtain ⟨g₀, hg₀, rfl | ⟨hi₀, rfl⟩⟩ := hold hg
    · refine (h.inOrder r g hg₀ id).keep (List.Sublist.refl _) (fun b hb => hb) (le_refl _) (fun m p hp hm => ?_)
        (h.inOrder r g hg₀ id).batch
      exact ⟨p, (hother (hearly hg₀ hm)).symm.trans hp, rfl, hm⟩
    · refine (h.inOrder r g₀ hg₀ id).putAside rfl (fun b hb => ?_) (fun m p hp hm hpid => ?_) (h.inOrder r g₀ hg₀ id).batch
      · unfold ahead at hb ⊢
        rw [if_pos (show g₀.initialising = true from hi₀), ranksOf_append, ranksOf_append] at hb
        rw [if_pos hi₀, ranksOf_append]
        rcases List.mem_append.mp hb with hb | hb
        · exact .inl (List.mem_append_left _ hb)
        · rcases List.mem_append.mp hb with hb | hb
          · exact .inl (List.mem_append_right _ hb)
          · obtain ⟨y, hy, hyid, rfl⟩ := mem_ranksOf.mp hb
            rw [List.mem_singleton] at hy
            subst hy
            rw [← hyid]
            exact .inr hlevel
      · have hp' := (hother (hearly hg₀ hm)).symm.trans hp
        refine ⟨hp', hm, ?_⟩
        rw [h.inFlight m p hp', hpid]

/-- The ranks of a queue with one more ordinary delivery. -/
theorem pairwise_ordinary_put (h : WorldInv w) {d : Delivery cls} (hrank : rank d.snapshot = w.level d.snapshot.entry.id)
    (id : EntryId) : (ranksOf id (((w.observers.events ++ [d]).filter (·.target = none)).map (·.snapshot))).Pairwise
      (· ≤ ·) := by
  rw [List.filter_append, List.map_append, ranksOf_append, List.pairwise_append]
  refine ⟨h.ordinary id, ?_, fun a ha b hb => ?_⟩
  · by_cases ht : d.target = none <;> by_cases hid : d.snapshot.entry.id = id <;> simp [ranksOf, ht, hid]
  · obtain ⟨x, hx, hxid, rfl⟩ := mem_ranksOf.mp ha
    obtain ⟨d', hd', rfl⟩ := List.mem_map.mp hx
    obtain ⟨hin, ht'⟩ := List.mem_filter.mp hd'
    obtain ⟨y, hy, hyid, rfl⟩ := mem_ranksOf.mp hb
    obtain ⟨d'', hd'', rfl⟩ := List.mem_map.mp hy
    rw [List.mem_singleton.mp (List.mem_of_mem_filter hd'')] at hyid ⊢
    rw [hrank, hyid, ← hxid]
    exact h.ordinary_le d' hin (by simpa using ht')

theorem put (h : WorldInv w) {n : ℕ} {d : Delivery cls} (hp : w.observers.publishing n = some (.queueing d))
    {s' : State cls}
    (hst : Step w.observers (.put n) s')
    (heq : s' = { w.observers with
      events := w.observers.events ++ [d], publishing := Function.update w.observers.publishing n none })
    (hturn : ∀ r g, w.observers.registration r = some g → g.bootstrappedThroughSequence < n →
      ∀ y ∈ w.observers.bootstrapping r, y.entry.id = d.snapshot.entry.id → rank d.snapshot ≤ rank y) :
    WorldInv { w with observers := s' } := by
  have hsound := h.sound.step hst
  have hrank : rank d.snapshot = w.level d.snapshot.entry.id := h.inFlight n _ hp
  obtain ⟨ht, hseq, -, -⟩ := h.sound.publishing n _ hp
  have htarget : d.target = none := ht
  have hsequence : d.sequence = n := hseq
  subst heq
  have hold {m : ℕ} {p : Publishing cls} (hm : Function.update w.observers.publishing n none m = some p) :
      w.observers.publishing m = some p := by
    by_cases hmn : m = n
    · rw [hmn, Function.update_self] at hm
      cases hm
    · rwa [Function.update_of_ne hmn] at hm
  refine { h with
    sound := hsound
    unmade := fun r hr => h.unmade r hr
    initial := fun r g hg hi => ⟨(h.initial r g hg hi).1, fun x hx => ?_⟩
    inFlight := fun m p hm => h.inFlight m p (hold hm)
    single := fun m m' p q hm hm' hid => h.single m m' p q (hold hm) (hold hm') hid
    ordinary := h.pairwise_ordinary_put hrank
    ordinary_le := fun x hx htx => ?_
    inOrder := fun r g hg id => ?_ }
  · rcases List.mem_append.mp hx with hx | hx
    · exact (h.initial r g hg hi).2 x hx
    · rw [List.mem_singleton.mp hx, htarget]
      exact nofun
  · rcases List.mem_append.mp hx with hx | hx
    · exact h.ordinary_le x hx htx
    · rw [List.mem_singleton.mp hx]
      exact hrank.le
  · have hin := h.inOrder r g hg id
    have hpipe := pipe_addEvent w.observers d r g id
    by_cases hrel : relevant r g d = true ∧ d.snapshot.entry.id = id
    · rw [if_pos hrel] at hpipe
      refine hin.push hpipe (fun b hb => ?_) (fun b hb => ?_) (fun b hb => hb) ?_ (fun m p hm => hold hm) hin.batch
      · rw [hrank, hrel.2]
        exact hin.pipe_le b hb
      · -- published before the registration, or after its activation
        by_cases hstart : n ≤ g.startedAtSequence
        · exact hin.early n _ hp hstart hrel.2 b hb
        · have hinit : g.initialising = false := by
            by_contra hi
            have hi' : g.initialising = true := by simpa using hi
            have hcontra := hrel.1
            rw [relevant, htarget] at hcontra
            simp only [hi', if_true, hsequence, decide_eq_true_eq] at hcontra
            exact hstart hcontra
          have hboot : g.bootstrappedThroughSequence < n := by
            have hcontra := hrel.1
            rw [relevant, htarget] at hcontra
            simp only [hinit, Bool.false_eq_true, if_false, hsequence, Bool.not_eq_true', Bool.and_eq_false_iff,
              decide_eq_false_iff_not, not_lt, not_le] at hcontra
            exact hcontra.resolve_left hstart
          have hb' : b ∈ ranksOf id (w.observers.bootstrapping r) := by
            have hmem := hb
            unfold ahead at hmem
            rwa [if_neg (by simp [hinit])] at hmem
          obtain ⟨y, hy, hyid, rfl⟩ := mem_ranksOf.mp hb'
          exact hturn r g hg hboot y hy (hyid.trans hrel.2.symm)
      · rw [hrank, hrel.2]
    · rw [if_neg hrel, List.append_nil] at hpipe
      refine hin.keep ?_ (fun b hb => hb) (le_refl _) (fun m p hm hle => ⟨p, hold hm, rfl, hle⟩) hin.batch
      exact hpipe ▸ List.Sublist.refl _

/-- What was relevant to a registration while it was initialising is relevant afterwards. -/
theorem relevant_activate (h : WorldInv w) (hi : g.initialising = true) :
    w.observers.events.filter (relevant r
      { g with pending := [], bootstrappedThroughSequence := w.observers.sequence, initialising := false }) =
      w.observers.events.filter (relevant r g) := by
  refine List.filter_congr fun d hd => ?_
  unfold relevant
  cases ht : d.target with
  | some r' => rfl
  | none =>
    have hle := h.sound.events d hd _ (h.sound.ordinary d hd ht)
    by_cases hstart : d.sequence ≤ g.startedAtSequence
    · simp [hi, hstart]
    · simp [hi, hstart, not_le.mp hstart, hle]

theorem activate (h : WorldInv w) (hg : w.observers.registration r = some g) (hi : g.initialising = true)
    {s' : State cls} (hst : Step w.observers (.activate r (w.fetched r)) s')
    (heq : s' = { w.observers with
      registration := Function.update w.observers.registration r (some
        { g with pending := [], bootstrappedThroughSequence := w.observers.sequence, initialising := false })
      bootstrapping := Function.update w.observers.bootstrapping r
        (orderSnapshots ((w.fetched r).map (⟨·, none⟩) ++ g.pending)) }) :
    WorldInv { w with observers := s' } := by
  have hsound := h.sound.step hst
  subst heq
  set g' : Registration cls :=
    { g with pending := [], bootstrappedThroughSequence := w.observers.sequence, initialising := false } with hg'
  have hsame {r' : RegistrationId} {g₁ : Registration cls} (hne : r' ≠ r)
      (hg₁ : Function.update w.observers.registration r (some g') r' = some g₁) :
      w.observers.registration r' = some g₁ := (Function.update_of_ne hne ..).symm.trans hg₁
  have hself {g₁ : Registration cls} (hg₁ : Function.update w.observers.registration r (some g') r = some g₁) :
      g₁ = g' := by
    rw [Function.update_self] at hg₁
    exact (Option.some.inj hg₁).symm
  refine { h with
    sound := hsound
    unmade := fun r' hr' => h.unmade r' ?_
    initial := fun r' g₁ hg₁ hi₁ => ?_
    started := fun r' g₁ hg₁ => ?_
    inOrder := fun r' g₁ hg₁ id => ?_ }
  · by_cases hne : r' = r
    · dsimp only at hr'
      rw [hne, Function.update_self] at hr'
      cases hr'
    · exact (Function.update_of_ne hne ..).symm.trans hr'
  · by_cases hne : r' = r
    · subst hne
      rw [hself hg₁] at hi₁
      cases hi₁
    · obtain ⟨hnil, hnone⟩ := h.initial r' g₁ (hsame hne hg₁) hi₁
      exact ⟨(Function.update_of_ne hne ..).trans hnil, hnone⟩
  · by_cases hne : r' = r
    · subst hne
      rw [hself hg₁]
      exact h.started r' g hg
    · exact h.started r' g₁ (hsame hne hg₁)
  · by_cases hne : r' = r
    · subst hne
      rw [hself hg₁]
      -- what was kept back becomes the bootstrap, in its sorted order
      have hin := h.inOrder r' g hg id
      refine hin.keep ?_ (fun b hb => ?_) (le_refl _) (fun n p hp hn => ⟨p, hp, rfl, hn⟩) ?_
      · unfold pipe
        dsimp only
        rw [h.relevant_activate hi]
        exact List.Sublist.refl _
      · unfold ahead at hb ⊢
        rw [if_neg (by simp [hg'])] at hb
        rw [if_pos hi]
        dsimp only at hb
        rw [Function.update_self] at hb
        exact (ranksOf_perm id (List.perm_insertionSort _ _)).mem_iff.mp hb
      · dsimp only
        rw [Function.update_self]
        exact pairwise_orderSnapshots id _
    · have hin := h.inOrder r' g₁ (hsame hne hg₁) id
      have hboot : Function.update w.observers.bootstrapping r
          (orderSnapshots ((w.fetched r).map (⟨·, none⟩) ++ g.pending)) r' = w.observers.bootstrapping r' :=
        Function.update_of_ne hne ..
      refine hin.keep (List.Sublist.refl _) (fun b hb => ?_) (le_refl _) (fun n p hp hn => ⟨p, hp, rfl, hn⟩) ?_
      · unfold ahead at hb ⊢
        dsimp only at hb
        rwa [hboot] at hb
      · dsimp only
        rw [hboot]
        exact hin.batch

theorem putBootstrap (h : WorldInv w) {x : Snapshot cls} {rest : List (Snapshot cls)}
    (hx : w.observers.bootstrapping r = x :: rest) {s' : State cls} (hst : Step w.observers (.putBootstrap r) s')
    (heq : s' = { w.observers with
      events := w.observers.events ++ [⟨x, some r, 0⟩]
      bootstrapping := Function.update w.observers.bootstrapping r rest }) :
    WorldInv { w with observers := s' } := by
  have hsound := h.sound.step hst
  subst heq
  have hsub {r' : RegistrationId} {y : Snapshot cls}
      (hy : y ∈ Function.update w.observers.bootstrapping r rest r') : y ∈ w.observers.bootstrapping r' := by
    by_cases hne : r' = r
    · rw [hne, Function.update_self] at hy
      rw [hne, hx]
      exact List.mem_cons_of_mem _ hy
    · rwa [Function.update_of_ne hne] at hy
  have hbatch {r' : RegistrationId} {g' : Registration cls} (hg' : w.observers.registration r' = some g')
      (id : EntryId) : (ranksOf id (Function.update w.observers.bootstrapping r rest r')).Pairwise (· ≤ ·) := by
    have hall := (h.inOrder r' g' hg' id).batch
    by_cases hne : r' = r
    · rw [hne, hx] at hall
      rw [hne, Function.update_self]
      exact hall.sublist (((List.sublist_cons_self x rest).filter _).map _)
    · rwa [Function.update_of_ne hne]
  have hactive {g' : Registration cls} (hg' : w.observers.registration r = some g') : g'.initialising = false := by
    by_contra hi
    rw [(h.initial r g' hg' (by simpa using hi)).1] at hx
    cases hx
  refine { h with
    sound := hsound
    unmade := fun r' hr' => h.unmade r' hr'
    initial := fun r' g' hg' hi => ?_
    ordinary := fun id => ?_
    ordinary_le := fun d hd ht => ?_
    inOrder := fun r' g' hg' id => ?_ }
  · obtain ⟨hnil, hnone⟩ := h.initial r' g' hg' hi
    have hne : r' ≠ r := fun heq => by
      rw [← heq, hnil] at hx
      cases hx
    refine ⟨(Function.update_of_ne hne ..).trans hnil, fun d hd => ?_⟩
    rcases List.mem_append.mp hd with hd | hd
    · exact hnone d hd
    · rw [List.mem_singleton.mp hd]
      exact fun ht => hne (Option.some.inj ht).symm
  · have hfilter : (w.observers.events ++ [(⟨x, some r, 0⟩ : Delivery cls)]).filter (·.target = none) =
        w.observers.events.filter (·.target = none) := by simp
    rw [hfilter]
    exact h.ordinary id
  · rcases List.mem_append.mp hd with hd | hd
    · exact h.ordinary_le d hd ht
    · rw [List.mem_singleton.mp hd] at ht
      cases ht
  · have hin := h.inOrder r' g' hg' id
    have hpipe := pipe_addEvent w.observers ⟨x, some r, 0⟩ r' g' id
    have hahead : ∀ b ∈ ahead { w.observers with
        events := w.observers.events ++ [⟨x, some r, 0⟩]
        bootstrapping := Function.update w.observers.bootstrapping r rest } (w.fetched r') r' g' id,
        b ∈ ahead w.observers (w.fetched r') r' g' id := fun b hb => by
      unfold ahead at hb ⊢
      obtain ⟨y, hy, hyid, rfl⟩ := mem_ranksOf.mp hb
      refine mem_ranksOf.mpr ⟨y, ?_, hyid, rfl⟩
      split_ifs at hy ⊢
      · exact hy
      · exact hsub hy
    by_cases hrel : r' = r ∧ x.entry.id = id
    · obtain ⟨rfl, hid⟩ := hrel
      have hinit := hactive hg'
      have hmem : rank x ∈ ahead w.observers (w.fetched r') r' g' id := by
        unfold ahead
        rw [if_neg (by simp [hinit]), hx]
        exact mem_ranksOf.mpr ⟨x, List.mem_cons_self .., hid, rfl⟩
      rw [if_pos ⟨by simp [relevant], hid⟩] at hpipe
      refine hin.push hpipe (fun b hb => hin.ahead b hb _ hmem) (fun b hb => ?_) hahead (hin.ahead_le _ hmem)
        (fun n p hp => hp) (hbatch hg' id)
      -- the batch is in order
      have hall := hin.batch
      rw [hx] at hall
      have hcons : ranksOf id (x :: rest) = rank x :: ranksOf id rest := by simp [ranksOf, hid]
      rw [hcons, List.pairwise_cons] at hall
      unfold ahead at hb
      rw [if_neg (by simp [hinit])] at hb
      dsimp only at hb
      rw [Function.update_self] at hb
      exact hall.1 b hb
    · have hnot : ¬(relevant r' g' (⟨x, some r, 0⟩ : Delivery cls) = true ∧ x.entry.id = id) := fun hc =>
        hrel ⟨by simpa [relevant, eq_comm] using hc.1, hc.2⟩
      rw [if_neg hnot, List.append_nil] at hpipe
      exact hin.keep (hpipe ▸ List.Sublist.refl _) hahead (le_refl _) (fun n p hp hn => ⟨p, hp, rfl, hn⟩) (hbatch hg' id)

/-- The callbacks a delivery reaches are among those it is relevant to. -/
theorem relevant_of_delivers {s : State cls} {d : Delivery cls} (hg : s.registration r = some g)
    (hd : r ∈ s.recipients d) : relevant r g d = true := by
  obtain ⟨htarget, hdelivers⟩ := mem_recipients.mp hd
  unfold State.delivers at hdelivers
  rw [hg, Option.any_some] at hdelivers
  simp only [Bool.and_eq_true] at hdelivers
  obtain ⟨⟨⟨-, hinit⟩, hskip⟩, -⟩ := hdelivers
  unfold relevant
  rcases htarget with ⟨ht, -⟩ | ht
  · rw [ht] at hskip ⊢
    simp only [Bool.not_eq_true', Option.isNone_none, Bool.true_and] at hinit hskip
    simp [hinit, hskip]
  · rw [ht]
    simp

theorem dispatch (h : WorldInv w) {d : Delivery cls} {rest : List (Delivery cls)} (hd : w.observers.events = d :: rest)
    {s' : State cls} {callback : RegistrationId → CallbackEnd} (hst : Step w.observers (.dispatch callback) s')
    {go : Bool} (heq : s' = { w.observers with
      events := rest
      received := w.observers.received ++ (w.observers.called callback d).map (·, d.snapshot)
      dispatching := go }) :
    WorldInv { w with observers := s' } := by
  have hsound := h.sound.step hst
  subst heq
  have hin : ∀ x ∈ rest, x ∈ w.observers.events := fun x hx => by rw [hd]; exact List.mem_cons_of_mem _ hx
  have hsub : rest.Sublist w.observers.events := by rw [hd]; exact List.sublist_cons_self ..
  have hcalled : (w.observers.called callback d).Sublist (w.observers.recipients d) := calledOf_sublist ..
  refine { h with
    sound := hsound
    unmade := fun r hr => ⟨(h.unmade r hr).1, fun p hp => ?_⟩
    initial := fun r g hg hi => ⟨(h.initial r g hg hi).1, fun x hx => (h.initial r g hg hi).2 x (hin x hx)⟩
    ordinary := fun id => (h.ordinary id).sublist ((((hsub.filter _).map _).filter _).map _)
    ordinary_le := fun x hx => h.ordinary_le x (hin x hx)
    inOrder := fun r g hg id => ?_ }
  · rcases List.mem_append.mp hp with hp | hp
    · exact (h.unmade r hr).2 p hp
    · obtain ⟨r', hr', rfl⟩ := List.mem_map.mp hp
      intro heq
      have hdelivers := (mem_recipients.mp (hcalled.subset hr')).2
      have hmissing : w.observers.registration r' = none := (congrArg w.observers.registration heq).trans hr
      rw [State.delivers, hmissing] at hdelivers
      cases hdelivers
  · have hall := h.inOrder r g hg id
    refine hall.keep ?_ (fun b hb => hb) (le_refl _) (fun n p hp hn => ⟨p, hp, rfl, hn⟩) hall.batch
    -- the delivery moves from the queue to what has been received, or is dropped
    have hobserved : observed { w.observers with
        events := rest
        received := w.observers.received ++ (w.observers.called callback d).map (·, d.snapshot)
        dispatching := go } r id =
        observed w.observers r id ++
          if r ∈ w.observers.called callback d ∧ d.snapshot.entry.id = id then [rank d.snapshot] else [] := by
      unfold observed
      rw [List.filter_append, List.map_append,
        filter_recipients ((nodup_recipients h.sound d).sublist hcalled) r d.snapshot (·.entry.id = id)]
      split_ifs <;> rfl
    have hqueue : ranksOf id ((w.observers.events.filter (relevant r g)).map (·.snapshot)) =
        (if relevant r g d = true ∧ d.snapshot.entry.id = id then [rank d.snapshot] else []) ++
          ranksOf id ((rest.filter (relevant r g)).map (·.snapshot)) := by
      rw [hd]
      by_cases hrel : relevant r g d = true <;> by_cases hid : d.snapshot.entry.id = id <;> simp [ranksOf, hrel, hid]
    unfold pipe
    rw [hobserved, hqueue, List.append_assoc]
    refine List.Sublist.append (List.Sublist.refl _) (List.Sublist.append ?_ (List.Sublist.refl _))
    by_cases hto : r ∈ w.observers.called callback d ∧ d.snapshot.entry.id = id
    · rw [if_pos hto, if_pos ⟨relevant_of_delivers hg (hcalled.subset hto.1), hto.2⟩]
    · rw [if_neg hto]
      exact List.nil_sublist _

theorem step (h : WorldInv w) {l : WorldAction cls} (hst : InTurnStep w l w') : WorldInv w' := by
  have hallowed := hst.allowed
  have hturn := hst.inTurn
  have heq := hst.step_eq
  cases l with
  | fetch r id =>
    obtain ⟨x, hx, rfl⟩ := Option.map_eq_some_iff.mp heq
    exact h.fetch hallowed hx
  | store x =>
    obtain rfl := Option.some.inj heq
    exact h.reach hallowed.1 hturn (.inr rfl)
  | terminate x =>
    obtain rfl := Option.some.inj heq
    have hstatus : x.status = .terminated := hallowed
    have hlevel : w.level x.id ≤ lifecycleOrder x.status := by
      rw [hstatus]
      exact h.level_le x.id
    exact h.reach hlevel hturn (.inl rfl)
  | observe a =>
    obtain ⟨s', hs', rfl⟩ := Option.map_eq_some_iff.mp heq
    have hstep : Step w.observers a s' := hs'
    cases hstep.stepCase with
    | register hr => exact h.register hr _
    | unregister => exact h.unregister _
    | publish => exact h.publish hallowed.1 hallowed.2.1 hturn
    | ended hp => exact h.checked hstep hp rfl fun q hq => by cases hq
    | passed hp => exact h.checked hstep hp rfl fun q hq => Option.some.inj hq ▸ rfl
    | found hp => exact h.checked hstep hp rfl fun q hq => Option.some.inj hq ▸ rfl
    | put hp => exact h.put hp hstep rfl (hturn _ hp)
    | activate hg hi =>
      obtain rfl := hallowed
      exact h.activate hg hi hstep rfl
    | putBootstrap hx => exact h.putBootstrap hx hstep rfl
    | dispatch hgo hd => exact h.dispatch hd hstep rfl

end WorldInv

/-- In every run whose steps are all in turn, every callback receives the states of every entry
in lifecycle order. -/
theorem observed_in_order {ls : List (WorldAction cls)} (hrun : Run InTurnStep .init ls w) (r : RegistrationId)
    (id : EntryId) : (observed w.observers r id).Pairwise (· ≤ ·) := by
  have h : WorldInv w := hrun.invariant (fun _ _ _ h hst => h.step hst) .init
  cases hg : w.observers.registration r with
  | none =>
    have hnil : observed w.observers r id = [] := by
      unfold observed
      rw [List.map_eq_nil_iff, List.filter_eq_nil_iff]
      intro p hp hcond
      have hboth : p.1 = r ∧ p.2.entry.id = id := by simpa using hcond
      exact (h.unmade r hg).2 p hp hboth.1
    rw [hnil]
    exact List.Pairwise.nil
  | some g => exact (h.inOrder r g hg id).pairwise.sublist (List.sublist_append_left _ _)

/-- The world after a list of steps. -/
def World.steps (w : World cls) : List (WorldAction cls) → Option (World cls)
  | [] => some w
  | l :: ls => (w.step l).bind (·.steps ls)

/-- Each step of the list has the property where it is taken. -/
def Follows (P : World cls → WorldAction cls → Prop) : List (WorldAction cls) → World cls → Prop
  | [], _ => True
  | l :: ls, w => P w l ∧ ∀ v, w.step l = some v → Follows P ls v

theorem run_of_follows {step : World cls → WorldAction cls → World cls → Prop} {P : World cls → WorldAction cls → Prop}
    (hstep : ∀ w l w', P w l → w.step l = some w' → step w l w') {ls : List (WorldAction cls)} (hf : Follows P ls w)
    (hs : w.steps ls = some w') : Run step w ls w' := by
  induction ls generalizing w with
  | nil =>
    obtain rfl := Option.some.inj hs
    exact .nil _
  | cons l ls ih =>
    obtain ⟨v, hv, hrest⟩ := Option.bind_eq_some_iff.mp hs
    exact .cons (hstep w l v hf.1 hv) (ih (hf.2 v hv) hrest)

/-- A queued entry and its next state. -/
def queuedEntry : QueueEntry .base := .plain (.ofLast 1) .null

def runningEntry : QueueEntry .base := { queuedEntry with status := .running }

/-- A registration is activated between two states of an entry. -/
def activatedBetween : List (WorldAction .base) :=
  [.store queuedEntry, .observe (.publish queuedEntry), .observe (.check 1), .observe (.register 0 none),
    .fetch 0 (.ofLast 1), .store runningEntry, .observe (.activate 0 [queuedEntry])]

/-- The batch comes first. -/
def batchFirst : List (WorldAction .base) :=
  [.observe (.putBootstrap 0), .observe (.publish runningEntry), .observe (.check 2), .observe (.put 2),
    .observe (.dispatch fun _ => .handled), .observe (.dispatch fun _ => .handled)]

/-- The publication overtakes the batch. -/
def batchOvertaken : List (WorldAction .base) :=
  [.observe (.publish runningEntry), .observe (.check 2), .observe (.put 2), .observe (.putBootstrap 0),
    .observe (.dispatch fun _ => .handled), .observe (.dispatch fun _ => .handled)]

theorem not_publishes_of_none (h : ∀ n, w.observers.publishing n = none) (id : EntryId) : ¬w.Publishes id := by
  rintro ⟨n, p, hp, -⟩
  rw [h n] at hp
  cases hp

/-- What was set for one index has been taken back. -/
theorem update_finished {α : Type*} {f : ℕ → α} {a : α} (hf : ∀ n, f n = a) (m : ℕ) (v : α) (n : ℕ) :
    Function.update (Function.update f m v) m a n = a := by
  by_cases hn : n = m
  · rw [hn, Function.update_self]
  · rw [Function.update_of_ne hn, Function.update_of_ne hn, hf]

theorem follows_append {P : World cls → WorldAction cls → Prop} {ls ls' : List (WorldAction cls)}
    (h : Follows P ls w) (h' : ∀ v, w.steps ls = some v → Follows P ls' v) : Follows P (ls ++ ls') w := by
  induction ls generalizing w with
  | nil => exact h' w rfl
  | cons l ls ih =>
    refine ⟨h.1, fun v hv => ih (h.2 v hv) fun u hu => h' u ?_⟩
    rw [World.steps, hv]
    exact hu

theorem follows_mono {P Q : World cls → WorldAction cls → Prop} (hPQ : ∀ w l, P w l → Q w l)
    {ls : List (WorldAction cls)} (h : Follows P ls w) : Follows Q ls w := by
  induction ls generalizing w with
  | nil => trivial
  | cons l ls ih => exact ⟨hPQ w l h.1, fun v hv => ih (h.2 v hv)⟩

theorem follows_activatedBetween :
    Follows (fun w l => w.Allowed l ∧ w.InTurn l) activatedBetween (World.init : World .base) := by
  have hinit (id : EntryId) : ¬(World.init : World .base).Publishes id := not_publishes_of_none (fun n => rfl) id
  refine ⟨⟨⟨by decide, by decide⟩, hinit _⟩, ?_⟩
  rintro _ ⟨⟩
  refine ⟨⟨⟨by simp [World.reach], hinit _, fun y hy => by cases hy⟩, Nat.le_refl 0⟩, ?_⟩
  rintro _ ⟨⟩
  refine ⟨⟨trivial, trivial⟩, ?_⟩
  rintro _ ⟨⟩
  refine ⟨⟨trivial, trivial⟩, ?_⟩
  rintro _ ⟨⟩
  refine ⟨⟨rfl, trivial⟩, ?_⟩
  rintro _ ⟨⟩
  refine ⟨⟨⟨Nat.zero_le 1, by decide⟩, ?_⟩, ?_⟩
  · exact not_publishes_of_none (update_finished (fun n => rfl) 1 _) _
  rintro _ ⟨⟩
  refine ⟨⟨rfl, trivial⟩, ?_⟩
  rintro _ ⟨⟩
  trivial

/-- With the batch first, the callback sees the entry queued and then running. -/
theorem observed_in_order_batch_first :
    ∃ w, Run InTurnStep .init (activatedBetween ++ batchFirst) w ∧ observed w.observers 0 (.ofLast 1) = [0, 1] ∧
      (observed w.observers 0 (.ofLast 1)).Pairwise (· ≤ ·) := by
  have hfollows : Follows (fun w l => w.Allowed l ∧ w.InTurn l) (activatedBetween ++ batchFirst) World.init := by
    refine follows_append follows_activatedBetween ?_
    rintro _ ⟨⟩
    refine ⟨⟨trivial, trivial⟩, ?_⟩
    rintro _ ⟨⟩
    refine ⟨⟨⟨by simp [World.reach], ?_, ?_⟩, Nat.le_refl 1⟩, ?_⟩
    · exact not_publishes_of_none (update_finished (fun n => rfl) 1 _) _
    · intro y hy _
      rw [List.mem_singleton.mp hy]
      decide
    rintro _ ⟨⟩
    refine ⟨⟨trivial, trivial⟩, ?_⟩
    rintro _ ⟨⟩
    refine ⟨⟨trivial, fun d hd r g hg hlt y hy => ?_⟩, ?_⟩
    · have hnil : y ∈ ([] : List (Snapshot .base)) :=
        Eq.mp (congrArg (y ∈ ·) (update_finished (fun _ => rfl) 0 _ r)) hy
      cases hnil
    rintro _ ⟨⟩
    refine ⟨⟨trivial, trivial⟩, ?_⟩
    rintro _ ⟨⟩
    exact ⟨⟨trivial, trivial⟩, fun _ _ => trivial⟩
  have hsome : ((World.init : World .base).steps (activatedBetween ++ batchFirst)).isSome := by decide +kernel
  obtain ⟨w, hw⟩ := Option.isSome_iff_exists.mp hsome
  have hrun : Run InTurnStep .init (activatedBetween ++ batchFirst) w :=
    run_of_follows (fun w l w' h heq => ⟨⟨h.1, heq⟩, h.2⟩) hfollows hw
  have hseen : ((World.init : World .base).steps (activatedBetween ++ batchFirst)).map
      (fun w => observed w.observers 0 (.ofLast 1)) = some [0, 1] := by decide +kernel
  rw [hw, Option.map_some] at hseen
  exact ⟨w, hrun, Option.some.inj hseen, observed_in_order hrun 0 (.ofLast 1)⟩

/-- A callback sees the entry running and then queued: `activate` lets ordinary deliveries pass
before it has put its batch. -/
theorem observed_out_of_order :
    ∃ w, Run WorldStep .init (activatedBetween ++ batchOvertaken) w ∧ observed w.observers 0 (.ofLast 1) = [1, 0] := by
  have hfollows : Follows World.Allowed (activatedBetween ++ batchOvertaken) World.init := by
    refine follows_append (follows_mono (fun w l h => h.1) follows_activatedBetween) ?_
    rintro _ ⟨⟩
    refine ⟨⟨by simp [World.reach], ?_, ?_⟩, ?_⟩
    · exact not_publishes_of_none (update_finished (fun n => rfl) 1 _) _
    · intro y hy _
      rw [List.mem_singleton.mp hy]
      decide
    rintro _ ⟨⟩
    refine ⟨trivial, ?_⟩
    rintro _ ⟨⟩
    refine ⟨trivial, ?_⟩
    rintro _ ⟨⟩
    refine ⟨trivial, ?_⟩
    rintro _ ⟨⟩
    refine ⟨trivial, ?_⟩
    rintro _ ⟨⟩
    exact ⟨trivial, fun _ _ => trivial⟩
  have hsome : ((World.init : World .base).steps (activatedBetween ++ batchOvertaken)).isSome := by decide +kernel
  obtain ⟨w, hw⟩ := Option.isSome_iff_exists.mp hsome
  have hrun : Run WorldStep .init (activatedBetween ++ batchOvertaken) w :=
    run_of_follows (fun w l w' h heq => ⟨h, heq⟩) hfollows hw
  have hseen : ((World.init : World .base).steps (activatedBetween ++ batchOvertaken)).map
      (fun w => observed w.observers 0 (.ofLast 1)) = some [1, 0] := by decide +kernel
  rw [hw, Option.map_some] at hseen
  exact ⟨w, hrun, Option.some.inj hseen⟩

end DjangoQueues.Observers
