import DjangoQueues.Observers.State

/-! Every publication reaches every registration made before it exactly once, from the
bootstrap batch or as an ordinary delivery. -/

namespace DjangoQueues.Observers

variable {cls : EntryClass} {s s' : State cls} {a : Action cls} {r : RegistrationId} {n : ℕ}

/-- The snapshots that come from publication `n`. -/
def marks (n : ℕ) (l : List (Snapshot cls)) : List (Snapshot cls) := l.filter (·.publication = some n)

/-- The snapshot comes from none of the publications after `k`. -/
def Old (k : ℕ) (x : Snapshot cls) : Prop := ∀ m, x.publication = some m → m ≤ k

theorem Old.mono {k k' : ℕ} {x : Snapshot cls} (h : Old k x) (hle : k ≤ k') : Old k' x :=
  fun m hm => (h m hm).trans hle

theorem marks_eq_nil {l : List (Snapshot cls)} {k : ℕ} (h : ∀ x ∈ l, Old k x) (hn : k < n) : marks n l = [] := by
  refine List.filter_eq_nil_iff.mpr fun x hx hmark => ?_
  have hle := h x hx n (by simpa using hmark)
  omega

structure Sound (s : State cls) : Prop where
  nodup : s.registrations.Nodup
  made : ∀ r ∈ s.registrations, (s.registration r).isSome
  unmade : ∀ r, s.registration r = none → s.bootstrapping r = [] ∧ ∀ d ∈ s.events, d.target ≠ some r
  publishing : ∀ n p, s.publishing n = some p →
    p.delivery.target = none ∧ p.delivery.sequence = n ∧ p.delivery.snapshot.publication = some n ∧ n ≤ s.sequence
  ordinary : ∀ d ∈ s.events, d.target = none → d.snapshot.publication = some d.sequence
  pending : ∀ r g, s.registration r = some g → ∀ x ∈ g.pending, Old s.sequence x
  bootstrapping : ∀ r, ∀ x ∈ s.bootstrapping r, Old s.sequence x
  events : ∀ d ∈ s.events, Old s.sequence d.snapshot
  received : ∀ p ∈ s.received, Old s.sequence p.2

theorem Sound.init : Sound (State.init : State cls) where
  nodup := List.nodup_nil
  made := fun r hr => by cases hr
  unmade := fun r _ => ⟨rfl, fun d hd => by cases hd⟩
  publishing := fun n p hp => by cases hp
  ordinary := fun d hd => by cases hd
  pending := fun r g hg => by cases hg
  bootstrapping := fun r x hx => by cases hx
  events := fun d hd => by cases hd
  received := fun p hp => by cases hp

theorem mem_orderSnapshots {l : List (Snapshot cls)} {x : Snapshot cls} : x ∈ orderSnapshots l ↔ x ∈ l :=
  (List.perm_insertionSort _ l).mem_iff

namespace Sound

theorem register (h : Sound s) (hr : s.registration r = none) (f : Option EntryId) : Sound (s.register r f) where
  nodup := by
    have hout : r ∉ s.registrations := fun hin => by
      have hsome := h.made r hin
      rw [hr] at hsome
      cases hsome
    refine List.nodup_append.mpr ⟨h.nodup, List.nodup_singleton r, fun x hx y hy hxy => ?_⟩
    rw [List.mem_singleton] at hy
    exact hout (hy ▸ hxy ▸ hx)
  made := fun x hx => by
    by_cases hxr : x = r
    · simp [State.register, hxr]
    · have hold : x ∈ s.registrations := by simpa [State.register, hxr] using hx
      simpa [State.register, hxr] using h.made x hold
  unmade := fun x hx => by
    by_cases hxr : x = r
    · subst hxr
      simp [State.register] at hx
    · exact h.unmade x (by simpa [State.register, hxr] using hx)
  publishing := h.publishing
  ordinary := h.ordinary
  pending := fun x g hg y hy => by
    by_cases hxr : x = r
    · subst hxr
      simp only [State.register, Function.update_self, Option.some.injEq] at hg
      rw [← hg] at hy
      cases hy
    · simp only [State.register, Function.update_of_ne hxr] at hg
      exact h.pending x g hg y hy
  bootstrapping := h.bootstrapping
  events := h.events
  received := h.received

theorem unregister (h : Sound s) (r : RegistrationId) : Sound (s.unregister r) where
  nodup := h.nodup.erase r
  made := fun x hx => by
    have hsome := h.made x (List.mem_of_mem_erase hx)
    by_cases hxr : x = r
    · subst hxr
      simpa [State.unregister] using hsome
    · simpa [State.unregister, hxr] using hsome
  unmade := fun x hx => by
    by_cases hxr : x = r
    · subst hxr
      exact h.unmade x (by simpa [State.unregister] using hx)
    · exact h.unmade x (by simpa [State.unregister, hxr] using hx)
  publishing := h.publishing
  ordinary := h.ordinary
  pending := fun x g hg y hy => by
    by_cases hxr : x = r
    · subst hxr
      simp only [State.unregister, Function.update_self, Option.map_eq_some_iff] at hg
      obtain ⟨g₀, hg₀, rfl⟩ := hg
      exact h.pending x g₀ hg₀ y hy
    · simp only [State.unregister, Function.update_of_ne hxr] at hg
      exact h.pending x g hg y hy
  bootstrapping := h.bootstrapping
  events := h.events
  received := h.received

theorem publish (h : Sound s) (e : QueueEntry cls) : Sound (s.publish e) where
  nodup := h.nodup
  made := fun x hx => by simpa [State.publish] using h.made x hx
  unmade := fun x hx => h.unmade x (by simpa [State.publish] using hx)
  publishing := fun n p hp => by
    by_cases hn : n = s.sequence + 1
    · subst hn
      simp only [State.publish, Function.update_self, Option.some.injEq] at hp
      subst hp
      exact ⟨rfl, rfl, rfl, le_refl _⟩
    · simp only [State.publish, Function.update_of_ne hn] at hp
      obtain ⟨h₁, h₂, h₃, h₄⟩ := h.publishing n p hp
      exact ⟨h₁, h₂, h₃, Nat.le_succ_of_le h₄⟩
  ordinary := h.ordinary
  pending := fun r g hg x hx => by
    simp only [State.publish, Option.map_eq_some_iff] at hg
    obtain ⟨g₀, hg₀, rfl⟩ := hg
    split_ifs at hx
    · rcases List.mem_append.mp hx with hx | hx
      · exact (h.pending r g₀ hg₀ x hx).mono (Nat.le_succ _)
      · rw [List.mem_singleton.mp hx]
        exact fun m hm => (Option.some.inj hm).ge
    · exact (h.pending r g₀ hg₀ x hx).mono (Nat.le_succ _)
  bootstrapping := fun r x hx => (h.bootstrapping r x hx).mono (Nat.le_succ _)
  events := fun d hd => (h.events d hd).mono (Nat.le_succ _)
  received := fun p hp => (h.received p hp).mono (Nat.le_succ _)

/-- A publish call that goes on keeps its delivery. -/
theorem advance (h : Sound s) {p p' : Publishing cls} (hp : s.publishing n = some p) (hd : p'.delivery = p.delivery) :
    Sound { s with publishing := Function.update s.publishing n (some p') } where
  nodup := h.nodup
  made := h.made
  unmade := h.unmade
  publishing := fun m q hq => by
    by_cases hm : m = n
    · subst hm
      simp only [Function.update_self, Option.some.injEq] at hq
      rw [← hq, hd]
      exact h.publishing m p hp
    · simp only [Function.update_of_ne hm] at hq
      exact h.publishing m q hq
  ordinary := h.ordinary
  pending := h.pending
  bootstrapping := h.bootstrapping
  events := h.events
  received := h.received

theorem finish (h : Sound s) (n : ℕ) : Sound { s with publishing := Function.update s.publishing n none } where
  nodup := h.nodup
  made := h.made
  unmade := h.unmade
  publishing := fun m q hq => by
    by_cases hm : m = n
    · subst hm
      simp at hq
    · simp only [Function.update_of_ne hm] at hq
      exact h.publishing m q hq
  ordinary := h.ordinary
  pending := h.pending
  bootstrapping := h.bootstrapping
  events := h.events
  received := h.received

theorem addEvent (h : Sound s) {d : Delivery cls} (hd : d.target = none → d.snapshot.publication = some d.sequence)
    (hold : Old s.sequence d.snapshot) (hmade : ∀ r, d.target = some r → s.registration r ≠ none) :
    Sound { s with events := s.events ++ [d] } where
  nodup := h.nodup
  made := h.made
  unmade := fun r hr => by
    obtain ⟨hnil, hnone⟩ := h.unmade r hr
    refine ⟨hnil, fun x hx => ?_⟩
    rcases List.mem_append.mp hx with hx | hx
    · exact hnone x hx
    · rw [List.mem_singleton.mp hx]
      exact fun ht => hmade r ht hr
  publishing := h.publishing
  ordinary := fun x hx => by
    rcases List.mem_append.mp hx with hx | hx
    · exact h.ordinary x hx
    · rwa [List.mem_singleton.mp hx]
  pending := h.pending
  bootstrapping := h.bootstrapping
  events := fun x hx => by
    rcases List.mem_append.mp hx with hx | hx
    · exact h.events x hx
    · rwa [List.mem_singleton.mp hx]
  received := h.received

theorem step (h : Sound s) (hst : Step s a s') : Sound s' := by
  cases hst.stepCase with
  | register hr => exact h.register hr _
  | unregister => exact h.unregister _
  | publish => exact h.publish _
  | ended => exact h.finish _
  | passed hp => exact h.advance hp rfl
  | found hp => exact h.advance hp rfl
  | @put n d hp =>
    obtain ⟨ht, hseq, hpub, hle⟩ := h.publishing n _ hp
    have hdelivery : Sound { s with events := s.events ++ [d] } := by
      refine h.addEvent (fun _ => ?_) (fun m hm => ?_) fun r hr => ?_
      · exact hpub.trans (congrArg some hseq.symm)
      · obtain rfl := Option.some.inj (hpub.symm.trans hm)
        exact hle
      · cases ht.symm.trans hr
    exact hdelivery.finish n
  | @activate r snapshots g hg hi =>
    refine { h with
      made := fun x hx => ?_
      unmade := fun x hx => ?_
      pending := fun x g' hg' y hy => ?_
      bootstrapping := fun x y hy => ?_ }
    · by_cases hxr : x = r
      · simp [hxr]
      · simpa [hxr] using h.made x hx
    · by_cases hxr : x = r
      · simp [hxr] at hx
      · simpa [hxr] using h.unmade x (by simpa [hxr] using hx)
    · by_cases hxr : x = r
      · subst hxr
        simp only [Function.update_self, Option.some.injEq] at hg'
        rw [← hg'] at hy
        cases hy
      · simp only [Function.update_of_ne hxr] at hg'
        exact h.pending x g' hg' y hy
    · by_cases hxr : x = r
      · subst hxr
        simp only [Function.update_self, mem_orderSnapshots, List.mem_append, List.mem_map] at hy
        rcases hy with ⟨e, -, rfl⟩ | hy
        · exact fun m hm => by cases hm
        · exact h.pending x g hg y hy
      · simp only [Function.update_of_ne hxr] at hy
        exact h.bootstrapping x y hy
  | @putBootstrap r x rest hx =>
    have hmade : s.registration r ≠ none := fun hr => by
      rw [(h.unmade r hr).1] at hx
      cases hx
    have hsound : Sound { s with events := s.events ++ [⟨x, some r, 0⟩] } := by
      refine h.addEvent (fun ht => by cases ht) (h.bootstrapping r x (by rw [hx]; exact List.mem_cons_self ..)) ?_
      intro y hy
      obtain rfl := Option.some.inj hy
      exact hmade
    refine { hsound with unmade := fun y hy => ?_, bootstrapping := fun y z hz => ?_ }
    · have hyr : y ≠ r := fun heq => hmade (heq ▸ hy)
      obtain ⟨hnil, hnone⟩ := hsound.unmade y hy
      exact ⟨by simpa [hyr] using hnil, hnone⟩
    by_cases hyr : y = r
    · subst hyr
      simp only [Function.update_self] at hz
      exact h.bootstrapping y z (by rw [hx]; exact List.mem_cons_of_mem _ hz)
    · simp only [Function.update_of_ne hyr] at hz
      exact h.bootstrapping y z hz
  | @dispatch callback d rest hgo hd =>
    have hin : ∀ x ∈ rest, x ∈ s.events := fun x hx => by rw [hd]; exact List.mem_cons_of_mem _ hx
    refine { h with
      unmade := fun x hx => ⟨(h.unmade x hx).1, fun y hy => (h.unmade x hx).2 y (hin y hy)⟩
      ordinary := fun x hx => h.ordinary x (hin x hx)
      events := fun x hx => h.events x (hin x hx)
      received := fun p hp => ?_ }
    rcases List.mem_append.mp hp with hp | hp
    · exact h.received p hp
    · obtain ⟨x, -, rfl⟩ := List.mem_map.mp hp
      exact h.events d (by rw [hd]; exact List.mem_cons_self ..)

end Sound

/-! ## One registration and one publication -/

def targeted (r : RegistrationId) (l : List (Delivery cls)) : List (Snapshot cls) :=
  (l.filter (·.target = some r)).map (·.snapshot)

def ordinary (n : ℕ) (l : List (Delivery cls)) : List (Snapshot cls) :=
  (l.filter fun d => d.target = none ∧ d.sequence = n).map (·.snapshot)

def inFlight (s : State cls) (n : ℕ) : List (Snapshot cls) := (s.publishing n).toList.map (·.delivery.snapshot)

/-- What is on its way from publication `n` to the registration: buffered or bootstrapped, or
as the ordinary delivery where that is not going to be skipped. -/
def waiting (s : State cls) (r : RegistrationId) (n : ℕ) (g : Registration cls) : List (Snapshot cls) :=
  (if g.initialising then marks n g.pending else []) ++ marks n (s.bootstrapping r) ++ marks n (targeted r s.events) ++
    if g.initialising = false ∧ g.bootstrappedThroughSequence < n then inFlight s n ++ ordinary n s.events else []

def receivedBy (s : State cls) (r : RegistrationId) (n : ℕ) : List (Snapshot cls) :=
  (s.received.filter fun p => p.1 = r ∧ p.2.publication = some n).map Prod.snd

/-- The filter of a registration lets the entry through. -/
def permits (f : Option EntryId) (id : EntryId) : Bool := f.all (· = id)

structure Member (s : State cls) (r : RegistrationId) (f : Option EntryId) (g : Registration cls) : Prop where
  eq : s.registration r = some g
  entryId : g.entryId = f
  active : g.active = true
  mem : r ∈ s.registrations
  started : g.startedAtSequence ≤ s.sequence
  boot : g.initialising = false → g.bootstrappedThroughSequence ≤ s.sequence
  fresh : g.initialising = true → s.bootstrapping r = [] ∧ ∀ d ∈ s.events, d.target ≠ some r

structure Tracked (s : State cls) (r : RegistrationId) (f : Option EntryId) (n : ℕ) (e : QueueEntry cls)
    (g : Registration cls) : Prop extends Member s r f g where
  lt : g.startedAtSequence < n
  le : n ≤ s.sequence
  all : ∀ x ∈ waiting s r n g ++ receivedBy s r n, x = ⟨e, some n⟩
  permitted : permits f e.id → (waiting s r n g).length + (receivedBy s r n).length = 1
  refused : permits f e.id = false → receivedBy s r n = []
  checking : g.initialising = false → g.bootstrappedThroughSequence < n →
    ∀ d l, s.publishing n = some (.checking d l) → r ∈ l

variable {f : Option EntryId} {g : Registration cls} {e : QueueEntry cls}

theorem marks_append (n : ℕ) (l l' : List (Snapshot cls)) : marks n (l ++ l') = marks n l ++ marks n l' :=
  List.filter_append ..

theorem targeted_append (r : RegistrationId) (l l' : List (Delivery cls)) :
    targeted r (l ++ l') = targeted r l ++ targeted r l' := by
  simp [targeted]

theorem ordinary_append (n : ℕ) (l l' : List (Delivery cls)) : ordinary n (l ++ l') = ordinary n l ++ ordinary n l' := by
  simp [ordinary]

theorem perm_marks_orderSnapshots (n : ℕ) (l : List (Snapshot cls)) : (marks n (orderSnapshots l)).Perm (marks n l) :=
  (List.perm_insertionSort _ l).filter _

/-- A registration stays a member of the list through every step but its own `unregister`. -/
theorem Member.step (h : Member s r f g) (hs : Sound s) (hst : Step s a s') (ha : a ≠ .unregister r) :
    ∃ g', Member s' r f g' ∧ g'.startedAtSequence = g.startedAtSequence := by
  cases hst.stepCase with
  | @register r' f' hr' =>
    have hne : r ≠ r' := fun heq => by
      rw [← heq, h.eq] at hr'
      cases hr'
    refine ⟨g, { h with eq := ?_, mem := List.mem_append_left _ h.mem }, rfl⟩
    show Function.update s.registration r' _ r = some g
    rw [Function.update_of_ne hne, h.eq]
  | @unregister r' =>
    have hne : r ≠ r' := fun heq => ha (heq ▸ rfl)
    refine ⟨g, { h with eq := ?_, mem := (List.mem_erase_of_ne hne).mpr h.mem }, rfl⟩
    show Function.update s.registration r' _ r = some g
    rw [Function.update_of_ne hne, h.eq]
  | @publish e' =>
    refine ⟨if r ∈ s.registrations ∧ g.initialising then
      { g with pending := g.pending ++ [⟨e', some (s.sequence + 1)⟩] } else g, ⟨?_, ?_, ?_, h.mem, ?_, ?_, ?_⟩, ?_⟩
    · show (s.registration r).map _ = some _
      rw [h.eq]
      rfl
    · split_ifs <;> exact h.entryId
    · split_ifs <;> exact h.active
    · split_ifs <;> exact Nat.le_succ_of_le h.started
    · split_ifs with hc
      · exact fun hi => absurd (hc.2.symm.trans hi) Bool.true_eq_false.mp
      · exact fun hi => Nat.le_succ_of_le (h.boot hi)
    · split_ifs <;> exact h.fresh
    · split_ifs <;> rfl
  | ended => exact ⟨g, { h with }, rfl⟩
  | passed => exact ⟨g, { h with }, rfl⟩
  | found => exact ⟨g, { h with }, rfl⟩
  | @put m d hp =>
    refine ⟨g, { h with fresh := fun hi => ⟨(h.fresh hi).1, fun x hx => ?_⟩ }, rfl⟩
    rcases List.mem_append.mp hx with hx | hx
    · exact (h.fresh hi).2 x hx
    · rw [List.mem_singleton.mp hx]
      have ht : d.target = none := (hs.publishing m _ hp).1
      rw [ht]
      exact nofun
  | @activate r' snapshots g' hg' hi' =>
    by_cases hr : r = r'
    · subst hr
      obtain rfl := Option.some.inj (h.eq.symm.trans hg')
      refine ⟨{ g with pending := [], bootstrappedThroughSequence := s.sequence, initialising := false },
        ⟨?_, h.entryId, h.active, h.mem, h.started, fun _ => le_refl _, fun hi => by cases hi⟩, rfl⟩
      exact Function.update_self ..
    · refine ⟨g, { h with eq := ?_, fresh := fun hi => ?_ }, rfl⟩
      · show Function.update s.registration r' _ r = some g
        rw [Function.update_of_ne hr, h.eq]
      · refine ⟨?_, (h.fresh hi).2⟩
        show Function.update s.bootstrapping r' _ r = []
        rw [Function.update_of_ne hr, (h.fresh hi).1]
  | @putBootstrap r' x rest hx =>
    refine ⟨g, { h with fresh := fun hi => ?_ }, rfl⟩
    have hne : r ≠ r' := fun heq => by
      rw [← heq, (h.fresh hi).1] at hx
      cases hx
    refine ⟨?_, fun d hd => ?_⟩
    · show Function.update s.bootstrapping r' _ r = []
      rw [Function.update_of_ne hne, (h.fresh hi).1]
    · rcases List.mem_append.mp hd with hd | hd
      · exact (h.fresh hi).2 d hd
      · rw [List.mem_singleton.mp hd]
        exact fun ht => hne (Option.some.inj ht).symm
  | @dispatch callback d rest hgo hd =>
    refine ⟨g, { h with fresh := fun hi => ⟨(h.fresh hi).1, fun x hx => (h.fresh hi).2 x ?_⟩ }, rfl⟩
    rw [hd]
    exact List.mem_cons_of_mem _ hx

namespace Tracked

variable {g' : Registration cls}

/-- Nothing on its way to the registration is gained or lost. -/
theorem keep (h : Tracked s r f n e g) (hm : Member s' r f g') (hstart : g'.startedAtSequence = g.startedAtSequence)
    (hle : n ≤ s'.sequence) (hw : (waiting s' r n g').Perm (waiting s r n g)) (hr : receivedBy s' r n = receivedBy s r n)
    (hcheck : g'.initialising = false → g'.bootstrappedThroughSequence < n →
      ∀ d l, s'.publishing n = some (.checking d l) → r ∈ l) : Tracked s' r f n e g' where
  toMember := hm
  lt := hstart ▸ h.lt
  le := hle
  all := fun x hx => by
    rw [hr] at hx
    exact h.all x ((hw.append_right _).mem_iff.mp hx)
  permitted := fun hp => by rw [hw.length_eq, hr, h.permitted hp]
  refused := fun hp => by rw [hr, h.refused hp]
  checking := hcheck

/-- One snapshot has arrived, and the callback was called if the filter permits. -/
theorem arrive (h : Tracked s r f n e g) (hm : Member s' r f g) (hle : n ≤ s'.sequence) {x : Snapshot cls}
    (hw : (waiting s r n g).Perm (x :: waiting s' r n g))
    (hr : receivedBy s' r n = receivedBy s r n ++ if permits f x.entry.id then [x] else [])
    (hcheck : s'.publishing = s.publishing) : Tracked s' r f n e g where
  toMember := hm
  lt := h.lt
  le := hle
  all := fun y hy => by
    have hx : x = ⟨e, some n⟩ := h.all x (List.mem_append_left _ (hw.mem_iff.mpr (List.mem_cons_self ..)))
    rw [hr] at hy
    rcases List.mem_append.mp hy with hy | hy
    · exact h.all y (List.mem_append_left _ (hw.mem_iff.mpr (List.mem_cons_of_mem _ hy)))
    · rcases List.mem_append.mp hy with hy | hy
      · exact h.all y (List.mem_append_right _ hy)
      · split_ifs at hy
        · rw [List.mem_singleton.mp hy, hx]
        · cases hy
  permitted := fun hp => by
    have hx : x = ⟨e, some n⟩ := h.all x (List.mem_append_left _ (hw.mem_iff.mpr (List.mem_cons_self ..)))
    have hone := h.permitted hp
    rw [hw.length_eq, List.length_cons] at hone
    rw [hr, hx, if_pos hp, List.length_append, List.length_singleton]
    omega
  refused := fun hp => by
    have hx : x = ⟨e, some n⟩ := h.all x (List.mem_append_left _ (hw.mem_iff.mpr (List.mem_cons_self ..)))
    rw [hr, hx, h.refused hp, if_neg (by simp [hp]), List.append_nil]
  checking := fun hi hb d l hp => h.checking hi hb d l (hcheck ▸ hp)

end Tracked

theorem marks_pending_publish (hn : n ≠ s.sequence + 1) (l : List (Snapshot cls)) (e' : QueueEntry cls) :
    marks n (l ++ [⟨e', some (s.sequence + 1)⟩]) = marks n l := by
  rw [marks_append]
  have hnil : marks n [(⟨e', some (s.sequence + 1)⟩ : Snapshot cls)] = [] := by
    unfold marks
    simp [Ne.symm hn]
  rw [hnil, List.append_nil]

/-- A look at a registration keeps the delivery of the publish call. -/
theorem inFlight_advance {m : ℕ} {p p' : Publishing cls} (hp : s.publishing m = some p) (hd : p'.delivery = p.delivery) :
    inFlight { s with publishing := Function.update s.publishing m (some p') } n = inFlight s n := by
  unfold inFlight
  by_cases hm : n = m
  · subst hm
    simp [hp, hd]
  · simp [Function.update_of_ne hm]

theorem Tracked.step_publishing (h : Tracked s r f n e g) (hm : Member s' r f g) {m : ℕ} {p : Publishing cls}
    (hp : s.publishing m = some p) (p' : Publishing cls) (hd : p'.delivery = p.delivery)
    (hs' : s' = { s with publishing := Function.update s.publishing m (some p') })
    (hcheck : m = n → g.initialising = false → g.bootstrappedThroughSequence < n → ∀ d l, p' = .checking d l → r ∈ l) :
    Tracked s' r f n e g := by
  subst hs'
  refine h.keep hm rfl h.le ?_ rfl fun hi hb d l hq => ?_
  · unfold waiting
    rw [inFlight_advance hp hd]
  · dsimp only at hq
    by_cases hmn : n = m
    · subst hmn
      rw [Function.update_self] at hq
      exact hcheck rfl hi hb d l (Option.some.inj hq)
    · rw [Function.update_of_ne hmn] at hq
      exact h.checking hi hb d l hq

theorem nodup_recipients (hs : Sound s) (d : Delivery cls) : (s.recipients d).Nodup := by
  unfold State.recipients
  apply List.Nodup.filter
  cases d.target with
  | none => exact hs.nodup
  | some r => exact List.nodup_singleton r

/-- Each recipient is called once. -/
theorem filter_recipients {l : List RegistrationId} (hl : l.Nodup) (r : RegistrationId) (x : Snapshot cls)
    (Q : Snapshot cls → Prop) [DecidablePred Q] :
    ((l.map (·, x)).filter fun p => p.1 = r ∧ Q p.2) = if r ∈ l ∧ Q x then [(r, x)] else [] := by
  induction l with
  | nil => simp
  | cons a l ih =>
    obtain ⟨ha, hl⟩ := List.nodup_cons.mp hl
    have hrest := ih hl
    by_cases har : a = r
    · subst har
      by_cases hx : Q x
      · have hnone : ∀ b ∈ l, ¬b = a := fun b hb heq => ha (heq ▸ hb)
        simpa [hx] using hnone
      · simp [hx]
    · have hra : r ≠ a := fun heq => har heq.symm
      simpa [har, hra] using hrest

theorem receivedBy_dispatch (hs : Sound s) (d : Delivery cls) (rest : List (Delivery cls)) (go : Bool)
    (r : RegistrationId) (n : ℕ) :
    receivedBy { s with
        events := rest, received := s.received ++ (s.recipients d).map (·, d.snapshot), dispatching := go } r n =
      receivedBy s r n ++ if r ∈ s.recipients d ∧ d.snapshot.publication = some n then [d.snapshot] else [] := by
  unfold receivedBy
  rw [List.filter_append, List.map_append,
    filter_recipients (nodup_recipients hs d) r d.snapshot (·.publication = some n)]
  split_ifs <;> rfl

theorem mem_recipients {d : Delivery cls} : r ∈ s.recipients d ↔
    (d.target = none ∧ r ∈ s.registrations ∨ d.target = some r) ∧ s.delivers d r = true := by
  unfold State.recipients
  rw [List.mem_filter]
  cases d.target with
  | none => simp
  | some r' =>
    have hiff : r = r' ↔ r' = r := eq_comm
    simp [hiff]

theorem Member.delivers_iff (h : Member s r f g) (d : Delivery cls) : s.delivers d r = true ↔
    g.initialising = false ∧ ¬(d.target = none ∧ g.startedAtSequence < d.sequence ∧
      d.sequence ≤ g.bootstrappedThroughSequence) ∧ permits f d.snapshot.entry.id = true := by
  unfold State.delivers permits
  rw [h.eq, ← h.entryId]
  cases d.target with
  | none => simp [h.active, and_assoc, imp_iff_not_or]
  | some r' => simp [h.active]

/-- A delivery to every registration. -/
theorem Tracked.dispatch_ordinary (h : Tracked s r f n e g) (hs : Sound s) {d : Delivery cls} (ht : d.target = none)
    {rest : List (Delivery cls)} {go : Bool} (hd : s.events = d :: rest)
    (hm : Member { s with
      events := rest, received := s.received ++ (s.recipients d).map (·, d.snapshot), dispatching := go } r f g) :
    Tracked { s with
      events := rest, received := s.received ++ (s.recipients d).map (·, d.snapshot), dispatching := go } r f n e g := by
  have hreceived := receivedBy_dispatch hs d rest go r n
  have hdelivers := h.toMember.delivers_iff d
  have hpub : d.snapshot.publication = some d.sequence := hs.ordinary d (by rw [hd]; exact List.mem_cons_self ..) ht
  have htargeted : targeted r s.events = targeted r rest := by rw [hd]; simp [targeted, ht]
  by_cases hn : d.sequence = n
  · by_cases hcase : g.initialising = false ∧ g.bootstrappedThroughSequence < n
    · -- the ordinary delivery of the publication, to a registration that is past its bootstrap
      have hordinary : ordinary n s.events = d.snapshot :: ordinary n rest := by rw [hd]; simp [ordinary, ht, hn]
      refine h.arrive hm h.le (x := d.snapshot) ?_ ?_ rfl
      · unfold waiting
        rw [if_pos hcase, if_pos hcase, hordinary, htargeted]
        exact (List.perm_middle.append_left _).trans List.perm_middle
      · rw [hreceived]
        have hiff : (r ∈ s.recipients d ∧ d.snapshot.publication = some n) ↔
            permits f d.snapshot.entry.id = true := by
          rw [mem_recipients, hdelivers, hpub, hn]
          have hskip : ¬(d.target = none ∧ g.startedAtSequence < n ∧ n ≤ g.bootstrappedThroughSequence) := by
            have hlt := hcase.2
            omega
          simp [ht, h.mem, hcase.1]
          omega
        simp only [hiff]
    · -- skipped: still initialising, or part of the bootstrap
      have hout : r ∉ s.recipients d := fun hin => by
        obtain ⟨hinit, hskip, -⟩ := hdelivers.mp (mem_recipients.mp hin).2
        have hboot : n ≤ g.bootstrappedThroughSequence := by
          by_contra hlt
          exact hcase ⟨hinit, not_le.mp hlt⟩
        exact hskip ⟨ht, hn ▸ h.lt, hn ▸ hboot⟩
      refine h.keep hm rfl h.le ?_ ?_ h.checking
      · unfold waiting
        rw [if_neg hcase, if_neg hcase, htargeted]
      · rw [hreceived, if_neg (fun hc => hout hc.1), List.append_nil]
  · have hordinary : ordinary n s.events = ordinary n rest := by rw [hd]; simp [ordinary, hn]
    refine h.keep hm rfl h.le ?_ ?_ h.checking
    · unfold waiting
      rw [htargeted, hordinary]
      rfl
    · rw [hreceived, if_neg (fun hc => hn (Option.some.inj (hpub.symm.trans hc.2))), List.append_nil]

/-- A delivery of somebody's bootstrap. -/
theorem Tracked.dispatch_targeted (h : Tracked s r f n e g) (hs : Sound s) {d : Delivery cls} {r' : RegistrationId}
    (ht : d.target = some r') {rest : List (Delivery cls)} {go : Bool} (hd : s.events = d :: rest)
    (hm : Member { s with
      events := rest, received := s.received ++ (s.recipients d).map (·, d.snapshot), dispatching := go } r f g) :
    Tracked { s with
      events := rest, received := s.received ++ (s.recipients d).map (·, d.snapshot), dispatching := go } r f n e g := by
  have hreceived := receivedBy_dispatch hs d rest go r n
  have hdelivers := h.toMember.delivers_iff d
  have hordinary : ordinary n s.events = ordinary n rest := by rw [hd]; simp [ordinary, ht]
  by_cases hr : r' = r
  · subst hr
    have hinit : g.initialising = false := by
      by_contra hi
      exact (h.fresh (by simpa using hi)).2 d (by rw [hd]; exact List.mem_cons_self ..) ht
    have htargeted : targeted r' s.events = d.snapshot :: targeted r' rest := by rw [hd]; simp [targeted, ht]
    by_cases hmark : d.snapshot.publication = some n
    · refine h.arrive hm h.le (x := d.snapshot) ?_ ?_ rfl
      · have hmarks : marks n (d.snapshot :: targeted r' rest) = d.snapshot :: marks n (targeted r' rest) := by
          simp [marks, hmark]
        unfold waiting
        rw [htargeted, hmarks, hordinary]
        simp only [hinit, Bool.false_eq_true, if_false, List.nil_append]
        rw [List.append_assoc, List.cons_append]
        refine List.perm_middle.trans ?_
        rw [List.append_assoc]
        exact List.Perm.refl _
      · rw [hreceived]
        have hiff : (r' ∈ s.recipients d ∧ d.snapshot.publication = some n) ↔
            permits f d.snapshot.entry.id = true := by
          rw [mem_recipients, hdelivers]
          simp [ht, hinit, hmark]
        simp only [hiff]
    · refine h.keep hm rfl h.le ?_ ?_ h.checking
      · have hmarks : marks n (d.snapshot :: targeted r' rest) = marks n (targeted r' rest) := by
          simp [marks, hmark]
        unfold waiting
        rw [htargeted, hmarks, hordinary]
        rfl
      · rw [hreceived, if_neg (fun hc => hmark hc.2), List.append_nil]
  · have htargeted : targeted r s.events = targeted r rest := by rw [hd]; simp [targeted, ht, hr]
    have hout : r ∉ s.recipients d := fun hin => by
      rcases (mem_recipients.mp hin).1 with ⟨hnone, -⟩ | hsome
      · rw [ht] at hnone
        cases hnone
      · rw [ht] at hsome
        exact hr (Option.some.inj hsome)
    refine h.keep hm rfl h.le ?_ ?_ h.checking
    · unfold waiting
      rw [htargeted, hordinary]
      rfl
    · rw [hreceived, if_neg (fun hc => hout hc.1), List.append_nil]

/-- The dispatcher takes the first delivery, and calls every recipient. -/
theorem Tracked.dispatch (h : Tracked s r f n e g) (hs : Sound s) {d : Delivery cls} {rest : List (Delivery cls)} {go : Bool} (hd : s.events = d :: rest)
    (hm : Member { s with
      events := rest, received := s.received ++ (s.recipients d).map (·, d.snapshot), dispatching := go } r f g) :
    Tracked { s with
      events := rest, received := s.received ++ (s.recipients d).map (·, d.snapshot), dispatching := go } r f n e g := by
  rcases ht : d.target with _ | r'
  · exact h.dispatch_ordinary hs ht hd hm
  · exact h.dispatch_targeted hs ht hd hm

/-- A publish call that is over is not looking at registrations. -/
theorem Tracked.checking_ended (h : Tracked s r f n e g) {m : ℕ} (hi : g.initialising = false)
    (hb : g.bootstrappedThroughSequence < n) (d : Delivery cls) (l : List RegistrationId)
    (hp : Function.update s.publishing m none n = some (.checking d l)) : r ∈ l := by
  by_cases hmn : n = m
  · subst hmn
    rw [Function.update_self] at hp
    cases hp
  · rw [Function.update_of_ne hmn] at hp
    exact h.checking hi hb d l hp

theorem Tracked.publish (h : Tracked s r f n e g) (e' : QueueEntry cls) {g' : Registration cls}
    (hm : Member (s.publish e') r f g') (hstart : g'.startedAtSequence = g.startedAtSequence) :
    Tracked (s.publish e') r f n e g' := by
  have hn : n ≠ s.sequence + 1 := fun heq => by
    have hle := h.le
    omega
  have hpublishing : (s.publish e').publishing n = s.publishing n := Function.update_of_ne hn ..
  have heq : some g' = (s.registration r).map fun g => if r ∈ s.registrations ∧ g.initialising then
      { g with pending := g.pending ++ [⟨e', some (s.sequence + 1)⟩] } else g := hm.eq.symm
  rw [h.eq, Option.map_some, Option.some.injEq] at heq
  have hinit : g'.initialising = g.initialising := by
    rw [heq]
    split_ifs <;> rfl
  have hboot : g'.bootstrappedThroughSequence = g.bootstrappedThroughSequence := by
    rw [heq]
    split_ifs <;> rfl
  have hpending : marks n g'.pending = marks n g.pending := by
    rw [heq]
    split_ifs
    · exact marks_pending_publish hn _ e'
    · rfl
  refine h.keep hm hstart (Nat.le_succ_of_le h.le) ?_ rfl fun hi hb d l hp => ?_
  · unfold waiting inFlight
    rw [hinit, hboot, hpending, hpublishing]
    exact List.Perm.refl _
  · rw [hpublishing] at hp
    exact h.checking (hinit ▸ hi) (hboot ▸ hb) d l hp

/-- A publish call that found no one to deliver to. -/
theorem Tracked.ended (h : Tracked s r f n e g) {m : ℕ} {d : Delivery cls}
    (hp : s.publishing m = some (.checking d []))
    (hm : Member { s with publishing := Function.update s.publishing m none } r f g) :
    Tracked { s with publishing := Function.update s.publishing m none } r f n e g := by
  refine h.keep hm rfl h.le ?_ rfl h.checking_ended
  unfold waiting
  by_cases hcase : g.initialising = false ∧ g.bootstrappedThroughSequence < n
  · -- an ordinary delivery on its way is never dropped: the registration is still to be looked at
    have hmn : n ≠ m := fun heq => by
      have hin := h.checking hcase.1 hcase.2 d [] (heq ▸ hp)
      cases hin
    unfold inFlight
    dsimp only
    rw [Function.update_of_ne hmn]
  · rw [if_neg hcase, if_neg hcase]

/-- The delivery of a publish call joins the events. -/
theorem Tracked.put (h : Tracked s r f n e g) (hs : Sound s) {m : ℕ} {d : Delivery cls}
    (hp : s.publishing m = some (.queueing d))
    (hm : Member { s with events := s.events ++ [d], publishing := Function.update s.publishing m none } r f g) :
    Tracked { s with events := s.events ++ [d], publishing := Function.update s.publishing m none } r f n e g := by
  obtain ⟨ht, hseq, -, -⟩ := hs.publishing m _ hp
  have hnone : d.target = none := ht
  have hsequence : d.sequence = m := hseq
  have htargeted : targeted r (s.events ++ [d]) = targeted r s.events := by
    rw [targeted_append]
    simp [targeted, hnone]
  refine h.keep hm rfl h.le ?_ rfl h.checking_ended
  unfold waiting
  rw [htargeted]
  by_cases hcase : g.initialising = false ∧ g.bootstrappedThroughSequence < n
  · rw [if_pos hcase, if_pos hcase, ordinary_append]
    refine List.Perm.append_left _ ?_
    unfold inFlight
    dsimp only
    by_cases hmn : n = m
    · subst hmn
      have hone : ordinary n [d] = [d.snapshot] := by simp [ordinary, hnone, hsequence]
      rw [hone, hp]
      simp only [Function.update_self, Option.toList_none, List.map_nil, List.nil_append, Option.toList_some,
        List.map_cons]
      exact List.perm_append_singleton ..
    · have hnil : ordinary n [d] = [] := by simp [ordinary, hsequence, Ne.symm hmn]
      rw [hnil, List.append_nil, Function.update_of_ne hmn]
  · rw [if_neg hcase, if_neg hcase]

/-- What the registration was to be sent while it was initialising becomes part of its bootstrap. -/
theorem Tracked.activate (h : Tracked s r f n e g) (hi : g.initialising = true) (snapshots : List (QueueEntry cls))
    {registration : RegistrationId → Option (Registration cls)}
    (hm : Member { s with
      registration := registration
      bootstrapping := Function.update s.bootstrapping r
        (orderSnapshots (snapshots.map (⟨·, none⟩) ++ g.pending)) } r f
      { g with pending := [], bootstrappedThroughSequence := s.sequence, initialising := false }) :
    Tracked { s with
      registration := registration
      bootstrapping := Function.update s.bootstrapping r
        (orderSnapshots (snapshots.map (⟨·, none⟩) ++ g.pending)) } r f n e
      { g with pending := [], bootstrappedThroughSequence := s.sequence, initialising := false } := by
  refine h.keep hm rfl h.le ?_ rfl fun _ hb => absurd h.le (not_le.mpr hb)
  have hafter : ¬(false = false ∧ s.sequence < n) := fun hc => absurd h.le (not_le.mpr hc.2)
  have hbefore : ¬(g.initialising = false ∧ g.bootstrappedThroughSequence < n) := fun hc => by
    rw [hi] at hc
    cases hc.1
  have hretained : marks n (snapshots.map fun e => (⟨e, none⟩ : Snapshot cls)) = [] := by
    refine List.filter_eq_nil_iff.mpr fun x hx hmark => ?_
    obtain ⟨e', -, rfl⟩ := List.mem_map.mp hx
    simp at hmark
  unfold waiting
  dsimp only
  rw [if_neg hafter, if_neg hbefore, if_pos hi, (h.fresh hi).1, Function.update_self]
  refine List.Perm.append_right _ (List.Perm.append_right _ ?_)
  have hperm := perm_marks_orderSnapshots n ((snapshots.map fun e => (⟨e, none⟩ : Snapshot cls)) ++ g.pending)
  rw [marks_append, hretained, List.nil_append] at hperm
  simpa [marks] using hperm

/-- A snapshot of a bootstrap joins the events. -/
theorem Tracked.putBootstrap (h : Tracked s r f n e g) {r' : RegistrationId} {x : Snapshot cls}
    {rest : List (Snapshot cls)} (hx : s.bootstrapping r' = x :: rest)
    (hm : Member { s with
      events := s.events ++ [⟨x, some r', 0⟩]
      bootstrapping := Function.update s.bootstrapping r' rest } r f g) :
    Tracked { s with
      events := s.events ++ [⟨x, some r', 0⟩]
      bootstrapping := Function.update s.bootstrapping r' rest } r f n e g := by
  have hordinary : ordinary n (s.events ++ [⟨x, some r', 0⟩]) = ordinary n s.events := by
    rw [ordinary_append]
    simp [ordinary]
  refine h.keep hm rfl h.le ?_ rfl h.checking
  unfold waiting
  dsimp only
  rw [hordinary, targeted_append]
  refine List.Perm.append_right _ ?_
  by_cases hr : r = r'
  · subst hr
    have hone : targeted r [(⟨x, some r, 0⟩ : Delivery cls)] = [x] := by simp [targeted]
    rw [Function.update_self, hx, hone, marks_append, List.append_assoc, List.append_assoc]
    refine List.Perm.append_left _ ?_
    have hcons : marks n (x :: rest) = marks n [x] ++ marks n rest := marks_append n [x] rest
    rw [hcons, ← List.append_assoc, List.append_assoc (marks n [x])]
    exact List.perm_append_comm
  · have hnil : targeted r [(⟨x, some r', 0⟩ : Delivery cls)] = [] := by simp [targeted, Ne.symm hr]
    rw [Function.update_of_ne hr, hnil, List.append_nil]

theorem calledOf_sublist (callback : RegistrationId → CallbackEnd) (l : List RegistrationId) :
    (calledOf callback l).Sublist l := by
  induction l with
  | nil => exact List.Sublist.refl _
  | cons r l ih =>
    unfold calledOf
    apply List.Sublist.cons_cons
    split_ifs
    · exact ih
    · exact List.nil_sublist _

theorem calledOf_eq {callback : RegistrationId → CallbackEnd} {l : List RegistrationId}
    (h : ∀ r ∈ l.dropLast, callback r = .handled) : calledOf callback l = l := by
  induction l with
  | nil => rfl
  | cons r l ih =>
    unfold calledOf
    cases l with
    | nil => simp [calledOf]
    | cons x l =>
      rw [List.dropLast_cons_cons, List.forall_mem_cons] at h
      rw [if_pos h.1, ih h.2]

/-- No recipient of the first delivery is passed over: no callback but that of the last raises what is no
`Exception`. -/
def State.Contained (s : State cls) : Action cls → Prop
  | .dispatch callback => ∀ d ∈ s.events.head?, ∀ r ∈ (s.recipients d).dropLast, callback r = .handled
  | _ => True

structure ContainedStep (s : State cls) (a : Action cls) (s' : State cls) : Prop where
  step : Step s a s'
  contained : s.Contained a

/-- A publication stays on its way to the registration through every step, or arrives. -/
theorem Tracked.step (h : Tracked s r f n e g) (hs : Sound s) (hst : ContainedStep s a s') (ha : a ≠ .unregister r) :
    ∃ g', Tracked s' r f n e g' := by
  obtain ⟨hst, hcontained⟩ := hst
  obtain ⟨g', hm, hstart⟩ := h.toMember.step hs hst ha
  have hsame (heq : s'.registration r = s.registration r) : g' = g :=
    Option.some.inj (hm.eq.symm.trans (heq.trans h.eq))
  cases hst.stepCase with
  | @register r' f' hr' =>
    have hne : r ≠ r' := fun heq => by
      rw [← heq, h.eq] at hr'
      cases hr'
    obtain rfl := hsame (Function.update_of_ne hne ..)
    exact ⟨g', h.keep hm rfl h.le (List.Perm.refl _) rfl h.checking⟩
  | @unregister r' =>
    have hne : r ≠ r' := fun heq => ha (heq ▸ rfl)
    obtain rfl := hsame (Function.update_of_ne hne ..)
    exact ⟨g', h.keep hm rfl h.le (List.Perm.refl _) rfl h.checking⟩
  | @publish e' => exact ⟨g', h.publish e' hm hstart⟩
  | @ended m d hp =>
    obtain rfl := hsame rfl
    exact ⟨g', h.ended hp hm⟩
  | @passed m d r' rs hp hr' =>
    obtain rfl := hsame rfl
    refine ⟨g', h.step_publishing hm hp (.checking d rs) rfl rfl fun hmn hi hb d' l hl => ?_⟩
    obtain ⟨-, rfl⟩ := Publishing.checking.inj hl
    have hin := h.checking hi hb d (r' :: rs) (hmn ▸ hp)
    refine (List.mem_cons.mp hin).resolve_left fun heq => ?_
    rw [State.isInitialising, ← heq, h.eq, Option.any_some, hi] at hr'
    cases hr'
  | @found m d r' rs hp hr' =>
    obtain rfl := hsame rfl
    exact ⟨g', h.step_publishing hm hp (.queueing d) rfl rfl fun _ _ _ d' l hl => by cases hl⟩
  | @put m d hp =>
    obtain rfl := hsame rfl
    exact ⟨g', h.put hs hp hm⟩
  | @activate r' snapshots g₀ hg₀ hi₀ =>
    by_cases hr : r = r'
    · subst hr
      obtain rfl := Option.some.inj (h.eq.symm.trans hg₀)
      have heq : g' = { g with pending := [], bootstrappedThroughSequence := s.sequence, initialising := false } :=
        Option.some.inj (hm.eq.symm.trans (Function.update_self ..))
      subst heq
      exact ⟨_, h.activate hi₀ snapshots hm⟩
    · obtain rfl := hsame (Function.update_of_ne hr ..)
      refine ⟨g', h.keep hm rfl h.le ?_ rfl h.checking⟩
      unfold waiting
      dsimp only
      rw [Function.update_of_ne hr]
      exact List.Perm.refl _
  | @putBootstrap r' x rest hx =>
    obtain rfl := hsame rfl
    exact ⟨g', h.putBootstrap hx hm⟩
  | @dispatch callback d rest hgo hd =>
    obtain rfl := hsame rfl
    have hcalled : s.called callback d = s.recipients d := calledOf_eq (hcontained d (by rw [hd]; rfl))
    rw [hcalled] at hm ⊢
    exact ⟨g', h.dispatch hs hd hm⟩

/-! ## Runs -/

def Action.isPublish : Action cls → Bool
  | .publish _ => true
  | _ => false

/-- The number of publish calls in a run, which is the sequence of the last. -/
def publications (ls : List (Action cls)) : ℕ := ls.countP Action.isPublish

theorem sequence_run {ls : List (Action cls)} (h : Run Step s ls s') : s'.sequence = s.sequence + publications ls := by
  induction h with
  | nil s => rfl
  | @cons s t u a ls hst _ ih =>
    have hone : t.sequence = s.sequence + if a.isPublish then 1 else 0 := by
      cases hst.stepCase <;> rfl
    rw [ih, hone, publications, publications, List.countP_cons]
    omega

theorem Member.of_register (hs : Sound s) (hr : s.registration r = none) (f : Option EntryId) :
    ∃ g, Member (s.register r f) r f g := by
  refine ⟨_, Function.update_self .., rfl, rfl, List.mem_append_right _ (List.mem_singleton.mpr rfl), le_refl _,
    (fun hi => by cases hi), fun _ => hs.unmade r hr⟩

/-- A publication is on its way to every member of the list. -/
theorem Tracked.of_publish (h : Member s r f g) (hs : Sound s) (e : QueueEntry cls) :
    ∃ g', Tracked (s.publish e) r f (s.sequence + 1) e g' := by
  have hst : Step s (.publish e) (s.publish e) := rfl
  obtain ⟨g', hm, hstart⟩ := h.step hs hst (fun heq => by cases heq)
  have heq : some g' = (s.registration r).map fun g => if r ∈ s.registrations ∧ g.initialising then
      { g with pending := g.pending ++ [⟨e, some (s.sequence + 1)⟩] } else g := hm.eq.symm
  rw [h.eq, Option.map_some, Option.some.injEq] at heq
  have hlt := Nat.lt_succ_self s.sequence
  -- the mark is new, so it is in nothing that was there before
  have hbootstrapping : marks (s.sequence + 1) ((s.publish e).bootstrapping r) = [] :=
    marks_eq_nil (hs.bootstrapping r) hlt
  have htargeted : marks (s.sequence + 1) (targeted r (s.publish e).events) = [] := by
    refine marks_eq_nil (k := s.sequence) (fun x hx => ?_) hlt
    obtain ⟨d, hd, rfl⟩ := List.mem_map.mp hx
    exact hs.events d (List.mem_of_mem_filter hd)
  have hordinary : ordinary (s.sequence + 1) (s.publish e).events = [] := by
    unfold ordinary
    rw [List.map_eq_nil_iff, List.filter_eq_nil_iff]
    intro d hd hmark
    have hboth : d.target = none ∧ d.sequence = s.sequence + 1 := by simpa using hmark
    have hle := hs.events d hd d.sequence (hs.ordinary d hd hboth.1)
    omega
  have hreceived : receivedBy (s.publish e) r (s.sequence + 1) = [] := by
    unfold receivedBy
    rw [List.map_eq_nil_iff, List.filter_eq_nil_iff]
    intro p hp hmark
    have hboth : p.1 = r ∧ p.2.publication = some (s.sequence + 1) := by simpa using hmark
    have hle := hs.received p hp _ hboth.2
    omega
  have hwaiting : waiting (s.publish e) r (s.sequence + 1) g' = [⟨e, some (s.sequence + 1)⟩] := by
    unfold waiting
    rw [hbootstrapping, htargeted, hordinary, List.append_nil, List.append_nil]
    cases hi : g.initialising with
    | true =>
      rw [if_pos ⟨h.mem, hi⟩] at heq
      have hinit : g'.initialising = true := by rw [heq]; exact hi
      have hpending : marks (s.sequence + 1) g'.pending = [⟨e, some (s.sequence + 1)⟩] := by
        rw [heq]
        show marks (s.sequence + 1) (g.pending ++ [⟨e, some (s.sequence + 1)⟩]) = _
        rw [marks_append, marks_eq_nil (hs.pending r g h.eq) hlt]
        simp [marks]
      rw [if_pos hinit, if_neg (by simp [hinit]), hpending, List.append_nil]
    | false =>
      rw [if_neg (by simp [hi])] at heq
      have hboot : g'.bootstrappedThroughSequence < s.sequence + 1 := by
        rw [heq]
        exact Nat.lt_succ_of_le (h.boot hi)
      rw [heq] at hboot ⊢
      rw [if_neg (by simp [hi]), if_pos ⟨hi, hboot⟩, List.nil_append, List.append_nil]
      simp [inFlight, State.publish, Publishing.delivery]
  refine ⟨g', ⟨hm, ?_, le_refl _, ?_, ?_, ?_, ?_⟩⟩
  · rw [hstart]
    exact Nat.lt_succ_of_le h.started
  · rw [hwaiting, hreceived]
    simp
  · intro _
    rw [hwaiting, hreceived]
    rfl
  · exact fun _ => hreceived
  · intro _ _ d l hp
    have hself : (s.publish e).publishing (s.sequence + 1) =
        some (.checking ⟨⟨e, some (s.sequence + 1)⟩, none, s.sequence + 1⟩ s.registrations) := Function.update_self ..
    obtain ⟨-, rfl⟩ := Publishing.checking.inj (Option.some.inj (hself.symm.trans hp))
    exact h.mem

/-- Nothing is left to be put or to be dispatched for the registration. -/
structure Drained (s : State cls) (r : RegistrationId) : Prop where
  events : s.events = []
  publishing : ∀ n, s.publishing n = none
  bootstrapping : s.bootstrapping r = []

/-- In every run in which no callback keeps the dispatcher from the callbacks after it, a publication made after a
registration reaches its callback exactly once, if its filter permits: once the registration has been activated and
everything is drained. -/
theorem observed_exactly_once {before mid after : List (Action cls)}
    (hrun : Run ContainedStep State.init (before ++ .register r f :: (mid ++ .publish e :: after)) s)
    (hmember : ∀ a ∈ mid ++ after, a ≠ .unregister r) (hactive : s.isInitialising r = false) (hdrained : Drained s r) :
    receivedBy s r (publications (before ++ .register r f :: mid) + 1) =
      if permits f e.id then [⟨e, some (publications (before ++ .register r f :: mid) + 1)⟩] else [] := by
  obtain ⟨s₁, hbefore, hrun⟩ := hrun.of_append
  obtain _ | @⟨_, s₂, _, _, _, hregister, hrun⟩ := hrun
  obtain ⟨s₃, hmid, hrun⟩ := hrun.of_append
  obtain _ | @⟨_, s₄, _, _, _, hpublish, hafter⟩ := hrun
  have hs₁ : Sound s₁ := hbefore.invariant (fun _ _ _ h hst => h.step hst.step) .init
  have hs₂ := hs₁.step hregister.step
  obtain ⟨hs₃, g₃, hg₃⟩ : Sound s₃ ∧ ∃ g, Member s₃ r f g := by
    refine hmid.invariant_of_forall (I := fun s => Sound s ∧ ∃ g, Member s r f g) (P := fun a => a ≠ .unregister r)
      (fun s a s' ha h hst => ?_) (fun a ha => hmember a (List.mem_append_left _ ha)) ⟨hs₂, ?_⟩
    · obtain ⟨hs, g, hg⟩ := h
      obtain ⟨g', hg', -⟩ := hg.step hs hst.step ha
      exact ⟨hs.step hst.step, g', hg'⟩
    · cases hregister.step.stepCase with
      | register hr => exact Member.of_register hs₁ hr f
  have hn : publications (before ++ .register r f :: mid) + 1 = s₃.sequence + 1 := by
    have hseq := sequence_run ((hbefore.append (.cons hregister hmid)).mono fun _ _ _ hst => hst.step)
    rw [hseq]
    simp [State.init]
  rw [hn]
  obtain ⟨-, g, hg⟩ : Sound s ∧ ∃ g, Tracked s r f (s₃.sequence + 1) e g := by
    refine hafter.invariant_of_forall (I := fun s => Sound s ∧ ∃ g, Tracked s r f (s₃.sequence + 1) e g)
      (P := fun a => a ≠ .unregister r) (fun s a s' ha h hst => ?_)
      (fun a ha => hmember a (List.mem_append_right _ ha)) ⟨hs₃.step hpublish.step, ?_⟩
    · obtain ⟨hs, g, hg⟩ := h
      exact ⟨hs.step hst.step, hg.step hs hst ha⟩
    · cases hpublish.step.stepCase with
      | publish => exact Tracked.of_publish hg₃ hs₃ e
  have hinit : g.initialising = false := by simpa [State.isInitialising, hg.eq] using hactive
  have hwaiting : waiting s r (s₃.sequence + 1) g = [] := by
    simp [waiting, hinit, hdrained.bootstrapping, hdrained.events, hdrained.publishing, inFlight, ordinary, targeted, marks]
  cases hp : permits f e.id with
  | false => rw [hg.refused hp, if_neg (by simp)]
  | true =>
    have hlength := hg.permitted hp
    rw [hwaiting, List.length_nil, Nat.zero_add] at hlength
    obtain ⟨x, hx⟩ := List.length_eq_one_iff.mp hlength
    have heq : x = ⟨e, some (s₃.sequence + 1)⟩ := hg.all x (by rw [hwaiting, hx]; simp)
    rw [hx, heq, if_pos rfl]

/-- The state after a list of steps. -/
def State.steps (s : State cls) : List (Action cls) → Option (State cls)
  | [] => some s
  | a :: as => (s.step a).bind (·.steps as)

theorem run_of_steps {as : List (Action cls)} (h : s.steps as = some s') : Run Step s as s' := by
  induction as generalizing s with
  | nil =>
    obtain rfl := Option.some.inj h
    exact .nil _
  | cons a as ih =>
    obtain ⟨t, ht, h⟩ := Option.bind_eq_some_iff.mp h
    exact .cons ht (ih h)

/-- Two callbacks are registered for every entry, and a queued entry is published. -/
def twoCallbacks (callback : RegistrationId → CallbackEnd) : List (Action .base) :=
  [.register 0 none, .register 1 none, .activate 0 [], .activate 1 [], .publish (.plain (.ofLast 1) .null), .check 1,
    .put 1, .dispatch callback]

def raisedBy (r : RegistrationId) : RegistrationId → CallbackEnd := Function.update (fun _ => .handled) r .escaped

theorem run_twoCallbacks_last : ∃ s, Run ContainedStep State.init (twoCallbacks (raisedBy 1)) s ∧
    s.isInitialising 0 = false ∧ Drained s 0 := by
  refine ⟨_, .cons ⟨rfl, trivial⟩ (.cons ⟨rfl, trivial⟩ (.cons ⟨rfl, trivial⟩ (.cons ⟨rfl, trivial⟩
    (.cons ⟨rfl, trivial⟩ (.cons ⟨rfl, trivial⟩ (.cons ⟨rfl, trivial⟩ (.cons ⟨rfl, ?_⟩ (.nil _)))))))), rfl, rfl,
    fun n => ?_, rfl⟩
  · intro d hd r hr
    obtain rfl := Option.some.inj hd
    obtain rfl := List.mem_singleton.mp hr
    rfl
  · by_cases hn : n = 1 <;> simp [hn, State.publish, State.init, State.register]

/-- The first callback is called once, also where the second one ends the dispatcher. -/
theorem observed_exactly_once_ordinary : ∃ s, Run ContainedStep State.init (twoCallbacks (raisedBy 1)) s ∧
    s.isInitialising 0 = false ∧ Drained s 0 ∧ receivedBy s 0 1 = [⟨.plain (.ofLast 1) .null, some 1⟩] := by
  obtain ⟨s, hrun, hinit, hdrained⟩ := run_twoCallbacks_last
  refine ⟨s, hrun, hinit, hdrained, ?_⟩
  have hsplit : Run ContainedStep State.init ([] ++ .register 0 none :: ([.register 1 none, .activate 0 [],
      .activate 1 []] ++ .publish (.plain (.ofLast 1) .null) :: [.check 1, .put 1, .dispatch (raisedBy 1)])) s := hrun
  have hmember : ∀ a ∈ [.register 1 none, .activate 0 [], (.activate 1 [] : Action .base)] ++
      [.check 1, .put 1, .dispatch (raisedBy 1)], a ≠ .unregister 0 := by
    simp
  exact observed_exactly_once hsplit hmember hinit hdrained

/-- The first callback lets what is no `Exception` out. The second is never called, and nothing is left to deliver. -/
theorem observed_never : ∃ s, Run Step State.init (twoCallbacks (raisedBy 0)) s ∧ s.isInitialising 1 = false ∧
    Drained s 1 ∧ receivedBy s 1 1 = [] ∧ s.dispatching = false := by
  refine ⟨_, run_of_steps rfl, rfl, ⟨rfl, fun n => ?_, rfl⟩, rfl, rfl⟩
  by_cases hn : n = 1 <;> simp [hn, State.publish, State.init, State.register]

end DjangoQueues.Observers
