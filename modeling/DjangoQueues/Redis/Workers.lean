import DjangoQueues.Lib.Run
import DjangoQueues.Redis.Location
import DjangoQueues.Redis.Ownership

/-! Runs of a tracked Redis queue by any number of workers. Each worker follows the
program of `RedisAsyncQueueWorker`: it claims while it holds nothing, marks the entry it
claimed running once, and releases it only after that was refused. Every worker can stop
between any two of its calls. -/

namespace DjangoQueues.Redis

variable {cls : EntryClass} {kind : QueueKind}

/-- How far a worker is with the entry it last claimed. -/
inductive Phase where
  | idle
  | held (id : EntryId)
  | running (id : EntryId)
  | releasing (id : EntryId)

structure World where
  store : Store
  phase : WorkerId → Phase
  now : ServerTime

namespace World

def init (t : ServerTime) : World := ⟨.empty, fun _ => .idle, t⟩

end World

inductive Action (cls : EntryClass) where
  | enqueue (e : QueueEntry cls) (availableAt : Option ClockTime)
  | claim (w : WorkerId) (lease : ℕ)
  | renew (w : WorkerId) (lease : ℕ) (id : EntryId)
  | markRunning (w : WorkerId) (e : QueueEntry cls)
  | release (w : WorkerId) (id : EntryId) (delay : ℕ)
  | settle (w : WorkerId) (e : QueueEntry cls)
  | recover (batch : ℕ)
  | prune (id : EntryId)
  | leave (w : WorkerId)

/-- The worker's position after a claim: an empty queue, a conflict or an error leave it idle. -/
def Phase.afterClaim : Except ScriptError ClaimOutcome → Phase
  | .ok (.claimed id) => .held id
  | _ => .idle

/-- One call at server time `t`, or a worker leaving its entry behind. -/
inductive Step (kind : QueueKind) : World → Action cls × ServerTime → World → Prop
  | enqueue {g : World} {t : ServerTime} {e : QueueEntry cls} {a : Option ClockTime} (ht : g.now ≤ t)
      (hq : e.status = .queued) (hf : g.store.records.get? e.id = none) :
    Step kind g (.enqueue e a, t) ⟨(exec kind (.enqueue e a) t g.store).2, g.phase, t⟩
  | claim {g : World} {t : ServerTime} {w : WorkerId} {lease : ℕ} (ht : g.now ≤ t)
      (hp : g.phase w = .idle) (hl : Library.LeaseFits t lease) :
    Step kind g (.claim w lease, t) ⟨(exec kind (.claim w lease false : Call cls) t g.store).2,
      Function.update g.phase w (.afterClaim (aclaim kind w lease false t g.store).1), t⟩
  | renew {g : World} {t : ServerTime} {w : WorkerId} {lease : ℕ} {id : EntryId} (ht : g.now ≤ t) :
    Step kind g (.renew w lease id, t)
      ⟨(exec kind (.renew w lease id : Call cls) t g.store).2, g.phase, t⟩
  | markRunning {g : World} {t : ServerTime} {w : WorkerId} {e : QueueEntry cls} (ht : g.now ≤ t)
      (hp : g.phase w = .held e.id) (he : e.status = .running) :
    Step kind g (.markRunning w e, t) ⟨(exec kind (.markRunning w e) t g.store).2,
      Function.update g.phase w
        (if (Library.markRunning w e.id e.toDict g.store).1 then .running e.id else .releasing e.id), t⟩
  | release {g : World} {t : ServerTime} {w : WorkerId} {id : EntryId} {delay : ℕ} (ht : g.now ≤ t)
      (hp : g.phase w = .releasing id) :
    Step kind g (.release w id delay, t) ⟨(exec kind (.release w id delay : Call cls) t g.store).2,
      Function.update g.phase w .idle, t⟩
  | settle {g : World} {t : ServerTime} {w : WorkerId} {e : QueueEntry cls} (ht : g.now ≤ t)
      (he : e.status.Terminal) :
    Step kind g (.settle w e, t) ⟨(exec kind (.settle w e) t g.store).2, g.phase, t⟩
  | recover {g : World} {t : ServerTime} {batch : ℕ} (ht : g.now ≤ t) :
    Step kind g (.recover batch, t) ⟨(exec kind (.recover batch : Call cls) t g.store).2, g.phase, t⟩
  | prune {g : World} {t : ServerTime} {id : EntryId} (ht : g.now ≤ t) :
    Step kind g (.prune id, t) ⟨(exec kind (.prune id : Call cls) t g.store).2, g.phase, t⟩
  | leave {g : World} {t : ServerTime} {w : WorkerId} (ht : g.now ≤ t) :
    Step kind g (.leave w, t) ⟨g.store, Function.update g.phase w .idle, t⟩

/-- The step's promotion passes over no refused record, and its recovery finds no claim on one run out. -/
def Readable (kind : QueueKind) (g : World) : Action cls × ServerTime → Prop
  | (.claim .., t) => DueReadable kind t.nowUs g.store
  | (.recover batch, t) => ClaimsReadable batch t.nowUs g.store
  | _ => True

structure ReadableStep (kind : QueueKind) (g : World) (l : Action cls × ServerTime) (g' : World) : Prop where
  step : Step kind g l g'
  readable : Readable kind g l

/-- Beside the location of every id: an entry that its worker has not marked running is still queued while the worker
owns it. A worker about to release an entry owns it only where the record was refused. -/
structure WorldInv (lossy : Prop) (g : World) : Prop where
  location : LocationInv lossy g.store
  unmarked : ∀ w e, g.phase w = .held e ∨ g.phase w = .releasing e → g.store.owner? e = some w →
    recordStatus (g.store.records.get? e) = some "queued"

theorem worldInv_init (lossy : Prop) (t : ServerTime) : WorldInv lossy (.init t) where
  location := locationInv_empty lossy
  unmarked _ _ h := by rcases h with h | h <;> cases h

/-- No claim is new, and the record of an id that keeps its owner is untouched. -/
def Narrows (s s' : Store) : Prop :=
  ∀ e w, s'.owner? e = some w → s.owner? e = some w ∧ s'.records.get? e = s.records.get? e

namespace WorldInv

variable {lossy : Prop} {g : World} {s' : Store}

theorem owner?_eq_none {s : Store} {e : EntryId} (h : s.claims.get? e = none) : s.owner? e = none := by
  simp [Store.owner?, h]

theorem of_narrows (h : WorldInv lossy g) (hl : LocationInv lossy s') (hn : Narrows g.store s')
    {phase : WorkerId → Phase} (hp : ∀ w, phase w = g.phase w ∨ phase w = .idle) (t : ServerTime) :
    WorldInv lossy ⟨s', phase, t⟩ where
  location := hl
  unmarked w e hw ho := by
    obtain ⟨ho', hr⟩ := hn e w ho
    rw [hr]
    rcases hp w with h' | h'
    · exact h.unmarked w e (h' ▸ hw) ho'
    · rcases hw with hw | hw <;> cases h'.symm.trans hw

theorem update_idle (phase : WorkerId → Phase) (w w' : WorkerId) :
    Function.update phase w .idle w' = phase w' ∨ Function.update phase w .idle w' = .idle := by
  by_cases hw : w' = w
  · exact .inr (by rw [hw, Function.update_self])
  · exact .inl (Function.update_of_ne hw _ _)

theorem narrows_enqueue (h : LocationInv lossy g.store) {e : QueueEntry cls}
    (hf : g.store.records.get? e.id = none) (a : Option ClockTime) (t : ServerTime) :
    Narrows g.store (astoreAndPush kind e a t g.store).2 := by
  rcases astoreAndPush_cases kind e a t g.store with hr | ⟨s', hr, hs'⟩
  · rw [hr]
    exact fun _ _ ho => ⟨ho, rfl⟩
  · rw [hr]
    intro x w ho
    have ho' : g.store.owner? x = some w := by
      unfold Store.owner? at ho ⊢
      rwa [hs'.claims] at ho
    refine ⟨ho', ?_⟩
    have hx : x ≠ e.id := by
      rintro rfl
      rw [owner?_eq_none ((h e.id).absent_of_record hf).1] at ho'
      cases ho'
    rw [hs'.records, Dict.get?_set, if_neg hx]

theorem narrows_renew (s : Store) (w : WorkerId) (lease : ℕ) (id : EntryId) (t : ServerTime) :
    Narrows s (Library.renew w lease id t s).2 := by
  rcases Library.renew_cases w lease id t s with ⟨r, hr, -⟩ | ⟨c, cur, raw, hc, -, -, he, hr⟩
  · rw [hr]
    exact fun _ _ ho => ⟨ho, rfl⟩
  · rw [hr]
    obtain ⟨-, -, -, how⟩ := Store.ownClaim?_eq_some.mp hc
    refine fun x w' ho => ⟨?_, rfl⟩
    by_cases hx : x = id
    · subst hx
      have hw := Library.namesOwner_of_ownClaim hc he
      have hw' : Library.NamesOwner raw w' := (Library.owner?_of_get? (by simp)).mp ho
      rw [how, Option.some.inj (hw.symm.trans hw')]
    · simpa [Store.owner?, hx] using ho

theorem narrows_settle (s : Store) (w : WorkerId) (id : EntryId) (raw : Json) :
    Narrows s (Library.settle w id raw s).2 := by
  rcases Library.settle_cases w id raw s with ⟨hr, -⟩ | ⟨-, -, hr⟩
  · rw [hr]
    exact fun _ _ ho => ⟨ho, rfl⟩
  · rw [hr]
    intro x w' ho
    by_cases hx : x = id
    · rw [owner?_eq_none (by simp [Library.dropClaim, hx])] at ho
      cases ho
    · exact ⟨by simpa [Store.owner?, Library.dropClaim, hx] using ho, by simp [Library.dropClaim, hx]⟩

theorem narrows_release {s : Store} {w : WorkerId} {id : EntryId} (ho : s.owner? id = some w) (delay : ℕ)
    (t : ServerTime) : Narrows s (arelease kind w id delay t s).2 := by
  have hr := arelease_released kind ho delay t
  intro x w' hx
  have hne : x ≠ id := by
    rintro rfl
    rw [owner?_eq_none (by simp [hr.claims])] at hx
    cases hx
  exact ⟨by simpa [Store.owner?, hr.claims, hne] using hx, by rw [hr.records]⟩

theorem narrows_of_kept {s : Store} (h : LocationInv.Kept s s') : Narrows s s' := by
  intro x w ho
  rcases h x with ⟨hr, hc⟩ | hc
  · refine ⟨?_, hr⟩
    unfold Store.owner? at ho ⊢
    rwa [hc] at ho
  · rw [owner?_eq_none hc] at ho
    cases ho

theorem narrows_prune {s : Store} (h : LocationInv lossy s) (id : EntryId) :
    Narrows s (Library.prune id s).2 := by
  rcases Library.prune_cases id s with hr | ⟨hp, hr⟩
  · rw [hr]
    exact fun _ _ ho => ⟨ho, rfl⟩
  · rw [hr]
    intro x w ho
    refine ⟨ho, ?_⟩
    have hx : x ≠ id := by
      rintro rfl
      obtain ⟨hs, -⟩ := (h x).held_of_owner ho
      have hp := Library.prunable_recordStatus hp
      rcases hs with hs | hs <;> simp [hs, Library.prunable] at hp
    simp [hx]

theorem claim (h : WorldInv lossy g) {w : WorkerId} {lease : ℕ} {t : ServerTime} (hi : g.phase w = .idle)
    (hl : Library.LeaseFits t lease) (hd : lossy ∨ DueReadable kind t.nowUs g.store) :
    WorldInv lossy ⟨(aclaim kind w lease false t g.store).2,
      Function.update g.phase w (.afterClaim (aclaim kind w lease false t g.store).1), t⟩ := by
  rcases h.location.claim_cases kind w hl hd with ⟨m, hr, hsame, hm⟩ |
    ⟨id, m, raw, hr, hq, hc, hw, hrec, hcl, hm⟩
  · rw [hr]
    exact h.of_narrows hm (fun e w ho => ⟨hsame.owner e ▸ ho, by rw [hsame.records]⟩)
      (update_idle g.phase w) t
  · rw [hr]
    have hother : ∀ x, x ≠ id → m.owner? x = g.store.owner? x := fun x hx => by
      simp only [Store.owner?, hcl, Dict.get?_set, if_neg hx]
    refine ⟨hm, fun w' x hp ho => ?_⟩
    dsimp only at hp ho ⊢
    rw [hrec]
    by_cases hx : x = id
    · rwa [hx]
    · have hw' : w' ≠ w := by
        rintro rfl
        rw [Function.update_self] at hp
        rcases hp with hp | hp
        · exact hx (by injection hp with hp; exact hp.symm)
        · cases hp
      rw [Function.update_of_ne hw'] at hp
      exact h.unmarked w' x hp (hother x hx ▸ ho)

theorem markRunning (h : WorldInv lossy g) {w : WorkerId} {e : QueueEntry cls} (hp : g.phase w = .held e.id)
    (he : e.status = .running) (t : ServerTime) :
    WorldInv lossy ⟨(Library.markRunning w e.id e.toDict g.store).2, Function.update g.phase w
      (if (Library.markRunning w e.id e.toDict g.store).1 then .running e.id else .releasing e.id), t⟩ := by
  have hloc := h.location.markRunning w he
  rcases Library.markRunning_cases w e.id e.toDict g.store with ⟨hr, -⟩ | ⟨ho, -, hr⟩
  · rw [hr]
    refine ⟨h.location, fun w' x hw ho => ?_⟩
    dsimp only at hw ho
    by_cases hne : w' = w
    · subst hne
      obtain rfl : e.id = x := by simpa using hw
      exact h.unmarked w' e.id (.inl hp) ho
    · rw [Function.update_of_ne hne] at hw
      exact h.unmarked w' x hw ho
  · rw [hr] at hloc ⊢
    refine ⟨hloc, fun w' x hw ho' => ?_⟩
    dsimp only at hw ⊢
    have hne : w' ≠ w := by
      rintro rfl
      simp at hw
    rw [Function.update_of_ne hne] at hw
    have hx : x ≠ e.id := by
      rintro rfl
      exact hne (Option.some.inj (ho'.symm.trans ho))
    rw [Dict.get?_set, if_neg hx]
    exact h.unmarked w' x hw ho'

/-- The worker that releases either lost its claim, or holds it on a record that was refused. -/
theorem release (h : WorldInv lossy g) {w : WorkerId} {id : EntryId} (hp : g.phase w = .releasing id) (delay : ℕ)
    (t : ServerTime) :
    WorldInv lossy ⟨(arelease kind w id delay t g.store).2, Function.update g.phase w .idle, t⟩ := by
  by_cases ho : g.store.owner? id = some w
  · exact h.of_narrows (h.location.release kind ho (h.unmarked w id (.inr hp) ho) delay t)
      (narrows_release ho delay t) (update_idle g.phase w) t
  · have hsame : (arelease kind w id delay t g.store).2 = g.store :=
      congrArg Prod.snd (refused_of_not_owner (c := (.release w id delay : Call .base)) ho (.release delay) kind t)
    rw [hsame]
    exact h.of_narrows h.location (fun _ _ ho => ⟨ho, rfl⟩) (update_idle g.phase w) t

theorem step (h : WorldInv lossy g) {l : Action cls × ServerTime} {g' : World} (hs : Step kind g l g')
    (hd : lossy ∨ Readable kind g l) : WorldInv lossy g' := by
  have keep : ∀ w, g.phase w = g.phase w ∨ g.phase w = .idle := fun _ => .inl rfl
  cases hs with
  | enqueue ht hq hf =>
    exact h.of_narrows (h.location.enqueue kind hq _ _ hf) (narrows_enqueue h.location hf _ _) keep _
  | claim ht hp hl => exact h.claim hp hl hd
  | renew ht => exact h.of_narrows (h.location.renew _ _ _ _) (narrows_renew _ _ _ _ _) keep _
  | markRunning ht hp he => exact h.markRunning hp he _
  | release ht hp => exact h.release hp _ _
  | settle ht he => exact h.of_narrows (h.location.settle _ he) (narrows_settle _ _ _ _) keep _
  | recover ht =>
    obtain ⟨h₁, h₂⟩ := h.location.recover kind hd
    exact h.of_narrows h₁ (narrows_of_kept h₂) keep _
  | prune ht => exact h.of_narrows (h.location.prune _) (narrows_prune h.location _) keep _
  | leave ht => exact h.of_narrows h.location (fun _ _ ho => ⟨ho, rfl⟩) (update_idle g.phase _) _

end WorldInv

/-- In every state of every run that meets no refused record on its way, each retained record is waiting in exactly
one place, held under one claim with its lease, or finished and nowhere. -/
theorem retained_record_located (kind : QueueKind) (t₀ : ServerTime)
    {ls : List (Action cls × ServerTime)} {g : World} (hrun : Run (ReadableStep kind) (World.init t₀) ls g)
    {id : EntryId} {raw : Json} (hr : g.store.records.get? id = some raw) :
    (recordStatus (some raw) = some "queued" ∧ g.store.claims.get? id = none ↔ g.store.places id = 1) ∧
      ((g.store.claims.get? id).isSome ↔ (g.store.leases.score? id).isSome) ∧
      ((g.store.claims.get? id).isSome → g.store.places id = 0) ∧
      (recordStatus (some raw) = some "running" → (g.store.claims.get? id).isSome) ∧
      ∀ st : QueueEntryStatus, st.Terminal → recordStatus (some raw) = some st.value →
        g.store.claims.get? id = none ∧ g.store.places id = 0 := by
  have hinv : WorldInv False g :=
    hrun.invariant (fun _ _ _ h hs => h.step hs.step (.inr hs.readable)) (worldInv_init False t₀)
  rw [← hr]
  cases hinv.location id with
  | absent h₁ => simp [h₁] at hr
  | waiting h₁ h₂ h₃ h₄ =>
    refine ⟨by simp [h₁, h₂, h₄], by simp [h₂, h₃], by simp [h₂], by simp [h₁], fun st hst hv => ?_⟩
    rw [h₁] at hv
    cases st <;> first | exact absurd hst (by decide) | simp [QueueEntryStatus.value] at hv
  | held h₁ h₂ h₃ h₄ =>
    refine ⟨?_, by simp [h₂, h₃], fun _ => h₄, fun _ => h₂, fun st hst hv => ?_⟩
    · simp [h₄, Option.isSome_iff_ne_none.mp h₂]
    · rcases h₁ with h₁ | h₁ <;> rw [h₁] at hv <;>
        cases st <;> first | exact absurd hst (by decide) | simp [QueueEntryStatus.value] at hv
  | finished h₁ h₂ h₃ h₄ =>
    refine ⟨?_, by simp [h₂, h₃], by simp [h₂], fun hv => ?_, fun _ _ _ => ⟨h₂, h₄⟩⟩
    · have hq : recordStatus (g.store.records.get? id) ≠ some "queued" := fun hv => by
        simp [hv, Library.prunable] at h₁
      simp [hq, h₄]
    · simp [hv, Library.prunable] at h₁
  | lost h₀ => exact h₀.elim

/-- An entry with this payload is enqueued, claimed and, its lease run out, recovered. -/
def abandoned (payload : Json) : List (Call .base × ServerTime) :=
  [(.enqueue (.plain (.ofLast 1) payload) none, .ofSeconds 1000 ServerTime.second_1000),
    (.claim "w" defaultClaimLease false, .ofSeconds 1000 ServerTime.second_1000),
    (.recover 1, .ofSeconds 2000 ServerTime.second_2000)]

def enqueuedWorld (payload : Json) : World :=
  ⟨execAll .fifo ((abandoned payload).take 1) .empty, fun _ => .idle, .ofSeconds 1000 ServerTime.second_1000⟩

def claimedWorld (payload : Json) : World :=
  ⟨execAll .fifo ((abandoned payload).take 2) .empty,
    Function.update (fun _ => .idle) "w" (.afterClaim (aclaim .fifo "w" defaultClaimLease false
      (.ofSeconds 1000 ServerTime.second_1000) (enqueuedWorld payload).store).1),
    .ofSeconds 1000 ServerTime.second_1000⟩

def recoveredWorld (payload : Json) : World :=
  ⟨execAll .fifo (abandoned payload) .empty, (claimedWorld payload).phase, .ofSeconds 2000 ServerTime.second_2000⟩

theorem step_enqueue (payload : Json) : Step .fifo (.init (.ofSeconds 1000 ServerTime.second_1000))
    (.enqueue (.plain (.ofLast 1) payload) none, .ofSeconds 1000 ServerTime.second_1000) (enqueuedWorld payload) :=
  .enqueue (ServerTime.le_refl _) rfl rfl

theorem step_claim (payload : Json) : Step .fifo (enqueuedWorld payload)
    ((.claim "w" defaultClaimLease : Action .base), .ofSeconds 1000 ServerTime.second_1000) (claimedWorld payload) :=
  .claim (ServerTime.le_refl _) rfl (Library.leaseFits_of_lt (by decide))

theorem step_recover (payload : Json) : Step .fifo (claimedWorld payload)
    ((.recover 1 : Action .base), .ofSeconds 2000 ServerTime.second_2000) (recoveredWorld payload) :=
  .recover (show ServerTime.ofSeconds 1000 ServerTime.second_1000 ≤ .ofSeconds 2000 ServerTime.second_2000 by decide)

theorem readable_claim : Readable .fifo (enqueuedWorld .null)
    ((.claim "w" defaultClaimLease : Action .base), .ofSeconds 1000 ServerTime.second_1000) := by
  intro e he
  revert e
  decide +kernel

theorem readable_recover : Readable .fifo (claimedWorld .null)
    ((.recover 1 : Action .base), .ofSeconds 2000 ServerTime.second_2000) := by
  intro e he _
  revert e
  decide +kernel

theorem retained_record_located_recovered : (recoveredWorld .null).store.places (.ofLast 1) = 1 := by
  obtain ⟨raw, hr⟩ : ∃ raw, (recoveredWorld .null).store.records.get? (.ofLast 1) = some raw :=
    Option.isSome_iff_exists.mp (by decide +kernel)
  have hlocated := retained_record_located .fifo _ (.cons ⟨step_enqueue .null, trivial⟩
    (.cons ⟨step_claim .null, readable_claim⟩ (.cons ⟨step_recover .null, readable_recover⟩ (.nil _)))) hr
  exact hlocated.1.mp ⟨by rw [← hr]; decide +kernel, by decide +kernel⟩

/-- The scripts cannot read the record of this entry; recovery discards its claim and leaves it queued. -/
theorem retained_record_lost : ∃ (ls : List (Action .base × ServerTime)) (g : World),
    Run (Step .fifo) (World.init (.ofSeconds 1000 ServerTime.second_1000)) ls g ∧
      recordStatus (g.store.records.get? (.ofLast 1)) = some "queued" ∧
      g.store.claims.get? (.ofLast 1) = none ∧ g.store.places (.ofLast 1) = 0 := by
  refine ⟨_, recoveredWorld (.str .highSurrogate), .cons (step_enqueue _) (.cons (step_claim _)
    (.cons (step_recover _) (.nil _))), ?_, ?_, ?_⟩
  · decide +kernel
  · decide +kernel
  · decide +kernel

end DjangoQueues.Redis
