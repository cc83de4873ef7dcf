import DjangoQueues.Lib.PopOrder
import DjangoQueues.Redis.Workers

/-! The order in which a FIFO queue and a stack hand out their entries to any number of
workers. Ids join the pending list at its end and are popped at one of its ends, so the
entries that were enqueued for immediate dispatch and not handed out yet stay in the order
of their arrival, whatever is promoted, recovered or pruned between them. -/

namespace DjangoQueues.Redis

variable {cls : EntryClass} {kind : QueueKind} {s s' : Store} {t : ServerTime}

/-! ## The pending list -/

theorem promoteFirstQueued_grows (ids : List EntryId) (s : Store) :
    s.pending <+: (Library.promoteFirstQueued ids s).pending := by
  induction ids generalizing s with
  | nil => exact List.prefix_rfl
  | cons id ids ih =>
    unfold Library.promoteFirstQueued
    split_ifs
    · exact List.prefix_append ..
    · exact ih { s with scheduled := s.scheduled.rem id }

theorem deliverDelayed_grows (ids : List EntryId) (s : Store) :
    s.pending <+: (Library.deliverDelayed false ids s).pending := by
  induction ids generalizing s with
  | nil => exact List.prefix_rfl
  | cons id ids ih =>
    exact (List.prefix_append s.pending [id]).trans (ih { s with
      pending := s.pending ++ [id], delayed := s.delayed.rem id })

theorem prepare_grows (hk : kind ≠ .priority) (t : ServerTime) (s : Store) :
    s.pending <+: (prepare kind t s).pending := by
  have hpromote : s.pending <+: (Library.promoteOneScheduled t.nowUs s).pending := by
    unfold Library.promoteOneScheduled
    split
    · exact List.prefix_rfl
    · exact promoteFirstQueued_grows _ s
  cases kind with
  | priority => exact absurd rfl hk
  | fifo => exact hpromote.trans (deliverDelayed_grows _ _)
  | stack => exact hpromote.trans (deliverDelayed_grows _ _)

theorem recoverOne_grows (now : ℚ) (id : EntryId) (s : Store) :
    s.pending <+: (Library.recoverOne Library.redeliverPending now id s).2.pending := by
  have hcase := Library.recoverOne_case Library.redeliverPending now id s
  generalize Library.recoverOne Library.redeliverPending now id s = r at hcase
  cases hcase with
  | kept => exact List.prefix_rfl
  | discarded => exact List.prefix_rfl
  | error => exact List.prefix_rfl
  | recovered =>
    rw [Library.restoreUnclaimed_eq]
    exact List.prefix_append ..

theorem arecover_grows (hk : kind ≠ .priority) (batch : ℕ) (t : ServerTime) (s : Store) :
    s.pending <+: (arecover kind batch t s).2.pending := by
  have hloop : ∀ ids, s.pending <+:
      (Library.recoverLoop Library.redeliverPending t.nowUs ids 0 0 s).2.pending := fun ids => by
    obtain ⟨-, h⟩ := Library.recoverLoop_rule (I := fun _ m => s.pending <+: m.pending)
      (fun id _ m hm => hm.trans (recoverOne_grows t.nowUs id m)) ids 0 0 s List.prefix_rfl
    exact h
  cases kind with
  | priority => exact absurd rfl hk
  | fifo => exact hloop _
  | stack => exact hloop _

theorem astoreAndPush_grows (hk : kind ≠ .priority) (e : QueueEntry cls) (a : Option ClockTime)
    (t : ServerTime) (s : Store) : s.pending <+: (astoreAndPush kind e a t s).2.pending := by
  have havailable : ∀ (available : ℕ) (base : ℤ),
      s.pending <+: (Library.storeAvailable e.toDict e.id available base false t s).pending := fun _ _ => by
    simp only [Library.storeAvailable, Bool.false_eq_true, if_false]
    split_ifs
    · exact List.prefix_rfl
    · exact List.prefix_append ..
  unfold astoreAndPush
  dsimp only
  by_cases ht : e.status = .terminated
  · rw [if_pos ht]
  · rw [if_neg ht]
    cases kind with
    | priority => exact absurd rfl hk
    | fifo => cases a <;> first | exact List.prefix_append .. | exact havailable _ _
    | stack => cases a <;> first | exact List.prefix_append .. | exact havailable _ _

theorem astoreAndPush_pending (hk : kind ≠ .priority) {e : QueueEntry cls} (he : e.status = .queued)
    (t : ServerTime) (s : Store) : (astoreAndPush kind e none t s).2.pending = s.pending ++ [e.id] := by
  unfold astoreAndPush
  rw [he, if_neg (by decide)]
  cases kind with
  | priority => exact absurd rfl hk
  | fifo => rfl
  | stack => rfl

theorem renew_pending (w : WorkerId) (lease : ℕ) (id : EntryId) (t : ServerTime) (s : Store) :
    (Library.renew w lease id t s).2.pending = s.pending := by
  rcases Library.renew_cases w lease id t s with ⟨r, hr, -⟩ | ⟨_, _, _, -, -, -, -, hr⟩
  · rw [hr]
  · rw [hr]

theorem markRunning_pending (w : WorkerId) (id : EntryId) (raw : Json) (s : Store) :
    (Library.markRunning w id raw s).2.pending = s.pending := by
  rcases Library.markRunning_cases w id raw s with ⟨hr, -⟩ | ⟨-, -, hr⟩
  · rw [hr]
  · rw [hr]

theorem arelease_pending (hk : kind ≠ .priority) (w : WorkerId) (id : EntryId) (delay : ℕ) (t : ServerTime)
    (s : Store) : (arelease kind w id delay t s).2.pending = s.pending := by
  have hrelease : (Library.release w id delay t s).2.pending = s.pending := by
    unfold Library.release
    split
    · rfl
    · dsimp only
      rw [Library.restoreUnclaimed_eq]
      rfl
  cases kind with
  | priority => exact absurd rfl hk
  | fifo => exact hrelease
  | stack => exact hrelease

theorem settle_pending (w : WorkerId) (id : EntryId) (raw : Json) (s : Store) :
    (Library.settle w id raw s).2.pending = s.pending := by
  rcases Library.settle_cases w id raw s with ⟨hr, -⟩ | ⟨-, -, hr⟩
  · rw [hr]
  · rw [hr, Library.dropClaim]

/-- Only finished entries are pruned, and those are not pending. -/
theorem prune_pending (h : LocationInv True s) (id : EntryId) : (Library.prune id s).2.pending = s.pending := by
  rcases Library.prune_cases id s with hr | ⟨hp, hr⟩
  · rw [hr]
  · rw [hr, List.filter_eq_self]
    intro x hx
    have hpos : x = id → False := by
      rintro rfl
      have hcount := List.count_pos_iff.mpr hx
      have hplaces : 0 < s.places x := by
        unfold Store.places
        omega
      have hprunable := Library.prunable_recordStatus hp
      rw [((h x).waiting_of_places hplaces).1] at hprunable
      simp [Library.prunable] at hprunable
    simpa using hpos

/-- A claim of a plain queue answers that it is empty, or hands out the id at its end. -/
theorem aclaim_plain_cases (hk : kind ≠ .priority) (h : LocationInv True s) (w : WorkerId) {lease : ℕ}
    (hlease : Library.LeaseFits t lease) :
    ((prepare kind t s).pending = [] ∧ aclaim kind w lease false t s = (.ok .empty, prepare kind t s)) ∨
      ∃ id m, aclaim kind w lease false t s = (.ok (.claimed id), m) ∧
        popOrder kind.isStack (prepare kind t s).pending = id :: popOrder kind.isStack m.pending := by
  have hprep := h.prepare kind (t := t) (.inl trivial)
  have hclaim : aclaim kind w lease false t s = Library.claim w lease kind.isStack false t s ∧
      prepare kind t s = Library.deliverDueDelayed false t.nowUs (Library.promoteOneScheduled t.nowUs s) := by
    cases kind with
    | priority => exact absurd rfl hk
    | fifo => exact ⟨rfl, rfl⟩
    | stack => exact ⟨rfl, rfl⟩
  rw [hclaim.1, Library.claim, ← hclaim.2]
  rcases hpop : Library.popPending kind.isStack (prepare kind t s) with ⟨_ | id, p⟩
  · left
    obtain ⟨rfl, hnil⟩ := Library.popPending_none hpop
    exact ⟨hnil, rfl⟩
  · right
    obtain ⟨hp, hpending⟩ := Library.popPending_some hpop
    have ht := Library.popPending_taken hpop
    obtain ⟨raw, hraw⟩ := Library.exists_encode_claimTable w hlease
    have hpos : 0 < (prepare kind t s).places id := by simp [ht.places id]
    have hnone : p.claims.get? id = none := by rw [ht.claims, ((hprep id).waiting_of_places hpos).2.1]
    dsimp only
    have hcase := Library.claimPopped_case w lease false t id (fun s => s) (fun s => s)
      (Library.unpopPending kind.isStack id) p
    generalize Library.claimPopped w lease false t id (fun s => s) (fun s => s)
      (Library.unpopPending kind.isStack id) p = res at hcase ⊢
    cases hcase with
    | expired hx => cases hx
    | error hq he =>
      cases hq
      cases hraw.symm.trans he
    | conflict hq _ hsome =>
      cases hq
      simp [hnone] at hsome
    | claimed hq =>
      cases hq
      refine ⟨id, _, rfl, ?_⟩
      dsimp only
      rw [hpending]
      unfold popOrder
      cases kind.isStack <;> simp

/-! ## Arrivals and hand-outs -/

/-- A run with the ids that were enqueued for immediate dispatch and the ids claims handed out. -/
structure Traced where
  world : World
  arrived : List EntryId
  handed : List EntryId

def Traced.init (t : ServerTime) : Traced := ⟨.init t, [], []⟩

/-- The arrivals that no claim has handed out yet, oldest first. -/
def Traced.waiting (g : Traced) : List EntryId := g.arrived.filter (· ∉ g.handed)

def arrives : Action cls × ServerTime → Option EntryId
  | (.enqueue e none, _) => some e.id
  | _ => none

def handsOut (kind : QueueKind) (s : Store) : Action cls × ServerTime → Option EntryId
  | (.claim w lease, t) =>
    match (aclaim kind w lease false t s).1 with
    | .ok (.claimed id) => some id
    | _ => none
  | _ => none

structure TracedStep (kind : QueueKind) (g : Traced) (l : Action cls × ServerTime) (g' : Traced) : Prop where
  step : Step kind g.world l g'.world
  arrived : g'.arrived = g.arrived ++ (arrives l).toList
  handed : g'.handed = g.handed ++ (handsOut kind g.world.store l).toList

/-- Every waiting arrival is on the pending list, in the order of arrival. -/
structure OrderInv (g : Traced) : Prop where
  world : WorldInv True g.world
  sublist : g.waiting.Sublist g.world.store.pending

theorem orderInv_init (t : ServerTime) : OrderInv (.init t) := ⟨worldInv_init _ t, List.Sublist.refl _⟩

section Order

variable {g g' : Traced} {l : Action cls × ServerTime}

theorem popOrder_sublist {α : Type} (stack : Bool) {l₁ l₂ : List α} :
    (popOrder stack l₁).Sublist (popOrder stack l₂) ↔ l₁.Sublist l₂ := by
  unfold popOrder
  cases stack with
  | false => exact Iff.rfl
  | true => exact List.reverse_sublist

/-- An item that occurs once is the first of every part it belongs to, if it is first. -/
theorem head?_of_sublist_cons {α : Type} {a : α} {part rest : List α} (h : part.Sublist (a :: rest))
    (ha : a ∈ part) (hrest : a ∉ rest) : part.head? = some a := by
  cases h with
  | cons _ h => exact absurd (h.subset ha) hrest
  | cons_cons _ h => rfl

/-- The arrivals that wait after a step: the id handed out goes, a new arrival comes last. -/
theorem TracedStep.waiting_eq (h : TracedStep kind g l g') :
    g'.waiting = (g.waiting ++ (arrives l).toList.filter (· ∉ g.handed)).filter
      (· ∉ (handsOut kind g.world.store l).toList) := by
  simp only [Traced.waiting, h.arrived, h.handed, ← List.filter_append, List.filter_filter, List.mem_append,
    not_or, Bool.decide_and, Bool.and_comm]

theorem OrderInv.of_grows (h : OrderInv g) (hs : TracedStep kind g l g') (ha : arrives l = none)
    (hp : g.world.store.pending <+: g'.world.store.pending) : OrderInv g' where
  world := h.world.step hs.step (.inl trivial)
  sublist := by
    rw [hs.waiting_eq, ha, Option.toList_none, List.filter_nil, List.append_nil]
    exact List.filter_sublist.trans (h.sublist.trans hp.sublist)

theorem OrderInv.step (hk : kind ≠ .priority) (h : OrderInv g) (hs : TracedStep kind g l g') : OrderInv g' := by
  have hworld := h.world.step hs.step (.inl trivial)
  obtain ⟨world, arrived, handed⟩ := g'
  have hstep := hs.step
  dsimp only at hstep hworld
  cases hstep with
  | @enqueue _ e a ht hq hf =>
    cases a with
    | none =>
      refine ⟨hworld, ?_⟩
      rw [hs.waiting_eq]
      show List.Sublist _ (astoreAndPush kind e none _ g.world.store).2.pending
      rw [astoreAndPush_pending hk hq]
      exact List.filter_sublist.trans (h.sublist.append List.filter_sublist)
    | some a => exact h.of_grows hs rfl (astoreAndPush_grows hk e _ _ _)
  | @claim t w lease ht hp hl =>
    refine ⟨hworld, ?_⟩
    have hprep : g.waiting.Sublist (prepare kind t g.world.store).pending :=
      h.sublist.trans (prepare_grows hk t g.world.store).sublist
    rw [hs.waiting_eq]
    show List.Sublist _ (aclaim kind w lease false t g.world.store).2.pending
    rcases aclaim_plain_cases hk h.world.location w hl with ⟨-, hr⟩ | ⟨id, m, hr, hpop⟩
    · rw [hr]
      simpa [arrives, handsOut, hr] using hprep
    · rw [hr, ← popOrder_sublist kind.isStack]
      simp only [arrives, handsOut, hr, Option.toList_none, Option.toList_some, List.filter_nil, List.append_nil,
        List.mem_singleton, popOrder_filter]
      have hsub := (popOrder_sublist kind.isStack).mpr hprep
      rw [hpop] at hsub
      have hfilter := hsub.filter (fun x => decide (¬x = id))
      simp only [List.filter_cons, decide_not, decide_true, Bool.not_true, Bool.false_eq_true, if_false] at hfilter
      simpa using hfilter.trans List.filter_sublist
  | renew ht => exact h.of_grows hs rfl (by rw [exec, renew_pending])
  | markRunning ht hp he => exact h.of_grows hs rfl (by rw [exec, markRunning_pending])
  | @release t w id delay ht hp =>
    refine h.of_grows hs rfl ?_
    rw [exec, arelease_pending hk]
  | settle ht he => exact h.of_grows hs rfl (by rw [exec, settle_pending])
  | recover ht => exact h.of_grows hs rfl (arecover_grows hk _ _ _)
  | prune ht => exact h.of_grows hs rfl (by rw [exec, prune_pending h.world.location])
  | leave ht => exact h.of_grows hs rfl List.prefix_rfl

end Order

/-- In every run of a FIFO queue or a stack with any number of workers, an entry enqueued
for immediate dispatch is first handed out when it is the oldest, for a stack the newest, of
those that wait, and no claim comes back without an entry while one waits. -/
theorem plain_queue_dispatch_order (hk : kind ≠ .priority) (t₀ : ServerTime)
    {ls : List (Action cls × ServerTime)} {g : Traced} (hrun : Run (TracedStep kind) (.init t₀) ls g)
    (w : WorkerId) {lease : ℕ} (hl : Library.LeaseFits t lease) :
    (∀ e ∈ g.waiting, (aclaim kind w lease false t g.world.store).1 = .ok (.claimed e) →
      (popOrder kind.isStack g.waiting).head? = some e) ∧
      (g.waiting ≠ [] → ∃ e, (aclaim kind w lease false t g.world.store).1 = .ok (.claimed e)) := by
  have hinv : OrderInv g := hrun.invariant (fun _ _ _ h hs => OrderInv.step hk h hs) (orderInv_init t₀)
  have hprep : g.waiting.Sublist (prepare kind t g.world.store).pending :=
    hinv.sublist.trans (prepare_grows hk t g.world.store).sublist
  rcases aclaim_plain_cases hk hinv.world.location w hl with ⟨hnil, -⟩ | ⟨id, m, hr, hpop⟩
  · rw [hnil, List.sublist_nil] at hprep
    exact ⟨fun e he => by simp [hprep] at he, fun hne => absurd hprep hne⟩
  · rw [hr]
    refine ⟨fun e he heq => ?_, fun _ => ⟨id, rfl⟩⟩
    cases heq
    -- the id at the end of the list occurs there only
    have hcount : (prepare kind t g.world.store).pending.count id =
        (popOrder kind.isStack m.pending).count id + 1 := by
      rw [← count_popOrder kind.isStack, hpop, List.count_cons_self]
    have hplaces : (prepare kind t g.world.store).places id = 1 := by
      apply (((hinv.world.location.prepare kind (t := t) (.inl trivial)) id).waiting_of_places _).2.2.2
      unfold Store.places
      omega
    have hrest : id ∉ popOrder kind.isStack m.pending := by
      unfold Store.places at hplaces
      exact List.count_eq_zero.mp (by omega)
    have hsub := (popOrder_sublist kind.isStack).mpr hprep
    rw [hpop] at hsub
    apply head?_of_sublist_cons hsub _ hrest
    rw [← List.count_pos_iff, count_popOrder]
    exact List.count_pos_iff.mpr he

theorem plain_queue_dispatch_order_twoEnqueued :
    let t : ServerTime := .ofSeconds 1000 ServerTime.second_1000
    let s := (exec .stack (.enqueue (.plain (.ofLast 1) .null) none) t .empty).2
    let s' := (exec .stack (.enqueue (.plain (.ofLast 2) .null) none) t s).2
    (aclaim .stack "w" defaultClaimLease false t s').1 = .ok (.claimed (.ofLast 2)) ∧
      (popOrder true (Traced.mk ⟨s', fun _ => .idle, t⟩ [.ofLast 1, .ofLast 2] []).waiting).head? =
        some (.ofLast 2) := by
  intro t s s'
  have hclaim : (aclaim .stack "w" defaultClaimLease false t s').1 = .ok (.claimed (.ofLast 2)) := by
    decide +kernel
  have hfirst : TracedStep .stack (.init t) (.enqueue (.plain (.ofLast 1) .null) none, t)
      ⟨⟨s, fun _ => .idle, t⟩, [.ofLast 1], []⟩ := ⟨.enqueue t.le_refl rfl rfl, rfl, rfl⟩
  have hsecond : TracedStep .stack ⟨⟨s, fun _ => .idle, t⟩, [.ofLast 1], []⟩
      (.enqueue (.plain (.ofLast 2) .null) none, t) ⟨⟨s', fun _ => .idle, t⟩, [.ofLast 1, .ofLast 2], []⟩ :=
    ⟨.enqueue t.le_refl rfl (by decide), rfl, rfl⟩
  have hrun : Run (TracedStep .stack) (.init t) _ ⟨⟨s', fun _ => .idle, t⟩, [.ofLast 1, .ofLast 2], []⟩ :=
    .cons hfirst (.cons hsecond (.nil _))
  have hfits : Library.LeaseFits t defaultClaimLease := Library.leaseFits_of_lt (by decide)
  exact ⟨hclaim, (plain_queue_dispatch_order (by decide) t hrun "w" hfits).1 (.ofLast 2) (by decide) hclaim⟩

end DjangoQueues.Redis
