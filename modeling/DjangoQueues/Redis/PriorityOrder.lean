import DjangoQueues.Redis.Priority

/-! The order in which a Redis priority queue hands out its entries, over whole runs: by
priority, then by arrival, across every reset of the sequence counter. The counter starts
again only when the set drains; a set that never does takes it out of the exact integers. -/

namespace DjangoQueues.Redis

open PriorityOp

variable {cls : EntryClass}

/-- The id a claim worked on, with nothing for an empty queue. -/
def ClaimOutcome.entry : ClaimOutcome → Option EntryId
  | .empty => none
  | .claimed id => some id
  | .conflict id => some id
  | .expired id => some id

/-- A call that takes from the priority set takes what the observed queue serves next, after
the promotion with which it starts. -/
def Dispatches (c : Call cls) (t : ServerTime) (s : Store) (Q : StampedQueue EntryId) (r : Reply) : Prop :=
  match c, r with
  | .popPriority, .popped o => Q.Serves o
  | .dequeue, .popped o => (observeAll (promoteOps t s) Q).Serves o
  | .claim _ _ _, .claimed (.ok outcome) =>
    (prepare .priority t s).pending = [] → (observeAll (promoteOps t s) Q).Serves outcome.entry
  | _, _ => True

structure PriorityWorld where
  store : Store
  queue : StampedQueue EntryId
  now : ServerTime

namespace PriorityWorld

def init (t : ServerTime) : PriorityWorld := ⟨.empty, .empty, t⟩

def next (c : Call cls) (t : ServerTime) (g : PriorityWorld) : PriorityWorld :=
  ⟨(exec .priority c t g.store).2, observeAll (priorityOps c t g.store) g.queue, t⟩

end PriorityWorld

/-- A call with priorities in range, and with no two present ids pushed too far apart. -/
structure PriorityStep (g : PriorityWorld) (l : Call cls × ServerTime) (g' : PriorityWorld) : Prop where
  le : g.now ≤ l.2
  allowed : Along Allowed (priorityOps l.1 l.2 g.store) g.store g.queue
  eq : g' = g.next l.1 l.2

/-- A step whose pushes find the counter in the exact integers. -/
structure RoomyStep (g : PriorityWorld) (l : Call cls × ServerTime) (g' : PriorityWorld) : Prop
    extends PriorityStep g l g' where
  headroom : Along Headroom (priorityOps l.1 l.2 g.store) g.store g.queue

theorem along_append {P : Store → StampedQueue EntryId → PriorityOp → Prop} {ops ops' : List PriorityOp}
    {s : Store} {Q : StampedQueue EntryId} (h : Along P (ops ++ ops') s Q) : Along P ops s Q := by
  induction ops generalizing s Q with
  | nil => trivial
  | cons op ops ih => exact ⟨h.1, ih h.2⟩

namespace PriorityInv

variable {s : Store} {Q : StampedQueue EntryId} {t : ServerTime}

theorem exec (h : PriorityInv s Q) {c : Call cls} (hallowed : Along Allowed (priorityOps c t s) s Q)
    (hroom : Along Headroom (priorityOps c t s) s Q) :
    PriorityInv (Redis.exec .priority c t s).2 (observeAll (priorityOps c t s) Q) :=
  (h.applyAll _ hallowed hroom).congr (exec_ranking c t s)

theorem popPriority (h : PriorityInv s Q) : Q.Serves (Library.popPriority s).1 := by
  have hserves := h.packs.serves_top
  unfold Library.popPriority
  rcases htop : s.priority.top? with _ | ⟨x, id⟩
  · rwa [htop] at hserves
  · rwa [htop] at hserves

/-- A claim on an empty pending list works on the greatest member. -/
theorem claim (h : PriorityInv (prepare .priority t s) Q) (w : WorkerId) (lease : ℕ) (x : Bool)
    (hnil : (prepare .priority t s).pending = []) {outcome : ClaimOutcome}
    (hr : (aclaim .priority w lease x t s).1 = .ok outcome) : Q.Serves outcome.entry := by
  have hserves := h.packs.serves_top
  rw [Library.aclaim_priority_of_nil w lease x t s hnil] at hr
  rcases htop : (prepare .priority t s).priority.top? with _ | ⟨score, id⟩
  · rw [htop] at hr hserves
    obtain rfl : ClaimOutcome.empty = outcome := by simpa using hr
    exact hserves
  · rw [htop] at hr hserves
    have hcase := Library.claimPopped_case w lease x t id Library.resetSequence Library.resetSequence
      (fun s => { s with priority := s.priority.add id score })
      { prepare .priority t s with priority := (prepare .priority t s).priority.rem id }
    dsimp only at hr
    generalize Library.claimPopped w lease x t id Library.resetSequence Library.resetSequence
      (fun s => { s with priority := s.priority.add id score })
      { prepare .priority t s with priority := (prepare .priority t s).priority.rem id } = out at hcase hr
    have hentry : outcome.entry = some id := by
      cases hcase with
      | error => cases hr
      | _ =>
        obtain rfl := Except.ok.inj hr
        rfl
    rw [hentry]
    exact hserves

theorem dispatches (h : PriorityInv s Q) {c : Call cls}
    (hallowed : Along Allowed (priorityOps c t s) s Q) (hroom : Along Headroom (priorityOps c t s) s Q) :
    Dispatches c t s Q (Redis.exec .priority c t s).1 := by
  have hpromote (ops : List PriorityOp) (hops : priorityOps c t s = promoteOps t s ++ ops) :
      PriorityInv (PriorityOp.applyAll (promoteOps t s) s) (observeAll (promoteOps t s) Q) := by
    rw [hops] at hallowed hroom
    exact h.applyAll _ (along_append hallowed) (along_append hroom)
  cases c with
  | popPriority => exact h.popPriority
  | dequeue =>
    exact ((hpromote _ rfl).congr (Library.promoteOneScheduledPriority_ranking t s)).popPriority
  | claim w lease x =>
    have hinv := (hpromote _ rfl).congr (prepare_ranking t s)
    cases hr : (aclaim .priority w lease x t s).1 with
    | error e => simp only [Redis.exec, hr, Dispatches]
    | ok outcome =>
      simp only [Redis.exec, hr, Dispatches]
      intro hnil
      exact hinv.claim w lease x hnil hr
  | _ => simp only [Dispatches]

end PriorityInv

/-- In a run that keeps its counter in the exact integers, every score is one, and every
next call serves by priority and arrival. -/
theorem priority_dispatch_order (t₀ : ServerTime) (ls : List (Call cls × ServerTime)) (g : PriorityWorld)
    (hrun : Run RoomyStep (PriorityWorld.init t₀) ls g) :
    (∀ id x, g.store.priority.score? id = some x → ∃ k : ℤ, x = k ∧ |k| < 2 ^ 53) ∧
      ∀ (c : Call cls) (t : ServerTime) (g' : PriorityWorld), RoomyStep g (c, t) g' →
        Dispatches c t g.store g.queue (exec .priority c t g.store).1 := by
  have hinv : PriorityInv g.store g.queue := by
    refine Run.invariant (I := fun g => PriorityInv g.store g.queue) ?_ hrun .empty
    rintro g ⟨c, t⟩ g' h hstep
    rw [hstep.eq]
    exact h.exec hstep.allowed hstep.headroom
  refine ⟨hinv.exact, ?_⟩
  intro c t g' hstep
  exact hinv.dispatches hstep.allowed hstep.headroom

theorem PriorityStep.push {g : PriorityWorld} {id : EntryId} {p : ℤ} (hp : |p| ≤ maxPriorityMagnitude)
    (hwin : ∀ b q m, b ≠ id → g.queue.entries b = some (q, m) → g.queue.count + 1 < m + 2 ^ 32) :
    PriorityStep g ((.pushPriority id p : Call cls), g.now) (g.next (.pushPriority id p : Call cls) g.now) := by
  have hops : priorityOps (.pushPriority id p : Call cls) g.now g.store = [.push id p] := by
    simp only [priorityOps, priorityAllowed, hp, decide_true, if_true]
  refine ⟨ServerTime.le_refl _, ?_, rfl⟩
  rw [hops]
  exact ⟨⟨⟨p, rfl, hp⟩, hwin⟩, trivial⟩

/-- A push finds headroom while the counter is far from `2 ^ 53`. -/
theorem RoomyStep.push {g : PriorityWorld} {id : EntryId} {p : ℤ} (hp : |p| ≤ maxPriorityMagnitude)
    (hwin : ∀ b q m, b ≠ id → g.queue.entries b = some (q, m) → g.queue.count + 1 < m + 2 ^ 32)
    (hn : g.store.sequence.getD 0 + 1 ≤ 2 ^ 52) :
    RoomyStep g ((.pushPriority id p : Call cls), g.now) (g.next (.pushPriority id p : Call cls) g.now) := by
  have hops : priorityOps (.pushPriority id p : Call cls) g.now g.store = [.push id p] := by
    simp only [priorityOps, priorityAllowed, hp, decide_true, if_true]
  refine ⟨.push hp hwin, ?_⟩
  rw [hops]
  refine ⟨⟨fl_natCast (by omega), ?_⟩, trivial⟩
  have hle : -100000 ≤ p := (abs_le.mp hp).1
  have hint : ((g.store.sequence.getD 0 + 1 : ℕ) : ℤ) < 2 ^ 53 + p * prioritySequenceSpace := by
    unfold prioritySequenceSpace
    omega
  exact_mod_cast hint

/-- Of two pushes the later one of greater priority is served first. -/
theorem priority_dispatch_order_two :
    let g₀ := PriorityWorld.init (.ofSeconds 0 ServerTime.second_0)
    let g₁ := g₀.next (.pushPriority (.ofLast 1) 0 : Call .base) g₀.now
    let g₂ := g₁.next (.pushPriority (.ofLast 2) 5 : Call .base) g₁.now
    (exec .priority (.popPriority : Call .base) g₂.now g₂.store).1 = .popped (some (.ofLast 2)) ∧
      g₂.queue.Serves (some (.ofLast 2)) := by
  intro g₀ g₁ g₂
  have h₁ : RoomyStep g₀ ((.pushPriority (.ofLast 1) 0 : Call .base), g₀.now) g₁ :=
    .push (by decide) (fun b q m _ hb => by cases hb) (by decide)
  have h₂ : RoomyStep g₁ ((.pushPriority (.ofLast 2) 5 : Call .base), g₁.now) g₂ := by
    refine .push (by decide) (fun b q m _ hb => ?_) (by decide)
    have hm : g₁.queue.count + 1 < m + 2 ^ 32 := by
      change 1 + 1 < m + 2 ^ 32
      omega
    exact hm
  have hpop : RoomyStep g₂ ((.popPriority : Call .base), g₂.now) (g₂.next (.popPriority : Call .base) g₂.now) := by
    have hops : priorityOps (.popPriority : Call .base) g₂.now g₂.store = [.drop (.ofLast 2)] := by
      decide +kernel
    refine ⟨⟨ServerTime.le_refl _, ?_, rfl⟩, ?_⟩
    · rw [hops]
      exact ⟨trivial, trivial⟩
    · rw [hops]
      exact ⟨trivial, trivial⟩
  have hreply : (Library.popPriority g₂.store).1 = some (.ofLast 2) := by decide +kernel
  have hserves := (priority_dispatch_order _ _ _ (.cons h₁ (.cons h₂ (.nil _)))).2 _ _ _ hpop
  refine ⟨congrArg Reply.popped hreply, ?_⟩
  simp only [exec, Dispatches, hreply] at hserves
  exact hserves

/-! ## A set that never drains -/

/-- One id is present, with priority 0 and the last number given out. -/
def holding (id : EntryId) (n : ℕ) : Store :=
  { Store.empty with priority := SortedSet.empty.add id (-n), sequence := some n }

structure Holds (id : EntryId) (n : ℕ) (g : PriorityWorld) : Prop where
  store : g.store = holding id n
  entry : g.queue.entries id = some (0, n)
  other : ∀ b ≠ id, g.queue.entries b = none
  count : g.queue.count = n

variable {a b : EntryId} {n : ℕ} {g : PriorityWorld}

/-- The set with a second id below the first. -/
theorem top?_add_add (hne : a ≠ b) {x y : ℚ} (hlt : ScoreLE (y, b) (x, a)) :
    ((SortedSet.empty.add a x).add b y).top? = some (x, a) := by
  refine SortedSet.top?_of_max (by simp [hne]) fun m s hm => ?_
  rw [SortedSet.score?_add, SortedSet.score?_add] at hm
  split_ifs at hm with hb ha
  · obtain rfl := Option.some.inj hm
    exact hb ▸ hlt
  · obtain rfl := Option.some.inj hm
    exact .inr ⟨rfl, ha.le⟩
  · cases hm

theorem Holds.allowed (h : Holds a n g) : ∀ c q m, c ≠ b → g.queue.entries c = some (q, m) →
    g.queue.count + 1 < m + 2 ^ 32 := by
  intro c q m _ hc
  by_cases hca : c = a
  · subst hca
    rw [h.entry] at hc
    simp only [Option.some.injEq, Prod.mk.injEq] at hc
    rw [h.count]
    omega
  · simp [h.other c hca] at hc

/-- A push of priority 0 scores the number it is given, negated and rounded. -/
theorem exec_pushPriority_zero (t : ServerTime) (s : Store) :
    (exec .priority (.pushPriority b 0 : Call cls) t s).2 = { s with
      sequence := some (s.sequence.getD 0 + 1)
      priority := s.priority.add b (fl (-fl (s.sequence.getD 0 + 1 : ℕ))) } := by
  have hallowed : priorityAllowed 0 = true := by decide
  have hzero : fl ((0 * prioritySequenceSpace : ℤ) : ℚ) = 0 := by decide +kernel
  simp only [exec, hallowed, if_true, Library.pushPriority, hzero, zero_sub]

theorem fl_neg_natCast (hn : n ≤ 2 ^ 53) : fl (-fl n) = -n := by
  rcases hn.lt_or_eq with hlt | rfl
  · rw [fl_natCast hlt]
    have := fl_intCast (n := -(n : ℤ)) (by rw [abs_neg, Nat.abs_cast]; exact_mod_cast hlt)
    exact_mod_cast this
  · decide +kernel

/-- Pushing another id and popping the first hands the place over. -/
theorem Holds.hand_over (h : Holds a n g) (hne : a ≠ b) (hn : n + 1 ≤ 2 ^ 53) :
    ∃ g', Run PriorityStep g [((.pushPriority b 0 : Call cls), g.now), (.popPriority, g.now)] g' ∧
      Holds b (n + 1) g' ∧ g'.now = g.now := by
  set g₁ := g.next (.pushPriority b 0 : Call cls) g.now with hg₁
  have hpush : PriorityStep g ((.pushPriority b 0 : Call cls), g.now) g₁ := .push (by decide) h.allowed
  have hstore₁ : g₁.store = { holding a n with
      sequence := some (n + 1)
      priority := (SortedSet.empty.add a (-n)).add b (-(n + 1 : ℕ)) } := by
    rw [hg₁, PriorityWorld.next, h.store, exec_pushPriority_zero]
    simp only [holding, Option.getD_some, fl_neg_natCast hn]
  -- the id that was there first is still ahead of the new one
  have htop : g₁.store.priority.top? = some (-(n : ℚ), a) := by
    rw [hstore₁]
    refine top?_add_add hne (.inl ?_)
    push_cast
    linarith
  have hops : popOps g₁.store = [.drop a] := by rw [popOps, htop]
  have hpop : PriorityStep g₁ ((.popPriority : Call cls), g.now) (g₁.next (.popPriority : Call cls) g.now) := by
    refine ⟨ServerTime.le_refl _, ?_, rfl⟩
    change Along Allowed (popOps g₁.store) g₁.store g₁.queue
    rw [hops]
    exact ⟨trivial, trivial⟩
  have hrem : ((SortedSet.empty.add a (-(n : ℚ))).add b (-(n + 1 : ℕ))).rem a =
      SortedSet.empty.add b (-(n + 1 : ℕ)) := by
    apply SortedSet.ext_score
    intro m
    simp only [SortedSet.score?_rem, SortedSet.score?_add, SortedSet.score?_empty]
    split_ifs with hma hmb
    · exact absurd (hma.symm.trans hmb) hne
    · rfl
    · rfl
    · rfl
  have hqueue : (g₁.next (.popPriority : Call cls) g.now).queue = (g.queue.push b 0).drop a := by
    change observeAll (popOps g₁.store) g₁.queue = _
    rw [hops]
    rfl
  refine ⟨_, .cons hpush (.cons hpop (.nil _)), ⟨?_, ?_, ?_, ?_⟩, rfl⟩
  · change (Library.popPriority g₁.store).2 = _
    have hcard : (SortedSet.empty.add b (-((n + 1 : ℕ) : ℚ))).card ≠ 0 := fun hc => by
      have := SortedSet.card_eq_zero.mp hc b
      simp at this
    rw [Library.popPriority, htop, hstore₁]
    simp only [Library.discardPriority, hrem, Library.resetSequence, if_neg hcard]
    rfl
  · rw [hqueue, StampedQueue.entries_drop, if_neg hne.symm, StampedQueue.entries_push, if_pos rfl, h.count]
  · intro c hc
    rw [hqueue, StampedQueue.entries_drop, StampedQueue.entries_push, if_neg hc]
    split_ifs with hca
    · rfl
    · exact h.other c hca
  · rw [hqueue]
    exact congrArg (· + 1) h.count

/-- Two ids that take turns bring the counter to any number. -/
theorem exists_run_holds (t : ServerTime) (hne : a ≠ b) (hn : n + 1 ≤ 2 ^ 53) :
    ∃ (ls : List (Call cls × ServerTime)) (g : PriorityWorld), Run PriorityStep (PriorityWorld.init t) ls g ∧
      Holds a (n + 1) g := by
  induction n generalizing a b with
  | zero =>
    have hpush : PriorityStep (PriorityWorld.init t) ((.pushPriority a 0 : Call cls), t)
        ((PriorityWorld.init t).next (.pushPriority a 0 : Call cls) t) :=
      .push (by decide) fun c q m _ hc => by cases hc
    have hqueue : ((PriorityWorld.init t).next (.pushPriority a 0 : Call cls) t).queue =
        StampedQueue.empty.push a 0 := rfl
    refine ⟨_, _, .cons hpush (.nil _), ⟨?_, ?_, ?_, rfl⟩⟩
    · rw [PriorityWorld.next, PriorityWorld.init, exec_pushPriority_zero]
      have hscore : fl (-fl ((Store.empty.sequence.getD 0 + 1 : ℕ) : ℚ)) = -((1 : ℕ) : ℚ) := by decide +kernel
      rw [hscore]
      rfl
    · rw [hqueue, StampedQueue.entries_push, if_pos rfl]
      rfl
    · intro c hc
      rw [hqueue, StampedQueue.entries_push, if_neg hc]
      rfl
  | succ n ih =>
    obtain ⟨ls, g, hrun, hholds⟩ := ih hne.symm (by omega)
    obtain ⟨g', hrun', hholds', -⟩ := hholds.hand_over hne.symm hn
    exact ⟨_, g', hrun.append hrun', hholds'⟩

/-- After `2 ^ 53` pushes without an empty moment two scores coincide, and the id that came
later is served first. -/
theorem priority_order_lost :
    ∃ (ls : List (Call .base × ServerTime)) (g : PriorityWorld),
      Run PriorityStep (PriorityWorld.init (.ofSeconds 0 ServerTime.second_0)) ls g ∧
        (∃ id x, g.store.priority.score? id = some x ∧ ¬|x| < 2 ^ 53) ∧
        ¬Dispatches (.popPriority : Call .base) g.now g.store g.queue
          (exec .priority (.popPriority : Call .base) g.now g.store).1 := by
  obtain ⟨ls, g, hrun, h⟩ : ∃ (ls : List (Call .base × ServerTime)) (g : PriorityWorld),
      Run PriorityStep (PriorityWorld.init (.ofSeconds 0 ServerTime.second_0)) ls g ∧
        Holds (.ofLast 1) (2 ^ 53 - 1 + 1) g :=
    exists_run_holds (a := .ofLast 1) (b := .ofLast 2) (n := 2 ^ 53 - 1) _ (by decide) (by norm_num)
  set g' := g.next (.pushPriority (.ofLast 2) 0 : Call .base) g.now with hg'
  have hpush : PriorityStep g ((.pushPriority (.ofLast 2) 0 : Call .base), g.now) g' :=
    .push (by decide) h.allowed
  have hscore : fl (-fl ((2 ^ 53 - 1 + 1 + 1 : ℕ) : ℚ)) = -(2 ^ 53 - 1 + 1 : ℕ) := by decide +kernel
  have hstore : g'.store.priority =
      (SortedSet.empty.add (.ofLast 1) (-(2 ^ 53 - 1 + 1 : ℕ))).add (.ofLast 2) (-(2 ^ 53 - 1 + 1 : ℕ)) := by
    rw [hg', PriorityWorld.next, h.store, exec_pushPriority_zero]
    simp only [holding, Option.getD_some, hscore]
  refine ⟨_, g', hrun.snoc hpush, ⟨.ofLast 2, -(2 ^ 53 - 1 + 1 : ℕ), ?_, ?_⟩, ?_⟩
  · rw [hstore]
    simp
  · norm_num
  · have htop : g'.store.priority.top? = some (-((2 ^ 53 - 1 + 1 : ℕ) : ℚ), .ofLast 2) := by
      have hswap : g'.store.priority =
          (SortedSet.empty.add (.ofLast 2) (-(2 ^ 53 - 1 + 1 : ℕ))).add (.ofLast 1) (-(2 ^ 53 - 1 + 1 : ℕ)) := by
        rw [hstore]
        apply SortedSet.ext_score
        intro m
        simp only [SortedSet.score?_add]
        split_ifs <;> rfl
      rw [hswap]
      exact top?_add_add (by decide) (.inr ⟨rfl, by decide⟩)
    have hreply : (Library.popPriority g'.store).1 = some (.ofLast 2) := by rw [Library.popPriority, htop]
    have hqueue : g'.queue = g.queue.push (.ofLast 2) 0 := rfl
    simp only [exec, Dispatches, hreply]
    rintro ⟨p, n, hentry, hfirst⟩
    rw [hqueue, StampedQueue.entries_push, if_pos rfl, Option.some.injEq, Prod.mk.injEq] at hentry
    have hearlier : g'.queue.entries (.ofLast 1) = some (0, 2 ^ 53 - 1 + 1) := by
      rw [hqueue, StampedQueue.entries_push, if_neg (by decide), h.entry]
    have hcount := h.count
    rcases hfirst _ _ _ hearlier with hlt | ⟨-, hle⟩
    · omega
    · omega

end DjangoQueues.Redis
