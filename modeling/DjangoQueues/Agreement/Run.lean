import DjangoQueues.Agreement.Steps
import DjangoQueues.Lib.Run

/-! Whole runs of the tracked direct path on both backends: the same calls with the same clock
readings, counting the priority pushes since the Redis priority set was last empty. -/

namespace DjangoQueues

open Redis

variable {cls : EntryClass}

/-- A call of the direct path. A failure stores the failed copy each side made of its entry. -/
inductive DirectCall (cls : EntryClass) where
  | enqueue (e : QueueEntry cls) (availableAt : Option ClockTime)
  | dequeue
  | fail (e e' : QueueEntry cls)

namespace DirectCall

def memory (kind : QueueKind) (t : ServerTime) (m : Memory.State cls) : DirectCall cls → Memory.State cls
  | enqueue e a => Memory.Queue.astoreAndPush kind e a t.toClockTime m
  | dequeue => (Memory.Queue.adequeue kind t.toClockTime m).2
  | fail e _ => Memory.Queue.astoreAndDiscard kind e m

def redis : DirectCall cls → Call cls
  | enqueue e a => .enqueue e a
  | dequeue => .dequeue
  | fail _ e' => .storeAndDiscard e'

/-- The priority pushes of the call. -/
def pushes (kind : QueueKind) (t : ServerTime) (s : Store) (c : DirectCall cls) : ℕ :=
  match kind with
  | .priority => PriorityOp.pushes (priorityOps c.redis t s)
  | _ => 0

end DirectCall

/-- The two queues, with the pushes since the priority set was last empty. -/
structure Pair (cls : EntryClass) where
  memory : Memory.State cls
  redis : Store
  pushes : ℕ
  now : ServerTime

namespace Pair

def init (t : ServerTime) : Pair cls := ⟨.empty, .empty, 0, t⟩

def next (kind : QueueKind) (c : DirectCall cls) (t : ServerTime) (g : Pair cls) : Pair cls :=
  let redis := (exec kind c.redis t g.redis).2
  { memory := c.memory kind t g.memory
    redis
    pushes := if redis.priority.card = 0 then 0 else g.pushes + c.pushes kind t g.redis
    now := t }

/-- Ids grow with every enqueue, and only a queued entry fails before dispatch. -/
def Ok (m : Memory.State cls) : DirectCall cls → Prop
  | .enqueue e _ => e.status = .queued ∧ |e.priority| ≤ maxPriorityMagnitude ∧ ∀ id ∈ m.entries.keys, id < e.id
  | .dequeue => True
  | .fail e e' => e'.id = e.id ∧ e.status = .failed ∧ e'.status = .failed ∧
      ∃ e₀, m.entries.get? e.id = some e₀ ∧ e₀.status = .queued ∧
        e.priority = e₀.priority ∧ e'.priority = e₀.priority

end Pair

structure PairStep (kind : QueueKind) (g : Pair cls) (l : DirectCall cls × ServerTime) (g' : Pair cls) :
    Prop where
  le : g.now ≤ l.2
  ok : Pair.Ok g.memory l.1
  pushes_lt : g.pushes + l.1.pushes kind l.2 g.redis < 2 ^ 32
  eq : g' = g.next kind l.1 l.2

/-- A dequeue's promotion passes over no record that the scripts cannot read. -/
structure ReadablePairStep (kind : QueueKind) (g : Pair cls) (l : DirectCall cls × ServerTime) (g' : Pair cls) :
    Prop extends PairStep kind g l g' where
  readable : l.1 = .dequeue → DueReadable kind l.2.nowUs g.redis

/-! ## The sequence counter -/

/-- The counter is at most the number of pushes, and starts again with an empty set. -/
structure Counted (s : Store) (n : ℕ) : Prop where
  le : s.sequence.getD 0 ≤ n
  reset : s.priority.card = 0 → s.sequence.getD 0 = 0

namespace Counted

variable {s s' : Store} {n : ℕ}

theorem congr (h : Counted s n) (hs : SameRanking s s') : Counted s' n := by
  refine ⟨?_, ?_⟩
  · rw [hs.sequence]
    exact h.le
  · rw [hs.priority, hs.sequence]
    exact h.reset

theorem push (h : Counted s n) (id : EntryId) (base : ℚ) : Counted (Library.pushPriority base id s) (n + 1) := by
  have hle := h.le
  refine ⟨?_, fun hcard => ?_⟩
  · show (some (s.sequence.getD 0 + 1)).getD 0 ≤ n + 1
    simpa using hle
  · have hnone := SortedSet.card_eq_zero.mp hcard id
    simp [Library.pushPriority] at hnone

theorem drop (h : Counted s n) (id : EntryId) : Counted (Library.discardPriority id s) n := by
  unfold Library.discardPriority Library.resetSequence
  split_ifs with hcard
  · have hzero : (s.sequence.map fun _ => 0).getD 0 = 0 := by cases s.sequence <;> rfl
    exact ⟨hzero.trans_le (Nat.zero_le n), fun _ => hzero⟩
  · exact ⟨h.le, fun hempty => absurd hempty hcard⟩

theorem applyAll (h : Counted s n) (ops : List PriorityOp) (hops : ∀ id, .take id ∉ ops) :
    Counted (PriorityOp.applyAll ops s) (n + PriorityOp.pushes ops) := by
  induction ops generalizing s n with
  | nil => exact h
  | cons op ops ih =>
    have hrest : ∀ id, .take id ∉ ops := fun id hin => hops id (List.mem_cons_of_mem _ hin)
    cases op with
    | push id p =>
      have hnext := ih (h.push id (fl (p * prioritySequenceSpace))) hrest
      have hcount : PriorityOp.pushes (.push id p :: ops) = PriorityOp.pushes ops + 1 :=
        List.countP_cons_of_pos rfl
      rw [hcount, Nat.add_comm (PriorityOp.pushes ops) 1, ← Nat.add_assoc]
      exact hnext
    | drop id => exact ih (h.drop id) hrest
    | take id => exact absurd (List.mem_cons_self ..) (hops id)

end Counted

theorem pushes_append (ops ops' : List PriorityOp) :
    PriorityOp.pushes (ops ++ ops') = PriorityOp.pushes ops + PriorityOp.pushes ops' :=
  List.countP_append

theorem popOps_cases (s : Store) : popOps s = [] ∨ ∃ id, popOps s = [.drop id] := by
  unfold popOps
  cases s.priority.top? with
  | none => exact .inl rfl
  | some p => exact .inr ⟨p.2, rfl⟩

theorem promoteOps_cases (t : ServerTime) (s : Store) :
    promoteOps t s = [] ∨ ∃ id p, promoteOps t s = [.push id p] := by
  unfold promoteOps
  cases (s.scheduled.upTo t.nowUs).head? with
  | none => exact .inl rfl
  | some head =>
    dsimp only
    cases (Library.selectScheduled (s.scheduled.withScore head.1) none s).1 with
    | none => exact .inl rfl
    | some choice => exact .inr ⟨_, _, rfl⟩

namespace DirectCall

/-- No direct call takes an id off the set without looking at the counter. -/
theorem take_notMem (c : DirectCall cls) (t : ServerTime) (s : Store) (id : EntryId) :
    .take id ∉ priorityOps c.redis t s := by
  cases c with
  | enqueue e a =>
    simp only [redis, priorityOps]
    split_ifs
    · exact List.not_mem_nil
    · cases a with
      | none => simp
      | some a =>
        dsimp only
        split_ifs <;> simp
  | dequeue =>
    simp only [redis, priorityOps, List.mem_append, not_or]
    constructor
    · rcases promoteOps_cases t s with hops | ⟨_, _, hops⟩ <;> simp [hops]
    · rcases popOps_cases (Library.promoteOneScheduledPriority prioritySequenceSpace t.nowUs s) with
        hops | ⟨_, hops⟩ <;> simp [hops]
  | fail e e' => simp [redis, priorityOps]

theorem pushes_dequeue (t : ServerTime) (s : Store) :
    (dequeue : DirectCall cls).pushes .priority t s = PriorityOp.pushes (promoteOps t s) := by
  simp only [pushes, redis, priorityOps, pushes_append]
  rcases popOps_cases (Library.promoteOneScheduledPriority prioritySequenceSpace t.nowUs s) with
    hops | ⟨_, hops⟩
  · rw [hops]
    rfl
  · rw [hops]
    rfl

end DirectCall

theorem Counted.exec {s : Store} {n : ℕ} (h : Counted s n) (c : DirectCall cls) (t : ServerTime) :
    Counted (Redis.exec .priority c.redis t s).2 (n + c.pushes .priority t s) :=
  (h.applyAll _ (c.take_notMem t s)).congr (exec_ranking c.redis t s)

/-! ## The invariant -/

namespace Agree

variable {m : Memory.State cls} {s : Store} {Q : StampedQueue EntryId}

theorem unused_pop (h : Agree m s Q) (priority : Bool) (now : ClockTime) :
    (m.popNextDueScheduled priority now).2.pending = m.pending ∧
      (m.popNextDueScheduled priority now).2.pendingPriority = m.pendingPriority := by
  rw [h.popNextDueScheduled]
  split <;> exact ⟨rfl, rfl⟩

/-- A queue class touches only its own pending store. -/
theorem unused_dequeue (h : Agree m s Q) (kind : QueueKind) (now : ClockTime) (hunused : Unused kind m) :
    Unused kind (Memory.Queue.adequeue kind now m).2 := by
  have hplain (stack : Bool) (hnil : m.pendingPriority = []) :
      ((m.apromoteScheduled now).apop stack).2.pendingPriority = [] := by
    have hprom : (m.apromoteScheduled now).pendingPriority = [] := by
      have hpop := (h.unused_pop false now).2.trans hnil
      unfold Memory.State.apromoteScheduled
      rcases hr : m.popNextDueScheduled false now with ⟨_ | id, m'⟩
      · rw [hr] at hpop
        exact hpop
      · rw [hr] at hpop
        exact hpop
    unfold Memory.State.apop Memory.State.getPending
    cases stack with
    | false => cases (m.apromoteScheduled now).pending.head? <;> exact hprom
    | true => cases (m.apromoteScheduled now).pending.getLast? <;> exact hprom
  cases kind with
  | fifo => exact hplain false hunused
  | stack => exact hplain true hunused
  | priority =>
    have hpop : (m.popNextDueScheduled true now).2.pending = [] := (h.unused_pop true now).1.trans hunused
    have hprom : (m.apromoteScheduledPriority now).pending = [] := by
      unfold Memory.State.apromoteScheduledPriority
      rcases hr : m.popNextDueScheduled true now with ⟨_ | id, m'⟩
      · rw [hr] at hpop
        exact hpop
      · rw [hr] at hpop
        exact hpop
    show (m.apromoteScheduledPriority now).apopPriority.2.pending = []
    unfold Memory.State.apopPriority
    cases Memory.State.leastItem (m.apromoteScheduledPriority now).pendingPriority with
    | none => exact hprom
    | some item => exact hprom

/-- What a dequeue returns is still stored. -/
theorem stored_of_dequeue {kind : QueueKind} {now : ClockTime} {e : QueueEntry cls}
    (hok : (Memory.Queue.adequeue kind now m).1 = .ok e) :
    ∃ id, (Memory.Queue.adequeue kind now m).2.entries.get? id = some e := by
  have hfind {m' : Memory.State cls} {id : EntryId} (hf : m'.afind id = .ok e) : m'.entries.get? id = some e := by
    unfold Memory.State.afind at hf
    cases hg : m'.entries.get? id with
    | none => simp [hg] at hf
    | some x => rw [hg] at hf; rw [Except.ok.inj hf]
  have hplain (m' : Memory.State cls) (stack : Bool) (hr : (m'.apop stack).1 = .ok e) :
      ∃ id, (m'.apop stack).2.entries.get? id = some e := by
    unfold Memory.State.apop at hr ⊢
    rcases hget : m'.getPending stack with ⟨_ | id, m''⟩
    · rw [hget] at hr
      cases hr
    · rw [hget] at hr
      exact ⟨id, hfind hr⟩
  cases kind with
  | fifo => exact hplain _ false hok
  | stack => exact hplain _ true hok
  | priority =>
    have hprio (m' : Memory.State cls) (hr : m'.apopPriority.1 = .ok e) :
        ∃ id, m'.apopPriority.2.entries.get? id = some e := by
      unfold Memory.State.apopPriority at hr ⊢
      cases hl : Memory.State.leastItem m'.pendingPriority with
      | none => simp [hl] at hr
      | some item =>
        rw [hl] at hr
        exact ⟨item.2.2, hfind hr⟩
    exact hprio _ hok

/-- The Redis side finds the record of what it popped. -/
theorem isSome_record (h : Agree m s Q) {kind : QueueKind} {now : ClockTime} {r : Option EntryId} {m₀ : Memory.State cls}
    (hm : (Memory.Queue.adequeue kind now m₀).2 = m) (hr : SameReply (Memory.Queue.adequeue kind now m₀).1 r)
    {id : EntryId} (hid : id ∈ r) : (s.records.get? id).isSome := by
  obtain rfl : r = some id := hid
  cases hok : (Memory.Queue.adequeue kind now m₀).1 with
  | error err => cases err <;> simp [hok, SameReply] at hr
  | ok e =>
    rw [hok] at hr
    obtain ⟨id', hg⟩ := stored_of_dequeue hok
    rw [hm] at hg
    have hsame := h.records id'
    obtain rfl : id' = id := (h.entryId hg).symm.trans hr
    rw [hg] at hsame
    cases hrec : s.records.get? id' with
    | none => simp [hrec, SameRecord] at hsame
    | some raw => rfl

end Agree

theorem Agree.unused_enqueue {kind : QueueKind} {m : Memory.State cls} (hunused : Agree.Unused kind m)
    (e : QueueEntry cls) (a : Option ClockTime) (now : ClockTime) :
    Agree.Unused kind (Memory.Queue.astoreAndPush kind e a now m) := by
  unfold Memory.Queue.astoreAndPush
  cases a with
  | none => cases kind <;> exact hunused
  | some a =>
    dsimp only
    split_ifs
    · cases kind <;> exact hunused
    · cases kind <;> exact hunused

theorem Agree.unused_fail {kind : QueueKind} {m : Memory.State cls} (hunused : Agree.Unused kind m)
    (e : QueueEntry cls) : Agree.Unused kind (Memory.Queue.astoreAndDiscard kind e m) := by
  cases kind with
  | priority => exact hunused
  | fifo => exact hunused
  | stack => exact hunused

structure InStep (kind : QueueKind) (g : Pair cls) : Prop where
  agree : ∃ Q, Agree g.memory g.redis Q
  unused : Agree.Unused kind g.memory
  counted : kind = .priority → Counted g.redis g.pushes

namespace InStep

variable {kind : QueueKind} {g g' : Pair cls} {l : DirectCall cls × ServerTime}

theorem init (kind : QueueKind) (t : ServerTime) : InStep kind (.init t : Pair cls) where
  agree := ⟨.empty, .empty⟩
  unused := by cases kind <;> rfl
  counted _ := ⟨le_rfl, fun _ => rfl⟩

/-- The counter leaves room for the pushes of an allowed step. -/
theorem room (h : InStep kind g) (hs : PairStep kind g l g') (hk : kind = .priority) :
    g.redis.sequence.getD 0 + l.1.pushes .priority l.2 g.redis < 2 ^ 32 := by
  subst hk
  have hle := (h.counted rfl).le
  have hlt := hs.pushes_lt
  omega

theorem dequeue (h : InStep kind g) {t : ServerTime} (hs : ReadablePairStep kind g (.dequeue, t) g') :
    Agree.SameReply (Memory.Queue.adequeue kind t.toClockTime g.memory).1 (adequeue kind t g.redis).1 ∧
      ∃ Q, Agree (Memory.Queue.adequeue kind t.toClockTime g.memory).2 (adequeue kind t g.redis).2 Q := by
  obtain ⟨Q, hagree⟩ := h.agree
  refine hagree.dequeue (fun hk => ?_) (hs.readable rfl)
  have hroom := h.room hs.toPairStep hk
  rw [DirectCall.pushes_dequeue] at hroom
  exact hroom

theorem step (h : InStep kind g) (hs : ReadablePairStep kind g l g') : InStep kind g' := by
  obtain ⟨Q, hagree⟩ := h.agree
  have hcounted (hk : kind = .priority) : Counted g'.redis g'.pushes := by
    subst hk
    have hnext := (h.counted rfl).exec l.1 l.2
    rw [hs.eq]
    refine ⟨?_, hnext.reset⟩
    show ((exec .priority l.1.redis l.2 g.redis).2).sequence.getD 0 ≤
      if (exec .priority l.1.redis l.2 g.redis).2.priority.card = 0 then 0 else
        g.pushes + l.1.pushes .priority l.2 g.redis
    split_ifs with hcard
    · rw [hnext.reset hcard]
    · exact hnext.le
  have hroom := h.room hs.toPairStep
  obtain ⟨c, t⟩ := l
  cases c with
  | enqueue e a =>
    obtain ⟨hst, hbound, hfresh⟩ := hs.ok
    have hagree' := hagree.enqueue kind a t hst hbound hfresh fun hk => hroom hk
    rw [hs.eq] at hcounted ⊢
    exact ⟨hagree', Agree.unused_enqueue h.unused e a t.toClockTime, hcounted⟩
  | dequeue =>
    have hagree' := (h.dequeue hs).2
    rw [hs.eq] at hcounted ⊢
    exact ⟨hagree', hagree.unused_dequeue kind t.toClockTime h.unused, hcounted⟩
  | fail e e' =>
    obtain ⟨hid, hst, hst', e₀, he₀, -, hprio, hprio'⟩ := hs.ok
    have hbound : |e.priority| ≤ maxPriorityMagnitude := hprio ▸ hagree.bounded he₀
    have hagree' := hagree.fail kind h.unused e e' hid (hst'.trans hst.symm) (hprio'.trans hprio.symm) hbound
    rw [hs.eq] at hcounted ⊢
    exact ⟨hagree', Agree.unused_fail h.unused e, hcounted⟩

end InStep

/-- After every run of the direct path that passes over no record the scripts cannot read, `ahas_pending` agrees, and
the next such `adequeue` returns the same entry, which the Redis side finds, or finds nothing on both sides. -/
theorem backends_agree (kind : QueueKind) (t₀ : ServerTime) (ls : List (DirectCall cls × ServerTime))
    (g : Pair cls) (h : Run (ReadablePairStep kind) (.init t₀) ls g) :
    ahasPending g.redis = g.memory.ahasPending ∧
      ∀ t g', ReadablePairStep kind g (.dequeue, t) g' →
        Agree.SameReply (Memory.Queue.adequeue kind t.toClockTime g.memory).1 (adequeue kind t g.redis).1 ∧
          ∀ id ∈ (adequeue kind t g.redis).1, (g'.redis.records.get? id).isSome := by
  have hinv : InStep kind g := h.invariant (fun _ _ _ hi hs => hi.step hs) (.init kind t₀)
  obtain ⟨Q, hagree⟩ := hinv.agree
  refine ⟨hagree.hasPending, fun t g' hs => ?_⟩
  obtain ⟨hreply, Q', hagree'⟩ := hinv.dequeue hs
  refine ⟨hreply, fun id hid => ?_⟩
  rw [hs.eq]
  exact hagree'.isSome_record rfl hreply hid

/-- Two entries are scheduled for one instant, and the later one of greater priority leaves both queues first. -/
theorem backends_agree_two :
    let t : ServerTime := .ofSeconds 1000 ServerTime.second_1000
    let t' : ServerTime := .ofSeconds 2000 ServerTime.second_2000
    let e : QueueEntry .base := { QueueEntry.plain (.ofLast 2) .null with priority := 5 }
    let g₁ := (Pair.init t).next .priority (.enqueue (.plain (.ofLast 1) .null) (some t'.toClockTime)) t
    let g₂ := g₁.next .priority (.enqueue e (some t'.toClockTime)) t
    (adequeue .priority t' g₂.redis).1 = some (.ofLast 2) ∧
      Agree.SameReply (Memory.Queue.adequeue .priority t'.toClockTime g₂.memory).1 (some (.ofLast 2)) := by
  intro t t' e g₁ g₂
  have h₁ : ReadablePairStep .priority (.init t)
      (.enqueue (.plain (.ofLast 1) .null) (some t'.toClockTime), t) g₁ := by
    refine ⟨⟨t.le_refl, ⟨rfl, by decide, ?_⟩, by decide +kernel, rfl⟩, fun h => by cases h⟩
    intro id hid
    cases hid
  have h₂ : ReadablePairStep .priority g₁ (.enqueue e (some t'.toClockTime), t) g₂ := by
    refine ⟨⟨t.le_refl, ⟨rfl, by decide, ?_⟩, by decide +kernel, rfl⟩, fun h => by cases h⟩
    intro id hid
    obtain rfl := List.mem_singleton.mp hid
    decide
  have h₃ : ReadablePairStep .priority g₂ (.dequeue, t') (g₂.next .priority .dequeue t') :=
    ⟨⟨by decide, trivial, by decide +kernel, rfl⟩, fun _ e he => by revert e; decide +kernel⟩
  have hreply : (adequeue .priority t' g₂.redis).1 = some (.ofLast 2) := by decide +kernel
  have hsame := ((backends_agree _ _ _ _ (.cons h₁ (.cons h₂ (.nil _)))).2 _ _ h₃).1
  rw [hreply] at hsame
  exact ⟨hreply, hsame⟩

/-- The scripts cannot read the record of the one scheduled entry: Redis drops it, memory returns it. -/
theorem backends_disagree :
    let t : ServerTime := .ofSeconds 1000 ServerTime.second_1000
    let t' : ServerTime := .ofSeconds 2000 ServerTime.second_2000
    let e : QueueEntry .base := .plain (.ofLast 1) (.str .highSurrogate)
    let g := (Pair.init t).next .fifo (.enqueue e (some t'.toClockTime)) t
    Run (PairStep .fifo) (.init t) [(.enqueue e (some t'.toClockTime), t)] g ∧
      PairStep .fifo g (.dequeue, t') (g.next .fifo .dequeue t') ∧
      (Memory.Queue.adequeue .fifo t'.toClockTime g.memory).1 = .ok e ∧ (adequeue .fifo t' g.redis).1 = none := by
  intro t t' e g
  have h₁ : PairStep .fifo (.init t) (.enqueue e (some t'.toClockTime), t) g := by
    refine ⟨t.le_refl, ⟨rfl, by decide, ?_⟩, by decide +kernel, rfl⟩
    intro id hid
    cases hid
  have h₂ : PairStep .fifo g (.dequeue, t') (g.next .fifo .dequeue t') := ⟨by decide, trivial, by decide +kernel, rfl⟩
  exact ⟨.cons h₁ (.nil _), h₂, rfl, by decide +kernel⟩

end DjangoQueues
