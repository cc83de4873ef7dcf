import DjangoQueues.Agreement.State

/-! One step of the two queues: each operation keeps them in agreement, and a dequeue answers
the same on both sides. -/

namespace DjangoQueues

open Redis (QueueKind Store)

variable {cls : EntryClass}

namespace Agree

open Redis

variable {m : Memory.State cls} {s : Store} {Q : StampedQueue EntryId} {id : EntryId} {t : ServerTime}

/-! ## Dequeue -/

/-- The smallest item of the heap is what the queue serves. -/
theorem serves_leastItem (h : Agree m s Q) :
    Q.Serves ((Memory.State.leastItem m.pendingPriority).map fun x => x.2.2) := by
  cases hl : Memory.State.leastItem m.pendingPriority with
  | none =>
    intro e
    cases he : Q.entries e with
    | none => rfl
    | some pn =>
      obtain ⟨p, n⟩ := pn
      have hin : (-p, n, e) ∈ m.pendingPriority := (h.heap _).mpr (by rw [neg_neg]; exact he)
      rw [Memory.State.leastItem_eq_none.mp hl] at hin
      cases hin
  | some x =>
    obtain ⟨q, n, e⟩ := x
    obtain ⟨hin, hmin⟩ := Memory.State.leastItem_le hl
    refine ⟨-q, n, (h.heap _).mp hin, fun b p k hb => ?_⟩
    have hle := hmin (-p, k, b) ((h.heap _).mpr (by rw [neg_neg]; exact hb))
    simp only [Memory.State.itemLE, decide_eq_true_eq] at hle
    omega

/-- Taking the smallest item removes the one item of its id. -/
theorem erase_leastItem (h : Agree m s Q) {x : ℤ × ℕ × EntryId} (hx : x ∈ m.pendingPriority) :
    { m with pendingPriority := m.pendingPriority.erase x } = m.adiscardPriority x.2.2 := by
  have hfilter : m.pendingPriority.erase x = m.pendingPriority.filter (·.2.2 ≠ x.2.2) := by
    rw [h.heap_nodup.erase_eq_filter]
    refine List.filter_congr fun y hy => ?_
    have hiff : y = x ↔ y.2.2 = x.2.2 := by
      refine ⟨fun heq => heq ▸ rfl, fun heq => ?_⟩
      have h₁ := (h.heap y).mp hy
      have h₂ := (h.heap x).mp hx
      rw [heq, h₂, Option.some.injEq, Prod.mk.injEq] at h₁
      obtain ⟨a, b, c⟩ := x
      obtain ⟨a', b', c'⟩ := y
      simp_all
    by_cases hyx : y = x
    · simp [hyx]
    · simp [hyx, hiff.not.mp hyx]
  rw [hfilter]
  rfl

/-- What a dequeue answers on the two sides. -/
def SameReply (r : Except Memory.QueueError (QueueEntry cls)) (o : Option EntryId) : Prop :=
  match r, o with
  | .ok e, some id => e.id = id
  | .error .empty, none => True
  | _, _ => False

theorem afind (h : Agree m s Q) (he : (m.entries.get? id).isSome) : SameReply (m.afind id) (some id) := by
  obtain ⟨e, hg⟩ := Option.isSome_iff_exists.mp he
  unfold Memory.State.afind
  rw [hg]
  exact h.entryId hg

theorem popPriority (h : Agree m s Q) :
    SameReply m.apopPriority.1 (Library.popPriority s).1 ∧
      ∃ Q', Agree m.apopPriority.2 (Library.popPriority s).2 Q' := by
  have hserves : Q.Serves (s.priority.top?.map Prod.snd) := h.priority.packs.serves_top
  have heq := hserves.unique h.serves_leastItem
  unfold Memory.State.apopPriority Library.popPriority
  rcases htop : s.priority.top? with _ | ⟨x, id⟩
  · rw [htop] at heq
    rw [Option.map_eq_none_iff.mp heq.symm]
    exact ⟨trivial, Q, h⟩
  · rw [htop] at heq
    obtain ⟨item, hitem, hid⟩ := Option.map_eq_some_iff.mp heq.symm
    obtain rfl : item.2.2 = id := hid
    have hscore := (SortedSet.top?_eq_some htop).1
    have hpos : 0 < s.places item.2.2 := by
      have hone : mult s.priority item.2.2 = 1 := mult_eq_one hscore
      unfold Store.places
      omega
    rw [hitem]
    dsimp only
    rw [h.erase_leastItem (Memory.State.leastItem_le hitem).1]
    exact ⟨h.afind (h.known hpos), _, h.dropPriority _⟩

theorem popPending (h : Agree m s Q) (stack : Bool) :
    SameReply (m.apop stack).1 (Library.popPending stack s).1 ∧
      Agree (m.apop stack).2 (Library.popPending stack s).2 Q := by
  -- both sides take the same end of the same list
  have hget : ∃ o l, m.getPending stack = (o, { m with pending := l }) ∧
      Library.popPending stack s = (o, { s with pending := l }) ∧ (∀ e, l.count e ≤ m.pending.count e) ∧
      ∀ id ∈ o, id ∈ m.pending := by
    unfold Memory.State.getPending Library.popPending
    rw [h.pending]
    cases stack with
    | false =>
      exact ⟨_, _, rfl, rfl, fun e => List.Sublist.count_le e (List.tail_sublist _),
        fun id hid => List.mem_of_mem_head? hid⟩
    | true =>
      exact ⟨_, _, rfl, rfl, fun e => List.Sublist.count_le e (List.dropLast_sublist _),
        fun id hid => List.mem_of_getLast? hid⟩
  obtain ⟨o, l, hm, hs, hl, hmem⟩ := hget
  unfold Memory.State.apop
  rw [hm, hs]
  cases o with
  | none => exact ⟨trivial, h.withPending hl⟩
  | some id =>
    have hpos : 0 < s.places id := by
      have := List.count_pos_iff.mpr (hmem id rfl)
      simp only [Store.places, h.pending]
      omega
    exact ⟨(h.withPending hl).afind (h.known hpos), h.withPending hl⟩

/-! ## Promotion -/

theorem scheduled_of_candidate {now : ClockTime} (hid : id ∈ m.candidates now) :
    (m.scheduled.get? id).isSome := by
  have hkeys : id ∈ m.scheduled.keys := by
    unfold Memory.State.candidates at hid
    dsimp only at hid
    split at hid
    · cases hid
    · exact ((List.filter_sublist.trans List.filter_sublist).map _).subset hid
  rw [Option.isSome_iff_ne_none]
  exact fun hnone => Dict.get?_eq_none.mp hnone hkeys

theorem exists_choice {now : ClockTime} (priority : Bool) (hne : m.candidates now ≠ []) :
    ∃ id, (if priority then m.greatest (m.candidates now) else (m.candidates now).head?) = some id := by
  obtain ⟨id, ids, hc⟩ := List.exists_cons_of_ne_nil hne
  rw [hc]
  cases priority with
  | false => exact ⟨id, rfl⟩
  | true => exact ⟨_, rfl⟩

/-- While every scheduled entry is queued, the first group decides. -/
theorem popNextDueScheduled (h : Agree m s Q) (priority : Bool) (now : ClockTime) :
    m.popNextDueScheduled priority now =
      match if priority then m.greatest (m.candidates now) else (m.candidates now).head? with
      | none => (none, m)
      | some id => (some id, m.adiscardScheduled id) := by
  unfold Memory.State.popNextDueScheduled Memory.State.popNextDueScheduledLoop
  by_cases hc : m.candidates now = []
  · rw [if_pos hc, hc]
    cases priority <;> rfl
  · have hqueued : ∀ e ∈ m.candidates now, m.isQueued e := fun e he => h.queued (scheduled_of_candidate he)
    have hkeep : (m.candidates now).filter m.isQueued = m.candidates now := List.filter_eq_self.mpr hqueued
    have hdrop : (m.candidates now).filter (! m.isQueued ·) = [] := by
      rw [List.filter_eq_nil_iff]
      intro e he
      simp [hqueued e he]
    obtain ⟨id, hid⟩ := exists_choice priority hc
    simp only [if_neg hc, hkeep, hdrop, List.foldl_nil, hid]

theorem statusText_of_isQueued (h : Agree m s Q) (hq : m.isQueued id) (hd : ¬s.Refused id) :
    statusText (s.records.get? id) = some "queued" := by
  rw [Store.statusText_eq hd]
  have hrec := h.records id
  unfold Memory.State.isQueued at hq
  cases hg : m.entries.get? id with
  | none => simp [hg] at hq
  | some e =>
    have hst : e.status = .queued := by simpa [hg] using hq
    cases hr : s.records.get? id with
    | none => simp [hg, hr, SameRecord] at hrec
    | some raw =>
      rw [hg, hr] at hrec
      rw [hrec.1, hst]
      rfl

/-- An id taken off the schedule is in no place. -/
theorem places_unscheduled (h : Agree m s Q) (hid : (m.scheduled.get? id).isSome) :
    Store.places { s with scheduled := s.scheduled.rem id } id = 0 ∧ (m.entries.get? id).isSome := by
  obtain ⟨a, ha⟩ := Option.isSome_iff_exists.mp hid
  have hscore : s.scheduled.score? id = some (fl a.totalMicroseconds) := by rw [h.schedule.score, ha]; rfl
  have hone := mult_eq_one hscore
  have hle := h.once id
  unfold Store.places at hle
  refine ⟨?_, h.known ?_⟩
  · simp only [Store.places, mult_rem, if_true]
    omega
  · unfold Store.places
    omega

theorem promote (h : Agree m s Q) {t : ServerTime}
    (hd : ∀ e ∈ Library.passedBefore s (Library.dueGroup t.nowUs s), ¬s.Refused e) :
    Agree (m.apromoteScheduled t.toClockTime) (Library.promoteOneScheduled t.nowUs s) Q := by
  rw [Library.promoteOneScheduled_eq]
  unfold Library.dueGroup at hd ⊢
  unfold Memory.State.apromoteScheduled
  rw [h.popNextDueScheduled]
  rcases hhead : (s.scheduled.upTo t.nowUs).head? with _ | ⟨x, i⟩
  · rw [h.schedule.candidates_eq_nil hhead]
    exact h
  · rw [hhead] at hd
    obtain ⟨hc, hne⟩ := h.schedule.candidates_eq hhead
    obtain ⟨id, ids, hids⟩ := List.exists_cons_of_ne_nil hne
    have hid : (m.scheduled.get? id).isSome := scheduled_of_candidate (by rw [hc, hids]; exact List.mem_cons_self ..)
    obtain ⟨hplace, hentry⟩ := h.places_unscheduled hid
    have hread : ¬s.Refused id := fun hr => by
      refine hd id ?_ hr
      obtain ⟨raw, hraw, hrefused⟩ := hr
      have hnone : statusText (s.records.get? id) = none := by
        rw [hraw, statusText, Option.bind_some, Cjson.decode_eq_none.mpr hrefused]
        rfl
      simp only [hids, Library.passedBefore]
      rw [List.takeWhile_cons_of_pos (by simp [hnone])]
      exact List.mem_cons_self ..
    rw [hc]
    simp only [hids, Bool.false_eq_true, if_false, List.head?_cons, Library.promoteFirstQueued,
      h.statusText_of_isQueued (h.queued hid) hread, if_true]
    exact (h.unschedule id).pushPending hplace hentry

theorem recordPriority_eq (h : Agree m s Q) (hid : (m.entries.get? id).isSome) (hd : ¬s.Refused id) :
    recordPriority (s.records.get? id) = m.priorityOf id := by
  have hrec := h.records id
  obtain ⟨e, he⟩ := Option.isSome_iff_exists.mp hid
  cases hr : s.records.get? id with
  | none => simp [he, hr, SameRecord] at hrec
  | some raw =>
    rw [he, hr] at hrec
    rw [hrec.2 (not_not.mp fun hraw => hd ⟨raw, hr, hraw⟩), Memory.State.priorityOf, he]
    rfl

/-- The selection loop keeps the first of the greatest, as `max` does. -/
theorem selectScheduled_eq (h : Agree m s Q) (ids : List EntryId) (best : EntryId)
    (hids : ∀ e ∈ ids, (m.scheduled.get? e).isSome) (hd : ∀ e ∈ ids, ¬s.Refused e) :
    Library.selectScheduled ids (some (best, (m.priorityOf best : ℚ))) s =
      (some (ids.foldl (fun best id => if m.priorityOf best < m.priorityOf id then id else best) best,
        (m.priorityOf (ids.foldl (fun best id => if m.priorityOf best < m.priorityOf id then id else best) best) : ℚ)),
        s) := by
  induction ids generalizing best with
  | nil => rfl
  | cons e ids ih =>
    rw [List.forall_mem_cons] at hids hd
    have hprio := h.recordPriority_eq (h.places_unscheduled hids.1).2 hd.1
    simp only [Library.selectScheduled, h.statusText_of_isQueued (h.queued hids.1) hd.1, if_true, hprio, Int.cast_lt,
      List.foldl_cons]
    split_ifs
    · exact ih e hids.2 hd.2
    · exact ih best hids.2 hd.2

theorem promotePriority (h : Agree m s Q) {t : ServerTime}
    (hroom : s.sequence.getD 0 + PriorityOp.pushes (promoteOps t s) < 2 ^ 32)
    (hd : ∀ e ∈ Library.dueGroup t.nowUs s, ¬s.Refused e) :
    ∃ Q', Agree (m.apromoteScheduledPriority t.toClockTime)
      (Library.promoteOneScheduledPriority prioritySequenceSpace t.nowUs s) Q' := by
  unfold Memory.State.apromoteScheduledPriority Library.promoteOneScheduledPriority
  rw [h.popNextDueScheduled]
  unfold Library.dueGroup at hd
  rcases hhead : (s.scheduled.upTo t.nowUs).head? with _ | ⟨x, i⟩
  · rw [h.schedule.candidates_eq_nil hhead]
    exact ⟨Q, h⟩
  · rw [hhead] at hd
    obtain ⟨hc, hne⟩ := h.schedule.candidates_eq hhead
    obtain ⟨e, ids, hids⟩ := List.exists_cons_of_ne_nil hne
    have hread : ∀ b ∈ e :: ids, ¬s.Refused b := fun b hb => hd b (by rw [← hids] at hb; exact hb)
    have hsched : ∀ b ∈ e :: ids, (m.scheduled.get? b).isSome := fun b hb =>
      scheduled_of_candidate (by rw [hc, hids]; exact hb)
    have hfirst := hsched e (List.mem_cons_self ..)
    set best := ids.foldl (fun best id => if m.priorityOf best < m.priorityOf id then id else best) e with hbest
    have hselect : Library.selectScheduled (e :: ids) none s = (some (best, (m.priorityOf best : ℚ)), s) := by
      have hfirstRead := hread e (List.mem_cons_self ..)
      have hprio := h.recordPriority_eq (h.places_unscheduled hfirst).2 hfirstRead
      simp only [Library.selectScheduled, h.statusText_of_isQueued (h.queued hfirst) hfirstRead, if_true, hprio]
      exact h.selectScheduled_eq ids e (fun b hb => hsched b (List.mem_cons_of_mem _ hb))
        fun b hb => hread b (List.mem_cons_of_mem _ hb)
    have hmem : best ∈ e :: ids := by
      rw [hbest]
      exact List.foldl_choice_mem (fun a b => by split_ifs <;> simp) ids e
    obtain ⟨hplace, hentry⟩ := h.places_unscheduled (hsched best hmem)
    obtain ⟨x, hx⟩ := Option.isSome_iff_exists.mp hentry
    have hbound : |m.priorityOf best| ≤ maxPriorityMagnitude := by
      rw [Memory.State.priorityOf, hx]
      exact h.bounded hx
    have hops : promoteOps t s = [.push best (m.priorityOf best)] := by
      simp only [promoteOps, hhead, hids, hselect]
    rw [hops] at hroom
    have hagree := (h.unschedule best).pushPriority hplace hentry hbound hroom
    refine ⟨Q.push best (m.priorityOf best), ?_⟩
    rw [hc]
    simp only [hids, hselect, if_true, Memory.State.greatest]
    exact hagree

/-! ## Enqueue and failure -/

/-- An id without an entry is in no place. -/
theorem places_of_fresh (h : Agree m s Q) (hnone : m.entries.get? id = none) : s.places id = 0 := by
  by_contra hne
  have hsome := h.known (Nat.pos_of_ne_zero hne)
  simp [hnone] at hsome

theorem scheduled_subset_entries (h : Agree m s Q) (hid : id ∈ m.scheduled.keys) : id ∈ m.entries.keys := by
  have hsome : (m.scheduled.get? id).isSome := by
    rw [Option.isSome_iff_ne_none]
    exact fun hnone => Dict.get?_eq_none.mp hnone hid
  have hentry := (h.places_unscheduled hsome).2
  by_contra hnot
  simp [Dict.get?_eq_none.mpr hnot] at hentry

/-- A new entry joins the pending store of its queue or, with an instant that has not come, the
schedule. -/
theorem enqueue (h : Agree m s Q) (kind : QueueKind) {e : QueueEntry cls} (a : Option ClockTime) (t : ServerTime)
    (hst : e.status = .queued) (hbound : |e.priority| ≤ maxPriorityMagnitude)
    (hfresh : ∀ id ∈ m.entries.keys, id < e.id)
    (hroom : kind = .priority →
      s.sequence.getD 0 + PriorityOp.pushes (priorityOps (.enqueue e a) t s) < 2 ^ 32) :
    ∃ Q', Agree (Memory.Queue.astoreAndPush kind e a t.toClockTime m) (astoreAndPush kind e a t s).2 Q' := by
  have hnone : m.entries.get? e.id = none := Dict.get?_eq_none.mpr fun hin => lt_irrefl _ (hfresh _ hin)
  have hp : s.places e.id = 0 := h.places_of_fresh hnone
  have hstore := h.store e e rfl rfl hbound fun _ => hst
  have hentry : ((m.astore e).entries.get? e.id).isSome := by simp [Memory.State.astore]
  have hqueued : (m.astore e).isQueued e.id := by simp [Memory.State.isQueued, Memory.State.astore, hst]
  have hkeys : ∀ b ∈ (m.astore e).scheduled.keys, b < e.id := fun b hb =>
    hfresh b (h.scheduled_subset_entries hb)
  have hallowed : priorityAllowed e.priority = true := by simpa [priorityAllowed] using hbound
  have hnotTerminated : e.status ≠ .terminated := by simp [hst]
  have hcast : fl ((e.priority * prioritySequenceSpace : ℤ) : ℚ) = fl (e.priority * prioritySequenceSpace) := by
    rw [Int.cast_mul]
  have hpending : Agree ((m.astore e).apush e.id)
      { s with records := s.records.set e.id e.toDict, pending := s.pending ++ [e.id] } Q :=
    hstore.pushPending hp hentry
  have hops (hpush : priorityOps (.enqueue e a) t s = [.push e.id e.priority]) (hk : kind = .priority) :
      s.sequence.getD 0 + 1 < 2 ^ 32 := by
    have hlt := hroom hk
    rw [hpush] at hlt
    exact hlt
  have hpriority (hlt : s.sequence.getD 0 + 1 < 2 ^ 32) : Agree ((m.astore e).apushPriority e.id e.priority)
      (Library.pushPriority (fl (e.priority * prioritySequenceSpace)) e.id
        { s with records := s.records.set e.id e.toDict }) (Q.push e.id e.priority) :=
    hstore.pushPriority hp hentry hbound hlt
  -- one side compares instants and the other their doubles
  have hlater (a : ClockTime) : t.nowUs < fl a.totalMicroseconds ↔ t.toClockTime < a := by
    rw [← not_le, fl_le_nowUs_iff, not_le]
  unfold Memory.Queue.astoreAndPush Redis.astoreAndPush
  simp only [if_neg hnotTerminated]
  cases a with
  | none =>
    cases kind with
    | priority =>
      have hpush : priorityOps (.enqueue e none) t s = [.push e.id e.priority] := by
        simp [priorityOps, hnotTerminated, hallowed]
      simp only [hallowed, if_true, Library.storeAndPushPriority, hcast]
      exact ⟨_, hpriority (hops hpush rfl)⟩
    | fifo => exact ⟨Q, hpending⟩
    | stack => exact ⟨Q, hpending⟩
  | some a =>
    by_cases hlt : t.toClockTime < a
    · have hsched := hstore.schedule_add hp hqueued hkeys a
      cases kind with
      | priority =>
        simp only [hallowed, if_true, Library.storeAvailable, if_pos hlt, if_pos ((hlater a).mpr hlt)]
        exact ⟨Q, hsched⟩
      | fifo =>
        simp only [Library.storeAvailable, if_pos hlt, if_pos ((hlater a).mpr hlt)]
        exact ⟨Q, hsched⟩
      | stack =>
        simp only [Library.storeAvailable, if_pos hlt, if_pos ((hlater a).mpr hlt)]
        exact ⟨Q, hsched⟩
    · have hlt' := mt (hlater a).mp hlt
      cases kind with
      | priority =>
        have hpush : priorityOps (.enqueue e (some a)) t s = [.push e.id e.priority] := by
          simp only [priorityOps, hnotTerminated, hallowed, not_true_eq_false, or_self, if_false, if_neg hlt']
        simp only [hallowed, if_true, Library.storeAvailable, if_neg hlt, if_neg hlt', hcast]
        exact ⟨_, hpriority (hops hpush rfl)⟩
      | fifo =>
        simp only [Library.storeAvailable, if_neg hlt, if_neg hlt', Bool.false_eq_true, if_false]
        exact ⟨Q, hpending⟩
      | stack =>
        simp only [Library.storeAvailable, if_neg hlt, if_neg hlt', Bool.false_eq_true, if_false]
        exact ⟨Q, hpending⟩

/-- The stores a queue class does not use stay empty. -/
def Unused (kind : QueueKind) (m : Memory.State cls) : Prop :=
  match kind with
  | .priority => m.pending = []
  | _ => m.pendingPriority = []

theorem fail (h : Agree m s Q) (kind : QueueKind) (hunused : Unused kind m) (e e' : QueueEntry cls)
    (hid : e'.id = e.id) (hst : e'.status = e.status) (hprio : e'.priority = e.priority)
    (hbound : |e.priority| ≤ maxPriorityMagnitude) :
    ∃ Q', Agree (Memory.Queue.astoreAndDiscard kind e m) (Library.storeAndDiscard e'.toDict e'.id s) Q' := by
  have hfree : ((m.adiscardScheduled e.id).scheduled.get? e.id).isSome → e.status = .queued := by
    simp [Memory.State.adiscardScheduled]
  have hall := (((h.unschedule e.id).store e e' hst hprio hbound hfree).dropPending e.id).dropPriority e.id
  have hmem : Memory.Queue.astoreAndDiscard kind e m =
      (((m.adiscardScheduled e.id).astore e).adiscard e.id).adiscardPriority e.id := by
    cases kind with
    | priority =>
      have hnil : m.pending = [] := hunused
      simp [Memory.Queue.astoreAndDiscard, Memory.Queue.adiscard, Memory.State.adiscardScheduled,
        Memory.State.astore, Memory.State.adiscard, Memory.State.removePending, Memory.State.adiscardPriority, hnil]
    | fifo =>
      have hnil : m.pendingPriority = [] := hunused
      simp [Memory.Queue.astoreAndDiscard, Memory.Queue.adiscard, Memory.State.adiscardScheduled,
        Memory.State.astore, Memory.State.adiscard, Memory.State.removePending, Memory.State.adiscardPriority, hnil]
    | stack =>
      have hnil : m.pendingPriority = [] := hunused
      simp [Memory.Queue.astoreAndDiscard, Memory.Queue.adiscard, Memory.State.adiscardScheduled,
        Memory.State.astore, Memory.State.adiscard, Memory.State.removePending, Memory.State.adiscardPriority, hnil]
  rw [hmem, hid]
  exact ⟨_, hall⟩

theorem dequeue (h : Agree m s Q) {kind : QueueKind} {t : ServerTime}
    (hroom : kind = .priority → s.sequence.getD 0 + PriorityOp.pushes (promoteOps t s) < 2 ^ 32)
    (hd : DueReadable kind t.nowUs s) :
    SameReply (Memory.Queue.adequeue kind t.toClockTime m).1 (adequeue kind t s).1 ∧
      ∃ Q', Agree (Memory.Queue.adequeue kind t.toClockTime m).2 (adequeue kind t s).2 Q' := by
  cases kind with
  | priority =>
    obtain ⟨Q', hprom⟩ := h.promotePriority (hroom rfl) hd
    exact hprom.popPriority
  | fifo =>
    obtain ⟨hreply, hagree⟩ := (h.promote hd).popPending false
    exact ⟨hreply, Q, hagree⟩
  | stack =>
    obtain ⟨hreply, hagree⟩ := (h.promote hd).popPending true
    exact ⟨hreply, Q, hagree⟩

theorem hasPending (h : Agree m s Q) : ahasPending s = m.ahasPending := by
  have hsched : s.scheduled.card = 0 ↔ m.scheduled.items = [] := by
    rw [SortedSet.card_eq_zero, List.eq_nil_iff_forall_not_mem]
    simp only [h.schedule.score, Option.map_eq_none_iff]
    constructor
    · intro hnone p hp
      have := hnone p.1
      rw [Dict.get?_eq_some.mpr hp] at this
      cases this
    · intro hempty e
      rw [Dict.get?_eq_none]
      intro hin
      obtain ⟨p, hp, -⟩ := List.mem_map.mp hin
      exact hempty p hp
  have hprio : s.priority.card = 0 ↔ m.pendingPriority = [] := by
    rw [SortedSet.card_eq_zero, List.eq_nil_iff_forall_not_mem]
    simp only [← h.priority.packs.entries_eq_none]
    constructor
    · intro hnone x hx
      rw [h.heap, hnone] at hx
      cases hx
    · intro hempty e
      cases he : Q.entries e with
      | none => rfl
      | some pn => exact absurd ((h.heap (-pn.1, pn.2, e)).mpr (by simpa using he)) (hempty _)
  unfold ahasPending Memory.State.ahasPending
  simp only [h.pending, h.delayed, ne_eq, hsched, hprio, List.length_eq_zero_iff]
  simp only [SortedSet.empty, SortedSet.card, List.length_nil, not_true_eq_false, false_or, Bool.decide_or]
  congr 1
  exact Bool.or_comm _ _

end Agree

end DjangoQueues
