import DjangoQueues.Memory.Queue
import DjangoQueues.Redis.Priority

/-! The memory and the Redis queues side by side. Both promote the same scheduled entry, pop
the same end of the pending list, and serve priorities in the same order: the binary heap and
the packed scores both keep one queue of stamped priorities. -/

namespace DjangoQueues

open Redis (QueueKind Store)

variable {cls : EntryClass}

/-! ## Scheduled groups -/

/-- The scheduled entries of both sides, in the order of their ids. -/
structure SameSchedule (d : Dict EntryId ClockTime) (z : SortedSet EntryId) : Prop where
  score : ∀ id, z.score? id = (d.get? id).map fun a => fl a.totalMicroseconds
  sorted : d.keys.Pairwise (· < ·)

namespace SameSchedule

variable {s : Memory.State cls} {z : SortedSet EntryId} {t : ServerTime}

theorem mem_due (h : SameSchedule s.scheduled z) (p : EntryId × ClockTime) :
    p ∈ s.scheduled.items.filter (·.2 ≤ t.toClockTime) →
      z.score? p.1 = some (fl p.2.totalMicroseconds) ∧ p.2 ≤ t.toClockTime := by
  intro hp
  obtain ⟨hmem, hle⟩ := List.mem_filter.mp hp
  rw [h.score, Dict.get?_eq_some.mpr hmem]
  exact ⟨rfl, by simpa using hle⟩

theorem candidates_eq_nil (h : SameSchedule s.scheduled z) (hnone : (z.upTo t.nowUs).head? = none) :
    s.candidates t.toClockTime = [] := by
  have hdue : s.scheduled.items.filter (·.2 ≤ t.toClockTime) = [] := by
    rw [List.eq_nil_iff_forall_not_mem]
    intro p hp
    obtain ⟨hscore, hle⟩ := h.mem_due p hp
    have hin : (fl p.2.totalMicroseconds, p.1) ∈ z.upTo t.nowUs :=
      SortedSet.mem_upTo.mpr ⟨hscore, (fl_le_nowUs_iff _ _).mpr hle⟩
    rw [List.head?_eq_none_iff.mp hnone] at hin
    cases hin
  unfold Memory.State.candidates
  rw [hdue]
  rfl

/-- The head of the due members has the score of the earliest instant. -/
theorem exists_earliest (h : SameSchedule s.scheduled z) {x : ℚ} {i : EntryId}
    (hhead : (z.upTo t.nowUs).head? = some (x, i)) :
    ∃ m : ClockTime, ((s.scheduled.items.filter (·.2 ≤ t.toClockTime)).map Prod.snd).min? = some m ∧
      m ≤ t.toClockTime ∧ x = m.totalMicroseconds := by
  have hin : (x, i) ∈ z.upTo t.nowUs := List.mem_of_mem_head? hhead
  obtain ⟨hscore, hle⟩ := SortedSet.mem_upTo.mp hin
  rw [h.score, Option.map_eq_some_iff] at hscore
  obtain ⟨a, ha, rfl⟩ := hscore
  have hle' := (fl_le_nowUs_iff a t).mp hle
  have hdue : (i, a) ∈ s.scheduled.items.filter (·.2 ≤ t.toClockTime) :=
    List.mem_filter.mpr ⟨Dict.get?_eq_some.mp ha, by simpa using hle'⟩
  have hsnd : a ∈ (s.scheduled.items.filter (·.2 ≤ t.toClockTime)).map Prod.snd :=
    List.mem_map.mpr ⟨_, hdue, rfl⟩
  cases hmin : ((s.scheduled.items.filter (·.2 ≤ t.toClockTime)).map Prod.snd).min? with
  | none =>
    rw [List.min?_eq_none_iff.mp hmin] at hsnd
    cases hsnd
  | some m =>
    obtain ⟨hm, hmin'⟩ := List.min?_eq_some_iff.mp hmin
    obtain ⟨⟨j, m'⟩, hj, rfl⟩ := List.mem_map.mp hm
    obtain ⟨hjscore, hjle⟩ := h.mem_due _ hj
    have hjin : (fl m'.totalMicroseconds, j) ∈ z.upTo t.nowUs :=
      SortedSet.mem_upTo.mpr ⟨hjscore, (fl_le_nowUs_iff _ _).mpr hjle⟩
    have hfirst : fl a.totalMicroseconds ≤ fl m'.totalMicroseconds := by
      rcases SortedSet.scoreLE_of_head?_upTo hhead hjin with hlt | ⟨heq, -⟩
      · exact hlt.le
      · exact heq.le
    have hlt : ∀ b : ClockTime, b ≤ t.toClockTime → fl b.totalMicroseconds = b.totalMicroseconds := fun b hb =>
      fl_natCast ((ClockTime.le_iff_totalMicroseconds_le.mp hb).trans_lt t.total_lt_exact)
    refine ⟨m', rfl, hjle, ?_⟩
    rw [hlt a hle'] at hfirst ⊢
    rw [hlt m' hjle] at hfirst
    have hma := ClockTime.le_iff_totalMicroseconds_le.mp (hmin' a hsnd)
    exact le_antisymm hfirst (by exact_mod_cast hma)

/-- The provider's candidates are the script's group, in the same order. -/
theorem candidates_eq (h : SameSchedule s.scheduled z) {x : ℚ} {i : EntryId}
    (hhead : (z.upTo t.nowUs).head? = some (x, i)) :
    s.candidates t.toClockTime = z.withScore x ∧ z.withScore x ≠ [] := by
  obtain ⟨m, hmin, hmle, rfl⟩ := h.exists_earliest hhead
  have hmlt := (ClockTime.le_iff_totalMicroseconds_le.mp hmle).trans_lt t.total_lt_exact
  have hcand : s.candidates t.toClockTime =
      ((s.scheduled.items.filter (·.2 ≤ t.toClockTime)).filter (·.2 = m)).map Prod.fst := by
    unfold Memory.State.candidates
    simp only [hmin]
  have hsub : (s.candidates t.toClockTime).Sublist s.scheduled.keys := by
    rw [hcand]
    exact (List.filter_sublist.trans List.filter_sublist).map _
  have hmem (j : EntryId) : j ∈ s.candidates t.toClockTime ↔ j ∈ z.withScore m.totalMicroseconds := by
    rw [hcand, SortedSet.mem_withScore, h.score, Option.map_eq_some_iff]
    simp only [List.mem_map, List.mem_filter, decide_eq_true_eq, Prod.exists, exists_and_right,
      exists_eq_right]
    constructor
    · intro hin
      exact ⟨m, Dict.get?_eq_some.mpr hin.1, fl_natCast hmlt⟩
    · rintro ⟨b, hb, hfl⟩
      obtain rfl : b = m := ClockTime.totalMicroseconds_injective ((fl_natCast_eq_iff hmlt).mp hfl)
      exact ⟨Dict.get?_eq_some.mp hb, hmle⟩
  refine ⟨?_, ?_⟩
  · have hsorted := h.sorted.sublist hsub
    have hperm := (List.perm_ext_iff_of_nodup (hsorted.imp fun hlt => hlt.ne)
      (z.nodup_withScore m.totalMicroseconds)).mpr hmem
    exact hperm.eq_of_pairwise' (hsorted.imp le_of_lt) ((z.withScore_sorted _).imp le_of_lt)
  · have hin := SortedSet.mem_upTo.mp (List.mem_of_mem_head? hhead)
    exact List.ne_nil_of_mem (SortedSet.mem_withScore.mpr hin.1)

variable {d : Dict EntryId ClockTime}

theorem erase (h : SameSchedule d z) (id : EntryId) : SameSchedule (d.erase id) (z.rem id) := by
  refine ⟨fun e => ?_, h.sorted.sublist (d.keys_erase_sublist id)⟩
  rw [SortedSet.score?_rem, Dict.get?_erase]
  split_ifs
  · rfl
  · exact h.score e

theorem set (h : SameSchedule d z) {id : EntryId} (hlt : ∀ e ∈ d.keys, e < id) (a : ClockTime) :
    SameSchedule (d.set id a) (z.add id (fl a.totalMicroseconds)) := by
  refine ⟨fun e => ?_, ?_⟩
  · rw [SortedSet.score?_add, Dict.get?_set]
    split_ifs
    · rfl
    · exact h.score e
  · have hnone : d.get? id = none := Dict.get?_eq_none.mpr fun hin => lt_irrefl _ (hlt id hin)
    rw [Dict.keys_set_of_get?_eq_none hnone, List.pairwise_append]
    exact ⟨h.sorted, List.pairwise_singleton _ _, fun e he b hb => List.mem_singleton.mp hb ▸ hlt e he⟩

end SameSchedule

/-! ## The two states -/

open Redis in
/-- A memory entry and a stored record that dispatch reads alike, if the scripts can read the record. -/
def SameRecord : Option (QueueEntry cls) → Option Json → Prop
  | none, none => True
  | some e, some raw => recordStatus (some raw) = some e.status.value ∧
      (Cjson.Accepts raw → recordPriority (some raw) = e.priority)
  | _, _ => False

open Redis in
/-- A memory state and a store that hold the same queue, with the stamped priorities both keep. -/
structure Agree (m : Memory.State cls) (s : Store) (Q : StampedQueue EntryId) : Prop where
  records : ∀ id, SameRecord (m.entries.get? id) (s.records.get? id)
  entryId : ∀ {id e}, m.entries.get? id = some e → e.id = id
  bounded : ∀ {id e}, m.entries.get? id = some e → |e.priority| ≤ maxPriorityMagnitude
  pending : s.pending = m.pending
  schedule : SameSchedule m.scheduled s.scheduled
  queued : ∀ {id}, (m.scheduled.get? id).isSome → m.isQueued id
  delayed : s.delayed = .empty
  heap : ∀ x : ℤ × ℕ × EntryId, x ∈ m.pendingPriority ↔ Q.entries x.2.2 = some (-x.1, x.2.1)
  heap_nodup : m.pendingPriority.Nodup
  count : Q.count = m.pendingPrioritySequence
  priority : PriorityInv s Q
  once : ∀ id, s.places id ≤ 1
  known : ∀ {id}, 0 < s.places id → (m.entries.get? id).isSome

namespace Agree

open Redis

variable {m : Memory.State cls} {s : Store} {Q : StampedQueue EntryId} {id : EntryId} {t : ServerTime}

theorem empty : Agree (.empty : Memory.State cls) .empty .empty where
  records _ := trivial
  entryId h := by cases h
  bounded h := by cases h
  pending := rfl
  schedule := ⟨fun _ => rfl, List.Pairwise.nil⟩
  queued h := by cases h
  delayed := rfl
  heap x := by simp [Memory.State.empty, StampedQueue.empty]
  heap_nodup := List.nodup_nil
  count := rfl
  priority := .empty
  once _ := Nat.zero_le 1
  known h := absurd h (lt_irrefl 0)

theorem unschedule (h : Agree m s Q) (id : EntryId) :
    Agree (m.adiscardScheduled id) { s with scheduled := s.scheduled.rem id } Q where
  records := h.records
  entryId := h.entryId
  bounded := h.bounded
  pending := h.pending
  schedule := h.schedule.erase id
  queued {e} he := by
    simp only [Memory.State.adiscardScheduled, Dict.get?_erase] at he
    split_ifs at he
    · cases he
    · exact h.queued he
  delayed := h.delayed
  heap := h.heap
  heap_nodup := h.heap_nodup
  count := h.count
  priority := h.priority.congr ⟨rfl, rfl⟩
  once e := by
    refine le_trans ?_ (h.once e)
    simp only [Store.places, mult_rem]
    split_ifs <;> omega
  known {e} he := by
    refine h.known (lt_of_lt_of_le he ?_)
    simp only [Store.places, mult_rem]
    split_ifs <;> omega

theorem pushPending (h : Agree m s Q) (hp : s.places id = 0) (he : (m.entries.get? id).isSome) :
    Agree (m.apush id) { s with pending := s.pending ++ [id] } Q := by
  have hplaces (e : EntryId) : Store.places { s with pending := s.pending ++ [id] } e =
      s.places e + if e = id then 1 else 0 := (enqueued_pending s id .null).places hp e
  exact
    { h with
      pending := by rw [Memory.State.apush, h.pending]
      priority := h.priority.congr ⟨rfl, rfl⟩
      once := fun e => by
        rw [hplaces]
        split_ifs with heq
        · rw [heq, hp]
        · exact h.once e
      known := fun {e} hpos => by
        rw [hplaces] at hpos
        split_ifs at hpos with heq
        · rw [heq]
          exact he
        · exact h.known hpos }

theorem schedule_add (h : Agree m s Q) (hp : s.places id = 0) (hq : m.isQueued id)
    (hlt : ∀ e ∈ m.scheduled.keys, e < id) (a : ClockTime) :
    Agree (m.aschedule id a) { s with scheduled := s.scheduled.add id (fl a.totalMicroseconds) } Q := by
  have hplaces (e : EntryId) :
      Store.places { s with scheduled := s.scheduled.add id (fl a.totalMicroseconds) } e =
        s.places e + if e = id then 1 else 0 := (enqueued_scheduled s id .null _).places hp e
  have hentry : (m.entries.get? id).isSome := by
    unfold Memory.State.isQueued at hq
    cases hg : m.entries.get? id with
    | none => simp [hg] at hq
    | some e => rfl
  exact
    { h with
      schedule := h.schedule.set hlt a
      queued := fun {e} he => by
        simp only [Memory.State.aschedule, Dict.get?_set] at he
        split_ifs at he with heq
        · rw [heq]
          exact hq
        · exact h.queued he
      priority := h.priority.congr ⟨rfl, rfl⟩
      once := fun e => by
        rw [hplaces]
        split_ifs with heq
        · rw [heq, hp]
        · exact h.once e
      known := fun {e} hpos => by
        rw [hplaces] at hpos
        split_ifs at hpos with heq
        · rw [heq]
          exact hentry
        · exact h.known hpos }

/-- An id outside the priority set is outside the observed queue. -/
theorem entries_eq_none (h : Agree m s Q) (hp : s.places id = 0) : Q.entries id = none :=
  h.priority.packs.entries_eq_none.mpr (none_of_places hp).2.2.1

/-- Fewer than `2 ^ 32` pushes since the last reset leave room for one more. -/
theorem pushPriority (h : Agree m s Q) (hp : s.places id = 0) (he : (m.entries.get? id).isSome) {p : ℤ}
    (hbound : |p| ≤ maxPriorityMagnitude) (hroom : s.sequence.getD 0 + 1 < 2 ^ 32) :
    Agree (m.apushPriority id p) (Library.pushPriority (fl (p * prioritySequenceSpace)) id s) (Q.push id p) := by
  have hplaces (e : EntryId) := Library.places_pushPriority (fl (p * prioritySequenceSpace)) id e
    (none_of_places hp).2.2.1
  have hnone := h.entries_eq_none hp
  have hallowed : (PriorityOp.push id p).Allowed s Q := by
    refine ⟨⟨p, rfl, hbound⟩, fun b q n _ hb => ?_⟩
    have hrecent := h.priority.packs.recent hb
    have hle := h.priority.packs.le
    omega
  have hheadroom : (PriorityOp.push id p).Headroom s Q := by
    refine ⟨fl_natCast (hroom.trans (by norm_num)), ?_⟩
    have hlow : -100000 ≤ p := (abs_le.mp hbound).1
    have hint : ((s.sequence.getD 0 + 1 : ℕ) : ℤ) < 2 ^ 53 + p * prioritySequenceSpace := by
      unfold prioritySequenceSpace
      omega
    exact_mod_cast hint
  have hinv := h.priority.apply _ hallowed hheadroom
  rw [PriorityOp.observe, Int.floor_intCast] at hinv
  exact
    { records := h.records
      entryId := h.entryId
      bounded := h.bounded
      pending := h.pending
      schedule := h.schedule
      queued := h.queued
      delayed := h.delayed
      heap := fun x => by
        obtain ⟨q, n, e⟩ := x
        rw [StampedQueue.entries_push, Memory.State.apushPriority, List.mem_append, List.mem_singleton, h.heap]
        split_ifs with heq
        · have heq' : e = id := heq
          subst heq'
          simp only [hnone, h.count, Prod.mk.injEq, Option.some.injEq, reduceCtorEq, false_or]
          constructor
          · rintro ⟨rfl, rfl, -⟩
            exact ⟨(neg_neg p).symm, rfl⟩
          · rintro ⟨hpq, rfl⟩
            exact ⟨by omega, rfl, trivial⟩
        · have heq' : e ≠ id := heq
          simp [heq']
      heap_nodup := by
        refine List.nodup_append.mpr ⟨h.heap_nodup, List.nodup_singleton _, ?_⟩
        rintro x hx y hy rfl
        obtain rfl := List.mem_singleton.mp hy
        rw [h.heap] at hx
        simp [hnone] at hx
      count := congrArg (· + 1) h.count
      priority := hinv
      once := fun e => by
        rw [hplaces]
        split_ifs with heq
        · rw [heq, hp]
        · exact h.once e
      known := fun {e} hpos => by
        rw [hplaces] at hpos
        split_ifs at hpos with heq
        · rw [heq]
          exact he
        · exact h.known hpos }

theorem recordPriority_toDict {e : QueueEntry cls} (hd : e.Decodable) (hb : |e.priority| ≤ maxPriorityMagnitude) :
    recordPriority (some e.toDict) = e.priority := by
  have hlt : |e.priority| < 2 ^ 53 := lt_of_le_of_lt hb (by decide)
  have hdouble : IsDouble (e.priority : ℚ) := by
    refine ⟨fl_intCast hlt, lt_overflow ?_⟩
    exact_mod_cast hlt
  have hfield : (Cjson.table e.toDict).field? "priority" = some (.num (.ofRat e.priority)) := rfl
  simp only [recordPriority, Option.bind_some, Cjson.decode_of_accepts hd, hfield, Double.ofRat_of_isDouble hdouble, tonumber,
    Option.getD_some]

/-- Both sides store an entry; what dispatch does not read may differ. -/
theorem store (h : Agree m s Q) (e e' : QueueEntry cls) (hst : e'.status = e.status)
    (hprio : e'.priority = e.priority) (hbound : |e.priority| ≤ maxPriorityMagnitude)
    (hq : (m.scheduled.get? e.id).isSome → e.status = .queued) :
    Agree (m.astore e) { s with records := s.records.set e.id e'.toDict } Q where
  records id := by
    simp only [Memory.State.astore, Dict.get?_set]
    split_ifs
    · refine ⟨by rw [recordStatus_toDict, hst], fun hd => ?_⟩
      rw [recordPriority_toDict hd (hprio ▸ hbound), hprio]
    · exact h.records id
  entryId {id x} hx := by
    simp only [Memory.State.astore, Dict.get?_set] at hx
    split_ifs at hx with heq
    · rw [← Option.some.inj hx, heq]
    · exact h.entryId hx
  bounded {id x} hx := by
    simp only [Memory.State.astore, Dict.get?_set] at hx
    split_ifs at hx with heq
    · rw [← Option.some.inj hx]
      exact hbound
    · exact h.bounded hx
  pending := h.pending
  schedule := h.schedule
  queued {id} hid := by
    have hold := h.queued hid
    unfold Memory.State.isQueued at hold ⊢
    simp only [Memory.State.astore, Dict.get?_set]
    split_ifs with heq
    · simpa using hq (heq ▸ hid)
    · exact hold
  delayed := h.delayed
  heap := h.heap
  heap_nodup := h.heap_nodup
  count := h.count
  priority := h.priority.congr ⟨rfl, rfl⟩
  once := h.once
  known {id} hpos := by
    simp only [Memory.State.astore, Dict.get?_set]
    split_ifs
    · rfl
    · exact h.known hpos

/-- Both pending lists lose the same ids. -/
theorem withPending (h : Agree m s Q) {l : List EntryId} (hl : ∀ e, l.count e ≤ m.pending.count e) :
    Agree { m with pending := l } { s with pending := l } Q := by
  have hplaces (e : EntryId) : Store.places { s with pending := l } e ≤ s.places e := by
    have := hl e
    simp only [Store.places, h.pending]
    omega
  exact
    { h with
      pending := rfl
      priority := h.priority.congr ⟨rfl, rfl⟩
      once := fun e => (hplaces e).trans (h.once e)
      known := fun {e} hpos => h.known (lt_of_lt_of_le hpos (hplaces e)) }

theorem nodup_pending (h : Agree m s Q) : m.pending.Nodup := by
  rw [List.nodup_iff_count_le_one]
  intro e
  have := h.once e
  simp only [Store.places, h.pending] at this
  omega

theorem dropPending (h : Agree m s Q) (id : EntryId) :
    Agree (m.adiscard id) { s with pending := s.pending.filter (· ≠ id) } Q := by
  have hfilter : s.pending.filter (· ≠ id) = m.pending.erase id := by
    rw [h.pending, h.nodup_pending.erase_eq_filter]
    congr 1
    funext e
    by_cases he : e = id <;> simp [he]
  rw [hfilter]
  exact h.withPending fun e => List.Sublist.count_le e List.erase_sublist

theorem dropPriority (h : Agree m s Q) (id : EntryId) :
    Agree (m.adiscardPriority id) (Library.discardPriority id s) (Q.drop id) := by
  have hinv : PriorityInv (Library.discardPriority id s) (Q.drop id) :=
    h.priority.apply (.drop id) trivial trivial
  have hplaces (e : EntryId) : (Library.discardPriority id s).places e ≤ s.places e := by
    rw [Library.discardPriority, Library.places_resetSequence]
    simp only [Store.places, mult_rem]
    split_ifs <;> omega
  have heq : Library.discardPriority id s = { s with
      priority := s.priority.rem id, sequence := (Library.discardPriority id s).sequence } :=
    Library.resetSequence_eq _
  rw [heq] at hinv hplaces ⊢
  exact
    { records := h.records
      entryId := h.entryId
      bounded := h.bounded
      pending := h.pending
      schedule := h.schedule
      queued := h.queued
      delayed := h.delayed
      heap := fun x => by
        simp only [Memory.State.adiscardPriority, List.mem_filter, h.heap, StampedQueue.entries_drop]
        split_ifs with hx <;> simp [hx]
      heap_nodup := h.heap_nodup.filter _
      count := h.count
      priority := hinv
      once := fun e => (hplaces e).trans (h.once e)
      known := fun {e} hpos => h.known (lt_of_lt_of_le hpos (hplaces e)) }

end Agree

end DjangoQueues
