import DjangoQueues.Agreement.Steps
import DjangoQueues.Memory.Schedule
import DjangoQueues.Redis.Delivery
import DjangoQueues.Lib.DueSchedule

/-! One promotion step of either backend, as the choice of one item from a schedule in which
members whose record is missing or not queued are not live. The scripts also drop a queued
member whose record `cjson.decode` refuses. -/

namespace DjangoQueues

namespace Redis

open Library

/-- The record says that the entry is queued. -/
def Store.queued (s : Store) (id : EntryId) : Bool := recordStatus (s.records.get? id) = some "queued"

/-- A script reads that the entry is queued. -/
def Store.readQueued (s : Store) (id : EntryId) : Bool := statusText (s.records.get? id) = some "queued"

/-- The schedule of the store. -/
def Store.schedule (s : Store) : DueSchedule EntryId ℚ ℚ where
  instant := s.scheduled.score?
  live := fun id => s.queued id
  rank := fun id => recordPriority (s.records.get? id)

/-- The record of no queued id at the earliest due instant is refused. -/
def Store.HeadReadable (s : Store) (now : ℚ) : Prop :=
  ∀ j x, s.schedule.Due now j x → (∀ i y, s.scheduled.score? i = some y → y ≤ now → x ≤ y) → ¬s.Refused j

def promote (priority : Bool) (now : ℚ) (s : Store) : Store :=
  if priority then promoteOneScheduledPriority prioritySequenceSpace now s else promoteOneScheduled now s

/-- `id`, and nothing else, has moved from the schedule to the store that is dispatched from. -/
structure Promoted (priority : Bool) (now : ℚ) (s : Store) (id : EntryId) (s' : Store) : Prop where
  chosen : s.schedule.Chosen priority now id
  taken : s.schedule.Taken now id s'.scheduled.score?
  moved : if priority then s'.pending = s.pending ∧ ∃ x, s'.priority = s.priority.add id x
    else s'.pending = s.pending ++ [id] ∧ s'.priority = s.priority

variable {s : Store} {now : ℚ} {ids : List EntryId} {id e : EntryId}

theorem queued_iff : s.queued id = true ↔ recordStatus (s.records.get? id) = some "queued" := decide_eq_true_iff

theorem readQueued_iff : s.readQueued id = true ↔ statusText (s.records.get? id) = some "queued" := decide_eq_true_iff

theorem queued_of_readQueued (h : s.readQueued id = true) : s.queued id = true :=
  queued_iff.mpr (recordStatus_of_statusText (readQueued_iff.mp h))

theorem readQueued_of_queued (h : s.queued id = true) (hread : ¬s.Refused id) : s.readQueued id = true :=
  readQueued_iff.mpr ((Store.statusText_eq hread).trans (queued_iff.mp h))

theorem not_readQueued_of_refused (h : s.Refused id) : ¬s.readQueued id = true := fun hq => by
  obtain ⟨raw, hr, hno⟩ := h
  have hst := readQueued_iff.mp hq
  rw [hr] at hst
  exact hno (accepts_of_statusText hst)

/-! ### The group of one instant -/

theorem promoteFirstQueued_kept (he : s.readQueued e = true) (hne : ids.find? s.readQueued ≠ some e) :
    (promoteFirstQueued ids s).scheduled.score? e = s.scheduled.score? e := by
  induction ids generalizing s with
  | nil => rfl
  | cons id ids ih =>
    unfold promoteFirstQueued
    split_ifs with hq
    · have hfirst : s.readQueued id = true := readQueued_iff.mpr hq
      rw [List.find?_cons_of_pos hfirst] at hne
      have hother : e ≠ id := fun heq => hne (heq ▸ rfl)
      simp [hother]
    · have hstale : ¬s.readQueued id = true := fun h => hq (readQueued_iff.mp h)
      have hother : e ≠ id := fun heq => hstale (heq ▸ he)
      rw [List.find?_cons_of_neg hstale] at hne
      have hrest := ih (s := { s with scheduled := s.scheduled.rem id }) he hne
      simpa [hother] using hrest

theorem promoteFirstQueued_found (h : ids.find? s.readQueued = some id) :
    (promoteFirstQueued ids s).pending = s.pending ++ [id] ∧
      (promoteFirstQueued ids s).scheduled.score? id = none ∧ (promoteFirstQueued ids s).priority = s.priority := by
  induction ids generalizing s with
  | nil => cases h
  | cons head ids ih =>
    unfold promoteFirstQueued
    split_ifs with hq
    · have hfirst : s.readQueued head = true := readQueued_iff.mpr hq
      rw [List.find?_cons_of_pos hfirst] at h
      obtain rfl := Option.some.inj h
      exact ⟨rfl, by simp, rfl⟩
    · have hstale : ¬s.readQueued head = true := fun h => hq (readQueued_iff.mp h)
      rw [List.find?_cons_of_neg hstale] at h
      exact ih (s := { s with scheduled := s.scheduled.rem head }) h

/-- A member that is read as queued stays on the schedule through the selection. -/
theorem selectScheduled_kept (ids : List EntryId) (he : s.readQueued e = true) (sel : Option (EntryId × ℚ)) :
    (selectScheduled ids sel s).2.scheduled.score? e = s.scheduled.score? e := by
  induction ids generalizing s sel with
  | nil => rfl
  | cons id ids ih =>
    unfold selectScheduled
    dsimp only
    split_ifs with hq
    · split
      · exact ih he _
      · split_ifs <;> exact ih he _
    · have hother : e ≠ id := fun heq => hq (readQueued_iff.mp (heq ▸ he))
      have hrest := ih (s := { s with scheduled := s.scheduled.rem id }) he sel
      simpa [hother] using hrest

/-- The selection is read as queued, carries its record's priority, and none of the members that are has a
greater one. -/
theorem selectScheduled_best (ids : List EntryId) (s : Store) (sel : Option (EntryId × ℚ)) :
    (∀ p ∈ (selectScheduled ids sel s).1,
      p ∈ sel ∨ p.1 ∈ ids ∧ s.readQueued p.1 = true ∧ p.2 = recordPriority (s.records.get? p.1)) ∧
    (∀ q ∈ sel, ∃ p ∈ (selectScheduled ids sel s).1, q.2 ≤ p.2) ∧
    ∀ e ∈ ids, s.readQueued e = true → ∃ p ∈ (selectScheduled ids sel s).1, recordPriority (s.records.get? e) ≤ p.2 := by
  induction ids generalizing s sel with
  | nil => exact ⟨fun p hp => .inl hp, fun q hq => ⟨q, hq, le_rfl⟩, fun e he => by cases he⟩
  | cons id ids ih =>
    -- one step replaces the selection by one that is at least as good
    have step (z : SortedSet EntryId) (sel' : Option (EntryId × ℚ))
        (hnew : ∀ p ∈ sel', p ∈ sel ∨ p = (id, recordPriority (s.records.get? id)) ∧ s.readQueued id = true)
        (hsel : ∀ q ∈ sel, ∃ p ∈ sel', q.2 ≤ p.2)
        (hid : s.readQueued id = true → ∃ p ∈ sel', recordPriority (s.records.get? id) ≤ p.2) :
        (∀ p ∈ (selectScheduled ids sel' { s with scheduled := z }).1, p ∈ sel ∨ p.1 ∈ id :: ids ∧ s.readQueued p.1 = true ∧
          p.2 = recordPriority (s.records.get? p.1)) ∧
        (∀ q ∈ sel, ∃ p ∈ (selectScheduled ids sel' { s with scheduled := z }).1, q.2 ≤ p.2) ∧
        ∀ e ∈ id :: ids, s.readQueued e = true →
          ∃ p ∈ (selectScheduled ids sel' { s with scheduled := z }).1, recordPriority (s.records.get? e) ≤ p.2 := by
      obtain ⟨h₁, h₂, h₃⟩ := ih (s := { s with scheduled := z }) sel'
      refine ⟨fun p hp => ?_, fun q hq => ?_, fun e he hqueued => ?_⟩
      · rcases h₁ p hp with h | ⟨hmem, hrest⟩
        · rcases hnew p h with h | ⟨rfl, hqueued⟩
          · exact .inl h
          · exact .inr ⟨List.mem_cons_self .., hqueued, rfl⟩
        · exact .inr ⟨List.mem_cons_of_mem _ hmem, hrest⟩
      · obtain ⟨p, hp, hle⟩ := hsel q hq
        obtain ⟨r, hr, hle'⟩ := h₂ p hp
        exact ⟨r, hr, hle.trans hle'⟩
      · rcases List.mem_cons.mp he with rfl | he
        · obtain ⟨p, hp, hle⟩ := hid hqueued
          obtain ⟨r, hr, hle'⟩ := h₂ p hp
          exact ⟨r, hr, hle.trans hle'⟩
        · exact h₃ e he hqueued
    unfold selectScheduled
    dsimp only
    split_ifs with hq
    · have hqueued : s.readQueued id = true := readQueued_iff.mpr hq
      split
      · refine step s.scheduled _ (fun p hp => .inr ⟨(Option.some.inj hp).symm, hqueued⟩) (fun q hq => by cases hq)
          fun _ => ?_
        exact ⟨_, rfl, le_rfl⟩
      · next sid sp =>
        split_ifs with hlt
        · refine step s.scheduled _ (fun p hp => .inr ⟨(Option.some.inj hp).symm, hqueued⟩) (fun q hq => ?_) fun _ => ?_
          · obtain rfl := Option.some.inj hq
            exact ⟨_, rfl, hlt.le⟩
          · exact ⟨_, rfl, le_rfl⟩
        · refine step s.scheduled _ (fun p hp => .inl hp) (fun q hq => ⟨q, hq, le_rfl⟩) fun _ => ?_
          exact ⟨_, rfl, not_lt.mp hlt⟩
    · have hstale : ¬s.readQueued id = true := fun h => hq (readQueued_iff.mp h)
      exact step _ sel (fun p hp => .inl hp) (fun q hq => ⟨q, hq, le_rfl⟩) fun h => absurd h hstale

/-- The selection drops every member that is not read as queued. -/
theorem selectScheduled_dropped (ids : List EntryId) (hj : ¬s.readQueued e = true)
    (h : e ∈ ids ∨ s.scheduled.score? e = none) (sel : Option (EntryId × ℚ)) :
    (selectScheduled ids sel s).2.scheduled.score? e = none := by
  induction ids generalizing s sel with
  | nil => exact h.resolve_left (by simp)
  | cons id ids ih =>
    unfold selectScheduled
    dsimp only
    split_ifs with hq
    · have hrest : e ∈ ids ∨ s.scheduled.score? e = none := by
        refine h.imp_left fun hmem => (List.mem_cons.mp hmem).resolve_left ?_
        rintro rfl
        exact hj (readQueued_iff.mpr hq)
      split
      · exact ih hj hrest _
      · split_ifs <;> exact ih hj hrest _
    · apply ih (s := { s with scheduled := s.scheduled.rem id }) hj
      by_cases he : e = id
      · exact .inr (by simp [he])
      · exact h.imp (fun hmem => (List.mem_cons.mp hmem).resolve_left he) fun hnone => by simp [he, hnone]

theorem promoteFirstQueued_pending (h : ids.find? s.readQueued = none) :
    (promoteFirstQueued ids s).pending = s.pending := by
  induction ids generalizing s with
  | nil => rfl
  | cons head ids ih =>
    have hstale : ¬s.readQueued head = true := List.find?_eq_none.mp h head (List.mem_cons_self ..)
    rw [List.find?_cons_of_neg hstale] at h
    unfold promoteFirstQueued
    rw [if_neg fun hq => hstale (readQueued_iff.mpr hq)]
    exact ih (s := { s with scheduled := s.scheduled.rem head }) h

/-! ### The step -/

theorem mem_group {x : ℚ} {i : EntryId} (hhead : (s.scheduled.upTo now).head? = some (x, i)) :
    x ≤ now ∧ ∀ j y, s.scheduled.score? j = some y → y ≤ now → x ≤ y := by
  have hin := SortedSet.mem_upTo.mp (List.mem_of_mem_head? hhead)
  refine ⟨hin.2, fun j y hj hy => ?_⟩
  have hmem : (y, j) ∈ s.scheduled.upTo now := SortedSet.mem_upTo.mpr ⟨hj, hy⟩
  rcases SortedSet.scoreLE_of_head?_upTo hhead hmem with hlt | ⟨heq, -⟩
  · exact hlt.le
  · exact heq.le

/-- The scripts read every queued member of the group as queued. -/
def GroupRead (s : Store) (x : ℚ) : Prop := ∀ j ∈ s.scheduled.withScore x, s.queued j = true → s.readQueued j = true

theorem groupRead_of_head {x : ℚ} {i : EntryId} (hhead : (s.scheduled.upTo now).head? = some (x, i))
    (h : s.HeadReadable now) : GroupRead s x := fun j hj hq => by
  obtain ⟨hx, hmin⟩ := mem_group hhead
  exact readQueued_of_queued hq (h j x ⟨SortedSet.mem_withScore.mp hj, hx, hq⟩ hmin)

/-- A member of the earliest group is as early as any. -/
theorem chosen_of_group {priority : Bool} {x : ℚ} {i : EntryId} (hhead : (s.scheduled.upTo now).head? = some (x, i))
    (hread : GroupRead s x) (hid : id ∈ s.scheduled.withScore x) (hqueued : s.readQueued id = true)
    (hmax : priority = true → ∀ j ∈ s.scheduled.withScore x, s.readQueued j = true →
      recordPriority (s.records.get? j) ≤ recordPriority (s.records.get? id)) :
    s.schedule.Chosen priority now id := by
  obtain ⟨hx, hmin⟩ := mem_group hhead
  refine ⟨x, ⟨SortedSet.mem_withScore.mp hid, hx, queued_of_readQueued hqueued⟩, ?_, ?_⟩
  · intro j y hj
    exact hmin j y hj.instant hj.le
  · intro hp j hj
    have hmem := SortedSet.mem_withScore.mpr hj.instant
    exact hmax hp j hmem (hread j hmem hj.live)

/-- A promotion does not touch what is behind the earliest group. -/
theorem promote_other (priority : Bool) {x : ℚ} {i : EntryId} (hhead : (s.scheduled.upTo now).head? = some (x, i))
    (he : e ∉ s.scheduled.withScore x) : (promote priority now s).scheduled.score? e = s.scheduled.score? e := by
  unfold promote promoteOneScheduledPriority promoteOneScheduled
  rw [hhead]
  dsimp only
  split_ifs
  · obtain ⟨hscore, -, -, -, hne⟩ := selectScheduled_other he none s
    rcases hsel : selectScheduled (s.scheduled.withScore x) none s with ⟨_ | ⟨id, p⟩, s'⟩
    · rw [hsel] at hscore
      exact hscore
    · rw [hsel] at hscore hne
      have hid : e ≠ id := fun heq => hne (by simp) (id, p) rfl heq.symm
      simpa [pushPriority, hid] using hscore
  · exact (promoteFirstQueued_other he s).2.1

theorem later_of_head {x : ℚ} {i : EntryId} (hhead : (s.scheduled.upTo now).head? = some (x, i)) {y : ℚ}
    (hj : s.scheduled.score? e = some y) (hlt : now < y) : e ∉ s.scheduled.withScore x :=
  notMem_withScore_head hhead fun z hz => by rwa [← Option.some.inj (hj.symm.trans hz)]

theorem promoted_plain {x : ℚ} {i : EntryId} (hhead : (s.scheduled.upTo now).head? = some (x, i))
    (hread : GroupRead s x) (hfound : (s.scheduled.withScore x).find? s.readQueued = some id) :
    Promoted false now s id (promote false now s) := by
  have hres : promote false now s = promoteFirstQueued (s.scheduled.withScore x) s := by
    rw [promote, promoteOneScheduled, hhead]
    rfl
  obtain ⟨hpending, hgone, hpriority⟩ := promoteFirstQueued_found hfound
  have hother {j : EntryId} (hj : j ∉ s.scheduled.withScore x) := promote_other false hhead hj
  rw [hres] at hother ⊢
  refine ⟨?_, ⟨hgone, ?_, ?_⟩, hpending, hpriority⟩
  · exact chosen_of_group hhead hread (List.mem_of_find?_eq_some hfound) (List.find?_some hfound) fun h => by cases h
  · intro j y hj hne
    by_cases hmem : j ∈ s.scheduled.withScore x
    · rw [promoteFirstQueued_kept (hread j hmem hj.live) (by rw [hfound]; exact fun h => hne (Option.some.inj h).symm)]
      exact hj.instant
    · exact (hother hmem).trans hj.instant
  · exact fun j y hj hlt => (hother (later_of_head hhead hj hlt)).trans hj

theorem promoted_priority {x p : ℚ} {i : EntryId} {s' : Store} (hhead : (s.scheduled.upTo now).head? = some (x, i))
    (hread : GroupRead s x) (hsel : selectScheduled (s.scheduled.withScore x) none s = (some (id, p), s')) :
    Promoted true now s id (promote true now s) := by
  have hres : promote true now s =
      { pushPriority (fl (p * prioritySequenceSpace)) id s' with
        scheduled := (pushPriority (fl (p * prioritySequenceSpace)) id s').scheduled.rem id } := by
    simp only [promote, promoteOneScheduledPriority, hhead, hsel, if_true]
  obtain ⟨hnew, -, hmax⟩ := selectScheduled_best (s.scheduled.withScore x) s none
  rw [hsel] at hnew hmax
  obtain ⟨hmem, hqueued, hp⟩ := (hnew (id, p) rfl).resolve_left (by simp)
  have hother {j : EntryId} (hj : j ∉ s.scheduled.withScore x) := promote_other true hhead hj
  rw [hres] at hother ⊢
  refine ⟨?_, ⟨by simp, ?_, ?_⟩, ?_⟩
  · refine chosen_of_group hhead hread hmem hqueued fun _ j hj hjq => ?_
    obtain ⟨q, hq, hle⟩ := hmax j hj hjq
    rw [← Option.some.inj hq] at hle
    exact hle.trans_eq hp
  · intro j y hj hne
    by_cases hmemj : j ∈ s.scheduled.withScore x
    · have hkept := selectScheduled_kept (s.scheduled.withScore x) (hread j hmemj hj.live) none
      rw [hsel] at hkept
      have hscore : s'.scheduled.score? j = some y := hkept.trans hj.instant
      simpa [pushPriority, hne] using hscore
    · exact (hother hmemj).trans hj.instant
  · exact fun j y hj hlt => (hother (later_of_head hhead hj hlt)).trans hj
  · have hframe := selectScheduled_frame (s.scheduled.withScore x) s none
    rw [hsel] at hframe
    have hpending : s'.pending = s.pending := by
      have h := congrArg Store.pending hframe
      exact h
    have hpriority : s'.priority = s.priority := by
      have h := congrArg Store.priority hframe
      exact h
    refine ⟨hpending, fl (fl (p * prioritySequenceSpace) - fl (s'.sequence.getD 0 + 1 : ℕ)), ?_⟩
    rw [← hpriority]
    rfl

/-- The priority script selects some member of the group that is read as queued. -/
theorem exists_selected {x : ℚ} (hfound : (s.scheduled.withScore x).find? s.readQueued = some id) :
    ∃ e p s', selectScheduled (s.scheduled.withScore x) none s = (some (e, p), s') ∧
      e ∈ s.scheduled.withScore x ∧ s.readQueued e = true := by
  obtain ⟨hnew, -, hmax⟩ := selectScheduled_best (s.scheduled.withScore x) s none
  obtain ⟨⟨e, p⟩, hsel, -⟩ := hmax id (List.mem_of_find?_eq_some hfound) (List.find?_some hfound)
  obtain ⟨hmem, hqueued, -⟩ := (hnew (e, p) hsel).resolve_left (by simp)
  exact ⟨e, p, _, Prod.ext hsel rfl, hmem, hqueued⟩

theorem promoted_of_found {x : ℚ} {i : EntryId} (priority : Bool) (hhead : (s.scheduled.upTo now).head? = some (x, i))
    (hread : GroupRead s x) (hfound : (s.scheduled.withScore x).find? s.readQueued = some id) :
    ∃ e, Promoted priority now s e (promote priority now s) := by
  cases priority with
  | false => exact ⟨id, promoted_plain hhead hread hfound⟩
  | true =>
    obtain ⟨e, p, s', hsel, -⟩ := exists_selected hfound
    exact ⟨e, promoted_priority hhead hread hsel⟩

theorem exists_head {j : EntryId} {y : ℚ} (hj : s.schedule.Due now j y) :
    ∃ x i, (s.scheduled.upTo now).head? = some (x, i) := by
  have hin : (y, j) ∈ s.scheduled.upTo now := SortedSet.mem_upTo.mpr ⟨hj.instant, hj.le⟩
  cases hhead : (s.scheduled.upTo now).head? with
  | none =>
    rw [List.head?_eq_none_iff.mp hhead] at hin
    cases hin
  | some p => exact ⟨p.1, p.2, rfl⟩

/-- The earliest due instant is that of a queued id exactly if its group has one. -/
theorem headLive_iff {x : ℚ} {i : EntryId} (hhead : (s.scheduled.upTo now).head? = some (x, i)) :
    s.schedule.HeadLive now ↔ ∃ id ∈ s.scheduled.withScore x, s.queued id = true := by
  obtain ⟨hx, hmin⟩ := mem_group hhead
  have hi := (SortedSet.mem_upTo.mp (List.mem_of_mem_head? hhead)).1
  constructor
  · rintro ⟨j, y, hj, hfirst⟩
    obtain rfl : y = x := le_antisymm (hfirst i x hi hx) (hmin j y hj.instant hj.le)
    exact ⟨j, SortedSet.mem_withScore.mpr hj.instant, hj.live⟩
  · rintro ⟨id, hmem, hq⟩
    exact ⟨id, x, ⟨SortedSet.mem_withScore.mp hmem, hx, hq⟩, hmin⟩

/-- What is promoted comes from the earliest group. -/
theorem headLive_of_promoted {priority : Bool} (h : Promoted priority now s id (promote priority now s)) :
    s.schedule.HeadLive now := by
  obtain ⟨z, hz, -⟩ := h.chosen
  obtain ⟨x, i, hhead⟩ := exists_head hz
  rw [headLive_iff hhead]
  refine ⟨id, ?_, hz.live⟩
  by_contra hmem
  have hkept := (promote_other priority hhead hmem).trans hz.instant
  cases h.taken.gone.symm.trans hkept

/-- Both scripts promote due queued work where the earliest due instant has some and they can read it. -/
theorem exists_promoted (priority : Bool) (hread : s.HeadReadable now) (hlive : s.schedule.HeadLive now) :
    ∃ e, Promoted priority now s e (promote priority now s) := by
  obtain ⟨j, y, hj, -⟩ := id hlive
  obtain ⟨x, i, hhead⟩ := exists_head hj
  have hgroup := groupRead_of_head hhead hread
  obtain ⟨e, hmem, hq⟩ := (headLive_iff hhead).mp hlive
  cases hfound : (s.scheduled.withScore x).find? s.readQueued with
  | none => exact absurd (hgroup e hmem hq) (List.find?_eq_none.mp hfound e hmem)
  | some id => exact promoted_of_found priority hhead hgroup hfound

/-- What is not due stays on the schedule. -/
theorem promote_later (priority : Bool) {j : EntryId} {y : ℚ} (hj : s.scheduled.score? j = some y) (hlt : now < y) :
    (promote priority now s).scheduled.score? j = some y := by
  cases hhead : (s.scheduled.upTo now).head? with
  | none =>
    unfold promote promoteOneScheduledPriority promoteOneScheduled
    rw [hhead]
    split_ifs
    · exact hj
    · exact hj
  | some p => exact (promote_other priority hhead (later_of_head hhead hj hlt)).trans hj

/-- Nothing that is due and queued leaves the schedule without being promoted. -/
theorem promote_kept (priority : Bool) (hread : s.HeadReadable now) {j : EntryId} {y : ℚ} (hj : s.schedule.Due now j y) :
    (promote priority now s).scheduled.score? j = some y ∨ Promoted priority now s j (promote priority now s) := by
  obtain ⟨x, i, hhead⟩ := exists_head hj
  by_cases hmem : j ∈ s.scheduled.withScore x
  · obtain ⟨e, he⟩ := exists_promoted priority hread ((headLive_iff hhead).mpr ⟨j, hmem, hj.live⟩)
    rcases eq_or_ne j e with rfl | hne
    · exact .inr he
    · exact .inl (he.taken.kept j y hj hne)
  · exact .inl ((promote_other priority hhead hmem).trans hj.instant)

/-- A queued id of the earliest instant that the scripts cannot read is lost by one of them. -/
theorem headReadable_of_promotes
    (hplain : (∃ id x, s.schedule.Due now id x) → ∃ id, Promoted false now s id (promote false now s))
    (hpriority : ∀ j y, s.schedule.Due now j y →
      (promote true now s).scheduled.score? j = some y ∨ Promoted true now s j (promote true now s)) :
    s.HeadReadable now := by
  intro j x hj hfirst hrefused
  have hnot := not_readQueued_of_refused hrefused
  obtain ⟨x', i, hhead⟩ := exists_head hj
  obtain rfl : x = x' := by
    obtain ⟨hx, hmin⟩ := mem_group hhead
    exact le_antisymm (hfirst i x' (SortedSet.mem_upTo.mp (List.mem_of_mem_head? hhead)).1 hx)
      (hmin j x hj.instant hj.le)
  have hmem := SortedSet.mem_withScore.mpr hj.instant
  cases hfound : (s.scheduled.withScore x).find? s.readQueued with
  | none =>
    -- then the plain script promotes nothing
    obtain ⟨id, hid⟩ := hplain ⟨j, x, hj⟩
    have hmoved := hid.moved
    rw [if_neg Bool.false_ne_true, promote, if_neg Bool.false_ne_true, promoteOneScheduled, hhead] at hmoved
    have hlength := congrArg List.length ((promoteFirstQueued_pending hfound).symm.trans hmoved.1)
    simp at hlength
  | some id =>
    -- the priority script promotes another one and drops this one
    obtain ⟨e, p, s', hsel, hmeme, hqueued⟩ := exists_selected hfound
    have hres : (promote true now s).scheduled = s'.scheduled.rem e := by
      simp only [promote, promoteOneScheduledPriority, hhead, hsel, if_true]
      rfl
    have hdropped := selectScheduled_dropped (s.scheduled.withScore x) hnot (.inl hmem) none
    rw [hsel] at hdropped
    have hne : e ≠ j := fun heq => hnot (heq ▸ hqueued)
    rcases hpriority j x hj with hkept | hpromoted
    · rw [hres, SortedSet.score?_rem, if_neg hne.symm, hdropped] at hkept
      cases hkept
    · have he : s.schedule.Due now e x := ⟨SortedSet.mem_withScore.mp hmeme, hj.le, queued_of_readQueued hqueued⟩
      have hkept := hpromoted.taken.kept e x he hne
      rw [hres, SortedSet.score?_rem, if_pos rfl] at hkept
      cases hkept

end Redis

namespace Memory

variable {cls : EntryClass}

/-- The schedule that `_pop_next_due_scheduled` reads. -/
def State.schedule (s : State cls) : DueSchedule EntryId ClockTime ℤ where
  instant := s.scheduled.get?
  live := fun id => s.isQueued id = true
  rank := s.priorityOf

/-- `id` has been popped and nothing but the schedule is changed. -/
structure Popped (priority : Bool) (now : ClockTime) (s : State cls) (id : EntryId)
    (result : Option EntryId × State cls) : Prop where
  popped : result.1 = some id
  chosen : s.schedule.Chosen priority now id
  taken : s.schedule.Taken now id result.2.scheduled.get?
  rest : result.2 = { s with scheduled := result.2.scheduled }

def promote (priority : Bool) (now : ClockTime) (s : State cls) : State cls :=
  if priority then s.apromoteScheduledPriority now else s.apromoteScheduled now

/-- `id`, and nothing else, has moved from the schedule to the queue that is dispatched from. -/
structure Promoted (priority : Bool) (now : ClockTime) (s : State cls) (id : EntryId) (s' : State cls) : Prop where
  chosen : s.schedule.Chosen priority now id
  taken : s.schedule.Taken now id s'.scheduled.get?
  moved : if priority then s'.pending = s.pending ∧ s'.pendingPriority =
      s.pendingPriority ++ [(-s.priorityOf id, s.pendingPrioritySequence + 1, id)]
    else s'.pending = s.pending ++ [id] ∧ s'.pendingPriority = s.pendingPriority

namespace State

variable {s : State cls} {now : ClockTime} {id : EntryId}

theorem mem_candidates_iff : id ∈ s.candidates now ↔
    ∃ a, s.scheduled.get? id = some a ∧ a ≤ now ∧ ∀ j b, s.scheduled.get? j = some b → b ≤ now → a ≤ b := by
  have hdue (j : EntryId) (b : ClockTime) : (j, b) ∈ s.scheduled.items.filter (·.2 ≤ now) ↔
      s.scheduled.get? j = some b ∧ b ≤ now := by
    rw [List.mem_filter, Dict.get?_eq_some, decide_eq_true_iff]
  unfold candidates
  dsimp only
  cases hmin : ((s.scheduled.items.filter (·.2 ≤ now)).map Prod.snd).min? with
  | none =>
    have hnil := List.map_eq_nil_iff.mp (List.min?_eq_none_iff.mp hmin)
    simp only [List.not_mem_nil, false_iff]
    rintro ⟨a, ha, hle, -⟩
    have hin := (hdue id a).mpr ⟨ha, hle⟩
    rw [hnil] at hin
    cases hin
  | some m =>
    obtain ⟨hm, hfirst⟩ := List.min?_eq_some_iff.mp hmin
    obtain ⟨⟨k, m'⟩, hk, rfl⟩ := List.mem_map.mp hm
    obtain ⟨hkm, hkle⟩ := (hdue k m').mp hk
    constructor
    · intro hin
      obtain ⟨⟨j, a⟩, hj, rfl⟩ := List.mem_map.mp hin
      obtain ⟨hja, ha⟩ := List.mem_filter.mp hj
      obtain rfl : a = m' := of_decide_eq_true ha
      obtain ⟨hget, hle⟩ := (hdue j a).mp hja
      refine ⟨a, hget, hle, fun j b hb hble => ?_⟩
      exact hfirst b (List.mem_map.mpr ⟨(j, b), (hdue j b).mpr ⟨hb, hble⟩, rfl⟩)
    · rintro ⟨a, ha, hle, hmin'⟩
      have hin := (hdue id a).mpr ⟨ha, hle⟩
      have heq : a = m' := le_antisymm (hmin' k m' hkm hkle) (hfirst a (List.mem_map.mpr ⟨(id, a), hin, rfl⟩))
      exact List.mem_map.mpr ⟨(id, a), List.mem_filter.mpr ⟨hin, decide_eq_true heq⟩, rfl⟩

theorem candidates_ne_nil {j : EntryId} {b : ClockTime} (h : s.scheduled.get? j = some b) (hle : b ≤ now) :
    s.candidates now ≠ [] := by
  have hdue : (j, b) ∈ s.scheduled.items.filter (·.2 ≤ now) :=
    List.mem_filter.mpr ⟨Dict.get?_eq_some.mp h, decide_eq_true hle⟩
  unfold candidates
  dsimp only
  cases hmin : ((s.scheduled.items.filter (·.2 ≤ now)).map Prod.snd).min? with
  | none =>
    rw [List.map_eq_nil_iff.mp (List.min?_eq_none_iff.mp hmin)] at hdue
    cases hdue
  | some m =>
    obtain ⟨p, hp, hpm⟩ := List.mem_map.mp (List.min?_eq_some_iff.mp hmin).1
    have hin : p ∈ (s.scheduled.items.filter (·.2 ≤ now)).filter (·.2 = m) :=
      List.mem_filter.mpr ⟨hp, decide_eq_true hpm⟩
    exact List.ne_nil_of_mem (List.mem_map.mpr ⟨p, hin, rfl⟩)

theorem le_foldl_best (ids : List EntryId) (best : EntryId) :
    ∀ j ∈ best :: ids, s.priorityOf j ≤
      s.priorityOf (ids.foldl (fun best id => if s.priorityOf best < s.priorityOf id then id else best) best) := by
  induction ids generalizing best with
  | nil =>
    intro j hj
    rw [List.mem_singleton.mp hj]
    exact le_rfl
  | cons head ids ih =>
    rw [List.foldl_cons]
    have hstep : ∀ j ∈ [best, head],
        s.priorityOf j ≤ s.priorityOf (if s.priorityOf best < s.priorityOf head then head else best) := by
      intro j hj
      rcases List.mem_pair.mp hj with rfl | rfl
      · split_ifs with hlt
        · exact hlt.le
        · exact le_rfl
      · split_ifs with hlt
        · exact le_rfl
        · exact not_lt.mp hlt
    have hfold := ih (if s.priorityOf best < s.priorityOf head then head else best)
    intro j hj
    rcases List.mem_cons.mp hj with rfl | hj
    · exact (hstep j (by simp)).trans (hfold _ (List.mem_cons_self ..))
    · rcases List.mem_cons.mp hj with rfl | hj
      · exact (hstep j (by simp)).trans (hfold _ (List.mem_cons_self ..))
      · exact hfold j (List.mem_cons_of_mem _ hj)

theorem le_greatest {ids : List EntryId} (h : s.greatest ids = some id) : ∀ j ∈ ids, s.priorityOf j ≤ s.priorityOf id := by
  cases ids with
  | nil => cases h
  | cons head ids =>
    obtain rfl := Option.some.inj h
    exact le_foldl_best ids head

/-- Dropping ids off the schedule. -/
theorem foldl_discard (ids : List EntryId) (s : State cls) :
    ids.foldl (fun s id => s.adiscardScheduled id) s = { s with scheduled := ids.foldl Dict.erase s.scheduled } := by
  induction ids generalizing s with
  | nil => rfl
  | cons id ids ih => exact ih (s.adiscardScheduled id)

/-- The choice among the queued candidates of a pass. -/
def choice (priority : Bool) (now : ClockTime) (s : State cls) : Option EntryId :=
  if priority then s.greatest ((s.candidates now).filter s.isQueued) else ((s.candidates now).filter s.isQueued).head?

/-- The schedule after a pass. -/
def afterPass (now : ClockTime) (s : State cls) : State cls :=
  { s with scheduled := ((s.candidates now).filter (! s.isQueued ·)).foldl Dict.erase s.scheduled }

theorem popNextDueScheduledLoop_succ (priority : Bool) (n : ℕ) (h : s.candidates now ≠ []) :
    popNextDueScheduledLoop priority now (n + 1) s =
      match s.choice priority now with
      | none => popNextDueScheduledLoop priority now n (s.afterPass now)
      | some id => (some id, (s.afterPass now).adiscardScheduled id) := by
  rw [popNextDueScheduledLoop, if_neg h]
  simp only [foldl_discard]
  rfl

theorem choice_spec {priority : Bool} (h : s.choice priority now = some id) :
    id ∈ s.candidates now ∧ s.isQueued id = true ∧
      (priority = true → ∀ j ∈ s.candidates now, s.isQueued j = true → s.priorityOf j ≤ s.priorityOf id) := by
  cases priority with
  | false =>
    obtain ⟨hmem, hqueued⟩ := List.mem_filter.mp (List.mem_of_mem_head? h)
    exact ⟨hmem, hqueued, fun h => by cases h⟩
  | true =>
    obtain ⟨hmem, hqueued⟩ := List.mem_filter.mp (greatest_mem h)
    exact ⟨hmem, hqueued, fun _ j hj hjq => le_greatest h j (List.mem_filter.mpr ⟨hj, hjq⟩)⟩

theorem choice_eq_none {priority : Bool} (h : s.choice priority now = none) :
    ∀ j ∈ s.candidates now, ¬s.isQueued j = true := by
  have hnil : (s.candidates now).filter s.isQueued = [] := by
    unfold choice at h
    cases hq : (s.candidates now).filter s.isQueued with
    | nil => rfl
    | cons a l =>
      rw [hq] at h
      cases priority <;> cases h
  exact List.filter_eq_nil_iff.mp hnil

theorem afterPass_get? (j : EntryId) :
    (s.afterPass now).scheduled.get? j =
      if j ∈ s.candidates now ∧ ¬s.isQueued j = true then none else s.scheduled.get? j := by
  rw [afterPass, Dict.get?_foldl_erase]
  simp only [List.mem_filter, Bool.not_eq_true', Bool.not_eq_true]

theorem afterPass_due {j : EntryId} {b : ClockTime} : (s.afterPass now).schedule.Due now j b ↔ s.schedule.Due now j b := by
  constructor
  · rintro ⟨hj, hle, hq⟩
    have hget : (s.afterPass now).scheduled.get? j = some b := hj
    rw [afterPass_get?] at hget
    split_ifs at hget
    exact ⟨hget, hle, hq⟩
  · rintro ⟨hj, hle, hq⟩
    refine ⟨?_, hle, hq⟩
    change (s.afterPass now).scheduled.get? j = some b
    rw [afterPass_get?, if_neg fun h => h.2 hq]
    exact hj

theorem afterPass_later {j : EntryId} {b : ClockTime} (h : s.scheduled.get? j = some b) (hlt : now < b) :
    (s.afterPass now).scheduled.get? j = some b := by
  rw [afterPass_get?, if_neg, h]
  rintro ⟨hmem, -⟩
  obtain ⟨a, ha, hle, -⟩ := mem_candidates_iff.mp hmem
  rw [← Option.some.inj (h.symm.trans ha)] at hle
  exact absurd hle (not_le.mpr hlt)

/-- A pass without a choice drops every candidate. -/
theorem length_afterPass (h : s.candidates now ≠ []) {priority : Bool} (hnone : s.choice priority now = none) :
    (s.afterPass now).scheduled.items.length < s.scheduled.items.length := by
  have hall : (s.candidates now).filter (! s.isQueued ·) = s.candidates now := by
    rw [List.filter_eq_self]
    intro j hj
    simpa using choice_eq_none hnone j hj
  obtain ⟨head, rest, hc⟩ := List.exists_cons_of_ne_nil h
  obtain ⟨a, ha, -⟩ := mem_candidates_iff.mp (hc ▸ List.mem_cons_self (a := head) (l := rest))
  rw [afterPass, hall, hc]
  exact (Dict.length_foldl_erase_le rest _).trans_lt (Dict.length_erase_lt ha)

theorem popped_of_choice {priority : Bool} (h : s.choice priority now = some id) :
    Popped priority now s id (some id, (s.afterPass now).adiscardScheduled id) := by
  obtain ⟨hmem, hqueued, hmax⟩ := choice_spec h
  obtain ⟨a, ha, hle, hmin⟩ := mem_candidates_iff.mp hmem
  refine ⟨rfl, ⟨a, ⟨ha, hle, hqueued⟩, ?_, ?_⟩, ⟨?_, ?_, ?_⟩, rfl⟩
  · intro j b hj
    exact hmin j b hj.instant hj.le
  · intro hp j hj
    exact hmax hp j (mem_candidates_iff.mpr ⟨a, hj.instant, hle, hmin⟩) hj.live
  · change ((s.afterPass now).scheduled.erase id).get? id = none
    simp
  · intro j b hj hne
    change ((s.afterPass now).scheduled.erase id).get? j = some b
    rw [Dict.get?_erase, if_neg hne]
    exact (afterPass_due.mpr hj).instant
  · intro j b hj hlt
    have hne : j ≠ id := fun heq => by
      have hab : a = b := Option.some.inj (ha.symm.trans (heq ▸ hj))
      exact absurd hle (hab ▸ not_le.mpr hlt)
    change ((s.afterPass now).scheduled.erase id).get? j = some b
    rw [Dict.get?_erase, if_neg hne]
    exact afterPass_later hj hlt

/-- Passes that choose nothing drop what is stale, and the schedule is finite: some pass chooses. -/
theorem popNextDueScheduledLoop_popped (priority : Bool) {n : ℕ} (hn : s.scheduled.items.length < n)
    (hdue : ∃ id a, s.schedule.Due now id a) :
    ∃ id, Popped priority now s id (popNextDueScheduledLoop priority now n s) := by
  induction n generalizing s with
  | zero => exact absurd hn (Nat.not_lt_zero _)
  | succ n ih =>
    obtain ⟨e, b, he⟩ := hdue
    have hne : s.candidates now ≠ [] := candidates_ne_nil he.instant he.le
    rw [popNextDueScheduledLoop_succ priority n hne]
    cases hchoice : s.choice priority now with
    | some id => exact ⟨id, popped_of_choice hchoice⟩
    | none =>
      have hlen := length_afterPass hne hchoice
      obtain ⟨id, hid⟩ := ih (s := s.afterPass now) (by omega) ⟨e, b, afterPass_due.mpr he⟩
      refine ⟨id, hid.popped, hid.chosen.congr (fun j y => afterPass_due.symm) rfl, ?_, hid.rest⟩
      exact hid.taken.congr (fun j y hj => afterPass_due.mpr hj) fun j y hj hlt => afterPass_later hj hlt

theorem popNextDueScheduled_popped (priority : Bool) (hdue : ∃ id a, s.schedule.Due now id a) :
    ∃ id, Popped priority now s id (s.popNextDueScheduled priority now) :=
  popNextDueScheduledLoop_popped priority (Nat.lt_succ_self _) hdue

/-- What is popped was due and queued. -/
theorem due_of_popped {priority : Bool} {n : ℕ} (h : (popNextDueScheduledLoop priority now n s).1 = some id) :
    ∃ a, s.schedule.Due now id a := by
  induction n generalizing s with
  | zero => cases h
  | succ n ih =>
    by_cases hc : s.candidates now = []
    · rw [popNextDueScheduledLoop, if_pos hc] at h
      cases h
    · rw [popNextDueScheduledLoop_succ priority n hc] at h
      cases hchoice : s.choice priority now with
      | none =>
        rw [hchoice] at h
        obtain ⟨a, ha⟩ := ih h
        exact ⟨a, afterPass_due.mp ha⟩
      | some id' =>
        rw [hchoice] at h
        obtain rfl := Option.some.inj h
        obtain ⟨hmem, hqueued, -⟩ := choice_spec hchoice
        obtain ⟨a, ha, hle, -⟩ := mem_candidates_iff.mp hmem
        exact ⟨a, ha, hle, hqueued⟩

theorem promote_scheduled (priority : Bool) :
    (promote priority now s).scheduled = (s.popNextDueScheduled priority now).2.scheduled := by
  unfold promote
  cases priority with
  | false =>
    rw [if_neg Bool.false_ne_true, apromoteScheduled]
    rcases s.popNextDueScheduled false now with ⟨_ | id, m⟩ <;> rfl
  | true =>
    rw [if_pos rfl, apromoteScheduledPriority]
    rcases s.popNextDueScheduled true now with ⟨_ | id, m⟩ <;> rfl

theorem promote_later (priority : Bool) {j : EntryId} {b : ClockTime} (hj : s.scheduled.get? j = some b) (hlt : now < b) :
    (promote priority now s).scheduled.get? j = some b := by
  obtain ⟨d, hd, hkeep, -⟩ := popNextDueScheduledLoop_spec priority now (s.scheduled.items.length + 1) s
  rw [promote_scheduled, popNextDueScheduled, hd]
  refine (hkeep j fun a ha => ?_).trans hj
  rwa [← Option.some.inj (hj.symm.trans ha)]

theorem promoted_of_popped {priority : Bool} (h : Popped priority now s id (s.popNextDueScheduled priority now)) :
    Promoted priority now s id (promote priority now s) := by
  obtain ⟨hpop, hchosen, htaken, hrest⟩ := h
  rcases hr : s.popNextDueScheduled priority now with ⟨o, m⟩
  rw [hr] at hpop htaken hrest
  dsimp only at hpop htaken hrest
  rw [hpop] at hr
  unfold promote
  cases priority with
  | false =>
    rw [if_neg Bool.false_ne_true, apromoteScheduled, hr]
    refine ⟨hchosen, htaken, ?_, ?_⟩
    · rw [hrest]
      rfl
    · rw [hrest]
      rfl
  | true =>
    rw [if_pos rfl, apromoteScheduledPriority, hr]
    refine ⟨hchosen, htaken, ?_, ?_⟩
    · rw [hrest]
      rfl
    · rw [hrest]
      rfl

end State

end Memory

/-! ### Both backends -/

/-- A memory state and a store with the same scheduled entries, inserted in the order of their ids. -/
structure SameQueue {cls : EntryClass} (m : Memory.State cls) (s : Redis.Store) : Prop where
  schedule : SameSchedule m.scheduled s.scheduled
  queued : ∀ id, m.isQueued id = s.queued id
  priority : ∀ id, m.isQueued id = true → ¬s.Refused id →
    Redis.recordPriority (s.records.get? id) = m.priorityOf id

namespace SameQueue

open Redis Library

variable {cls : EntryClass} {m : Memory.State cls} {s : Store} {t : ServerTime}

theorem isQueued_eq (h : SameQueue m s) {id : EntryId} (hread : s.queued id = true → s.readQueued id = true) :
    m.isQueued id = s.readQueued id := by
  rw [h.queued id, Bool.eq_iff_iff]
  exact ⟨hread, queued_of_readQueued⟩

/-- The priority that the script reads. -/
theorem priority_eq (h : SameQueue m s) {id : EntryId} (hq : s.readQueued id = true) :
    recordPriority (s.records.get? id) = m.priorityOf id :=
  h.priority id ((h.queued id).trans (queued_of_readQueued hq)) fun hr => not_readQueued_of_refused hr hq

/-- The selection loop keeps the first of the greatest among the queued, as `max` does. -/
theorem selectScheduled_from (h : SameQueue m s) {ids : List EntryId}
    (hread : ∀ j ∈ ids, s.queued j = true → s.readQueued j = true) (z : SortedSet EntryId) (best : EntryId) :
    (selectScheduled ids (some (best, (m.priorityOf best : ℚ))) { s with scheduled := z }).1.map Prod.fst =
      some ((ids.filter m.isQueued).foldl (fun best id =>
        if m.priorityOf best < m.priorityOf id then id else best) best) := by
  induction ids generalizing z best with
  | nil => rfl
  | cons e ids ih =>
    have hrest := fun j hj => hread j (List.mem_cons_of_mem _ hj)
    have hsame := h.isQueued_eq (hread e (List.mem_cons_self ..))
    unfold selectScheduled
    dsimp only
    by_cases hq : statusText (s.records.get? e) = some "queued"
    · have hqueued := readQueued_iff.mpr hq
      rw [if_pos hq, List.filter_cons_of_pos (hsame.trans hqueued), List.foldl_cons, h.priority_eq hqueued]
      simp only [Int.cast_lt]
      split_ifs
      · exact ih hrest z e
      · exact ih hrest z best
    · have hstale : ¬m.isQueued e = true := fun hm => hq (readQueued_iff.mp (hsame.symm.trans hm))
      rw [if_neg hq, List.filter_cons_of_neg hstale]
      exact ih hrest _ best

theorem selectScheduled_greatest (h : SameQueue m s) {ids : List EntryId}
    (hread : ∀ j ∈ ids, s.queued j = true → s.readQueued j = true) (z : SortedSet EntryId) :
    (selectScheduled ids none { s with scheduled := z }).1.map Prod.fst = m.greatest (ids.filter m.isQueued) := by
  induction ids generalizing z with
  | nil => rfl
  | cons e ids ih =>
    have hrest := fun j hj => hread j (List.mem_cons_of_mem _ hj)
    have hsame := h.isQueued_eq (hread e (List.mem_cons_self ..))
    unfold selectScheduled
    dsimp only
    split_ifs with hq
    · have hqueued := readQueued_iff.mpr hq
      rw [List.filter_cons_of_pos (hsame.trans hqueued), h.priority_eq hqueued]
      exact h.selectScheduled_from hrest z e
    · have hstale : ¬m.isQueued e = true := fun hm => hq (readQueued_iff.mp (hsame.symm.trans hm))
      rw [List.filter_cons_of_neg hstale]
      exact ih hrest _

/-- The choice of a pass over the earliest group is what the script promotes. -/
theorem promoted_of_choice (h : SameQueue m s) {x : ℚ} {i id : EntryId} {priority : Bool}
    (hhead : (s.scheduled.upTo t.nowUs).head? = some (x, i)) (hread : GroupRead s x)
    (hchoice : m.choice priority t.toClockTime = some id) :
    Promoted priority t.nowUs s id (Redis.promote priority t.nowUs s) := by
  unfold Memory.State.choice at hchoice
  rw [(h.schedule.candidates_eq hhead).1] at hchoice
  cases priority with
  | false =>
    have hfilter : (s.scheduled.withScore x).filter m.isQueued = (s.scheduled.withScore x).filter s.readQueued :=
      List.filter_congr fun j hj => h.isQueued_eq (hread j hj)
    have hfound : (s.scheduled.withScore x).find? s.readQueued = some id := by
      rw [← List.head?_filter, ← hfilter]
      exact hchoice
    exact promoted_plain hhead hread hfound
  | true =>
    have hsel := h.selectScheduled_greatest hread s.scheduled
    rw [show m.greatest _ = some id from hchoice, Option.map_eq_some_iff] at hsel
    obtain ⟨⟨id', p⟩, hsel, rfl⟩ := hsel
    exact promoted_priority hhead hread (Prod.ext hsel rfl)

/-- Where the earliest due instant has queued work that the scripts can read, both backends take the same id. -/
theorem same_choice (h : SameQueue m s) (hread : s.HeadReadable t.nowUs)
    (hlive : (∃ id x, s.schedule.Due t.nowUs id x) → s.schedule.HeadLive t.nowUs) {priority : Bool} {id : EntryId}
    (hpop : (m.popNextDueScheduled priority t.toClockTime).1 = some id) :
    Promoted priority t.nowUs s id (Redis.promote priority t.nowUs s) := by
  obtain ⟨a, ha⟩ := Memory.State.due_of_popped hpop
  have hdue : s.schedule.Due t.nowUs id (fl a.totalMicroseconds) := by
    refine ⟨?_, (fl_le_nowUs_iff a t).mpr ha.le, (h.queued id).symm.trans ha.live⟩
    change s.scheduled.score? id = _
    rw [h.schedule.score, show m.scheduled.get? id = some a from ha.instant]
    rfl
  obtain ⟨x, i, hhead⟩ := exists_head hdue
  obtain ⟨hcand, -⟩ := h.schedule.candidates_eq hhead
  obtain ⟨e, hmem, hqueued⟩ := (headLive_iff hhead).mp (hlive ⟨id, _, hdue⟩)
  rw [Memory.State.popNextDueScheduled,
    Memory.State.popNextDueScheduledLoop_succ priority _ (Memory.State.candidates_ne_nil ha.instant ha.le)] at hpop
  cases hchoice : m.choice priority t.toClockTime with
  | none =>
    have he : e ∈ m.candidates t.toClockTime := hcand ▸ hmem
    exact absurd ((h.queued e).trans hqueued) (Memory.State.choice_eq_none hchoice e he)
  | some id' =>
    rw [hchoice] at hpop
    obtain rfl := Option.some.inj hpop
    exact h.promoted_of_choice hhead (groupRead_of_head hhead hread) hchoice

end SameQueue

section Claim

open Redis

variable {cls : EntryClass}

/-- A promotion step of either backend. Only the scripts need the condition: they look at the
earliest due instant and no further, and drop what they cannot read. -/
theorem promotion_iff (m : Memory.State cls) (now : ClockTime) (s : Store) (t : ServerTime) :
    (∀ priority, ((∃ id x, s.schedule.Due t.nowUs id x) →
        ∃ id, Promoted priority t.nowUs s id (promote priority t.nowUs s)) ∧
      (∀ j y, s.schedule.Due t.nowUs j y → (promote priority t.nowUs s).schedule.instant j = some y ∨
        Promoted priority t.nowUs s j (promote priority t.nowUs s)) ∧
      (∀ j y, s.schedule.instant j = some y → t.nowUs < y → (promote priority t.nowUs s).schedule.instant j = some y) ∧
      ((∃ id a, m.schedule.Due now id a) → ∃ id, (m.popNextDueScheduled priority now).1 = some id ∧
        Memory.Promoted priority now m id (Memory.promote priority now m)) ∧
      (∀ j b, m.schedule.instant j = some b → now < b → (Memory.promote priority now m).schedule.instant j = some b) ∧
      (SameQueue m s → now = t.toClockTime → ∀ id, (m.popNextDueScheduled priority now).1 = some id →
        Promoted priority t.nowUs s id (promote priority t.nowUs s))) ↔
      ((∃ id x, s.schedule.Due t.nowUs id x) → s.schedule.HeadLive t.nowUs) ∧ s.HeadReadable t.nowUs := by
  constructor
  · intro h
    refine ⟨fun hdue => ?_, headReadable_of_promotes (h false).1 (h true).2.1⟩
    obtain ⟨id, hid⟩ := (h false).1 hdue
    exact headLive_of_promoted hid
  · rintro ⟨hlive, hread⟩ priority
    refine ⟨fun hdue => exists_promoted priority hread (hlive hdue), fun j y hj => promote_kept priority hread hj,
      fun j y hj hlt => promote_later priority hj hlt, fun hdue => ?_, fun j b hj hlt => ?_, ?_⟩
    · obtain ⟨id, hid⟩ := Memory.State.popNextDueScheduled_popped priority hdue
      exact ⟨id, hid.popped, Memory.State.promoted_of_popped hid⟩
    · exact Memory.State.promote_later priority hj hlt
    · rintro hsame rfl id hpop
      exact hsame.same_choice hread hlive hpop

/-- A member without a record is scheduled before a queued one, and both are due. -/
def staleFirst : Store :=
  { Store.empty with
    records := Dict.empty.set (.ofLast 2) (QueueEntry.plain (.ofLast 2) .null : QueueEntry .base).toDict
    scheduled := (SortedSet.empty.add (.ofLast 1) 1).add (.ofLast 2) 2 }

theorem staleFirst_instant (id : EntryId) : staleFirst.schedule.instant id =
    if id = .ofLast 2 then some 2 else if id = .ofLast 1 then some 1 else none := by
  change ((SortedSet.empty.add (.ofLast 1) 1).add (.ofLast 2) 2 : SortedSet EntryId).score? id = _
  rw [SortedSet.score?_add, SortedSet.score?_add, SortedSet.score?_empty]
  split_ifs <;> rfl

theorem staleFirst_stale : ¬staleFirst.schedule.live (.ofLast 1) := by
  change ¬staleFirst.queued (.ofLast 1) = true
  decide +kernel

/-- The scripts drop the member without a record and promote nothing. -/
theorem promotion_stalled :
    (∃ id x, staleFirst.schedule.Due (ServerTime.ofSeconds 1000 ServerTime.second_1000).nowUs id x) ∧
      ∀ priority, ¬∃ id, Promoted priority (ServerTime.ofSeconds 1000 ServerTime.second_1000).nowUs staleFirst id
        (promote priority (ServerTime.ofSeconds 1000 ServerTime.second_1000).nowUs staleFirst) := by
  have hnow : (ServerTime.ofSeconds 1000 ServerTime.second_1000).nowUs = 1000000000 := by
    rw [ServerTime.nowUs_eq, ClockTime.totalMicroseconds]
    norm_num [ServerTime.ofSeconds]
  have hdue : staleFirst.schedule.Due 1000000000 (.ofLast 2) 2 := by
    refine ⟨by rw [staleFirst_instant, if_pos rfl], by norm_num, ?_⟩
    change staleFirst.queued (.ofLast 2) = true
    decide +kernel
  rw [hnow]
  refine ⟨⟨_, _, hdue⟩, fun priority hpromoted => ?_⟩
  obtain ⟨id, hid⟩ := hpromoted
  obtain ⟨i, x, hi, hmin⟩ := headLive_of_promoted hid
  have hone : x ≤ 1 := by
    apply hmin (.ofLast 1) 1 _ (by norm_num)
    rw [staleFirst_instant, if_neg (by decide), if_pos rfl]
  have hscore := hi.instant
  rw [staleFirst_instant] at hscore
  split_ifs at hscore with h2 h1
  · rw [← Option.some.inj hscore] at hone
    norm_num at hone
  · exact staleFirst_stale (h1 ▸ hi.live)

end Claim

end DjangoQueues
