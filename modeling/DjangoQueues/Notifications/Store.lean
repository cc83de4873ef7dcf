import DjangoQueues.Clock
import DjangoQueues.Entries
import DjangoQueues.Lib.ExpiringStore
import DjangoQueues.Lib.SortedSet

/-! Where the notifications of a queue are kept until their deadline: the record keys and the deadline index that the
Redis functions maintain, and the two dictionaries of the memory provider. Both are the store of
`DjangoQueues.Lib.ExpiringStore`. -/

namespace DjangoQueues

/-! ## Redis -/

/-- The keys of one queue's notifications; a removal lease is kept with the millisecond at which it expires. -/
structure RedisNotifications where
  records : Dict EntryId Json
  deadlines : SortedSet EntryId
  leases : Dict EntryId ℕ

namespace RedisNotifications

def empty : RedisNotifications := ⟨.empty, .empty, .empty⟩

/-- `_NOTIFICATION_REMOVAL_LEASE_MS`. -/
def removalLeaseMs : ℕ := 50

/-- `django_queue_notification_store`, of a lifetime in microseconds. -/
def store (id : EntryId) (raw : Json) (lifetime : ℕ) (t : ServerTime) (s : RedisNotifications) : RedisNotifications :=
  { s with
    records := s.records.set id raw
    deadlines := s.deadlines.add id (fl (t.nowUs + fl lifetime)) }

/-- Whether the server still has the removal lease of `id`; a key lasts through the millisecond it expires in. -/
def leased (id : EntryId) (t : ServerTime) (s : RedisNotifications) : Bool :=
  match s.leases.get? id with
  | none => false
  | some expiry => t.totalMicroseconds / 1000 ≤ expiry

/-- `django_queue_notification_get`. -/
def get (id : EntryId) (t : ServerTime) (s : RedisNotifications) : Option Json :=
  if s.leased id t then none else s.records.get? id

/-- `django_queue_notification_expire`: the first member of the index, if its deadline has come. -/
def expire (t : ServerTime) (s : RedisNotifications) : Option EntryId × RedisNotifications :=
  match s.deadlines.items.head? with
  | none => (none, s)
  | some (deadline, id) =>
    if t.nowUs < deadline then (none, s)
    else
      (some id,
        { records := s.records.erase id
          deadlines := s.deadlines.rem id
          leases := s.leases.set id (t.totalMicroseconds / 1000 + removalLeaseMs) })

/-- `django_queue_notification_clear`. -/
def clear (s : RedisNotifications) : RedisNotifications :=
  let members := s.deadlines.items.map Prod.snd
  { records := members.foldl Dict.erase s.records
    deadlines := .empty
    leases := members.foldl Dict.erase s.leases }

inductive Call where
  | store (id : EntryId) (raw : Json) (lifetime : ℕ)
  | get (id : EntryId)
  | has
  | expire
  | clear

def exec (c : Call) (t : ServerTime) (s : RedisNotifications) :
    ExpiringStore.Reply EntryId Json × RedisNotifications :=
  match c with
  | .store id raw lifetime => (.done, s.store id raw lifetime t)
  | .get id => (.got (s.get id t), s)
  | .has => (.held (s.deadlines.card ≠ 0), s)
  | .expire => (.expired (s.expire t).1, (s.expire t).2)
  | .clear => (.done, s.clear)

/-- What the keys say of each identity. -/
def contents (s : RedisNotifications) : ExpiringStore EntryId Json ℚ := fun id =>
  match s.records.get? id, s.deadlines.score? id with
  | some raw, some deadline => some (raw, deadline)
  | _, _ => none

/-- The call as the store sees it. -/
def Call.op (c : Call) (t : ServerTime) : ExpiringStore.Op EntryId Json ℚ :=
  match c with
  | store id raw lifetime => .put id raw (fl (t.nowUs + fl lifetime))
  | get id => .get id
  | has => .has
  | expire => .expire t.nowUs
  | clear => .clear

/-- The keys, with the identities that were ever stored. -/
structure World where
  keys : RedisNotifications
  drawn : Set EntryId

structure Label where
  call : Call
  time : ServerTime
  reply : ExpiringStore.Reply EntryId Json

/-- `aenqueue` makes a new identity for every notification. -/
inductive Step : World → Label → World → Prop
  | store {w : World} {id : EntryId} {raw : Json} {lifetime : ℕ} {t : ServerTime} : id ∉ w.drawn →
      Step w ⟨.store id raw lifetime, t, .done⟩ ⟨w.keys.store id raw lifetime t, insert id w.drawn⟩
  | call {w : World} {c : Call} {t : ServerTime} : (∀ id raw lifetime, c ≠ .store id raw lifetime) →
      Step w ⟨c, t, (w.keys.exec c t).1⟩ ⟨(w.keys.exec c t).2, w.drawn⟩

/-- Records and index have the same members, and a lease is only that of a record that is gone for good. -/
structure Indexed (w : World) : Prop where
  indexed : ∀ id, w.keys.records.get? id = none ↔ w.keys.deadlines.score? id = none
  drawn : ∀ id, w.keys.records.get? id ≠ none → id ∈ w.drawn
  leased : ∀ id, w.keys.leases.get? id ≠ none → w.keys.records.get? id = none ∧ id ∈ w.drawn

theorem Indexed.empty (drawn : Set EntryId) : Indexed ⟨.empty, drawn⟩ :=
  ⟨fun _ => ⟨fun _ => rfl, fun _ => rfl⟩, fun _ h => absurd rfl h, fun _ h => absurd rfl h⟩

section Steps

variable {s : RedisNotifications} {w w' : World} {l : Label} {id : EntryId} {t : ServerTime}

theorem contents_store (raw : Json) (lifetime : ℕ) :
    (s.store id raw lifetime t).contents =
      Function.update s.contents id (some (raw, fl (t.nowUs + fl lifetime))) := by
  funext id'
  by_cases h : id' = id
  · subst h
    simp [contents, store]
  · simp [contents, store, h]

theorem contents_eq_some {raw : Json} {deadline : ℚ} :
    s.contents id = some (raw, deadline) ↔
      s.records.get? id = some raw ∧ s.deadlines.score? id = some deadline := by
  unfold contents
  cases s.records.get? id <;> cases s.deadlines.score? id <;> simp

theorem Indexed.exists_contents (hw : Indexed w) {deadline : ℚ} (h : w.keys.deadlines.score? id = some deadline) :
    ∃ raw, w.keys.contents id = some (raw, deadline) := by
  cases hrecord : w.keys.records.get? id with
  | none =>
    rw [(hw.indexed id).mp hrecord] at h
    cases h
  | some raw => exact ⟨raw, contents_eq_some.mpr ⟨hrecord, h⟩⟩

theorem Indexed.map_contents (hw : Indexed w) : (w.keys.contents id).map Prod.fst = w.keys.records.get? id := by
  cases hrecord : w.keys.records.get? id with
  | none => simp [contents, hrecord]
  | some raw =>
    obtain ⟨deadline, hdeadline⟩ := Option.ne_none_iff_exists'.mp
      (fun h => by rw [(hw.indexed id).mpr h] at hrecord; cases hrecord)
    rw [contents_eq_some.mpr ⟨hrecord, hdeadline⟩]
    rfl

/-- A lease hides nothing that is stored. -/
theorem Indexed.get_eq (hw : Indexed w) : w.keys.get id t = w.keys.records.get? id := by
  unfold get
  split_ifs with hlease
  · refine (hw.leased id fun hnone => ?_).1.symm
    rw [RedisNotifications.leased, hnone] at hlease
    cases hlease
  · rfl

theorem Indexed.store (hw : Indexed w) (hfresh : id ∉ w.drawn) (raw : Json) (lifetime : ℕ) :
    Indexed ⟨w.keys.store id raw lifetime t, insert id w.drawn⟩ where
  indexed id' := by
    simp only [RedisNotifications.store, Dict.get?_set, SortedSet.score?_add]
    split_ifs
    · simp
    · exact hw.indexed id'
  drawn id' h := by
    simp only [RedisNotifications.store, Dict.get?_set] at h
    split_ifs at h with hid
    · exact .inl hid
    · exact .inr (hw.drawn id' h)
  leased id' h := by
    obtain ⟨hnone, hdrawn⟩ := hw.leased id' h
    have hne : id' ≠ id := fun heq => hfresh (heq ▸ hdrawn)
    simp only [RedisNotifications.store, Dict.get?_set, if_neg hne]
    exact ⟨hnone, .inr hdrawn⟩

theorem Indexed.expire (hw : Indexed w) : Indexed ⟨(w.keys.expire t).2, w.drawn⟩ := by
  unfold RedisNotifications.expire
  split
  · exact hw
  · next deadline id hhead =>
    split_ifs
    · exact hw
    · have hmember : w.keys.records.get? id ≠ none := fun hnone => by
        have hscore := (SortedSet.head?_eq_some hhead).1
        rw [(hw.indexed id).mp hnone] at hscore
        cases hscore
      refine ⟨fun id' => ?_, fun id' h => ?_, fun id' h => ?_⟩
      · simp only [Dict.get?_erase, SortedSet.score?_rem]
        split_ifs
        · exact ⟨fun _ => rfl, fun _ => rfl⟩
        · exact hw.indexed id'
      · simp only [Dict.get?_erase] at h
        split_ifs at h
        · exact absurd rfl h
        · exact hw.drawn id' h
      · simp only [Dict.get?_set] at h
        simp only [Dict.get?_erase]
        split_ifs at h ⊢ with hid
        · rw [hid]
          exact ⟨rfl, hw.drawn id hmember⟩
        · exact hw.leased id' h

/-- The members of the index are all the records there are. -/
theorem Indexed.clear_records (hw : Indexed w) (id' : EntryId) : w.keys.clear.records.get? id' = none := by
  unfold RedisNotifications.clear
  dsimp only
  rw [Dict.get?_foldl_erase]
  split_ifs with hmem
  · rfl
  · refine (hw.indexed id').mpr (Option.eq_none_iff_forall_ne_some.mpr fun d hd => hmem ?_)
    exact List.mem_map_of_mem (SortedSet.score?_eq_some.mp hd)

theorem Indexed.clear (hw : Indexed w) : Indexed ⟨w.keys.clear, w.drawn⟩ := by
  refine ⟨fun id' => ⟨fun _ => rfl, fun _ => hw.clear_records id'⟩, fun id' h => ?_, fun id' h => ?_⟩
  · exact absurd (hw.clear_records id') h
  · refine ⟨hw.clear_records id', (hw.leased id' fun hnone => h ?_).2⟩
    unfold RedisNotifications.clear
    dsimp only
    rw [Dict.get?_foldl_erase, hnone, ite_self]

theorem Indexed.step (hw : Indexed w) (h : Step w l w') : Indexed w' := by
  cases h with
  | store hfresh => exact hw.store hfresh _ _
  | @call c t hc =>
    cases c with
    | store id raw lifetime => exact absurd rfl (hc id raw lifetime)
    | get id => exact hw
    | has => exact hw
    | expire => exact hw.expire
    | clear => exact hw.clear

/-- One call of the expiry is a call of the abstract one. -/
theorem Indexed.step_expire (hw : Indexed w) :
    ExpiringStore.Step w.keys.contents (.expire t.nowUs, .expired (w.keys.expire t).1) (w.keys.expire t).2.contents := by
  have hdeadline {id' : EntryId} {raw : Json} {d : ℚ} (h : w.keys.contents id' = some (raw, d)) :
      w.keys.deadlines.score? id' = some d := (contents_eq_some.mp h).2
  unfold RedisNotifications.expire
  split
  · next hhead =>
    refine .idle (Set.eq_empty_of_forall_notMem ?_)
    rintro id' ⟨raw, d, hcontents, -⟩
    have hscore := hdeadline hcontents
    rw [SortedSet.score?_eq_none_of_head? hhead] at hscore
    cases hscore
  · next deadline id hhead =>
    obtain ⟨hscore, hmin⟩ := SortedSet.head?_eq_some hhead
    split_ifs with hlater
    · refine .idle (Set.eq_empty_of_forall_notMem ?_)
      rintro id' ⟨raw, d, hcontents, hdue⟩
      exact absurd (hlater.trans_le (hmin id' d (hdeadline hcontents))) (not_lt.mpr hdue)
    · obtain ⟨raw, hcontents⟩ := hw.exists_contents hscore
      have hremoved : (⟨w.keys.records.erase id, w.keys.deadlines.rem id,
          w.keys.leases.set id (t.totalMicroseconds / 1000 + removalLeaseMs)⟩ : RedisNotifications).contents =
          Function.update w.keys.contents id none := by
        funext id'
        by_cases hid : id' = id
        · subst hid
          simp [contents]
        · simp [contents, hid]
      dsimp only
      rw [hremoved]
      exact .expire ⟨raw, deadline, hcontents, not_lt.mp hlater⟩
        ⟨raw, deadline, hcontents, fun id' _ d h => hmin id' d (hdeadline h)⟩

/-- Every call is the call of the abstract store, with the same reply. -/
theorem Indexed.step_contents (hw : Indexed w) (h : Step w l w') :
    ExpiringStore.Step w.keys.contents (l.call.op l.time, l.reply) w'.keys.contents := by
  cases h with
  | store hfresh =>
    rw [contents_store]
    exact .put
  | @call c t hc =>
    cases c with
    | store id raw lifetime => exact absurd rfl (hc id raw lifetime)
    | get id =>
      have hget := ExpiringStore.Step.get (m := w.keys.contents) (i := id)
      rwa [hw.map_contents, ← hw.get_eq (t := t)] at hget
    | has =>
      refine .has ?_
      rw [decide_eq_true_eq, Ne, SortedSet.card_eq_zero, not_forall]
      constructor
      · rintro ⟨id, hid⟩
        obtain ⟨deadline, hdeadline⟩ := Option.ne_none_iff_exists'.mp hid
        obtain ⟨raw, hraw⟩ := hw.exists_contents hdeadline
        exact ⟨id, by rw [hraw]; exact Option.some_ne_none _⟩
      · rintro ⟨id, hid⟩
        obtain ⟨⟨raw, d⟩, hsome⟩ := Option.ne_none_iff_exists'.mp hid
        exact ⟨id, by rw [(contents_eq_some.mp hsome).2]; exact Option.some_ne_none _⟩
    | expire => exact hw.step_expire
    | clear =>
      have hcleared : w.keys.clear.contents = fun _ => none := by
        funext id
        simp [contents, hw.clear_records id]
      change ExpiringStore.Step w.keys.contents (.clear, .done) w.keys.clear.contents
      rw [hcleared]
      exact .clear

theorem Indexed.run {ls : List Label} (hw : Indexed w) (h : Run Step w ls w') : Indexed w' :=
  h.invariant (fun _ _ _ hw hstep => hw.step hstep) hw

theorem Indexed.run_contents {ls : List Label} (hw : Indexed w) (h : Run Step w ls w') :
    Run ExpiringStore.Step w.keys.contents (ls.map fun l => (l.call.op l.time, l.reply)) w'.keys.contents := by
  obtain ⟨m, hrun, -, rfl⟩ := h.simulates (R := fun w m => Indexed w ∧ m = w.keys.contents)
    (f := fun l => some (l.call.op l.time, l.reply)) (fun w l w' m hR hstep => by
      obtain ⟨hw, rfl⟩ := hR
      exact ⟨_, hw.step_contents hstep, hw.step hstep, rfl⟩) ⟨hw, rfl⟩
  rwa [List.filterMap_eq_map'] at hrun

/-- From an empty keyspace, whatever the workers and producers call and in whatever order: the keys are the store of
items with deadlines, with the same replies. -/
theorem redis_notifications_refine {drawn : Set EntryId} {ls : List Label} (h : Run Step ⟨.empty, drawn⟩ ls w) :
    Run ExpiringStore.Step (fun _ => none) (ls.map fun l => (l.call.op l.time, l.reply)) w.keys.contents :=
  (Indexed.empty drawn).run_contents h

def Call.isExpire : Call → Bool
  | .expire => true
  | _ => false

theorem countP_isExpire (ls : List Label) :
    (ls.map fun l => (l.call.op l.time, l.reply)).countP ExpiringStore.isExpire =
      ls.countP fun l => l.call.isExpire := by
  rw [List.countP_map]
  refine List.countP_congr fun l _ => ?_
  rw [Function.comp_apply]
  cases l.call <;> rfl

theorem ncard_dueBy_le (s : RedisNotifications) (T : ℚ) :
    (s.contents.dueBy T).Finite ∧ (s.contents.dueBy T).ncard ≤ (s.deadlines.upTo T).length := by
  have hsub : s.contents.dueBy T ⊆ ((s.deadlines.upTo T).map Prod.snd).toFinset := by
    rintro id ⟨raw, d, hcontents, hle⟩
    rw [Finset.mem_coe, List.mem_toFinset]
    exact List.mem_map.mpr ⟨(d, id), SortedSet.mem_upTo.mpr ⟨(contents_eq_some.mp hcontents).2, hle⟩, rfl⟩
  refine ⟨(Finset.finite_toSet _).subset hsub, (Set.ncard_le_ncard hsub (Finset.finite_toSet _)).trans ?_⟩
  rw [Set.ncard_coe_finset]
  exact (List.toFinset_card_le _).trans (List.length_map ..).le

/-- Expiries at `T` or later, as many as there are notifications due by `T`, remove all of these and no notification
whose deadline had not come, whatever is stored with a later deadline or read in between. -/
theorem redis_notifications_drained {drawn : Set EntryId} {ls₀ ls : List Label} {T : ℚ}
    (h₀ : Run Step ⟨.empty, drawn⟩ ls₀ w) (h : Run Step w ls w')
    (hls : ∀ l ∈ ls, ExpiringStore.LeavesDue T (l.call.op l.time))
    (hcount : (w.keys.deadlines.upTo T).length ≤ ls.countP fun l => l.call.isExpire) :
    w'.keys.deadlines.upTo T = [] ∧
    ∀ id raw d, w.keys.contents id = some (raw, d) →
      (∀ l ∈ ls, ExpiringStore.Leaves id d (l.call.op l.time)) → ∀ t, w'.keys.get id t = some raw := by
  have hw : Indexed w := (Indexed.empty drawn).run h₀
  have hw' : Indexed w' := hw.run h
  have hrun := hw.run_contents h
  obtain ⟨hfin, hcard⟩ := ncard_dueBy_le w.keys T
  constructor
  · have hempty := ExpiringStore.dueBy_eq_empty_of_run (T := T) hrun (fun l hl => by
      obtain ⟨l', hl', rfl⟩ := List.mem_map.mp hl
      exact hls l' hl') hfin (by
        rw [countP_isExpire]
        exact hcard.trans hcount)
    refine List.eq_nil_iff_forall_not_mem.mpr fun p hp => ?_
    obtain ⟨hscore, hle⟩ := SortedSet.mem_upTo.mp hp
    obtain ⟨raw, hraw⟩ := hw'.exists_contents hscore
    exact Set.notMem_empty p.2 (hempty ▸ ⟨raw, p.1, hraw, hle⟩)
  · intro id raw d hcontents hleaves t
    have hkept := ExpiringStore.kept_of_run hrun hcontents fun l hl => by
      obtain ⟨l', hl', rfl⟩ := List.mem_map.mp hl
      exact hleaves l' hl'
    rw [hw'.get_eq]
    exact (contents_eq_some.mp hkept).1

end Steps

/-- One notification, stored at the thousandth second with a lifetime of one microsecond. -/
def oneStored : RedisNotifications := empty.store (.ofLast 1) .null 1 (.ofSeconds 1000 ServerTime.second_1000)

theorem run_oneStored :
    Run Step ⟨empty, ∅⟩ [⟨.store (.ofLast 1) .null 1, .ofSeconds 1000 ServerTime.second_1000, .done⟩]
      ⟨oneStored, insert (.ofLast 1) ∅⟩ :=
  .cons (.store (Set.notMem_empty _)) (.nil _)

/-- A second one lasts for two thousand seconds. -/
def twoStored : RedisNotifications :=
  oneStored.store (.ofLast 2) .null 2000000000 (.ofSeconds 1000 ServerTime.second_1000)

/-- The first one expires and is asked for while its removal lease lasts; the second one is still there. -/
theorem redis_notifications_refine_expired :
    let t : ServerTime := .ofSeconds 2000 ServerTime.second_2000
    let s := (twoStored.expire t).2
    s.leased (.ofLast 1) t = true ∧ (s.get (.ofLast 2) t).isSome ∧ ∃ d d',
      Run ExpiringStore.Step (fun _ => none) [(.put (.ofLast 1) .null d, .done), (.put (.ofLast 2) .null d', .done),
        (.expire t.nowUs, .expired (some (.ofLast 1))), (.get (.ofLast 1), .got none),
        (.get (.ofLast 2), .got (s.get (.ofLast 2) t)), (.has, .held true)] s.contents := by
  intro t s
  let t₀ : ServerTime := .ofSeconds 1000 ServerTime.second_1000
  have hexpire : (twoStored.expire t).1 = some (.ofLast 1) := by decide +kernel
  have hget : s.get (.ofLast 1) t = none := Option.isNone_iff_eq_none.mp (by decide +kernel)
  have hhas : (s.exec .has t).1 = .held true := congrArg ExpiringStore.Reply.held (by decide +kernel)
  have hfresh : EntryId.ofLast 2 ∉ insert (EntryId.ofLast 1) (∅ : Set EntryId) := by
    rw [Set.mem_insert_iff, Set.mem_empty_iff_false, or_false]
    decide
  have hrun : Run Step ⟨.empty, ∅⟩ _ ⟨twoStored, _⟩ := run_oneStored.snoc (.store hfresh)
  replace hrun := hrun.snoc (.call (c := .expire) (t := t) fun _ _ _ h => by cases h)
  replace hrun := hrun.snoc (.call (c := .get (.ofLast 1)) (t := t) fun _ _ _ h => by cases h)
  replace hrun := hrun.snoc (.call (c := .get (.ofLast 2)) (t := t) fun _ _ _ h => by cases h)
  replace hrun := hrun.snoc (.call (c := .has) (t := t) fun _ _ _ h => by cases h)
  have hrefined : Run ExpiringStore.Step (fun _ => none)
      [(.put (.ofLast 1) .null (fl (t₀.nowUs + fl (1 : ℕ))), .done),
        (.put (.ofLast 2) .null (fl (t₀.nowUs + fl (2000000000 : ℕ))), .done),
        (.expire t.nowUs, .expired (twoStored.expire t).1), (.get (.ofLast 1), .got (s.get (.ofLast 1) t)),
        (.get (.ofLast 2), .got (s.get (.ofLast 2) t)), (.has, (s.exec .has t).1)] s.contents :=
    redis_notifications_refine hrun
  rw [hexpire, hget, hhas] at hrefined
  exact ⟨by decide +kernel, by decide +kernel, _, _, hrefined⟩

theorem redis_notifications_drained_one :
    let t := ServerTime.ofSeconds 2000 ServerTime.second_2000
    (oneStored.expire t).2.deadlines.upTo t.nowUs = [] :=
  (redis_notifications_drained run_oneStored (.cons (.call (c := .expire) (fun _ _ _ h => by cases h)) (.nil _))
    (fun l hl => by
      rw [List.mem_singleton.mp hl]
      exact le_rfl) (List.length_filter_le _ _)).1

end RedisNotifications

end DjangoQueues
