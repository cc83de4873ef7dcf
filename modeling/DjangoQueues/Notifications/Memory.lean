import DjangoQueues.Clock
import DjangoQueues.Entries
import DjangoQueues.Lib.Dict
import DjangoQueues.Lib.ExpiringStore

/-! The notifications of the memory provider: the same store as on Redis, and beside it the queue of those that no
worker has seen yet. Every method runs under the provider's lock. -/

namespace DjangoQueues

structure MemoryNotifications (cls : EntryClass) where
  entries : Dict EntryId (QueueEntry cls)
  deadlines : Dict EntryId ClockTime
  seen : List (QueueEntry cls)

namespace MemoryNotifications

variable {cls : EntryClass}

def empty : MemoryNotifications cls := ⟨.empty, .empty, []⟩

/-- `astore_notification` of an entry with this lifetime in microseconds. -/
def store (e : QueueEntry cls) (lifetime : ℕ) (s : MemoryNotifications cls) : MemoryNotifications cls where
  entries := s.entries.set e.id e
  deadlines := s.deadlines.set e.id (e.queuedAt.add lifetime)
  seen := s.seen ++ [e]

/-- `asee_next_notification`. -/
def seeNext (s : MemoryNotifications cls) : Option (QueueEntry cls) × MemoryNotifications cls :=
  (s.seen.head?, { s with seen := s.seen.tail })

/-- The due deadlines, earliest first; the sort is stable. -/
def due (now : ClockTime) (s : MemoryNotifications cls) : List (EntryId × ClockTime) :=
  (s.deadlines.items.filter fun p => p.2 ≤ now).mergeSort fun p q => p.2 ≤ q.2

/-- `aexpire_due_notifications`, at the reading of the clock it made before it took the lock. -/
def expire (now : ClockTime) (s : MemoryNotifications cls) : Option EntryId × MemoryNotifications cls :=
  match (s.due now).head? with
  | none => (none, s)
  | some p => (some p.1, { s with entries := s.entries.erase p.1, deadlines := s.deadlines.erase p.1 })

inductive Call (cls : EntryClass) where
  | store (e : QueueEntry cls) (lifetime : ℕ)
  | get (id : EntryId)
  | has
  | expire (now : ClockTime)
  | clear
  | seeNext

inductive Reply (cls : EntryClass) where
  | kept (r : ExpiringStore.Reply EntryId (QueueEntry cls))
  | saw (e : Option (QueueEntry cls))

def exec (c : Call cls) (s : MemoryNotifications cls) : Reply cls × MemoryNotifications cls :=
  match c with
  | .store e lifetime => (.kept .done, s.store e lifetime)
  | .get id => (.kept (.got (s.entries.get? id)), s)
  | .has => (.kept (.held !s.entries.items.isEmpty), s)
  | .expire now => (.kept (.expired (s.expire now).1), (s.expire now).2)
  | .clear => (.kept .done, empty)
  | .seeNext => (.saw s.seeNext.1, s.seeNext.2)

def Step (s : MemoryNotifications cls) (l : Call cls × Reply cls) (s' : MemoryNotifications cls) : Prop :=
  s.exec l.1 = (l.2, s')

/-- What the two dictionaries say of each identity. -/
def contents (s : MemoryNotifications cls) : ExpiringStore EntryId (QueueEntry cls) ClockTime := fun id =>
  match s.entries.get? id, s.deadlines.get? id with
  | some e, some deadline => some (e, deadline)
  | _, _ => none

/-- The call as the store sees it; what a worker sees is not its business. -/
def storeLabel : Call cls × Reply cls →
    Option (ExpiringStore.Op EntryId (QueueEntry cls) ClockTime × ExpiringStore.Reply EntryId (QueueEntry cls))
  | (.store e lifetime, .kept r) => some (.put e.id e (e.queuedAt.add lifetime), r)
  | (.get id, .kept r) => some (.get id, r)
  | (.has, .kept r) => some (.has, r)
  | (.expire now, .kept r) => some (.expire now, r)
  | (.clear, .kept r) => some (.clear, r)
  | _ => none

/-- The dictionaries have the same keys. -/
def Paired (s : MemoryNotifications cls) : Prop := ∀ id, s.entries.get? id = none ↔ s.deadlines.get? id = none

section Steps

variable {s s' : MemoryNotifications cls} {l : Call cls × Reply cls} {id : EntryId} {now : ClockTime}

theorem contents_eq_some {e : QueueEntry cls} {deadline : ClockTime} :
    s.contents id = some (e, deadline) ↔ s.entries.get? id = some e ∧ s.deadlines.get? id = some deadline := by
  unfold contents
  cases s.entries.get? id <;> cases s.deadlines.get? id <;> simp

theorem Paired.exists_contents (hs : Paired s) {deadline : ClockTime} (h : s.deadlines.get? id = some deadline) :
    ∃ e, s.contents id = some (e, deadline) := by
  cases hentry : s.entries.get? id with
  | none =>
    rw [(hs id).mp hentry] at h
    cases h
  | some e => exact ⟨e, contents_eq_some.mpr ⟨hentry, h⟩⟩

theorem Paired.map_contents (hs : Paired s) : (s.contents id).map Prod.fst = s.entries.get? id := by
  cases hentry : s.entries.get? id with
  | none => simp [contents, hentry]
  | some e =>
    obtain ⟨deadline, hdeadline⟩ := Option.ne_none_iff_exists'.mp
      (fun h => by rw [(hs id).mpr h] at hentry; cases hentry)
    rw [contents_eq_some.mpr ⟨hentry, hdeadline⟩]
    rfl

/-- The first of the due deadlines is one of them, and the earliest. -/
theorem head?_due {p : EntryId × ClockTime} (h : (s.due now).head? = some p) :
    s.deadlines.get? p.1 = some p.2 ∧ p.2 ≤ now ∧
      ∀ id d, s.deadlines.get? id = some d → d ≤ now → p.2 ≤ d := by
  obtain ⟨rest, hdue⟩ := List.head?_eq_some_iff.mp h
  have hmem {q : EntryId × ClockTime} : q ∈ s.due now ↔ s.deadlines.get? q.1 = some q.2 ∧ q.2 ≤ now := by
    rw [due, List.mem_mergeSort, List.mem_filter, decide_eq_true_eq, Dict.get?_eq_some]
  have hsorted : (s.due now).Pairwise fun p q => p.2 ≤ q.2 := by
    refine List.Pairwise.imp of_decide_eq_true (List.pairwise_mergeSort ?_ ?_ _)
    · intro a b c hab hbc
      exact decide_eq_true ((of_decide_eq_true hab).trans (of_decide_eq_true hbc))
    · intro a b
      rw [Bool.or_eq_true, decide_eq_true_eq, decide_eq_true_eq]
      exact le_total a.2 b.2
  obtain ⟨hget, hle⟩ := hmem.mp (hdue ▸ List.mem_cons_self : p ∈ s.due now)
  refine ⟨hget, hle, fun id d hd hdue' => ?_⟩
  have hin : (id, d) ∈ s.due now := hmem.mpr ⟨hd, hdue'⟩
  rw [hdue] at hin hsorted
  rcases List.mem_cons.mp hin with heq | hin
  · rw [← heq]
  · exact List.rel_of_pairwise_cons hsorted hin

theorem due_eq_nil (h : (s.due now).head? = none) {d : ClockTime} (hd : s.deadlines.get? id = some d) : ¬d ≤ now := by
  intro hle
  have hin : (id, d) ∈ s.due now := by
    rw [due, List.mem_mergeSort, List.mem_filter, decide_eq_true_eq, ← Dict.get?_eq_some]
    exact ⟨hd, hle⟩
  rw [List.head?_eq_none_iff.mp h] at hin
  cases hin

theorem contents_store (e : QueueEntry cls) (lifetime : ℕ) :
    (s.store e lifetime).contents = Function.update s.contents e.id (some (e, e.queuedAt.add lifetime)) := by
  funext id
  by_cases h : id = e.id
  · subst h
    simp [contents, store]
  · simp [contents, store, h]

theorem Paired.expire (hs : Paired s) : Paired (s.expire now).2 := by
  unfold MemoryNotifications.expire
  split
  · exact hs
  · intro id
    simp only [Dict.get?_erase]
    split_ifs
    · exact ⟨fun _ => rfl, fun _ => rfl⟩
    · exact hs id

theorem Paired.step_expire (hs : Paired s) :
    ExpiringStore.Step s.contents (.expire now, .expired (s.expire now).1) (s.expire now).2.contents := by
  unfold MemoryNotifications.expire
  split
  · next hhead =>
    refine .idle (Set.eq_empty_of_forall_notMem ?_)
    rintro id ⟨e, d, hcontents, hle⟩
    exact due_eq_nil hhead (contents_eq_some.mp hcontents).2 hle
  · next p hhead =>
    obtain ⟨hget, hle, hmin⟩ := head?_due hhead
    obtain ⟨e, hcontents⟩ := hs.exists_contents hget
    have hremoved : (⟨s.entries.erase p.1, s.deadlines.erase p.1, s.seen⟩ : MemoryNotifications cls).contents =
        Function.update s.contents p.1 none := by
      funext id
      by_cases hid : id = p.1
      · subst hid
        simp [contents]
      · simp [contents, hid]
    dsimp only
    rw [hremoved]
    refine .expire ⟨e, p.2, hcontents, hle⟩ ⟨e, p.2, hcontents, fun id _ d h => ?_⟩
    -- what is not due yet is later than what is
    rcases le_or_gt d now with hd | hd
    · exact hmin id d (contents_eq_some.mp h).2 hd
    · exact hle.trans hd.le

theorem Paired.isEmpty_iff (hs : Paired s) : (!s.entries.items.isEmpty) = true ↔ ∃ id, s.contents id ≠ none := by
  rw [Bool.not_eq_true', List.isEmpty_eq_false_iff]
  constructor
  · intro hne
    obtain ⟨⟨id, e⟩, hmem⟩ := List.exists_mem_of_ne_nil _ hne
    refine ⟨id, fun hnone => ?_⟩
    have hget : _ = s.entries.get? id := hs.map_contents
    rw [hnone, Dict.get?_eq_some.mpr hmem] at hget
    cases hget
  · rintro ⟨id, hid⟩ hnil
    obtain ⟨⟨e, d⟩, hsome⟩ := Option.ne_none_iff_exists'.mp hid
    have hmem := Dict.get?_eq_some.mp (contents_eq_some.mp hsome).1
    rw [hnil] at hmem
    cases hmem

/-- Every call is the call of the abstract store, with the same reply, or does not touch it. -/
theorem Paired.step (hs : Paired s) (h : Step s l s') :
    Paired s' ∧ match storeLabel l with
      | none => s'.contents = s.contents
      | some l' => ExpiringStore.Step s.contents l' s'.contents := by
  obtain ⟨c, r⟩ := l
  cases c with
  | store e lifetime =>
    cases h
    refine ⟨fun id => ?_, ?_⟩
    · simp only [MemoryNotifications.store, Dict.get?_set]
      split_ifs
      · simp
      · exact hs id
    · dsimp only [storeLabel]
      rw [contents_store]
      exact .put
  | get id =>
    cases h
    refine ⟨hs, ?_⟩
    dsimp only [storeLabel]
    rw [← hs.map_contents]
    exact .get
  | has =>
    cases h
    exact ⟨hs, .has hs.isEmpty_iff⟩
  | expire now =>
    cases h
    exact ⟨hs.expire, hs.step_expire⟩
  | clear =>
    cases h
    exact ⟨fun _ => ⟨fun _ => rfl, fun _ => rfl⟩, .clear⟩
  | seeNext =>
    cases h
    exact ⟨hs, rfl⟩

theorem Paired.run_contents {ls : List (Call cls × Reply cls)} (hs : Paired s) (h : Run Step s ls s') :
    Run ExpiringStore.Step s.contents (ls.filterMap storeLabel) s'.contents := by
  obtain ⟨m, hrun, -, rfl⟩ := h.simulates (R := fun s m => Paired s ∧ m = s.contents) (f := storeLabel)
    (fun s l s' m hR hstep => by
      obtain ⟨hs, rfl⟩ := hR
      obtain ⟨hs', hl⟩ := hs.step hstep
      split
      · next hlabel =>
        rw [hlabel] at hl
        exact ⟨hs', hl.symm⟩
      · next l' hlabel =>
        rw [hlabel] at hl
        exact ⟨_, hl, hs', rfl⟩) ⟨hs, rfl⟩
  exact hrun

/-- The notification that a call stores. -/
def storedBy : Call cls × Reply cls → Option (QueueEntry cls)
  | (.store e _, _) => some e
  | _ => none

/-- The notification that a worker is given. -/
def deliveredBy : Call cls × Reply cls → Option (QueueEntry cls)
  | (_, .saw e) => e
  | _ => none

/-- What is not seen yet and what is stored is what is delivered and what is left. -/
theorem seen_append_stored {ls : List (Call cls × Reply cls)} (h : Run Step s ls s') (hclear : ∀ r, (.clear, r) ∉ ls) :
    s.seen ++ ls.filterMap storedBy = ls.filterMap deliveredBy ++ s'.seen := by
  induction h with
  | nil s => exact List.append_nil _
  | @cons s s₁ s₂ l ls hstep _ ih =>
    replace ih := ih fun r hr => hclear r (List.mem_cons_of_mem _ hr)
    obtain ⟨c, r⟩ := l
    cases c with
    | store e lifetime =>
      cases hstep
      rw [MemoryNotifications.store, List.append_assoc] at ih
      exact ih
    | get id =>
      cases hstep
      exact ih
    | has =>
      cases hstep
      exact ih
    | expire now =>
      cases hstep
      have hseen : (s.expire now).2.seen = s.seen := by
        rw [MemoryNotifications.expire]
        split <;> rfl
      rw [hseen] at ih
      exact ih
    | clear => exact absurd List.mem_cons_self (hclear r)
    | seeNext =>
      cases hstep
      rw [MemoryNotifications.seeNext] at ih ⊢
      cases hseen : s.seen with
      | nil =>
        rw [hseen] at ih
        exact ih
      | cons e rest =>
        rw [hseen] at ih
        exact congrArg (List.cons e) ih

/-- From an empty provider, in every order of calls by any number of workers: the dictionaries are the store of items
with deadlines, with the same replies. Every notification is given to one worker, in the order of storing and whether
or not its stored copy has expired, or is still to be given. -/
theorem memory_notifications_refine {ls : List (Call cls × Reply cls)} (h : Run Step empty ls s) :
    Run ExpiringStore.Step (fun _ => none) (ls.filterMap storeLabel) s.contents ∧
      ((∀ r, (.clear, r) ∉ ls) → ls.filterMap storedBy = ls.filterMap deliveredBy ++ s.seen) :=
  ⟨Paired.run_contents (fun _ => ⟨fun _ => rfl, fun _ => rfl⟩) h, fun hclear => seen_append_stored h hclear⟩

end Steps

/-- A notification that expires before a worker has seen it. -/
def expiredUnseen (e : QueueEntry .base) : List (Call .base × Reply .base) :=
  [(.store e 0, .kept .done), (.expire e.queuedAt, .kept (.expired ((empty.store e 0).expire e.queuedAt).1)),
    (.seeNext, .saw ((empty.store e 0).expire e.queuedAt).2.seeNext.1)]

theorem run_expiredUnseen (e : QueueEntry .base) :
    Run Step empty (expiredUnseen e) ((empty.store e 0).expire e.queuedAt).2.seeNext.2 :=
  .cons rfl (.cons rfl (.cons rfl (.nil _)))

theorem memory_notifications_refine_expiredUnseen :
    (expiredUnseen (.plain (.ofLast 1) .null)).filterMap storedBy =
      (expiredUnseen (.plain (.ofLast 1) .null)).filterMap deliveredBy ++
        ((empty.store (.plain (.ofLast 1) .null) 0).expire (QueueEntry.plain (.ofLast 1) .null).queuedAt).2.seeNext.2.seen :=
  (memory_notifications_refine (run_expiredUnseen _)).2 fun r hr => by simp [expiredUnseen] at hr

end MemoryNotifications

end DjangoQueues
