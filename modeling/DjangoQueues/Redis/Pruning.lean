import DjangoQueues.Redis.RecordChanges
import DjangoQueues.Lib.KeyScan

/-! Pruning of a tracked Redis queue while workers use it. A step of a pruner is one read, one
page of keys, one call of `django_queue_prune` or one publication. -/

namespace DjangoQueues

variable {limits : RecursionLimits} {cls : EntryClass}

namespace ClockTime

/-- `__sub__` of two instants: an integer division in binary64. -/
def secondsSince (t t' : ClockTime) : ℚ := fl (((t.totalMicroseconds : ℤ) - t'.totalMicroseconds : ℤ) / 1000000)

end ClockTime

namespace Redis

namespace Pruning

abbrev CallId := ℕ

/-- How a call of `AsyncQueue.aprune` ends: the last two are raised to its caller. -/
inductive Ending where
  | returned
  | notFound
  | nonTerminal
  | unreadable (r : RestoreError)
deriving DecidableEq

/-- Who calls `aprune`: a user, or the loop of `_aprune_expired`, with its clock reading, the ids
still to come and its count. -/
inductive Caller where
  | user
  | expired (now : ClockTime) (todo : List EntryId) (pruned : ℕ)

/-- The result of a call that has ended. -/
inductive Ended where
  | aprune (r : Ending)
  | expired (r : Except Ending ℕ)
  /-- `alist` raised. -/
  | unlisted (r : RestoreError)

/-- Where a call is; an `aprune` keeps the record it has found. -/
inductive Phase (cls : EntryClass) where
  | idle
  | clock
  | list (now : ClockTime)
  /-- In `alist`, which looks for the keys. -/
  | listing (now : ClockTime) (keys : KeyScan EntryId)
  | sweep (now : ClockTime) (todo : List EntryId) (pruned : ℕ)
  | find (caller : Caller) (id : EntryId)
  | prune (caller : Caller) (id : EntryId) (found : Json)
  | publish (caller : Caller) (id : EntryId) (found : Json) (e : QueueEntry cls)
  | ended (r : Ended)

/-- A deletion, with the call that made it and the clock reading when it was `_aprune_expired`. -/
structure Deletion where
  pruner : CallId
  reading : Option ClockTime
  id : EntryId
  raw : Json

/-- A call of `aprune` that has ended, with the record it had read. -/
structure Attempt where
  pruner : CallId
  id : EntryId
  found : Option Json
  ending : Ending

structure World (cls : EntryClass) where
  store : Store
  now : ServerTime
  calls : CallId → Phase cls
  deleted : List Deletion
  attempts : List Attempt
  published : List (CallId × QueueEntry cls)

def World.init (t : ServerTime) : World cls where
  store := .empty
  now := t
  calls := fun _ => .idle
  deleted := []
  attempts := []
  published := []

def Caller.reading : Caller → Option ClockTime
  | .user => none
  | .expired now _ _ => some now

/-- What the caller does with the end of `aprune`. -/
def Caller.resume : Caller → Ending → Phase cls
  | .user, r => .ended (.aprune r)
  | .expired now todo pruned, .returned => .sweep now todo (pruned + 1)
  | .expired now todo pruned, .notFound => .sweep now todo pruned
  | .expired _ _ _, r => .ended (.expired (.error r))

namespace World

def move (c : CallId) (phase : Phase cls) (w : World cls) : World cls :=
  { w with calls := Function.update w.calls c phase }

def finish (c : CallId) (caller : Caller) (id : EntryId) (found : Option Json) (r : Ending) (w : World cls) : World cls :=
  { w with
    calls := Function.update w.calls c (caller.resume r)
    attempts := w.attempts ++ [⟨c, id, found, r⟩] }

end World

/-- `alist` once it has found these keys. -/
def alist (limits : RecursionLimits) (cls : EntryClass) (keys : KeyScan EntryId) (s : Store) :
    Except RestoreError (List (QueueEntry cls)) :=
  (keys.values s.records).mapM (QueueEntry.fromDict limits cls)

/-- The condition of `_aprune_expired`. -/
def isExpired (retention : ℚ) (now : ClockTime) (e : QueueEntry cls) : Bool :=
  decide e.status.Terminal && e.finishedAt.any fun t => decide (retention ≤ now.secondsSince t)

inductive Action (cls : EntryClass) where
  | call (c : Call cls) (t : ServerTime)
  | aprune (c : CallId) (id : EntryId)
  | apruneExpired (c : CallId)
  | anow (c : CallId) (now : ClockTime)
  | scan (c : CallId)
  | page (c : CallId) (ids : List EntryId)
  | mget (c : CallId)
  | next (c : CallId)
  | afind (c : CallId)
  | prune (c : CallId)
  | apublish (c : CallId)

/-- One step of a worker or of a pruner. -/
inductive Step (limits : RecursionLimits) (kind : QueueKind) (retention : Option ℚ) (w : World cls) :
    Action cls → World cls → Prop
  | call {c : Call cls} {t : ServerTime} (ht : w.now ≤ t)
      (hc : Working limits (fun id => ∀ d ∈ w.deleted, d.id ≠ id) w.store c) :
    Step limits kind retention w (.call c t) { w with store := (exec kind c t w.store).2, now := t }
  | aprune {c : CallId} {id : EntryId} (hc : w.calls c = .idle) :
    Step limits kind retention w (.aprune c id) (w.move c (.find .user id))
  | kept {c : CallId} (hc : w.calls c = .idle) (hr : retention = none) :
    Step limits kind retention w (.apruneExpired c) (w.move c (.ended (.expired (.ok 0))))
  | apruneExpired {c : CallId} {r : ℚ} (hc : w.calls c = .idle) (hr : retention = some r) :
    Step limits kind retention w (.apruneExpired c) (w.move c .clock)
  | anow {c : CallId} {now : ClockTime} (hc : w.calls c = .clock) :
    Step limits kind retention w (.anow c now) (w.move c (.list now))
  | scan {c : CallId} {now : ClockTime} (hc : w.calls c = .list now) :
    Step limits kind retention w (.scan c) (w.move c (.listing now (.start w.store.records)))
  | page {c : CallId} {ids : List EntryId} {now : ClockTime} {keys : KeyScan EntryId}
      (hc : w.calls c = .listing now keys) (hids : KeyScan.Stored w.store.records ids) :
    Step limits kind retention w (.page c ids) (w.move c (.listing now (keys.page ids)))
  | mget {c : CallId} {now : ClockTime} {keys : KeyScan EntryId} {r : ℚ} {es : List (QueueEntry cls)}
      (hc : w.calls c = .listing now keys) (hk : keys.Complete w.store.records) (hr : retention = some r)
      (hl : alist limits cls keys w.store = .ok es) :
    Step limits kind retention w (.mget c)
      (w.move c (.sweep now ((es.filter (isExpired r now)).map QueueEntry.id) 0))
  | unlisted {c : CallId} {now : ClockTime} {keys : KeyScan EntryId} {r : RestoreError}
      (hc : w.calls c = .listing now keys) (hk : keys.Complete w.store.records)
      (hl : alist limits cls keys w.store = .error r) :
    Step limits kind retention w (.mget c) (w.move c (.ended (.unlisted r)))
  | next {c : CallId} {now : ClockTime} {id : EntryId} {todo : List EntryId} {n : ℕ}
      (hc : w.calls c = .sweep now (id :: todo) n) :
    Step limits kind retention w (.next c) (w.move c (.find (.expired now todo n) id))
  | swept {c : CallId} {now : ClockTime} {n : ℕ} (hc : w.calls c = .sweep now [] n) :
    Step limits kind retention w (.next c) (w.move c (.ended (.expired (.ok n))))
  | missing {c : CallId} {caller : Caller} {id : EntryId} (hc : w.calls c = .find caller id)
      (hr : w.store.records.get? id = none) :
    Step limits kind retention w (.afind c) (w.finish c caller id none .notFound)
  | unreadable {c : CallId} {caller : Caller} {id : EntryId} {raw : Json} {r : RestoreError}
      (hc : w.calls c = .find caller id) (hr : w.store.records.get? id = some raw)
      (he : QueueEntry.fromDict limits cls raw = .error r) :
    Step limits kind retention w (.afind c) (w.finish c caller id (some raw) (.unreadable r))
  | nonTerminal {c : CallId} {caller : Caller} {id : EntryId} {raw : Json} {e : QueueEntry cls}
      (hc : w.calls c = .find caller id) (hr : w.store.records.get? id = some raw)
      (he : QueueEntry.fromDict limits cls raw = .ok e) (ht : ¬e.status.Terminal) :
    Step limits kind retention w (.afind c) (w.finish c caller id (some raw) .nonTerminal)
  | found {c : CallId} {caller : Caller} {id : EntryId} {raw : Json} {e : QueueEntry cls}
      (hc : w.calls c = .find caller id) (hr : w.store.records.get? id = some raw)
      (he : QueueEntry.fromDict limits cls raw = .ok e) (ht : e.status.Terminal) :
    Step limits kind retention w (.afind c) (w.move c (.prune caller id raw))
  | gone {c : CallId} {caller : Caller} {id : EntryId} {found : Json} (hc : w.calls c = .prune caller id found)
      (hp : (Library.prune id w.store).1 = .missing) :
    Step limits kind retention w (.prune c) (World.finish c caller id (some found) .notFound { w with
      store := (Library.prune id w.store).2 })
  | refused {c : CallId} {caller : Caller} {id : EntryId} {found : Json} (hc : w.calls c = .prune caller id found)
      (hp : (Library.prune id w.store).1 = .nonTerminal) :
    Step limits kind retention w (.prune c) (World.finish c caller id (some found) .nonTerminal { w with
      store := (Library.prune id w.store).2 })
  | pruned {c : CallId} {caller : Caller} {id : EntryId} {found raw : Json} {e : QueueEntry cls}
      (hc : w.calls c = .prune caller id found) (hp : (Library.prune id w.store).1 = .pruned raw)
      (he : QueueEntry.fromDict limits cls raw = .ok e) :
    Step limits kind retention w (.prune c) (World.move c (.publish caller id found e) { w with
      store := (Library.prune id w.store).2
      deleted := w.deleted ++ [⟨c, caller.reading, id, raw⟩] })
  | unrestored {c : CallId} {caller : Caller} {id : EntryId} {found raw : Json} {r : RestoreError}
      (hc : w.calls c = .prune caller id found) (hp : (Library.prune id w.store).1 = .pruned raw)
      (he : QueueEntry.fromDict limits cls raw = .error r) :
    Step limits kind retention w (.prune c) (World.finish c caller id (some found) (.unreadable r) { w with
      store := (Library.prune id w.store).2
      deleted := w.deleted ++ [⟨c, caller.reading, id, raw⟩] })
  | apublish {c : CallId} {caller : Caller} {id : EntryId} {found : Json} {e : QueueEntry cls}
      (hc : w.calls c = .publish caller id found e) :
    Step limits kind retention w (.apublish c) (World.finish c caller id (some found) .returned { w with
      published := w.published ++ [(c, { e with status := .terminated })] })

/-! ## What a pruner relies on -/

/-- What `django_queue_prune` can do. -/
inductive PruneCase (id : EntryId) (s : Store) : Library.PruneOutcome × Store → Prop
  | missing (hr : ∀ raw, s.records.get? id = some raw → Library.prunable (statusText (some raw)) = false) :
    PruneCase id s (.missing, s)
  | nonTerminal {raw : Json} (hr : s.records.get? id = some raw)
      (hp : Library.prunable (recordStatus (some raw)) = false) : PruneCase id s (.nonTerminal, s)
  | pruned {raw : Json} (hr : s.records.get? id = some raw) (hp : Library.prunable (statusText (some raw)) = true) :
    PruneCase id s (.pruned raw, { s with pending := s.pending.filter (· ≠ id), records := s.records.erase id })

theorem prune_case (id : EntryId) (s : Store) : PruneCase id s (Library.prune id s) := by
  unfold Library.prune
  cases hr : s.records.get? id with
  | none => exact .missing fun raw h => by rw [hr] at h; cases h
  | some raw =>
    have hread {t : Lua} (hd : Cjson.decode raw = some t) (hp : ¬Library.prunable (statusText (some raw))) :
        PruneCase id s (.nonTerminal, s) := by
      rw [statusText_of_accepts (Cjson.decode_eq_some.mp hd).1] at hp
      exact .nonTerminal hr (Bool.eq_false_iff.mpr hp)
    have hmissing (hnot : ∀ kvs, Cjson.decode raw ≠ some (.obj kvs)) : PruneCase id s (.missing, s) := by
      refine .missing fun raw' h => ?_
      obtain rfl := Option.some.inj (hr.symm.trans h)
      cases hst : statusText (some raw) with
      | none => rfl
      | some st =>
        obtain ⟨kvs, hk⟩ := Library.exists_obj_of_statusText hst
        exact absurd hk (hnot kvs)
    dsimp only
    split
    · next hd =>
      split_ifs with hp
      · exact .pruned hr hp
      · exact hread hd hp
    · next hd =>
      split_ifs with hp
      · exact .pruned hr hp
      · exact hread hd hp
    · next hobj _ => exact hmissing hobj

theorem recordStatus_of_restores {raw : Json} {e : QueueEntry cls} (h : QueueEntry.Restores limits raw e) :
    recordStatus (some raw) = some e.status.value := by
  have hst := h.status
  unfold QueueEntry.fieldD at hst
  unfold recordStatus statusField
  rw [Option.bind_some]
  cases hf : raw.field? "status" with
  | none =>
    rw [hf] at hst
    cases hst
  | some v =>
    rw [hf, Option.getD_some] at hst
    cases v with
    | str text =>
      cases text with
      | plain s =>
        simp only [QueueEntry.restoreStatus] at hst
        split at hst
        · next st hof =>
          obtain rfl : st = e.status := Option.some.inj (Except.ok.inj hst)
          rw [QueueEntryStatus.value_of_ofValue? hof]
        · cases hst
      | lone => cases hst
    | _ => cases hst

theorem prunable_of_restores {raw : Json} {e : QueueEntry cls} (h : QueueEntry.Restores limits raw e)
    (ht : e.status.Terminal) : Library.prunable (recordStatus (some raw)) = true := by
  rw [recordStatus_of_restores h]
  revert ht
  cases e.status <;> decide

/-- The deleted or stored record of an id once it is terminal. -/
def Fixed (limits : RecursionLimits) (w : World cls) (id : EntryId) (raw : Json) : Prop :=
  Settled limits cls id raw ∧ (w.store.records.get? id = some raw ∨ ∃ d ∈ w.deleted, d.id = id ∧ d.raw = raw)

/-- The record had been finished for the retention time at this clock reading. -/
def ExpiredAt (limits : RecursionLimits) (cls : EntryClass) (retention : Option ℚ) (now : ClockTime) (raw : Json) : Prop :=
  ∃ (e : QueueEntry cls) (t : ClockTime) (r : ℚ), QueueEntry.fromDict limits cls raw = .ok e ∧ e.finishedAt = some t ∧
    retention = some r ∧ r ≤ now.secondsSince t

/-- An id that `_aprune_expired` has still to prune. -/
def Due (limits : RecursionLimits) (retention : Option ℚ) (w : World cls) (now : ClockTime) (id : EntryId) : Prop :=
  ∃ raw, Fixed limits w id raw ∧ ExpiredAt limits cls retention now raw

/-- The snapshots of the entry that were passed to `apublish`. -/
def World.snapshots (w : World cls) (id : EntryId) : List (CallId × QueueEntry cls) :=
  w.published.filter fun p => p.2.id = id

/-- The calls of `aprune` for the entry that have returned. -/
def World.returns (w : World cls) (id : EntryId) : List Attempt :=
  w.attempts.filter fun a => a.id = id ∧ a.ending = .returned

def Caller.todo : Caller → List EntryId
  | .user => []
  | .expired _ todo _ => todo

def Caller.pruned : Caller → ℕ
  | .user => 0
  | .expired _ _ n => n

/-- The deletions a call answers for. -/
def Phase.pruned : Phase cls → ℕ
  | .sweep _ _ n => n
  | .find caller _ => caller.pruned
  | .prune caller _ _ => caller.pruned
  | .publish caller _ _ _ => caller.pruned + 1
  | .ended (.aprune .returned) => 1
  | .ended (.expired (.ok n)) => n
  | _ => 0

/-- What a call relies on where it is. -/
def PhaseInv (limits : RecursionLimits) (retention : Option ℚ) (w : World cls) (c : CallId) : Phase cls → Prop
  | .sweep now todo _ => ∀ id ∈ todo, Due limits retention w now id
  | .find caller id => ∀ now ∈ caller.reading, ∀ x ∈ id :: caller.todo, Due limits retention w now x
  | .prune caller id found => Fixed limits w id found ∧
    ∀ now ∈ caller.reading, ∀ x ∈ id :: caller.todo, Due limits retention w now x
  | .publish caller id found e => (∃ d ∈ w.deleted, d.pruner = c ∧ d.id = id) ∧
      QueueEntry.fromDict limits cls found = .ok e ∧ e.id = id ∧ w.snapshots id = [] ∧ w.returns id = [] ∧
      ∀ now ∈ caller.reading, ∀ x ∈ caller.todo, Due limits retention w now x
  | .ended (.expired (.error _)) => False
  | _ => True

/-- The deletion has been announced by its pruner, or is about to be. -/
def Announced (limits : RecursionLimits) (w : World cls) (d : Deletion) : Prop :=
  ∃ e, QueueEntry.fromDict limits cls d.raw = .ok e ∧
    ((∃ caller found, w.calls d.pruner = .publish caller d.id found e) ∨
      w.snapshots d.id = [(d.pruner, { e with status := .terminated })] ∧
        (w.returns d.id).map Attempt.pruner = [d.pruner])

structure Inv (limits : RecursionLimits) (retention : Option ℚ) (w : World cls) : Prop where
  settled : ∀ id raw, w.store.records.get? id = some raw → Library.prunable (recordStatus (some raw)) = true →
    Settled limits cls id raw
  gone : ∀ d ∈ w.deleted, w.store.records.get? d.id = none
  deleted : ∀ d ∈ w.deleted, Settled limits cls d.id d.raw
  nodup : (w.deleted.map Deletion.id).Nodup
  expired : ∀ d ∈ w.deleted, ∀ now ∈ d.reading, ExpiredAt limits cls retention now d.raw
  phase : ∀ c, PhaseInv limits retention w c (w.calls c)
  announced : ∀ d ∈ w.deleted, Announced limits w d
  unpublished : ∀ id, (∀ d ∈ w.deleted, d.id ≠ id) → w.snapshots id = [] ∧ w.returns id = []
  attempts : ∀ a ∈ w.attempts, a.ending = .returned ∨ a.ending = .notFound ∨
    ∃ raw, a.found = some raw ∧ Library.prunable (recordStatus (some raw)) = false
  count : ∀ c, w.deleted.countP (fun d => d.pruner = c) = (w.calls c).pruned

theorem Inv.init (retention : Option ℚ) (t : ServerTime) : Inv limits retention (World.init t : World cls) where
  settled := fun id raw h => by cases h
  gone := fun d h => by cases h
  deleted := fun d h => by cases h
  nodup := List.nodup_nil
  expired := fun d h => by cases h
  phase := fun c => trivial
  announced := fun d h => by cases h
  unpublished := fun id _ => ⟨rfl, rfl⟩
  attempts := fun a h => by cases h
  count := fun c => rfl

theorem filter_concat {α : Type*} (l : List α) (a : α) (p : α → Prop) [DecidablePred p] :
    (l ++ [a]).filter (fun x => p x) = l.filter (fun x => p x) ++ if p a then [a] else [] := by
  rw [List.filter_append, List.filter_cons]
  simp only [decide_eq_true_eq, List.filter_nil]

variable {retention : Option ℚ} {w w' : World cls} {c : CallId} {caller : Caller} {id : EntryId} {phase : Phase cls}

/-- Later worlds keep what is terminal. -/
def Keeps (limits : RecursionLimits) (w w' : World cls) : Prop := ∀ id raw, Fixed limits w id raw → Fixed limits w' id raw

theorem Due.mono (hk : Keeps limits w w') {now : ClockTime} (h : Due limits retention w now id) :
    Due limits retention w' now id := by
  obtain ⟨raw, hfix, hexp⟩ := h
  exact ⟨raw, hk id raw hfix, hexp⟩

/-- A record that does not change any more is still stored, or it is the one that is deleted. -/
theorem keeps_of_deleted {d : Deletion}
    (hget : ∀ x, w'.store.records.get? x = if x = d.id then none else w.store.records.get? x)
    (hold : ∀ d ∈ w.deleted, d ∈ w'.deleted) (hd : d ∈ w'.deleted) (hr : w.store.records.get? d.id = some d.raw) :
    Keeps limits w w' := by
  intro x raw hf
  refine ⟨hf.1, ?_⟩
  rcases hf.2 with hx | ⟨d', hd', hid, hraw⟩
  · by_cases heq : x = d.id
    · rw [heq] at hx
      exact .inr ⟨d, hd, heq.symm, Option.some.inj (hr.symm.trans hx)⟩
    · refine .inl ?_
      rw [hget, if_neg heq, hx]
  · exact .inr ⟨d', hold d' hd', hid, hraw⟩

/-- The phase of a call is not touched by a step that keeps terminal records and the
announcements of the id it is about to announce. -/
theorem PhaseInv.mono (hk : Keeps limits w w') (hd : ∀ d ∈ w.deleted, d ∈ w'.deleted)
    (hs : ∀ caller id found e, phase = .publish caller id found e → w'.snapshots id = w.snapshots id ∧
      w'.returns id = w.returns id) (h : PhaseInv limits retention w c phase) : PhaseInv limits retention w' c phase := by
  cases phase with
  | sweep now todo n => exact fun id hid => (h id hid).mono hk
  | find caller id => exact fun now hnow x hx => (h now hnow x hx).mono hk
  | prune caller id found => exact ⟨hk id found h.1, fun now hnow x hx => (h.2 now hnow x hx).mono hk⟩
  | publish caller id found e =>
    obtain ⟨⟨d, hmem, hpruner, hid⟩, he, heid, hsnap, hret, hdue⟩ := h
    obtain ⟨hsnap', hret'⟩ := hs caller id found e rfl
    exact ⟨⟨d, hd d hmem, hpruner, hid⟩, he, heid, hsnap'.trans hsnap, hret'.trans hret,
      fun now hnow x hx => (hdue now hnow x hx).mono hk⟩
  | ended r =>
    rcases r with r | (r | n) | r
    · trivial
    · exact h.elim
    · trivial
    · trivial
  | _ => trivial

namespace Inv

/-- A deleted id has no record and a stored id no deletion. -/
theorem not_deleted (h : Inv limits retention w) {raw : Json} (hr : w.store.records.get? id = some raw) :
    ∀ d ∈ w.deleted, d.id ≠ id := by
  intro d hd heq
  have hgone := h.gone d hd
  rw [heq, hr] at hgone
  cases hgone

theorem eq_of_fixed (h : Inv limits retention w) {raw raw' : Json} (hr : w.store.records.get? id = some raw)
    (hf : Fixed limits w id raw') : raw = raw' := by
  rcases hf.2 with hr' | ⟨d, hd, hid, -⟩
  · exact Option.some.inj (hr.symm.trans hr')
  · exact absurd hid (h.not_deleted hr d hd)

theorem fixed (h : Inv limits retention w) {raw : Json} (hr : w.store.records.get? id = some raw)
    (hp : Library.prunable (recordStatus (some raw)) = true) : Fixed limits w id raw := ⟨h.settled id raw hr hp, .inl hr⟩

theorem eq_of_id_eq (h : Inv limits retention w) {d d' : Deletion} (hd : d ∈ w.deleted) (hd' : d' ∈ w.deleted)
    (heq : d.id = d'.id) : d = d' := List.inj_on_of_nodup_map h.nodup hd hd' heq

theorem move (h : Inv limits retention w) (hc : ∀ caller id found e, w.calls c ≠ .publish caller id found e)
    (hphase : PhaseInv limits retention w c phase) (hcount : phase.pruned = (w.calls c).pruned) :
    Inv limits retention (w.move c phase) where
  settled := h.settled
  gone := h.gone
  deleted := h.deleted
  nodup := h.nodup
  expired := h.expired
  phase := fun c' => by
    rw [show (w.move c phase).calls c' = if c' = c then phase else w.calls c' from Function.update_apply ..]
    split_ifs with heq
    · subst heq
      exact hphase
    · exact h.phase c'
  announced := fun d hd => by
    obtain ⟨e, he, hann⟩ := h.announced d hd
    refine ⟨e, he, ?_⟩
    rcases hann with ⟨caller, found, hpub⟩ | hdone
    · have hne : d.pruner ≠ c := fun heq => hc _ _ _ _ (heq ▸ hpub)
      refine .inl ⟨caller, found, ?_⟩
      rw [← hpub]
      exact Function.update_of_ne hne ..
    · exact .inr hdone
  unpublished := h.unpublished
  attempts := h.attempts
  count := fun c' => by
    rw [show (w.move c phase).calls c' = if c' = c then phase else w.calls c' from Function.update_apply ..]
    rw [show (w.move c phase).deleted = w.deleted from rfl, h.count c']
    split_ifs with heq
    · rw [heq, hcount]
    · rfl

/-- A call of `aprune` ends without having deleted anything. -/
theorem attempt (h : Inv limits retention w) {a : Attempt} (hr : a.ending ≠ .returned)
    (ha : a.ending = .notFound ∨ ∃ raw, a.found = some raw ∧ Library.prunable (recordStatus (some raw)) = false) :
    Inv limits retention { w with attempts := w.attempts ++ [a] } := by
  have hret (id : EntryId) : World.returns { w with attempts := w.attempts ++ [a] } id = w.returns id := by
    have hnil : [a].filter (fun x => x.id = id ∧ x.ending = .returned) = [] := by
      rw [List.filter_eq_nil_iff]
      intro x hx hcond
      rw [List.mem_singleton.mp hx, decide_eq_true_iff] at hcond
      exact hr hcond.2
    unfold World.returns
    rw [List.filter_append, hnil, List.append_nil]
  refine ⟨h.settled, h.gone, h.deleted, h.nodup, h.expired, fun c => ?_, fun d hd => ?_, fun id hid => ?_,
    fun x hx => ?_, h.count⟩
  · exact PhaseInv.mono (w := w) (fun _ _ hf => hf) (fun _ hd => hd) (fun _ id _ _ _ => ⟨rfl, hret id⟩) (h.phase c)
  · obtain ⟨e, he, hann⟩ := h.announced d hd
    refine ⟨e, he, ?_⟩
    rw [hret]
    exact hann
  · rw [hret]
    exact h.unpublished id hid
  · rcases List.mem_append.mp hx with hx | hx
    · exact h.attempts x hx
    · rw [List.mem_singleton.mp hx]
      exact .inr ha

theorem call {kind : QueueKind} {x : Call cls} (h : Inv limits retention w)
    (hx : Working limits (fun id => ∀ d ∈ w.deleted, d.id ≠ id) w.store x) (t : ServerTime) :
    Inv limits retention { w with store := (exec kind x t w.store).2, now := t } := by
  have hchange := recordChange_exec hx kind t
  have hkeeps : Keeps limits w { w with store := (exec kind x t w.store).2, now := t } := by
    intro id raw hfix
    refine ⟨hfix.1, hfix.2.imp_left fun hr => ?_⟩
    cases hchange id with
    | same hsame => exact hsame.trans hr
    | stored hn hf hs hp =>
      rw [hr] at hn
      cases hn
    | moved hr' ho hs hp =>
      rw [← Option.some.inj (hr.symm.trans hr'), hfix.1.prunable] at ho
      cases ho
  refine ⟨fun id raw hr hp => ?_, fun d hd => ?_, h.deleted, h.nodup, h.expired, fun c => ?_, h.announced,
    h.unpublished, h.attempts, h.count⟩
  · cases hchange id with
    | same hsame => exact h.settled id raw (hsame.symm.trans hr) hp
    | stored hn hf hs hp' =>
      rw [← Option.some.inj (hr.symm.trans hs), hp] at hp'
      cases hp'
    | moved hr' ho hs hp' =>
      obtain rfl := Option.some.inj (hr.symm.trans hs)
      exact hp' hp
  · cases hchange d.id with
    | same hsame => exact hsame.trans (h.gone d hd)
    | stored hn hf hs hp => exact absurd rfl (hf d hd)
    | moved hr ho hs hp =>
      rw [h.gone d hd] at hr
      cases hr
  · exact (h.phase c).mono hkeeps (fun _ hd => hd) fun _ _ _ _ _ => ⟨rfl, rfl⟩

/-- The deletion. -/
theorem pruned (h : Inv limits retention w) {found raw : Json} {e : QueueEntry cls}
    (hc : w.calls c = .prune caller id found)
    (hr : w.store.records.get? id = some raw) (he : QueueEntry.fromDict limits cls raw = .ok e) :
    Inv limits retention (World.move c (.publish caller id found e) { w with
      store := { w.store with pending := w.store.pending.filter (· ≠ id), records := w.store.records.erase id }
      deleted := w.deleted ++ [⟨c, caller.reading, id, raw⟩] }) := by
  have hphase := h.phase c
  rw [hc] at hphase
  obtain ⟨hfix, hdue⟩ := hphase
  obtain rfl := h.eq_of_fixed hr hfix
  have hnew := h.not_deleted hr
  set w' := World.move c (.publish caller id raw e) { w with
      store := { w.store with pending := w.store.pending.filter (· ≠ id), records := w.store.records.erase id }
      deleted := w.deleted ++ [⟨c, caller.reading, id, raw⟩] } with hw'
  have hget (id' : EntryId) : w'.store.records.get? id' = if id' = id then none else w.store.records.get? id' :=
    Dict.get?_erase ..
  have hcalls (c' : CallId) : w'.calls c' = if c' = c then .publish caller id raw e else w.calls c' :=
    Function.update_apply ..
  have hdeleted : w'.deleted = w.deleted ++ [⟨c, caller.reading, id, raw⟩] := rfl
  have hold (d : Deletion) (hd : d ∈ w.deleted) : d ∈ w'.deleted := by
    rw [hdeleted]
    exact List.mem_append_left _ hd
  have hlast : ⟨c, caller.reading, id, raw⟩ ∈ w'.deleted := by
    rw [hdeleted]
    exact List.mem_append_right _ (List.mem_singleton_self _)
  have hkeeps : Keeps limits w w' := keeps_of_deleted hget hold hlast hr
  refine ⟨fun id' raw' hr' hp' => ?_, fun d hd => ?_, fun d hd => ?_, ?_, fun d hd now hnow => ?_, fun c' => ?_,
    fun d hd => ?_, fun id' hid' => ?_, h.attempts, fun c' => ?_⟩
  · rw [hget] at hr'
    split_ifs at hr'
    exact h.settled id' raw' hr' hp'
  · rw [hget]
    split_ifs with heq
    · rfl
    · rcases List.mem_append.mp hd with hd | hd
      · exact h.gone d hd
      · rw [List.mem_singleton.mp hd] at heq
        exact absurd rfl heq
  · rcases List.mem_append.mp hd with hd | hd
    · exact h.deleted d hd
    · rw [List.mem_singleton.mp hd]
      exact hfix.1
  · rw [hdeleted, List.map_append, List.nodup_append]
    refine ⟨h.nodup, List.nodup_singleton _, fun x hx y hy heq => ?_⟩
    obtain ⟨d, hd, rfl⟩ := List.mem_map.mp hx
    exact hnew d hd (heq.trans (List.mem_singleton.mp hy))
  · rcases List.mem_append.mp hd with hd | hd
    · exact h.expired d hd now hnow
    · rw [List.mem_singleton.mp hd] at hnow ⊢
      obtain ⟨raw', hfix', hexp⟩ := hdue now hnow id (List.mem_cons_self ..)
      rw [h.eq_of_fixed hr hfix']
      exact hexp
  · rw [hcalls]
    split_ifs with heq
    · subst heq
      obtain ⟨hsnap, hret⟩ := h.unpublished id hnew
      obtain ⟨e', he', hid, -⟩ := hfix.1.restored
      obtain rfl := Except.ok.inj (he.symm.trans he')
      exact ⟨⟨_, hlast, rfl, rfl⟩, he, hid, hsnap, hret, fun now hnow x hx =>
        (hdue now hnow x (List.mem_cons_of_mem _ hx)).mono hkeeps⟩
    · exact (h.phase c').mono hkeeps hold fun _ _ _ _ _ => ⟨rfl, rfl⟩
  · rcases List.mem_append.mp hd with hd | hd
    · obtain ⟨e', he', hann⟩ := h.announced d hd
      refine ⟨e', he', hann.imp_left ?_⟩
      rintro ⟨caller', found', hpub⟩
      have hne : d.pruner ≠ c := fun heq => by
        rw [heq, hc] at hpub
        cases hpub
      exact ⟨caller', found', by rw [hcalls, if_neg hne, hpub]⟩
    · rw [List.mem_singleton.mp hd]
      exact ⟨e, he, .inl ⟨caller, raw, by rw [hcalls, if_pos rfl]⟩⟩
  · exact h.unpublished id' fun d hd => hid' d (hold d hd)
  · rw [hdeleted, hcalls, List.countP_append, h.count c']
    split_ifs with heq
    · subst heq
      rw [hc]
      simp [Phase.pruned]
    · have hne : ¬c = c' := fun h => heq h.symm
      simp [hne]

/-- The publication of the removed entry. -/
theorem apublish (h : Inv limits retention w) {found : Json} {e : QueueEntry cls}
    (hc : w.calls c = .publish caller id found e) :
    Inv limits retention (World.finish c caller id (some found) .returned { w with
      published := w.published ++ [(c, { e with status := .terminated })] }) := by
  have hphase := h.phase c
  rw [hc] at hphase
  obtain ⟨⟨d₀, hd₀, hpruner, hid₀⟩, -, hid, hsnap, hret, hdue⟩ := hphase
  set w' := World.finish c caller id (some found) .returned { w with
      published := w.published ++ [(c, { e with status := .terminated })] } with hw'
  have hcalls (c' : CallId) : w'.calls c' = if c' = c then caller.resume .returned else w.calls c' :=
    Function.update_apply ..
  have hsnaps (id' : EntryId) : w'.snapshots id' =
      w.snapshots id' ++ if id = id' then [(c, { e with status := .terminated })] else [] := by
    rw [← hid]
    exact filter_concat ..
  have hrets (id' : EntryId) : w'.returns id' =
      w.returns id' ++ if id = id' then [⟨c, id, some found, .returned⟩] else [] := by
    refine (filter_concat ..).trans ?_
    simp only [and_true]
    rfl
  -- no other call is about to announce this id
  have hother (c' : CallId) (caller' : Caller) (id' : EntryId) (found' : Json) (e' : QueueEntry cls) (hne : c' ≠ c)
      (hc' : w.calls c' = .publish caller' id' found' e') : id ≠ id' := by
    intro heq
    have hphase' := h.phase c'
    rw [hc'] at hphase'
    obtain ⟨⟨d, hd, hpruner', hid'⟩, -⟩ := hphase'
    have hsame := h.eq_of_id_eq hd hd₀ (by rw [hid', hid₀, heq])
    rw [hsame, hpruner] at hpruner'
    exact hne hpruner'.symm
  refine ⟨h.settled, h.gone, h.deleted, h.nodup, h.expired, fun c' => ?_, fun d hd => ?_, fun id' hid' => ?_,
    fun a ha => ?_, fun c' => ?_⟩
  · rw [hcalls]
    split_ifs with heq
    · cases caller with
      | user => trivial
      | expired now todo n => exact fun x hx => hdue now rfl x hx
    · refine PhaseInv.mono (w := w) (fun _ _ hf => hf) (fun _ hd => hd) (fun caller' id' found' e' hp => ?_) (h.phase c')
      have hne := hother c' caller' id' found' e' heq hp
      rw [hsnaps, hrets, if_neg hne, if_neg hne, List.append_nil, List.append_nil]
      exact ⟨rfl, rfl⟩
  · obtain ⟨e', he', hann⟩ := h.announced d hd
    refine ⟨e', he', ?_⟩
    by_cases heq : id = d.id
    · obtain rfl := h.eq_of_id_eq hd hd₀ (heq.symm.trans hid₀.symm)
      rw [hsnaps, hrets, if_pos heq, if_pos heq, ← heq, hsnap, hret]
      rcases hann with ⟨caller', found', hpub⟩ | ⟨hdone, -⟩
      · rw [hpruner, hc] at hpub
        obtain ⟨-, -, -, rfl⟩ := Phase.publish.inj hpub
        rw [hpruner]
        exact .inr ⟨rfl, rfl⟩
      · rw [← heq, hsnap] at hdone
        cases hdone
    · rw [hsnaps, hrets, if_neg heq, if_neg heq, List.append_nil, List.append_nil]
      refine hann.imp_left ?_
      rintro ⟨caller', found', hpub⟩
      have hne : d.pruner ≠ c := fun hdc => by
        rw [hdc, hc] at hpub
        exact heq (Phase.publish.inj hpub).2.1
      exact ⟨caller', found', by rw [hcalls, if_neg hne, hpub]⟩
  · have hne : id ≠ id' := fun heq => hid' d₀ hd₀ (hid₀.trans heq)
    rw [hsnaps, hrets, if_neg hne, if_neg hne, List.append_nil, List.append_nil]
    exact h.unpublished id' hid'
  · rcases List.mem_append.mp ha with ha | ha
    · exact h.attempts a ha
    · rw [List.mem_singleton.mp ha]
      exact .inl rfl
  · rw [hcalls, show w'.deleted = w.deleted from rfl, h.count c']
    split_ifs with heq
    · rw [heq, hc]
      cases caller with
      | user => rfl
      | expired now todo n => rfl
    · rfl

theorem resume_ne_publish {r : Ending} {caller' : Caller} {found : Json} {e : QueueEntry cls} :
    (caller.resume r : Phase cls) ≠ .publish caller' id found e := by
  cases caller <;> cases r <;> exact fun h => by cases h

theorem finish (h : Inv limits retention w) {found : Option Json} {r : Ending}
    (hc : ∀ caller id found e, w.calls c ≠ .publish caller id found e) (hr : r ≠ .returned)
    (ha : r = .notFound ∨ ∃ raw, found = some raw ∧ Library.prunable (recordStatus (some raw)) = false)
    (hphase : PhaseInv limits retention w c (caller.resume r : Phase cls))
    (hcount : (caller.resume r : Phase cls).pruned = (w.calls c).pruned) :
    Inv limits retention (w.finish c caller id found r) := by
  have hattempt : Inv limits retention { w with attempts := w.attempts ++ [⟨c, id, found, r⟩] } := h.attempt hr ha
  refine hattempt.move hc ?_ hcount
  exact PhaseInv.mono (w := w) (fun _ _ hf => hf) (fun _ hd => hd) (fun _ _ _ _ hp => absurd hp resume_ne_publish) hphase

/-- The entry is not there: the next id of the sweep follows. -/
theorem finish_notFound (h : Inv limits retention w) {found : Option Json}
    (hc : ∀ caller id found e, w.calls c ≠ .publish caller id found e) (hpruned : (w.calls c).pruned = caller.pruned)
    (hdue : ∀ now ∈ caller.reading, ∀ x ∈ caller.todo, Due limits retention w now x) :
    Inv limits retention (w.finish c caller id found .notFound) := by
  refine h.finish hc (by decide) (.inl rfl) ?_ ?_
  · cases caller with
    | user => trivial
    | expired now todo n => exact hdue now rfl
  · rw [hpruned]
    cases caller <;> rfl

/-- The record is not terminal, so no sweep asked for it. -/
theorem finish_nonTerminal (h : Inv limits retention w) {raw : Json} {r : Ending} (hc : w.calls c = .find caller id)
    (hr : w.store.records.get? id = some raw) (hp : Library.prunable (recordStatus (some raw)) = false)
    (hret : r ≠ .returned) : Inv limits retention (w.finish c caller id (some raw) r) := by
  have hphase := h.phase c
  rw [hc] at hphase
  cases caller with
  | user =>
    refine h.finish (fun _ _ _ _ heq => ?_) hret (.inr ⟨raw, rfl, hp⟩) trivial ?_
    · rw [hc] at heq
      cases heq
    · rw [hc]
      cases r with
      | returned => exact absurd rfl hret
      | _ => rfl
  | expired now todo n =>
    obtain ⟨raw', hfix, -⟩ := hphase now rfl id (List.mem_cons_self ..)
    rw [← h.eq_of_fixed hr hfix] at hfix
    rw [hfix.1.prunable] at hp
    cases hp

theorem prunable_eq_false (h : Inv limits retention w) {raw : Json} (hr : w.store.records.get? id = some raw)
    (hne : ∀ e : QueueEntry cls, QueueEntry.fromDict limits cls raw = .ok e → ¬e.status.Terminal) :
    Library.prunable (recordStatus (some raw)) = false := by
  apply Bool.eq_false_iff.mpr
  intro hp
  obtain ⟨e, he, -, ht⟩ := (h.settled id raw hr hp).restored
  exact hne e he ht

theorem mem_of_mapM {α β ε : Type*} {f : α → Except ε β} {l : List α} {bs : List β} (h : l.mapM f = .ok bs) {b : β}
    (hb : b ∈ bs) : ∃ a ∈ l, f a = .ok b := by
  induction l generalizing bs with
  | nil =>
    cases h
    cases hb
  | cons a l ih =>
    rw [List.mapM_cons] at h
    cases hf : f a with
    | error r =>
      rw [hf] at h
      cases h
    | ok b' =>
      cases hl : l.mapM f with
      | error r =>
        rw [hf, hl] at h
        cases h
      | ok bs' =>
        rw [hf, hl] at h
        cases h
        rcases List.mem_cons.mp hb with rfl | hb
        · exact ⟨a, List.mem_cons_self .., hf⟩
        · obtain ⟨a', ha', hfa⟩ := ih hl hb
          exact ⟨a', List.mem_cons_of_mem _ ha', hfa⟩

/-- What the sweep selects is terminal, was finished in time, and is named by its own key. -/
theorem due_of_alist (h : Inv limits retention w) {keys : KeyScan EntryId} {es : List (QueueEntry cls)} {r : ℚ}
    {now : ClockTime}
    (hret : retention = some r) (hl : alist limits cls keys w.store = .ok es)
    (hid : id ∈ (es.filter (isExpired r now)).map QueueEntry.id) : Due limits retention w now id := by
  obtain ⟨e, he, rfl⟩ := List.mem_map.mp hid
  obtain ⟨hmem, hexp⟩ := List.mem_filter.mp he
  obtain ⟨ht, hany⟩ := Bool.and_eq_true_iff.mp hexp
  rw [decide_eq_true_iff] at ht
  rw [Option.any_eq_true] at hany
  obtain ⟨t, hfin, hle⟩ := hany
  obtain ⟨raw, hraw, hfrom⟩ := mem_of_mapM hl hmem
  obtain ⟨key, -, hr⟩ := KeyScan.mem_values.mp hraw
  have hfix := h.fixed hr (prunable_of_restores (QueueEntry.fromDict_eq_ok_iff.mp hfrom) ht)
  obtain ⟨e', he', hkey, -⟩ := hfix.1.restored
  obtain rfl := Except.ok.inj (hfrom.symm.trans he')
  rw [hkey]
  exact ⟨raw, hfix, e, t, r, hfrom, hfin, hret, decide_eq_true_iff.mp hle⟩

theorem step {kind : QueueKind} {a : Action cls} (h : Inv limits retention w) (hstep : Step limits kind retention w a w') :
    Inv limits retention w' := by
  have hphase (c : CallId) := h.phase c
  cases hstep with
  | call ht hc => exact h.call hc _
  | aprune hc => exact h.move (by simp [hc]) (fun now hnow => by cases hnow) (by rw [hc]; rfl)
  | kept hc hr => exact h.move (by simp [hc]) trivial (by rw [hc]; rfl)
  | apruneExpired hc hr => exact h.move (by simp [hc]) trivial (by rw [hc]; rfl)
  | anow hc => exact h.move (by simp [hc]) trivial (by rw [hc]; rfl)
  | scan hc => exact h.move (by simp [hc]) trivial (by rw [hc]; rfl)
  | page hc hids => exact h.move (by simp [hc]) trivial (by rw [hc]; rfl)
  | mget hc hk hr hl => exact h.move (by simp [hc]) (fun id hid => h.due_of_alist hr hl hid) (by rw [hc]; rfl)
  | unlisted hc hk hl => exact h.move (by simp [hc]) trivial (by rw [hc]; rfl)
  | @next c now id todo n hc =>
    have hdue := hphase c
    rw [hc] at hdue
    refine h.move (by simp [hc]) (fun now' hnow x hx => ?_) (by rw [hc]; rfl)
    obtain rfl := Option.some.inj hnow
    exact hdue x hx
  | swept hc => exact h.move (by simp [hc]) trivial (by rw [hc]; rfl)
  | @missing c caller id hc hr =>
    have hdue := hphase c
    rw [hc] at hdue
    exact h.finish_notFound (by simp [hc]) (by rw [hc]; rfl) fun now hnow x hx => hdue now hnow x (List.mem_cons_of_mem _ hx)
  | @unreadable c caller id raw r hc hr he =>
    refine h.finish_nonTerminal hc hr (h.prunable_eq_false hr fun e he' => ?_) (by simp)
    rw [he] at he'
    cases he'
  | @nonTerminal c caller id raw e hc hr he ht =>
    refine h.finish_nonTerminal hc hr (h.prunable_eq_false hr fun e' he' => ?_) (by decide)
    obtain rfl := Except.ok.inj (he.symm.trans he')
    exact ht
  | @found c caller id raw e hc hr he ht =>
    have hdue := hphase c
    rw [hc] at hdue
    have hfix := h.fixed hr (prunable_of_restores (QueueEntry.fromDict_eq_ok_iff.mp he) ht)
    exact h.move (by simp [hc]) ⟨hfix, hdue⟩ (by rw [hc]; rfl)
  | @gone c caller id found hc hp =>
    have hdue := hphase c
    rw [hc] at hdue
    have hcase := prune_case id w.store
    generalize Library.prune id w.store = res at hcase hp ⊢
    cases hcase with
    | missing _ =>
      exact h.finish_notFound (by simp [hc]) (by rw [hc]; rfl) fun now hnow x hx =>
        hdue.2 now hnow x (List.mem_cons_of_mem _ hx)
    | _ => cases hp
  | @refused c caller id found hc hp =>
    -- the record was terminal when it was read, and such a record stays as it is
    have hfix := hphase c
    rw [hc] at hfix
    have hcase := prune_case id w.store
    generalize Library.prune id w.store = res at hcase hp ⊢
    cases hcase with
    | nonTerminal hr hp' =>
      rw [h.eq_of_fixed hr hfix.1, hfix.1.1.prunable] at hp'
      cases hp'
    | _ => cases hp
  | @pruned c caller id found raw e hc hp he =>
    have hcase := prune_case id w.store
    generalize Library.prune id w.store = res at hcase hp ⊢
    cases hcase with
    | pruned hr hp' =>
      obtain rfl := Library.PruneOutcome.pruned.inj hp
      exact h.pruned hc hr he
    | _ => cases hp
  | @unrestored c caller id found raw r hc hp he =>
    -- a settled record restores, so the call does not fail after the deletion
    have hcase := prune_case id w.store
    generalize Library.prune id w.store = res at hcase hp ⊢
    cases hcase with
    | pruned hr hp' =>
      obtain rfl := Library.PruneOutcome.pruned.inj hp
      obtain ⟨e, he', -⟩ := (h.settled id _ hr (Library.prunable_recordStatus hp')).restored
      rw [he] at he'
      cases he'
    | _ => cases hp
  | apublish hc => exact h.apublish hc

end Inv

/-- The call has not begun or has ended. -/
def Phase.Resting : Phase cls → Prop
  | .idle | .ended _ => True
  | _ => False

/-- Its contribution: an `aprune` that returned, or the count of an `_aprune_expired`. -/
def Phase.returned : Phase cls → ℕ
  | .ended (.aprune .returned) => 1
  | .ended (.expired (.ok n)) => n
  | _ => 0

theorem Phase.Resting.pruned_eq (h : phase.Resting) : phase.pruned = phase.returned := by
  cases phase with
  | idle => rfl
  | ended r =>
    rcases r with (_ | _ | _ | _) | (_ | _) | _ <;> rfl
  | _ => exact h.elim

/-- Deletions are of terminal records, each is made and announced by one pruner, and no other
pruner of the id returns. -/
structure PrunedOnce (limits : RecursionLimits) (kind : QueueKind) (retention : Option ℚ) (w : World cls) : Prop where
  terminal : ∀ a w', Step limits kind retention w a w' → ∀ id raw, w.store.records.get? id = some raw →
    w'.store.records.get? id = none → Library.prunable (statusText (some raw)) = true ∧
      ∃ c reading, w'.deleted = w.deleted ++ [⟨c, reading, id, raw⟩]
  once : (w.deleted.map Deletion.id).Nodup
  announced : ∀ d ∈ w.deleted, ∃ e, QueueEntry.fromDict limits cls d.raw = .ok e ∧
    ((∃ caller found, w.calls d.pruner = .publish caller d.id found e) ∧ w.snapshots d.id = [] ∧ w.returns d.id = [] ∨
      w.snapshots d.id = [(d.pruner, { e with status := .terminated })] ∧
        (w.returns d.id).map Attempt.pruner = [d.pruner])
  nothing : ∀ id, (∀ d ∈ w.deleted, d.id ≠ id) → w.snapshots id = [] ∧ w.returns id = []
  others : ∀ d ∈ w.deleted, ∀ a ∈ w.attempts, a.id = d.id → a.ending = .notFound ∨
    a.pruner = d.pruner ∧ a.ending = .returned ∨
      ∃ raw, a.found = some raw ∧ Library.prunable (recordStatus (some raw)) = false
  expired : ∀ d ∈ w.deleted, ∀ now ∈ d.reading, ExpiredAt limits cls retention now d.raw
  never : ∀ c r, w.calls c ≠ .ended (.expired (.error r))
  total : (∀ c, (w.calls c).Resting) → ∃ n, (∀ c, n ≤ c → w.calls c = .idle) ∧
    ∑ c ∈ Finset.range n, (w.calls c).returned = w.deleted.length

/-- The calls that have begun are finitely many. -/
def Bounded (w : World cls) : Prop := ∃ n, ∀ c, n ≤ c → w.calls c = .idle

theorem Bounded.update (h : Bounded w) (c : CallId) (phase : Phase cls) :
    ∃ n, ∀ c', n ≤ c' → Function.update w.calls c phase c' = .idle := by
  obtain ⟨n, hn⟩ := h
  refine ⟨max n (c + 1), fun c' hc' => ?_⟩
  have hne : c' ≠ c := by
    have hle := (le_max_right n (c + 1)).trans hc'
    exact Nat.ne_of_gt hle
  rw [Function.update_of_ne hne]
  exact hn c' ((le_max_left ..).trans hc')

theorem Bounded.step {kind : QueueKind} {a : Action cls} (h : Bounded w) (hstep : Step limits kind retention w a w') :
    Bounded w' := by
  cases hstep with
  | call ht hc => exact h
  | _ => exact h.update _ _

/-- Each call answers for the deletions it has made. -/
theorem sum_countP {n : ℕ} (l : List Deletion) (h : ∀ d ∈ l, d.pruner < n) :
    ∑ c ∈ Finset.range n, l.countP (fun d => d.pruner = c) = l.length := by
  induction l with
  | nil => simp
  | cons d l ih =>
    rw [List.forall_mem_cons] at h
    simp only [List.countP_cons, Finset.sum_add_distrib, ih h.2, decide_eq_true_eq, Finset.sum_ite_eq,
      Finset.mem_range, h.1, if_true, List.length_cons]

namespace Inv

theorem total (h : Inv limits retention w) (hb : Bounded w) (hrest : ∀ c, (w.calls c).Resting) :
    ∃ n, (∀ c, n ≤ c → w.calls c = .idle) ∧ ∑ c ∈ Finset.range n, (w.calls c).returned = w.deleted.length := by
  obtain ⟨n, hn⟩ := hb
  refine ⟨n, hn, ?_⟩
  have hlt : ∀ d ∈ w.deleted, d.pruner < n := by
    intro d hd
    by_contra hge
    have hzero := h.count d.pruner
    rw [hn d.pruner (not_lt.mp hge)] at hzero
    exact List.countP_eq_zero.mp hzero d hd (decide_eq_true rfl)
  rw [← sum_countP w.deleted hlt]
  apply Finset.sum_congr rfl
  intro c _
  rw [h.count c, (hrest c).pruned_eq]

end Inv

theorem prunable_of_deleted {kind : QueueKind} {a : Action cls} (hstep : Step limits kind retention w a w')
    {raw : Json} (hr : w.store.records.get? id = some raw) (hn : w'.store.records.get? id = none) :
    Library.prunable (statusText (some raw)) = true ∧ ∃ c reading, w'.deleted = w.deleted ++ [⟨c, reading, id, raw⟩] := by
  have hstays {P : Prop} (hn : w.store.records.get? id = none) : P := by
    rw [hr] at hn
    cases hn
  -- of the pruners' steps only the call of the script writes, and it erases its own id
  have hprune {id' : EntryId} (hn : (Library.prune id' w.store).2.records.get? id = none) :
      id' = id ∧ (Library.prune id' w.store).1 = .pruned raw ∧ Library.prunable (statusText (some raw)) = true := by
    have hcase := prune_case id' w.store
    generalize Library.prune id' w.store = res at hcase hn ⊢
    cases hcase with
    | missing _ => exact hstays hn
    | nonTerminal _ _ => exact hstays hn
    | pruned hr' hp =>
      rw [Dict.get?_erase] at hn
      split_ifs at hn with heq
      · subst heq
        obtain rfl := Option.some.inj (hr.symm.trans hr')
        exact ⟨rfl, rfl, hp⟩
      · exact hstays hn
  cases hstep with
  | call ht hc =>
    cases recordChange_exec hc kind _ id with
    | same hsame => exact hstays (hsame.symm.trans hn)
    | stored _ _ hs _ =>
      rw [hn] at hs
      cases hs
    | moved _ _ hs _ =>
      rw [hn] at hs
      cases hs
  | gone hc hp =>
    obtain ⟨-, hres, -⟩ := hprune hn
    rw [hp] at hres
    cases hres
  | refused hc hp =>
    obtain ⟨-, hres, -⟩ := hprune hn
    rw [hp] at hres
    cases hres
  | pruned hc hp he =>
    obtain ⟨rfl, hres, hprunable⟩ := hprune hn
    obtain rfl := Library.PruneOutcome.pruned.inj (hp.symm.trans hres)
    exact ⟨hprunable, _, _, rfl⟩
  | unrestored hc hp he =>
    obtain ⟨rfl, hres, hprunable⟩ := hprune hn
    obtain rfl := Library.PruneOutcome.pruned.inj (hp.symm.trans hres)
    exact ⟨hprunable, _, _, rfl⟩
  | _ => exact hstays hn

/-- In every run, records are pruned once, when they are terminal. -/
theorem pruned_once {kind : QueueKind} {t : ServerTime} {as : List (Action cls)}
    (hrun : Run (Step limits kind retention) (.init t) as w) : PrunedOnce limits kind retention w := by
  have h : Inv limits retention w := hrun.invariant (fun _ _ _ h hst => h.step hst) (.init retention t)
  have hb : Bounded w := hrun.invariant (fun _ _ _ h hst => h.step hst) ⟨0, fun _ _ => rfl⟩
  refine ⟨fun a w' hstep id raw => prunable_of_deleted hstep, h.nodup, fun d hd => ?_, h.unpublished, fun d hd a ha heq => ?_,
    h.expired, fun c r hc => ?_, h.total hb⟩
  · obtain ⟨e, he, hann⟩ := h.announced d hd
    refine ⟨e, he, hann.imp_left ?_⟩
    rintro ⟨caller, found, hpub⟩
    have hphase := h.phase d.pruner
    rw [hpub] at hphase
    exact ⟨⟨caller, found, hpub⟩, hphase.2.2.2.1, hphase.2.2.2.2.1⟩
  · rcases h.attempts a ha with hret | hnf | hraw
    · refine .inr (.inl ⟨?_, hret⟩)
      have hmem : a ∈ w.returns d.id := List.mem_filter.mpr ⟨ha, decide_eq_true ⟨heq, hret⟩⟩
      obtain ⟨e, he, hann⟩ := h.announced d hd
      rcases hann with ⟨caller, found, hpub⟩ | ⟨-, hdone⟩
      · have hphase := h.phase d.pruner
        rw [hpub] at hphase
        rw [hphase.2.2.2.2.1] at hmem
        cases hmem
      · have hpruner := List.mem_map_of_mem (f := Attempt.pruner) hmem
        rw [hdone] at hpruner
        exact List.mem_singleton.mp hpruner
    · exact .inl hnf
    · exact .inr (.inr hraw)
  · have hphase := h.phase c
    rw [hc] at hphase
    exact hphase

/-- The entry, running and settled at second 1000. -/
def ran : QueueEntry .base :=
  { QueueEntry.plain (.ofLast 1) .null with status := .running, dispatchedAt := some ⟨1000, 0, ClockTime.zero_lt_million⟩ }

def done : QueueEntry .base := { ran with status := .succeeded, finishedAt := some ⟨1000, 0, ClockTime.zero_lt_million⟩ }

theorem timestamped_of_seconds {e : QueueEntry cls} (h : ∀ t ∈ e.queuedAt :: (e.dispatchedAt.toList ++ e.finishedAt.toList),
    t.toTimestamp < 2 ^ 1024) : e.Timestamped where
  queuedAt := h _ (List.mem_cons_self ..)
  dispatchedAt := fun t ht => h t (by simp [Option.mem_def.mp ht])
  finishedAt := fun t ht => h t (by simp [Option.mem_def.mp ht])

theorem done_timestamped : done.Timestamped := timestamped_of_seconds (by decide +kernel)

theorem done_writable : done.Writable thousandLevels := by
  unfold QueueEntry.Writable
  decide +kernel

theorem fromDict_done : QueueEntry.fromDict thousandLevels .base done.toDict = .ok done.restored :=
  QueueEntry.exists_fromDict_toDict done_timestamped done_writable

def claimedStore (t : ServerTime) : Store :=
  (exec .fifo (.claim "w" defaultClaimLease false : Call .base) t
    (exec .fifo (.enqueue (QueueEntry.plain (.ofLast 1) .null) none) t .empty).2).2

theorem exec_markRunning {s : Store} {w : WorkerId} {e : QueueEntry cls} (ho : s.owner? e.id = some w)
    (hq : statusText (s.records.get? e.id) = some "queued") (kind : QueueKind) (t : ServerTime) :
    (exec kind (.markRunning w e) t s).2 = { s with records := s.records.set e.id e.toDict } := by
  rcases Library.markRunning_cases w e.id e.toDict s with ⟨-, hno⟩ | ⟨-, -, hr⟩
  · exact absurd ⟨ho, hq⟩ hno
  · exact congrArg Prod.snd hr

theorem exec_settle {s : Store} {w : WorkerId} {e : QueueEntry cls} (ho : s.owner? e.id = some w)
    (hq : statusText (s.records.get? e.id) = some "running") (kind : QueueKind) (t : ServerTime) :
    (exec kind (.settle w e) t s).2.records = s.records.set e.id e.toDict := by
  rcases Library.settle_cases w e.id e.toDict s with ⟨-, hno⟩ | ⟨-, -, hr⟩
  · exact absurd ⟨ho, hq⟩ hno
  · have hs : (exec kind (.settle w e) t s).2 =
        Library.dropClaim e.id { s with records := s.records.set e.id e.toDict } := congrArg Prod.snd hr
    rw [hs]
    rfl

/-- The worker that has claimed the entry marks it running and settles it. -/
theorem records_settled {t : ServerTime} (ho : (claimedStore t).owner? (.ofLast 1) = some "w")
    (hq : statusText ((claimedStore t).records.get? (.ofLast 1)) = some "queued") :
    (exec .fifo (.settle "w" done) t (exec .fifo (.markRunning "w" ran) t (claimedStore t)).2).2.records =
      ((claimedStore t).records.set (.ofLast 1) ran.toDict).set (.ofLast 1) done.toDict := by
  have hran := exec_markRunning (e := ran) ho hq .fifo t
  have hdone := exec_settle (s := (exec .fifo (.markRunning "w" ran) t (claimedStore t)).2) (e := done) (w := "w")
    (by rw [hran]; exact ho) (by rw [hran, Dict.get?_set]; rfl) .fifo t
  rw [hdone, hran]
  rfl

theorem stored_of_keys {d : Dict EntryId Json} (hkeys : d.keys = [.ofLast 1]) (raw : Json) :
    (d.set (.ofLast 1) raw).keys = [.ofLast 1] := by
  have hmap : (d.set (.ofLast 1) raw).keys = if .ofLast 1 ∈ d.keys then d.keys else d.keys ++ [.ofLast 1] :=
    Dict.map_fst_setList ..
  rwa [hkeys, if_pos (List.mem_singleton_self _)] at hmap

/-- A user asks for the entry while it is queued; then a worker runs it. -/
def ranLate (t : ServerTime) : List (Action .base) :=
  [.call (.enqueue (QueueEntry.plain (.ofLast 1) .null) none) t, .aprune 0 (.ofLast 1), .afind 0,
    .call (.claim "w" defaultClaimLease false) t, .call (.markRunning "w" ran) t, .call (.settle "w" done) t]

/-- A user and a sweep both find it finished, and the sweep is first. -/
def racingPruners : List (Action .base) :=
  [.apruneExpired 1, .anow 1 ⟨2000, 0, ClockTime.zero_lt_million⟩, .scan 1, .page 1 [.ofLast 1], .page 1 [.ofLast 1],
    .mget 1, .next 1, .afind 1, .aprune 2 (.ofLast 1), .afind 2, .prune 1, .prune 2, .apublish 1, .next 1, .afind 1, .next 1]

theorem run_ranLate {t : ServerTime} (ho : (claimedStore t).owner? (.ofLast 1) = some "w")
    (hq : statusText ((claimedStore t).records.get? (.ofLast 1)) = some "queued")
    (hkeys : (claimedStore t).records.keys = [.ofLast 1]) :
    ∃ (w : World .base) (raw : Json), Run (Step thousandLevels .fifo (some 600)) (.init t) (ranLate t) w ∧
      w.store.records.get? (.ofLast 1) = some done.toDict ∧ w.store.records.keys = [.ofLast 1] ∧
      w.calls = Function.update (fun _ => .idle) 0 (.ended (.aprune .nonTerminal)) ∧ w.deleted = [] ∧
      w.attempts = [⟨0, .ofLast 1, some raw, .nonTerminal⟩] := by
  have hplain : (QueueEntry.plain (.ofLast 1) .null).Timestamped := timestamped_of_seconds (by decide +kernel)
  have hwritable : (QueueEntry.plain (.ofLast 1) .null).Writable thousandLevels := by
    unfold QueueEntry.Writable
    decide +kernel
  have hrun : Run (Step thousandLevels .fifo (some 600)) (World.init t : World .base) [] (.init t) := .nil _
  replace hrun := hrun.snoc (.call (c := .enqueue (QueueEntry.plain (.ofLast 1) .null) none) t.le_refl
    ⟨rfl, rfl, fun d hd => by cases hd⟩)
  replace hrun := hrun.snoc (@Step.aprune _ _ _ _ _ 0 (.ofLast 1) rfl)
  replace hrun := hrun.snoc (.nonTerminal (c := 0) rfl rfl (QueueEntry.exists_fromDict_toDict hplain hwritable) (by decide))
  replace hrun := hrun.snoc (.call (c := .claim "w" defaultClaimLease false) t.le_refl rfl)
  replace hrun := hrun.snoc (.call (c := .markRunning "w" ran) t.le_refl rfl)
  replace hrun := hrun.snoc (.call (c := .settle "w" done) t.le_refl ⟨by decide, done_timestamped, done_writable⟩)
  have hrecords := records_settled ho hq
  refine ⟨_, _, hrun, ?_, ?_, Function.update_idem .., rfl, rfl⟩
  · exact (congrArg (fun d => d.get? (.ofLast 1)) hrecords).trans ((Dict.get?_set ..).trans (if_pos rfl))
  · exact (congrArg Dict.keys hrecords).trans (stored_of_keys (stored_of_keys hkeys _) _)

theorem prune_of_none {s : Store} (hr : s.records.get? id = none) : Library.prune id s = (.missing, s) := by
  unfold Library.prune
  rw [hr]

theorem prune_eq_of_prunable {s : Store} {raw : Json} (hr : s.records.get? id = some raw)
    (hp : Library.prunable (statusText (some raw)) = true) :
    Library.prune id s = (.pruned raw, { s with pending := s.pending.filter (· ≠ id), records := s.records.erase id }) := by
  have hcase := prune_case id s
  generalize Library.prune id s = res at hcase
  cases hcase with
  | missing hno =>
    rw [hno raw hr] at hp
    cases hp
  | nonTerminal hr' hno =>
    rw [← Option.some.inj (hr.symm.trans hr'), Library.prunable_recordStatus hp] at hno
    cases hno
  | pruned hr' _ =>
    obtain rfl := Option.some.inj (hr.symm.trans hr')
    rfl

theorem run_racingPruners {w : World .base} {raw : Json} (hstored : w.store.records.get? (.ofLast 1) = some done.toDict)
    (hkeys : w.store.records.keys = [.ofLast 1])
    (hcalls : w.calls = Function.update (fun _ => .idle) 0 (.ended (.aprune .nonTerminal))) (hdeleted : w.deleted = [])
    (hattempts : w.attempts = [⟨0, .ofLast 1, some raw, .nonTerminal⟩]) :
    ∃ w', Run (Step thousandLevels .fifo (some 600)) w racingPruners w' ∧
      w'.deleted = [⟨1, some ⟨2000, 0, ClockTime.zero_lt_million⟩, .ofLast 1, done.toDict⟩] ∧
      w'.attempts = [⟨0, .ofLast 1, some raw, .nonTerminal⟩, ⟨2, .ofLast 1, some done.toDict, .notFound⟩,
        ⟨1, .ofLast 1, some done.toDict, .returned⟩, ⟨1, .ofLast 1, none, .notFound⟩] ∧ ∀ c, (w'.calls c).Resting := by
  obtain ⟨store, now, calls, deleted, attempts, published⟩ := w
  dsimp only at hstored hkeys hcalls hdeleted hattempts
  subst hcalls hdeleted hattempts
  have hids : KeyScan.Stored store.records [.ofLast 1] := fun k hk => by rw [List.mem_singleton.mp hk, hstored]; rfl
  have hcomplete : (((KeyScan.start store.records).page [.ofLast 1]).page [.ofLast 1]).Complete store.records := by
    intro k hk _
    rw [show k = .ofLast 1 from List.mem_singleton.mp (hkeys ▸ hk)]
    exact List.mem_cons_self ..
  have hlist : alist thousandLevels .base (((KeyScan.start store.records).page [.ofLast 1]).page [.ofLast 1]) store =
      .ok [done.restored, done.restored] := by
    show (([.ofLast 1, .ofLast 1].filterMap store.records.get?).mapM (QueueEntry.fromDict thousandLevels .base)) = _
    rw [List.filterMap_cons_some hstored, List.filterMap_cons_some hstored, List.filterMap_nil, List.mapM_cons,
      List.mapM_cons, fromDict_done]
    rfl
  have hdue : (([done.restored, done.restored].filter (isExpired 600 ⟨2000, 0, ClockTime.zero_lt_million⟩)).map
      QueueEntry.id) = [.ofLast 1, .ofLast 1] := by
    rw [List.filter_cons_of_pos (by decide +kernel), List.filter_cons_of_pos (by decide +kernel)]
    rfl
  have hprune := prune_eq_of_prunable hstored (prunable_toDict (e := done) (by decide))
  have hnone : (Library.prune (.ofLast 1) store).2.records.get? (.ofLast 1) = none := by
    rw [hprune]
    exact (Dict.get?_erase ..).trans (if_pos rfl)
  have hgone := prune_of_none hnone
  have hrun : Run (Step thousandLevels .fifo (some 600)) _ [] _ := .nil ⟨store, now,
    Function.update (fun _ => .idle) 0 (.ended (.aprune .nonTerminal)), [],
    [⟨0, .ofLast 1, some raw, .nonTerminal⟩], published⟩
  replace hrun := hrun.snoc (.apruneExpired (c := 1) rfl rfl)
  replace hrun := hrun.snoc (@Step.anow _ _ _ _ _ 1 ⟨2000, 0, ClockTime.zero_lt_million⟩ rfl)
  replace hrun := hrun.snoc (.scan (c := 1) rfl)
  replace hrun := hrun.snoc (.page (c := 1) rfl hids)
  replace hrun := hrun.snoc (.page (c := 1) rfl hids)
  replace hrun := hrun.snoc (.mget (c := 1) rfl hcomplete rfl hlist)
  rw [hdue] at hrun
  replace hrun := hrun.snoc (.next (c := 1) rfl)
  replace hrun := hrun.snoc (.found (c := 1) rfl hstored fromDict_done (by decide))
  replace hrun := hrun.snoc (@Step.aprune _ _ _ _ _ 2 (.ofLast 1) rfl)
  replace hrun := hrun.snoc (.found (c := 2) rfl hstored fromDict_done (by decide))
  replace hrun := hrun.snoc (.pruned (c := 1) rfl (congrArg Prod.fst hprune) fromDict_done)
  replace hrun := hrun.snoc (.gone (c := 2) rfl (congrArg Prod.fst hgone))
  replace hrun := hrun.snoc (.apublish (c := 1) rfl)
  -- the key that was found twice names a record that is gone
  replace hrun := hrun.snoc (.next (c := 1) rfl)
  replace hrun := hrun.snoc (.missing (c := 1) rfl ((congrArg (fun r => r.2.records.get? (.ofLast 1)) hgone).trans hnone))
  replace hrun := hrun.snoc (.swept (c := 1) rfl)
  refine ⟨_, hrun, rfl, rfl, fun c => ?_⟩
  rcases c with _ | _ | _ | c
  · trivial
  · trivial
  · trivial
  · trivial

/-- The user and the sweep race for the finished entry: one deletion, one snapshot, one count. -/
theorem pruned_once_racing :
    ∃ w : World .base, Run (Step thousandLevels .fifo (some 600)) (.init (.ofSeconds 1000 ServerTime.second_1000))
        (ranLate (.ofSeconds 1000 ServerTime.second_1000) ++ racingPruners) w ∧
      w.deleted.length = 1 ∧ (∀ c, (w.calls c).Resting) ∧ PrunedOnce thousandLevels .fifo (some 600) w := by
  obtain ⟨w, raw, hrun, hstored, hkeys, hcalls, hdeleted, hattempts⟩ :=
    run_ranLate (t := .ofSeconds 1000 ServerTime.second_1000) (by decide +kernel) (by decide +kernel) (by decide +kernel)
  obtain ⟨w', hrun', hdeleted', -, hrest⟩ := run_racingPruners hstored hkeys hcalls hdeleted hattempts
  refine ⟨w', hrun.append hrun', ?_, hrest, pruned_once (hrun.append hrun')⟩
  rw [hdeleted']
  rfl

/-- A pruner that read the record while it was queued has got a `ValueError`. -/
theorem pruned_once_refused :
    ¬∀ (as : List (Action .base)) (w : World .base),
      Run (Step thousandLevels .fifo (some 600)) (.init (.ofSeconds 1000 ServerTime.second_1000)) as w →
        ∀ d ∈ w.deleted, ∀ a ∈ w.attempts, a.id = d.id → a.pruner ≠ d.pruner → a.ending = .notFound := by
  intro hall
  obtain ⟨w, raw, hrun, hstored, hkeys, hcalls, hdeleted, hattempts⟩ :=
    run_ranLate (t := .ofSeconds 1000 ServerTime.second_1000) (by decide +kernel) (by decide +kernel) (by decide +kernel)
  obtain ⟨w', hrun', hdeleted', hattempts', -⟩ := run_racingPruners hstored hkeys hcalls hdeleted hattempts
  have hending := hall _ w' (hrun.append hrun') ⟨1, _, _, _⟩ (hdeleted' ▸ List.mem_singleton_self _)
    ⟨0, _, _, .nonTerminal⟩ (hattempts' ▸ List.mem_cons_self ..) rfl Nat.zero_ne_one
  cases hending

end Pruning

end Redis

end DjangoQueues
