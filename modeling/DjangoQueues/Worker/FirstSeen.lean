import DjangoQueues.Entries
import DjangoQueues.Lib.KeyScan
import DjangoQueues.Lib.Run

/-! The lifecycle publications of one worker that serves one queue alone. A scan publishes the entries beyond the
largest id it has seen, and a dispatch trusts that id for whether its entry has been announced. The listing of a Redis
queue finds its keys page by page; that of a memory queue is a single page. -/

namespace DjangoQueues.FirstSeen

variable {cls : EntryClass}

/-- Who has passed a snapshot to `apublish`. -/
inductive Source where
  | scan
  | dispatch
deriving DecidableEq

/-- Where the worker's task stands. -/
inductive Phase (cls : EntryClass) where
  | idle
  /-- In `alist`, which looks for the keys. -/
  | listing (keys : KeyScan EntryId)
  /-- In the loop of `_publish_new`: what `alist` has returned, and what is still to publish of it. -/
  | publishing (entries rest : List (QueueEntry cls))
  | taken (e : QueueEntry cls)
  /-- Published as queued, or taken as published. -/
  | announced (e : QueueEntry cls)
  /-- Stored as running. -/
  | marked (e : QueueEntry cls)
  | handling (e : QueueEntry cls)

/-- The entry that is stored as running. -/
def Phase.running? : Phase cls → Option EntryId
  | .marked e => some e.id
  | .handling e => some e.id
  | _ => none

def Phase.keys? : Phase cls → Option (KeyScan EntryId)
  | .listing keys => some keys
  | _ => none

/-- What `alist` has returned to the scan that is under way. -/
def Phase.entries : Phase cls → List (QueueEntry cls)
  | .publishing entries _ => entries
  | _ => []

structure State (cls : EntryClass) where
  entries : Dict EntryId (QueueEntry cls)
  /-- The ids that wait for dispatch, in any order. -/
  pending : List EntryId
  lastObserved : Option EntryId
  phase : Phase cls
  published : List (Source × QueueEntry cls)

inductive Act (cls : EntryClass) where
  | enqueue (e : QueueEntry cls)
  | scan
  | page (ids : List EntryId)
  | mget
  | publishNext
  | endScan
  | dequeue (id : EntryId)
  | announce
  | markRunning (now : ClockTime)
  | publishRunning
  /-- The terminal record is stored and published. -/
  | finish (e : QueueEntry cls)

/-! ## The worker's steps -/

/-- `previous_entry_id is None or entry.id > previous_entry_id`. -/
def isNew (previous : Option EntryId) (id : EntryId) : Bool := previous.all (· < id)

/-- `_observed`. -/
def observed (lastObserved : Option EntryId) (id : EntryId) : Bool := lastObserved.any (id ≤ ·)

def firstSeen (previous : Option EntryId) (entries : List (QueueEntry cls)) : List (QueueEntry cls) :=
  (entries.filter fun e => isNew previous e.id).insertionSort fun x y => x.id ≤ y.id

/-- The cursor after a scan. -/
def advanced (previous : Option EntryId) (entries : List (QueueEntry cls)) : Option EntryId :=
  match (entries.map QueueEntry.id).max? with
  | none => previous
  | some largest => if isNew previous largest then some largest else previous

namespace State

def init : State cls := ⟨.empty, [], none, .idle, []⟩

def publish (source : Source) (e : QueueEntry cls) (s : State cls) : State cls :=
  { s with published := s.published ++ [(source, e)] }

/-- One step, where it can be taken. Producers enqueue at any time; the other steps are the worker's own. -/
def exec : Act cls → State cls → Option (State cls)
  | .enqueue e, s =>
    if e.status = .queued ∧ s.entries.get? e.id = none then
      some { s with entries := s.entries.set e.id e, pending := s.pending ++ [e.id] }
    else none
  | .scan, s =>
    match s.phase with
    | .idle => some { s with phase := .listing (.start s.entries) }
    | _ => none
  | .page ids, s =>
    match s.phase with
    | .listing keys => if KeyScan.Stored s.entries ids then some { s with phase := .listing (keys.page ids) } else none
    | _ => none
  | .mget, s =>
    match s.phase with
    | .listing keys =>
      if keys.Complete s.entries then
        let entries := keys.values s.entries
        some { s with phase := .publishing entries (firstSeen s.lastObserved entries) }
      else none
    | _ => none
  | .publishNext, s =>
    match s.phase with
    | .publishing entries (e :: rest) => some { s.publish .scan e with phase := .publishing entries rest }
    | _ => none
  | .endScan, s =>
    match s.phase with
    | .publishing entries [] => some { s with lastObserved := advanced s.lastObserved entries, phase := .idle }
    | _ => none
  | .dequeue id, s =>
    match s.phase, s.entries.get? id with
    | .idle, some e => if id ∈ s.pending then some { s with pending := s.pending.erase id, phase := .taken e } else none
    | _, _ => none
  | .announce, s =>
    match s.phase with
    | .taken e =>
      if observed s.lastObserved e.id then some { s with phase := .announced e }
      else some { s.publish .dispatch e with phase := .announced e }
    | _ => none
  | .markRunning now, s =>
    match s.phase with
    | .announced e =>
      let e' := { e with status := .running, dispatchedAt := some now }
      some { s with entries := s.entries.set e.id e', phase := .marked e' }
    | _ => none
  | .publishRunning, s =>
    match s.phase with
    | .marked e => some { s.publish .dispatch e with phase := .handling e }
    | _ => none
  | .finish e', s =>
    match s.phase with
    | .handling e =>
      if e'.id = e.id ∧ e'.status.Terminal then
        some { s.publish .dispatch e' with entries := s.entries.set e.id e', phase := .idle }
      else none
    | _ => none

def Step (s : State cls) (a : Act cls) (s' : State cls) : Prop := exec a s = some s'

end State

/-! ## What has been published -/

abbrev Log (cls : EntryClass) := List (Source × QueueEntry cls)

/-- Published as queued. -/
def Announced (log : Log cls) (id : EntryId) : Prop := ∃ p ∈ log, p.2.id = id ∧ p.2.status = .queued

/-- Whatever is published as running has been published as queued before. -/
def AnnouncedFirst (log : Log cls) : Prop :=
  ∀ before x after, log = before ++ x :: after → x.2.status = .running → Announced before x.2.id

/-- The ids that scans have published. -/
def scannedIds (log : Log cls) : List EntryId := (log.filter fun p => p.1 = .scan).map fun p => p.2.id

section Log

variable {log : Log cls} {x : Source × QueueEntry cls} {id : EntryId}

theorem Announced.append (h : Announced log id) (log' : Log cls) : Announced (log ++ log') id := by
  obtain ⟨p, hp, hid⟩ := h
  exact ⟨p, List.mem_append_left _ hp, hid⟩

theorem announced_snoc (h : x.2.status = .queued) : Announced (log ++ [x]) x.2.id :=
  ⟨x, List.mem_append_right _ (List.mem_singleton_self x), rfl, h⟩

theorem AnnouncedFirst.snoc (h : AnnouncedFirst log) (hx : x.2.status = .running → Announced log x.2.id) :
    AnnouncedFirst (log ++ [x]) := by
  intro before y after hsplit hrunning
  rcases List.eq_nil_or_concat after with rfl | ⟨after', z, rfl⟩
  · obtain ⟨rfl, hy⟩ := List.append_inj' hsplit rfl
    obtain rfl : x = y := by simpa using hy
    exact hx hrunning
  · have hsplit' : log ++ [x] = (before ++ y :: after') ++ [z] := by simpa using hsplit
    obtain ⟨hlog, -⟩ := List.append_inj' hsplit' rfl
    exact h before y after' hlog hrunning

theorem scannedIds_snoc_scan (e : QueueEntry cls) : scannedIds (log ++ [(.scan, e)]) = scannedIds log ++ [e.id] := by
  simp [scannedIds]

theorem scannedIds_snoc_dispatch (e : QueueEntry cls) : scannedIds (log ++ [(.dispatch, e)]) = scannedIds log := by
  simp [scannedIds]

end Log

section Cursor

variable {previous : Option EntryId} {entries : List (QueueEntry cls)} {id : EntryId}

theorem observed_eq : observed previous id = !isNew previous id := by
  cases previous with
  | none => rfl
  | some c =>
    show decide (id ≤ c) = !decide (c < id)
    rw [← decide_not]
    simp only [not_lt]

theorem mem_firstSeen {e : QueueEntry cls} : e ∈ firstSeen previous entries ↔ e ∈ entries ∧ isNew previous e.id = true := by
  rw [firstSeen, List.mem_insertionSort, List.mem_filter]

theorem observed_advanced (h : observed previous id = true) : observed (advanced previous entries) id = true := by
  unfold advanced
  cases (entries.map QueueEntry.id).max? with
  | none => exact h
  | some largest =>
    dsimp only
    split_ifs with hnew
    · cases previous with
      | none => cases h
      | some c =>
        have hid : id ≤ c := by simpa [observed] using h
        have hlt : c < largest := by simpa [isNew] using hnew
        simpa [observed] using hid.trans hlt.le
    · exact h

theorem observed_advanced_of_mem {e : QueueEntry cls} (h : e ∈ entries) :
    observed (advanced previous entries) e.id = true := by
  unfold advanced
  have hmem : e.id ∈ entries.map QueueEntry.id := List.mem_map_of_mem h
  cases hmax : (entries.map QueueEntry.id).max? with
  | none =>
    rw [List.max?_eq_none_iff.mp hmax] at hmem
    cases hmem
  | some largest =>
    have hle : e.id ≤ largest := (List.max?_eq_some_iff.mp hmax).2 e.id hmem
    dsimp only
    split_ifs with hnew
    · simpa [observed] using hle
    · cases previous with
      | none => exact absurd rfl hnew
      | some c =>
        have hc : largest ≤ c := by simpa [isNew] using hnew
        simpa [observed] using hle.trans hc

theorem observed_of_advanced (h : observed (advanced previous entries) id = true) :
    observed previous id = true ∨ ∃ e ∈ entries, id ≤ e.id := by
  unfold advanced at h
  cases hmax : (entries.map QueueEntry.id).max? with
  | none =>
    rw [hmax] at h
    exact .inl h
  | some largest =>
    rw [hmax] at h
    dsimp only at h
    split_ifs at h
    · obtain ⟨e, he, rfl⟩ := List.mem_map.mp (List.max?_eq_some_iff.mp hmax).1
      exact .inr ⟨e, he, by simpa [observed] using h⟩
    · exact .inl h

end Cursor

/-! ## One step -/

/-- Everything that a step can do. -/
inductive Change (s : State cls) : Act cls → State cls → Prop
  | enqueue {e : QueueEntry cls} (hq : e.status = .queued) (hfresh : s.entries.get? e.id = none) :
    Change s (.enqueue e) { s with entries := s.entries.set e.id e, pending := s.pending ++ [e.id] }
  | scan (hp : s.phase = .idle) : Change s .scan { s with phase := .listing (.start s.entries) }
  | page {ids : List EntryId} {keys : KeyScan EntryId} (hp : s.phase = .listing keys) :
    Change s (.page ids) { s with phase := .listing (keys.page ids) }
  | mget {keys : KeyScan EntryId} (hp : s.phase = .listing keys) :
    Change s .mget { s with
      phase := .publishing (keys.values s.entries) (firstSeen s.lastObserved (keys.values s.entries)) }
  | publishNext {entries rest : List (QueueEntry cls)} {e : QueueEntry cls} (hp : s.phase = .publishing entries (e :: rest)) :
    Change s .publishNext { s.publish .scan e with phase := .publishing entries rest }
  | endScan {entries : List (QueueEntry cls)} (hp : s.phase = .publishing entries []) :
    Change s .endScan { s with lastObserved := advanced s.lastObserved entries, phase := .idle }
  | dequeue {id : EntryId} {e : QueueEntry cls} (hp : s.phase = .idle) (he : s.entries.get? id = some e)
      (hin : id ∈ s.pending) : Change s (.dequeue id) { s with pending := s.pending.erase id, phase := .taken e }
  | known {e : QueueEntry cls} (hp : s.phase = .taken e) (ho : observed s.lastObserved e.id = true) :
    Change s .announce { s with phase := .announced e }
  | announce {e : QueueEntry cls} (hp : s.phase = .taken e) :
    Change s .announce { s.publish .dispatch e with phase := .announced e }
  | markRunning {e e' : QueueEntry cls} {now : ClockTime} (hp : s.phase = .announced e)
      (he' : e' = { e with status := .running, dispatchedAt := some now }) :
    Change s (.markRunning now) { s with entries := s.entries.set e.id e', phase := .marked e' }
  | publishRunning {e : QueueEntry cls} (hp : s.phase = .marked e) :
    Change s .publishRunning { s.publish .dispatch e with phase := .handling e }
  | finish {e e' : QueueEntry cls} (hp : s.phase = .handling e) (hid : e'.id = e.id) (ht : e'.status.Terminal) :
    Change s (.finish e') { s.publish .dispatch e' with entries := s.entries.set e.id e', phase := .idle }

theorem State.Step.change {s s' : State cls} {a : Act cls} (h : State.Step s a s') : Change s a s' := by
  unfold State.Step at h
  cases a with
  | enqueue e =>
    simp only [State.exec] at h
    split_ifs at h with hc
    cases h
    exact .enqueue hc.1 hc.2
  | scan =>
    simp only [State.exec] at h
    split at h <;> cases h
    exact .scan (by assumption)
  | page ids =>
    simp only [State.exec] at h
    split at h
    · rename_i keys hp
      split_ifs at h
      cases h
      exact .page hp
    · cases h
  | mget =>
    simp only [State.exec] at h
    split at h
    · rename_i keys hp
      split_ifs at h
      cases h
      exact .mget hp
    · cases h
  | publishNext =>
    simp only [State.exec] at h
    split at h <;> cases h
    exact .publishNext (by assumption)
  | endScan =>
    simp only [State.exec] at h
    split at h <;> cases h
    exact .endScan (by assumption)
  | dequeue id =>
    simp only [State.exec] at h
    split at h
    · rename_i e hp he
      split_ifs at h with hin
      cases h
      exact .dequeue hp he hin
    · cases h
  | announce =>
    simp only [State.exec] at h
    split at h
    · rename_i e hp
      split_ifs at h with ho
      · cases h
        exact .known hp ho
      · cases h
        exact .announce hp
    · cases h
  | markRunning now =>
    simp only [State.exec] at h
    split at h <;> cases h
    exact .markRunning (by assumption) rfl
  | publishRunning =>
    simp only [State.exec] at h
    split at h <;> cases h
    exact .publishRunning (by assumption)
  | finish e' =>
    simp only [State.exec] at h
    split at h
    · rename_i e hp
      split_ifs at h with hc
      cases h
      exact .finish hp hc.1 hc.2
    · cases h

/-- Every record is kept under its own id. -/
def Keyed (s : State cls) : Prop := ∀ id e, s.entries.get? id = some e → e.id = id

section Keyed

variable {s s' : State cls} {a : Act cls}

theorem keyed_set {entries : Dict EntryId (QueueEntry cls)} (h : ∀ id e, entries.get? id = some e → e.id = id)
    {k : EntryId} {x : QueueEntry cls} (hx : x.id = k) : ∀ id e, (entries.set k x).get? id = some e → e.id = id := by
  intro id e he
  rw [Dict.get?_set] at he
  split_ifs at he with hid
  · rw [← Option.some.inj he, hx, hid]
  · exact h id e he

theorem Keyed.step (h : Keyed s) (hs : State.Step s a s') : Keyed s' := by
  cases hs.change with
  | enqueue hq hfresh => exact keyed_set h rfl
  | scan hp => exact h
  | page hp => exact h
  | mget hp => exact h
  | publishNext hp => exact h
  | endScan hp => exact h
  | dequeue hp he hin => exact h
  | known hp ho => exact h
  | announce hp => exact h
  | markRunning hp he' => exact keyed_set h (by rw [he'])
  | publishRunning hp => exact h
  | finish hp hid ht => exact keyed_set h hid

theorem mem_values (h : Keyed s) {keys : KeyScan EntryId} {e : QueueEntry cls} :
    e ∈ keys.values s.entries ↔ e.id ∈ keys.found ∧ s.entries.get? e.id = some e := by
  rw [KeyScan.mem_values]
  constructor
  · rintro ⟨id, hid, he⟩
    obtain rfl := h id e he
    exact ⟨hid, he⟩
  · exact fun ⟨hid, he⟩ => ⟨e.id, hid, he⟩

end Keyed

/-! ## What the cursor can stand for -/

/-- The id is beyond every id that a scan has read, the scan under way included. -/
structure Beyond (s : State cls) (id : EntryId) : Prop where
  cursor : observed s.lastObserved id = false
  scan : ∀ x ∈ s.phase.entries, x.id < id

/-- Among the ids beyond the cursor, none is found twice, and none is missed below one that is found. -/
structure Covers (s : State cls) (keys : KeyScan EntryId) : Prop where
  once : (keys.found.filter (isNew s.lastObserved)).Nodup
  unmissed : ∀ id e, s.entries.get? id = some e → observed s.lastObserved id = false → id ∉ keys.found →
    ∀ k ∈ keys.found, k < id

/-- A listing that is one read has found what its cursor stands for. -/
theorem covers_whole_page (s : State cls) :
    Covers s ((KeyScan.start s.entries).page s.entries.keys) where
  once := s.entries.nodup.filter _
  unmissed _ _ he _ hout := absurd (List.mem_map_of_mem (Dict.get?_eq_some.mp he)) hout

/-- A step whose entry is beyond what scans have read, if it enqueues one, and whose listing has found what its cursor
is going to stand for, if it ends one. -/
structure State.StepBeyond (s : State cls) (a : Act cls) (s' : State cls) : Prop where
  step : State.Step s a s'
  enqueued : ∀ e, a = .enqueue e → Beyond s e.id
  listed : a = .mget → ∀ keys ∈ s.phase.keys?, Covers s keys

/-! ## Scans publish an entry once -/

/-- The ids that scans have published are behind the cursor, or belong to the scan that is under way. -/
def ScannedBehind (s : State cls) : Prop :=
  match s.phase with
  | .publishing entries rest =>
    (rest.map QueueEntry.id).Nodup ∧ (∀ e ∈ rest, e ∈ entries ∧ observed s.lastObserved e.id = false) ∧
      ∀ id ∈ scannedIds s.published, observed s.lastObserved id = true ∨
        (∃ e ∈ entries, e.id = id) ∧ id ∉ rest.map QueueEntry.id
  | _ => ∀ id ∈ scannedIds s.published, observed s.lastObserved id = true

structure Scanned (s : State cls) : Prop where
  keyed : Keyed s
  nodup : (scannedIds s.published).Nodup
  behind : ScannedBehind s

namespace Scanned

variable {s s' : State cls} {a : Act cls}

theorem init : Scanned (State.init : State cls) :=
  ⟨(fun _ _ h => by cases h), List.nodup_nil, (fun _ h => by cases h)⟩

theorem nodup_firstSeen (h : Keyed s) {keys : KeyScan EntryId} (hkeys : Covers s keys) :
    ((firstSeen s.lastObserved (keys.values s.entries)).map QueueEntry.id).Nodup := by
  have hperm : (firstSeen s.lastObserved (keys.values s.entries)).Perm
      ((keys.values s.entries).filter fun e => isNew s.lastObserved e.id) := List.perm_insertionSort _ _
  rw [(hperm.map QueueEntry.id).nodup_iff]
  have hsub := (KeyScan.values_map_sublist (c := keys) h).filter (isNew s.lastObserved)
  rw [List.filter_map] at hsub
  exact hkeys.once.sublist hsub

/-- Outside a scan only the cursor and what scans have published count. -/
theorem behind_iff (hp : ∀ l r, s.phase ≠ .publishing l r) :
    ScannedBehind s ↔ ∀ id ∈ scannedIds s.published, observed s.lastObserved id = true := by
  unfold ScannedBehind
  split
  · rename_i l r hs
    exact absurd hs (hp l r)
  · rfl

/-- The steps of a dispatch leave the cursor and the scans' publications alone. -/
theorem of_dispatch (h : Scanned s) (hkeyed : Keyed s') (hp : ∀ l r, s.phase ≠ .publishing l r)
    (hp' : ∀ l r, s'.phase ≠ .publishing l r) (hlast : s'.lastObserved = s.lastObserved)
    (hlog : scannedIds s'.published = scannedIds s.published) : Scanned s' := by
  refine ⟨hkeyed, hlog ▸ h.nodup, (behind_iff hp').mpr ?_⟩
  rw [hlast, hlog]
  exact (behind_iff hp).mp h.behind

theorem step (h : Scanned s) (hs : State.StepBeyond s a s') : Scanned s' := by
  have hkeyed : Keyed s' := h.keyed.step hs.step
  have hbehind := h.behind
  cases hs.step.change with
  | enqueue hq hfresh => exact ⟨hkeyed, h.nodup, hbehind⟩
  | scan hp => exact h.of_dispatch hkeyed (by simp [hp]) (by simp) rfl rfl
  | page hp => exact h.of_dispatch hkeyed (by simp [hp]) (by simp) rfl rfl
  | @mget keys hp =>
    have hold := (behind_iff (by simp [hp])).mp hbehind
    have hnodup := nodup_firstSeen h.keyed (hs.listed rfl keys (by rw [hp]; rfl))
    refine ⟨hkeyed, h.nodup, hnodup, fun e he => ?_, fun id hid => .inl (hold id hid)⟩
    obtain ⟨hmem, hnew⟩ := mem_firstSeen.mp he
    exact ⟨hmem, by rw [observed_eq, hnew]; rfl⟩
  | @publishNext entries rest e hp =>
    unfold ScannedBehind at hbehind
    rw [hp] at hbehind
    obtain ⟨hnodup, hrest, hids⟩ := hbehind
    rw [List.map_cons, List.nodup_cons] at hnodup
    have hnotin : e.id ∉ scannedIds s.published := by
      intro hmem
      rcases hids e.id hmem with ho | ⟨-, hout⟩
      · rw [(hrest e (List.mem_cons_self ..)).2] at ho
        cases ho
      · exact hout (List.mem_map_of_mem (List.mem_cons_self ..))
    have hlog : scannedIds (s.published ++ [(.scan, e)]) = scannedIds s.published ++ [e.id] := scannedIds_snoc_scan e
    refine ⟨hkeyed, ?_, hnodup.2, fun x hx => hrest x (List.mem_cons_of_mem _ hx), fun id hid => ?_⟩
    · show (scannedIds (s.published ++ [(.scan, e)])).Nodup
      rw [hlog, List.nodup_append]
      exact ⟨h.nodup, List.nodup_singleton _, fun x hx y hy heq => hnotin (by
        rw [← List.mem_singleton.mp hy, ← heq]
        exact hx)⟩
    · change id ∈ scannedIds (s.published ++ [(.scan, e)]) at hid
      rw [hlog, List.mem_append] at hid
      rcases hid with hid | hid
      · rcases hids id hid with ho | ⟨hin, hout⟩
        · exact .inl ho
        · exact .inr ⟨hin, fun hmem => hout (List.mem_cons_of_mem _ hmem)⟩
      · rw [List.mem_singleton.mp hid]
        exact .inr ⟨⟨e, (hrest e (List.mem_cons_self ..)).1, rfl⟩, hnodup.1⟩
  | @endScan entries hp =>
    unfold ScannedBehind at hbehind
    rw [hp] at hbehind
    refine ⟨hkeyed, h.nodup, fun id hid => ?_⟩
    rcases hbehind.2.2 id hid with ho | ⟨⟨e, he, rfl⟩, -⟩
    · exact observed_advanced ho
    · exact observed_advanced_of_mem he
  | dequeue hp he hin => exact h.of_dispatch hkeyed (by simp [hp]) (by simp) rfl rfl
  | known hp ho => exact h.of_dispatch hkeyed (by simp [hp]) (by simp) rfl rfl
  | announce hp => exact h.of_dispatch hkeyed (by simp [hp]) (by simp) rfl (scannedIds_snoc_dispatch _)
  | markRunning hp he' => exact h.of_dispatch hkeyed (by simp [hp]) (by simp) rfl rfl
  | publishRunning hp => exact h.of_dispatch hkeyed (by simp [hp]) (by simp) rfl (scannedIds_snoc_dispatch _)
  | finish hp hid ht => exact h.of_dispatch hkeyed (by simp [hp]) (by simp) rfl (scannedIds_snoc_dispatch _)

end Scanned

/-! ## Entries are announced before they run -/

/-- A queued entry that the cursor covers has been announced, or is about to be. -/
def Covered (s : State cls) : Prop :=
  match s.phase with
  | .publishing entries rest =>
    (∀ e ∈ rest, s.entries.get? e.id = some e) ∧ ∀ id e, s.entries.get? id = some e → e.status = .queued →
      Announced s.published id ∨ e ∈ rest ∨ observed s.lastObserved id = false ∧ ∀ x ∈ entries, x.id < id
  | _ => ∀ id e, s.entries.get? id = some e → e.status = .queued → observed s.lastObserved id = true →
    Announced s.published id

/-- What is known of the entry that is being dispatched. -/
def Current (s : State cls) : Prop :=
  match s.phase with
  | .taken e => s.entries.get? e.id = some e ∧ e.id ∉ s.pending ∧ e.status = .queued
  | .announced e => s.entries.get? e.id = some e ∧ e.id ∉ s.pending ∧ Announced s.published e.id
  | .marked e => s.entries.get? e.id = some e ∧ e.id ∉ s.pending ∧ Announced s.published e.id
  | .handling e => s.entries.get? e.id = some e ∧ e.id ∉ s.pending
  | _ => True

structure Tracked (s : State cls) : Prop where
  keyed : Keyed s
  nodup : s.pending.Nodup
  pending : ∀ id ∈ s.pending, ∃ e, s.entries.get? id = some e ∧ e.status = .queued
  running : ∀ id e, s.entries.get? id = some e → e.status = .running → s.phase.running? = some id
  covered : Covered s
  current : Current s
  log : AnnouncedFirst s.published

theorem covered_iff {s : State cls} (hp : ∀ l r, s.phase ≠ .publishing l r) :
    Covered s ↔ ∀ id e, s.entries.get? id = some e → e.status = .queued → observed s.lastObserved id = true →
      Announced s.published id := by
  unfold Covered
  split
  · rename_i l r hs
    exact absurd hs (hp l r)
  · rfl

theorem ne_of_terminal : ∀ st : QueueEntryStatus, st.Terminal → st ≠ .queued ∧ st ≠ .running := by
  intro st
  cases st <;> decide

namespace Tracked

variable {s s' : State cls} {a : Act cls}

theorem init : Tracked (State.init : State cls) where
  keyed _ _ h := by cases h
  nodup := List.nodup_nil
  pending _ h := by cases h
  running _ _ h := by cases h
  covered _ _ h := by cases h
  current := trivial
  log before x after h := by
    have hlen := congrArg List.length h
    simp [State.init] at hlen

theorem not_mem_pending (h : Tracked s) {id : EntryId} (hfresh : s.entries.get? id = none) : id ∉ s.pending := by
  intro hmem
  obtain ⟨e, he, -⟩ := h.pending id hmem
  rw [hfresh] at he
  cases he

/-- A stored entry is stored as before when another one is added. -/
theorem get?_set_of_fresh {id : EntryId} {e x : QueueEntry cls} (hfresh : s.entries.get? x.id = none)
    (he : s.entries.get? id = some e) : (s.entries.set x.id x).get? id = some e := by
  have hne : id ≠ x.id := by
    rintro rfl
    rw [hfresh] at he
    cases he
  rw [Dict.get?_set, if_neg hne, he]

theorem enqueue (h : Tracked s) {x : QueueEntry cls} (hq : x.status = .queued) (hfresh : s.entries.get? x.id = none)
    (hbeyond : Beyond s x.id) :
    Tracked { s with entries := s.entries.set x.id x, pending := s.pending ++ [x.id] } where
  keyed := keyed_set h.keyed rfl
  nodup := by
    rw [List.nodup_append]
    refine ⟨h.nodup, List.nodup_singleton _, fun id hid y hy heq => h.not_mem_pending hfresh ?_⟩
    rw [← List.mem_singleton.mp hy, ← heq]
    exact hid
  pending id hid := by
    rcases List.mem_append.mp hid with hid | hid
    · obtain ⟨e, he, hstatus⟩ := h.pending id hid
      exact ⟨e, get?_set_of_fresh hfresh he, hstatus⟩
    · rw [List.mem_singleton.mp hid]
      exact ⟨x, by rw [Dict.get?_set, if_pos rfl], hq⟩
  running id e he hrun := by
    rw [Dict.get?_set] at he
    split_ifs at he with hid
    · rw [← Option.some.inj he, hq] at hrun
      cases hrun
    · exact h.running id e he hrun
  covered := by
    have hold := h.covered
    unfold Covered at hold ⊢
    cases hp : s.phase with
    | publishing entries rest =>
      -- the scan that is under way read an older list; the new id is beyond it
      rw [hp] at hold
      refine ⟨fun e he => get?_set_of_fresh hfresh (hold.1 e he), fun id e he hqueued => ?_⟩
      rw [Dict.get?_set] at he
      split_ifs at he with hid
      · rw [hid]
        have hscan := hbeyond.scan
        rw [hp] at hscan
        exact .inr (.inr ⟨hbeyond.cursor, hscan⟩)
      · exact hold.2 id e he hqueued
    | _ =>
      rw [hp] at hold
      intro id e he hqueued ho
      rw [Dict.get?_set] at he
      split_ifs at he with hid
      · rw [hid, hbeyond.cursor] at ho
        cases ho
      · exact hold id e he hqueued ho
  current := by
    have hout {e : QueueEntry cls} (he : s.entries.get? e.id = some e) (hnot : e.id ∉ s.pending) :
        e.id ∉ s.pending ++ [x.id] := by
      rw [List.mem_append, List.mem_singleton, not_or]
      refine ⟨hnot, fun hid => ?_⟩
      rw [hid, hfresh] at he
      cases he
    have hold := h.current
    unfold Current at hold ⊢
    cases hp : s.phase with
    | taken e =>
      rw [hp] at hold
      exact ⟨get?_set_of_fresh hfresh hold.1, hout hold.1 hold.2.1, hold.2.2⟩
    | announced e =>
      rw [hp] at hold
      exact ⟨get?_set_of_fresh hfresh hold.1, hout hold.1 hold.2.1, hold.2.2⟩
    | marked e =>
      rw [hp] at hold
      exact ⟨get?_set_of_fresh hfresh hold.1, hout hold.1 hold.2.1, hold.2.2⟩
    | handling e =>
      rw [hp] at hold
      exact ⟨get?_set_of_fresh hfresh hold.1, hout hold.1 hold.2⟩
    | idle => trivial
    | listing keys => trivial
    | publishing entries rest => trivial
  log := h.log

theorem not_running (h : Tracked s) (hp : s.phase.running? = none) {id : EntryId} {e : QueueEntry cls}
    (he : s.entries.get? id = some e) : e.status ≠ .running := by
  intro hrun
  have hid := h.running id e he hrun
  rw [hp] at hid
  cases hid

/-- A step of `alist` changes nothing but what it has found. -/
theorem listing (h : Tracked s) (hp : ∀ l r, s.phase ≠ .publishing l r) (hrunning : s.phase.running? = none)
    (keys : KeyScan EntryId) : Tracked { s with phase := .listing keys } where
  keyed := h.keyed
  nodup := h.nodup
  pending := h.pending
  running _ _ he hrun := absurd hrun (h.not_running hrunning he)
  covered := (covered_iff hp).mp h.covered
  current := trivial
  log := h.log

theorem mget (h : Tracked s) {keys : KeyScan EntryId} (hp : s.phase = .listing keys) (hkeys : Covers s keys) :
    Tracked { s with
      phase := .publishing (keys.values s.entries) (firstSeen s.lastObserved (keys.values s.entries)) } where
  keyed := h.keyed
  nodup := h.nodup
  pending := h.pending
  running id e he hrun := absurd hrun (h.not_running (by rw [hp]; rfl) he)
  covered := by
    have hold := (covered_iff (by simp [hp])).mp h.covered
    refine ⟨fun e he => ((mem_values h.keyed).mp (mem_firstSeen.mp he).1).2, fun id e he hqueued => ?_⟩
    obtain rfl : e.id = id := h.keyed id e he
    cases ho : observed s.lastObserved e.id with
    | true => exact .inl (hold e.id e he hqueued ho)
    | false =>
      by_cases hfound : e.id ∈ keys.found
      · have hnew : isNew s.lastObserved e.id = true := by
          rw [← Bool.not_eq_false', ← observed_eq]
          exact ho
        exact .inr (.inl (mem_firstSeen.mpr ⟨(mem_values h.keyed).mpr ⟨hfound, he⟩, hnew⟩))
      · refine .inr (.inr ⟨rfl, fun x hx => hkeys.unmissed e.id e he ho hfound x.id ?_⟩)
        exact ((mem_values h.keyed).mp hx).1
  current := trivial
  log := h.log

theorem publishNext (h : Tracked s) {entries rest : List (QueueEntry cls)} {x : QueueEntry cls}
    (hp : s.phase = .publishing entries (x :: rest)) :
    Tracked { s.publish .scan x with phase := .publishing entries rest } := by
  have hcovered := h.covered
  unfold Covered at hcovered
  rw [hp] at hcovered
  obtain ⟨hstored, hqueued⟩ := hcovered
  have hx : s.entries.get? x.id = some x := hstored x (List.mem_cons_self ..)
  have hnot {id : EntryId} {e : QueueEntry cls} (he : s.entries.get? id = some e) : e.status ≠ .running :=
    h.not_running (by rw [hp]; rfl) he
  refine ⟨h.keyed, h.nodup, h.pending, fun id e he hrun => absurd hrun (hnot he), ?_, trivial,
    h.log.snoc fun hrun => absurd hrun (hnot hx)⟩
  refine ⟨fun e he => hstored e (List.mem_cons_of_mem _ he), fun id e he hq => ?_⟩
  rcases hqueued id e he hq with hann | hrest | hbeyond
  · exact .inl (hann.append _)
  · rcases List.mem_cons.mp hrest with rfl | hrest
    · rw [← h.keyed id e he]
      exact .inl (announced_snoc (x := (Source.scan, e)) hq)
    · exact .inr (.inl hrest)
  · exact .inr (.inr hbeyond)

theorem endScan (h : Tracked s) {entries : List (QueueEntry cls)} (hp : s.phase = .publishing entries []) :
    Tracked { s with lastObserved := advanced s.lastObserved entries, phase := .idle } where
  keyed := h.keyed
  nodup := h.nodup
  pending := h.pending
  running id e he hrun := absurd hrun (h.not_running (by rw [hp]; rfl) he)
  covered := by
    have hold := h.covered
    unfold Covered at hold
    rw [hp] at hold
    intro id e he hq ho
    rcases hold.2 id e he hq with hann | hrest | ⟨hcursor, hscan⟩
    · exact hann
    · cases hrest
    · rcases observed_of_advanced ho with hbefore | ⟨x, hx, hle⟩
      · rw [hcursor] at hbefore
        cases hbefore
      · exact absurd hle (not_le.mpr (hscan x hx))
  current := trivial
  log := h.log

theorem dequeue (h : Tracked s) {id : EntryId} {e : QueueEntry cls} (hp : s.phase = .idle)
    (he : s.entries.get? id = some e) (hin : id ∈ s.pending) :
    Tracked { s with pending := s.pending.erase id, phase := .taken e } where
  keyed := h.keyed
  nodup := h.nodup.erase id
  pending i hi := h.pending i (List.mem_of_mem_erase hi)
  running i x hx hrun := absurd hrun (h.not_running (by rw [hp]; rfl) hx)
  covered := by
    have hold := (covered_iff (by simp [hp])).mp h.covered
    exact hold
  current := by
    obtain ⟨x, hx, hq⟩ := h.pending id hin
    rw [he] at hx
    obtain rfl := Option.some.inj hx
    have hid : e.id = id := h.keyed id e he
    refine ⟨hid ▸ he, ?_, hq⟩
    rw [hid]
    exact h.nodup.not_mem_erase
  log := h.log

theorem announce (h : Tracked s) {e : QueueEntry cls} (hp : s.phase = .taken e) (log : Log cls)
    (hlog : AnnouncedFirst (s.published ++ log)) (hann : Announced (s.published ++ log) e.id) :
    Tracked { s with published := s.published ++ log, phase := .announced e } where
  keyed := h.keyed
  nodup := h.nodup
  pending := h.pending
  running id x hx hrun := absurd hrun (h.not_running (by rw [hp]; rfl) hx)
  covered id x hx hq ho := ((covered_iff (by simp [hp])).mp h.covered id x hx hq ho).append log
  current := by
    have hold := h.current
    unfold Current at hold
    rw [hp] at hold
    exact ⟨hold.1, hold.2.1, hann⟩
  log := hlog

/-- The record of the entry that is being dispatched is replaced by one that is no longer queued. -/
theorem replace (h : Tracked s) {e e' : QueueEntry cls} (p : Phase cls) (log : Log cls) (hid : e'.id = e.id)
    (hout : e.id ∉ s.pending) (hnot : e'.status ≠ .queued) (hp : ∀ l r, s.phase ≠ .publishing l r)
    (hp' : ∀ l r, p ≠ .publishing l r)
    (hrunning : ∀ id x, (s.entries.set e.id e').get? id = some x → x.status = .running → p.running? = some id)
    (hcurrent : Current ⟨s.entries.set e.id e', s.pending, s.lastObserved, p, s.published ++ log⟩)
    (hlog : AnnouncedFirst (s.published ++ log)) :
    Tracked ⟨s.entries.set e.id e', s.pending, s.lastObserved, p, s.published ++ log⟩ where
  keyed := keyed_set h.keyed hid
  nodup := h.nodup
  pending i hi := by
    obtain ⟨x, hx, hq⟩ := h.pending i hi
    have hne : i ≠ e.id := fun heq => hout (heq ▸ hi)
    exact ⟨x, by rw [Dict.get?_set, if_neg hne, hx], hq⟩
  running := hrunning
  covered := by
    rw [covered_iff hp']
    intro i x hx hq ho
    rw [Dict.get?_set] at hx
    split_ifs at hx with hi
    · rw [← Option.some.inj hx] at hq
      exact absurd hq hnot
    · exact ((covered_iff hp).mp h.covered i x hx hq ho).append log
  current := hcurrent
  log := hlog

theorem step (h : Tracked s) (hs : State.StepBeyond s a s') : Tracked s' := by
  have hcurrent := h.current
  unfold Current at hcurrent
  cases hs.step.change with
  | enqueue hq hfresh => exact h.enqueue hq hfresh (hs.enqueued _ rfl)
  | scan hp => exact h.listing (by simp [hp]) (by rw [hp]; rfl) _
  | page hp => exact h.listing (by simp [hp]) (by rw [hp]; rfl) _
  | mget hp => exact h.mget hp (hs.listed rfl _ (by rw [hp]; rfl))
  | publishNext hp => exact h.publishNext hp
  | endScan hp => exact h.endScan hp
  | dequeue hp he hin => exact h.dequeue hp he hin
  | @known e hp ho =>
    rw [hp] at hcurrent
    have hann := (covered_iff (by simp [hp])).mp h.covered e.id e hcurrent.1 hcurrent.2.2 ho
    have hnext := h.announce hp [] (by rw [List.append_nil]; exact h.log) (hann.append [])
    rw [List.append_nil] at hnext
    exact hnext
  | @announce e hp =>
    rw [hp] at hcurrent
    have hnot : e.status ≠ .running := h.not_running (by rw [hp]; rfl) hcurrent.1
    exact h.announce hp _ (h.log.snoc fun hrun => absurd hrun hnot) (announced_snoc hcurrent.2.2)
  | @markRunning e e' now hp he' =>
    rw [hp] at hcurrent
    have hid : e'.id = e.id := by rw [he']
    have hstatus : e'.status = .running := by rw [he']
    have hlog : AnnouncedFirst (s.published ++ []) := by
      rw [List.append_nil]
      exact h.log
    have hnext := h.replace (.marked e') [] hid hcurrent.2.1 (by rw [hstatus]; decide) (by simp [hp])
      (by simp) (fun i x hx hrun => ?_) ?_ hlog
    · rw [List.append_nil] at hnext
      exact hnext
    · rw [Dict.get?_set] at hx
      split_ifs at hx with hi
      · show some e'.id = some i
        rw [hid, hi]
      · exact absurd hrun (h.not_running (by rw [hp]; rfl) hx)
    · refine ⟨?_, ?_, ?_⟩
      · show (s.entries.set e.id e').get? e'.id = some e'
        rw [hid, Dict.get?_set, if_pos rfl]
      · show e'.id ∉ s.pending
        rw [hid]
        exact hcurrent.2.1
      · show Announced (s.published ++ []) e'.id
        rw [hid]
        exact hcurrent.2.2.append []
  | @publishRunning e hp =>
    rw [hp] at hcurrent
    refine ⟨h.keyed, h.nodup, h.pending, fun i x hx hrun => ?_, ?_, ⟨hcurrent.1, hcurrent.2.1⟩,
      h.log.snoc fun _ => hcurrent.2.2⟩
    · have hrunning := h.running i x hx hrun
      rw [hp] at hrunning
      exact hrunning
    · exact fun i x hx hq ho => ((covered_iff (by simp [hp])).mp h.covered i x hx hq ho).append _
  | @finish e e' hp hid ht =>
    rw [hp] at hcurrent
    obtain ⟨hqueued, hnot⟩ := ne_of_terminal e'.status ht
    refine h.replace .idle [(.dispatch, e')] hid hcurrent.2 hqueued (by simp [hp]) (by simp)
      (fun i x hx hrun => ?_) trivial (h.log.snoc fun hrun => absurd hrun hnot)
    rw [Dict.get?_set] at hx
    split_ifs at hx with hi
    · rw [← Option.some.inj hx] at hrun
      exact absurd hrun hnot
    · have hrunning := h.running i x hx hrun
      rw [hp] at hrunning
      exact absurd (Option.some.inj hrunning).symm hi

end Tracked

/-- Where every entry that is enqueued is beyond the ids that scans have read, and every listing has found what its
cursor stands for, each running publication comes after a queued one, and no entry is published twice by scans. -/
theorem announced_before_running {acts : List (Act cls)} {s : State cls}
    (h : Run State.StepBeyond State.init acts s) : AnnouncedFirst s.published ∧ (scannedIds s.published).Nodup := by
  have htracked : Tracked s := h.invariant (fun _ _ _ hi hs => hi.step hs) Tracked.init
  have hscanned : Scanned s := h.invariant (fun _ _ _ hi hs => hi.step hs) Scanned.init
  exact ⟨htracked.log, hscanned.nodup⟩

instance (s : State cls) (id : EntryId) : Decidable (Beyond s id) :=
  decidable_of_iff (observed s.lastObserved id = false ∧ ∀ x ∈ s.phase.entries, x.id < id)
    ⟨fun h => ⟨h.1, h.2⟩, fun h => ⟨h.cursor, h.scan⟩⟩

instance (s : State cls) (keys : KeyScan EntryId) : Decidable (Covers s keys) :=
  decidable_of_iff ((keys.found.filter (isNew s.lastObserved)).Nodup ∧ ∀ p ∈ s.entries.items,
      observed s.lastObserved p.1 = false → p.1 ∉ keys.found → ∀ k ∈ keys.found, k < p.1)
    ⟨fun h => ⟨h.1, fun id e he => h.2 (id, e) (Dict.get?_eq_some.mp he)⟩,
      fun h => ⟨h.once, fun p hp => h.unmissed p.1 p.2 (Dict.get?_eq_some.mpr hp)⟩⟩

/-- What `StepBeyond` asks of a step. -/
def allowed (s : State cls) : Act cls → Bool
  | .enqueue e => decide (Beyond s e.id)
  | .mget => decide (∀ keys ∈ s.phase.keys?, Covers s keys)
  | _ => true

/-- The steps in order, while they can be taken. -/
def execAll (check : State cls → Act cls → Bool) (acts : List (Act cls)) (s : State cls) : Option (State cls) :=
  acts.foldlM (fun s a => if check s a then s.exec a else none) s

theorem run_of_execAll {check : State cls → Act cls → Bool} {R : State cls → Act cls → State cls → Prop}
    (hR : ∀ s a t, check s a = true → State.Step s a t → R s a t) {acts : List (Act cls)} {s s' : State cls}
    (h : execAll check acts s = some s') : Run R s acts s' := by
  induction acts generalizing s with
  | nil =>
    obtain rfl := Option.some.inj h
    exact .nil s
  | cons a acts ih =>
    obtain ⟨t, ht, hrest⟩ := Option.bind_eq_some_iff.mp h
    dsimp only at ht
    split_ifs at ht with hcheck
    exact .cons (hR s a t hcheck ht) (ih hrest)

theorem stepBeyond_of_allowed {s t : State cls} {a : Act cls} (ha : allowed s a = true) (hs : State.Step s a t) :
    State.StepBeyond s a t := by
  refine ⟨hs, fun e he => ?_, fun hm => ?_⟩
  · subst he
    exact of_decide_eq_true ha
  · subst hm
    exact of_decide_eq_true ha

def entryOf (n : Fin 16) : QueueEntry .base := .plain (.ofLast n) .null

/-- A dispatch, up to the call of the handler. -/
def runs (n : Fin 16) : List (Act .base) :=
  [.dequeue (.ofLast n), .announce, .markRunning ⟨1000, 0, ClockTime.zero_lt_million⟩, .publishRunning]

/-- The entry 8 comes while the keys are looked for, and is missed. Both entries are run. -/
def missedAbove : List (Act .base) :=
  [.enqueue (entryOf 5), .scan, .page [.ofLast 5], .enqueue (entryOf 8), .page [], .mget, .publishNext, .endScan] ++
    runs 5 ++ [.finish { entryOf 5 with status := .succeeded }] ++ runs 8

theorem announced_five : ∃ s, Run State.StepBeyond State.init missedAbove s ∧
    s.published.map (fun p => (p.2.id, p.2.status)) = [(.ofLast 5, .queued), (.ofLast 5, .running),
      (.ofLast 5, .succeeded), (.ofLast 8, .queued), (.ofLast 8, .running)] ∧
    AnnouncedFirst s.published ∧ (scannedIds s.published).Nodup := by
  have hlog : ((execAll allowed missedAbove State.init).map fun s => s.published.map fun p => (p.2.id, p.2.status)) =
      some [(.ofLast 5, .queued), (.ofLast 5, .running), (.ofLast 5, .succeeded), (.ofLast 8, .queued),
        (.ofLast 8, .running)] := by decide +kernel
  obtain ⟨s, hs, hpublished⟩ := Option.map_eq_some_iff.mp hlog
  have hrun := run_of_execAll (fun _ _ _ => stepBeyond_of_allowed) hs
  exact ⟨s, hrun, hpublished, announced_before_running hrun⟩

/-- After a scan has read the id 5, an entry with the id 3 is enqueued and run. -/
def lateProducer : List (Act .base) :=
  [.enqueue (entryOf 5), .scan, .page [.ofLast 5], .mget, .publishNext, .endScan, .enqueue (entryOf 3)] ++ runs 3

/-- The entry 7 comes behind the keys that have been looked for, and 8 before them. -/
def missedBelow : List (Act .base) :=
  [.scan, .page [], .enqueue (entryOf 7), .enqueue (entryOf 8), .page [.ofLast 8], .mget, .publishNext, .endScan] ++ runs 7

/-- A key is found twice. -/
def foundTwice : List (Act .base) :=
  [.enqueue (entryOf 5), .scan, .page [.ofLast 5], .page [.ofLast 5], .mget, .publishNext, .publishNext]

theorem not_announcedFirst {log : Log cls} {x y : EntryId × QueueEntryStatus} (hxy : x.1 ≠ y.1)
    (hlog : (log.map fun p => (p.2.id, p.2.status)) = [x, y]) (hy : y.2 = .running) : ¬AnnouncedFirst log := by
  intro hfirst
  obtain ⟨p, rest, rfl, rfl, hrest⟩ := List.map_eq_cons_iff.mp hlog
  obtain ⟨q, rest', rfl, rfl, -⟩ := List.map_eq_cons_iff.mp hrest
  obtain ⟨r, hr, hid, -⟩ := hfirst [p] q rest' rfl hy
  rw [List.mem_singleton.mp hr] at hid
  exact hxy hid

theorem exists_run_of_log {acts : List (Act .base)} {l : List (EntryId × QueueEntryStatus)}
    (h : ((execAll (fun _ _ => true) acts State.init).map fun s => s.published.map fun p => (p.2.id, p.2.status)) = some l) :
    ∃ s : State .base, Run State.Step State.init acts s ∧ s.published.map (fun p => (p.2.id, p.2.status)) = l := by
  obtain ⟨s, hs, hl⟩ := Option.map_eq_some_iff.mp h
  exact ⟨s, run_of_execAll (fun _ _ _ _ hstep => hstep) hs, hl⟩

/-- The late entry and the missed one are published as running and never as queued, and the key found twice is
published as queued twice. -/
theorem unannounced :
    (∃ s, Run State.Step State.init lateProducer s ∧ ¬AnnouncedFirst s.published) ∧
    (∃ s, Run State.Step State.init missedBelow s ∧ ¬AnnouncedFirst s.published) ∧
    ∃ s : State .base, Run State.Step State.init foundTwice s ∧ ¬(scannedIds s.published).Nodup := by
  refine ⟨?_, ?_, ?_⟩
  · obtain ⟨s, hrun, hlog⟩ := @exists_run_of_log lateProducer
      [(.ofLast 5, .queued), (.ofLast 3, .running)] (by decide +kernel)
    exact ⟨s, hrun, not_announcedFirst (by decide) hlog rfl⟩
  · obtain ⟨s, hrun, hlog⟩ := @exists_run_of_log missedBelow
      [(.ofLast 8, .queued), (.ofLast 7, .running)] (by decide +kernel)
    exact ⟨s, hrun, not_announcedFirst (by decide) hlog rfl⟩
  · have hids : ((execAll (fun _ _ => true) foundTwice State.init).map fun s => scannedIds s.published) =
        some [.ofLast 5, .ofLast 5] := by decide +kernel
    obtain ⟨s, hs, hl⟩ := Option.map_eq_some_iff.mp hids
    refine ⟨s, run_of_execAll (fun _ _ _ _ hstep => hstep) hs, ?_⟩
    rw [hl]
    decide

end DjangoQueues.FirstSeen
