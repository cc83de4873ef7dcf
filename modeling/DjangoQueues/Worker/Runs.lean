import DjangoQueues.Worker.Outcomes

/-! Runs of a worker on queues without leases: entries arrive, and each one that is dequeued is dispatched to its end
before the next. Marking an entry running works; the calls that record its outcome may fail in any way, and no record
is deleted. -/

namespace DjangoQueues.Worker

variable {Name : Type} {cls : EntryClass}

/-- A dispatch that has ended. -/
structure Ended (Name : Type) where
  queue : Name
  id : EntryId
  handler : HandlerEnd
  calls : Calls

/-- The record of a dispatch that has ended: what its handler's end calls for, or, where that could not be stored, the
failure to store it. -/
def Ended.Stored (d : Ended Name) (s : State cls) : Prop :=
  ∃ e, s.records.get? d.id = some e ∧
    if d.calls.Applied .outcome then
      match d.handler with
      | .returned result => e.status = .succeeded ∧ e.result = result
      | .expired => e.status = .timeout
      | _ => e.status = .failed
    else e.status = .failed ∧ e.error = persistenceError

theorem Ended.Stored.terminal {d : Ended Name} {s : State cls} (h : d.Stored s) :
    ∃ e, s.records.get? d.id = some e ∧ e.status.Terminal := by
  obtain ⟨e, he, hstored⟩ := h
  refine ⟨e, he, ?_⟩
  split_ifs at hstored
  · split at hstored
    · rw [hstored.1]
      decide
    · rw [hstored]
      decide
    · rw [hstored]
      decide
  · rw [hstored.1]
    decide

theorem Ended.Stored.of_eq {d : Ended Name} {s s' : State cls} (h : d.Stored s)
    (heq : s'.records.get? d.id = s.records.get? d.id) : d.Stored s' := by
  obtain ⟨e, he, hstored⟩ := h
  exact ⟨e, heq.trans he, hstored⟩

/-- The entry is marked running. -/
def Calls.StartsRunning (E : Calls) : Prop :=
  (E.clock .running).isSome = true ∧ E.find .running = true ∧ E.write .running = .replied

section Dispatch

variable {s : State cls} {E : Calls} {h : HandlerEnd} {entry : QueueEntry cls}

theorem amarkRunning_eq (hentry : s.records.get? entry.id = some entry) (hq : entry.status = .queued)
    (hE : E.StartsRunning) : ∃ now, s.amarkRunning E entry.id =
      (.ok (runningEntry now entry), s.store (runningEntry now entry)) := by
  obtain ⟨hc, hf, hw⟩ := hE
  obtain ⟨now, hnow⟩ := Option.isSome_iff_exists.mp hc
  have hmem : QueueEntryStatus.running ∈ entry.status.nextState := (State.mem_nextState_running _).mpr hq
  refine ⟨now, ?_⟩
  unfold State.amarkRunning State.areplaceEntry
  rw [hnow, State.afind_of_find hf hentry]
  dsimp only
  rw [if_pos hmem, hw]

/-- A dispatch stores a final record and leaves every other one alone, or ends with `QueuePersistenceError`. -/
theorem dispatch_recorded (observed : Bool) (hentry : s.records.get? entry.id = some entry)
    (hq : entry.status = .queued) (hE : E.StartsRunning) {o : Outcome} (ho : h.outcome? = some o) :
    (∃ now e s', State.FinalEntry E o (runningEntry now entry) e ∧
      s.dispatch .none observed E h entry = (.ok (), s') ∧
      ∀ k, s'.records.get? k = if k = entry.id then some e else s.records.get? k) ∨
    ∃ s', s.dispatch .none observed E h entry = (.error .persistence, s') := by
  have hrecords := records_entry observed s entry
  unfold State.dispatch
  dsimp only
  generalize (if observed then s else s.publish entry) = m at hrecords
  have hm : m.records.get? entry.id = some entry := by rw [hrecords, hentry]
  obtain ⟨now, hmark⟩ := amarkRunning_eq hm hq hE
  rw [hmark]
  dsimp only
  set r := runningEntry now entry with hr
  have hfound : ((m.store r).publish r).records.get? entry.id = some r := by
    show (m.store r).records.get? entry.id = some r
    rw [State.get?_store]
    exact if_pos rfl
  unfold State.finish
  dsimp only
  rw [ho]
  dsimp only
  rcases State.publishTerminal_running (E := E) hfound rfl rfl o with ⟨e, he, heq⟩ | herr
  · refine .inl ⟨now, e, _, he, heq, fun k => ?_⟩
    have hid : e.id = entry.id := he.id_eq
    show (((m.store r).publish r).store e).records.get? k = _
    rw [State.get?_store, hid]
    split_ifs with hk
    · rfl
    · show (m.store r).records.get? k = _
      rw [State.get?_store, ← hrecords]
      exact if_neg hk
  · exact .inr ⟨_, Prod.ext herr rfl⟩

theorem stored_of_finalEntry {o : Outcome} {r e : QueueEntry cls} (ho : h.outcome? = some o)
    (he : State.FinalEntry E o r e) (name : Name) {id : EntryId} (hs : s.records.get? id = some e) :
    (Ended.mk name id h E).Stored s := by
  refine ⟨e, hs, ?_⟩
  obtain ⟨now, ⟨happ, rfl⟩ | ⟨hnot, rfl⟩⟩ := he
  · rw [if_pos happ]
    cases h with
    | returned result =>
      obtain rfl := Option.some.inj ho
      exact ⟨rfl, rfl⟩
    | notJson error =>
      obtain rfl := Option.some.inj ho
      rfl
    | raised error =>
      obtain rfl := Option.some.inj ho
      rfl
    | expired =>
      obtain rfl := Option.some.inj ho
      rfl
    | unserialisable => cases ho
    | notStarted => cases ho
    | cancelled => cases ho
    | exited => cases ho
  · rw [if_neg hnot]
    exact ⟨rfl, rfl⟩

end Dispatch

/-! ## Runs -/

variable [DecidableEq Name] {classes : Name → EntryClass}

/-- The worker's queues, with what it has published and counted for each. -/
structure World (classes : Name → EntryClass) where
  queues : ∀ name, State (classes name)
  /-- What has ended `run`. -/
  stopped : Option WorkerError
  ended : List (Ended Name)

def World.init : World classes := ⟨fun _ => ⟨.empty, [], ⟨0, 0, 0, 0⟩⟩, none, []⟩

inductive Act (classes : Name → EntryClass) where
  | aenqueue (name : Name) (e : QueueEntry (classes name))
  | dispatch (name : Name) (entry : QueueEntry (classes name)) (observed : Bool) (E : Calls) (h : HandlerEnd)

/-- An exception that leaves `_dispatch` ends the run, unless it is `QueueEntryNotFoundError`. -/
def stops : Except WorkerError Unit → Option WorkerError
  | .ok _ => none
  | .error (.notFound _) => none
  | .error err => some err

def World.after (w : World classes) (d : Ended Name) (r : Except WorkerError Unit × State (classes d.queue)) :
    World classes :=
  ⟨Function.update w.queues d.queue r.2, stops r.1, w.ended ++ [d]⟩

inductive Step : World classes → Act classes → World classes → Prop
  /-- A new entry is queued under a new id. -/
  | aenqueue {w : World classes} {name : Name} {e : QueueEntry (classes name)} (hq : e.status = .queued)
      (hfresh : (w.queues name).records.get? e.id = none) :
    Step w (.aenqueue name e) { w with queues := Function.update w.queues name ((w.queues name).store e) }
  | dispatch {w : World classes} {name : Name} {entry : QueueEntry (classes name)} {observed : Bool} {E : Calls}
      {h : HandlerEnd} (hgo : w.stopped = none) (he : (w.queues name).records.get? entry.id = some entry)
      (hq : entry.status = .queued) (hE : E.StartsRunning) :
    Step w (.dispatch name entry observed E h)
      (w.after ⟨name, entry.id, h, E⟩ ((w.queues name).dispatch .none observed E h entry))

/-- The handler neither ends with `CancelledError` or another `BaseException` of its own, nor returns a value on which
`json.dumps` raises neither `TypeError` nor `ValueError`, and the call of it raises no `TimeoutError`. -/
def Act.Ordinary : Act classes → Prop
  | .aenqueue _ _ => True
  | .dispatch _ _ _ _ h => h.outcome?.isSome = true

/-- While the run goes on every ended dispatch is stored; only `QueuePersistenceError` ends it. -/
structure WorldInv (w : World classes) : Prop where
  stopped : ∀ err, w.stopped = some err → err = .persistence
  stored : w.stopped = none → ∀ d ∈ w.ended, d.Stored (w.queues d.queue)

/-- A change of one queue keeps an ended dispatch stored where it keeps that dispatch's record. -/
theorem Ended.Stored.update {d : Ended Name} {queues : ∀ name, State (classes name)} (h : d.Stored (queues d.queue))
    (name : Name) (s' : State (classes name))
    (hkeep : d.queue = name → s'.records.get? d.id = (queues name).records.get? d.id) :
    d.Stored (Function.update queues name s' d.queue) := by
  obtain ⟨queue, id, hend, E⟩ := d
  by_cases hname : queue = name
  · subst hname
    rw [Function.update_self]
    exact h.of_eq (hkeep rfl)
  · rw [Function.update_of_ne hname]
    exact h

theorem WorldInv.step {w w' : World classes} {a : Act classes} (h : WorldInv w) (hs : Step w a w')
    (ha : a.Ordinary) : WorldInv w' := by
  cases hs with
  | @aenqueue name e hq hfresh =>
    refine ⟨h.stopped, fun hgo d hd => (h.stored hgo d hd).update name _ fun hname => ?_⟩
    have hold := h.stored hgo d hd
    obtain ⟨queue, id, hend, E⟩ := d
    subst hname
    obtain ⟨x, hx, -⟩ := hold
    have hne : id ≠ e.id := fun heq => by rw [heq, hfresh] at hx; cases hx
    rw [State.get?_store]
    exact if_neg hne
  | @dispatch name entry observed E hend hgo he hq hE =>
    obtain ⟨o, ho⟩ := Option.isSome_iff_exists.mp ha
    rcases dispatch_recorded observed he hq hE ho with ⟨now, e, s', hfinal, heq, hrecords⟩ | ⟨s', heq⟩
    · rw [heq]
      refine ⟨(fun err herr => by cases herr), fun _ d hd => ?_⟩
      rcases List.mem_append.mp hd with hd | hd
      · have hold := h.stored hgo d hd
        refine hold.update name s' fun hname => ?_
        obtain ⟨queue, id, hend', E'⟩ := d
        subst hname
        -- The record of an ended dispatch is terminal, and the one dispatched now was queued.
        have hne : id ≠ entry.id := by
          intro hid
          obtain ⟨x, hx, hterm⟩ := hold.terminal
          rw [hid, he] at hx
          rw [← Option.some.inj hx, hq] at hterm
          exact absurd hterm (by decide)
        exact (hrecords id).trans (if_neg hne)
      · rw [List.mem_singleton.mp hd]
        show Ended.Stored _ (Function.update w.queues name s' name)
        rw [Function.update_self]
        exact stored_of_finalEntry ho hfinal name ((hrecords entry.id).trans (if_pos rfl))
    · rw [heq]
      exact ⟨fun err herr => (Option.some.inj herr).symm, (fun hnone => by cases hnone)⟩

/-- In every run whose handlers end in an ordinary way, only `QueuePersistenceError` ends the run, and as long as it
goes on every dispatched entry has its terminal record. -/
theorem dispatched_entries_stored {acts : List (Act classes)} {w : World classes} (h : Run Step World.init acts w)
    (hacts : ∀ a ∈ acts, a.Ordinary) :
    (∀ err, w.stopped = some err → err = .persistence) ∧
    (w.stopped = none → ∀ d ∈ w.ended, d.Stored (w.queues d.queue)) := by
  have hinit : WorldInv (World.init : World classes) :=
    ⟨(fun err herr => by cases herr), (fun _ d hd => by cases hd)⟩
  have hinv : WorldInv w :=
    h.invariant_of_forall (I := WorldInv) (P := Act.Ordinary) (fun _ _ _ ha hi hs => hi.step hs ha) hacts hinit
  exact ⟨hinv.stopped, hinv.stored⟩

/-- A worker with one queue that holds one entry. -/
def queued : World fun _ : Unit => EntryClass.base := ⟨fun _ => waiting, none, []⟩

def oneQueue (E : Calls) (h : HandlerEnd) : World fun _ : Unit => EntryClass.base :=
  queued.after ⟨(), job.id, h, E⟩ (waiting.dispatch .none false E h job)

def oneQueueActs (E : Calls) (h : HandlerEnd) : List (Act fun _ : Unit => EntryClass.base) :=
  [.aenqueue () job, .dispatch () job false E h]

theorem step_queued : Step World.init (.aenqueue () job) queued := by
  have hstored : Function.update (World.init : World fun _ : Unit => EntryClass.base).queues () waiting =
      queued.queues := by
    funext name
    exact Function.update_self ..
  have hstep : Step (World.init : World fun _ : Unit => EntryClass.base) (.aenqueue () job)
      { World.init with queues := Function.update World.init.queues () waiting } := .aenqueue rfl rfl
  rw [hstored] at hstep
  exact hstep

theorem run_oneQueue (reply : CallEnd) (h : HandlerEnd) :
    Run Step World.init (oneQueueActs (answered reply) h) (oneQueue (answered reply) h) :=
  .cons step_queued (.cons (.dispatch rfl waiting_get rfl ⟨rfl, rfl, rfl⟩) (.nil _))

theorem dispatched_job_stored :
    (∀ a ∈ oneQueueActs (answered .replied) (.returned .null), a.Ordinary) ∧
    (oneQueue (answered .replied) (.returned .null)).stopped = none ∧
    ∀ d ∈ (oneQueue (answered .replied) (.returned .null)).ended,
      d.Stored ((oneQueue (answered .replied) (.returned .null)).queues d.queue) := by
  have hacts : ∀ a ∈ oneQueueActs (answered .replied) (.returned .null), a.Ordinary := by
    simp [oneQueueActs, Act.Ordinary, HandlerEnd.outcome?]
  exact ⟨hacts, rfl, (dispatched_entries_stored (run_oneQueue .replied (.returned .null)) hacts).2 rfl⟩

/-- A JSON result that the first call does not store leaves the entry failed, and the run goes on. A handler that ends
with a `CancelledError` of its own, or whose call raises a `TimeoutError`, stops the run, and its entry stays
running. -/
theorem outcomes_not_stored :
    (Run Step World.init (oneQueueActs (answered .failed) (.returned .null))
        (oneQueue (answered .failed) (.returned .null)) ∧
      (oneQueue (answered .failed) (.returned .null)).stopped = none ∧
      ((oneQueue (answered .failed) (.returned .null)).queues ()).status? job.id = some .failed) ∧
    (Run Step World.init (oneQueueActs (answered .replied) .cancelled) (oneQueue (answered .replied) .cancelled) ∧
      (oneQueue (answered .replied) .cancelled).stopped = some .cancelled ∧
      ((oneQueue (answered .replied) .cancelled).queues ()).status? job.id = some .running) ∧
    Run Step World.init (oneQueueActs (answered .replied) .notStarted) (oneQueue (answered .replied) .notStarted) ∧
      (oneQueue (answered .replied) .notStarted).stopped = some .timeout ∧
      ((oneQueue (answered .replied) .notStarted).queues ()).status? job.id = some .running :=
  ⟨⟨run_oneQueue .failed (.returned .null), rfl, by decide +kernel⟩,
    ⟨run_oneQueue .replied .cancelled, rfl, by decide +kernel⟩,
    run_oneQueue .replied .notStarted, rfl, by decide +kernel⟩

end DjangoQueues.Worker
