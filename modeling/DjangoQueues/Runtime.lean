import DjangoQueues.Lib.Dict
import DjangoQueues.Lib.Run

/-! The process-local `QueueRuntime`: one thread with one event loop, and on it one task for each queue alias. Callers
on other threads reach the loop by `call_soon_threadsafe` only; each step below is a block under the lock, a callback
of the loop, or a block of `_run_loop`. -/

namespace DjangoQueues.Runtime

/-- What a start callback runs: a worker, a notification receiver, or an observer receiver, which not every queue
has. -/
inductive Kind where
  | worker
  | notificationReceiver
  | receiver (available : Bool)
deriving DecidableEq

/-- A task goes on, has ended with its done callback still to come, or its loop has run that callback. A loop that is
closed leaves a task `abandoned`, or its callback `discarded`. -/
inductive Phase where
  | alive
  | ended
  | reaped
  | abandoned
  | discarded
deriving DecidableEq

structure Task (α κ : Type) where
  name : α
  queue : κ
  phase : Phase

inductive Callback (α κ : Type) where
  | start (kind : Kind) (name : α) (queue : κ)
  | done (name : α) (task : ℕ)
  | stop

/-- Where `_run_loop` stands: not started, before its loop is up, in `run_forever`, in the two `run_until_complete`
of its `finally`, or ended by an exception in one of these. `stopping` says that the loop was told to stop. -/
inductive Thread (κ : Type) where
  | absent
  | starting
  | running (stopping : Bool)
  | cancelling (pending : List ℕ) (stopping : Bool)
  | closing (queues : List κ) (stopping : Bool)
  | broken

/-- `_loop` is set and not closed. -/
def Thread.hasLoop {κ : Type} : Thread κ → Bool
  | absent | starting => false
  | _ => true

/-- The loop takes steps. -/
def Thread.runs {κ : Type} : Thread κ → Bool
  | absent | starting | broken => false
  | _ => true

/-- Tasks are numbered in the order of their creation; `closedQueues` notes the queues whose `aclose` is over, once
that of every queue is. -/
structure State (α κ : Type) where
  closed : Bool
  thread : Thread κ
  callbacks : List (Callback α κ)
  tasks : Dict α ℕ
  queues : Dict α κ
  created : ℕ
  task : ℕ → Option (Task α κ)
  closedQueues : List κ

section Blocks

variable {α κ : Type} [DecidableEq α]

def initial : State α κ where
  closed := false
  thread := .absent
  callbacks := []
  tasks := .empty
  queues := .empty
  created := 0
  task := fun _ => none
  closedQueues := []

namespace State

/-- The done callback of the task is still to be run. -/
def unreaped (s : State α κ) (i : ℕ) : Bool :=
  match s.task i with
  | some t => t.phase = .alive || t.phase = .ended
  | none => false

/-- What the three start callbacks have in common. -/
def startTask (available : Bool) (name : α) (queue : κ) (s : State α κ) : State α κ :=
  if s.closed || (s.tasks.get? name).isSome || !available then s
  else
    { s with
      queues := s.queues.set name queue
      tasks := s.tasks.set name s.created
      task := Function.update s.task s.created (some ⟨name, queue, .alive⟩)
      created := s.created + 1 }

def startWorker (name : α) (queue : κ) : State α κ → State α κ := startTask true name queue

def startNotificationReceiver (name : α) (queue : κ) : State α κ → State α κ := startTask true name queue

def startReceiver (available : Bool) (name : α) (queue : κ) : State α κ → State α κ := startTask available name queue

/-- `_worker_done`, `_notification_receiver_done` and `_receiver_done`: the entry of the alias goes, whichever task it
names. -/
def taskDone (name : α) (s : State α κ) : State α κ := { s with tasks := s.tasks.erase name }

/-- The loop has run the done callback of the task. -/
def reap (i : ℕ) (s : State α κ) : State α κ :=
  { s with task := Function.update s.task i ((s.task i).map fun t => { t with phase := .reaped }) }

def handle (c : Callback α κ) (s : State α κ) : State α κ :=
  match c with
  | .start .worker name queue => s.startWorker name queue
  | .start .notificationReceiver name queue => s.startNotificationReceiver name queue
  | .start (.receiver available) name queue => s.startReceiver available name queue
  | .done name i => (s.taskDone name).reap i
  | .stop =>
    match s.thread with
    | .running _ => { s with thread := .running true }
    | .cancelling pending _ => { s with thread := .cancelling pending true }
    | .closing queues _ => { s with thread := .closing queues true }
    | _ => s

/-- A task ends, by itself, by `stop_one` or by the cancellation in `_run_loop`; its done callback is scheduled. -/
def endTask (i : ℕ) (t : Task α κ) (s : State α κ) : State α κ :=
  { s with
    task := Function.update s.task i (some { t with phase := .ended })
    callbacks := s.callbacks ++ [.done t.name i] }

/-- The loop is left and its tasks are cancelled. -/
def leave (s : State α κ) : State α κ :=
  { s with thread := .cancelling ((List.range s.created).filter s.unreaped) false }

def closeQueues (s : State α κ) : State α κ := { s with thread := .closing (s.queues.items.map Prod.snd) false }

def forsake (t : Task α κ) : Task α κ :=
  { t with phase := match t.phase with
    | .alive => .abandoned
    | .ended => .discarded
    | p => p }

/-- The loop is closed, with whatever is still scheduled on it. -/
def finish (queues : List κ) (s : State α κ) : State α κ :=
  { s with
    thread := .absent
    callbacks := []
    tasks := .empty
    queues := .empty
    task := fun i => (s.task i).map forsake
    closedQueues := s.closedQueues ++ queues }

end State

inductive Event (α κ : Type) where
  | startThread
  | loopUp
  | schedule (starts : List (Kind × α × κ))
  | shutdown
  | requestStop
  | callback
  | endTask (i : ℕ)
  | leave (interrupted : Bool)
  | closeQueues
  | finish
  | abort (interrupted : Bool)

/-- The steps that change something; a call that finds the runtime closed or without a loop does nothing. The loop is
also left where a task raises `SystemExit` or `KeyboardInterrupt` into it. A `run_until_complete` that is left so, or
that is told to stop before it is complete, raises, and nothing after it in the `finally` is done. -/
inductive Step : State α κ → Event α κ → State α κ → Prop
  | startThread {s : State α κ} : s.closed = false → s.thread = .absent →
      Step s .startThread { s with thread := .starting }
  | loopUp {s : State α κ} : s.thread = .starting → Step s .loopUp { s with thread := .running false }
  | schedule {s : State α κ} {starts : List (Kind × α × κ)} : s.closed = false → s.thread.hasLoop = true →
      Step s (.schedule starts) { s with callbacks := s.callbacks ++ starts.map fun p => .start p.1 p.2.1 p.2.2 }
  | shutdown {s : State α κ} : Step s .shutdown { s with closed := true }
  | requestStop {s : State α κ} : s.closed = true → s.thread.hasLoop = true →
      Step s .requestStop { s with callbacks := s.callbacks ++ [.stop] }
  | callback {s : State α κ} {c : Callback α κ} {rest : List (Callback α κ)} : s.thread.runs = true →
      s.callbacks = c :: rest → Step s .callback ({ s with callbacks := rest }.handle c)
  | endTask {s : State α κ} {i : ℕ} {t : Task α κ} : s.thread.runs = true → s.task i = some t → t.phase = .alive →
      Step s (.endTask i) (s.endTask i t)
  | leave {s : State α κ} {stopping interrupted : Bool} : s.thread = .running stopping →
      stopping = true ∨ interrupted = true → Step s (.leave interrupted) s.leave
  /-- The callback that tells `gather` of the end of a task comes behind the done callback of the task, and what was
  scheduled before the loop was left is run first. -/
  | closeQueues {s : State α κ} {pending : List ℕ} {stopping : Bool} : s.thread = .cancelling pending stopping →
      (∀ i ∈ pending, s.unreaped i = false) → Step s .closeQueues s.closeQueues
  | finish {s : State α κ} {queues : List κ} {stopping : Bool} : s.thread = .closing queues stopping →
      Step s .finish (s.finish queues)
  | abortCancelling {s : State α κ} {pending : List ℕ} {stopping interrupted : Bool} :
      s.thread = .cancelling pending stopping → stopping = true ∨ interrupted = true →
      Step s (.abort interrupted) { s with thread := .broken }
  | abortClosing {s : State α κ} {queues : List κ} {stopping interrupted : Bool} :
      s.thread = .closing queues stopping → stopping = true ∨ interrupted = true →
      Step s (.abort interrupted) { s with thread := .broken }

/-- The task a done callback is for. -/
def doneTask : Callback α κ → Option (α × ℕ)
  | .done name i => some (name, i)
  | _ => none

/-- The entries of `_tasks` are the tasks that go on or have ended with their done callback to come. -/
structure Registered (s : State α κ) : Prop where
  fresh : ∀ i t, s.task i = some t → i < s.created
  registered : ∀ i t, s.task i = some t → t.phase = .alive ∨ t.phase = .ended → s.tasks.get? t.name = some i
  owned : ∀ a i, s.tasks.get? a = some i →
    ∃ t, s.task i = some t ∧ t.name = a ∧ (t.phase = .alive ∨ t.phase = .ended)
  coming : ∀ p ∈ s.callbacks.filterMap doneTask, ∃ t, s.task p.2 = some t ∧ t.name = p.1 ∧ t.phase = .ended
  due : ∀ i t, s.task i = some t → t.phase = .ended → (t.name, i) ∈ s.callbacks.filterMap doneTask
  once : (s.callbacks.filterMap doneTask).Nodup

variable {s s' : State α κ} {e : Event α κ}

/-! ## One task for each alias -/

omit [DecidableEq α] in
theorem filterMap_done (name : α) (i : ℕ) (rest : List (Callback α κ)) :
    (Callback.done name i :: rest).filterMap doneTask = (name, i) :: rest.filterMap doneTask := rfl

theorem Registered.initial : Registered (initial : State α κ) where
  fresh _ _ h := by cases h
  registered _ _ h := by cases h
  owned _ _ h := by cases h
  coming _ h := by cases h
  due _ _ h := by cases h
  once := .nil

theorem Registered.setCallbacks (hs : Registered s) {callbacks : List (Callback α κ)}
    (h : callbacks.filterMap doneTask = s.callbacks.filterMap doneTask) :
    Registered { s with callbacks := callbacks } where
  fresh := hs.fresh
  registered := hs.registered
  owned := hs.owned
  coming p hp := by
    rw [h] at hp
    exact hs.coming p hp
  due i t ht hphase := by
    rw [h]
    exact hs.due i t ht hphase
  once := by
    rw [h]
    exact hs.once

/-- A step of the thread or of the flag. -/
theorem Registered.setThread (hs : Registered s) (closed : Bool) (thread : Thread κ) :
    Registered { s with closed := closed, thread := thread } :=
  ⟨hs.fresh, hs.registered, hs.owned, hs.coming, hs.due, hs.once⟩

/-- A task that is entered under an alias without an entry. -/
theorem Registered.startTask (hs : Registered s) (available : Bool) (name : α) (queue : κ) :
    Registered (s.startTask available name queue) := by
  unfold State.startTask
  split_ifs with hrefused
  · exact hs
  · rw [Bool.not_eq_true, Bool.or_eq_false_iff, Bool.or_eq_false_iff, Option.isSome_eq_false_iff,
      Option.isNone_iff_eq_none] at hrefused
    have hnone := hrefused.1.2
    have hlt {i : ℕ} {t : Task α κ} (hi : s.task i = some t) : i ≠ s.created := (hs.fresh i t hi).ne
    refine ⟨fun i t h => ?_, fun i t h hphase => ?_, fun a i h => ?_, fun p hp => ?_, fun i t h hphase => ?_, hs.once⟩
    · dsimp only at h
      rw [Function.update_apply] at h
      split_ifs at h with hi
      · rw [hi]
        exact Nat.lt_succ_self _
      · exact Nat.lt_succ_of_lt (hs.fresh i t h)
    · dsimp only at h ⊢
      rw [Function.update_apply] at h
      rw [Dict.get?_set]
      split_ifs at h with hi
      · cases h
        rw [if_pos rfl, hi]
      · have hregistered := hs.registered i t h hphase
        rw [if_neg fun heq => ?_, hregistered]
        rw [heq, hnone] at hregistered
        cases hregistered
    · dsimp only at h ⊢
      rw [Dict.get?_set] at h
      split_ifs at h with ha
      · cases h
        exact ⟨_, Function.update_self .., ha.symm, .inl rfl⟩
      · obtain ⟨t, ht, hname, hphase⟩ := hs.owned a i h
        exact ⟨t, by rw [Function.update_of_ne (hlt ht), ht], hname, hphase⟩
    · obtain ⟨t, ht, hname, hphase⟩ := hs.coming p hp
      exact ⟨t, by rw [← ht]; exact Function.update_of_ne (hlt ht) .., hname, hphase⟩
    · dsimp only at h
      rw [Function.update_apply] at h
      split_ifs at h
      · cases h
        cases hphase
      · exact hs.due i t h hphase

/-- The done callback of a task removes the entry of that task, not that of a later one. -/
theorem Registered.taskDone (hs : Registered s) {name : α} {i : ℕ} {rest : List (Callback α κ)}
    (h : s.callbacks = .done name i :: rest) : Registered (({ s with callbacks := rest }.taskDone name).reap i) := by
  have hcoming := hs.coming
  have hdue := hs.due
  have honce := hs.once
  rw [h, filterMap_done] at hcoming hdue honce
  obtain ⟨t, ht, hname, hphase⟩ := hcoming (name, i) List.mem_cons_self
  dsimp only at ht hname
  have hentry : s.tasks.get? name = some i := hname ▸ hs.registered i t ht (.inr hphase)
  have htask (j : ℕ) : (({ s with callbacks := rest }.taskDone name).reap i).task j =
      if j = i then some { t with phase := .reaped } else s.task j := by
    refine (Function.update_apply ..).trans ?_
    change (if j = i then (s.task i).map _ else s.task j) = _
    rw [ht]
    rfl
  refine ⟨fun j u hj => ?_, fun j u hj hu => ?_, fun a j hj => ?_, fun p hp => ?_, fun j u hj hu => ?_,
    (List.nodup_cons.mp honce).2⟩
  · rw [htask] at hj
    split_ifs at hj with hji
    · rw [hji]
      exact hs.fresh i t ht
    · exact hs.fresh j u hj
  · rw [htask] at hj
    split_ifs at hj with hji
    · cases hj
      rcases hu with hu | hu <;> cases hu
    · change (s.tasks.erase name).get? u.name = some j
      rw [Dict.get?_erase, if_neg, hs.registered j u hj hu]
      intro heq
      have hregistered := hs.registered j u hj hu
      rw [heq, hentry] at hregistered
      exact hji (Option.some.inj hregistered).symm
  · change (s.tasks.erase name).get? a = some j at hj
    rw [Dict.get?_erase] at hj
    split_ifs at hj with ha
    obtain ⟨u, hu, huname, huphase⟩ := hs.owned a j hj
    refine ⟨u, ?_, huname, huphase⟩
    rw [htask, if_neg, hu]
    rintro rfl
    rw [ht] at hu
    cases hu
    exact ha (huname.symm.trans hname)
  · obtain ⟨u, hu, huname, huphase⟩ := hcoming p (List.mem_cons_of_mem _ hp)
    refine ⟨u, ?_, huname, huphase⟩
    rw [htask, if_neg, hu]
    intro hpi
    -- a second callback of the same task would be the same callback
    rw [hpi, ht] at hu
    cases hu
    have hpair : p = (name, i) := Prod.ext (huname.symm.trans hname) hpi
    exact (List.nodup_cons.mp honce).1 (hpair ▸ hp)
  · rw [htask] at hj
    split_ifs at hj with hji
    · cases hj
      cases hu
    · refine (List.mem_cons.mp (hdue j u hj hu)).resolve_left fun heq => hji ?_
      exact congrArg Prod.snd heq

theorem Registered.endTask (hs : Registered s) {i : ℕ} {t : Task α κ} (ht : s.task i = some t)
    (hphase : t.phase = .alive) : Registered (s.endTask i t) := by
  have htask (j : ℕ) : (s.endTask i t).task j = if j = i then some { t with phase := .ended } else s.task j :=
    Function.update_apply ..
  have hcallbacks : (s.endTask i t).callbacks.filterMap doneTask = s.callbacks.filterMap doneTask ++ [(t.name, i)] :=
    List.filterMap_append ..
  have hother {p : α × ℕ} (hp : p ∈ s.callbacks.filterMap doneTask) : p.2 ≠ i := fun hpi => by
    obtain ⟨u, hu, -, hended⟩ := hs.coming p hp
    rw [hpi, ht] at hu
    cases hu
    rw [hphase] at hended
    cases hended
  refine ⟨fun j u hj => ?_, fun j u hj hu => ?_, fun a j hj => ?_, fun p hp => ?_, fun j u hj hu => ?_, ?_⟩
  · rw [htask] at hj
    split_ifs at hj with hji
    · rw [hji]
      exact hs.fresh i t ht
    · exact hs.fresh j u hj
  · rw [htask] at hj
    split_ifs at hj with hji
    · cases hj
      rw [hji]
      exact hs.registered i t ht (.inl hphase)
    · exact hs.registered j u hj hu
  · obtain ⟨u, hu, huname, huphase⟩ := hs.owned a j hj
    rw [htask]
    split_ifs with hji
    · rw [hji, ht] at hu
      cases hu
      exact ⟨_, rfl, huname, .inr rfl⟩
    · exact ⟨u, hu, huname, huphase⟩
  · rw [hcallbacks, List.mem_append, List.mem_singleton] at hp
    rw [htask]
    rcases hp with hp | rfl
    · rw [if_neg (hother hp)]
      exact hs.coming p hp
    · rw [if_pos rfl]
      exact ⟨_, rfl, rfl, rfl⟩
  · rw [htask] at hj
    rw [hcallbacks, List.mem_append, List.mem_singleton]
    split_ifs at hj with hji
    · cases hj
      exact .inr (Prod.ext rfl hji)
    · exact .inl (hs.due j u hj hu)
  · rw [hcallbacks, List.nodup_append]
    refine ⟨hs.once, List.nodup_singleton _, fun p hp q hq heq => hother hp ?_⟩
    rw [heq, List.mem_singleton.mp hq]

theorem Registered.finish (hs : Registered s) (queues : List κ) : Registered (s.finish queues) := by
  have htask {i : ℕ} {t : Task α κ} (h : (s.finish queues).task i = some t) :
      ∃ u, s.task i = some u ∧ t = State.forsake u := by
    obtain ⟨u, hu, rfl⟩ := Option.map_eq_some_iff.mp h
    exact ⟨u, hu, rfl⟩
  have hgone {i : ℕ} {t : Task α κ} (h : (s.finish queues).task i = some t) : t.phase ≠ .alive ∧ t.phase ≠ .ended := by
    obtain ⟨u, -, rfl⟩ := htask h
    obtain ⟨name, queue, phase⟩ := u
    cases phase <;> exact ⟨(fun h => by cases h), (fun h => by cases h)⟩
  refine ⟨fun i t h => ?_, fun i t h hphase => ?_, (fun a i h => by cases h), (fun p hp => by cases hp),
    fun i t h hphase => absurd hphase (hgone h).2, .nil⟩
  · obtain ⟨u, hu, -⟩ := htask h
    exact hs.fresh i u hu
  · exact (hphase.elim (hgone h).1 (hgone h).2).elim

theorem Registered.handle_stop (hs : Registered s) : Registered (s.handle .stop) := by
  unfold State.handle
  dsimp only
  split
  · exact hs.setThread _ _
  · exact hs.setThread _ _
  · exact hs.setThread _ _
  · exact hs

theorem Registered.step (hs : Registered s) (h : Step s e s') : Registered s' := by
  cases h with
  | startThread => exact hs.setThread _ _
  | loopUp => exact hs.setThread _ _
  | @schedule starts =>
    refine hs.setCallbacks ?_
    rw [List.filterMap_append, List.filterMap_map]
    simp [doneTask, Function.comp_def]
  | shutdown => exact hs.setThread _ _
  | requestStop =>
    refine hs.setCallbacks ?_
    rw [List.filterMap_append]
    exact List.append_nil _
  | @callback c rest _ hc =>
    cases c with
    | start kind name queue =>
      have hrest : Registered { s with callbacks := rest } := hs.setCallbacks (by rw [hc]; rfl)
      cases kind <;> exact hrest.startTask _ name queue
    | done name i => exact hs.taskDone hc
    | stop =>
      have hrest : Registered { s with callbacks := rest } := hs.setCallbacks (by rw [hc]; rfl)
      exact hrest.handle_stop
  | endTask _ ht hphase => exact hs.endTask ht hphase
  | leave => exact hs.setThread _ _
  | closeQueues => exact hs.setThread _ _
  | finish => exact hs.finish _
  | abortCancelling => exact hs.setThread _ _
  | abortClosing => exact hs.setThread _ _

/-- After `shutdown` no task is created. -/
theorem Step.closed (h : Step s e s') (hclosed : s.closed = true) : s'.closed = true ∧ s'.created = s.created := by
  cases h with
  | @callback c rest _ _ =>
    cases c with
    | start kind name queue =>
      have hrefused (available : Bool) : { s with callbacks := rest }.startTask available name queue =
          { s with callbacks := rest } := by
        rw [State.startTask, if_pos]
        rw [hclosed]
        rfl
      have hclosed' (available : Bool) : ({ s with callbacks := rest }.startTask available name queue).closed = true ∧
          ({ s with callbacks := rest }.startTask available name queue).created = s.created := by
        rw [hrefused]
        exact ⟨hclosed, rfl⟩
      cases kind <;> exact hclosed' _
    | done name i => exact ⟨hclosed, rfl⟩
    | stop =>
      unfold State.handle
      dsimp only
      split <;> exact ⟨hclosed, rfl⟩
  | shutdown => exact ⟨rfl, rfl⟩
  | _ => exact ⟨hclosed, rfl⟩

/-- In every run, in whatever order the threads and the loop take their steps: two tasks of one alias are never alive
at once, an alias has an entry exactly for the task that is alive or has its done callback scheduled, and after
`shutdown` no task is created. -/
theorem one_task_for_each_alias {es : List (Event α κ)} (h : Run Step initial es s) :
    (∀ i j t u, s.task i = some t → s.task j = some u → t.phase = .alive → u.phase = .alive → t.name = u.name →
      i = j) ∧
    (∀ a i, s.tasks.get? a = some i ↔
      ∃ t, s.task i = some t ∧ t.name = a ∧ (t.phase = .alive ∨ .done a i ∈ s.callbacks)) ∧
    ∀ es' s', Run Step s es' s' → s.closed = true → s'.created = s.created := by
  have hs : Registered s := h.invariant (fun _ _ _ hs hstep => hs.step hstep) .initial
  refine ⟨fun i j t u ht hu halive halive' hname => ?_, fun a i => ⟨fun hentry => ?_, ?_⟩, fun es' s' h' hclosed => ?_⟩
  · have hi := hs.registered i t ht (.inl halive)
    rw [hname, hs.registered j u hu (.inl halive')] at hi
    exact (Option.some.inj hi).symm
  · obtain ⟨t, ht, rfl, hphase⟩ := hs.owned a i hentry
    refine ⟨t, ht, rfl, hphase.imp_right fun hended => ?_⟩
    obtain ⟨c, hc, hdone⟩ := List.mem_filterMap.mp (hs.due i t ht hended)
    cases c with
    | done name j =>
      cases hdone
      exact hc
    | start kind name queue => cases hdone
    | stop => cases hdone
  · rintro ⟨t, ht, rfl, hphase⟩
    refine hs.registered i t ht (hphase.imp_right fun hcallback => ?_)
    obtain ⟨u, hu, -, hended⟩ := hs.coming (t.name, i) (List.mem_filterMap.mpr ⟨_, hcallback, rfl⟩)
    rw [ht] at hu
    cases hu
    exact hended
  · have hkept : s'.closed = true ∧ s'.created = s.created :=
      h'.invariant (I := fun u => u.closed = true ∧ u.created = s.created)
        (fun u _ u' hu hstep => by
          obtain ⟨hclosed', hcreated⟩ := hstep.closed hu.1
          exact ⟨hclosed', hcreated.trans hu.2⟩) ⟨hclosed, rfl⟩
    exact hkept.2

end Blocks

/-- Two starts of one alias, of which the second finds the entry of the first. -/
def startedTwice : List (Event String ℕ) :=
  [.startThread, .loopUp, .schedule [(.worker, "events", 7), (.worker, "events", 8)], .callback, .callback]

theorem run_startedTwice : ∃ s, Run Step initial startedTwice s ∧ s.tasks.get? "events" = some 0 ∧ s.created = 1 :=
  ⟨_, .cons (.startThread rfl rfl) (.cons (.loopUp rfl) (.cons (.schedule rfl rfl) (.cons (.callback rfl rfl)
    (.cons (.callback rfl rfl) (.nil _))))), rfl, rfl⟩

theorem one_task_for_each_alias_startedTwice :
    ∃ s : State String ℕ, Run Step initial startedTwice s ∧ ∃ t, s.task 0 = some t ∧ t.name = "events" := by
  obtain ⟨s, hrun, hentry, -⟩ := run_startedTwice
  obtain ⟨t, ht, hname, -⟩ := ((one_task_for_each_alias hrun).2.1 "events" 0).mp hentry
  exact ⟨s, hrun, t, ht, hname⟩

end DjangoQueues.Runtime
