import DjangoQueues.Runtime

/-! The end of a `QueueRuntime` that is left through one `shutdown` and not through an exception in its loop: every task
has had its done callback and the queue that each alias was last started with has been closed. -/

namespace DjangoQueues.Runtime

section Shutdown

variable {α κ : Type} {s s' : State α κ} {e : Event α κ}

/-- The alias and the queue of a task. -/
def State.entry (s : State α κ) (i : ℕ) : Option (α × κ) := (s.task i).map fun t => (t.name, t.queue)

/-- The loop was told to stop, or was left. -/
def Thread.leaving : Thread κ → Bool
  | .running stopping => stopping
  | .cancelling _ _ | .closing _ _ => true
  | _ => false

/-- What the queue of an alias's last task can count on. -/
structure Kept [DecidableEq α] (s : State α κ) (a : α) (q : κ) : Prop where
  there : s.thread ≠ .absent → s.queues.get? a = some q
  closing : ∀ queues stopping, s.thread = .closing queues stopping → q ∈ queues
  absent : s.thread = .absent → q ∈ s.closedQueues

/-- A task of this number is the last one of its alias. -/
def Last (s : State α κ) (i : ℕ) (a : α) (q : κ) : Prop :=
  s.entry i = some (a, q) ∧ ∀ j q', s.entry j = some (a, q') → j ≤ i

structure Orderly [DecidableEq α] (s : State α κ) : Prop extends Registered s where
  stop : Callback.stop ∈ s.callbacks → s.closed = true
  leaving : s.thread.leaving = true → s.closed = true
  restart : s.thread = .absent → s.created = 0 ∨ s.closed = true
  pending : ∀ p b, s.thread = .cancelling p b → b = false ∧ ∀ i, s.unreaped i = true → i ∈ p
  quiet : ∀ q b, s.thread = .closing q b → b = false ∧ ∀ i, s.unreaped i = false
  kept : ∀ i t, s.task i = some t → t.phase ≠ .abandoned ∧ t.phase ≠ .discarded
  reaped : s.thread = .absent → ∀ i t, s.task i = some t → t.phase = .reaped
  last : ∀ i a q, Last s i a q → Kept s a q

/-- A step by which no one interrupts the loop. -/
def Uninterrupted : Event α κ → Prop
  | .leave interrupted | .abort interrupted => interrupted = false
  | _ => True

/-! ## One request to stop -/

def Event.isStopRequest : Event α κ → Bool
  | .requestStop => true
  | _ => false

def Callback.isStop : Callback α κ → Bool
  | .stop => true
  | _ => false

/-- The requests to stop that are scheduled, and the one that the loop follows. -/
def State.stops (s : State α κ) : ℕ := s.callbacks.countP Callback.isStop + s.thread.leaving.toNat

theorem mem_of_countP_pos {l : List (Callback α κ)} (h : Callback.stop ∈ l) : 1 ≤ l.countP Callback.isStop :=
  List.countP_pos_iff.mpr ⟨_, h, rfl⟩

variable [DecidableEq α]

theorem stops_startTask (available : Bool) (name : α) (queue : κ) (s : State α κ) :
    (s.startTask available name queue).stops = s.stops := by
  unfold State.startTask
  split_ifs <;> rfl

/-- Only a request adds one. -/
theorem Step.stops_le (h : Step s e s') (he : Uninterrupted e) : s'.stops ≤ s.stops + e.isStopRequest.toNat := by
  cases h with
  | startThread _ habsent => simp [State.stops, habsent, Thread.leaving, Event.isStopRequest]
  | loopUp hstarting => simp [State.stops, hstarting, Thread.leaving, Event.isStopRequest]
  | @schedule starts =>
    have hnone : (starts.map fun p => (.start p.1 p.2.1 p.2.2 : Callback α κ)).countP Callback.isStop = 0 := by
      simp [Callback.isStop]
    simp [State.stops, Event.isStopRequest, hnone]
  | shutdown => exact Nat.le_add_right _ _
  | requestStop =>
    simp only [State.stops, Event.isStopRequest, List.countP_append]
    simp [Callback.isStop]
    omega
  | @callback c rest _ hc =>
    have hstops : s.stops = State.stops { s with callbacks := rest } + (Callback.isStop c).toNat := by
      simp only [State.stops, hc, List.countP_cons]
      cases Callback.isStop c <;> simp [Nat.add_right_comm]
    rw [hstops]
    cases c with
    | start kind name queue => cases kind <;> exact (stops_startTask _ name queue _).le
    | done name i => exact Nat.le_refl _
    | stop =>
      unfold State.handle
      dsimp only
      split <;> simp [State.stops, Callback.isStop, Event.isStopRequest, *, Thread.leaving]
  | endTask =>
    simp [State.stops, State.endTask, Callback.isStop, Event.isStopRequest]
  | leave hthread hreason =>
    rcases hreason with rfl | hinterrupted
    · simp [State.stops, State.leave, hthread, Thread.leaving, Event.isStopRequest]
    · change _ = false at he
      rw [he] at hinterrupted
      cases hinterrupted
  | closeQueues hthread _ => simp [State.stops, State.closeQueues, hthread, Thread.leaving, Event.isStopRequest]
  | finish => simp [State.stops, State.finish, Thread.leaving]
  | abortCancelling | abortClosing =>
    have hbroken : (Thread.broken : Thread κ).leaving.toNat = 0 := rfl
    simp only [State.stops, hbroken]
    omega

/-! ## Orderly states -/

theorem Orderly.initial : Orderly (initial : State α κ) where
  toRegistered := .initial
  stop h := by cases h
  leaving h := by cases h
  restart _ := .inl rfl
  pending _ _ h := by cases h
  quiet _ _ h := by cases h
  kept _ _ h := by cases h
  reaped _ _ _ h := by cases h
  last _ _ _ h := by cases h.1

/-- A step of the flag, of the schedule, or of a thread that does not leave its loop. -/
theorem Orderly.setThread (hs : Orderly s) {closed : Bool} {thread : Thread κ} {callbacks : List (Callback α κ)}
    (hclosed : s.closed = true → closed = true)
    (hdone : callbacks.filterMap doneTask = s.callbacks.filterMap doneTask)
    (hstop : Callback.stop ∈ callbacks → closed = true) (hleaving : thread.leaving = true → closed = true)
    (hthread : thread = s.thread ∨ (s.thread = .starting ∨ ∃ b, s.thread = .running b) ∧ ∃ b, thread = .running b) :
    Orderly { s with closed := closed, thread := thread, callbacks := callbacks } := by
  have hregistered : Registered { s with closed := closed, thread := thread, callbacks := callbacks } :=
    (hs.setCallbacks hdone).setThread closed thread
  rcases hthread with rfl | ⟨hold, b, rfl⟩
  · exact ⟨hregistered, hstop, hleaving, fun h => (hs.restart h).imp_right hclosed, hs.pending, hs.quiet, hs.kept,
      hs.reaped, fun i a q h => ⟨(hs.last i a q h).there, (hs.last i a q h).closing, (hs.last i a q h).absent⟩⟩
  · have hthere : s.thread ≠ .absent := by
      rcases hold with h | ⟨b', h⟩ <;> rw [h] <;> exact fun h => by cases h
    exact ⟨hregistered, hstop, hleaving, (fun h => by cases h), (fun _ _ h => by cases h), (fun _ _ h => by cases h),
      hs.kept, (fun h => by cases h),
      fun i a q h => ⟨fun _ => (hs.last i a q h).there hthere, (fun _ _ h => by cases h), (fun h => by cases h)⟩⟩

theorem Orderly.startThread (hs : Orderly s) (hopen : s.closed = false) (habsent : s.thread = .absent) :
    Orderly { s with thread := .starting } := by
  have hnone (i : ℕ) : s.task i = none := by
    refine Option.eq_none_iff_forall_ne_some.mpr fun t ht => ?_
    have hlt := hs.fresh i t ht
    rcases hs.restart habsent with hzero | hclosed
    · omega
    · rw [hopen] at hclosed
      cases hclosed
  refine ⟨hs.toRegistered.setThread _ _, hs.stop, (fun h => by cases h),
    (fun h => by cases h), (fun p b h => by cases h), (fun q b h => by cases h), hs.kept, (fun h => by cases h), ?_⟩
  intro i a q h
  have hentry := h.1
  rw [State.entry, hnone i] at hentry
  cases hentry

/-- Tasks go on towards their end, while the loop is there. -/
theorem Orderly.progress (hs : Orderly s) (hr : Registered s') (hloop : s.thread.runs = true)
    (hclosed : s'.closed = s.closed) (hthread : s'.thread = s.thread) (hqueues : s'.queues = s.queues)
    (hstop : Callback.stop ∈ s'.callbacks → Callback.stop ∈ s.callbacks) (hentry : s'.entry = s.entry)
    (hunreaped : ∀ i, s'.unreaped i = true → s.unreaped i = true)
    (hkept : ∀ i t, s'.task i = some t → t.phase ≠ .abandoned ∧ t.phase ≠ .discarded) : Orderly s' := by
  have hthere : s.thread ≠ .absent := fun h => by
    rw [h] at hloop
    cases hloop
  refine ⟨hr, fun h => ?_, fun h => ?_, fun h => absurd (hthread ▸ h) hthere, fun p b h => ?_, fun q b h => ?_, hkept,
    fun h => absurd (hthread ▸ h) hthere, fun i a q h => ?_⟩
  · rw [hclosed]
    exact hs.stop (hstop h)
  · rw [hclosed]
    exact hs.leaving (hthread ▸ h)
  · obtain ⟨hb, hin⟩ := hs.pending p b (hthread ▸ h)
    exact ⟨hb, fun i hi => hin i (hunreaped i hi)⟩
  · obtain ⟨hb, hquiet⟩ := hs.quiet q b (hthread ▸ h)
    refine ⟨hb, fun i => Bool.eq_false_iff.mpr fun hi => ?_⟩
    have hfalse := hquiet i
    rw [hunreaped i hi] at hfalse
    cases hfalse
  · unfold Last at h
    rw [hentry] at h
    obtain ⟨hqueue, hclosing, -⟩ := hs.last i a q h
    refine ⟨fun _ => ?_, fun qs b hqs => hclosing qs b (hthread ▸ hqs), fun h => absurd (hthread ▸ h) hthere⟩
    rw [hqueues]
    exact hqueue hthere

theorem Orderly.endTask (hs : Orderly s) {i : ℕ} {t : Task α κ} (hloop : s.thread.runs = true)
    (ht : s.task i = some t) (hphase : t.phase = .alive) : Orderly (s.endTask i t) := by
  have htask (j : ℕ) : (s.endTask i t).task j = if j = i then some { t with phase := .ended } else s.task j :=
    Function.update_apply ..
  refine hs.progress (hs.toRegistered.endTask ht hphase) hloop rfl rfl rfl (fun h => ?_) (funext fun j => ?_)
    (fun j h => ?_) (fun j u hj => ?_)
  · rcases List.mem_append.mp h with h | h
    · exact h
    · cases List.mem_singleton.mp h
  · unfold State.entry
    rw [htask]
    split_ifs with hj
    · rw [hj, ht]
      rfl
    · rfl
  · unfold State.unreaped at h ⊢
    rw [htask] at h
    split_ifs at h with hj
    · rw [hj, ht]
      simp [hphase]
    · exact h
  · rw [htask] at hj
    split_ifs at hj
    · cases hj
      exact ⟨(fun h => by cases h), (fun h => by cases h)⟩
    · exact hs.kept j u hj

theorem Orderly.taskDone (hs : Orderly s) {name : α} {i : ℕ} {rest : List (Callback α κ)}
    (hloop : s.thread.runs = true) (hc : s.callbacks = .done name i :: rest) :
    Orderly (({ s with callbacks := rest }.taskDone name).reap i) := by
  have htask (j : ℕ) : (({ s with callbacks := rest }.taskDone name).reap i).task j =
      if j = i then (s.task i).map fun t => { t with phase := .reaped } else s.task j := Function.update_apply ..
  refine hs.progress (hs.toRegistered.taskDone hc) hloop rfl rfl rfl (fun h => ?_) (funext fun j => ?_)
    (fun j h => ?_) (fun j u hj => ?_)
  · rw [hc]
    exact List.mem_cons_of_mem _ h
  · unfold State.entry
    rw [htask]
    split_ifs with hj
    · rw [hj, Option.map_map]
      rfl
    · rfl
  · unfold State.unreaped at h ⊢
    rw [htask] at h
    split_ifs at h
    · cases hi : s.task i with
      | none =>
        rw [hi] at h
        cases h
      | some t =>
        rw [hi] at h
        cases h
    · exact h
  · rw [htask] at hj
    split_ifs at hj
    · obtain ⟨t, -, rfl⟩ := Option.map_eq_some_iff.mp hj
      exact ⟨(fun h => by cases h), (fun h => by cases h)⟩
    · exact hs.kept j u hj

/-- A start callback that is not refused comes before `shutdown`, so that the loop has not been left. -/
theorem Orderly.startTask (hs : Orderly s) (hloop : s.thread.runs = true) (available : Bool) (name : α) (queue : κ) :
    Orderly (s.startTask available name queue) := by
  have hregistered := hs.toRegistered.startTask available name queue
  unfold State.startTask at hregistered ⊢
  split_ifs at hregistered ⊢ with hrefused
  · exact hs
  · rw [Bool.not_eq_true, Bool.or_eq_false_iff, Bool.or_eq_false_iff] at hrefused
    have hopen : s.closed ≠ true := by
      rw [hrefused.1.1]
      exact Bool.false_ne_true
    have hthere : s.thread ≠ .absent := fun h => by
      rw [h] at hloop
      cases hloop
    have hstays {p : Prop} (h : s.thread.leaving = true) : p := absurd (hs.leaving h) hopen
    have hentry (i : ℕ) : State.entry { s with
        queues := s.queues.set name queue, tasks := s.tasks.set name s.created,
        task := Function.update s.task s.created (some ⟨name, queue, .alive⟩), created := s.created + 1 } i =
        if i = s.created then some (name, queue) else s.entry i := by
      refine (congrArg (Option.map _) (Function.update_apply ..)).trans ?_
      split_ifs <;> rfl
    refine ⟨hregistered, hs.stop, hs.leaving, fun h => absurd h hthere, fun p b h => hstays (by rw [h]; rfl),
      fun q b h => hstays (by rw [h]; rfl), fun i t h => ?_, fun h => absurd h hthere, fun i a q h => ?_⟩
    · dsimp only at h
      rw [Function.update_apply] at h
      split_ifs at h
      · cases h
        exact ⟨(fun h => by cases h), (fun h => by cases h)⟩
      · exact hs.kept i t h
    · refine ⟨fun _ => ?_, fun qs b h' => hstays (by rw [h']; rfl), fun h' => absurd h' hthere⟩
      obtain ⟨hi, hmax⟩ := h
      rw [hentry] at hi
      change (s.queues.set name queue).get? a = some q
      rw [Dict.get?_set]
      split_ifs at hi with hic
      · cases hi
        rw [if_pos rfl]
      · -- the new task is the last one of its alias, so this is another alias
        have hne : a ≠ name := fun heq => by
          have hle := hmax s.created queue (by rw [hentry, if_pos rfl, heq])
          obtain ⟨t, ht, -⟩ := Option.map_eq_some_iff.mp hi
          exact absurd (hs.fresh i t ht) (not_lt.mpr hle)
        rw [if_neg hne]
        refine (hs.last i a q ⟨hi, fun j q' hj => hmax j q' ?_⟩).there hthere
        obtain ⟨t, ht, -⟩ := Option.map_eq_some_iff.mp hj
        rw [hentry, if_neg (hs.fresh j t ht).ne, hj]

omit [DecidableEq α] in
/-- In a loop that has been left no request to stop is scheduled, and in one that was told to stop no second one. -/
theorem no_stop {rest : List (Callback α κ)} (hstops : s.stops ≤ 1) (hc : s.callbacks = .stop :: rest) :
    s.thread.leaving = false := by
  have hone := mem_of_countP_pos (l := s.callbacks) (by rw [hc]; exact List.mem_cons_self)
  unfold State.stops at hstops
  cases hl : s.thread.leaving with
  | false => rfl
  | true =>
    rw [hl, Bool.toNat_true] at hstops
    omega

theorem Orderly.leave (hs : Orderly s) (hthread : s.thread = .running true) : Orderly s.leave where
  toRegistered := hs.toRegistered.setThread _ _
  stop := hs.stop
  leaving _ := hs.leaving (by rw [hthread]; rfl)
  restart h := by cases h
  pending p b h := by
    cases h
    refine ⟨rfl, fun i hi => ?_⟩
    rw [List.mem_filter, List.mem_range]
    change s.unreaped i = true at hi
    refine ⟨?_, hi⟩
    unfold State.unreaped at hi
    split at hi
    · next t ht => exact hs.fresh i t ht
    · cases hi
  quiet q b h := by cases h
  kept := hs.kept
  reaped h := by cases h
  last i a q h := by
    refine ⟨fun _ => (hs.last i a q h).there ?_, (fun _ _ h => by cases h), (fun h => by cases h)⟩
    rw [hthread]
    exact fun h => by cases h

theorem Orderly.closeQueues (hs : Orderly s) {pending : List ℕ} {stopping : Bool}
    (hthread : s.thread = .cancelling pending stopping) (hdone : ∀ i ∈ pending, s.unreaped i = false) :
    Orderly s.closeQueues where
  toRegistered := hs.toRegistered.setThread _ _
  stop := hs.stop
  leaving _ := hs.leaving (by rw [hthread]; rfl)
  restart h := by cases h
  pending p b h := by cases h
  quiet q b h := by
    cases h
    refine ⟨rfl, fun i => Bool.eq_false_iff.mpr fun hi => ?_⟩
    change s.unreaped i = true at hi
    have hfalse := hdone i ((hs.pending pending stopping hthread).2 i hi)
    rw [hi] at hfalse
    cases hfalse
  kept := hs.kept
  reaped h := by cases h
  last i a q h := by
    have hqueue := (hs.last i a q h).there (by rw [hthread]; exact (fun h => by cases h))
    refine ⟨fun _ => hqueue, fun qs b hqs => ?_, (fun h => by cases h)⟩
    cases hqs
    exact List.mem_map.mpr ⟨(a, q), Dict.get?_eq_some.mp hqueue, rfl⟩

theorem Orderly.finish (hs : Orderly s) {queues : List κ} {stopping : Bool}
    (hthread : s.thread = .closing queues stopping) : Orderly (s.finish queues) := by
  have hphase {i : ℕ} {t : Task α κ} (h : (s.finish queues).task i = some t) : t.phase = .reaped := by
    obtain ⟨u, hu, rfl⟩ := Option.map_eq_some_iff.mp h
    have hreaped := (hs.quiet queues stopping hthread).2 i
    have hkept := hs.kept i u hu
    rw [State.unreaped, hu] at hreaped
    obtain ⟨name, queue, phase⟩ := u
    cases phase with
    | alive => cases hreaped
    | ended => cases hreaped
    | reaped => rfl
    | abandoned => exact absurd rfl hkept.1
    | discarded => exact absurd rfl hkept.2
  have hentry : (s.finish queues).entry = s.entry := by
    funext i
    exact Option.map_map ..
  refine ⟨hs.toRegistered.finish queues, (fun h => by cases h), (fun h => by cases h),
    fun _ => .inr (hs.leaving (by rw [hthread]; rfl)), (fun p b h => by cases h), (fun q b h => by cases h),
    fun i t h => ?_, fun _ i t h => hphase h,
    fun i a q h => ⟨fun h' => absurd rfl h', (fun _ _ h => by cases h), fun _ => ?_⟩⟩
  · rw [hphase h]
    exact ⟨(fun h => by cases h), (fun h => by cases h)⟩
  · unfold Last at h
    rw [hentry] at h
    exact List.mem_append_right _ ((hs.last i a q h).closing queues stopping hthread)

theorem Orderly.step (hs : Orderly s) (he : Uninterrupted e) (hstops : s.stops ≤ 1) (h : Step s e s') :
    Orderly s' := by
  have hinterrupted {stopping interrupted : Bool} (hreason : stopping = true ∨ interrupted = true)
      (hnot : interrupted = false) : stopping = true := hreason.resolve_right (by rw [hnot]; exact Bool.false_ne_true)
  cases h with
  | startThread hopen habsent => exact hs.startThread hopen habsent
  | loopUp hstarting =>
    exact hs.setThread id rfl hs.stop (fun h => by cases h) (.inr ⟨.inl hstarting, _, rfl⟩)
  | @schedule starts _ _ =>
    refine hs.setThread id ?_ (fun h => hs.stop ?_) hs.leaving (.inl rfl)
    · rw [List.filterMap_append, List.filterMap_map]
      simp [doneTask, Function.comp_def]
    · rcases List.mem_append.mp h with h | h
      · exact h
      · obtain ⟨p, -, hp⟩ := List.mem_map.mp h
        cases hp
  | shutdown => exact hs.setThread (fun _ => rfl) rfl (fun _ => rfl) (fun _ => rfl) (.inl rfl)
  | requestStop hclosed _ =>
    refine hs.setThread id ?_ (fun _ => hclosed) hs.leaving (.inl rfl)
    rw [List.filterMap_append]
    exact List.append_nil _
  | @callback c rest hloop hc =>
    have hstop (h : Callback.stop ∈ rest) : s.closed = true := hs.stop (by rw [hc]; exact List.mem_cons_of_mem _ h)
    have hrest (hdone : doneTask c = none) : Orderly { s with callbacks := rest } := by
      refine hs.setThread id ?_ hstop hs.leaving (.inl rfl)
      rw [hc, List.filterMap_cons_none hdone]
    cases c with
    | start kind name queue => cases kind <;> exact (hrest rfl).startTask hloop _ name queue
    | done name i => exact hs.taskDone hloop hc
    | stop =>
      have hclosed : s.closed = true := hs.stop (by rw [hc]; exact List.mem_cons_self)
      have hnot := no_stop hstops hc
      unfold State.handle
      dsimp only
      split
      · next stopping hthread =>
        exact (hrest rfl).setThread id rfl hstop (fun _ => hclosed) (.inr ⟨.inr ⟨_, hthread⟩, _, rfl⟩)
      · next pending stopping hthread =>
        rw [hthread] at hnot
        cases hnot
      · next queues stopping hthread =>
        rw [hthread] at hnot
        cases hnot
      · exact hrest rfl
  | endTask hloop ht hphase => exact hs.endTask hloop ht hphase
  | leave hthread hreason =>
    obtain rfl := hinterrupted hreason he
    exact hs.leave hthread
  | closeQueues hthread hdone => exact hs.closeQueues hthread hdone
  | finish hthread => exact hs.finish hthread
  | abortCancelling hthread hreason =>
    have hb := (hs.pending _ _ hthread).1
    rw [hinterrupted hreason he] at hb
    cases hb
  | abortClosing hthread hreason =>
    have hb := (hs.quiet _ _ hthread).1
    rw [hinterrupted hreason he] at hb
    cases hb

theorem Orderly.run {es : List (Event α κ)} (h : Run Step s es s') (hs : Orderly s) (hes : ∀ e ∈ es, Uninterrupted e)
    (hstops : s.stops + es.countP Event.isStopRequest ≤ 1) : Orderly s' := by
  induction h with
  | nil _ => exact hs
  | @cons s t u e es hstep _ ih =>
    rw [List.forall_mem_cons] at hes
    rw [List.countP_cons] at hstops
    have hle := hstep.stops_le hes.1
    have hrequest : e.isStopRequest.toNat = if e.isStopRequest = true then 1 else 0 := by
      cases e.isStopRequest <;> rfl
    exact ih (hs.step hes.1 (by omega) hstep) hes.2 (by omega)

/-- When a run that no exception cut short, and in which the loop was told to stop once, has no thread any more after
`shutdown`: the done callback of every task has run, nothing is registered, and the queue of each alias's last task was
closed. -/
theorem shutdown_leaves_nothing {es : List (Event α κ)} (h : Run Step initial es s) (hes : ∀ e ∈ es, Uninterrupted e)
    (honce : es.countP Event.isStopRequest ≤ 1) (habsent : s.thread = .absent) :
    (∀ i t, s.task i = some t → t.phase = .reaped) ∧ (∀ a, s.tasks.get? a = none) ∧
    ∀ i t, s.task i = some t → (∀ j u, s.task j = some u → u.name = t.name → j ≤ i) → t.queue ∈ s.closedQueues := by
  have hs : Orderly s := Orderly.run h .initial hes (by simpa [State.stops, initial, Thread.leaving] using honce)
  refine ⟨hs.reaped habsent, fun a => ?_, fun i t ht hmax => ?_⟩
  · refine Option.eq_none_iff_forall_ne_some.mpr fun i hi => ?_
    obtain ⟨t, ht, -, hphase⟩ := hs.owned a i hi
    rw [hs.reaped habsent i t ht] at hphase
    rcases hphase with hphase | hphase <;> cases hphase
  · refine (hs.last i t.name t.queue ⟨by rw [State.entry, ht]; rfl, fun j q hj => ?_⟩).absent habsent
    obtain ⟨u, hu, hpair⟩ := Option.map_eq_some_iff.mp hj
    exact hmax j u hu (congrArg Prod.fst hpair)

end Shutdown

/-- A worker that is started, cancelled at the shutdown and closed with its queue. -/
def oneWorker : List (Event String ℕ) :=
  [.startThread, .loopUp, .schedule [(.worker, "events", 7)], .callback, .shutdown, .requestStop, .callback,
    .leave false, .endTask 0, .callback, .closeQueues, .finish]

theorem run_oneWorker :
    ∃ s, Run Step initial oneWorker s ∧ s.thread = .absent ∧ s.created = 1 ∧
      s.task 0 = some ⟨"events", 7, .reaped⟩ := by
  refine ⟨_, .cons (.startThread rfl rfl) (.cons (.loopUp rfl) (.cons (.schedule rfl rfl) (.cons (.callback rfl rfl)
    (.cons .shutdown (.cons (.requestStop rfl rfl) (.cons (.callback rfl rfl) (.cons (.leave rfl (.inl rfl))
    (.cons (.endTask rfl rfl rfl) (.cons (.callback rfl rfl) (.cons (.closeQueues rfl ?_)
    (.cons (.finish rfl) (.nil _)))))))))))), rfl, rfl, ?_⟩
  · decide
  · rfl

theorem shutdown_leaves_nothing_oneWorker :
    ∃ s : State String ℕ, Run Step initial oneWorker s ∧ 7 ∈ s.closedQueues := by
  obtain ⟨s, hrun, habsent, hcreated, htask⟩ := run_oneWorker
  have hes : ∀ e ∈ oneWorker, Uninterrupted e := by
    intro e he
    fin_cases he <;> first | rfl | trivial
  refine ⟨s, hrun, (shutdown_leaves_nothing hrun hes (by decide) habsent).2.2 0 _ htask fun j u hj _ => ?_⟩
  have hfresh : Registered s := hrun.invariant (fun _ _ _ hs hstep => hs.step hstep) .initial
  have hlt := hfresh.fresh j u hj
  omega

/-- A second request to stop arrives while the tasks are cancelled: `run_until_complete` raises, and the queue is never
closed. -/
theorem stopped_twice : ∃ s : State String ℕ,
    Run Step initial [.startThread, .loopUp, .schedule [(.worker, "events", 7)], .callback, .shutdown, .requestStop,
      .callback, .leave false, .shutdown, .requestStop, .callback, .abort false] s ∧
    s.thread = .broken ∧ s.tasks.get? "events" = some 0 ∧ s.closedQueues = [] :=
  ⟨_, .cons (.startThread rfl rfl) (.cons (.loopUp rfl) (.cons (.schedule rfl rfl) (.cons (.callback rfl rfl)
    (.cons .shutdown (.cons (.requestStop rfl rfl) (.cons (.callback rfl rfl) (.cons (.leave rfl (.inl rfl))
    (.cons .shutdown (.cons (.requestStop rfl rfl) (.cons (.callback rfl rfl)
    (.cons (.abortCancelling rfl (.inl rfl)) (.nil _)))))))))))), rfl, rfl, rfl⟩

end DjangoQueues.Runtime
