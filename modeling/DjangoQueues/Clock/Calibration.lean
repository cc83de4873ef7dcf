import DjangoQueues.Clock
import DjangoQueues.Lib.Run

/-! The calibration of a `RedisQueueClock` on an event loop: `anow`, the background refresh and `aclose`, as the blocks
that they run between two suspensions. A call is suspended where it awaits the server, the refresh task or the lock.
The lock is held over a suspension only by an `anow` that makes the first calibration. -/

namespace DjangoQueues.RedisQueueClock

/-! ## Reading the server -/

/-- A component of a `TIME` reply: an `int`, or another object with its `repr`. -/
inductive TimeComponent where
  | int (n : ℤ)
  | other (text : String)

def TimeComponent.repr : TimeComponent → String
  | int n => toString n
  | other text => text

/-- How the awaited `time()` ends; `raised` stands for an error of the clocks that the constructor was given. -/
inductive Reply where
  | answer (seconds microseconds : TimeComponent)
  | unavailable
  | raised
  | cancelled

inductive ReadError where
  | queueClockError (message : String)
  | raised
  | cancelled
deriving DecidableEq

/-- An offset and the monotonic reading at which it was found. -/
structure Calibration where
  offset : ℚ
  readAt : ℚ
deriving DecidableEq

def maxClockDriftSeconds : ℚ := 180

/-- `ClockTime.from_timeval`; every refusal is reported with the same text. -/
def fromTimeval : TimeComponent → TimeComponent → Option ClockTime
  | .int seconds, .int microseconds =>
    if h : microseconds.toNat < 1000000 then
      if 0 ≤ microseconds ∧ 0 ≤ seconds then some ⟨seconds.toNat, microseconds.toNat, h⟩ else none
    else none
  | _, _ => none

/-- `_aread_calibration`, from the local time at its beginning and the monotonic time at its end. -/
def areadCalibration (localTime : ClockTime) (reply : Reply) (monotonic : ℚ) : Except ReadError Calibration :=
  match reply with
  | .cancelled => .error .cancelled
  | .raised => .error .raised
  | .unavailable => .error (.queueClockError "Redis TIME is unavailable")
  | .answer seconds microseconds =>
    match fromTimeval seconds microseconds with
    | none =>
      .error (.queueClockError
        ("Redis TIME reported an unusable instant: " ++ seconds.repr ++ ", " ++ microseconds.repr))
    | some time =>
      let offset := fl (((time.totalMicroseconds : ℚ) - localTime.totalMicroseconds) / 1000000)
      -- the division of two integers raises `OverflowError`
      if 2 ^ 1024 ≤ |offset| then .error .raised
      else if maxClockDriftSeconds < |offset| then
        .error (.queueClockError "Redis and local UTC clocks exceed the maximum permitted drift")
      else .ok ⟨offset, monotonic⟩

theorem areadCalibration_ok {localTime : ClockTime} {reply : Reply} {monotonic : ℚ} {c : Calibration}
    (h : areadCalibration localTime reply monotonic = .ok c) :
    |c.offset| ≤ maxClockDriftSeconds ∧ c.readAt = monotonic := by
  unfold areadCalibration at h
  cases reply with
  | answer seconds microseconds =>
    dsimp only at h
    split at h
    · cases h
    · split_ifs at h with hover hdrift
      cases h
      exact ⟨not_lt.mp hdrift, rfl⟩
  | _ => cases h

/-! ## State -/

/-- Where a refresh task stands: before its first step, at its reading, at the lock with what it read, at the lock of
its `finally`, or ended. -/
inductive Phase where
  | created
  | reading (localTime : ClockTime)
  | storing (c : Calibration)
  | clearing
  | done
deriving DecidableEq

/-- A task made by `create_task`, with a `cancel()` that has not reached it yet. -/
structure Refresh where
  phase : Phase
  cancelling : Bool
deriving DecidableEq

def Refresh.Alive (r : Refresh) : Prop := r.phase ≠ .done

/-- Whether the task comes to its clearing block, if it is not cancelled once more. -/
def Refresh.willClear (r : Refresh) : Bool :=
  match r.phase with
  | .created | .clearing => !r.cancelling
  | .reading _ | .storing _ => true
  | .done => false

/-- `cancel()` of a task; an ended one takes no notice. -/
def Refresh.cancel (r : Refresh) : Refresh := if r.phase = .done then r else { r with cancelling := true }

/-- Where the `CancelledError` leads. At a reading it is the reading that ends, and a task that never ran has no
`finally` to go through. -/
def Phase.thrown : Phase → Option Phase
  | created => some .done
  | reading _ => none
  | storing _ => some .clearing
  | clearing => some .done
  | done => none

/-- A call of `aclose`, waiting for its task and later for the lock. -/
structure Closing where
  task : ℕ
  awaitsTask : Bool
deriving DecidableEq

/-- A cancelled `aclose` goes on to its `finally`; there it ends. -/
def Closing.interrupted (k : Closing) : Option Closing := if k.awaitsTask then some ⟨k.task, false⟩ else none

/-- Refresh tasks are numbered in the order of their creation; `starts` keeps the monotonic reading of each. -/
structure State where
  now : ℚ
  offset : Option ℚ
  lastRefreshAttempt : Option ℚ
  refreshing : Bool
  refreshTask : Option ℕ
  /-- The local time of the `anow` that holds the lock over its reading. -/
  calibrating : Option ClockTime
  starts : List ℚ
  task : ℕ → Refresh
  closing : ℕ → Option Closing

def initial (now : ℚ) : State where
  now := now
  offset := none
  lastRefreshAttempt := none
  refreshing := false
  refreshTask := none
  calibrating := none
  starts := []
  task := fun _ => ⟨.done, false⟩
  closing := fun _ => none

/-! ## Blocks -/

def needsRefresh (refreshInterval : ℚ) (lastRefreshAttempt : Option ℚ) (monotonicNow : ℚ) : Bool :=
  match lastRefreshAttempt with
  | none => true
  | some last => refreshInterval ≤ fl (monotonicNow - last)

namespace State

def setTask (s : State) (i : ℕ) (r : Refresh) : State := { s with task := Function.update s.task i r }

def setClosing (s : State) (c : ℕ) (k : Option Closing) : State :=
  { s with closing := Function.update s.closing c k }

def setCalibration (s : State) (c : Calibration) : State :=
  { s with offset := some c.offset, lastRefreshAttempt := some c.readAt }

def startRefresh (s : State) : State :=
  { s with
    refreshing := true
    lastRefreshAttempt := some s.now
    refreshTask := some s.starts.length
    starts := s.starts ++ [s.now]
    task := Function.update s.task s.starts.length ⟨.created, false⟩ }

/-- The block of `anow`, up to the reading of an uncalibrated clock. -/
def anow (refreshInterval : ℚ) (s : State) (localTime : ClockTime) : State :=
  if s.offset = none then { s with calibrating := some localTime }
  -- the flag keeps a second refresh from being started
  else if needsRefresh refreshInterval s.lastRefreshAttempt s.now && !s.refreshing then s.startRefresh
  else s

/-- The rest of the block, where the clock was not calibrated. -/
def calibrate (s : State) (result : Except ReadError Calibration) : State :=
  match result with
  | .ok c => { s.setCalibration c with calibrating := none }
  | .error _ => { s with calibrating := none }

/-- The two assignments that end a refresh. -/
def clearRefresh (s : State) : State := { s with refreshing := false, refreshTask := none }

/-- The beginning of `aclose`. -/
def aclose (s : State) (c : ℕ) : State :=
  match s.refreshTask with
  | none => s
  | some i => (s.setTask i (s.task i).cancel).setClosing c (some ⟨i, true⟩)

/-- The block in the `finally` of `aclose`. -/
def closeRefresh (s : State) (c i : ℕ) : State :=
  (if s.refreshTask = some i then s.clearRefresh else s).setClosing c none

end State

/-- The phase after `_aread_calibration` in the background. -/
def Phase.afterRead : Except ReadError Calibration → Phase
  | .ok c => .storing c
  | .error _ => .clearing

inductive Event where
  | tick
  | anow
  | calibrated (result : Except ReadError Calibration)
  | begun (i : ℕ)
  | read (i : ℕ) (result : Except ReadError Calibration)
  | stored (i : ℕ)
  | cleared (i : ℕ)
  | thrown (i : ℕ)
  | aclose (c : ℕ)
  | awaited (c : ℕ)
  | interrupted (c : ℕ)
  | closed (c : ℕ)

/-- One block of one call. Replies, local times and cancellations are arbitrary; the monotonic clock does not go
back. -/
inductive Step (refreshInterval : ℚ) : State → Event → State → Prop
  | tick {s : State} {t : ℚ} (h : s.now ≤ t) : Step refreshInterval s .tick { s with now := t }
  | anow {s : State} (localTime : ClockTime) (hlock : s.calibrating = none) :
    Step refreshInterval s .anow (s.anow refreshInterval localTime)
  | calibrated {s : State} {localTime : ClockTime} (reply : Reply) {result : Except ReadError Calibration}
    (hlock : s.calibrating = some localTime) (hresult : areadCalibration localTime reply s.now = result) :
    Step refreshInterval s (.calibrated result) (s.calibrate result)
  | begun {s : State} {i : ℕ} (localTime : ClockTime) (htask : s.task i = ⟨.created, false⟩) :
    Step refreshInterval s (.begun i) (s.setTask i ⟨.reading localTime, false⟩)
  | read {s : State} {i : ℕ} {localTime : ClockTime} (reply : Reply) {result : Except ReadError Calibration}
    (htask : (s.task i).phase = .reading localTime) (hresult : areadCalibration localTime reply s.now = result) :
    Step refreshInterval s (.read i result) (s.setTask i ⟨.afterRead result, false⟩)
  | stored {s : State} {i : ℕ} {c : Calibration} (hlock : s.calibrating = none)
    (htask : s.task i = ⟨.storing c, false⟩) :
    Step refreshInterval s (.stored i) ((s.setCalibration c).setTask i ⟨.clearing, false⟩)
  | cleared {s : State} {i : ℕ} (hlock : s.calibrating = none) (htask : s.task i = ⟨.clearing, false⟩) :
    Step refreshInterval s (.cleared i) (s.clearRefresh.setTask i ⟨.done, false⟩)
  | thrown {s : State} {i : ℕ} {p : Phase} (hcancel : (s.task i).cancelling = true)
    (hphase : (s.task i).phase.thrown = some p) : Step refreshInterval s (.thrown i) (s.setTask i ⟨p, false⟩)
  | aclose {s : State} {c : ℕ} (hnew : s.closing c = none) : Step refreshInterval s (.aclose c) (s.aclose c)
  | awaited {s : State} {c i : ℕ} (hcall : s.closing c = some ⟨i, true⟩) (hdone : (s.task i).phase = .done) :
    Step refreshInterval s (.awaited c) (s.setClosing c (some ⟨i, false⟩))
  | interrupted {s : State} {c : ℕ} {k : Closing} (hcall : s.closing c = some k) :
    Step refreshInterval s (.interrupted c) (s.setClosing c k.interrupted)
  | closed {s : State} {c i : ℕ} (hlock : s.calibrating = none) (hcall : s.closing c = some ⟨i, false⟩) :
    Step refreshInterval s (.closed c) (s.closeRefresh c i)

/-! ## The offset -/

section Offset

variable {refreshInterval : ℚ} {s s' : State} {e : Event}

theorem State.task_setTask (s : State) (i : ℕ) (r : Refresh) (j : ℕ) :
    (s.setTask i r).task j = if j = i then r else s.task j :=
  Function.update_apply ..

theorem State.closing_setClosing (s : State) (c : ℕ) (k : Option Closing) (c' : ℕ) :
    (s.setClosing c k).closing c' = if c' = c then k else s.closing c' :=
  Function.update_apply ..

theorem State.task_startRefresh (s : State) (j : ℕ) :
    s.startRefresh.task j = if j = s.starts.length then ⟨.created, false⟩ else s.task j :=
  Function.update_apply ..

/-- Offsets, kept and read, are within the permitted drift. The lock is held over a reading only before the first
calibration, and until then nothing is refreshed. -/
structure Calibrated (s : State) : Prop where
  offset_le : ∀ o, s.offset = some o → |o| ≤ maxClockDriftSeconds
  storing_le : ∀ i c, (s.task i).phase = .storing c → |c.offset| ≤ maxClockDriftSeconds
  locked : ∀ l, s.calibrating = some l → s.offset = none
  idle : s.offset = none → ∀ i, (s.task i).phase = .done
  created : ∀ i, (s.task i).Alive → i < s.starts.length

theorem Calibrated.initial (now : ℚ) : Calibrated (initial now) where
  offset_le _ h := by cases h
  storing_le _ _ h := by cases h
  locked _ h := by cases h
  idle _ _ := rfl
  created _ h := absurd rfl h

/-- A task that goes on, or ends. -/
theorem Calibrated.setTask (hs : Calibrated s) {i : ℕ} {r : Refresh} (halive : r.Alive → (s.task i).Alive)
    (hstoring : ∀ c, r.phase = .storing c → |c.offset| ≤ maxClockDriftSeconds) : Calibrated (s.setTask i r) where
  offset_le := hs.offset_le
  storing_le j c h := by
    rw [State.task_setTask] at h
    split_ifs at h
    · exact hstoring c h
    · exact hs.storing_le j c h
  locked := hs.locked
  idle hnone j := by
    rw [State.task_setTask]
    split_ifs
    · by_contra hr
      exact halive hr (hs.idle hnone i)
    · exact hs.idle hnone j
  created j h := by
    rw [State.task_setTask] at h
    split_ifs at h with hj
    · rw [hj]
      exact hs.created i (halive h)
    · exact hs.created j h

theorem Calibrated.setCalibration (hs : Calibrated s) {c : Calibration} (hlock : s.calibrating = none)
    (hc : |c.offset| ≤ maxClockDriftSeconds) : Calibrated (s.setCalibration c) where
  offset_le o h := by
    cases h
    exact hc
  storing_le := hs.storing_le
  locked l h := by
    rw [State.setCalibration, hlock] at h
    cases h
  idle h := by cases h
  created := hs.created

theorem Calibrated.calibrate (hs : Calibrated s) {result : Except ReadError Calibration}
    (hresult : ∀ c, result = .ok c → |c.offset| ≤ maxClockDriftSeconds) : Calibrated (s.calibrate result) := by
  have hfree : Calibrated { s with calibrating := none } :=
    ⟨hs.offset_le, hs.storing_le, (fun _ h => by cases h), hs.idle, hs.created⟩
  cases result with
  | ok c => exact hfree.setCalibration rfl (hresult c rfl)
  | error _ => exact hfree

theorem Calibrated.startRefresh (hs : Calibrated s) (hoffset : s.offset ≠ none) : Calibrated s.startRefresh where
  offset_le := hs.offset_le
  storing_le j c h := by
    rw [State.task_startRefresh] at h
    split_ifs at h
    exact hs.storing_le j c h
  locked := hs.locked
  idle h := absurd h hoffset
  created j h := by
    rw [State.task_startRefresh] at h
    rw [State.startRefresh, List.length_append, List.length_singleton]
    split_ifs at h with hj
    · omega
    · exact (hs.created j h).trans (Nat.lt_succ_self _)

theorem Calibrated.anow (hs : Calibrated s) (localTime : ClockTime) : Calibrated (s.anow refreshInterval localTime) := by
  unfold State.anow
  split_ifs with hoffset hneeds
  · exact ⟨hs.offset_le, hs.storing_le, fun _ _ => hoffset, hs.idle, hs.created⟩
  · exact hs.startRefresh hoffset
  · exact hs

theorem Refresh.cancel_alive_iff (r : Refresh) : r.cancel.Alive ↔ r.Alive := by
  unfold Refresh.cancel
  split_ifs <;> rfl

theorem Refresh.cancel_phase (r : Refresh) : r.cancel.phase = r.phase := by
  unfold Refresh.cancel
  split_ifs <;> rfl

theorem Calibrated.step (hs : Calibrated s) (h : Step refreshInterval s e s') : Calibrated s' := by
  cases h with
  | tick _ => exact ⟨hs.offset_le, hs.storing_le, hs.locked, hs.idle, hs.created⟩
  | anow localTime _ => exact hs.anow localTime
  | calibrated reply _ hresult =>
    apply hs.calibrate
    intro c hc
    exact (areadCalibration_ok (hresult.trans hc)).1
  | @begun i localTime htask =>
    apply hs.setTask
    · intro _
      rw [htask]
      exact Phase.noConfusion
    · exact fun _ h => by cases h
  | @read i localTime reply result htask hresult =>
    apply hs.setTask
    · intro _ hdone
      rw [htask] at hdone
      cases hdone
    · intro c hc
      cases result with
      | ok c' =>
        cases hc
        exact (areadCalibration_ok hresult).1
      | error _ => cases hc
  | @stored i c hlock htask =>
    have hphase : (s.task i).phase = .storing c := by rw [htask]
    apply (hs.setCalibration hlock (hs.storing_le i c hphase)).setTask
    · intro _ hdone
      cases hphase.symm.trans hdone
    · exact fun _ h => by cases h
  | @cleared i _ _ =>
    have hclear : Calibrated s.clearRefresh := ⟨hs.offset_le, hs.storing_le, hs.locked, hs.idle, hs.created⟩
    exact hclear.setTask (fun h => absurd rfl h) (fun _ h => by cases h)
  | @thrown i p _ hphase =>
    apply hs.setTask
    · intro _ hdone
      rw [hdone] at hphase
      cases hphase
    -- a `CancelledError` never leads to a store
    · rintro c rfl
      cases hp : (s.task i).phase <;> rw [hp] at hphase <;> cases hphase
  | aclose _ =>
    unfold State.aclose
    split
    · exact hs
    · next i _ =>
      have hcancel := hs.setTask (i := i) (s.task i).cancel_alive_iff.mp fun c hc =>
        hs.storing_le i c ((s.task i).cancel_phase.symm.trans hc)
      exact ⟨hcancel.offset_le, hcancel.storing_le, hcancel.locked, hcancel.idle, hcancel.created⟩
  | awaited _ _ => exact ⟨hs.offset_le, hs.storing_le, hs.locked, hs.idle, hs.created⟩
  | interrupted _ => exact ⟨hs.offset_le, hs.storing_le, hs.locked, hs.idle, hs.created⟩
  | closed _ _ =>
    unfold State.closeRefresh
    split_ifs <;> exact ⟨hs.offset_le, hs.storing_le, hs.locked, hs.idle, hs.created⟩

theorem Calibrated.run {now : ℚ} {es : List Event} (h : Run (Step refreshInterval) (RedisQueueClock.initial now) es s) :
    Calibrated s :=
  h.invariant (fun _ _ _ hs hstep => hs.step hstep) (Calibrated.initial now)

/-- The offset changes at the first calibration and where a refresh stores what it read. -/
theorem Step.offset_eq (h : Step refreshInterval s e s') (hs : Calibrated s) :
    s'.offset = s.offset ∨ (s.offset = none ∧ ∃ c, e = .calibrated (.ok c) ∧ s'.offset = some c.offset) ∨
      ∃ i c, e = .stored i ∧ (s.task i).phase = .storing c ∧ s'.offset = some c.offset := by
  cases h with
  | anow localTime _ =>
    left
    unfold State.anow
    split_ifs <;> rfl
  | calibrated reply hlock hresult =>
    rename_i result
    cases result with
    | ok c => exact .inr (.inl ⟨hs.locked _ hlock, c, rfl, rfl⟩)
    | error _ => exact .inl rfl
  | @stored i c _ htask => exact .inr (.inr ⟨i, c, rfl, congrArg Refresh.phase htask, rfl⟩)
  | aclose _ =>
    left
    unfold State.aclose
    split <;> rfl
  | closed _ _ =>
    left
    unfold State.closeRefresh
    split_ifs <;> rfl
  | _ => exact .inl rfl

/-- How far a refresh has come. -/
def Phase.rank : Phase → ℕ
  | created => 0
  | reading _ => 1
  | storing _ => 2
  | clearing => 3
  | done => 4

theorem Phase.rank_thrown {p p' : Phase} (h : p.thrown = some p') : p.rank ≤ p'.rank := by
  cases p <;> cases h <;> exact Nat.le_of_ble_eq_true rfl

theorem State.rank_le_setTask {j : ℕ} {r : Refresh} (hr : (s.task j).phase.rank ≤ r.phase.rank) (i : ℕ) :
    (s.task i).phase.rank ≤ ((s.setTask j r).task i).phase.rank := by
  rw [State.task_setTask]
  split_ifs with hij
  · rw [hij]
    exact hr
  · exact le_rfl

/-- A refresh never goes back. -/
theorem Step.rank_le {i : ℕ} (h : Step refreshInterval s e s') (hi : i < s.starts.length) :
    i < s'.starts.length ∧ (s.task i).phase.rank ≤ (s'.task i).phase.rank := by
  cases h with
  | anow localTime _ =>
    unfold State.anow
    split_ifs
    · exact ⟨hi, le_rfl⟩
    · constructor
      · rw [State.startRefresh, List.length_append]
        exact hi.trans (Nat.lt_succ_self _)
      · rw [State.task_startRefresh, if_neg hi.ne]
    · exact ⟨hi, le_rfl⟩
  | @calibrated _ _ result _ _ => cases result <;> exact ⟨hi, le_rfl⟩
  | begun _ htask =>
    refine ⟨hi, State.rank_le_setTask ?_ i⟩
    rw [htask]
    exact Nat.zero_le _
  | @read _ _ _ result htask _ =>
    refine ⟨hi, State.rank_le_setTask ?_ i⟩
    rw [htask]
    cases result <;> exact Nat.le_of_ble_eq_true rfl
  | stored _ htask =>
    refine ⟨hi, State.rank_le_setTask ?_ i⟩
    rw [htask]
    exact Nat.le_of_ble_eq_true rfl
  | cleared _ htask =>
    refine ⟨hi, State.rank_le_setTask ?_ i⟩
    rw [htask]
    exact Nat.le_of_ble_eq_true rfl
  | thrown _ hphase => exact ⟨hi, State.rank_le_setTask (Phase.rank_thrown hphase) i⟩
  | aclose _ =>
    unfold State.aclose
    split
    · exact ⟨hi, le_rfl⟩
    · exact ⟨hi, State.rank_le_setTask (by rw [Refresh.cancel_phase]) i⟩
  | closed _ _ =>
    unfold State.closeRefresh
    split_ifs <;> exact ⟨hi, le_rfl⟩
  | _ => exact ⟨hi, le_rfl⟩

theorem Step.rank_of_stored {i : ℕ} (h : Step refreshInterval s (.stored i) s') : (s.task i).phase.rank = 2 := by
  cases h with
  | stored _ htask =>
    rw [htask]
    rfl

/-- A refresh that is past its storing block stores nothing. -/
theorem not_stored_of_rank {i : ℕ} {es : List Event} (h : Run (Step refreshInterval) s es s')
    (hi : i < s.starts.length) (hrank : 3 ≤ (s.task i).phase.rank) : .stored i ∉ es := by
  induction h with
  | nil _ => exact List.not_mem_nil
  | cons hstep _ ih =>
    obtain ⟨hi', hle⟩ := hstep.rank_le hi
    refine List.not_mem_cons_of_ne_of_not_mem ?_ (ih hi' (hrank.trans hle))
    rintro rfl
    have htwo := hstep.rank_of_stored
    omega

/-- Nor does one whose reading failed. -/
theorem not_stored_of_failed {now : ℚ} {i : ℕ} {error : ReadError} {es es' : List Event}
    (h : Run (Step refreshInterval) (initial now) (es ++ .read i (.error error) :: es') s) : .stored i ∉ es' := by
  obtain ⟨t, hbefore, hafter⟩ := h.of_append
  have ht := Calibrated.run hbefore
  cases hafter with
  | cons hstep hrest =>
    cases hstep with
    | read reply htask _ =>
      have halive : (t.task i).Alive := fun hdone => by cases htask.symm.trans hdone
      apply not_stored_of_rank hrest (ht.created i halive)
      rw [State.task_setTask, if_pos rfl]
      exact le_rfl

end Offset

end DjangoQueues.RedisQueueClock
