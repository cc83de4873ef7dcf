import DjangoQueues.Clock.Calibration

/-! The refreshes of a `RedisQueueClock` over whole runs: one at a time, an interval apart, and with a flag that does not
stay set, as long as no `aclose` is cancelled at the wrong moment. -/

namespace DjangoQueues.RedisQueueClock

/-! ## The flag -/

section Flag

variable {refreshInterval : ℚ} {s s' : State} {e : Event}

/-- A call of `aclose` has still to look after the task. -/
def State.Closes (s : State) (i : ℕ) : Prop := ∃ c k, s.closing c = some k ∧ k.task = i

/-- A refresh that is alive is the one that the flag and the reference are set for. Where the flag is set, the task or
an `aclose` will clear it. Refreshes were started an interval apart, and none after the last attempt. -/
structure Guarded (refreshInterval : ℚ) (s : State) : Prop where
  owned : ∀ i, (s.task i).Alive → s.refreshing = true ∧ s.refreshTask = some i
  cleared : s.refreshing = true → ∃ i, s.refreshTask = some i ∧ ((s.task i).willClear = true ∨ s.Closes i)
  attempt_le : ∀ last, s.lastRefreshAttempt = some last → last ≤ s.now
  starts_le : ∀ t ∈ s.starts, ∃ last, s.lastRefreshAttempt = some last ∧ t ≤ last
  storing_le : ∀ i c, (s.task i).phase = .storing c →
    (∀ last, s.lastRefreshAttempt = some last → last ≤ c.readAt) ∧ c.readAt ≤ s.now
  apart : s.starts.Pairwise fun t t' => refreshInterval ≤ fl (t' - t)

/-- `aclose` resets the clock only after its task has ended, and is not cancelled at the lock where no one else would
reset it. -/
def CleanClose (s : State) : Event → Prop
  | .closed c => ∀ k, s.closing c = some k → s.refreshTask = some k.task → ¬(s.task k.task).Alive
  | .interrupted c => ∀ k, s.closing c = some k → k.awaitsTask = false → s.refreshTask = some k.task →
      (s.task k.task).willClear = true ∨ ∃ c' k', c' ≠ c ∧ s.closing c' = some k' ∧ k'.task = k.task
  | _ => True

theorem Guarded.initial (now : ℚ) : Guarded refreshInterval (initial now) where
  owned _ h := absurd rfl h
  cleared h := by cases h
  attempt_le _ h := by cases h
  starts_le _ h := by cases h
  storing_le _ _ h := by cases h
  apart := .nil

theorem Guarded.alive_unique (hs : Guarded refreshInterval s) {i j : ℕ} (hi : (s.task i).Alive)
    (hj : (s.task j).Alive) : i = j := by
  have htask := (hs.owned i hi).2
  rw [(hs.owned j hj).2] at htask
  exact (Option.some.inj htask).symm

/-- A task goes on, or ends without a clearing block that it had before it. -/
theorem Guarded.setTask (hs : Guarded refreshInterval s) {i : ℕ} {r : Refresh}
    (halive : r.Alive → (s.task i).Alive) (hclear : (s.task i).willClear = true → r.willClear = true)
    (hstoring : ∀ c, r.phase = .storing c →
      (∀ last, s.lastRefreshAttempt = some last → last ≤ c.readAt) ∧ c.readAt ≤ s.now) :
    Guarded refreshInterval (s.setTask i r) where
  owned j h := by
    rw [State.task_setTask] at h
    split_ifs at h with hj
    · rw [hj]
      exact hs.owned i (halive h)
    · exact hs.owned j h
  cleared h := by
    obtain ⟨j, htask, hj⟩ := hs.cleared h
    refine ⟨j, htask, hj.imp_left fun hwill => ?_⟩
    rw [State.task_setTask]
    split_ifs with hji
    · rw [hji] at hwill
      exact hclear hwill
    · exact hwill
  attempt_le := hs.attempt_le
  starts_le := hs.starts_le
  storing_le j c h := by
    rw [State.task_setTask] at h
    split_ifs at h
    · exact hstoring c h
    · exact hs.storing_le j c h
  apart := hs.apart

/-- Nothing is refreshed and the flag is not set. -/
theorem Guarded.of_idle (hs : Guarded refreshInterval s) (hidle : ∀ i, ¬(s'.task i).Alive)
    (hflag : s'.refreshing = false) (hnow : s'.now = s.now)
    (hlast : s'.lastRefreshAttempt = s.lastRefreshAttempt) (hstarts : s'.starts = s.starts) :
    Guarded refreshInterval s' where
  owned i h := absurd h (hidle i)
  cleared h := by
    rw [hflag] at h
    cases h
  attempt_le := by
    rw [hlast, hnow]
    exact hs.attempt_le
  starts_le := by
    rw [hstarts, hlast]
    exact hs.starts_le
  storing_le i c h := absurd (hidle i) fun hdone => hdone fun hdone' => by
    rw [h] at hdone'
    cases hdone'
  apart := by
    rw [hstarts]
    exact hs.apart

theorem State.Closes.setClosing {i c : ℕ} {k : Option Closing} (h : s.Closes i)
    (hkeep : ∀ k', s.closing c = some k' → k'.task = i → ∃ k'', k = some k'' ∧ k''.task = i) :
    (s.setClosing c k).Closes i := by
  obtain ⟨c', k', hcall, hi⟩ := h
  by_cases hc : c' = c
  · subst hc
    obtain ⟨k'', hk, hi'⟩ := hkeep k' hcall hi
    exact ⟨c', k'', by rw [State.closing_setClosing, if_pos rfl, hk], hi'⟩
  · exact ⟨c', k', by rw [State.closing_setClosing, if_neg hc, hcall], hi⟩

theorem Guarded.setClosing (hs : Guarded refreshInterval s) {c : ℕ} {k : Option Closing}
    (hcloses : ∀ i, s.refreshTask = some i → s.Closes i →
      (s.task i).willClear = true ∨ (s.setClosing c k).Closes i) :
    Guarded refreshInterval (s.setClosing c k) where
  owned := hs.owned
  cleared h := by
    obtain ⟨i, htask, hi⟩ := hs.cleared h
    exact ⟨i, htask, hi.elim .inl (hcloses i htask)⟩
  attempt_le := hs.attempt_le
  starts_le := hs.starts_le
  storing_le := hs.storing_le
  apart := hs.apart

theorem Guarded.tick (hs : Guarded refreshInterval s) {now : ℚ} (h : s.now ≤ now) :
    Guarded refreshInterval { s with now := now } where
  owned := hs.owned
  cleared := hs.cleared
  attempt_le last hlast := (hs.attempt_le last hlast).trans h
  starts_le := hs.starts_le
  storing_le i c hc := ⟨(hs.storing_le i c hc).1, (hs.storing_le i c hc).2.trans h⟩
  apart := hs.apart

theorem Guarded.startRefresh (hs : Guarded refreshInterval s) (hflag : s.refreshing = false)
    (hneeds : needsRefresh refreshInterval s.lastRefreshAttempt s.now = true) :
    Guarded refreshInterval s.startRefresh := by
  have hidle (i : ℕ) : ¬(s.task i).Alive := fun h => by
    have htrue := (hs.owned i h).1
    rw [hflag] at htrue
    cases htrue
  refine ⟨?_, ?_, ?_, ?_, ?_, ?_⟩
  · intro i h
    rw [State.task_startRefresh] at h
    split_ifs at h with hi
    · rw [hi]
      exact ⟨rfl, rfl⟩
    · exact absurd h (hidle i)
  · intro _
    refine ⟨s.starts.length, rfl, .inl ?_⟩
    rw [State.task_startRefresh, if_pos rfl]
    rfl
  · intro last hlast
    cases hlast
    exact le_rfl
  · intro t ht
    refine ⟨s.now, rfl, ?_⟩
    rcases List.mem_append.mp ht with ht | ht
    · obtain ⟨last, hlast, hle⟩ := hs.starts_le t ht
      exact hle.trans (hs.attempt_le last hlast)
    · exact (List.mem_singleton.mp ht).le
  · intro i c hc
    rw [State.task_startRefresh] at hc
    split_ifs at hc
    exact absurd (hidle i) fun h => h fun hdone => by
      rw [hc] at hdone
      cases hdone
  · -- the last attempt is at or after every start, so it bounds the distance to each
    refine List.pairwise_append.mpr ⟨hs.apart, List.pairwise_singleton _ _, ?_⟩
    intro t ht t' ht'
    rw [List.mem_singleton.mp ht']
    obtain ⟨last, hlast, hle⟩ := hs.starts_le t ht
    rw [hlast] at hneeds
    calc refreshInterval ≤ fl (s.now - last) := of_decide_eq_true hneeds
      _ ≤ fl (s.now - t) := fl_le_fl (sub_nonneg.mpr (hs.attempt_le last hlast)) (sub_le_sub_left hle _)

/-- A calibration at or after the last attempt, while nothing waits to store an earlier one. -/
theorem Guarded.setCalibration (hs : Guarded refreshInterval s) {c : Calibration}
    (hafter : ∀ last, s.lastRefreshAttempt = some last → last ≤ c.readAt) (hnow : c.readAt ≤ s.now)
    (hstoring : ∀ i c', (s.task i).phase ≠ .storing c') : Guarded refreshInterval (s.setCalibration c) where
  owned := hs.owned
  cleared := hs.cleared
  attempt_le last hlast := by
    cases hlast
    exact hnow
  starts_le t ht := by
    obtain ⟨last, hlast, hle⟩ := hs.starts_le t ht
    exact ⟨c.readAt, rfl, hle.trans (hafter last hlast)⟩
  storing_le i c' h := absurd h (hstoring i c')
  apart := hs.apart

theorem Guarded.anow (hs : Guarded refreshInterval s) (localTime : ClockTime) :
    Guarded refreshInterval (s.anow refreshInterval localTime) := by
  unfold State.anow
  split_ifs with hoffset hneeds
  · exact ⟨hs.owned, hs.cleared, hs.attempt_le, hs.starts_le, hs.storing_le, hs.apart⟩
  · rw [Bool.and_eq_true, Bool.not_eq_true'] at hneeds
    exact hs.startRefresh hneeds.2 hneeds.1
  · exact hs

theorem Guarded.calibrate (hs : Guarded refreshInterval s) {result : Except ReadError Calibration}
    (hnow : ∀ c, result = .ok c → c.readAt = s.now) (hidle : ∀ i, (s.task i).phase = .done) :
    Guarded refreshInterval (s.calibrate result) := by
  have hfree : Guarded refreshInterval { s with calibrating := none } :=
    ⟨hs.owned, hs.cleared, hs.attempt_le, hs.starts_le, hs.storing_le, hs.apart⟩
  cases result with
  | ok c =>
    have hread := hnow c rfl
    apply hfree.setCalibration
    · rw [hread]
      exact hs.attempt_le
    · exact hread.le
    · intro i c' hc'
      cases (hidle i).symm.trans hc'
  | error _ => exact hfree

/-- `aclose` takes the task over as it cancels it. -/
theorem Guarded.aclose (hs : Guarded refreshInterval s) (c : ℕ) : Guarded refreshInterval (s.aclose c) := by
  unfold State.aclose
  split
  · exact hs
  · next i htask =>
    have hcancel (j : ℕ) : ((s.setTask i (s.task i).cancel).task j).phase = (s.task j).phase := by
      rw [State.task_setTask]
      split_ifs with hj
      · rw [hj, Refresh.cancel_phase]
      · rfl
    refine ⟨?_, ?_, hs.attempt_le, hs.starts_le, ?_, hs.apart⟩
    · exact fun j h => hs.owned j fun hdone => h ((hcancel j).trans hdone)
    · intro _
      exact ⟨i, htask, .inr ⟨c, ⟨i, true⟩, by rw [State.closing_setClosing, if_pos rfl], rfl⟩⟩
    · exact fun j c' h => hs.storing_le j c' ((hcancel j).symm.trans h)

theorem Guarded.interrupted (hs : Guarded refreshInterval s) {c : ℕ} {k : Closing} (hcall : s.closing c = some k)
    (hclean : CleanClose s (.interrupted c)) : Guarded refreshInterval (s.setClosing c k.interrupted) := by
  apply hs.setClosing
  intro i htask hcloses
  by_cases hi : k.task = i
  · subst hi
    cases hk : k.awaitsTask with
    | true =>
      refine .inr (hcloses.setClosing fun _ _ _ => ⟨⟨k.task, false⟩, ?_, rfl⟩)
      rw [Closing.interrupted, if_pos hk]
    | false =>
      refine (hclean k hcall hk htask).imp_right ?_
      rintro ⟨c', k', hc, hcall', hk'⟩
      exact ⟨c', k', by rw [State.closing_setClosing, if_neg hc, hcall'], hk'⟩
  · refine .inr (hcloses.setClosing fun k' hk' htask' => ?_)
    rw [hcall] at hk'
    cases hk'
    exact absurd htask' hi

theorem Guarded.closeRefresh (hs : Guarded refreshInterval s) {c i : ℕ} (hcall : s.closing c = some ⟨i, false⟩)
    (hclean : CleanClose s (.closed c)) : Guarded refreshInterval (s.closeRefresh c i) := by
  unfold State.closeRefresh
  split_ifs with htask
  · refine hs.of_idle (fun j hj => ?_) rfl rfl rfl rfl
    have hij := (hs.owned j hj).2
    rw [htask] at hij
    cases hij
    exact hclean _ hcall htask hj
  · apply hs.setClosing
    intro j hj hcloses
    refine .inr (hcloses.setClosing fun k hk hkj => ?_)
    rw [hcall] at hk
    cases hk
    exact absurd (hj.trans (congrArg some hkj.symm)) htask

theorem Guarded.step (hs : Guarded refreshInterval s) (hcal : Calibrated s) (h : Step refreshInterval s e s')
    (hclean : CleanClose s e) : Guarded refreshInterval s' := by
  cases h with
  | tick h => exact hs.tick h
  | anow localTime _ => exact hs.anow localTime
  | calibrated reply hlock hresult =>
    exact hs.calibrate (fun c hc => (areadCalibration_ok (hresult.trans hc)).2) (hcal.idle (hcal.locked _ hlock))
  | begun localTime htask =>
    apply hs.setTask
    · intro _
      rw [htask]
      exact Phase.noConfusion
    · exact fun _ => rfl
    · exact fun _ h => by cases h
  | @read _ _ _ result htask hresult =>
    apply hs.setTask
    · intro _ hdone
      cases htask.symm.trans hdone
    · intro _
      cases result <;> rfl
    · intro c hc
      cases result with
      | ok c' =>
        cases hc
        rw [(areadCalibration_ok hresult).2]
        exact ⟨hs.attempt_le, le_rfl⟩
      | error _ => cases hc
  | @stored i c _ htask =>
    have hphase : (s.task i).phase = .storing c := congrArg Refresh.phase htask
    have halive : (s.task i).Alive := fun hdone => by cases hphase.symm.trans hdone
    have hset : Guarded refreshInterval (s.setTask i ⟨.clearing, false⟩) :=
      hs.setTask (fun _ => halive) (fun _ => rfl) (fun _ h => by cases h)
    obtain ⟨hafter, hnow⟩ := hs.storing_le i c hphase
    -- no other task waits to store an older reading, since only one is alive
    refine hset.setCalibration hafter hnow ?_
    intro j c' hj
    rw [State.task_setTask] at hj
    split_ifs at hj with hji
    exact hji (hs.alive_unique (fun hdone => by cases hj.symm.trans hdone) halive)
  | @cleared i _ htask =>
    refine hs.of_idle (fun j hj => ?_) rfl rfl rfl rfl
    rw [State.task_setTask] at hj
    split_ifs at hj with hji
    · exact hj rfl
    · refine hji (hs.alive_unique hj fun hdone => ?_)
      cases (congrArg Refresh.phase htask).symm.trans hdone
  | @thrown i p hcancel hphase =>
    apply hs.setTask
    · intro _ hdone
      rw [hdone] at hphase
      cases hphase
    -- a cancelled task ends without its clearing block only where `willClear` did not promise one
    · intro hwill
      unfold Refresh.willClear at hwill
      cases hp : (s.task i).phase <;> rw [hp] at hphase hwill <;> cases hphase
      · rw [hcancel] at hwill
        cases hwill
      · rfl
      · rw [hcancel] at hwill
        cases hwill
    · rintro c rfl
      cases hp : (s.task i).phase <;> rw [hp] at hphase <;> cases hphase
  | aclose _ => exact hs.aclose _
  | @awaited c i hcall _ =>
    apply hs.setClosing
    intro j _ hcloses
    refine .inr (hcloses.setClosing fun k hk hkj => ⟨⟨i, false⟩, rfl, ?_⟩)
    rw [hcall] at hk
    cases hk
    exact hkj
  | interrupted hcall => exact hs.interrupted hcall hclean
  | closed _ hcall => exact hs.closeRefresh hcall hclean

end Flag

/-! ## Runs -/

section Runs

variable {refreshInterval now : ℚ} {s s' : State} {es : List Event}

/-- A block after which the clock is as safe as before it. -/
def CleanStep (refreshInterval : ℚ) (s : State) (e : Event) (s' : State) : Prop :=
  Step refreshInterval s e s' ∧ CleanClose s e

/-- The offset is within the drift, one refresh is in flight, refreshes start an interval apart, and with nothing in
flight the flag is not set, so that the next `anow` past the interval starts a refresh. -/
structure ClockSafe (refreshInterval : ℚ) (s : State) : Prop where
  offset_le : ∀ o, s.offset = some o → |o| ≤ 180
  one_refresh : ∀ i j, (s.task i).Alive → (s.task j).Alive → i = j
  starts_apart : s.starts.Pairwise fun t t' => refreshInterval ≤ fl (t' - t)
  flag_cleared : (∀ i, ¬(s.task i).Alive) → (∀ c, s.closing c = none) → s.refreshing = false
  starts_again : (∀ i, ¬(s.task i).Alive) → (∀ c, s.closing c = none) → s.offset ≠ none →
    needsRefresh refreshInterval s.lastRefreshAttempt s.now = true →
    ∀ localTime, s.anow refreshInterval localTime = s.startRefresh

theorem Refresh.alive_of_willClear {r : Refresh} (h : r.willClear = true) : r.Alive := by
  intro hdone
  rw [Refresh.willClear, hdone] at h
  cases h

theorem Guarded.flag_cleared (hs : Guarded refreshInterval s) (hidle : ∀ i, ¬(s.task i).Alive)
    (hclosing : ∀ c, s.closing c = none) : s.refreshing = false := by
  by_contra hflag
  obtain ⟨i, -, hwill | ⟨c, k, hcall, -⟩⟩ := hs.cleared (Bool.eq_true_of_not_eq_false hflag)
  · exact hidle i (Refresh.alive_of_willClear hwill)
  · rw [hclosing c] at hcall
    cases hcall

theorem State.anow_eq_startRefresh (hoffset : s.offset ≠ none)
    (hneeds : needsRefresh refreshInterval s.lastRefreshAttempt s.now = true) (hflag : s.refreshing = false)
    (localTime : ClockTime) : s.anow refreshInterval localTime = s.startRefresh := by
  rw [State.anow, if_neg hoffset, hneeds, hflag]
  rfl

theorem Guarded.clockSafe (hs : Guarded refreshInterval s) (hcal : Calibrated s) : ClockSafe refreshInterval s where
  offset_le := hcal.offset_le
  one_refresh _ _ := hs.alive_unique
  starts_apart := hs.apart
  flag_cleared := hs.flag_cleared
  starts_again hidle hclosing hoffset hneeds :=
    State.anow_eq_startRefresh hoffset hneeds (hs.flag_cleared hidle hclosing)

theorem run_guarded (h : Run (CleanStep refreshInterval) (initial now) es s) :
    Calibrated s ∧ Guarded refreshInterval s :=
  h.invariant (I := fun s => Calibrated s ∧ Guarded refreshInterval s)
    (fun _ _ _ hs hstep => ⟨hs.1.step hstep.1, hs.2.step hs.1 hstep.1 hstep.2⟩)
    ⟨Calibrated.initial now, Guarded.initial now⟩

/-- The clock is safe in every state of a run in which `aclose` closes cleanly. Its offset is never unset, and changes
only where it is first set and where a refresh stores a reading that did not fail. -/
theorem clock_safe (h : Run (CleanStep refreshInterval) (initial now) es s) :
    ClockSafe refreshInterval s ∧
    (∀ e s', Step refreshInterval s e s' → s.offset ≠ none → s'.offset ≠ none) ∧
    (∀ e s', Step refreshInterval s e s' → s'.offset ≠ s.offset →
      (s.offset = none ∧ ∃ c, e = .calibrated (.ok c)) ∨ ∃ i, e = .stored i) ∧
    ∀ before i error after, es = before ++ .read i (.error error) :: after → .stored i ∉ after := by
  obtain ⟨hcal, hguard⟩ := run_guarded h
  refine ⟨hguard.clockSafe hcal, ?_, ?_, ?_⟩
  · intro e s' hstep hset
    rcases hstep.offset_eq hcal with heq | ⟨hnone, -⟩ | ⟨i, c, -, -, hstored⟩
    · rwa [heq]
    · exact absurd hnone hset
    · rw [hstored]
      exact Option.some_ne_none _
  · intro e s' hstep hchange
    rcases hstep.offset_eq hcal with heq | ⟨hnone, c, he, -⟩ | ⟨i, c, he, -, -⟩
    · exact absurd heq hchange
    · exact .inl ⟨hnone, c, he⟩
    · exact .inr ⟨i, he⟩
  · rintro before i error after rfl
    exact not_stored_of_failed (h.mono fun _ _ _ hstep => hstep.1)

/-- The Unix epoch. -/
def epoch : ClockTime := ⟨0, 0, ClockTime.zero_lt_million⟩

theorem areadCalibration_epoch (t : ℚ) :
    areadCalibration epoch (.answer (.int 0) (.int 0)) t = .ok ⟨0, t⟩ := by
  have hfl : fl 0 = 0 := binary64.round_zero
  have hzero : |fl (((epoch.totalMicroseconds : ℚ) - epoch.totalMicroseconds) / 1000000)| = 0 := by
    rw [sub_self, zero_div, hfl, abs_zero]
  have hover : ¬((2 : ℚ) ^ 1024 ≤ 0) := not_le.mpr (by positivity)
  have htime : fromTimeval (.int 0) (.int 0) = some epoch := rfl
  unfold areadCalibration
  dsimp only
  rw [htime]
  dsimp only
  rw [hzero, if_neg hover, if_neg (by norm_num [maxClockDriftSeconds]), sub_self, zero_div, hfl]

/-- A clock that was calibrated at monotonic time 0 against a server with the same time. -/
def calibratedAt (t : ℚ) : State := { initial t with offset := some 0, lastRefreshAttempt := some 0 }

theorem run_calibratedAt {t : ℚ} (ht : 0 ≤ t) :
    Run (CleanStep 600) (initial 0) [.anow, .calibrated (.ok ⟨0, 0⟩), .tick] (calibratedAt t) :=
  .cons ⟨.anow epoch rfl, trivial⟩ (.cons ⟨.calibrated _ rfl (areadCalibration_epoch 0), trivial⟩
    (.cons ⟨.tick ht, trivial⟩ (.nil _)))

theorem needsRefresh_600 (n : ℕ) : needsRefresh 600 (some (n : ℚ)) ((n + 600 : ℕ) : ℚ) = true := by
  have hfl : fl (600 : ℕ) = (600 : ℕ) := fl_natCast (by norm_num)
  apply decide_eq_true
  rw [Nat.cast_add, add_sub_cancel_left, hfl]
  exact le_rfl

theorem step_startRefresh {s : State} (hoffset : s.offset ≠ none)
    (hneeds : needsRefresh 600 s.lastRefreshAttempt s.now = true) (hflag : s.refreshing = false)
    (hlock : s.calibrating = none) : CleanStep 600 s .anow s.startRefresh := by
  rw [← State.anow_eq_startRefresh hoffset hneeds hflag epoch]
  exact ⟨.anow epoch hlock, trivial⟩

theorem run_startRefresh : Run (CleanStep 600) (initial 0) [.anow, .calibrated (.ok ⟨0, 0⟩), .tick, .anow]
    (calibratedAt 600).startRefresh := by
  have hneeds : needsRefresh 600 (some 0) 600 = true := by exact_mod_cast needsRefresh_600 0
  exact (run_calibratedAt (show (0 : ℚ) ≤ 600 by norm_num)).snoc
    (step_startRefresh (Option.some_ne_none _) hneeds rfl rfl)

/-- Calibrated and refreshed; the second refresh is closed in the middle of its reading. -/
theorem clock_safe_after_aclose :
    ∃ s, Run (CleanStep 600) (initial 0) [.anow, .calibrated (.ok ⟨0, 0⟩), .tick, .anow, .begun 0, .read 0 (.ok ⟨0, 600⟩),
      .stored 0, .cleared 0, .tick, .anow, .begun 1, .aclose 0, .read 1 (.error .cancelled), .cleared 1, .awaited 0,
      .closed 0] s ∧ ClockSafe 600 s ∧ s.starts = [600, 1200] ∧ s.refreshing = false ∧ s.closing 0 = none := by
  have hneeds : needsRefresh 600 (some 600) 1200 = true := by exact_mod_cast needsRefresh_600 600
  have hrun := run_startRefresh
  replace hrun := hrun.snoc ⟨.begun (i := 0) epoch rfl, trivial⟩
  replace hrun := hrun.snoc ⟨.read (i := 0) _ rfl (areadCalibration_epoch 600), trivial⟩
  replace hrun := hrun.snoc ⟨.stored (i := 0) rfl rfl, trivial⟩
  replace hrun := hrun.snoc ⟨.cleared (i := 0) rfl rfl, trivial⟩
  replace hrun := hrun.snoc ⟨.tick (show (600 : ℚ) ≤ 1200 by norm_num), trivial⟩
  replace hrun := hrun.snoc (step_startRefresh (Option.some_ne_none _) hneeds rfl rfl)
  replace hrun := hrun.snoc ⟨.begun (i := 1) epoch rfl, trivial⟩
  replace hrun := hrun.snoc ⟨.aclose (c := 0) rfl, trivial⟩
  replace hrun := hrun.snoc ⟨.read (i := 1) .cancelled rfl rfl, trivial⟩
  replace hrun := hrun.snoc ⟨.cleared (i := 1) rfl rfl, trivial⟩
  replace hrun := hrun.snoc ⟨.awaited (c := 0) rfl rfl, trivial⟩
  replace hrun := hrun.snoc ⟨.closed (c := 0) rfl rfl, fun _ _ h => by cases h⟩
  exact ⟨_, hrun, (clock_safe hrun).1, rfl, rfl, rfl⟩

/-- An `aclose` that is cancelled as it waits for its task resets the clock under it, and a second refresh is started;
one that is cancelled at the lock leaves the flag set for good. -/
theorem cancelled_aclose_unsafe :
    (∃ es s, Run (Step 600) (initial 0) es s ∧ (s.task 0).Alive ∧ (s.task 1).Alive) ∧
    ∃ es s, Run (Step 600) (initial 0) es s ∧ (∀ i, ¬(s.task i).Alive) ∧ (∀ c, s.closing c = none) ∧
      s.refreshing = true := by
  have hneeds : needsRefresh 600 (some 600) 1200 = true := by exact_mod_cast needsRefresh_600 600
  have hrun := run_startRefresh.mono fun _ _ _ h => h.1
  constructor
  · -- the reading takes its time to end, and the interval passes
    have hrun' := hrun.append (.cons (.begun (i := 0) epoch rfl) (.cons (.tick (show (600 : ℚ) ≤ 1200 by norm_num))
      (.cons (.aclose (c := 0) rfl) (.cons (.interrupted (c := 0) rfl) (.cons (.closed (c := 0) rfl rfl) (.nil _))))))
    refine ⟨_, _, hrun'.snoc (.anow epoch rfl), ?_⟩
    rw [State.anow_eq_startRefresh (Option.some_ne_none _) hneeds rfl epoch]
    exact ⟨Phase.noConfusion, Phase.noConfusion⟩
  · -- the task is cancelled before its first step, so that its `finally` does not run
    have hrun' := hrun.append (.cons (.aclose (c := 0) rfl) (.cons (.thrown (i := 0) rfl rfl)
      (.cons (.awaited (c := 0) rfl rfl) (.cons (.interrupted (c := 0) rfl) (.nil _)))))
    refine ⟨_, _, hrun', ?_, ?_, rfl⟩
    · intro i
      cases i <;> exact fun h => h rfl
    · intro c
      cases c <;> rfl

end Runs

/-! ## Calls that are not cancelled -/

section Uninterrupted

variable {refreshInterval now : ℚ} {s s' : State} {e : Event} {es : List Event}

/-- A call of `aclose` is at the lock only after its task has ended. -/
structure Settled (s : State) : Prop where
  task_lt : ∀ i, s.refreshTask = some i → i < s.starts.length
  closing_lt : ∀ c k, s.closing c = some k → k.task < s.starts.length
  ended : ∀ c k, s.closing c = some k → k.awaitsTask = false → (s.task k.task).phase = .done

theorem Settled.initial (now : ℚ) : Settled (initial now) where
  task_lt _ h := by cases h
  closing_lt _ _ h := by cases h
  ended _ _ h := by cases h

theorem Step.done {i : ℕ} (h : Step refreshInterval s e s') (hi : i < s.starts.length)
    (hdone : (s.task i).phase = .done) : (s'.task i).phase = .done := by
  obtain ⟨-, hle⟩ := h.rank_le hi
  rw [hdone] at hle
  cases hphase : (s'.task i).phase <;> rw [hphase] at hle <;> first | rfl | exact absurd hle (by simp [Phase.rank])

/-- What is new in a step, of the calls of `aclose` and of the reference to the task. -/
theorem Settled.of_new (hs : Settled s) (h : Step refreshInterval s e s')
    (hclosing : ∀ c k, s'.closing c = some k → s.closing c = some k ∨
      (k.task < s.starts.length ∧ (k.awaitsTask = false → (s.task k.task).phase = .done)))
    (htask : ∀ i, s'.refreshTask = some i → s.refreshTask = some i ∨ i < s'.starts.length) : Settled s' where
  task_lt i hi := by
    rcases htask i hi with hi' | hi'
    · exact (h.rank_le (hs.task_lt i hi')).1
    · exact hi'
  closing_lt c k hk := by
    rcases hclosing c k hk with hk' | ⟨hlt, -⟩
    · exact (h.rank_le (hs.closing_lt c k hk')).1
    · exact (h.rank_le hlt).1
  ended c k hk hlock := by
    rcases hclosing c k hk with hk' | ⟨hlt, hdone⟩
    · exact h.done (hs.closing_lt c k hk') (hs.ended c k hk' hlock)
    · exact h.done hlt (hdone hlock)

theorem Settled.step (hs : Settled s) (h : Step refreshInterval s e s') (hnot : ∀ c, e ≠ .interrupted c) :
    Settled s' := by
  apply hs.of_new h
  · intro c k hk
    -- only `aclose` and `awaited` write what a call waits for
    cases h with
    | anow localTime _ =>
      left
      unfold State.anow at hk
      split_ifs at hk <;> exact hk
    | @calibrated _ _ result _ _ => cases result <;> exact .inl hk
    | @aclose c' _ =>
      unfold State.aclose at hk
      split at hk
      · exact .inl hk
      · next i htask =>
        rw [State.closing_setClosing] at hk
        split_ifs at hk
        · cases hk
          exact .inr ⟨hs.task_lt i htask, fun hlock => by cases hlock⟩
        · exact .inl hk
    | @awaited c' i hcall hdone =>
      rw [State.closing_setClosing] at hk
      split_ifs at hk
      · cases hk
        exact .inr ⟨hs.closing_lt c' ⟨i, true⟩ hcall, fun _ => hdone⟩
      · exact .inl hk
    | @interrupted c' _ _ => exact absurd rfl (hnot c')
    | @closed c' i _ _ =>
      left
      rw [State.closeRefresh, State.closing_setClosing] at hk
      split_ifs at hk <;> exact hk
    | _ => exact .inl hk
  · intro i hi
    -- only a start sets the reference
    cases h with
    | anow localTime _ =>
      unfold State.anow at hi ⊢
      split_ifs at hi ⊢
      · exact .inl hi
      · cases hi
        right
        rw [State.startRefresh, List.length_append]
        exact Nat.lt_succ_self _
      · exact .inl hi
    | @calibrated _ _ result _ _ => cases result <;> exact .inl hi
    | cleared _ _ => cases hi
    | aclose _ =>
      left
      unfold State.aclose at hi
      split at hi <;> exact hi
    | closed _ _ =>
      left
      unfold State.closeRefresh at hi
      split_ifs at hi
      · cases hi
      · exact hi
    | _ => exact .inl hi

theorem Settled.cleanClose (hs : Settled s) (hnot : ∀ c, e ≠ .interrupted c)
    (h : Step refreshInterval s e s') : CleanClose s e := by
  cases h with
  | @interrupted c _ _ => exact absurd rfl (hnot c)
  | @closed c i _ hcall =>
    intro k hk _ halive
    rw [hcall] at hk
    cases hk
    exact halive (hs.ended c _ hcall rfl)
  | _ => exact trivial

theorem Settled.run (hs : Settled s) (h : Run (Step refreshInterval) s es s') (hnot : ∀ c, .interrupted c ∉ es) :
    Run (CleanStep refreshInterval) s es s' := by
  induction h with
  | nil s => exact .nil s
  | cons hstep _ ih =>
    have hhead (c : ℕ) := fun he => hnot c (List.mem_cons.mpr (.inl (Eq.symm he)))
    have htail (c : ℕ) := fun he => hnot c (List.mem_cons_of_mem _ he)
    exact .cons ⟨hstep, hs.cleanClose hhead hstep⟩ (ih (hs.step hstep hhead) htail)

/-- Without a cancelled `aclose` the clock is safe. -/
theorem clockSafe_of_uninterrupted (h : Run (Step refreshInterval) (initial now) es s)
    (hnot : ∀ c, .interrupted c ∉ es) : ClockSafe refreshInterval s := by
  obtain ⟨hcal, hguard⟩ := run_guarded ((Settled.initial now).run h hnot)
  exact hguard.clockSafe hcal

end Uninterrupted

end DjangoQueues.RedisQueueClock
