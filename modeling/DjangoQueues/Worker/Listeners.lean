import DjangoQueues.Lib.Residues

/-! The event worker: the listeners of a queue are visited in rotation, and the first decisive answer settles the
event. Which listeners and filters run, and how each call ends, is given with the event; so is the end of each
settlement call. -/

namespace DjangoQueues.EventWorker

/-- How an awaited call of a filter or a listener ends. -/
inductive Invoked (α : Type) where
  | returned (value : α)
  /-- With an `Exception`. -/
  | raised
  /-- With `CancelledError`. -/
  | cancelled
  /-- With a `BaseException` that is neither, such as `SystemExit`. -/
  | exited
deriving DecidableEq

/-- `result is True`, `result is False`, or neither. -/
inductive Answer where
  | isTrue
  | isFalse
  | other
deriving DecidableEq

/-- What happens when a listener is visited. -/
structure Visit where
  /-- The truth of its filter's answer, if it has one. -/
  filter : Option (Invoked Bool)
  callback : Invoked Answer
  /-- The renewal task is done, and has not kept the lease, when the listener has returned. -/
  leaseLost : Bool

inductive Settlement where
  | release
  | remove
deriving DecidableEq

/-- How an awaited settlement call ends. -/
inductive Settling where
  | completed
  | raised
  | cancelled
deriving DecidableEq

/-- One delivery: the visit of each listener by its index, and the ends of the settlement calls in their order. -/
structure Event where
  visit : ℕ → Visit
  settling : ℕ → Settling

/-- How `_dispatch` ends. -/
inductive Ending where
  | returned
  | leaseLost
  | raised
  | cancelled
  | exited
deriving DecidableEq

/-- What `_dispatch` has done: the cursor it leaves, the listeners it has visited and the settlement calls it has
made. -/
structure Dispatched (ρ : Type) where
  cursor : ℤ
  visited : List (ℕ × ρ)
  settlements : List Settlement
  ending : Ending

/-! ## Dispatch -/

/-- What the body of the loop comes to. -/
inductive Outcome where
  | next
  | settle (c : Settlement)
  | leaseLost
  | cancelled
  | exited
deriving DecidableEq

/-- The listener itself is called and its answer read. -/
def Visit.answer (v : Visit) : Outcome :=
  match v.callback with
  | .raised => .settle .release
  | .cancelled => .cancelled
  | .exited => .exited
  | .returned a =>
    if v.leaseLost then .leaseLost
    else
      match a with
      | .isTrue => .settle .remove
      | .isFalse => .settle .remove
      | .other => .next

def Visit.outcome (v : Visit) : Outcome :=
  match v.filter with
  | some .raised => .settle .release
  | some .cancelled => .cancelled
  | some .exited => .exited
  | some (.returned false) => .next
  | some (.returned true) => v.answer
  | none => v.answer

/-- The handler of `CancelledError` has called `_release` and raises again. -/
def cancelledEnding : Settling → Ending
  | .completed => .cancelled
  | .raised => .raised
  | .cancelled => .cancelled

/-- A settlement call inside the `try`: when it is cancelled, the handler releases the event. -/
def Event.settle (E : Event) (c : Settlement) : List Settlement × Ending :=
  match E.settling 0 with
  | .completed => ([c], .returned)
  | .raised => ([c], .raised)
  | .cancelled => ([c, .release], cancelledEnding (E.settling 1))

section Dispatch

variable {ρ : Type}

/-- `_rotated`: the index beside each listener is counted on its own. -/
def rotated (cursor : ℤ) (registrations : List ρ) : List (ℕ × ρ) :=
  if registrations = [] then []
  else
    let start := ((cursor + 1) % (registrations.length : ℤ)).toNat
    (registrations.drop start ++ registrations.take start).zipIdx.map fun p =>
      ((start + p.2) % registrations.length, p.1)

/-- The loop of `_dispatch` over the rotated listeners. -/
def dispatchLoop (E : Event) : ℤ → List (ℕ × ρ) → Dispatched ρ
  | cursor, [] => ⟨cursor, [], (E.settle .release).1, (E.settle .release).2⟩
  | _, (index, registration) :: rest =>
    match (E.visit index).outcome with
    | .next =>
      let d := dispatchLoop E index rest
      { d with visited := (index, registration) :: d.visited }
    | .settle c => ⟨index, [(index, registration)], (E.settle c).1, (E.settle c).2⟩
    | .leaseLost => ⟨index, [(index, registration)], [], .leaseLost⟩
    | .cancelled => ⟨index, [(index, registration)], [.release], cancelledEnding (E.settling 0)⟩
    | .exited => ⟨index, [(index, registration)], [], .exited⟩

def dispatch (registrations : List ρ) (cursor : ℤ) (E : Event) : Dispatched ρ :=
  dispatchLoop E cursor (rotated cursor registrations)

/-- The deliveries of one worker, with its cursor. -/
def run (registrations : List ρ) : ℤ → List Event → List (Dispatched ρ)
  | _, [] => []
  | cursor, E :: events =>
    dispatch registrations cursor E :: run registrations (dispatch registrations cursor E).cursor events

theorem length_run (registrations : List ρ) (cursor : ℤ) (events : List Event) :
    (run registrations cursor events).length = events.length := by
  induction events generalizing cursor with
  | nil => rfl
  | cons E events ih => rw [run, List.length_cons, List.length_cons, ih]

end Dispatch

/-! ## Visits in rotation -/

section Rotation

variable {ρ : Type} {registrations : List ρ} {cursor : ℤ} {k : ℕ}

/-- The cursor of a worker that has made `k` visits. -/
def AtVisit (n : ℕ) (cursor : ℤ) (k : ℕ) : Prop := (cursor + 1) % (n : ℤ) = ((k % n : ℕ) : ℤ)

theorem atVisit_start (n : ℕ) : AtVisit n (-1) 0 := by simp [AtVisit]

theorem atVisit_index {n : ℕ} (k : ℕ) : AtVisit n ((k % n : ℕ) : ℤ) (k + 1) := by
  unfold AtVisit
  push_cast
  exact Int.emod_add_emod ..

theorem rotated_eq (h : AtVisit registrations.length cursor k) :
    rotated cursor registrations =
      (registrations.rotate k).zipIdx.map fun p => ((k + p.2) % registrations.length, p.1) := by
  unfold rotated
  split_ifs with hnil
  · subst hnil
    simp
  · have hpos : 0 < registrations.length := List.length_pos_iff.mpr hnil
    have hstart : ((cursor + 1) % (registrations.length : ℤ)).toNat = k % registrations.length := by
      rw [h, Int.toNat_natCast]
    have hrotate : registrations.drop (k % registrations.length) ++ registrations.take (k % registrations.length) =
        registrations.rotate k := by
      rw [← List.rotate_mod, List.rotate_eq_drop_append_take (Nat.mod_lt k hpos).le]
    rw [hstart]
    dsimp only
    rw [hrotate]
    apply List.map_congr_left
    intro p _
    rw [Nat.mod_add_mod]

theorem length_rotated (cursor : ℤ) (registrations : List ρ) :
    (rotated cursor registrations).length = registrations.length := by
  unfold rotated
  split_ifs with hnil
  · simp [hnil]
  · rw [List.length_map, List.length_zipIdx, List.length_append, List.length_drop, List.length_take]
    omega

theorem map_fst_rotated (h : AtVisit registrations.length cursor k) :
    (rotated cursor registrations).map Prod.fst = residues registrations.length k registrations.length := by
  rw [rotated_eq h]
  apply List.ext_getElem
  · simp
  · intro j hj hj'
    simp [residues]

/-- The index is the listener's own. -/
theorem getElem?_of_mem_rotated (h : AtVisit registrations.length cursor k) {p : ℕ × ρ}
    (hp : p ∈ rotated cursor registrations) : registrations[p.1]? = some p.2 := by
  rw [rotated_eq h] at hp
  obtain ⟨⟨r, j⟩, hj, rfl⟩ := List.mem_map.mp hp
  have hget : (registrations.rotate k)[j]? = some r := List.mem_zipIdx_iff_getElem?.mp hj
  obtain ⟨hlt, hr⟩ := List.getElem?_eq_some_iff.mp hget
  have hlen : j < registrations.length := by simpa using hlt
  rw [List.getElem_rotate] at hr
  rw [Nat.add_comm k j]
  exact List.getElem?_eq_some_iff.mpr ⟨_, hr⟩

/-- The loop visits a first part of the listeners, at least one of them if there is one, and leaves its cursor at the
last. -/
theorem dispatchLoop_visited (E : Event) (cursor : ℤ) (l : List (ℕ × ρ)) :
    ∃ m ≤ l.length, (dispatchLoop E cursor l).visited = l.take m ∧
      (dispatchLoop E cursor l).cursor = ((l.take m).getLast?.map fun p => (p.1 : ℤ)).getD cursor := by
  induction l generalizing cursor with
  | nil => exact ⟨0, le_rfl, rfl, rfl⟩
  | cons p l ih =>
    obtain ⟨index, registration⟩ := p
    have hone : 1 ≤ ((index, registration) :: l).length := Nat.le_add_left ..
    rw [dispatchLoop]
    cases (E.visit index).outcome with
    | next =>
      obtain ⟨m, hm, hvisited, hcursor⟩ := ih index
      refine ⟨m + 1, Nat.succ_le_succ hm, ?_, ?_⟩
      · show _ :: (dispatchLoop E index l).visited = _
        rw [hvisited, List.take_succ_cons]
      · show (dispatchLoop E index l).cursor = _
        rw [hcursor, List.take_succ_cons, List.getLast?_cons]
        cases (List.take m l).getLast? <;> rfl
    | settle c => exact ⟨1, hone, rfl, rfl⟩
    | leaseLost => exact ⟨1, hone, rfl, rfl⟩
    | cancelled => exact ⟨1, hone, rfl, rfl⟩
    | exited => exact ⟨1, hone, rfl, rfl⟩

theorem dispatch_visited (h : AtVisit registrations.length cursor k) (E : Event) :
    ∃ m ≤ registrations.length,
      (dispatch registrations cursor E).visited.map Prod.fst = residues registrations.length k m ∧
      (∀ p ∈ (dispatch registrations cursor E).visited, registrations[p.1]? = some p.2) ∧
      AtVisit registrations.length (dispatch registrations cursor E).cursor (k + m) := by
  obtain ⟨m, hm, hvisited, hcursor⟩ := dispatchLoop_visited E cursor (rotated cursor registrations)
  rw [length_rotated] at hm
  have hindices : ((rotated cursor registrations).take m).map Prod.fst = residues registrations.length k m := by
    obtain ⟨d, hd⟩ := Nat.exists_eq_add_of_le hm
    rw [List.map_take, map_fst_rotated h, hd, ← residues_append, ← hd, List.take_left' (length_residues ..)]
  refine ⟨m, hm, ?_, fun p hp => ?_, ?_⟩
  · show (dispatchLoop E cursor _).visited.map Prod.fst = _
    rw [hvisited, hindices]
  · change p ∈ (dispatchLoop E cursor _).visited at hp
    rw [hvisited] at hp
    exact getElem?_of_mem_rotated h (List.mem_of_mem_take hp)
  · show AtVisit _ (dispatchLoop E cursor _).cursor _
    have hlast : ((rotated cursor registrations).take m).getLast?.map (fun p => (p.1 : ℤ)) =
        (residues registrations.length k m).getLast?.map (fun i : ℕ => (i : ℤ)) := by
      rw [← hindices, List.getLast?_map, Option.map_map]
      rfl
    rw [hcursor, hlast]
    cases m with
    | zero => exact h
    | succ m =>
      have hsingle : residues registrations.length (k + m) 1 = [(k + m) % registrations.length] := by simp [residues]
      rw [← residues_append, hsingle, List.getLast?_append, List.getLast?_singleton]
      exact atVisit_index (k + m)

/-- By induction on the deliveries: each starts where the one before it ended. -/
theorem run_visited (h : AtVisit registrations.length cursor k) (events : List Event) :
    (((run registrations cursor events).flatMap Dispatched.visited).map Prod.fst =
      residues registrations.length k ((run registrations cursor events).flatMap Dispatched.visited).length) ∧
    (∀ p ∈ (run registrations cursor events).flatMap Dispatched.visited, registrations[p.1]? = some p.2) ∧
    ∀ d ∈ run registrations cursor events, (d.visited.map Prod.fst).Nodup := by
  induction events generalizing cursor k with
  | nil => exact ⟨rfl, (fun p hp => by cases hp), (fun d hd => by cases hd)⟩
  | cons E events ih =>
    obtain ⟨m, hm, hindices, hown, hnext⟩ := dispatch_visited h E
    obtain ⟨hrest, hownRest, hnodup⟩ := ih hnext
    have hlen : (dispatch registrations cursor E).visited.length = m := by
      rw [← List.length_map Prod.fst, hindices, length_residues]
    rw [run, List.flatMap_cons]
    refine ⟨?_, fun p hp => ?_, fun d hd => ?_⟩
    · rw [List.map_append, hindices, hrest, residues_append, List.length_append, hlen]
    · rcases List.mem_append.mp hp with hp | hp
      · exact hown p hp
      · exact hownRest p hp
    · rcases List.mem_cons.mp hd with rfl | hd
      · rw [hindices]
        exact nodup_residues k hm
      · exact hnodup d hd

end Rotation

/-! ## Settlements -/

namespace Visit

/-- The listener is called. -/
def Eligible (v : Visit) : Prop := v.filter = none ∨ v.filter = some (.returned true)

/-- It returns exactly `True` or `False`. -/
def Decides (v : Visit) : Prop := v.Eligible ∧ (v.callback = .returned .isTrue ∨ v.callback = .returned .isFalse)

/-- Its filter or itself raises or is cancelled. -/
def Fails (v : Visit) : Prop :=
  v.filter = some .raised ∨ v.filter = some .cancelled ∨
    v.Eligible ∧ (v.callback = .raised ∨ v.callback = .cancelled)

/-- Its filter misses, or it returns something else. -/
def Passes (v : Visit) : Prop := v.filter = some (.returned false) ∨ v.Eligible ∧ v.callback = .returned .other

/-- A `BaseException` that is neither an `Exception` nor a cancellation comes from its filter or from itself. -/
def Exits (v : Visit) : Prop := v.filter = some .exited ∨ v.Eligible ∧ v.callback = .exited

/-- What each outcome of a visit means. -/
inductive Meaning (v : Visit) : Outcome → Prop
  | next (h : v.Passes) : Meaning v .next
  | release (h : v.Fails) : Meaning v (.settle .release)
  | remove (h : v.Decides) : Meaning v (.settle .remove)
  | leaseLost : Meaning v .leaseLost
  | cancelled (h : v.Fails) : Meaning v .cancelled
  | exited (h : v.Exits) : Meaning v .exited

theorem answer_meaning {v : Visit} (h : v.Eligible) : v.Meaning v.answer := by
  unfold answer
  split
  · rename_i hc
    exact .release (.inr (.inr ⟨h, .inl hc⟩))
  · rename_i hc
    exact .cancelled (.inr (.inr ⟨h, .inr hc⟩))
  · rename_i hc
    exact .exited (.inr ⟨h, hc⟩)
  · rename_i a hc
    split_ifs
    · exact .leaseLost
    · cases a with
      | isTrue => exact .remove ⟨h, .inl hc⟩
      | isFalse => exact .remove ⟨h, .inr hc⟩
      | other => exact .next (.inr ⟨h, hc⟩)

theorem outcome_meaning (v : Visit) : v.Meaning v.outcome := by
  unfold outcome
  split
  · rename_i hf
    exact .release (.inl hf)
  · rename_i hf
    exact .cancelled (.inr (.inl hf))
  · rename_i hf
    exact .exited (.inl hf)
  · rename_i hf
    exact .next (.inl hf)
  · rename_i hf
    exact answer_meaning (.inr hf)
  · rename_i hf
    exact answer_meaning (.inl hf)

end Visit

/-- Exactly one settlement call, by the first decisive answer among `n` listeners. -/
inductive Settles {ρ : Type} (n : ℕ) (E : Event) (d : Dispatched ρ) : Prop
  | removed (passed : List (ℕ × ρ)) (last : ℕ × ρ) (hvisited : d.visited = passed ++ [last])
      (hpassed : ∀ p ∈ passed, (E.visit p.1).Passes) (hlast : (E.visit last.1).Decides)
      (hsettled : d.settlements = [.remove])
  | released (passed : List (ℕ × ρ)) (last : ℕ × ρ) (hvisited : d.visited = passed ++ [last])
      (hpassed : ∀ p ∈ passed, (E.visit p.1).Passes) (hlast : (E.visit last.1).Fails)
      (hsettled : d.settlements = [.release])
  | passed (hall : d.visited.length = n) (hpassed : ∀ p ∈ d.visited, (E.visit p.1).Passes)
      (hsettled : d.settlements = [.release])

section Settlements

variable {ρ : Type} {E : Event}

theorem settle_eq (h : E.settling 0 ≠ .cancelled) (c : Settlement) : (E.settle c).1 = [c] := by
  unfold Event.settle
  split
  · rfl
  · rfl
  · rename_i hc
    exact absurd hc h

theorem Settles.cons {n : ℕ} {d : Dispatched ρ} {p : ℕ × ρ} (hp : (E.visit p.1).Passes) (h : Settles n E d) :
    Settles (n + 1) E { d with visited := p :: d.visited } := by
  have hpassed' {l : List (ℕ × ρ)} (hl : ∀ q ∈ l, (E.visit q.1).Passes) : ∀ q ∈ p :: l, (E.visit q.1).Passes := by
    intro q hq
    rcases List.mem_cons.mp hq with rfl | hq
    · exact hp
    · exact hl q hq
  cases h with
  | removed passed last hvisited hpassed hlast hsettled =>
    exact .removed (p :: passed) last (congrArg (p :: ·) hvisited) (hpassed' hpassed) hlast hsettled
  | released passed last hvisited hpassed hlast hsettled =>
    exact .released (p :: passed) last (congrArg (p :: ·) hvisited) (hpassed' hpassed) hlast hsettled
  | passed hall hpassed hsettled => exact .passed (congrArg (· + 1) hall) (hpassed' hpassed) hsettled

/-- By induction on the listeners that are left. -/
theorem settles_dispatchLoop (hE : E.settling 0 ≠ .cancelled) (l : List (ℕ × ρ)) (cursor : ℤ)
    (hexit : ∀ p ∈ l, ¬(E.visit p.1).Exits) (hlost : (dispatchLoop E cursor l).ending ≠ .leaseLost) :
    Settles l.length E (dispatchLoop E cursor l) := by
  induction l generalizing cursor with
  | nil => exact .passed rfl (fun p hp => by cases hp) (settle_eq hE .release)
  | cons p l ih =>
    obtain ⟨index, registration⟩ := p
    have hnone : ∀ q ∈ ([] : List (ℕ × ρ)), (E.visit q.1).Passes := fun q hq => by cases hq
    rw [dispatchLoop] at hlost ⊢
    have hmeaning := (E.visit index).outcome_meaning
    generalize (E.visit index).outcome = o at hlost hmeaning
    cases hmeaning with
    | next h =>
      exact Settles.cons (p := (index, registration)) h
        (ih index (fun q hq => hexit q (List.mem_cons_of_mem _ hq)) hlost)
    | release h => exact .released [] (index, registration) rfl hnone h (settle_eq hE .release)
    | remove h => exact .removed [] (index, registration) rfl hnone h (settle_eq hE .remove)
    | leaseLost => exact absurd rfl hlost
    | cancelled h => exact .released [] (index, registration) rfl hnone h rfl
    | exited h => exact absurd h (hexit (index, registration) (List.mem_cons_self ..))

theorem lt_of_mem_rotated {registrations : List ρ} {cursor : ℤ} {p : ℕ × ρ}
    (hp : p ∈ rotated cursor registrations) : p.1 < registrations.length := by
  unfold rotated at hp
  split_ifs at hp with hnil
  · cases hp
  · obtain ⟨q, -, rfl⟩ := List.mem_map.mp hp
    exact Nat.mod_lt _ (List.length_pos_iff.mpr hnil)

theorem settles_run (registrations : List ρ) (cursor : ℤ) (events : List Event) :
    ∀ p ∈ events.zip (run registrations cursor events), p.1.settling 0 ≠ .cancelled →
      (∀ i < registrations.length, ¬(p.1.visit i).Exits) → p.2.ending ≠ .leaseLost →
      Settles registrations.length p.1 p.2 := by
  induction events generalizing cursor with
  | nil => exact fun p hp => by cases hp
  | cons E events ih =>
    intro p hp hE hexit hlost
    rw [run, List.zip_cons_cons] at hp
    rcases List.mem_cons.mp hp with rfl | hp
    · rw [← length_rotated cursor registrations]
      exact settles_dispatchLoop hE _ cursor (fun q hq => hexit q.1 (lt_of_mem_rotated hq)) hlost
    · exact ih _ p hp hE hexit hlost

end Settlements

/-- Over any deliveries the listeners are visited one after the other, round after round, and no delivery visits one
twice. Unless its lease is found lost, a delivery is settled once, by the first decisive answer, where no `SystemExit`
or the like comes from a listener and the settlement call itself is not cancelled. -/
theorem listeners_in_rotation {ρ : Type} (registrations : List ρ) (events : List Event) :
    (((run registrations (-1) events).flatMap Dispatched.visited).map Prod.fst =
      (List.range ((run registrations (-1) events).flatMap Dispatched.visited).length).map (· % registrations.length)) ∧
    (∀ p ∈ (run registrations (-1) events).flatMap Dispatched.visited, registrations[p.1]? = some p.2) ∧
    (∀ i < registrations.length, ∀ j < registrations.length,
      (((run registrations (-1) events).flatMap Dispatched.visited).map Prod.fst).count i ≤
        (((run registrations (-1) events).flatMap Dispatched.visited).map Prod.fst).count j + 1) ∧
    (∀ d ∈ run registrations (-1) events, (d.visited.map Prod.fst).Nodup) ∧
    (run registrations (-1) events).length = events.length ∧
    ∀ p ∈ events.zip (run registrations (-1) events), p.1.settling 0 ≠ .cancelled →
      (∀ i < registrations.length, ¬(p.1.visit i).Exits) → p.2.ending ≠ .leaseLost →
      Settles registrations.length p.1 p.2 := by
  obtain ⟨hindices, hown, hnodup⟩ := run_visited (atVisit_start registrations.length) events
  refine ⟨?_, hown, fun i hi j hj => ?_, hnodup, length_run registrations (-1) events,
    settles_run registrations (-1) events⟩
  · rw [hindices]
    simp [residues]
  · rw [hindices]
    exact count_residues_le _ hi hj

/-- One listener, whose call ends as given. -/
def onlyListener (callback : Invoked Answer) (settling : Settling) : Event where
  visit _ := ⟨none, callback, false⟩
  settling _ := settling

/-- A listener that raises `SystemExit` leaves its event unsettled; a removal that is cancelled is followed by a
release. In neither case has a lease been found lost. -/
theorem settlements_missed :
    ((run [()] (-1) [onlyListener .exited .completed]).map fun d => (d.settlements, d.ending)) = [([], .exited)] ∧
    ((run [()] (-1) [onlyListener (.returned .isTrue) .cancelled]).map fun d => (d.settlements, d.ending)) =
      [([.remove, .release], .cancelled)] := by
  decide

end DjangoQueues.EventWorker
