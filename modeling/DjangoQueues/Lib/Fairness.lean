import DjangoQueues.Lib.Run

/-! Infinite behaviours of a labelled step relation, in which every step may also be a
stutter, and what weak fairness of one label brings about. -/

variable {σ ℓ : Type*}

/-- The state at each instant and the label of the step that follows, `none` for a stutter. -/
structure Behaviour (step : σ → ℓ → σ → Prop) (start : σ) where
  state : ℕ → σ
  label : ℕ → Option ℓ
  start_eq : state 0 = start
  stutter : ∀ n, label n = none → state (n + 1) = state n
  steps : ∀ n l, label n = some l → step (state n) l (state (n + 1))

namespace Behaviour

variable {step : σ → ℓ → σ → Prop} {start : σ} (b : Behaviour step start)

/-- The label does not stay possible for ever without being taken. -/
def WeaklyFair (l : ℓ) : Prop :=
  ∀ n, (∀ m ≥ n, ∃ t, step (b.state m) l t) → ∃ m ≥ n, b.label m = some l

/-- Every state of a behaviour is reached by a run. -/
theorem exists_run (n : ℕ) : ∃ ls, Run step start ls (b.state n) := by
  induction n with
  | zero =>
    rw [b.start_eq]
    exact ⟨[], .nil _⟩
  | succ n ih =>
    obtain ⟨ls, hrun⟩ := ih
    cases hl : b.label n with
    | none =>
      rw [b.stutter n hl]
      exact ⟨ls, hrun⟩
    | some l => exact ⟨ls ++ [l], hrun.snoc (b.steps n l hl)⟩

/-- A behaviour in which the label is impossible again and again is fair to it. -/
theorem weaklyFair_of_impossible {l : ℓ} (h : ∀ n, ∃ m ≥ n, ∀ t, ¬step (b.state m) l t) : b.WeaklyFair l := by
  intro n hpossible
  obtain ⟨m, hm, hno⟩ := h n
  obtain ⟨t, ht⟩ := hpossible m hm
  exact absurd ht (hno t)

theorem invariant {I : σ → Prop} (hstep : ∀ s l t, I s → step s l t → I t) (hstart : I start) (n : ℕ) :
    I (b.state n) := by
  obtain ⟨_, hrun⟩ := b.exists_run n
  exact hrun.invariant hstep hstart

/-- Where `P` persists until `Q`, makes the label possible and the label then brings `Q`,
weak fairness of the label leads from `P` to `Q`. -/
theorem leadsTo {P Q : σ → Prop} {l : ℓ} (hfair : b.WeaklyFair l)
    (hpersist : ∀ s l' t, P s → step s l' t → P t ∨ Q t) (henabled : ∀ s, P s → ∃ t, step s l t)
    (hprogress : ∀ s t, P s → step s l t → Q t) (n : ℕ) (hn : P (b.state n)) : ∃ m ≥ n, Q (b.state m) := by
  by_contra hnever
  push Not at hnever
  have hP : ∀ k, P (b.state (n + k)) := by
    intro k
    induction k with
    | zero => exact hn
    | succ k ih =>
      rw [← Nat.add_assoc]
      cases hl : b.label (n + k) with
      | none =>
        rw [b.stutter _ hl]
        exact ih
      | some l' =>
        rcases hpersist _ l' _ ih (b.steps _ l' hl) with h | h
        · exact h
        · exact absurd h (hnever _ (by omega))
  have hPge : ∀ m ≥ n, P (b.state m) := fun m hm => by
    obtain ⟨k, rfl⟩ := Nat.exists_eq_add_of_le hm
    exact hP k
  obtain ⟨m, hm, hl⟩ := hfair n fun m hm => henabled _ (hPge m hm)
  exact hnever (m + 1) (by omega) (hprogress _ _ (hPge m hm) (b.steps m l hl))

/-- Nothing happens. -/
def rest (step : σ → ℓ → σ → Prop) (s : σ) : Behaviour step s where
  state _ := s
  label _ := none
  start_eq := rfl
  stutter _ _ := rfl
  steps := by
    intro n l h
    cases h

/-- A step in front of a behaviour. -/
def cons {s t : σ} {l : ℓ} (h : step s l t) (b : Behaviour step t) : Behaviour step s where
  state n := n.casesOn s b.state
  label n := n.casesOn (some l) b.label
  start_eq := rfl
  stutter n hn := by
    cases n with
    | zero => cases hn
    | succ n => exact b.stutter n hn
  steps n l' hl := by
    cases n with
    | zero =>
      cases hl
      change step s l (b.state 0)
      rwa [b.start_eq]
    | succ n => exact b.steps n l' hl

end Behaviour

/-- A run and the behaviour that goes on from its end. -/
theorem Run.then_behaviour {step : σ → ℓ → σ → Prop} {s t : σ} {ls : List ℓ} (h : Run step s ls t)
    (b : Behaviour step t) : ∃ b' : Behaviour step s, ∀ n, b'.state (ls.length + n) = b.state n := by
  induction h with
  | nil s => exact ⟨b, fun n => by rw [List.length_nil, Nat.zero_add]⟩
  | @cons s t u l ls hst _ ih =>
    obtain ⟨b', hb'⟩ := ih b
    refine ⟨b'.cons hst, fun n => ?_⟩
    rw [List.length_cons, Nat.succ_add]
    exact hb' n
