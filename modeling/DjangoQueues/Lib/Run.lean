import Mathlib.Tactic

/-! Finite runs of a labelled step relation and the invariant rule for them. -/

/-- `Run step s ls t`: the steps labelled `ls`, in order, lead from `s` to `t`. -/
inductive Run {σ ℓ : Type*} (step : σ → ℓ → σ → Prop) : σ → List ℓ → σ → Prop
  | nil (s : σ) : Run step s [] s
  | cons {s t u : σ} {l : ℓ} {ls : List ℓ} : step s l t → Run step t ls u → Run step s (l :: ls) u

namespace Run

variable {σ ℓ : Type*} {step : σ → ℓ → σ → Prop} {s t u : σ} {l : ℓ} {ls ls' : List ℓ}

theorem append (h : Run step s ls t) (h' : Run step t ls' u) : Run step s (ls ++ ls') u := by
  induction h with
  | nil _ => exact h'
  | cons hs _ ih => exact .cons hs (ih h')

theorem snoc (h : Run step s ls t) (h' : step t l u) : Run step s (ls ++ [l]) u :=
  h.append (.cons h' (.nil u))

theorem of_append (h : Run step s (ls ++ ls') u) : ∃ t, Run step s ls t ∧ Run step t ls' u := by
  induction ls generalizing s with
  | nil => exact ⟨s, .nil s, h⟩
  | cons l ls ih =>
    cases h with
    | cons hs hr =>
      obtain ⟨t, h₁, h₂⟩ := ih hr
      exact ⟨t, .cons hs h₁, h₂⟩

/-- An invariant of every step is an invariant of every run. -/
theorem invariant {I : σ → Prop} (hstep : ∀ s l t, I s → step s l t → I t)
    (h : Run step s ls t) (hs : I s) : I t := by
  induction h with
  | nil _ => exact hs
  | cons hst _ ih => exact ih (hstep _ _ _ hs hst)

/-- The same for runs whose labels all have a property. -/
theorem invariant_of_forall {I : σ → Prop} {P : ℓ → Prop} (hstep : ∀ s l t, P l → I s → step s l t → I t)
    (h : Run step s ls t) (hP : ∀ l ∈ ls, P l) (hs : I s) : I t := by
  induction h with
  | nil _ => exact hs
  | cons hst _ ih =>
    rw [List.forall_mem_cons] at hP
    exact ih hP.2 (hstep _ _ _ hP.1 hs hst)

theorem mono {step' : σ → ℓ → σ → Prop} (hle : ∀ s l t, step s l t → step' s l t)
    (h : Run step s ls t) : Run step' s ls t := by
  induction h with
  | nil s => exact .nil s
  | cons hst _ ih => exact .cons (hle _ _ _ hst) ih

/-- A simulation of every step, or a stutter where `f` keeps no label, is a simulation of every run. -/
theorem simulates {σ' ℓ' : Type*} {step' : σ' → ℓ' → σ' → Prop} {R : σ → σ' → Prop} {f : ℓ → Option ℓ'}
    (hstep : ∀ s l t a, R s a → step s l t → match f l with
      | none => R t a
      | some l' => ∃ b, step' a l' b ∧ R t b)
    (h : Run step s ls t) {a : σ'} (hR : R s a) : ∃ b, Run step' a (ls.filterMap f) b ∧ R t b := by
  induction h generalizing a with
  | nil _ => exact ⟨a, .nil a, hR⟩
  | @cons s t u l ls hst _ ih =>
    have hl := hstep s l t a hR hst
    rw [List.filterMap_cons]
    cases hf : f l with
    | none =>
      rw [hf] at hl
      exact ih hl
    | some l' =>
      rw [hf] at hl
      obtain ⟨b, hb, hRb⟩ := hl
      obtain ⟨c, hc, hRc⟩ := ih hRb
      exact ⟨c, .cons hb hc, hRc⟩

end Run
