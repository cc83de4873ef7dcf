import DjangoQueues.Lib.Run

/-! Refinement up to stuttering: each step of one system is a finite run of another. -/

namespace Run

variable {σ ℓ σ' ℓ' : Type*} {step : σ → ℓ → σ → Prop} {step' : σ' → ℓ' → σ' → Prop}

/-- Where every step matches some labels of the other system, so does every run. -/
theorem refines {R : σ → σ' → Prop} {M : ℓ → List ℓ' → Prop}
    (hstep : ∀ s l t a, R s a → step s l t → ∃ as b, M l as ∧ Run step' a as b ∧ R t b)
    {s t : σ} {ls : List ℓ} (h : Run step s ls t) {a : σ'} (hR : R s a) :
    ∃ ass b, List.Forall₂ M ls ass ∧ Run step' a ass.flatten b ∧ R t b := by
  induction h generalizing a with
  | nil _ => exact ⟨[], a, .nil, .nil a, hR⟩
  | cons hst _ ih =>
    obtain ⟨as, b, hM, hrun, hRb⟩ := hstep _ _ _ a hR hst
    obtain ⟨ass, c, hMs, hruns, hRc⟩ := ih hRb
    exact ⟨as :: ass, c, .cons hM hMs, hrun.append hruns, hRc⟩

end Run
