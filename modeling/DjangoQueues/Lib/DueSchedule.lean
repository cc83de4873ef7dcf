import Mathlib.Order.Basic
import Mathlib.Tactic

/-! Schedules: items with an instant and a rank, of which only the live ones may be taken once
they are due. -/

structure DueSchedule (ι τ π : Type*) where
  instant : ι → Option τ
  live : ι → Prop
  rank : ι → π

namespace DueSchedule

variable {ι τ π : Type*} [LinearOrder τ] {S S' : DueSchedule ι τ π} {now x : τ} {i : ι}

/-- A live item whose instant has come. -/
structure Due (S : DueSchedule ι τ π) (now : τ) (i : ι) (x : τ) : Prop where
  instant : S.instant i = some x
  le : x ≤ now
  live : S.live i

/-- An item to take at `now`: the earliest of the live due ones and, when `ranked`, of the greatest
rank at its instant. -/
def Chosen [LE π] (S : DueSchedule ι τ π) (ranked : Bool) (now : τ) (i : ι) : Prop :=
  ∃ x, S.Due now i x ∧ (∀ j y, S.Due now j y → x ≤ y) ∧
    (ranked = true → ∀ j, S.Due now j x → S.rank j ≤ S.rank i)

/-- Taking `i` leaves the other live due items and what is not due. -/
structure Taken (S : DueSchedule ι τ π) (now : τ) (i : ι) (after : ι → Option τ) : Prop where
  gone : after i = none
  kept : ∀ j y, S.Due now j y → j ≠ i → after j = some y
  later : ∀ j y, S.instant j = some y → now < y → after j = some y

/-- The earliest instant that has come is that of a live item. -/
def HeadLive (S : DueSchedule ι τ π) (now : τ) : Prop :=
  ∃ i x, S.Due now i x ∧ ∀ j y, S.instant j = some y → y ≤ now → x ≤ y

theorem Chosen.congr [LE π] {ranked : Bool} (h : S.Chosen ranked now i) (hdue : ∀ j y, S'.Due now j y ↔ S.Due now j y)
    (hrank : S'.rank = S.rank) : S'.Chosen ranked now i := by
  obtain ⟨x, hi, hmin, hmax⟩ := h
  refine ⟨x, (hdue i x).mpr hi, fun j y hj => hmin j y ((hdue j y).mp hj), fun hr j hj => ?_⟩
  rw [hrank]
  exact hmax hr j ((hdue j x).mp hj)

theorem Taken.congr {after : ι → Option τ} (h : S.Taken now i after) (hdue : ∀ j y, S'.Due now j y → S.Due now j y)
    (hlater : ∀ j y, S'.instant j = some y → now < y → S.instant j = some y) : S'.Taken now i after :=
  ⟨h.gone, fun j y hj hne => h.kept j y (hdue j y hj) hne, fun j y hj hlt => h.later j y (hlater j y hj hlt) hlt⟩

end DueSchedule
