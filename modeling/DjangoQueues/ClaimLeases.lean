import DjangoQueues.Lib.Fairness
import Mathlib.Data.Set.Insert

/-! The claim-lease protocol of `formal/tla/redis_claim_leases.tla`, over entries and workers
of any number. Its invariants were model-checked for two of each; here they are proved, and
with weak fairness of recovery the entry of a crashed worker comes back to pending. -/

namespace DjangoQueues.ClaimLeases

/-- `Terminal`. -/
inductive Outcome where
  | succeeded
  | failed
  | cancelled
  | timeout
deriving DecidableEq

/-- `Statuses`. -/
inductive Status where
  | absent
  | queued
  | running
  | terminal (outcome : Outcome)
deriving DecidableEq

/-- `vars`, with `none` for `NoOwner` and `Unsettled`. -/
structure State (Entry Worker : Type*) where
  lifecycle : Entry → Status
  pending : Set Entry
  owner : Entry → Option Worker
  expired : Set Entry
  crashed : Set Worker
  settledBy : Entry → Option Worker

inductive Action (Entry Worker : Type*) where
  | enqueue (entry : Entry)
  | claim (entry : Entry) (worker : Worker)
  | renew (entry : Entry) (worker : Worker)
  | markRunning (entry : Entry) (worker : Worker)
  | settle (entry : Entry) (worker : Worker) (outcome : Outcome)
  | crash (worker : Worker)
  | expire (entry : Entry)
  | recoverExpired (entry : Entry)

variable {Entry Worker : Type*}

/-- `Init`. -/
def init : State Entry Worker where
  lifecycle _ := .absent
  pending := ∅
  owner _ := none
  expired := ∅
  crashed := ∅
  settledBy _ := none

variable [DecidableEq Entry]

/-- `Next`, an action of the module by its guards and its updates. -/
inductive Next : State Entry Worker → Action Entry Worker → State Entry Worker → Prop
  | enqueue {s : State Entry Worker} {entry : Entry} (habsent : s.lifecycle entry = .absent) :
    Next s (.enqueue entry) { s with
      lifecycle := Function.update s.lifecycle entry .queued
      pending := insert entry s.pending }
  | claim {s : State Entry Worker} {entry : Entry} {worker : Worker} (hpending : entry ∈ s.pending)
      (hqueued : s.lifecycle entry = .queued) (hfree : s.owner entry = none) (halive : worker ∉ s.crashed) :
    Next s (.claim entry worker) { s with
      pending := s.pending \ {entry}
      owner := Function.update s.owner entry (some worker) }
  | renew {s : State Entry Worker} {entry : Entry} {worker : Worker} (howner : s.owner entry = some worker)
      (halive : worker ∉ s.crashed) (hexpired : entry ∈ s.expired) :
    Next s (.renew entry worker) { s with expired := s.expired \ {entry} }
  | markRunning {s : State Entry Worker} {entry : Entry} {worker : Worker}
      (hqueued : s.lifecycle entry = .queued) (howner : s.owner entry = some worker)
      (halive : worker ∉ s.crashed) :
    Next s (.markRunning entry worker) { s with lifecycle := Function.update s.lifecycle entry .running }
  | settle {s : State Entry Worker} {entry : Entry} {worker : Worker} {outcome : Outcome}
      (hrunning : s.lifecycle entry = .running) (howner : s.owner entry = some worker)
      (halive : worker ∉ s.crashed) :
    Next s (.settle entry worker outcome) { s with
      lifecycle := Function.update s.lifecycle entry (.terminal outcome)
      owner := Function.update s.owner entry none
      expired := s.expired \ {entry}
      settledBy := Function.update s.settledBy entry (some worker) }
  | crash {s : State Entry Worker} {worker : Worker} (halive : worker ∉ s.crashed) :
    Next s (.crash worker) { s with crashed := insert worker s.crashed }
  | expire {s : State Entry Worker} {entry : Entry} (hclaimed : s.owner entry ≠ none)
      (hlive : entry ∉ s.expired) :
    Next s (.expire entry) { s with expired := insert entry s.expired }
  | recoverExpired {s : State Entry Worker} {entry : Entry} (hexpired : entry ∈ s.expired)
      (hclaimed : s.owner entry ≠ none)
      (hstatus : s.lifecycle entry = .queued ∨ s.lifecycle entry = .running) :
    Next s (.recoverExpired entry) { s with
      lifecycle := Function.update s.lifecycle entry .queued
      pending := insert entry s.pending
      owner := Function.update s.owner entry none
      expired := s.expired \ {entry} }

/-! ## Invariants of the module -/

def PendingIsUnclaimedQueued (s : State Entry Worker) : Prop :=
  ∀ entry, entry ∈ s.pending ↔ s.lifecycle entry = .queued ∧ s.owner entry = none

def NonterminalIsVisibleOrClaimed (s : State Entry Worker) : Prop :=
  ∀ entry, s.lifecycle entry = .queued ∨ s.lifecycle entry = .running →
    entry ∈ s.pending ∨ s.owner entry ≠ none

def RunningHasOwner (s : State Entry Worker) : Prop :=
  ∀ entry, s.lifecycle entry = .running → s.owner entry ≠ none

def TerminalHasNoClaim (s : State Entry Worker) : Prop :=
  ∀ entry outcome, s.lifecycle entry = .terminal outcome →
    s.owner entry = none ∧ entry ∉ s.pending ∧ entry ∉ s.expired

def SettlementIsOwnedTerminal (s : State Entry Worker) : Prop :=
  ∀ entry, s.settledBy entry ≠ none → ∃ outcome, s.lifecycle entry = .terminal outcome

def RecoveredEntryIsUnsettled (s : State Entry Worker) : Prop :=
  ∀ entry, ¬(s.lifecycle entry = .queued ∧ s.settledBy entry ≠ none)

/-- Where one entry can be: the module's invariants follow from it. -/
inductive At (s : State Entry Worker) (entry : Entry) : Prop
  | absent (hl : s.lifecycle entry = .absent) (hp : entry ∉ s.pending) (ho : s.owner entry = none)
      (he : entry ∉ s.expired) (hs : s.settledBy entry = none)
  | pending (hl : s.lifecycle entry = .queued) (hp : entry ∈ s.pending) (ho : s.owner entry = none)
      (he : entry ∉ s.expired) (hs : s.settledBy entry = none)
  | claimed (hl : s.lifecycle entry = .queued ∨ s.lifecycle entry = .running) (hp : entry ∉ s.pending)
      (ho : s.owner entry ≠ none) (hs : s.settledBy entry = none)
  | terminal {outcome : Outcome} (hl : s.lifecycle entry = .terminal outcome) (hp : entry ∉ s.pending)
      (ho : s.owner entry = none) (he : entry ∉ s.expired)

def Located (s : State Entry Worker) : Prop := ∀ entry, At s entry

omit [DecidableEq Entry] in
theorem located_init : Located (init : State Entry Worker) := fun entry =>
  .absent rfl (Set.notMem_empty entry) rfl (Set.notMem_empty entry) rfl

omit [DecidableEq Entry] in
theorem At.congr {s s' : State Entry Worker} {entry : Entry} (h : At s entry)
    (hl : s'.lifecycle entry = s.lifecycle entry) (hp : entry ∈ s'.pending ↔ entry ∈ s.pending)
    (ho : s'.owner entry = s.owner entry) (he : entry ∈ s'.expired ↔ entry ∈ s.expired)
    (hs : s'.settledBy entry = s.settledBy entry) : At s' entry := by
  cases h with
  | absent h₁ h₂ h₃ h₄ h₅ =>
    exact .absent (hl.trans h₁) (fun h => h₂ (hp.mp h)) (ho.trans h₃) (fun h => h₄ (he.mp h)) (hs.trans h₅)
  | pending h₁ h₂ h₃ h₄ h₅ =>
    exact .pending (hl.trans h₁) (hp.mpr h₂) (ho.trans h₃) (fun h => h₄ (he.mp h)) (hs.trans h₅)
  | claimed h₁ h₂ h₃ h₄ =>
    exact .claimed (by rwa [hl]) (fun h => h₂ (hp.mp h)) (by rwa [ho]) (hs.trans h₄)
  | terminal h₁ h₂ h₃ h₄ => exact .terminal (hl.trans h₁) (fun h => h₂ (hp.mp h)) (ho.trans h₃) (fun h => h₄ (he.mp h))

theorem Located.step {s s' : State Entry Worker} {a : Action Entry Worker} (h : Located s) (hs : Next s a s') :
    Located s' := by
  intro x
  cases hs with
  | @enqueue entry habsent =>
    by_cases hx : x = entry
    · subst hx
      cases h x with
      | absent _ _ ho he hn => exact .pending (by simp) (by simp) ho he hn
      | pending hl => cases hl.symm.trans habsent
      | claimed hl => rcases hl with hl | hl <;> cases hl.symm.trans habsent
      | terminal hl => cases hl.symm.trans habsent
    · exact (h x).congr (by simp [hx]) (by simp [hx]) rfl Iff.rfl rfl
  | @claim entry worker hpending hqueued hfree halive =>
    by_cases hx : x = entry
    · subst hx
      cases h x with
      | absent hl => cases hl.symm.trans hqueued
      | pending _ _ _ _ hn => exact .claimed (.inl hqueued) (by simp) (by simp) hn
      | claimed _ hp => exact absurd hpending hp
      | terminal hl => cases hl.symm.trans hqueued
    · exact (h x).congr rfl (by simp [hx]) (by simp [hx]) Iff.rfl rfl
  | @renew entry worker howner halive hexpired =>
    by_cases hx : x = entry
    · subst hx
      cases h x with
      | absent _ _ _ he => exact absurd hexpired he
      | pending _ _ _ he => exact absurd hexpired he
      | claimed hl hp ho hn => exact .claimed hl hp ho hn
      | terminal _ _ _ he => exact absurd hexpired he
    · exact (h x).congr rfl Iff.rfl rfl (by simp [hx]) rfl
  | @markRunning entry worker hqueued howner halive =>
    by_cases hx : x = entry
    · subst hx
      cases h x with
      | absent hl => cases hl.symm.trans hqueued
      | pending _ _ ho => cases ho.symm.trans howner
      | claimed _ hp ho hn => exact .claimed (.inr (by simp)) hp ho hn
      | terminal hl => cases hl.symm.trans hqueued
    · exact (h x).congr (by simp [hx]) Iff.rfl rfl Iff.rfl rfl
  | @settle entry worker outcome hrunning howner halive =>
    by_cases hx : x = entry
    · subst hx
      cases h x with
      | absent hl => cases hl.symm.trans hrunning
      | pending hl => cases hl.symm.trans hrunning
      | claimed _ hp => exact .terminal (Function.update_self ..) hp (by simp) (by simp)
      | terminal hl => cases hl.symm.trans hrunning
    · exact (h x).congr (by simp [hx]) Iff.rfl (by simp [hx]) (by simp [hx]) (by simp [hx])
  | crash halive => exact (h x).congr rfl Iff.rfl rfl Iff.rfl rfl
  | @expire entry hclaimed hlive =>
    by_cases hx : x = entry
    · subst hx
      cases h x with
      | absent _ _ ho => exact absurd ho hclaimed
      | pending _ _ ho => exact absurd ho hclaimed
      | claimed hl hp ho hn => exact .claimed hl hp ho hn
      | terminal _ _ ho => exact absurd ho hclaimed
    · exact (h x).congr rfl Iff.rfl rfl (by simp [hx]) rfl
  | @recoverExpired entry hexpired hclaimed hstatus =>
    by_cases hx : x = entry
    · subst hx
      cases h x with
      | absent _ _ _ he => exact absurd hexpired he
      | pending _ _ _ he => exact absurd hexpired he
      | claimed _ _ _ hn => exact .pending (by simp) (by simp) (by simp) (by simp) hn
      | terminal _ _ _ he => exact absurd hexpired he
    · exact (h x).congr (by simp [hx]) (by simp [hx]) (by simp [hx]) (by simp [hx]) rfl

section Invariants

omit [DecidableEq Entry]

variable {s : State Entry Worker}

theorem Located.pendingIsUnclaimedQueued (h : Located s) : PendingIsUnclaimedQueued s := by
  intro entry
  cases h entry with
  | absent hl hp => simp [hl, hp]
  | pending hl hp ho => simp [hl, hp, ho]
  | claimed _ hp ho => simp [hp, ho]
  | terminal hl hp => simp [hl, hp]

theorem Located.nonterminalIsVisibleOrClaimed (h : Located s) : NonterminalIsVisibleOrClaimed s := by
  intro entry hl
  cases h entry with
  | absent hl' => simp [hl'] at hl
  | pending _ hp => exact .inl hp
  | claimed _ _ ho => exact .inr ho
  | terminal hl' => simp [hl'] at hl

theorem Located.runningHasOwner (h : Located s) : RunningHasOwner s := by
  intro entry hl
  cases h entry with
  | absent hl' => cases hl.symm.trans hl'
  | pending hl' => cases hl.symm.trans hl'
  | claimed _ _ ho => exact ho
  | terminal hl' => cases hl.symm.trans hl'

theorem Located.terminalHasNoClaim (h : Located s) : TerminalHasNoClaim s := by
  intro entry outcome hl
  cases h entry with
  | absent hl' => cases hl.symm.trans hl'
  | pending hl' => cases hl.symm.trans hl'
  | claimed hl' => rcases hl' with hl' | hl' <;> cases hl.symm.trans hl'
  | terminal _ hp ho he => exact ⟨ho, hp, he⟩

theorem Located.settlementIsOwnedTerminal (h : Located s) : SettlementIsOwnedTerminal s := by
  intro entry hs
  cases h entry with
  | absent _ _ _ _ hn => exact absurd hn hs
  | pending _ _ _ _ hn => exact absurd hn hs
  | claimed _ _ _ hn => exact absurd hn hs
  | terminal hl => exact ⟨_, hl⟩

theorem Located.recoveredEntryIsUnsettled (h : Located s) : RecoveredEntryIsUnsettled s := by
  rintro entry ⟨hl, hs⟩
  obtain ⟨outcome, hl'⟩ := h.settlementIsOwnedTerminal entry hs
  cases hl.symm.trans hl'

end Invariants

theorem located_run {as : List (Action Entry Worker)} {s : State Entry Worker} (hrun : Run Next init as s) :
    Located s := hrun.invariant (fun _ _ _ h hs => h.step hs) located_init

/-! ## Settlements -/

/-- The action settles the entry. -/
def Action.settles (entry : Entry) : Action Entry Worker → Bool
  | .settle x _ _ => x = entry
  | _ => false

/-- A settlement is counted by a terminal status, and no action leaves that status. -/
theorem countP_settles {as : List (Action Entry Worker)} {s t : State Entry Worker} (hrun : Run Next s as t)
    (entry : Entry) :
    (∀ outcome, s.lifecycle entry = .terminal outcome →
      as.countP (Action.settles entry) = 0 ∧ t.lifecycle entry = .terminal outcome) ∧
      as.countP (Action.settles entry) ≤ 1 := by
  induction hrun with
  | nil s => exact ⟨fun outcome h => ⟨rfl, h⟩, Nat.zero_le 1⟩
  | @cons s u t a as hs _ ih =>
    obtain ⟨ihterminal, ihcount⟩ := ih
    have hkeep : ∀ outcome, s.lifecycle entry = .terminal outcome →
        a.settles entry = false ∧ u.lifecycle entry = .terminal outcome := by
      intro outcome hl
      cases hs with
      | @enqueue x habsent =>
        have hne : entry ≠ x := by
          rintro rfl
          cases hl.symm.trans habsent
        exact ⟨rfl, by simpa [hne] using hl⟩
      | @markRunning x _ hqueued =>
        have hne : entry ≠ x := by
          rintro rfl
          cases hl.symm.trans hqueued
        exact ⟨rfl, by simpa [hne] using hl⟩
      | @settle x _ _ hrunning =>
        have hne : entry ≠ x := by
          rintro rfl
          cases hl.symm.trans hrunning
        exact ⟨by simpa [Action.settles] using hne.symm, by simpa [hne] using hl⟩
      | @recoverExpired x _ _ hstatus =>
        have hne : entry ≠ x := by
          rintro rfl
          rcases hstatus with h | h <;> cases hl.symm.trans h
        exact ⟨rfl, by simpa [hne] using hl⟩
      | _ => exact ⟨rfl, hl⟩
    rw [List.countP_cons]
    refine ⟨fun outcome hl => ?_, ?_⟩
    · obtain ⟨hno, hu⟩ := hkeep outcome hl
      obtain ⟨hzero, ht⟩ := ihterminal outcome hu
      exact ⟨by simp [hno, hzero], ht⟩
    · by_cases hsettles : a.settles entry
      · obtain ⟨outcome, hu⟩ : ∃ outcome, u.lifecycle entry = .terminal outcome := by
          cases hs with
          | @settle x w outcome => exact ⟨outcome, by simp_all [Action.settles]⟩
          | _ => cases hsettles
        rw [(ihterminal outcome hu).1, if_pos hsettles]
      · rw [if_neg hsettles]
        exact ihcount

/-- The invariants that were model-checked for two entries and two workers hold for any, and
no entry is settled twice. -/
theorem claim_leases_safe {as : List (Action Entry Worker)} {s : State Entry Worker} (hrun : Run Next init as s) :
    PendingIsUnclaimedQueued s ∧ NonterminalIsVisibleOrClaimed s ∧ RunningHasOwner s ∧ TerminalHasNoClaim s ∧
      SettlementIsOwnedTerminal s ∧ RecoveredEntryIsUnsettled s ∧
      ∀ entry, as.countP (Action.settles entry) ≤ 1 := by
  have h := located_run hrun
  exact ⟨h.pendingIsUnclaimedQueued, h.nonterminalIsVisibleOrClaimed, h.runningHasOwner, h.terminalHasNoClaim,
    h.settlementIsOwnedTerminal, h.recoveredEntryIsUnsettled, fun entry => (countP_settles hrun entry).2⟩

/-! ## Recovery of a crashed worker's entry -/

/-- A crashed worker owns the entry. -/
structure Abandoned (entry : Entry) (s : State Entry Worker) : Prop where
  located : Located s
  owned : ∃ worker ∈ s.crashed, s.owner entry = some worker

/-- Only recovery ends the ownership of a crashed worker. -/
theorem Abandoned.step {entry : Entry} {s t : State Entry Worker} {a : Action Entry Worker}
    (h : Abandoned entry s) (hs : Next s a t) :
    (Abandoned entry t ∧ (entry ∈ s.expired → entry ∈ t.expired)) ∨ entry ∈ t.pending := by
  have hlocated := h.located.step hs
  obtain ⟨worker, hcrashed, howner⟩ := h.owned
  have hnone : s.owner entry ≠ none := by simp [howner]
  have hstale : ∀ x w, s.owner x = some w → w ∉ s.crashed → entry ≠ x := by
    rintro x w hx halive rfl
    obtain rfl := Option.some.inj (howner.symm.trans hx)
    exact halive hcrashed
  cases hs with
  | enqueue => exact .inl ⟨⟨hlocated, worker, hcrashed, howner⟩, id⟩
  | @claim x _ _ _ hfree =>
    have hne : entry ≠ x := by
      rintro rfl
      exact hnone hfree
    exact .inl ⟨⟨hlocated, worker, hcrashed, by simpa [hne] using howner⟩, id⟩
  | renew hx halive =>
    have hne := hstale _ _ hx halive
    exact .inl ⟨⟨hlocated, worker, hcrashed, howner⟩, fun he => ⟨he, hne⟩⟩
  | markRunning => exact .inl ⟨⟨hlocated, worker, hcrashed, howner⟩, id⟩
  | settle _ hx halive =>
    have hne := hstale _ _ hx halive
    exact .inl ⟨⟨hlocated, worker, hcrashed, by simpa [hne] using howner⟩, fun he => ⟨he, hne⟩⟩
  | crash => exact .inl ⟨⟨hlocated, worker, Set.mem_insert_of_mem _ hcrashed, howner⟩, id⟩
  | expire => exact .inl ⟨⟨hlocated, worker, hcrashed, howner⟩, Set.mem_insert_of_mem _⟩
  | @recoverExpired x =>
    by_cases hx : entry = x
    · exact .inr (hx ▸ Set.mem_insert ..)
    · exact .inl ⟨⟨hlocated, worker, hcrashed, by simpa [hx] using howner⟩, fun he => ⟨he, hx⟩⟩

/-- `Spec`: the behaviours of the module. -/
abbrev Spec (Entry Worker : Type*) [DecidableEq Entry] :=
  Behaviour (Next : State Entry Worker → Action Entry Worker → State Entry Worker → Prop) init

theorem Abandoned.leadsTo_expired (b : Spec Entry Worker) {entry : Entry} (hexpire : b.WeaklyFair (.expire entry))
    {n : ℕ} (h : Abandoned entry (b.state n)) :
    ∃ m ≥ n, Abandoned entry (b.state m) ∧ entry ∈ (b.state m).expired ∨ entry ∈ (b.state m).pending := by
  by_cases hexpired : entry ∈ (b.state n).expired
  · exact ⟨n, le_rfl, .inl ⟨h, hexpired⟩⟩
  · refine b.leadsTo (P := fun s => Abandoned entry s ∧ entry ∉ s.expired)
      (Q := fun s => Abandoned entry s ∧ entry ∈ s.expired ∨ entry ∈ s.pending) hexpire ?_ ?_ ?_ n ⟨h, hexpired⟩
    · rintro s a t ⟨hs, -⟩ hstep
      rcases hs.step hstep with ⟨ht, -⟩ | ht
      · by_cases he : entry ∈ t.expired
        · exact .inr (.inl ⟨ht, he⟩)
        · exact .inl ⟨ht, he⟩
      · exact .inr (.inr ht)
    · rintro s ⟨hs, he⟩
      obtain ⟨worker, -, howner⟩ := hs.owned
      exact ⟨_, .expire (by simp [howner]) he⟩
    · rintro s t ⟨hs, -⟩ hstep
      rcases hs.step hstep with ⟨ht, -⟩ | ht
      · cases hstep
        exact .inl ⟨ht, Set.mem_insert ..⟩
      · exact .inr ht

theorem Abandoned.leadsTo_pending (b : Spec Entry Worker) {entry : Entry}
    (hrecover : b.WeaklyFair (.recoverExpired entry)) {n : ℕ} (h : Abandoned entry (b.state n))
    (hexpired : entry ∈ (b.state n).expired) : ∃ m ≥ n, entry ∈ (b.state m).pending := by
  refine b.leadsTo (P := fun s => Abandoned entry s ∧ entry ∈ s.expired) (Q := fun s => entry ∈ s.pending)
    hrecover ?_ ?_ ?_ n ⟨h, hexpired⟩
  · rintro s a t ⟨hs, he⟩ hstep
    rcases hs.step hstep with ⟨ht, hkeep⟩ | ht
    · exact .inl ⟨ht, hkeep he⟩
    · exact .inr ht
  · rintro s ⟨hs, he⟩
    obtain ⟨worker, -, howner⟩ := hs.owned
    have hclaimed : s.owner entry ≠ none := by simp [howner]
    cases hs.located entry with
    | absent _ _ ho => exact absurd ho hclaimed
    | pending _ _ ho => exact absurd ho hclaimed
    | claimed hl => exact ⟨_, .recoverExpired he hclaimed hl⟩
    | terminal _ _ ho => exact absurd ho hclaimed
  · rintro s t - hstep
    cases hstep
    exact Set.mem_insert ..

/-- While expiry and recovery of an entry stay fair, the entry of a crashed worker becomes
pending again. -/
theorem crashed_claim_redelivered (b : Spec Entry Worker) (entry : Entry) (hexpire : b.WeaklyFair (.expire entry))
    (hrecover : b.WeaklyFair (.recoverExpired entry)) (n : ℕ) {worker : Worker}
    (howner : (b.state n).owner entry = some worker) (hcrashed : worker ∈ (b.state n).crashed) :
    ∃ m ≥ n, entry ∈ (b.state m).pending ∧ (b.state m).lifecycle entry = .queued ∧
      (b.state m).owner entry = none := by
  have hlocated : ∀ m, Located (b.state m) := b.invariant (fun _ _ _ h hs => h.step hs) located_init
  have hpending : ∃ m ≥ n, entry ∈ (b.state m).pending := by
    obtain ⟨m, hm, ⟨h, he⟩ | h⟩ := Abandoned.leadsTo_expired b hexpire ⟨hlocated n, worker, hcrashed, howner⟩
    · obtain ⟨k, hk, hp⟩ := h.leadsTo_pending b hrecover he
      exact ⟨k, hk.le.trans' hm, hp⟩
    · exact ⟨m, hm, h⟩
  obtain ⟨m, hm, hp⟩ := hpending
  exact ⟨m, hm, hp, (hlocated m).pendingIsUnclaimedQueued entry |>.mp hp⟩

/-! Two workers with a claim each. The first crashes, and the second settles both entries. -/

def abandoned : List (Action Bool Bool) :=
  [.enqueue false, .enqueue true, .claim false false, .claim true true, .markRunning true true, .crash false]

def takenOver : List (Action Bool Bool) :=
  [.expire false, .settle true true .succeeded, .recoverExpired false, .claim false true, .markRunning false true,
    .settle false true .failed]

theorem abandoned_takenOver : ∃ s t : State Bool Bool, Run Next init abandoned s ∧ Run Next s takenOver t ∧
    (s.owner false = some false ∧ false ∈ s.crashed) ∧
    ∀ entry, t.owner entry = none ∧ t.settledBy entry = some true := by
  refine ⟨_, _, .cons (.enqueue rfl) <| .cons (.enqueue rfl) <| .cons (.claim ?_ rfl rfl ?_) <|
    .cons (.claim ?_ rfl rfl ?_) <| .cons (.markRunning rfl rfl ?_) <| .cons (.crash ?_) (.nil _),
    .cons (.expire ?_ ?_) <| .cons (.settle rfl rfl ?_) <| .cons (.recoverExpired ?_ ?_ (.inl rfl)) <|
    .cons (.claim ?_ rfl rfl ?_) <| .cons (.markRunning rfl rfl ?_) <| .cons (.settle rfl rfl ?_) (.nil _),
    ⟨rfl, ?_⟩, ?_⟩
  all_goals simp [init]

theorem claim_leases_safe_takenOver : ∃ s : State Bool Bool, Run Next init (abandoned ++ takenOver) s ∧
    SettlementIsOwnedTerminal s ∧ ∀ entry, s.settledBy entry = some true ∧
      (abandoned ++ takenOver).countP (Action.settles entry) ≤ 1 := by
  obtain ⟨_, s, hrun, hrun', -, hsettled⟩ := abandoned_takenOver
  obtain ⟨-, -, -, -, howned, -, honce⟩ := claim_leases_safe (hrun.append hrun')
  exact ⟨s, hrun.append hrun', howned, fun entry => ⟨(hsettled entry).2, honce entry⟩⟩

theorem crashed_claim_redelivered_takenOver : ∃ (b : Spec Bool Bool) (n : ℕ),
    ((b.state n).owner false = some false ∧ false ∈ (b.state n).crashed) ∧
    ∃ m ≥ n, false ∈ (b.state m).pending ∧ (b.state m).lifecycle false = .queued ∧
      (b.state m).owner false = none := by
  obtain ⟨s, t, hrun, hrun', ⟨howner, hcrashed⟩, hsettled⟩ := abandoned_takenOver
  obtain ⟨b', hend⟩ := hrun'.then_behaviour (.rest Next t)
  obtain ⟨b, hb⟩ := hrun.then_behaviour b'
  have hs : b.state abandoned.length = s := (hb 0).trans b'.start_eq
  have ht : ∀ n, b.state (abandoned.length + (takenOver.length + n)) = t := fun n => (hb _).trans (hend n)
  -- once both entries are settled neither action is possible
  have hdisabled : ∀ {l : Action Bool Bool}, (∀ u, ¬Next t l u) → b.WeaklyFair l := by
    intro l hno
    apply b.weaklyFair_of_impossible
    intro n
    exact ⟨abandoned.length + (takenOver.length + n), by omega, by rwa [ht]⟩
  have hexpire : b.WeaklyFair (.expire false) := hdisabled fun u hu => by
    cases hu with
    | expire hclaimed => exact hclaimed (hsettled false).1
  have hrecover : b.WeaklyFair (.recoverExpired false) := hdisabled fun u hu => by
    cases hu with
    | recoverExpired _ hclaimed => exact hclaimed (hsettled false).1
  rw [← hs] at howner hcrashed
  exact ⟨b, abandoned.length, ⟨howner, hcrashed⟩,
    crashed_claim_redelivered b false hexpire hrecover abandoned.length howner hcrashed⟩

end DjangoQueues.ClaimLeases
