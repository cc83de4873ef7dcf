import DjangoQueues.Redis.Provider

/-! What each library function leaves alone, and the shape of what it changes: the
promotion and delivery that precede a claim only move ids between waiting places, a
claim takes one id, and recovery works on one id at a time. -/

namespace DjangoQueues.Redis

/-! ## Waiting places -/

/-- One if the id is a member, else zero. -/
def mult (z : SortedSet EntryId) (e : EntryId) : ℕ := if (z.score? e).isSome then 1 else 0

@[simp]
theorem mult_add (z : SortedSet EntryId) (id e : EntryId) (x : ℚ) :
    mult (z.add id x) e = if e = id then 1 else mult z e := by
  unfold mult
  rw [SortedSet.score?_add]
  split_ifs <;> simp_all

@[simp]
theorem mult_rem (z : SortedSet EntryId) (id e : EntryId) :
    mult (z.rem id) e = if e = id then 0 else mult z e := by
  unfold mult
  rw [SortedSet.score?_rem]
  split_ifs <;> simp_all

theorem mult_eq_zero {z : SortedSet EntryId} {e : EntryId} : mult z e = 0 ↔ z.score? e = none := by
  unfold mult
  cases z.score? e <;> simp

theorem mult_eq_one {z : SortedSet EntryId} {e : EntryId} {x : ℚ} (h : z.score? e = some x) :
    mult z e = 1 := by
  simp [mult, h]

/-- How often an id occurs in the pending list and the scheduled, delayed and priority sets. -/
def Store.places (s : Store) (e : EntryId) : ℕ :=
  s.pending.count e + mult s.scheduled e + mult s.delayed e + mult s.priority e

/-- Only the waiting places and the sequence counter differ. -/
structure SameData (s s' : Store) : Prop where
  records : s'.records = s.records
  claims : s'.claims = s.claims
  leases : s'.leases = s.leases
  unclaimed : s'.unclaimed = s.unclaimed

namespace SameData

variable {s s' s'' : Store}

theorem refl (s : Store) : SameData s s := ⟨rfl, rfl, rfl, rfl⟩

theorem trans (h : SameData s s') (h' : SameData s' s'') : SameData s s'' :=
  ⟨h'.records.trans h.records, h'.claims.trans h.claims, h'.leases.trans h.leases,
    h'.unclaimed.trans h.unclaimed⟩

theorem owner (h : SameData s s') (e : EntryId) : s'.owner? e = s.owner? e := by
  unfold Store.owner?
  rw [h.claims]

end SameData

namespace Library

variable {s : Store} {id e : EntryId} {now : ℚ}

theorem pushPriority_sameData (base : ℚ) (id : EntryId) (s : Store) :
    SameData s (pushPriority base id s) := ⟨rfl, rfl, rfl, rfl⟩

theorem resetSequence_eq (s : Store) :
    resetSequence s = { s with sequence := (resetSequence s).sequence } := by
  unfold resetSequence
  split_ifs <;> rfl

theorem resetSequence_sameData (s : Store) : SameData s (resetSequence s) := by
  rw [resetSequence_eq]
  exact ⟨rfl, rfl, rfl, rfl⟩

@[simp]
theorem places_resetSequence (s : Store) (e : EntryId) : (resetSequence s).places e = s.places e := by
  rw [resetSequence_eq]
  rfl

theorem places_pushPriority (base : ℚ) (id e : EntryId) (h : s.priority.score? id = none) :
    (pushPriority base id s).places e = s.places e + if e = id then 1 else 0 := by
  simp only [pushPriority, Store.places, mult_add]
  split_ifs with he
  · rw [he, mult_eq_zero.mpr h]
  · rfl

theorem restoreUnclaimed_eq (c : Option Lua) (id : EntryId) (now : ℚ) (s : Store) :
    restoreUnclaimed c id now s = { s with unclaimed := (restoreUnclaimed c id now s).unclaimed } := by
  unfold restoreUnclaimed
  split <;> rfl

/-! ## Promotion and delivery -/

theorem promoteFirstQueued_sameData (ids : List EntryId) (s : Store) :
    SameData s (promoteFirstQueued ids s) := by
  induction ids generalizing s with
  | nil => exact .refl s
  | cons id ids ih =>
    unfold promoteFirstQueued
    split_ifs
    · exact ⟨rfl, rfl, rfl, rfl⟩
    · refine SameData.trans ?_ (ih _)
      exact ⟨rfl, rfl, rfl, rfl⟩

theorem promoteOneScheduled_sameData (now : ℚ) (s : Store) :
    SameData s (promoteOneScheduled now s) := by
  unfold promoteOneScheduled
  split
  · exact .refl s
  · exact promoteFirstQueued_sameData _ s

/-- The selection loop writes the schedule alone. -/
theorem selectScheduled_frame (ids : List EntryId) (s : Store) (sel : Option (EntryId × ℚ)) :
    (selectScheduled ids sel s).2 = { s with scheduled := (selectScheduled ids sel s).2.scheduled } := by
  induction ids generalizing s sel with
  | nil => rfl
  | cons id ids ih =>
    unfold selectScheduled
    dsimp only
    split_ifs
    · split
      · exact ih s _
      · split_ifs <;> exact ih s _
    · exact ih (s := { s with scheduled := s.scheduled.rem id }) sel

theorem selectScheduled_sameData (ids : List EntryId) (sel : Option (EntryId × ℚ)) (s : Store) :
    SameData s (selectScheduled ids sel s).2 := by
  rw [selectScheduled_frame]
  exact ⟨rfl, rfl, rfl, rfl⟩

theorem promoteOneScheduledPriority_sameData (space now : ℚ) (s : Store) :
    SameData s (promoteOneScheduledPriority space now s) := by
  unfold promoteOneScheduledPriority
  split
  · exact .refl s
  · next score _ _ =>
    have h := selectScheduled_sameData (s.scheduled.withScore score) none s
    split
    · next heq => rwa [heq] at h
    · next heq =>
      rw [heq] at h
      exact h.trans ⟨rfl, rfl, rfl, rfl⟩

theorem deliverDelayed_sameData (left : Bool) (ids : List EntryId) (s : Store) :
    SameData s (deliverDelayed left ids s) := by
  induction ids generalizing s with
  | nil => exact .refl s
  | cons id ids ih =>
    refine SameData.trans ?_ (ih _)
    exact ⟨rfl, rfl, rfl, rfl⟩

theorem deliverDueDelayed_sameData (left : Bool) (now : ℚ) (s : Store) :
    SameData s (deliverDueDelayed left now s) := deliverDelayed_sameData _ _ s

theorem deliverDelayed_eq (left : Bool) (ids : List EntryId) (s : Store) :
    ∃ l z, deliverDelayed left ids s = { s with pending := l, delayed := z } := by
  induction ids generalizing s with
  | nil => exact ⟨s.pending, s.delayed, rfl⟩
  | cons id ids ih =>
    obtain ⟨l, z, h⟩ := ih { s with
      pending := if left then id :: s.pending else s.pending ++ [id]
      delayed := s.delayed.rem id }
    exact ⟨l, z, h⟩

/-- The ids scheduled for the earliest instant, if it has come. -/
def dueGroup (now : ℚ) (s : Store) : List EntryId :=
  match (s.scheduled.upTo now).head? with
  | none => []
  | some (score, _) => s.scheduled.withScore score

theorem promoteOneScheduled_eq (now : ℚ) (s : Store) :
    promoteOneScheduled now s = promoteFirstQueued (dueGroup now s) s := by
  unfold promoteOneScheduled dueGroup
  cases (s.scheduled.upTo now).head? <;> rfl

theorem isSome_of_mem_dueGroup (h : e ∈ dueGroup now s) : (s.scheduled.score? e).isSome := by
  unfold dueGroup at h
  split at h
  · cases h
  · rw [SortedSet.mem_withScore.mp h]
    rfl

theorem nodup_dueGroup (now : ℚ) (s : Store) : (dueGroup now s).Nodup := by
  unfold dueGroup
  split
  · exact List.nodup_nil
  · exact s.scheduled.nodup_withScore _

/-- The ids that a promotion into the pending list looks at before the one it promotes. -/
def passedBefore (s : Store) (ids : List EntryId) : List EntryId :=
  ids.takeWhile fun id => statusText (s.records.get? id) ≠ some "queued"

/-- A promotion that reads another status than `queued` off the record of a scheduled id drops the id. -/
def Dropped (ids : List EntryId) (s s' : Store) (e : EntryId) : Prop :=
  e ∈ ids ∧ statusText (s.records.get? e) ≠ some "queued" ∧ s'.places e + 1 = s.places e

theorem places_rem_scheduled (h : (s.scheduled.score? id).isSome) (e : EntryId) :
    ({ s with scheduled := s.scheduled.rem id } : Store).places e + (if e = id then 1 else 0) = s.places e := by
  obtain ⟨x, hx⟩ := Option.isSome_iff_exists.mp h
  have hs : mult s.scheduled id = 1 := mult_eq_one hx
  simp only [Store.places, mult_rem]
  split_ifs with he
  · rw [he, hs]
    omega
  · rfl

theorem places_promoteFirstQueued {ids : List EntryId} (hn : ids.Nodup)
    (hids : ∀ e ∈ ids, (s.scheduled.score? e).isSome) (e : EntryId) :
    (promoteFirstQueued ids s).places e = s.places e ∨
      Dropped (passedBefore s ids) s (promoteFirstQueued ids s) e := by
  induction ids generalizing s with
  | nil => exact .inl rfl
  | cons id ids ih =>
    rw [List.nodup_cons] at hn
    have hid := hids id (List.mem_cons_self ..)
    have hrem := places_rem_scheduled hid e
    rw [promoteFirstQueued]
    split_ifs with hq
    · left
      rw [← hrem]
      by_cases he : e = id
      · simp [Store.places, he]
        omega
      · have hne : id ≠ e := fun h => he h.symm
        simp [Store.places, he, hne]
    · have hpassed : passedBefore s (id :: ids) = id :: passedBefore s ids :=
        List.takeWhile_cons_of_pos (by simpa using hq)
      have hrest : ∀ e ∈ ids, (({ s with scheduled := s.scheduled.rem id } : Store).scheduled.score? e).isSome :=
        fun e he => by
          have hne : e ≠ id := fun h => hn.1 (h ▸ he)
          simpa [hne] using hids e (List.mem_cons_of_mem _ he)
      rw [hpassed]
      by_cases he : e = id
      · right
        subst he
        rcases ih hn.2 hrest with h | h
        · exact ⟨List.mem_cons_self .., hq, by rw [h]; simpa using hrem⟩
        · exact absurd ((List.takeWhile_sublist _).mem h.1) hn.1
      · rw [if_neg he] at hrem
        rcases ih hn.2 hrest with h | ⟨hmem, hst, hp⟩
        · exact .inl (h.trans hrem)
        · exact .inr ⟨List.mem_cons_of_mem _ hmem, hst, hp.trans hrem⟩

theorem places_promoteOneScheduled (now : ℚ) (e : EntryId) :
    (promoteOneScheduled now s).places e = s.places e ∨
      Dropped (passedBefore s (dueGroup now s)) s (promoteOneScheduled now s) e := by
  rw [promoteOneScheduled_eq]
  exact places_promoteFirstQueued (nodup_dueGroup now s) (fun _ => isSome_of_mem_dueGroup) e

/-- The selection loop keeps the ids that are queued. -/
theorem selectScheduled_keeps {ids : List EntryId} (sel : Option (EntryId × ℚ))
    (hq : statusText (s.records.get? e) = some "queued") :
    (selectScheduled ids sel s).2.scheduled.score? e = s.scheduled.score? e := by
  induction ids generalizing s sel with
  | nil => rfl
  | cons id ids ih =>
    unfold selectScheduled
    dsimp only
    split_ifs with hid
    · split
      · exact ih _ hq
      · split_ifs <;> exact ih _ hq
    · have hne : e ≠ id := fun h => hid (h ▸ hq)
      rw [ih (s := { s with scheduled := s.scheduled.rem id }) sel hq]
      simp [hne]

/-- It selects one of these, if any. -/
theorem selectScheduled_mem {ids : List EntryId} (sel : Option (EntryId × ℚ)) :
    ∀ p ∈ (selectScheduled ids sel s).1, p ∈ sel ∨ p.1 ∈ ids ∧ statusText (s.records.get? p.1) = some "queued" := by
  induction ids generalizing s sel with
  | nil => exact fun p hp => .inl hp
  | cons id ids ih =>
    intro p
    have hlift {m : Store} (hm : m.records = s.records) {sel' : Option (EntryId × ℚ)}
        (hsel' : p ∈ sel' → p ∈ sel ∨ p.1 = id ∧ statusText (s.records.get? id) = some "queued")
        (hp : p ∈ (selectScheduled ids sel' m).1) :
        p ∈ sel ∨ p.1 ∈ id :: ids ∧ statusText (s.records.get? p.1) = some "queued" := by
      rcases ih sel' p hp with h | ⟨hmem, hq⟩
      · exact (hsel' h).imp_right fun ⟨heq, hq⟩ => ⟨heq ▸ List.mem_cons_self .., heq ▸ hq⟩
      · exact .inr ⟨List.mem_cons_of_mem _ hmem, hm ▸ hq⟩
    unfold selectScheduled
    dsimp only
    split_ifs with hid
    · have hnew (priority : ℚ) : p ∈ some (id, priority) →
          p ∈ sel ∨ p.1 = id ∧ statusText (s.records.get? id) = some "queued" :=
        fun hp => .inr ⟨by rw [← Option.some.inj hp], hid⟩
      split
      · exact hlift rfl (hnew _)
      · split_ifs
        · exact hlift rfl (hnew _)
        · exact hlift rfl .inl
    · exact hlift (m := { s with scheduled := s.scheduled.rem id }) rfl .inl

theorem places_selectScheduled {ids : List EntryId} (sel : Option (EntryId × ℚ)) (hn : ids.Nodup)
    (hids : ∀ e ∈ ids, (s.scheduled.score? e).isSome) (e : EntryId) :
    (selectScheduled ids sel s).2.places e = s.places e ∨ Dropped ids s (selectScheduled ids sel s).2 e := by
  induction ids generalizing s sel with
  | nil => exact .inl rfl
  | cons id ids ih =>
    rw [List.nodup_cons] at hn
    have hkeep (sel' : Option (EntryId × ℚ)) : (selectScheduled ids sel' s).2.places e = s.places e ∨
        Dropped (id :: ids) s (selectScheduled ids sel' s).2 e :=
      (ih sel' hn.2 fun e he => hids e (List.mem_cons_of_mem _ he)).imp_right
        fun ⟨hmem, hst, hp⟩ => ⟨List.mem_cons_of_mem _ hmem, hst, hp⟩
    unfold selectScheduled
    dsimp only
    split_ifs with hq
    · split
      · exact hkeep _
      · split_ifs <;> exact hkeep _
    · have hrem := places_rem_scheduled (hids id (List.mem_cons_self ..)) e
      have hrest : ∀ e ∈ ids, (({ s with scheduled := s.scheduled.rem id } : Store).scheduled.score? e).isSome :=
        fun e he => by
          have hne : e ≠ id := fun h => hn.1 (h ▸ he)
          simpa [hne] using hids e (List.mem_cons_of_mem _ he)
      by_cases he : e = id
      · subst he
        rcases ih (s := { s with scheduled := s.scheduled.rem e }) sel hn.2 hrest with h | h
        · exact .inr ⟨List.mem_cons_self .., hq, by rw [h]; simpa using hrem⟩
        · exact absurd h.1 hn.1
      · rw [if_neg he] at hrem
        rcases ih (s := { s with scheduled := s.scheduled.rem id }) sel hn.2 hrest with h | ⟨hmem, hst, hp⟩
        · exact .inl (h.trans hrem)
        · exact .inr ⟨List.mem_cons_of_mem _ hmem, hst, hp.trans hrem⟩

theorem promoteOneScheduledPriority_eq (space now : ℚ) (s : Store) :
    promoteOneScheduledPriority space now s = ((selectScheduled (dueGroup now s) none s).1.elim
      (selectScheduled (dueGroup now s) none s).2 fun p =>
        { pushPriority (fl (p.2 * space)) p.1 (selectScheduled (dueGroup now s) none s).2 with
          scheduled := (selectScheduled (dueGroup now s) none s).2.scheduled.rem p.1 }) := by
  unfold promoteOneScheduledPriority dueGroup
  cases (s.scheduled.upTo now).head? with
  | none => rfl
  | some p =>
    dsimp only
    generalize selectScheduled (s.scheduled.withScore p.1) none s = r
    obtain ⟨sel, m⟩ := r
    cases sel <;> rfl

theorem places_promoteOneScheduledPriority (space now : ℚ)
    (hd : ∀ e x, s.scheduled.score? e = some x → s.priority.score? e = none) (e : EntryId) :
    (promoteOneScheduledPriority space now s).places e = s.places e ∨
      Dropped (dueGroup now s) s (promoteOneScheduledPriority space now s) e := by
  have hplaces := places_selectScheduled none (nodup_dueGroup now s) (fun _ => isSome_of_mem_dueGroup) e
  have hpriority : (selectScheduled (dueGroup now s) none s).2.priority = s.priority := by
    rw [selectScheduled_frame]
  have hselected : ∀ p ∈ (selectScheduled (dueGroup now s) none s).1, p.1 ∈ dueGroup now s ∧
      (selectScheduled (dueGroup now s) none s).2.scheduled.score? p.1 = s.scheduled.score? p.1 := fun p hp => by
    obtain ⟨hmem, hq⟩ := (selectScheduled_mem none p hp).resolve_left (by simp)
    exact ⟨hmem, selectScheduled_keeps none hq⟩
  rw [promoteOneScheduledPriority_eq]
  generalize selectScheduled (dueGroup now s) none s = r at hplaces hpriority hselected ⊢
  obtain ⟨sel, m⟩ := r
  cases sel with
  | none => exact hplaces
  | some p =>
    -- the selected id leaves the schedule for the priority set
    obtain ⟨hmem, hscore⟩ := hselected p rfl
    obtain ⟨x, hx⟩ := Option.isSome_iff_exists.mp (isSome_of_mem_dueGroup hmem)
    have hmove : ({ pushPriority (fl (p.2 * space)) p.1 m with scheduled := m.scheduled.rem p.1 } : Store).places e =
        m.places e := by
      have hp : mult m.priority p.1 = 0 := by
        rw [show m.priority = s.priority from hpriority]
        exact mult_eq_zero.mpr (hd p.1 x hx)
      have hs : mult m.scheduled p.1 = 1 := mult_eq_one (hscore.trans hx)
      simp only [Store.places, pushPriority, mult_add, mult_rem]
      split_ifs with he
      · rw [he, hp, hs]
        omega
      · rfl
    unfold Dropped
    simp only [Option.elim_some, hmove]
    exact hplaces

theorem places_deliverDelayed (left : Bool) {ids : List EntryId} (hn : ids.Nodup)
    (hids : ∀ e ∈ ids, (s.delayed.score? e).isSome) (e : EntryId) :
    (deliverDelayed left ids s).places e = s.places e := by
  induction ids generalizing s with
  | nil => rfl
  | cons id ids ih =>
    obtain ⟨x, hx⟩ := Option.isSome_iff_exists.mp (hids id (List.mem_cons_self ..))
    have hd := mult_eq_one hx
    rw [List.nodup_cons] at hn
    rw [deliverDelayed, ih hn.2]
    · by_cases he : e = id
      · subst he
        cases left <;> simp [Store.places, hd] <;> omega
      · have hne : id ≠ e := fun h => he h.symm
        cases left <;> simp [Store.places, he, hne]
    · intro e' he'
      have hne : e' ≠ id := fun h => hn.1 (h ▸ he')
      simpa [hne] using hids e' (List.mem_cons_of_mem _ he')

theorem places_deliverDueDelayed (left : Bool) (now : ℚ) (e : EntryId) :
    (deliverDueDelayed left now s).places e = s.places e := by
  refine places_deliverDelayed left (s.delayed.nodup_upTo now) (fun e he => ?_) e
  obtain ⟨⟨x, m⟩, hp, rfl⟩ := List.mem_map.mp he
  rw [(SortedSet.mem_upTo.mp hp).1]
  rfl

/-! ## Claims -/

/-- Popping leaves everything but one occurrence of the popped id. -/
structure Taken (m : Store) (id : EntryId) (p : Store) : Prop extends SameData m p where
  places : ∀ e, m.places e = p.places e + if e = id then 1 else 0

theorem popPending_none {stack : Bool} {m p : Store} (h : popPending stack m = (none, p)) :
    p = m ∧ m.pending = [] := by
  unfold popPending at h
  split_ifs at h
  · obtain ⟨h₁, rfl⟩ := Prod.mk.inj h
    have hnil := List.getLast?_eq_none_iff.mp h₁
    rw [hnil]
    exact ⟨by cases m; simp_all, rfl⟩
  · obtain ⟨h₁, rfl⟩ := Prod.mk.inj h
    have hnil := List.head?_eq_none_iff.mp h₁
    rw [hnil]
    exact ⟨by cases m; simp_all, rfl⟩

theorem popPending_some {stack : Bool} {m p : Store} (h : popPending stack m = (some id, p)) :
    p = { m with pending := p.pending } ∧
      m.pending = if stack then p.pending ++ [id] else id :: p.pending := by
  unfold popPending at h
  split_ifs at h with hs
  · obtain ⟨h₁, rfl⟩ := Prod.mk.inj h
    refine ⟨rfl, ?_⟩
    rw [if_pos hs]
    exact (List.dropLast_append_getLast? id h₁).symm
  · obtain ⟨h₁, rfl⟩ := Prod.mk.inj h
    refine ⟨rfl, ?_⟩
    rw [if_neg hs]
    exact (List.cons_head?_tail h₁).symm

theorem popPending_taken {stack : Bool} {m p : Store} (h : popPending stack m = (some id, p)) :
    Taken m id p := by
  obtain ⟨hp, hl⟩ := popPending_some h
  rw [hp]
  refine { records := rfl, claims := rfl, leases := rfl, unclaimed := rfl, places := fun e => ?_ }
  simp only [Store.places, hl]
  by_cases he : e = id
  · subst he
    rw [if_pos rfl]
    cases stack <;> simp [List.count_append] <;> omega
  · have hne : id ≠ e := fun h => he h.symm
    cases stack <;> simp [he, hne]

theorem top?_taken {m : Store} {score : ℚ} (h : m.priority.top? = some (score, id)) :
    Taken m id { m with priority := m.priority.rem id } := by
  have hm := mult_eq_one (SortedSet.top?_eq_some h).1
  refine { records := rfl, claims := rfl, leases := rfl, unclaimed := rfl, places := fun e => ?_ }
  simp only [Store.places, mult_rem]
  split_ifs with he
  · rw [he, hm]
  · rfl

/-- What the two claim functions do after their common part: at most the sequence counter
changes, and a conflict puts the id back. -/
structure Aftermath (id : EntryId) (p : Store) (expired claimed conflict : Store → Store) : Prop where
  expired_eq : ∀ s, ∃ q, expired s = { s with sequence := q }
  claimed_eq : ∀ s, ∃ q, claimed s = { s with sequence := q }
  conflict_same : ∀ s, SameData s (conflict s)
  conflict_places : ∀ s e, s.priority = p.priority →
    (conflict s).places e = s.places e + if e = id then 1 else 0

theorem unpopPending_aftermath (stack : Bool) (id : EntryId) (p : Store) :
    Aftermath id p (fun s => s) (fun s => s) (unpopPending stack id) where
  expired_eq s := ⟨s.sequence, rfl⟩
  claimed_eq s := ⟨s.sequence, rfl⟩
  conflict_same s := ⟨rfl, rfl, rfl, rfl⟩
  conflict_places s e _ := by
    simp only [unpopPending, Store.places]
    by_cases he : e = id
    · subst he
      cases stack <;> simp <;> omega
    · have hne : id ≠ e := fun h => he h.symm
      cases stack <;> simp [he, hne]

theorem restorePriority_aftermath {id : EntryId} {p : Store} (score : ℚ) (hp : p.priority.score? id = none) :
    Aftermath id p resetSequence resetSequence
      (fun s => { s with priority := s.priority.add id score }) where
  expired_eq s := ⟨_, resetSequence_eq s⟩
  claimed_eq s := ⟨_, resetSequence_eq s⟩
  conflict_same s := ⟨rfl, rfl, rfl, rfl⟩
  conflict_places s e hs := by
    simp only [Store.places, mult_add]
    split_ifs with he
    · rw [he, hs, mult_eq_zero.mpr hp]
    · rfl

theorem fl_add_lease {t : ServerTime} {lease : ℕ} (h : t.totalMicroseconds + lease < 2 ^ 53) :
    fl (t.nowUs + fl lease) = ((t.totalMicroseconds + lease : ℕ) : ℚ) := by
  rw [t.nowUs_eq, fl_natCast (by omega), ← Nat.cast_add, fl_natCast h]

/-- The deadline of the lease is no overflow, so that `cjson.encode` writes it. -/
def LeaseFits (t : ServerTime) (lease : ℕ) : Prop := |fl (t.nowUs + fl lease)| < 2 ^ 1024

theorem leaseFits_of_lt {t : ServerTime} {lease : ℕ} (h : t.totalMicroseconds + lease < 2 ^ 53) :
    LeaseFits t lease := by
  rw [LeaseFits, fl_add_lease h, Nat.abs_cast]
  exact lt_overflow (by exact_mod_cast h)

theorem exists_encode_claimTable (w : WorkerId) {t : ServerTime} {lease : ℕ} (h : LeaseFits t lease) :
    ∃ raw, Cjson.encode (claimTable w t (fl (t.nowUs + fl lease)) none) = some raw := by
  have hs := t.seconds_lt
  have hu := t.microseconds_lt
  have hd := Double.encode_ofRat (q := fl (t.nowUs + fl lease)) (by rwa [fl_fl])
  simp only [claimTable, Cjson.encode, Cjson.encodeFields,
    Double.encode_ofRat_natCast (by omega : t.seconds < 2 ^ 53),
    Double.encode_ofRat_natCast (by omega : t.microseconds < 2 ^ 53), hd, Option.bind_some, Option.map_some]
  exact ⟨_, rfl⟩

theorem accepts_claimTable (w : WorkerId) (t : ServerTime) (d : ℚ) (r : Option ℚ) :
    Cjson.Accepts (claimTable w t d r) := by
  have hnest : (claimTable w t d r).nesting ≤ 2 := by cases r <;> exact Nat.le_refl _
  exact ⟨hnest.trans (by norm_num), by cases r <;> rfl⟩

theorem decode_claimTable {w : WorkerId} {t : ServerTime} {d : ℚ} {r : Option ℚ} {raw : Json}
    (h : Cjson.encode (claimTable w t d r) = some raw) : Cjson.decode raw = some (Cjson.table raw) :=
  Cjson.decode_encode (accepts_claimTable w t d r) h

/-- The claim record names this worker. -/
def NamesOwner (raw : Json) (w : WorkerId) : Prop := (Cjson.decode raw).bind workerField = some w

theorem namesOwner_claimTable {w : WorkerId} {t : ServerTime} {d : ℚ} {r : Option ℚ} {raw : Json}
    (h : Cjson.encode (claimTable w t d r) = some raw) : NamesOwner raw w := by
  rw [NamesOwner, decode_claimTable h, Option.bind_some, workerField, Cjson.field?_table_encode h]
  rfl

theorem owner?_of_get? {s : Store} {raw : Json} (h : s.claims.get? id = some raw) {w : WorkerId} :
    s.owner? id = some w ↔ NamesOwner raw w := by
  rw [Store.owner?, h]
  rfl

/-- The lifetime a claim takes over and the store it is taken from: nothing with the expire
flag off, else what is left until the unclaimed deadline. -/
inductive Remaining (t : ServerTime) (id : EntryId) (p : Store) : Bool → Option ℚ → Store → Prop
  | off : Remaining t id p false none p
  | left {d : ℚ} (hd : p.unclaimed.score? id = some d) (hlt : t.nowUs < d) :
    Remaining t id p true (some (fl (d - t.nowUs))) { p with unclaimed := p.unclaimed.rem id }

/-- What the common part of the two claim functions can do. -/
inductive ClaimCase (w : WorkerId) (lease : ℕ) (x : Bool) (t : ServerTime) (id : EntryId)
    (f g h : Store → Store) (p : Store) : Except ScriptError ClaimOutcome × Store → Prop
  | expired (hx : x = true) (hd : ∀ d, p.unclaimed.score? id = some d → d ≤ t.nowUs) :
    ClaimCase w lease x t id f g h p (.ok (.expired id), f { p with
      records := p.records.erase id
      delayed := p.delayed.rem id
      leases := p.leases.rem id
      unclaimed := p.unclaimed.rem id })
  | error {r : Option ℚ} {q : Store} (hq : Remaining t id p x r q)
      (he : Cjson.encode (claimTable w t (fl (t.nowUs + fl lease)) r) = none) :
    ClaimCase w lease x t id f g h p (.error .cannotSerialise, q)
  | claimed {r : Option ℚ} {q : Store} {raw : Json} (hq : Remaining t id p x r q)
      (he : Cjson.encode (claimTable w t (fl (t.nowUs + fl lease)) r) = some raw)
      (hc : q.claims.get? id = none) :
    ClaimCase w lease x t id f g h p (.ok (.claimed id), g { q with
      claims := q.claims.set id raw, leases := q.leases.add id (fl (t.nowUs + fl lease)) })
  | conflict {r : Option ℚ} {q : Store} {raw : Json} (hq : Remaining t id p x r q)
      (he : Cjson.encode (claimTable w t (fl (t.nowUs + fl lease)) r) = some raw)
      (hc : (q.claims.get? id).isSome) :
    ClaimCase w lease x t id f g h p (.ok (.conflict id), h q)

theorem claimPopped_case (w : WorkerId) (lease : ℕ) (x : Bool) (t : ServerTime) (id : EntryId)
    (f g h : Store → Store) (p : Store) :
    ClaimCase w lease x t id f g h p (claimPopped w lease x t id f g h p) := by
  have htake {r : Option ℚ} {q : Store} (hq : Remaining t id p x r q) : ClaimCase w lease x t id f g h p
      (claimPopped.take w lease t id g h r q) := by
    unfold claimPopped.take
    extract_lets deadline
    cases he : Cjson.encode (claimTable w t deadline r) with
    | none => exact .error hq he
    | some raw =>
      dsimp only
      split_ifs with hc
      · exact .claimed hq he (Option.isNone_iff_eq_none.mp hc)
      · exact .conflict hq he (Option.isSome_iff_ne_none.mpr fun h => hc (by rw [h]; rfl))
  unfold claimPopped
  cases x with
  | false => exact htake .off
  | true =>
    rw [if_pos rfl]
    cases hd : p.unclaimed.score? id with
    | none => exact .expired rfl (by simp [hd])
    | some d =>
      dsimp only
      split_ifs with hle
      · exact .expired rfl fun d' hd' => by
          rw [hd, Option.some.injEq] at hd'
          exact hd' ▸ hle
      · exact htake (.left hd (not_le.mp hle))

/-- A renewed claim is decoded again. -/
theorem decode_setField {c : Lua} {x : Double} {raw : Json} (hc : Cjson.Accepts c)
    (h : Cjson.encode (c.setField "lease_deadline" (.num x)) = some raw) :
    Cjson.decode raw = some (Cjson.table raw) :=
  Cjson.decode_encode (Cjson.accepts_setField hc rfl rfl) h

theorem namesOwner_setField {c : Lua} {x : Double} {raw : Json} {o : WorkerId} (hc : Cjson.Accepts c)
    (ho : workerField c = some o) (h : Cjson.encode (c.setField "lease_deadline" (.num x)) = some raw) :
    NamesOwner raw o := by
  rw [NamesOwner, decode_setField hc h, Option.bind_some]
  unfold workerField at ho ⊢
  cases c with
  | obj kvs =>
    rw [Cjson.field?_table_encode h, Dict.lookup_setList, if_neg (by decide)]
    rw [JValue.field?] at ho
    split at ho
    · next o' hlookup =>
      rw [hlookup, ← ho]
      rfl
    · cases ho
  | _ => cases ho

theorem namesOwner_of_ownClaim {s : Store} {w : WorkerId} {c : Lua} {x : Double} {raw : Json}
    (hc : s.ownClaim? id w = some c) (h : Cjson.encode (c.setField "lease_deadline" (.num x)) = some raw) :
    NamesOwner raw w := by
  obtain ⟨raw₀, hg, hd, ho⟩ := Store.ownClaim?_eq_some.mp hc
  have hw : workerField c = some w := by
    have := (owner?_of_get? hg).mp ho
    rwa [NamesOwner, hd] at this
  exact namesOwner_setField (Cjson.accepts_of_decode hd) hw h

/-! ## Recovery -/

/-- The deadline inside the claim record of `id`. -/
def claimDeadline? (s : Store) (id : EntryId) : Option ℚ :=
  tonumber (((s.claims.get? id).bind Cjson.decode).bind fun claim => claim.field? "lease_deadline")

/-- A redelivery only adds the id to one waiting place. -/
structure Redelivers (redeliver : Lua → EntryId → Store → Store) : Prop where
  same : ∀ entry id s, SameData s (redeliver entry id s)
  places : ∀ entry id s e, s.priority.score? id = none →
    (redeliver entry id s).places e = s.places e + if e = id then 1 else 0

theorem redeliverPending_redelivers : Redelivers redeliverPending where
  same _ _ _ := ⟨rfl, rfl, rfl, rfl⟩
  places _ id s e _ := by
    simp only [redeliverPending, Store.places, List.count_append]
    by_cases he : e = id
    · subst he
      simp
      omega
    · have hne : id ≠ e := fun h => he h.symm
      simp [he, hne]

theorem redeliverPriority_redelivers (space : ℚ) : Redelivers (redeliverPriority space) where
  same _ _ _ := pushPriority_sameData _ _ _
  places _ _ _ e h := places_pushPriority _ _ e h

/-- What one iteration of the recovery loop can do. -/
inductive RecoverCase (redeliver : Lua → EntryId → Store → Store) (now : ℚ) (id : EntryId) (s : Store) :
    Except ScriptError Recovered × Store → Prop
  | kept {deadline : ℚ} (hd : claimDeadline? s id = some deadline) (hlt : now < deadline) :
    RecoverCase redeliver now id s (.ok .kept, { s with leases := s.leases.add id deadline })
  | discarded (hd : ∀ d, claimDeadline? s id = some d → d ≤ now)
      (hs : statusText (s.records.get? id) ≠ some "queued" ∧ statusText (s.records.get? id) ≠ some "running") :
    RecoverCase redeliver now id s (.ok .discarded, dropClaim id s)
  | error {rawEntry : Json} (hd : ∀ d, claimDeadline? s id = some d → d ≤ now)
      (hr : s.records.get? id = some rawEntry)
      (hs : statusText (some rawEntry) = some "queued" ∨ statusText (some rawEntry) = some "running")
      (he : Cjson.encode (resetEntry (Cjson.table rawEntry)) = none) :
    RecoverCase redeliver now id s (.error .cannotSerialise, s)
  | recovered {rawEntry raw : Json} (hd : ∀ d, claimDeadline? s id = some d → d ≤ now)
      (hr : s.records.get? id = some rawEntry)
      (hs : statusText (some rawEntry) = some "queued" ∨ statusText (some rawEntry) = some "running")
      (he : Cjson.encode (resetEntry (Cjson.table rawEntry)) = some raw) :
    RecoverCase redeliver now id s (.ok .recovered, dropClaim id
      (redeliver (resetEntry (Cjson.table rawEntry)) id
        (restoreUnclaimed ((s.claims.get? id).bind Cjson.decode) id now
          { s with records := s.records.set id raw })))

theorem accepts_of_statusText {raw : Json} {st : String} (h : statusText (some raw) = some st) : Cjson.Accepts raw := by
  obtain ⟨t, ht, -⟩ := Option.bind_eq_some_iff.mp h
  exact (Cjson.decode_eq_some.mp ht).1

theorem recoverOne_case (redeliver : Lua → EntryId → Store → Store) (now : ℚ) (id : EntryId) (s : Store) :
    RecoverCase redeliver now id s (recoverOne redeliver now id s) := by
  have hdead : tonumber (((s.claims.get? id).bind Cjson.decode).bind fun c => c.field? "lease_deadline") =
      claimDeadline? s id := rfl
  have hexp (hd : ∀ d, claimDeadline? s id = some d → d ≤ now) : RecoverCase redeliver now id s
      (recoverOne.recoverExpired redeliver now id s ((s.claims.get? id).bind Cjson.decode)) := by
    unfold recoverOne.recoverExpired
    cases hr : s.records.get? id with
    | none => exact .discarded hd (by simp [hr, statusText])
    | some rawEntry =>
      rw [Option.bind_some]
      cases he : Cjson.decode rawEntry with
      | none =>
        have hnone : statusText (s.records.get? id) = none := by
          rw [hr, statusText, Option.bind_some, he]
          rfl
        exact .discarded hd (by simp [hnone])
      | some entry =>
        obtain ⟨-, rfl⟩ := Cjson.decode_eq_some.mp he
        have hst : statusText (some rawEntry) = statusField (Cjson.table rawEntry) := by
          rw [statusText, Option.bind_some, he]
          rfl
        dsimp only
        rw [← hst]
        split_ifs with hs
        · split
          · next he => exact .error hd hr hs he
          · next raw he => exact .recovered hd hr hs he
        · exact .discarded hd (by rw [hr]; exact not_or.mp hs)
  unfold recoverOne
  simp only [hdead]
  cases hd : claimDeadline? s id with
  | none => exact hexp (by simp [hd])
  | some deadline =>
    dsimp only
    split_ifs with hlt
    · exact .kept hd hlt
    · exact hexp fun d hd' => by
        rw [hd] at hd'
        exact Option.some.inj hd' ▸ not_lt.mp hlt

/-- What recovering `id` writes, the unclaimed deadlines aside. -/
structure Requeued (s : Store) (id : EntryId) (raw : Json) (s' : Store) : Prop where
  records : s'.records = s.records.set id raw
  claims : s'.claims = s.claims.erase id
  leases : s'.leases = s.leases.rem id
  places : s.priority.score? id = none → ∀ e, s'.places e = s.places e + if e = id then 1 else 0

theorem requeued {redeliver : Lua → EntryId → Store → Store} (hre : Redelivers redeliver) (entry : Lua)
    (c : Option Lua) (now : ℚ) (id : EntryId) (raw : Json) (s : Store) :
    Requeued s id raw (dropClaim id (redeliver entry id
      (restoreUnclaimed c id now { s with records := s.records.set id raw }))) := by
  rw [restoreUnclaimed_eq]
  generalize (restoreUnclaimed c id now { s with records := s.records.set id raw }).unclaimed = u
  have hsame := hre.same entry id { s with records := s.records.set id raw, unclaimed := u }
  have hpl := hre.places entry id { s with records := s.records.set id raw, unclaimed := u }
  exact
    { records := hsame.records
      claims := congrArg (fun d => d.erase id) hsame.claims
      leases := congrArg (fun z => z.rem id) hsame.leases
      places := fun h e => hpl e h }

/-- A property of the remaining ids and the store that one iteration keeps holds at the
end of the loop, also where an error ends it early. -/
theorem recoverLoop_rule {redeliver : Lua → EntryId → Store → Store} {now : ℚ}
    {I : List EntryId → Store → Prop}
    (hstep : ∀ id ids s, I (id :: ids) s → I ids (recoverOne redeliver now id s).2)
    (ids : List EntryId) (r d : ℕ) (s : Store) (h : I ids s) :
    ∃ rest, I rest (recoverLoop redeliver now ids r d s).2 := by
  induction ids generalizing r d s with
  | nil => exact ⟨[], h⟩
  | cons id ids ih =>
    have hnext := hstep id ids s h
    unfold recoverLoop
    split <;> next s' heq => (rw [heq] at hnext; first | exact ⟨ids, hnext⟩ | exact ih _ _ _ hnext)

/-- One iteration touches no other id. -/
theorem recoverOne_other {redeliver : Lua → EntryId → Store → Store} (hre : Redelivers redeliver) (now : ℚ)
    {id e : EntryId} (he : e ≠ id) (s : Store) :
    (recoverOne redeliver now id s).2.records.get? e = s.records.get? e ∧
      (recoverOne redeliver now id s).2.claims.get? e = s.claims.get? e ∧
      (recoverOne redeliver now id s).2.leases.score? e = s.leases.score? e := by
  have hcase := recoverOne_case redeliver now id s
  generalize recoverOne redeliver now id s = r at hcase
  cases hcase with
  | kept => simp [he]
  | discarded => simp [dropClaim, he]
  | error => exact ⟨rfl, rfl, rfl⟩
  | @recovered rawEntry raw _ _ _ _ =>
    have hreq := requeued hre (resetEntry (Cjson.table rawEntry)) ((s.claims.get? id).bind Cjson.decode)
      now id raw s
    rw [hreq.records, hreq.claims, hreq.leases]
    simp [he]

/-- Recovery writes no record that is neither queued nor running. -/
theorem recoverOne_finished {redeliver : Lua → EntryId → Store → Store} (hre : Redelivers redeliver)
    (now : ℚ) (id : EntryId) {s : Store} {e : EntryId}
    (hs : statusText (s.records.get? e) ≠ some "queued" ∧ statusText (s.records.get? e) ≠ some "running") :
    (recoverOne redeliver now id s).2.records.get? e = s.records.get? e := by
  by_cases he : e = id
  · subst he
    have hcase := recoverOne_case redeliver now e s
    generalize recoverOne redeliver now e s = r at hcase
    cases hcase with
    | kept => rfl
    | discarded => rfl
    | error => rfl
    | recovered _ hr hst => exact absurd (hr ▸ hst) (not_or.mpr hs)
  · exact (recoverOne_other hre now he s).1

theorem exists_obj_of_statusText {raw : Json} {st : String} (h : statusText (some raw) = some st) :
    ∃ kvs, Cjson.decode raw = some (.obj kvs) := by
  obtain ⟨t, ht, hst⟩ := Option.bind_eq_some_iff.mp h
  cases t with
  | obj kvs => exact ⟨kvs, ht⟩
  | _ => cases hst

theorem statusText_of_recovered {rawEntry raw : Json} {st : String}
    (hs : statusText (some rawEntry) = some st)
    (he : Cjson.encode (resetEntry (Cjson.table rawEntry)) = some raw) :
    statusText (some raw) = some "queued" := by
  have haccepts : Cjson.Accepts (resetEntry (Cjson.table rawEntry)) := by
    have h := Cjson.accepts_table.mpr (accepts_of_statusText hs)
    unfold resetEntry
    iterate 5 refine Cjson.accepts_setField ?_ rfl rfl
    exact h
  obtain ⟨kvs, hk⟩ := exists_obj_of_statusText hs
  rw [statusText, Option.bind_some, Cjson.decode_encode haccepts he, Option.bind_some, statusField]
  rw [(Cjson.decode_eq_some.mp hk).2] at he
  rw [Cjson.field?_table_encode he]
  simp only [Dict.lookup_setList]
  rfl

/-! ## Operations of a claim's owner -/

/-- A renewal is refused without an effect or moves the deadline of a claim that is still live. -/
theorem renew_cases (w : WorkerId) (lease : ℕ) (id : EntryId) (t : ServerTime) (s : Store) :
    (∃ r, renew w lease id t s = (r, s) ∧ r ≠ .ok true) ∨
      ∃ c current raw, s.ownClaim? id w = some c ∧
        tonumber (c.field? "lease_deadline") = some current ∧ t.nowUs < current ∧
        Cjson.encode (c.setField "lease_deadline" (.num (.ofRat (fl (t.nowUs + fl lease))))) = some raw ∧
        renew w lease id t s = (.ok true, { s with
          claims := s.claims.set id raw, leases := s.leases.add id (fl (t.nowUs + fl lease)) }) := by
  cases hc : s.ownClaim? id w with
  | none => exact .inl ⟨.ok false, by rw [renew, hc], by simp⟩
  | some c =>
    cases hd : tonumber (c.field? "lease_deadline") with
    | none => exact .inl ⟨.ok false, by rw [renew, hc]; simp only [hd], by simp⟩
    | some current =>
      by_cases hlt : current ≤ t.nowUs
      · exact .inl ⟨.ok false, by rw [renew, hc]; simp only [hd, hlt, if_true], by simp⟩
      · cases he : Cjson.encode (c.setField "lease_deadline" (.num (.ofRat (fl (t.nowUs + fl lease))))) with
        | none =>
          exact .inl ⟨.error .cannotSerialise, by rw [renew, hc]; simp only [hd, hlt, if_false, he], by simp⟩
        | some raw =>
          exact .inr ⟨c, current, raw, rfl, hd, not_le.mp hlt, he,
            by rw [renew, hc]; simp only [hd, hlt, if_false, he]⟩

theorem markRunning_cases (w : WorkerId) (id : EntryId) (raw : Json) (s : Store) :
    (markRunning w id raw s = (false, s) ∧
        ¬(s.owner? id = some w ∧ statusText (s.records.get? id) = some "queued")) ∨
      s.owner? id = some w ∧ statusText (s.records.get? id) = some "queued" ∧
        markRunning w id raw s = (true, { s with records := s.records.set id raw }) := by
  cases hc : s.ownClaim? id w with
  | none =>
    exact .inl ⟨by rw [markRunning, hc], fun h => Store.ownClaim?_eq_none.mp hc h.1⟩
  | some c =>
    obtain ⟨-, -, -, ho⟩ := Store.ownClaim?_eq_some.mp hc
    by_cases hs : statusText (s.records.get? id) = some "queued"
    · exact .inr ⟨ho, hs, by rw [markRunning, hc]; simp only [hs, if_true]⟩
    · exact .inl ⟨by rw [markRunning, hc]; simp only [hs, if_false], fun h => hs h.2⟩

theorem settle_cases (w : WorkerId) (id : EntryId) (raw : Json) (s : Store) :
    (settle w id raw s = (false, s) ∧
        ¬(s.owner? id = some w ∧ statusText (s.records.get? id) = some "running")) ∨
      s.owner? id = some w ∧ statusText (s.records.get? id) = some "running" ∧
        settle w id raw s = (true, dropClaim id { s with records := s.records.set id raw }) := by
  cases hc : s.ownClaim? id w with
  | none =>
    exact .inl ⟨by rw [settle, hc], fun h => Store.ownClaim?_eq_none.mp hc h.1⟩
  | some c =>
    obtain ⟨-, -, -, ho⟩ := Store.ownClaim?_eq_some.mp hc
    by_cases hs : statusText (s.records.get? id) = some "running"
    · exact .inr ⟨ho, hs, by rw [settle, hc]; simp only [hs, if_true]⟩
    · exact .inl ⟨by rw [settle, hc]; simp only [hs, if_false], fun h => hs h.2⟩

theorem prune_cases (id : EntryId) (s : Store) :
    (prune id s).2 = s ∨ prunable (statusText (s.records.get? id)) ∧
      (prune id s).2 = { s with pending := s.pending.filter (· ≠ id), records := s.records.erase id } := by
  cases hr : s.records.get? id with
  | none => exact .inl (by rw [prune, hr])
  | some raw =>
    by_cases hp : prunable (statusText (some raw))
    · right
      obtain ⟨st, hst⟩ : ∃ st, statusText (some raw) = some st := by
        cases hst : statusText (some raw) with
        | none => simp [hst, prunable] at hp
        | some st => exact ⟨st, rfl⟩
      obtain ⟨kvs, hk⟩ := exists_obj_of_statusText hst
      exact ⟨hp, by rw [prune, hr]; simp only [hk, hp, if_true]⟩
    · left
      rw [prune, hr]
      simp only [hp, Bool.false_eq_true, if_false]
      split <;> rfl

theorem prunable_recordStatus {raw : Option Json} (h : prunable (statusText raw)) : prunable (recordStatus raw) := by
  cases hst : statusText raw with
  | none => simp [hst, prunable] at h
  | some st => rwa [recordStatus_of_statusText hst, ← hst]

end Library

/-! ## Enqueue -/

theorem recordStatus_toDict {cls : EntryClass} (e : QueueEntry cls) :
    recordStatus (some e.toDict) = some e.status.value := rfl

theorem statusText_toDict {cls : EntryClass} {e : QueueEntry cls} (h : e.Decodable) :
    statusText (some e.toDict) = some e.status.value :=
  statusText_of_accepts h

/-- A script reads no other status than the entry's. -/
theorem eq_of_statusText_toDict {cls : EntryClass} {e : QueueEntry cls} {st : String}
    (h : statusText (some e.toDict) = some st) : st = e.status.value :=
  Option.some.inj ((recordStatus_of_statusText h).symm.trans (recordStatus_toDict e))

theorem prunable_toDict {cls : EntryClass} {e : QueueEntry cls} (he : e.status.Terminal) :
    Library.prunable (recordStatus (some e.toDict)) := by
  rw [recordStatus_toDict]
  revert he
  cases e.status <;> decide

/-- The record is stored and its id joins one waiting place. -/
structure Enqueued (s : Store) (id : EntryId) (raw : Json) (s' : Store) : Prop where
  records : s'.records = s.records.set id raw
  claims : s'.claims = s.claims
  leases : s'.leases = s.leases
  unclaimed : s'.unclaimed = s.unclaimed
  places : s.places id = 0 → ∀ e, s'.places e = s.places e + if e = id then 1 else 0

theorem none_of_places {s : Store} {id : EntryId} (h : s.places id = 0) :
    s.scheduled.score? id = none ∧ s.delayed.score? id = none ∧ s.priority.score? id = none ∧
      s.pending.count id = 0 := by
  unfold Store.places at h
  exact ⟨mult_eq_zero.mp (by omega), mult_eq_zero.mp (by omega), mult_eq_zero.mp (by omega), by omega⟩

theorem enqueued_pending (s : Store) (id : EntryId) (raw : Json) :
    Enqueued s id raw { s with records := s.records.set id raw, pending := s.pending ++ [id] } where
  records := rfl
  claims := rfl
  leases := rfl
  unclaimed := rfl
  places _ e := by
    by_cases he : e = id
    · subst he
      simp only [Store.places, List.count_append, List.count_singleton_self, if_true]
      omega
    · have hne : id ≠ e := fun h => he h.symm
      simp [Store.places, he, hne]

theorem enqueued_priority (s : Store) (id : EntryId) (raw : Json) (base : ℚ) :
    Enqueued s id raw (Library.pushPriority base id { s with records := s.records.set id raw }) where
  records := rfl
  claims := rfl
  leases := rfl
  unclaimed := rfl
  places h e := Library.places_pushPriority base id e (none_of_places h).2.2.1

theorem enqueued_scheduled (s : Store) (id : EntryId) (raw : Json) (x : ℚ) :
    Enqueued s id raw { s with records := s.records.set id raw, scheduled := s.scheduled.add id x } where
  records := rfl
  claims := rfl
  leases := rfl
  unclaimed := rfl
  places h e := by
    simp only [Store.places, mult_add]
    split_ifs with he
    · rw [he, mult_eq_zero.mpr (none_of_places h).1]
      omega
    · rfl

theorem storeAvailable_enqueued (raw : Json) (id : EntryId) (a : ℕ) (base : ℤ) (p : Bool) (t : ServerTime)
    (s : Store) : Enqueued s id raw (Library.storeAvailable raw id a base p t s) := by
  unfold Library.storeAvailable
  dsimp only
  split_ifs
  · exact enqueued_scheduled s id raw _
  · exact enqueued_priority s id raw _
  · exact enqueued_pending s id raw

/-- An enqueue is refused without an effect or stores the entry in one waiting place. -/
theorem astoreAndPush_cases {cls : EntryClass} (kind : QueueKind) (e : QueueEntry cls)
    (a : Option ClockTime) (t : ServerTime) (s : Store) :
    astoreAndPush kind e a t s = (.refused, s) ∨
      ∃ s', astoreAndPush kind e a t s = (.done, s') ∧ Enqueued s e.id e.toDict s' := by
  unfold astoreAndPush
  by_cases ht : e.status = .terminated
  · exact .inl (by rw [if_pos ht])
  · rw [if_neg ht]
    cases kind with
    | priority =>
      by_cases hp : priorityAllowed e.priority
      · simp only [hp, if_true]
        cases a with
        | none => exact .inr ⟨_, rfl, enqueued_priority s e.id e.toDict _⟩
        | some a => exact .inr ⟨_, rfl, storeAvailable_enqueued ..⟩
      · exact .inl (by simp only [hp, Bool.false_eq_true, if_false])
    | _ =>
      cases a with
      | none => exact .inr ⟨_, rfl, enqueued_pending s e.id e.toDict⟩
      | some a => exact .inr ⟨_, rfl, storeAvailable_enqueued ..⟩

/-- The promotion and delivery with which a claim starts. -/
def prepare (kind : QueueKind) (t : ServerTime) (s : Store) : Store :=
  match kind with
  | .priority => Library.deliverDueDelayed false t.nowUs
      (Library.promoteOneScheduledPriority prioritySequenceSpace t.nowUs s)
  | _ => Library.deliverDueDelayed false t.nowUs (Library.promoteOneScheduled t.nowUs s)

theorem prepare_sameData (kind : QueueKind) (t : ServerTime) (s : Store) :
    SameData s (prepare kind t s) := by
  cases kind with
  | priority =>
    exact (Library.promoteOneScheduledPriority_sameData _ _ s).trans (Library.deliverDueDelayed_sameData _ _ _)
  | _ => exact (Library.promoteOneScheduled_sameData _ s).trans (Library.deliverDueDelayed_sameData _ _ _)

/-- The ids that the promotion looks at and does not promote, unless a priority queue selects one of them. -/
def passedOver (kind : QueueKind) (now : ℚ) (s : Store) : List EntryId :=
  match kind with
  | .priority => Library.dueGroup now s
  | _ => Library.passedBefore s (Library.dueGroup now s)

/-- The next promotion passes over no record that is refused. -/
def DueReadable (kind : QueueKind) (now : ℚ) (s : Store) : Prop := ∀ e ∈ passedOver kind now s, ¬s.Refused e

theorem places_prepare {kind : QueueKind} {t : ServerTime} {s : Store}
    (hd : ∀ e x, s.scheduled.score? e = some x → s.priority.score? e = none) (e : EntryId) :
    (prepare kind t s).places e = s.places e ∨
      Library.Dropped (passedOver kind t.nowUs s) s (prepare kind t s) e := by
  have hdeliver (m : Store) : (Library.deliverDueDelayed false t.nowUs m).places e = m.places e :=
    Library.places_deliverDueDelayed _ _ e
  have plain : (Library.deliverDueDelayed false t.nowUs (Library.promoteOneScheduled t.nowUs s)).places e =
      s.places e ∨ Library.Dropped (Library.passedBefore s (Library.dueGroup t.nowUs s)) s
        (Library.deliverDueDelayed false t.nowUs (Library.promoteOneScheduled t.nowUs s)) e := by
    rw [Library.Dropped, hdeliver]
    exact Library.places_promoteOneScheduled _ e
  cases kind with
  | fifo => exact plain
  | stack => exact plain
  | priority =>
    rw [Library.Dropped, prepare, hdeliver]
    exact Library.places_promoteOneScheduledPriority _ _ hd e

theorem isSome_of_mem_passedOver {kind : QueueKind} {now : ℚ} {s : Store} {e : EntryId}
    (h : e ∈ passedOver kind now s) : (s.scheduled.score? e).isSome := by
  cases kind with
  | priority => exact Library.isSome_of_mem_dueGroup h
  | fifo => exact Library.isSome_of_mem_dueGroup ((List.takeWhile_sublist _).mem h)
  | stack => exact Library.isSome_of_mem_dueGroup ((List.takeWhile_sublist _).mem h)

theorem places_prepare_of_unscheduled {kind : QueueKind} {t : ServerTime} {s : Store} (h : s.scheduled = .empty)
    (e : EntryId) : (prepare kind t s).places e = s.places e := by
  refine (places_prepare (fun e x hx => ?_) e).resolve_right fun hdrop => ?_
  · rw [h] at hx
    cases hx
  · have hsome := isSome_of_mem_passedOver hdrop.1
    rw [h] at hsome
    cases hsome

/-- What a release by the owner writes, the unclaimed deadlines aside. -/
structure Released (s : Store) (id : EntryId) (s' : Store) : Prop where
  records : s'.records = s.records
  claims : s'.claims = s.claims.erase id
  leases : s'.leases = s.leases.rem id
  places : s.places id = 0 → ∀ e, s'.places e = s.places e + if e = id then 1 else 0

theorem arelease_released (kind : QueueKind) {w : WorkerId} {id : EntryId} {s : Store} (ho : s.owner? id = some w)
    (delay : ℕ) (t : ServerTime) : Released s id (arelease kind w id delay t s).2 := by
  obtain ⟨c, hc⟩ := Option.ne_none_iff_exists'.mp fun hc => Store.ownClaim?_eq_none.mp hc ho
  have hdelayed : Released s id (Library.release w id delay t s).2 := by
    simp only [Library.release, hc]
    rw [Library.restoreUnclaimed_eq]
    refine { records := rfl, claims := rfl, leases := rfl, places := fun h e => ?_ }
    simp only [Library.dropClaim, Store.places, mult_add]
    split_ifs with he
    · rw [he, mult_eq_zero.mpr (none_of_places h).2.1]
      omega
    · rfl
  cases kind with
  | fifo => exact hdelayed
  | stack => exact hdelayed
  | priority =>
    simp only [arelease, Library.releasePriority, hc]
    rw [Library.restoreUnclaimed_eq]
    generalize fl (recordPriority (s.records.get? id) * prioritySequenceSpace) = base
    refine { records := rfl, claims := rfl, leases := rfl, places := fun h e => ?_ }
    exact Library.places_pushPriority (s := Library.dropClaim id s) base id e (none_of_places h).2.2.1

theorem mem_dueClaims {batch : ℕ} {now : ℚ} {s : Store} {e : EntryId} (h : e ∈ Library.dueClaims batch now s) :
    ∃ x ≤ now, s.leases.score? e = some x := by
  obtain ⟨⟨x, m⟩, hp, rfl⟩ := List.mem_map.mp h
  obtain ⟨hx, hle⟩ := SortedSet.mem_upTo.mp (List.mem_of_mem_take hp)
  exact ⟨x, hle, hx⟩

theorem nodup_dueClaims (batch : ℕ) (now : ℚ) (s : Store) : (Library.dueClaims batch now s).Nodup := by
  have := s.leases.nodup_upTo now
  rw [Library.dueClaims, List.map_take]
  exact this.sublist (List.take_sublist _ _)

/-- No claim that the next recovery finds run out is on a record that is refused. -/
def ClaimsReadable (batch : ℕ) (now : ℚ) (s : Store) : Prop :=
  ∀ e ∈ Library.dueClaims batch now s, (∀ d, Library.claimDeadline? s e = some d → d ≤ now) → ¬s.Refused e

/-- What a recovery relies on for an id that it still has to come to. -/
def Recoverable (lossy : Prop) (now : ℚ) (s : Store) (e : EntryId) : Prop :=
  (s.leases.score? e).isSome ∧ (lossy ∨ ((∀ d, Library.claimDeadline? s e = some d → d ≤ now) → ¬s.Refused e))

theorem Recoverable.recoverOne {lossy : Prop} {s : Store} {e id : EntryId} {now : ℚ} (h : Recoverable lossy now s e)
    {redeliver : Lua → EntryId → Store → Store} (hre : Library.Redelivers redeliver) (hne : e ≠ id) :
    Recoverable lossy now (Library.recoverOne redeliver now id s).2 e := by
  obtain ⟨hr, hc, hl⟩ := Library.recoverOne_other hre now hne s
  rw [Recoverable, Library.claimDeadline?, Store.Refused, hr, hc, hl]
  exact h

theorem recoverable_of_due {lossy : Prop} {s : Store} {batch : ℕ} {now : ℚ} (hd : lossy ∨ ClaimsReadable batch now s)
    {e : EntryId} (he : e ∈ Library.dueClaims batch now s) : Recoverable lossy now s e := by
  obtain ⟨x, -, hx⟩ := mem_dueClaims he
  refine ⟨?_, hd.imp_right fun hd => hd e he⟩
  rw [hx]
  rfl

/-- What holds after each iteration for the ids still to come holds after recovery. -/
theorem arecover_rule {I : List EntryId → Store → Prop} {t : ServerTime}
    (hstep : ∀ redeliver, Library.Redelivers redeliver → ∀ id ids s, I (id :: ids) s →
      I ids (Library.recoverOne redeliver t.nowUs id s).2)
    (kind : QueueKind) (batch : ℕ) {s : Store} (h : I (Library.dueClaims batch t.nowUs s) s) :
    ∃ rest, I rest (arecover kind batch t s).2 := by
  cases kind with
  | priority => exact Library.recoverLoop_rule (hstep _ (Library.redeliverPriority_redelivers _)) _ 0 0 s h
  | _ => exact Library.recoverLoop_rule (hstep _ Library.redeliverPending_redelivers) _ 0 0 s h

/-- A claim either finds nothing or takes one id and claims it or not. -/
theorem aclaim_cases (kind : QueueKind) (w : WorkerId) (lease : ℕ) (x : Bool) (t : ServerTime) (s : Store) :
    aclaim kind w lease x t s = (.ok .empty, prepare kind t s) ∨
      ∃ id p f g h, Library.Taken (prepare kind t s) id p ∧ Library.Aftermath id p f g h ∧
        aclaim kind w lease x t s = Library.claimPopped w lease x t id f g h p := by
  have plain : ∀ stack : Bool,
      (let m := Library.deliverDueDelayed false t.nowUs (Library.promoteOneScheduled t.nowUs s)
       Library.claim w lease stack x t s = (.ok .empty, m) ∨
        ∃ id p f g h, Library.Taken m id p ∧ Library.Aftermath id p f g h ∧
          Library.claim w lease stack x t s = Library.claimPopped w lease x t id f g h p) := by
    intro stack m
    rcases hpop : Library.popPending stack m with ⟨_ | id, p⟩
    · left
      rw [Library.claim, hpop, (Library.popPending_none hpop).1]
    · right
      refine ⟨id, p, _, _, _, Library.popPending_taken hpop, Library.unpopPending_aftermath stack id p, ?_⟩
      rw [Library.claim, hpop]
  cases kind with
  | fifo => exact plain false
  | stack => exact plain true
  | priority =>
    rw [aclaim]
    set m := prepare .priority t s with hm
    have hm' : m = Library.deliverDueDelayed false t.nowUs
        (Library.promoteOneScheduledPriority prioritySequenceSpace t.nowUs s) := hm
    rcases hpop : Library.popPending false m with ⟨_ | id, p⟩
    · obtain ⟨rfl, -⟩ := Library.popPending_none hpop
      rcases htop : m.priority.top? with _ | ⟨score, id⟩
      · left
        rw [Library.claimPriority, ← hm', hpop]
        simp only [htop]
      · right
        refine ⟨id, _, _, _, _, Library.top?_taken htop,
          Library.restorePriority_aftermath score (by simp), ?_⟩
        rw [Library.claimPriority, ← hm', hpop]
        simp only [htop]
    · right
      refine ⟨id, p, _, _, _, Library.popPending_taken hpop, Library.unpopPending_aftermath false id p, ?_⟩
      rw [Library.claimPriority, ← hm', hpop]

end DjangoQueues.Redis
