import DjangoQueues.Redis.Ownership

/-! How an id of a tracked Redis queue becomes ready for delivery: it is enqueued, promoted when
its instant has come, released by the worker that claimed it, or recovered. -/

namespace DjangoQueues.Redis

variable {cls : EntryClass} {kind : QueueKind} {s s' : Store} {e id : EntryId} {t : ServerTime} {batch : ℕ}

/-- The calls of producers, workers and direct consumers of a tracked queue. A failure before
dispatch stores a failed copy of a queued entry. -/
def Tracked (s : Store) : Call cls → Prop
  | .enqueue x _ => x.status = .queued ∧ s.records.get? x.id = none
  | .storeAndDiscard x => x.status = .failed ∧ recordStatus (s.records.get? x.id) = some "queued"
  | .claim _ _ expireUnclaimed => expireUnclaimed = false
  | .markRunning _ x => x.status = .running
  | .settle _ x => x.status.Terminal
  | .dequeue | .renew .. | .release .. | .recover .. => True
  | _ => False

/-- The call hands the entry out. -/
def Returns (id : EntryId) (l : Event cls) : Prop :=
  l.reply = .claimed (.ok (.claimed id)) ∨ l.reply = .popped (some id)

/-- The events of a sequence of calls. -/
def history (kind : QueueKind) : List (Call cls × ServerTime) → Store → List (Event cls)
  | [], _ => []
  | (c, t) :: cs, s => ⟨c, t, (exec kind c t s).1⟩ :: history kind cs (exec kind c t s).2

/-- Each call of the sequence is allowed where it is made. -/
def Permits (kind : QueueKind) (Ok : Store → Call cls → Prop) : List (Call cls × ServerTime) → Timed → Prop
  | [], _ => True
  | (c, t) :: cs, g => g.now ≤ t ∧ Ok g.store c ∧ Permits kind Ok cs ⟨(exec kind c t g.store).2, t⟩

theorem run_history {Ok : Store → Call cls → Prop} {cs : List (Call cls × ServerTime)} {g : Timed}
    (h : Permits kind Ok cs g) : ∃ g', Run (Occurs kind Ok) g (history kind cs g.store) g' := by
  induction cs generalizing g with
  | nil => exact ⟨g, .nil g⟩
  | cons ct cs ih =>
    obtain ⟨c, t⟩ := ct
    obtain ⟨hle, hok, hrest⟩ := h
    obtain ⟨g', hrun⟩ := ih hrest
    exact ⟨g', .cons (.of_exec hle hok rfl) hrun⟩

/-! ## Ids that are not ready -/

/-- The id is in none of the structures that deliver it without looking at an instant. -/
structure NotReady (s : Store) (e : EntryId) : Prop where
  pending : s.pending.count e = 0
  delayed : s.delayed.score? e = none
  priority : s.priority.score? e = none

namespace NotReady

theorem congr (h : NotReady s e) (hp : s'.pending.count e ≤ s.pending.count e)
    (hd : s'.delayed.score? e = s.delayed.score? e)
    (hq : s'.priority.score? e = s.priority.score? e) : NotReady s' e := by
  refine ⟨?_, hd.trans h.delayed, hq.trans h.priority⟩
  have := h.pending
  omega

end NotReady

/-- The instant of the id, if it has one, is still to come. -/
def NotDue (s : Store) (e : EntryId) (t : ServerTime) : Prop := ∀ x, s.scheduled.score? e = some x → t.nowUs < x

namespace Library

theorem count_append_other (h : e ≠ id) (l : List EntryId) : (l ++ [id]).count e = l.count e := by
  have hzero : [id].count e = 0 := List.count_eq_zero.mpr (by simpa using h)
  rw [List.count_append, hzero, Nat.add_zero]

theorem promoteFirstQueued_other {ids : List EntryId} (he : e ∉ ids) (s : Store) :
    (promoteFirstQueued ids s).pending.count e = s.pending.count e ∧
      (promoteFirstQueued ids s).scheduled.score? e = s.scheduled.score? e ∧
      (promoteFirstQueued ids s).delayed = s.delayed ∧ (promoteFirstQueued ids s).priority = s.priority := by
  induction ids generalizing s with
  | nil => exact ⟨rfl, rfl, rfl, rfl⟩
  | cons id ids ih =>
    rw [List.mem_cons, not_or] at he
    unfold promoteFirstQueued
    split_ifs
    · exact ⟨count_append_other he.1 s.pending, by simp [he.1], rfl, rfl⟩
    · obtain ⟨h₁, h₂, h₃, h₄⟩ := ih he.2 { s with scheduled := s.scheduled.rem id }
      exact ⟨h₁, by rw [h₂]; simp [he.1], h₃, h₄⟩

theorem selectScheduled_other {ids : List EntryId} (he : e ∉ ids) (sel : Option (EntryId × ℚ)) (s : Store) :
    (selectScheduled ids sel s).2.scheduled.score? e = s.scheduled.score? e ∧
      (selectScheduled ids sel s).2.pending = s.pending ∧ (selectScheduled ids sel s).2.delayed = s.delayed ∧
      (selectScheduled ids sel s).2.priority = s.priority ∧
      ((∀ p ∈ sel, p.1 ≠ e) → ∀ p ∈ (selectScheduled ids sel s).1, p.1 ≠ e) := by
  induction ids generalizing sel s with
  | nil => exact ⟨rfl, rfl, rfl, rfl, fun h => h⟩
  | cons id ids ih =>
    rw [List.mem_cons, not_or] at he
    have hnew (priority : ℚ) : ∀ p ∈ some (id, priority), p.1 ≠ e := fun p hp => by
      obtain rfl := Option.some.inj hp
      exact fun heq => he.1 heq.symm
    unfold selectScheduled
    dsimp only
    split_ifs
    · split
      · obtain ⟨h₁, h₂, h₃, h₄, h₅⟩ := ih he.2 (some (id, recordPriority (s.records.get? id))) s
        exact ⟨h₁, h₂, h₃, h₄, fun _ => h₅ (hnew _)⟩
      · next sid sp =>
        split_ifs
        · obtain ⟨h₁, h₂, h₃, h₄, h₅⟩ := ih he.2 (some (id, recordPriority (s.records.get? id))) s
          exact ⟨h₁, h₂, h₃, h₄, fun _ => h₅ (hnew _)⟩
        · exact ih he.2 (some (sid, sp)) s
    · obtain ⟨h₁, h₂, h₃, h₄, h₅⟩ := ih he.2 sel { s with scheduled := s.scheduled.rem id }
      exact ⟨by rw [h₁]; simp [he.1], h₂, h₃, h₄, h₅⟩

theorem deliverDelayed_other (left : Bool) {ids : List EntryId} (he : e ∉ ids) (s : Store) :
    (deliverDelayed left ids s).pending.count e = s.pending.count e ∧
      (deliverDelayed left ids s).delayed.score? e = s.delayed.score? e ∧
      (deliverDelayed left ids s).scheduled = s.scheduled ∧ (deliverDelayed left ids s).priority = s.priority := by
  induction ids generalizing s with
  | nil => exact ⟨rfl, rfl, rfl, rfl⟩
  | cons id ids ih =>
    rw [List.mem_cons, not_or] at he
    unfold deliverDelayed
    obtain ⟨h₁, h₂, h₃, h₄⟩ := ih he.2 { s with
      pending := if left then id :: s.pending else s.pending ++ [id]
      delayed := s.delayed.rem id }
    refine ⟨?_, by rw [h₂]; simp [he.1], h₃, h₄⟩
    rw [h₁]
    cases left with
    | true =>
      have hne : id ≠ e := fun heq => he.1 heq.symm
      simp [List.count_cons_of_ne hne]
    | false => exact count_append_other he.1 s.pending

/-- A group of one score holds no id with another. -/
theorem notMem_withScore_head {z : SortedSet EntryId} {x : ℚ} {i : EntryId} {now : ℚ}
    (hhead : (z.upTo now).head? = some (x, i)) (hlate : ∀ y, z.score? e = some y → now < y) : e ∉ z.withScore x := by
  intro hin
  have hle := (SortedSet.mem_upTo.mp (List.mem_of_mem_head? hhead)).2
  exact absurd hle (not_le.mpr (hlate x (SortedSet.mem_withScore.mp hin)))

end Library

namespace NotReady

open Library

/-- Promotion passes over an id whose instant has not come. -/
theorem promote (h : NotReady s e) (hd : NotDue s e t) :
    NotReady (promoteOneScheduled t.nowUs s) e ∧
      (promoteOneScheduled t.nowUs s).scheduled.score? e = s.scheduled.score? e := by
  unfold promoteOneScheduled
  rcases hhead : (s.scheduled.upTo t.nowUs).head? with _ | ⟨x, i⟩
  · exact ⟨h, rfl⟩
  · obtain ⟨h₁, h₂, h₃, h₄⟩ := promoteFirstQueued_other (notMem_withScore_head hhead hd) s
    exact ⟨h.congr h₁.le (by rw [h₃]) (by rw [h₄]), h₂⟩

theorem promotePriority (h : NotReady s e) (space : ℚ) (hd : NotDue s e t) :
    NotReady (promoteOneScheduledPriority space t.nowUs s) e ∧
      (promoteOneScheduledPriority space t.nowUs s).scheduled.score? e = s.scheduled.score? e := by
  unfold promoteOneScheduledPriority
  rcases hhead : (s.scheduled.upTo t.nowUs).head? with _ | ⟨x, i⟩
  · exact ⟨h, rfl⟩
  · obtain ⟨h₁, h₂, h₃, h₄, h₅⟩ := selectScheduled_other (notMem_withScore_head hhead hd) none s
    dsimp only
    rcases hsel : selectScheduled (s.scheduled.withScore x) none s with ⟨_ | ⟨id, p⟩, m⟩
    · rw [hsel] at h₁ h₂ h₃ h₄
      exact ⟨h.congr (by rw [h₂]) (by rw [h₃]) (by rw [h₄]), h₁⟩
    · rw [hsel] at h₁ h₂ h₃ h₄ h₅
      dsimp only at h₁ h₂ h₃ h₄
      have hne : e ≠ id := fun heq => h₅ (fun p hp => by cases hp) (id, p) rfl heq.symm
      refine ⟨h.congr (by simp [pushPriority, h₂]) (by simp [pushPriority, h₃]) ?_, ?_⟩
      · simp only [pushPriority, SortedSet.score?_add, if_neg hne, h₄]
      · simp only [pushPriority, SortedSet.score?_rem, if_neg hne, h₁]

theorem deliver (h : NotReady s e) (left : Bool) (now : ℚ) :
    NotReady (deliverDueDelayed left now s) e ∧ (deliverDueDelayed left now s).scheduled = s.scheduled := by
  have he : e ∉ (s.delayed.upTo now).map Prod.snd := by
    intro hin
    obtain ⟨⟨x, m⟩, hp, rfl⟩ := List.mem_map.mp hin
    have hscore := (SortedSet.mem_upTo.mp hp).1
    rw [h.delayed] at hscore
    cases hscore
  obtain ⟨h₁, h₂, h₃, h₄⟩ := deliverDelayed_other left he s
  exact ⟨h.congr h₁.le h₂ (by rw [deliverDueDelayed, h₄]), h₃⟩

theorem prepare (h : NotReady s e) (hd : NotDue s e t) (kind : QueueKind) :
    NotReady (Redis.prepare kind t s) e ∧ (Redis.prepare kind t s).scheduled.score? e = s.scheduled.score? e := by
  cases kind with
  | priority =>
    obtain ⟨h₁, h₂⟩ := h.promotePriority prioritySequenceSpace hd
    obtain ⟨h₃, h₄⟩ := h₁.deliver false t.nowUs
    exact ⟨h₃, (congrArg (SortedSet.score? · e) h₄).trans h₂⟩
  | _ =>
    obtain ⟨h₁, h₂⟩ := h.promote hd
    obtain ⟨h₃, h₄⟩ := h₁.deliver false t.nowUs
    exact ⟨h₃, (congrArg (SortedSet.score? · e) h₄).trans h₂⟩

end NotReady

/-! ## One call -/

/-- Nothing that concerns the id has changed. -/
structure SameAt (e : EntryId) (s s' : Store) : Prop where
  pending : s'.pending.count e = s.pending.count e
  scheduled : s'.scheduled.score? e = s.scheduled.score? e
  delayed : s'.delayed.score? e = s.delayed.score? e
  priority : s'.priority.score? e = s.priority.score? e
  records : s'.records.get? e = s.records.get? e
  claims : s'.claims.get? e = s.claims.get? e
  leases : s'.leases.score? e = s.leases.score? e

namespace SameAt

variable {s'' : Store}

theorem refl (e : EntryId) (s : Store) : SameAt e s s := ⟨rfl, rfl, rfl, rfl, rfl, rfl, rfl⟩

theorem trans (h : SameAt e s s') (h' : SameAt e s' s'') : SameAt e s s'' where
  pending := h'.pending.trans h.pending
  scheduled := h'.scheduled.trans h.scheduled
  delayed := h'.delayed.trans h.delayed
  priority := h'.priority.trans h.priority
  records := h'.records.trans h.records
  claims := h'.claims.trans h.claims
  leases := h'.leases.trans h.leases

theorem notReady (h : SameAt e s s') (hn : NotReady s e) : NotReady s' e :=
  hn.congr h.pending.le h.delayed h.priority

theorem of_sequence (e : EntryId) {s' : Store} (h : ∃ q, s' = { s with sequence := q }) : SameAt e s s' := by
  obtain ⟨q, rfl⟩ := h
  exact ⟨rfl, rfl, rfl, rfl, rfl, rfl, rfl⟩

theorem resetSequence (e : EntryId) (s : Store) : SameAt e s (Library.resetSequence s) :=
  of_sequence e ⟨_, Library.resetSequence_eq s⟩

theorem pushPriority (he : e ≠ id) (base : ℚ) (s : Store) : SameAt e s (Library.pushPriority base id s) :=
  ⟨rfl, rfl, rfl, by simp [Library.pushPriority, he], rfl, rfl, rfl⟩

theorem restoreUnclaimed (e : EntryId) (c : Option Lua) (id : EntryId) (now : ℚ) (s : Store) :
    SameAt e s (Library.restoreUnclaimed c id now s) := by
  rw [Library.restoreUnclaimed_eq]
  exact ⟨rfl, rfl, rfl, rfl, rfl, rfl, rfl⟩

theorem dropClaim (he : e ≠ id) (s : Store) : SameAt e s (Library.dropClaim id s) :=
  ⟨rfl, rfl, rfl, rfl, rfl, by simp [Library.dropClaim, he], by simp [Library.dropClaim, he]⟩

theorem setRecord (he : e ≠ id) (raw : Json) (s : Store) : SameAt e s { s with records := s.records.set id raw } :=
  ⟨rfl, rfl, rfl, rfl, by simp [he], rfl, rfl⟩

theorem append (he : e ≠ id) (s : Store) : SameAt e s { s with pending := s.pending ++ [id] } :=
  ⟨Library.count_append_other he s.pending, rfl, rfl, rfl, rfl, rfl, rfl⟩

theorem schedule (he : e ≠ id) (x : ℚ) (s : Store) : SameAt e s { s with scheduled := s.scheduled.add id x } :=
  ⟨rfl, by simp [he], rfl, rfl, rfl, rfl, rfl⟩

theorem popPending {stack : Bool} {m p : Store} (hpop : Library.popPending stack m = (some id, p)) (he : e ≠ id) :
    SameAt e m p := by
  obtain ⟨hp, hl⟩ := Library.popPending_some hpop
  rw [hp]
  refine ⟨?_, rfl, rfl, rfl, rfl, rfl, rfl⟩
  rw [hl]
  cases stack with
  | true => exact (Library.count_append_other he p.pending).symm
  | false => exact (List.count_cons_of_ne fun heq => he heq.symm).symm

theorem unpopPending (stack : Bool) (he : e ≠ id) (s : Store) : SameAt e s (Library.unpopPending stack id s) := by
  refine ⟨?_, rfl, rfl, rfl, rfl, rfl, rfl⟩
  cases stack with
  | true => exact Library.count_append_other he s.pending
  | false => exact List.count_cons_of_ne fun heq => he heq.symm

/-- A claim acts on the id it popped and on no other. -/
theorem claimPopped {f g k : Store → Store} (hf : ∀ s, SameAt e s (f s)) (hg : ∀ s, SameAt e s (g s))
    (hk : ∀ s, SameAt e s (k s)) (w : WorkerId) (lease : ℕ) (x : Bool) (he : e ≠ id) (p : Store) :
    SameAt e p (Library.claimPopped w lease x t id f g k p).2 := by
  have hrest {r : Option ℚ} {q : Store} (hq : Library.Remaining t id p x r q) : SameAt e p q := by
    cases hq with
    | off => exact .refl e p
    | left hd hlt => exact ⟨rfl, rfl, rfl, rfl, rfl, rfl, rfl⟩
  have hcase := Library.claimPopped_case w lease x t id f g k p
  generalize Library.claimPopped w lease x t id f g k p = res at hcase
  cases hcase with
  | expired hx hd =>
    refine SameAt.trans ?_ (hf _)
    exact ⟨rfl, rfl, by simp [he], rfl, by simp [he], rfl, by simp [he]⟩
  | error hq _ => exact hrest hq
  | claimed hq _ _ =>
    refine (hrest hq).trans (SameAt.trans ?_ (hg _))
    exact ⟨rfl, rfl, rfl, rfl, rfl, by simp [he], by simp [he]⟩
  | conflict hq _ _ => exact (hrest hq).trans (hk _)

theorem recoverOne {redeliver : Lua → EntryId → Store → Store} (hre : ∀ entry s, SameAt e s (redeliver entry id s))
    (now : ℚ) (he : e ≠ id) (s : Store) : SameAt e s (Library.recoverOne redeliver now id s).2 := by
  have hcase := Library.recoverOne_case redeliver now id s
  generalize Library.recoverOne redeliver now id s = res at hcase
  cases hcase with
  | kept hd hlt => exact ⟨rfl, rfl, rfl, rfl, rfl, rfl, by simp [he]⟩
  | discarded hd hs => exact .dropClaim he s
  | error hd hr hs hx => exact .refl e s
  | recovered hd hr hs hx =>
    exact (SameAt.setRecord he _ s).trans ((SameAt.restoreUnclaimed e _ id now _).trans
      ((hre _ _).trans (.dropClaim he _)))

theorem recover (he : e ∉ Library.dueClaims batch t.nowUs s) (kind : QueueKind) :
    SameAt e s (arecover kind batch t s).2 := by
  have hloop {redeliver : Lua → EntryId → Store → Store}
      (hre : ∀ id, e ≠ id → ∀ entry s, SameAt e s (redeliver entry id s)) :
      SameAt e s (Library.recoverLoop redeliver t.nowUs (Library.dueClaims batch t.nowUs s) 0 0 s).2 := by
    obtain ⟨rest, -, h⟩ := Library.recoverLoop_rule (I := fun rest m => e ∉ rest ∧ SameAt e s m)
      (fun id ids m hm => by
        obtain ⟨hmem, hsame⟩ := hm
        rw [List.mem_cons, not_or] at hmem
        exact ⟨hmem.2, hsame.trans (.recoverOne (hre id hmem.1) t.nowUs hmem.1 m)⟩)
      (Library.dueClaims batch t.nowUs s) 0 0 s ⟨he, .refl e s⟩
    exact h
  cases kind with
  | priority => exact hloop fun id hne _ s => .pushPriority hne _ s
  | _ => exact hloop fun id hne _ s => .append hne s

theorem enqueue {x : QueueEntry cls} (he : e ≠ x.id) (kind : QueueKind) (a : Option ClockTime) (s : Store) :
    SameAt e s (astoreAndPush kind x a t s).2 := by
  have hset := SameAt.setRecord he x.toDict s
  have havailable (n : ℕ) (base : ℤ) (p : Bool) : SameAt e s (Library.storeAvailable x.toDict x.id n base p t s) := by
    unfold Library.storeAvailable
    dsimp only
    split_ifs
    · exact hset.trans (.schedule he _ _)
    · exact hset.trans (.pushPriority he _ _)
    · exact hset.trans (.append he _)
  unfold astoreAndPush
  by_cases hst : x.status = .terminated
  · rw [if_pos hst]
    exact .refl e s
  · rw [if_neg hst]
    cases kind with
    | priority =>
      by_cases hp : priorityAllowed x.priority
      · simp only [hp, if_true]
        cases a with
        | none => exact hset.trans (.pushPriority he _ _)
        | some a => exact havailable _ _ _
      · simp only [hp, Bool.false_eq_true, if_false]
        exact .refl e s
    | _ =>
      cases a with
      | none => exact hset.trans (.append he _)
      | some a => exact havailable _ _ _

theorem storeAndDiscard (he : e ≠ id) (raw : Json) (s : Store) : SameAt e s (Library.storeAndDiscard raw id s) := by
  refine SameAt.trans ?_ (.resetSequence e _)
  refine ⟨?_, by simp [he], rfl, by simp [he], by simp [he], rfl, rfl⟩
  exact List.count_filter (by simpa using he)

theorem release (he : e ≠ id) (kind : QueueKind) (w : WorkerId) (delay : ℕ) (t : ServerTime) (s : Store) :
    SameAt e s (arelease kind w id delay t s).2 := by
  cases hc : s.ownClaim? id w with
  | none =>
    have hsame : (arelease kind w id delay t s).2 = s := by
      cases kind <;> simp only [arelease, Library.release, Library.releasePriority, hc]
    rw [hsame]
    exact .refl e s
  | some claim =>
    have hplain : SameAt e s (Library.release w id delay t s).2 := by
      simp only [Library.release, hc]
      refine (SameAt.dropClaim he s).trans (SameAt.trans ?_ (.restoreUnclaimed e _ id _ _))
      exact ⟨rfl, rfl, by simp [he], rfl, rfl, rfl, rfl⟩
    cases kind with
    | priority =>
      simp only [arelease, Library.releasePriority, hc]
      exact (SameAt.dropClaim he s).trans ((SameAt.pushPriority he _ _).trans (.restoreUnclaimed e _ id _ _))
    | _ => exact hplain

end SameAt

/-- The call names the id, or recovery has it in its batch. -/
def Aims (s : Store) (t : ServerTime) (e : EntryId) : Call cls → Prop
  | .enqueue x _ => x.id = e
  | .storeAndDiscard x => x.id = e
  | .renew _ _ id => id = e
  | .release _ id _ => id = e
  | .markRunning _ x => x.id = e
  | .settle _ x => x.id = e
  | .recover batch => e ∈ Library.dueClaims batch t.nowUs s
  | _ => False

namespace NotReady

open Library

theorem ne_of_popPending (h : NotReady s e) {stack : Bool} (hpop : popPending stack s = (some id, s')) : e ≠ id := by
  rintro rfl
  obtain ⟨-, hl⟩ := popPending_some hpop
  have hcount := h.pending
  rw [hl] at hcount
  cases stack <;> simp at hcount

theorem ne_of_top (h : NotReady s e) {x : ℚ} (htop : s.priority.top? = some (x, id)) : e ≠ id := by
  rintro rfl
  have hscore := (SortedSet.top?_eq_some htop).1
  rw [h.priority] at hscore
  cases hscore

/-- A claim passes over the id. -/
theorem claim (h : NotReady s e) (hd : NotDue s e t) (kind : QueueKind) (w : WorkerId) (lease : ℕ) (x : Bool) :
    SameAt e (Redis.prepare kind t s) (aclaim kind w lease x t s).2 ∧
      (aclaim kind w lease x t s).1 ≠ .ok (.claimed e) := by
  obtain ⟨hprep, -⟩ := h.prepare hd kind
  have hne {id : EntryId} (he : e ≠ id) (f g k : Store → Store) (p : Store) :
      (claimPopped w lease x t id f g k p).1 ≠ .ok (.claimed e) := by
    have hcase := claimPopped_case w lease x t id f g k p
    generalize claimPopped w lease x t id f g k p = res at hcase
    cases hcase with
    | expired hx hd => simp
    | error hq hx => simp
    | claimed hq hx hc => simpa using he.symm
    | conflict hq hx hc => simp
  have plain (stack : Bool) (m : Store) (hm : m = deliverDueDelayed false t.nowUs (promoteOneScheduled t.nowUs s))
      (hready : NotReady m e) : SameAt e m (Library.claim w lease stack x t s).2 ∧
        (Library.claim w lease stack x t s).1 ≠ .ok (.claimed e) := by
    unfold Library.claim
    rw [← hm]
    rcases hpop : popPending stack m with ⟨_ | id, p⟩
    · simp only [hpop, (popPending_none hpop).1]
      exact ⟨.refl e m, by simp⟩
    · have he := hready.ne_of_popPending hpop
      simp only [hpop]
      exact ⟨(SameAt.popPending hpop he).trans (.claimPopped (.refl e) (.refl e) (.unpopPending stack he) w lease x he p),
        hne he _ _ _ _⟩
  cases kind with
  | fifo => exact plain false _ rfl hprep
  | stack => exact plain true _ rfl hprep
  | priority =>
    set m := Redis.prepare .priority t s with hm
    have hm' : m = deliverDueDelayed false t.nowUs
        (promoteOneScheduledPriority prioritySequenceSpace t.nowUs s) := hm
    unfold aclaim claimPriority
    dsimp only
    rw [← hm']
    rcases hpop : popPending false m with ⟨_ | id, p⟩
    · obtain ⟨rfl, -⟩ := popPending_none hpop
      rcases htop : m.priority.top? with _ | ⟨score, id⟩
      · simp only [htop]
        exact ⟨.refl e m, by simp⟩
      · have he := hprep.ne_of_top htop
        have hrem : SameAt e m { m with priority := m.priority.rem id } :=
          ⟨rfl, rfl, rfl, by simp [he], rfl, rfl, rfl⟩
        have hadd (q : Store) : SameAt e q { q with priority := q.priority.add id score } :=
          ⟨rfl, rfl, rfl, by simp [he], rfl, rfl, rfl⟩
        simp only [htop]
        exact ⟨hrem.trans (.claimPopped (.resetSequence e) (.resetSequence e) hadd w lease x he _), hne he _ _ _ _⟩
    · have he := hprep.ne_of_popPending hpop
      exact ⟨(SameAt.popPending hpop he).trans (.claimPopped (.refl e) (.refl e) (.unpopPending false he) w lease x he p),
        hne he _ _ _ _⟩

/-- A direct dequeue passes over the id. -/
theorem dequeue (h : NotReady s e) (hd : NotDue s e t) (kind : QueueKind) :
    ∃ m, SameData s m ∧ NotReady m e ∧ m.scheduled.score? e = s.scheduled.score? e ∧
      SameAt e m (adequeue kind t s).2 ∧ (adequeue kind t s).1 ≠ some e := by
  have plain (stack : Bool) : ∃ m, SameData s m ∧ NotReady m e ∧ m.scheduled.score? e = s.scheduled.score? e ∧
      SameAt e m (Library.dequeue stack t s).2 ∧ (Library.dequeue stack t s).1 ≠ some e := by
    obtain ⟨h₁, h₂⟩ := h.promote hd
    refine ⟨_, promoteOneScheduled_sameData t.nowUs s, h₁, h₂, ?_⟩
    unfold Library.dequeue
    rcases hpop : popPending stack (promoteOneScheduled t.nowUs s) with ⟨_ | id, p⟩
    · rw [(popPending_none hpop).1]
      exact ⟨.refl e _, by simp⟩
    · have he := h₁.ne_of_popPending hpop
      exact ⟨.popPending hpop he, by simpa using he.symm⟩
  cases kind with
  | fifo => exact plain false
  | stack => exact plain true
  | priority =>
    obtain ⟨h₁, h₂⟩ := h.promotePriority prioritySequenceSpace hd
    refine ⟨_, promoteOneScheduledPriority_sameData _ t.nowUs s, h₁, h₂, ?_⟩
    simp only [adequeue, dequeuePriority, popPriority]
    rcases htop : (promoteOneScheduledPriority prioritySequenceSpace t.nowUs s).priority.top? with _ | ⟨x, id⟩
    · exact ⟨.refl e _, by simp⟩
    · have he := h₁.ne_of_top htop
      refine ⟨SameAt.trans ?_ (.resetSequence e _), by simpa using he.symm⟩
      exact ⟨rfl, rfl, rfl, by simp [he], rfl, rfl, rfl⟩

/-- A call that does not aim at the id leaves it as it is and does not return it. -/
theorem exec (h : NotReady s e) (hd : NotDue s e t) {c : Call cls} (hc : Tracked s c) (haim : ¬Aims s t e c)
    (kind : QueueKind) :
    ∃ m, SameData s m ∧ NotReady m e ∧ m.scheduled.score? e = s.scheduled.score? e ∧
      SameAt e m (Redis.exec kind c t s).2 ∧ ¬Returns e ⟨c, t, (Redis.exec kind c t s).1⟩ := by
  have still {s' : Store} {r : Reply} (hs : SameAt e s s') (hr : ¬Returns e (⟨c, t, r⟩ : Event cls)) :
      ∃ m, SameData s m ∧ NotReady m e ∧ m.scheduled.score? e = s.scheduled.score? e ∧
        SameAt e m s' ∧ ¬Returns e (⟨c, t, r⟩ : Event cls) := ⟨s, .refl s, h, rfl, hs, hr⟩
  cases c with
  | enqueue x a =>
    refine still (.enqueue (fun heq => haim heq.symm) kind a s) ?_
    rcases astoreAndPush_cases kind x a t s with hr | ⟨s', hr, -⟩ <;> simp [Returns, Redis.exec, hr]
  | storeAndDiscard x =>
    exact still (.storeAndDiscard (fun heq => haim heq.symm) x.toDict s) (by simp [Returns, Redis.exec])
  | dequeue =>
    obtain ⟨m, h₁, h₂, h₃, h₄, h₅⟩ := h.dequeue hd kind
    exact ⟨m, h₁, h₂, h₃, h₄, by simpa [Returns, Redis.exec] using h₅⟩
  | claim w lease x =>
    obtain ⟨h₁, h₂⟩ := h.claim hd kind w lease x
    obtain ⟨h₃, h₄⟩ := h.prepare hd kind
    exact ⟨_, prepare_sameData kind t s, h₃, h₄, h₁, by simpa [Returns, Redis.exec] using h₂⟩
  | renew w lease id =>
    have he : e ≠ id := fun heq => haim heq.symm
    refine still ?_ (by simp [Returns, Redis.exec])
    rcases renew_cases w lease id t s with ⟨r, hr, -⟩ | ⟨c, cur, raw, hc, -, -, -, hr⟩
    · simp only [Redis.exec, hr]
      exact .refl e s
    · simp only [Redis.exec, hr]
      exact ⟨rfl, rfl, rfl, rfl, rfl, by simp [he], by simp [he]⟩
  | release w id delay =>
    exact still (.release (fun heq => haim heq.symm) kind w delay t s) (by simp [Returns, Redis.exec])
  | markRunning w x =>
    have he : e ≠ x.id := fun heq => haim heq.symm
    refine still ?_ (by simp [Returns, Redis.exec])
    rcases markRunning_cases w x.id x.toDict s with ⟨hr, -⟩ | ⟨-, -, hr⟩
    · simp only [Redis.exec, hr]
      exact .refl e s
    · simp only [Redis.exec, hr]
      exact .setRecord he x.toDict s
  | settle w x =>
    have he : e ≠ x.id := fun heq => haim heq.symm
    refine still ?_ (by simp [Returns, Redis.exec])
    rcases settle_cases w x.id x.toDict s with ⟨hr, -⟩ | ⟨-, -, hr⟩
    · simp only [Redis.exec, hr]
      exact .refl e s
    · simp only [Redis.exec, hr]
      exact (SameAt.setRecord he x.toDict s).trans (.dropClaim he _)
  | recover batch => exact still (.recover haim kind) (by simp [Returns, Redis.exec])
  | remove w id => exact hc.elim
  | ack w id => exact hc.elim
  | prune id => exact hc.elim
  | delete id => exact hc.elim
  | pushPriority id p => exact hc.elim
  | popPriority => exact hc.elim
  | discardPriority id => exact hc.elim

end NotReady

end DjangoQueues.Redis
