import DjangoQueues.Redis.Delivery

/-! An entry that fails before it is dispatched. `django_queue_store_and_discard` takes its id out
of the pending list, the priority set and the schedule; a delayed retry or a claim that is
released later still delivers it. -/

namespace DjangoQueues.Redis

variable {cls : EntryClass} {kind : QueueKind} {s : Store} {e : EntryId} {t : ServerTime}

/-- A tracked call that fails no delayed entry and gives back no failed one. -/
def Clean (s : Store) (c : Call cls) : Prop :=
  Tracked s c ∧
    match c with
    | .storeAndDiscard x => s.delayed.score? x.id = none
    | .release w id _ => s.owner? id = some w → recordStatus (s.records.get? id) ≠ some "failed"
    | _ => True

/-- The entry has failed and waits nowhere. -/
structure Dead (s : Store) (e : EntryId) : Prop where
  notReady : NotReady s e
  scheduled : s.scheduled.score? e = none
  failed : recordStatus (s.records.get? e) = some "failed"

namespace Dead

theorem sameAt {s' : Store} (h : Dead s e) (hs : SameAt e s s') : Dead s' e where
  notReady := hs.notReady h.notReady
  scheduled := hs.scheduled.trans h.scheduled
  failed := by rw [hs.records, h.failed]

/-- No script reads another status than `failed`. -/
theorem statusText_ne (h : Dead s e) {st : String} (hst : st ≠ "failed") : statusText (s.records.get? e) ≠ some st := by
  intro hs
  have hfailed := h.failed
  rw [recordStatus_of_statusText hs, Option.some.injEq] at hfailed
  exact hst hfailed

theorem not_unfinished (h : Dead s e) :
    ¬(statusText (s.records.get? e) = some "queued" ∨ statusText (s.records.get? e) = some "running") :=
  not_or.mpr ⟨h.statusText_ne (by decide), h.statusText_ne (by decide)⟩

/-- Recovery discards the claim of a failed entry. -/
theorem recoverOne (h : Dead s e) {redeliver : Lua → EntryId → Store → Store}
    (hre : ∀ id, e ≠ id → ∀ entry s, SameAt e s (redeliver entry id s)) (now : ℚ) (id : EntryId) :
    Dead (Library.recoverOne redeliver now id s).2 e := by
  by_cases he : e = id
  · subst he
    have hcase := Library.recoverOne_case redeliver now e s
    generalize Library.recoverOne redeliver now e s = res at hcase
    cases hcase with
    | kept hd hlt => exact ⟨⟨h.notReady.1, h.notReady.2, h.notReady.3⟩, h.scheduled, h.failed⟩
    | discarded hd hs => exact ⟨⟨h.notReady.1, h.notReady.2, h.notReady.3⟩, h.scheduled, h.failed⟩
    | error hd hr hs hx => exact absurd (hr ▸ hs) h.not_unfinished
    | recovered hd hr hs hx => exact absurd (hr ▸ hs) h.not_unfinished
  · exact h.sameAt (.recoverOne (hre id he) now he s)

theorem recover (h : Dead s e) (kind : QueueKind) (batch : ℕ) (t : ServerTime) :
    Dead (arecover kind batch t s).2 e := by
  have hloop {redeliver : Lua → EntryId → Store → Store}
      (hre : ∀ id, e ≠ id → ∀ entry s, SameAt e s (redeliver entry id s)) :
      Dead (Library.recoverLoop redeliver t.nowUs (Library.dueClaims batch t.nowUs s) 0 0 s).2 e := by
    obtain ⟨rest, hdead⟩ := Library.recoverLoop_rule (I := fun _ m => Dead m e)
      (fun id ids m hm => hm.recoverOne hre t.nowUs id) (Library.dueClaims batch t.nowUs s) 0 0 s h
    exact hdead
  cases kind with
  | priority => exact hloop fun id hne _ s => .pushPriority hne _ s
  | _ => exact hloop fun id hne _ s => .append hne s

/-- A clean call on the failed id itself changes nothing it depends on. -/
theorem aimed (h : Dead s e) {c : Call cls} (hc : Clean s c) (haim : Aims s t e c) (kind : QueueKind) :
    Dead (exec kind c t s).2 e ∧ ¬Returns e ⟨c, t, (exec kind c t s).1⟩ := by
  obtain ⟨htracked, hclean⟩ := hc
  have hfailed := h.failed
  cases c with
  | enqueue x a =>
    obtain rfl : x.id = e := haim
    rw [htracked.2] at hfailed
    cases hfailed
  | storeAndDiscard x =>
    obtain rfl : x.id = e := haim
    rw [htracked.2] at hfailed
    simp at hfailed
  | renew w lease id =>
    refine ⟨?_, by simp [Returns, exec]⟩
    rcases Library.renew_cases w lease id t s with ⟨r, hr, -⟩ | ⟨c, cur, raw, hc, -, -, -, hr⟩
    · simp only [exec, hr]
      exact h
    · simp only [exec, hr]
      exact ⟨⟨h.notReady.1, h.notReady.2, h.notReady.3⟩, h.scheduled, h.failed⟩
  | release w id delay =>
    obtain rfl : id = e := haim
    have hno : s.owner? id ≠ some w := fun ho => hclean ho hfailed
    rw [refused_of_not_owner hno (.release delay) kind t]
    exact ⟨h, by simp [Returns]⟩
  | markRunning w x =>
    obtain rfl : x.id = e := haim
    refine ⟨?_, by simp [Returns, exec]⟩
    rcases Library.markRunning_cases w x.id x.toDict s with ⟨hr, -⟩ | ⟨-, hq, -⟩
    · simp only [exec, hr]
      exact h
    · exact absurd hq (h.statusText_ne (by decide))
  | settle w x =>
    obtain rfl : x.id = e := haim
    refine ⟨?_, by simp [Returns, exec]⟩
    rcases Library.settle_cases w x.id x.toDict s with ⟨hr, -⟩ | ⟨-, hq, -⟩
    · simp only [exec, hr]
      exact h
    · exact absurd hq (h.statusText_ne (by decide))
  | recover batch => exact ⟨h.recover kind batch t, by simp [Returns, exec]⟩
  | _ => exact haim.elim

theorem step {g g' : Timed} (h : Dead g.store e) {l : Event cls} (hs : Occurs kind Clean g l g') :
    Dead g'.store e ∧ ¬Returns e l := by
  obtain ⟨c, t, r⟩ := l
  have hstore : (exec kind c t g.store).2 = g'.store := congrArg Prod.snd hs.exec_eq
  have hreply : (exec kind c t g.store).1 = r := congrArg Prod.fst hs.exec_eq
  rw [← hstore, ← hreply]
  by_cases haim : Aims g.store t e c
  · exact h.aimed hs.ok haim kind
  · have hdue : NotDue g.store e t := fun x hx => by
      rw [h.scheduled] at hx
      cases hx
    obtain ⟨m, hsame, hready, hsched, hat, hret⟩ := h.notReady.exec hdue hs.ok.1 haim kind
    have hm : Dead m e := ⟨hready, hsched.trans h.scheduled, by rw [hsame.records, h.failed]⟩
    exact ⟨hm.sameAt hat, hret⟩

theorem run {g g' : Timed} (h : Dead g.store e) {ls : List (Event cls)} (hrun : Run (Occurs kind Clean) g ls g') :
    ∀ l ∈ ls, ¬Returns e l := by
  induction hrun with
  | nil _ => exact fun l hl => by cases hl
  | cons hs _ ih =>
    obtain ⟨hdead, hret⟩ := h.step hs
    intro l hl
    rcases List.mem_cons.mp hl with rfl | hl
    · exact hret
    · exact ih hdead l hl

/-- A failure of an entry that is not delayed takes it out of every place. -/
theorem of_storeAndDiscard {x : QueueEntry cls} (hst : x.status = .failed) (hdelayed : s.delayed.score? x.id = none) :
    Dead (Library.storeAndDiscard x.toDict x.id s) x.id := by
  have hreset (m : Store) (hm : Dead m x.id) : Dead (Library.resetSequence m) x.id := hm.sameAt (.resetSequence _ m)
  apply hreset
  refine ⟨⟨?_, hdelayed, ?_⟩, ?_, ?_⟩
  · rw [List.count_eq_zero, List.mem_filter]
    simp
  · simp
  · simp
  · simp only [Dict.get?_set, if_true]
    rw [recordStatus_toDict, hst]
    rfl

end Dead

/-- In every run that fails no delayed entry and gives back no failed one, an entry that failed
before dispatch is not handed out again. -/
theorem failed_before_dispatch_final (kind : QueueKind) (t₀ : ServerTime) (before after : List (Event cls))
    {x : QueueEntry cls} {t : ServerTime} {r : Reply} {g : Timed}
    (h : Run (Occurs kind Clean) (.init t₀) (before ++ ⟨.storeAndDiscard x, t, r⟩ :: after) g) :
    ∀ l ∈ after, ¬Returns x.id l := by
  obtain ⟨g₁, -, hrest⟩ := h.of_append
  cases hrest with
  | @cons _ g₂ _ _ _ hs hrun =>
    have hdead : Dead g₂.store x.id := by
      have hstore : Library.storeAndDiscard x.toDict x.id g₁.store = g₂.store := congrArg Prod.snd hs.exec_eq
      rw [← hstore]
      exact Dead.of_storeAndDiscard hs.ok.1.1 hs.ok.2
    exact hdead.run hrun

/-- The failed copy of an entry. -/
def failedCopy (id : EntryId) : QueueEntry .base := { QueueEntry.plain id .null with status := .failed }

/-- A pending entry fails; the next claim finds nothing. -/
theorem failed_before_dispatch_final_pending :
    let t : ServerTime := .ofSeconds 1000 ServerTime.second_1000
    let fail : Event .base := ⟨.storeAndDiscard (failedCopy (.ofLast 1)), t, .done⟩
    ∃ before after, history .fifo [(.enqueue (.plain (.ofLast 1) .null) none, t),
        (.storeAndDiscard (failedCopy (.ofLast 1)), t), (.claim "w" defaultClaimLease false, t)] .empty =
      before ++ fail :: after ∧ ∀ l ∈ after, ¬Returns (.ofLast 1) l := by
  intro t fail
  have hpermits : Permits .fifo Clean [(.enqueue (.plain (.ofLast 1) .null) none, t),
      (.storeAndDiscard (failedCopy (.ofLast 1)), t), (.claim "w" defaultClaimLease false, t)] (.init t) :=
    ⟨t.le_refl, ⟨⟨rfl, rfl⟩, trivial⟩, t.le_refl, ⟨⟨rfl, rfl⟩, rfl⟩, t.le_refl, ⟨rfl, trivial⟩, trivial⟩
  obtain ⟨g, hrun⟩ := run_history hpermits
  exact ⟨[_], [_], rfl, failed_before_dispatch_final .fifo t [_] [_] hrun⟩

/-- An entry comes back after it failed: in the first run it waited for a retry, in the second
one it was claimed and is released. -/
theorem failed_before_dispatch_returned :
    let t : ServerTime := .ofSeconds 1000 ServerTime.second_1000
    let t' : ServerTime := .ofSeconds 2000 ServerTime.second_2000
    let claim : Call .base := .claim "w" defaultClaimLease false
    let fail : Call .base := .storeAndDiscard (failedCopy (.ofLast 1))
    let delayed := [(.enqueue (.plain (.ofLast 1) .null) none, t), (claim, t), (.release "w" (.ofLast 1) 1000000, t),
      (fail, t), (claim, t')]
    let claimed := [(.enqueue (.plain (.ofLast 1) .null) none, t), (claim, t), (fail, t),
      (.release "w" (.ofLast 1) 1000000, t), (claim, t')]
    (∃ g before after, Run (Occurs .fifo Tracked) (.init t) (history .fifo delayed .empty) g ∧
        history .fifo delayed .empty = before ++ ⟨fail, t, .done⟩ :: after ∧ ∃ l ∈ after, Returns (.ofLast 1) l) ∧
      ∃ g before after, Run (Occurs .fifo Tracked) (.init t) (history .fifo claimed .empty) g ∧
        history .fifo claimed .empty = before ++ ⟨fail, t, .done⟩ :: after ∧ ∃ l ∈ after, Returns (.ofLast 1) l := by
  intro t t' claim fail delayed claimed
  have hle : t ≤ t' := by decide
  have hdelayed : Permits .fifo Tracked delayed (.init t) :=
    ⟨t.le_refl, ⟨rfl, rfl⟩, t.le_refl, rfl, t.le_refl, trivial, t.le_refl, ⟨rfl, by decide +kernel⟩, hle, rfl, trivial⟩
  have hclaimed : Permits .fifo Tracked claimed (.init t) :=
    ⟨t.le_refl, ⟨rfl, rfl⟩, t.le_refl, rfl, t.le_refl, ⟨rfl, by decide +kernel⟩, t.le_refl, trivial, hle, rfl, trivial⟩
  have hfirst : (aclaim .fifo "w" defaultClaimLease false t' (execAll .fifo delayed.dropLast .empty)).1 =
      .ok (.claimed (.ofLast 1)) := by decide +kernel
  have hsecond : (aclaim .fifo "w" defaultClaimLease false t' (execAll .fifo claimed.dropLast .empty)).1 =
      .ok (.claimed (.ofLast 1)) := by decide +kernel
  obtain ⟨g, hrun⟩ := run_history hdelayed
  obtain ⟨g', hrun'⟩ := run_history hclaimed
  exact ⟨⟨g, [_, _, _], [_], hrun, rfl, _, List.mem_singleton.mpr rfl, .inl (congrArg Reply.claimed hfirst)⟩,
    g', [_, _], [_, _], hrun', rfl, _, List.mem_cons_of_mem _ (List.mem_singleton.mpr rfl),
    .inl (congrArg Reply.claimed hsecond)⟩

end DjangoQueues.Redis
