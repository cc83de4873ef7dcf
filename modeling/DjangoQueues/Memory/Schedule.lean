import DjangoQueues.Lib.Run
import DjangoQueues.Memory.Claims
import DjangoQueues.Memory.Queue

/-! Scheduled entries of an in-process queue. As on Redis, an id whose instant is still to come
is scheduled and nowhere else. -/

namespace DjangoQueues.Memory

open Redis (QueueKind)

variable {cls : EntryClass} {kind : QueueKind} {s s' : State cls} {e id : EntryId} {now : ClockTime}

/-- One call of a producer, a consumer or a worker. -/
inductive Call (cls : EntryClass) where
  | enqueue (e : QueueEntry cls) (availableAt : Option ClockTime)
  | dequeue
  | claim (w : WorkerId) (lease : Option ℕ)
  | renew (w : WorkerId) (lease : ℕ) (id : EntryId)
  | release (w : WorkerId) (id : EntryId) (delay : ℕ)
  | fail (e : QueueEntry cls)

/-- A call that reads the clock at `started`, and at `time` if it does so twice. -/
def exec (kind : QueueKind) (c : Call cls) (started time : ClockTime) (s : State cls) :
    Option (Except QueueError (QueueEntry cls)) × State cls :=
  match c with
  | .enqueue e a => (none, Queue.astoreAndPush kind e a time s)
  | .dequeue => let r := Queue.adequeue kind time s; (some r.1, r.2)
  | .claim w lease => let r := s.aclaim kind.isStack w lease false started time; (some r.1, r.2)
  | .renew w lease id => (none, (s.arenew w lease id time).2)
  | .release w id delay => (none, (s.arelease w id delay time).2)
  | .fail e => (none, Queue.astoreAndDiscard kind e s)

/-- A new entry has a fresh id, and only a queued entry fails before dispatch. -/
def Tracked (s : State cls) : Call cls → Prop
  | .enqueue x _ => s.entries.get? x.id = none
  | .fail x => x.status = .failed ∧ ∃ e₀, s.entries.get? x.id = some e₀ ∧ e₀.status = .queued
  | _ => True

structure Event (cls : EntryClass) where
  call : Call cls
  started : ClockTime
  time : ClockTime
  reply : Option (Except QueueError (QueueEntry cls))

structure Timed (cls : EntryClass) where
  state : State cls
  now : ClockTime

def Timed.init (t : ClockTime) : Timed cls := ⟨.empty, t⟩

structure Occurs (kind : QueueKind) (g : Timed cls) (l : Event cls) (g' : Timed cls) : Prop where
  started : g.now ≤ l.started
  le : l.started ≤ l.time
  ok : Tracked g.state l.call
  exec_eq : exec kind l.call l.started l.time g.state = (l.reply, g'.state)
  now_eq : g'.now = l.time

def Returns (id : EntryId) (l : Event cls) : Prop := ∃ x, l.reply = some (.ok x) ∧ x.id = id

/-! ## Ids that no call can hand out -/

/-- The id is neither ready nor under a claim. -/
structure Shelved (s : State cls) (e : EntryId) : Prop where
  pending : e ∉ s.pending
  priority : ∀ item ∈ s.pendingPriority, item.2.2 ≠ e
  claim : s.claims.get? e = none
  claimDeadline : s.claimDeadlines.get? e = none

/-- What a call has left of a shelved id. -/
structure StillShelved (s : State cls) (e : EntryId) (s' : State cls) : Prop extends Shelved s' e where
  scheduled : s'.scheduled.get? e = s.scheduled.get? e ∨ s'.scheduled.get? e = none
  entries : (s'.entries.get? e).isSome = (s.entries.get? e).isSome

/-- Entries are stored under their own ids. -/
def Keyed (s : State cls) : Prop := ∀ id x, s.entries.get? id = some x → x.id = id

namespace State

theorem mem_candidates (h : id ∈ s.candidates now) : ∃ a, s.scheduled.get? id = some a ∧ a ≤ now := by
  unfold candidates at h
  dsimp only at h
  split at h
  · cases h
  · obtain ⟨⟨i, a⟩, hp, rfl⟩ := List.mem_map.mp h
    have hdue := List.mem_filter.mp (List.mem_filter.mp hp).1
    exact ⟨a, Dict.get?_eq_some.mpr hdue.1, by simpa using hdue.2⟩

theorem foldl_adiscardScheduled (ids : List EntryId) (s : State cls) :
    ∃ d, ids.foldl (fun s id => s.adiscardScheduled id) s = { s with scheduled := d } ∧
      (∀ e ∉ ids, d.get? e = s.scheduled.get? e) ∧ ∀ e a, d.get? e = some a → s.scheduled.get? e = some a := by
  induction ids generalizing s with
  | nil => exact ⟨s.scheduled, rfl, fun _ _ => rfl, fun _ _ h => h⟩
  | cons id ids ih =>
    obtain ⟨d, hd, hget, hsub⟩ := ih (s.adiscardScheduled id)
    refine ⟨d, hd, fun e he => ?_, fun e a ha => ?_⟩
    · rw [List.mem_cons, not_or] at he
      rw [hget e he.2, adiscardScheduled, Dict.get?_erase, if_neg he.1]
    · have hmid := hsub e a ha
      rw [adiscardScheduled, Dict.get?_erase] at hmid
      split_ifs at hmid
      exact hmid

theorem greatest_mem {ids : List EntryId} (h : s.greatest ids = some id) : id ∈ ids := by
  cases ids with
  | nil => cases h
  | cons a l =>
    obtain rfl := Option.some.inj h
    exact List.foldl_choice_mem (fun a b => by split_ifs <;> simp) l a

/-- Only the schedule changes, nothing that is not due leaves it, and what is popped was due. -/
theorem popNextDueScheduledLoop_spec (priority : Bool) (now : ClockTime) (n : ℕ) (s : State cls) :
    ∃ d, (popNextDueScheduledLoop priority now n s).2 = { s with scheduled := d } ∧
      (∀ e, (∀ a, s.scheduled.get? e = some a → now < a) → d.get? e = s.scheduled.get? e) ∧
      ∀ id ∈ (popNextDueScheduledLoop priority now n s).1, ∃ a, s.scheduled.get? id = some a ∧ a ≤ now := by
  induction n generalizing s with
  | zero => exact ⟨s.scheduled, rfl, fun _ _ => rfl, fun id hid => by cases hid⟩
  | succ n ih =>
    unfold popNextDueScheduledLoop
    by_cases hc : s.candidates now = []
    · rw [if_pos hc]
      exact ⟨s.scheduled, rfl, fun _ _ => rfl, fun id hid => by cases hid⟩
    · rw [if_neg hc]
      dsimp only
      have hlate (e : EntryId) (he : ∀ a, s.scheduled.get? e = some a → now < a) : e ∉ s.candidates now := fun hin => by
        obtain ⟨a, ha, hle⟩ := mem_candidates hin
        exact absurd hle (not_le.mpr (he a ha))
      obtain ⟨d, hd, hget, hsub⟩ := foldl_adiscardScheduled ((s.candidates now).filter (! s.isQueued ·)) s
      rw [hd]
      have hkeep (e : EntryId) (he : ∀ a, s.scheduled.get? e = some a → now < a) : d.get? e = s.scheduled.get? e :=
        hget e fun hin => hlate e he (List.mem_of_mem_filter hin)
      cases hchoice : (if priority then s.greatest ((s.candidates now).filter s.isQueued)
          else ((s.candidates now).filter s.isQueued).head?) with
      | none =>
        obtain ⟨d', hd', hget', hpop⟩ := ih { s with scheduled := d }
        refine ⟨d', hd', fun e he => ?_, fun id hid => ?_⟩
        · rw [hget' e (by rw [hkeep e he]; exact he), hkeep e he]
        · obtain ⟨a, ha, hle⟩ := hpop id hid
          exact ⟨a, hsub id a ha, hle⟩
      | some id =>
        have hmem : id ∈ s.candidates now := by
          cases priority with
          | true => exact List.mem_of_mem_filter (greatest_mem hchoice)
          | false => exact List.mem_of_mem_filter (List.mem_of_mem_head? hchoice)
        refine ⟨d.erase id, rfl, fun e he => ?_, fun id' hid' => ?_⟩
        · have hne : e ≠ id := fun heq => hlate e he (heq ▸ hmem)
          rw [Dict.get?_erase, if_neg hne, hkeep e he]
        · obtain rfl := Option.some.inj hid'
          exact mem_candidates hmem

end State

namespace Shelved

open State

theorem popNextDueScheduled (h : Shelved s e) (hlate : ∀ a, s.scheduled.get? e = some a → now < a) (priority : Bool) :
    StillShelved s e (s.popNextDueScheduled priority now).2 ∧ e ∉ (s.popNextDueScheduled priority now).1 := by
  obtain ⟨d, hd, hget, hpop⟩ := popNextDueScheduledLoop_spec priority now (s.scheduled.items.length + 1) s
  refine ⟨?_, fun hin => ?_⟩
  · rw [State.popNextDueScheduled, hd]
    exact ⟨⟨h.pending, h.priority, h.claim, h.claimDeadline⟩, .inl (hget e hlate), rfl⟩
  · obtain ⟨a, ha, hle⟩ := hpop e hin
    exact absurd hle (not_le.mpr (hlate a ha))

theorem promote (h : Shelved s e) (hlate : ∀ a, s.scheduled.get? e = some a → now < a) :
    StillShelved s e (s.apromoteScheduled now) := by
  obtain ⟨hstill, hpop⟩ := h.popNextDueScheduled hlate false
  unfold apromoteScheduled
  rcases hr : s.popNextDueScheduled false now with ⟨_ | id, m⟩
  · rw [hr] at hstill
    exact hstill
  · rw [hr] at hstill hpop
    have hne : e ≠ id := fun heq => hpop (heq ▸ rfl)
    refine { hstill with pending := ?_ }
    show e ∉ m.pending ++ [id]
    rw [List.mem_append, List.mem_singleton, not_or]
    exact ⟨hstill.pending, hne⟩

theorem promotePriority (h : Shelved s e) (hlate : ∀ a, s.scheduled.get? e = some a → now < a) :
    StillShelved s e (s.apromoteScheduledPriority now) := by
  obtain ⟨hstill, hpop⟩ := h.popNextDueScheduled hlate true
  unfold apromoteScheduledPriority
  rcases hr : s.popNextDueScheduled true now with ⟨_ | id, m⟩
  · rw [hr] at hstill
    exact hstill
  · rw [hr] at hstill hpop
    have hne : e ≠ id := fun heq => hpop (heq ▸ rfl)
    refine { hstill with priority := fun item hitem => ?_ }
    rcases List.mem_append.mp hitem with hin | hin
    · exact hstill.priority item hin
    · rw [List.mem_singleton.mp hin]
      exact hne.symm

theorem trans {s₁ s₂ : State cls} (h : StillShelved s e s₁) (h' : StillShelved s₁ e s₂) : StillShelved s e s₂ := by
  refine { h' with scheduled := ?_, entries := h'.entries.trans h.entries }
  rcases h'.scheduled with heq | hnone
  · rw [heq]
    exact h.scheduled
  · exact .inr hnone

theorem recoverClaim (h : Shelved s e) (hne : e ≠ id) (now : ClockTime) :
    StillShelved s e (s.recoverClaim now id) := by
  have hbase : StillShelved s e
      { s with claims := s.claims.erase id, claimDeadlines := s.claimDeadlines.erase id } :=
    ⟨⟨h.pending, h.priority, by simp [hne, h.claim], by simp [hne, h.claimDeadline]⟩, .inl rfl, rfl⟩
  have hpush (m : State cls) (hm : StillShelved s e m) : StillShelved s e (m.apush id) := by
    refine { hm with pending := ?_ }
    show e ∉ m.pending ++ [id]
    rw [List.mem_append, List.mem_singleton, not_or]
    exact ⟨hm.pending, hne⟩
  unfold State.recoverClaim
  dsimp only
  split_ifs
  · exact hbase
  · split
    · exact hpush _ hbase
    · apply hpush
      exact ⟨⟨hbase.pending, hbase.priority, hbase.claim, hbase.claimDeadline⟩, .inl rfl, rfl⟩

/-- Recovery takes up claims only. -/
theorem recoverExpiredClaims (h : Shelved s e) (now : ClockTime) : StillShelved s e (s.recoverExpiredClaims now) := by
  have hfold (ids : List EntryId) (m : State cls) (hids : e ∉ ids) (hm : StillShelved s e m) :
      StillShelved s e (ids.foldl (fun s id => s.recoverClaim now id) m) := by
    induction ids generalizing m with
    | nil => exact hm
    | cons id ids ih =>
      rw [List.mem_cons, not_or] at hids
      exact ih _ hids.2 (trans hm (hm.toShelved.recoverClaim hids.1 now))
  refine hfold _ s (fun hin => ?_) ⟨h, .inl rfl, rfl⟩
  obtain ⟨⟨i, d⟩, hp, rfl⟩ := List.mem_map.mp hin
  have hsome := Dict.get?_eq_some.mpr (List.mem_of_mem_filter hp)
  rw [h.claimDeadline] at hsome
  cases hsome

theorem getPending (h : Shelved s e) (stack : Bool) :
    StillShelved s e (s.getPending stack).2 ∧ e ∉ (s.getPending stack).1 ∧
      (s.getPending stack).2.entries = s.entries := by
  unfold State.getPending
  cases stack with
  | true =>
    have hsub : e ∉ s.pending.dropLast := fun hin => h.pending (List.mem_of_mem_dropLast hin)
    exact ⟨⟨⟨hsub, h.priority, h.claim, h.claimDeadline⟩, .inl rfl, rfl⟩,
      fun hin => h.pending (List.mem_of_getLast? hin), rfl⟩
  | false =>
    have hsub : e ∉ s.pending.tail := fun hin => h.pending (List.mem_of_mem_tail hin)
    exact ⟨⟨⟨hsub, h.priority, h.claim, h.claimDeadline⟩, .inl rfl, rfl⟩,
      fun hin => h.pending (List.mem_of_mem_head? hin), rfl⟩

/-- The loop of a claim passes over the id, whichever way it ends. -/
theorem aclaimLoop (h : Shelved s e) (hk : Keyed s) (stack : Bool) (w : WorkerId) (lease : Option ℕ)
    (now : ClockTime) (n : ℕ) :
    StillShelved s e (s.aclaimLoop stack w lease false now n).2 ∧
      ∀ x, (s.aclaimLoop stack w lease false now n).1 = .ok x → x.id ≠ e := by
  -- each turn pops an id that is not shelved and puts it back or claims it
  induction n generalizing s with
  | zero => exact ⟨⟨h, .inl rfl, rfl⟩, fun x hx => by cases hx⟩
  | succ n ih =>
    obtain ⟨hstill, hpop, hentries⟩ := h.getPending stack
    rw [aclaimLoop_succ]
    rcases hget : s.getPending stack with ⟨_ | id, m⟩
    · rw [hget] at hstill
      exact ⟨hstill, fun x hx => by cases hx⟩
    · rw [hget] at hstill hpop hentries
      have hne : e ≠ id := fun heq => hpop (heq ▸ rfl)
      have hkm : Keyed m := fun id x hx => hk id x (hentries ▸ hx)
      have hpush : StillShelved s e (m.apush id) := by
        refine { hstill with pending := ?_ }
        show e ∉ m.pending ++ [id]
        rw [List.mem_append, List.mem_singleton, not_or]
        exact ⟨hstill.pending, hne⟩
      dsimp only
      by_cases hdelayed : m.isDelayed now id
      · rw [if_pos hdelayed, requeueSkippedPending]
        cases stack with
        | true => exact ⟨hstill, fun x hx => by cases hx⟩
        | false =>
          obtain ⟨h₁, h₂⟩ := ih hpush.toShelved hkm
          exact ⟨trans hpush h₁, h₂⟩
      · rw [if_neg hdelayed]
        have hcase := claimPopped_case stack w lease false now id m
        generalize m.claimPopped stack w lease false now id = res at hcase
        cases hcase with
        | stuck hs hc => exact ⟨hstill, fun x hx => by cases hx⟩
        | conflict hs hc => exact ⟨hpush, fun x hx => by cases hx⟩
        | missing hc he => exact ⟨hstill, fun x hx => by cases hx⟩
        | undated hx => cases hx
        | expired hx => cases hx
        | @claimed x q hc he hq =>
          cases hq
          refine ⟨{ hstill with claim := ?_, claimDeadline := ?_ }, fun y hy => ?_⟩
          · show (m.claims.set id w).get? e = none
            rw [Dict.get?_set, if_neg hne]
            exact hstill.claim
          · have hdeadline : m.claimDeadlines.get? e = none := hstill.claimDeadline
            cases lease with
            | none => exact hdeadline
            | some l =>
              show (m.claimDeadlines.set id (now.add l)).get? e = none
              rw [Dict.get?_set, if_neg hne, hdeadline]
          · obtain rfl := Except.ok.inj hy
            rw [hkm id x he]
            exact hne.symm

end Shelved

/-! ## Entries -/

namespace State

theorem entries_popNextDueScheduled (priority : Bool) (now : ClockTime) (s : State cls) :
    (s.popNextDueScheduled priority now).2.entries = s.entries := by
  obtain ⟨d, hd, -⟩ := popNextDueScheduledLoop_spec priority now (s.scheduled.items.length + 1) s
  rw [popNextDueScheduled, hd]

theorem entries_apromoteScheduled (now : ClockTime) (s : State cls) :
    (s.apromoteScheduled now).entries = s.entries := by
  have hpop := entries_popNextDueScheduled false now s
  unfold apromoteScheduled
  rcases hr : s.popNextDueScheduled false now with ⟨_ | id, m⟩
  · rw [hr] at hpop
    exact hpop
  · rw [hr] at hpop
    exact hpop

theorem entries_apromoteScheduledPriority (now : ClockTime) (s : State cls) :
    (s.apromoteScheduledPriority now).entries = s.entries := by
  have hpop := entries_popNextDueScheduled true now s
  unfold apromoteScheduledPriority
  rcases hr : s.popNextDueScheduled true now with ⟨_ | id, m⟩
  · rw [hr] at hpop
    exact hpop
  · rw [hr] at hpop
    exact hpop

theorem entries_recoverClaim (now : ClockTime) (id : EntryId) (s : State cls) :
    (s.recoverClaim now id).entries = s.entries := by
  unfold recoverClaim
  dsimp only
  split_ifs
  · rfl
  · split <;> rfl

theorem entries_recoverExpiredClaims (now : ClockTime) (s : State cls) :
    (s.recoverExpiredClaims now).entries = s.entries := by
  have hfold (ids : List EntryId) (m : State cls) :
      (ids.foldl (fun s id => s.recoverClaim now id) m).entries = m.entries := by
    induction ids generalizing m with
    | nil => rfl
    | cons id ids ih => exact (ih _).trans (entries_recoverClaim now id m)
  exact hfold _ s

theorem entries_getPending (stack : Bool) (s : State cls) : (s.getPending stack).2.entries = s.entries := by
  unfold getPending
  cases stack <;> rfl

theorem entries_aclaimLoop (stack : Bool) (w : WorkerId) (lease : Option ℕ) (now : ClockTime) (n : ℕ)
    (s : State cls) : (s.aclaimLoop stack w lease false now n).2.entries = s.entries := by
  induction n generalizing s with
  | zero => rfl
  | succ n ih =>
    have hentries := entries_getPending stack s
    rw [aclaimLoop_succ]
    rcases hget : s.getPending stack with ⟨_ | id, m⟩
    · rw [hget] at hentries
      exact hentries
    · rw [hget] at hentries
      dsimp only
      by_cases hdelayed : m.isDelayed now id
      · rw [if_pos hdelayed, requeueSkippedPending]
        cases stack with
        | true => exact hentries
        | false => exact (ih (m.apush id)).trans hentries
      · rw [if_neg hdelayed]
        have hcase := claimPopped_case stack w lease false now id m
        generalize m.claimPopped stack w lease false now id = res at hcase
        cases hcase with
        | undated hx => cases hx
        | expired hx => cases hx
        | claimed hc he hq =>
          cases hq
          exact hentries
        | _ => exact hentries

theorem entries_apop (stack : Bool) (s : State cls) : (s.apop stack).2.entries = s.entries := by
  have hentries := entries_getPending stack s
  unfold apop
  rcases hget : s.getPending stack with ⟨_ | id, m⟩
  · rw [hget] at hentries
    exact hentries
  · rw [hget] at hentries
    exact hentries

theorem entries_apopPriority (s : State cls) : s.apopPriority.2.entries = s.entries := by
  unfold apopPriority
  split <;> rfl

end State

open State

theorem entries_astoreAndPush (kind : QueueKind) (e : QueueEntry cls) (a : Option ClockTime) (now : ClockTime)
    (s : State cls) : (Queue.astoreAndPush kind e a now s).entries = s.entries.set e.id e := by
  unfold Queue.astoreAndPush
  cases a with
  | none => cases kind <;> rfl
  | some a =>
    dsimp only
    split_ifs
    · rfl
    · cases kind <;> rfl

theorem entries_adequeue (kind : QueueKind) (now : ClockTime) (s : State cls) :
    (Queue.adequeue kind now s).2.entries = s.entries := by
  cases kind with
  | priority => exact (entries_apopPriority _).trans (entries_apromoteScheduledPriority now s)
  | _ => exact (entries_apop _ _).trans (entries_apromoteScheduled now s)

/-- Only an enqueue and a failure store an entry. -/
theorem entries_exec (kind : QueueKind) (c : Call cls) (started time : ClockTime) (s : State cls) :
    (exec kind c started time s).2.entries =
      match c with
      | .enqueue x _ => s.entries.set x.id x
      | .fail x => s.entries.set x.id x
      | _ => s.entries := by
  cases c with
  | enqueue x a => exact entries_astoreAndPush kind x a time s
  | dequeue => exact entries_adequeue kind time s
  | claim w lease =>
    exact (entries_aclaimLoop _ _ _ _ _ _).trans
      ((entries_recoverExpiredClaims started _).trans (entries_apromoteScheduled time s))
  | renew w lease id =>
    have hrec := entries_recoverExpiredClaims time s
    simp only [exec, arenew]
    split_ifs <;> exact hrec
  | release w id delay =>
    simp only [exec, arelease]
    split_ifs
    · dsimp only
      split <;> rfl
    · rfl
  | fail x => cases kind <;> rfl

theorem Keyed.exec (h : Keyed s) (kind : QueueKind) (c : Call cls) (started time : ClockTime) :
    Keyed (Memory.exec kind c started time s).2 := by
  have hset (x : QueueEntry cls) : ∀ id y, (s.entries.set x.id x).get? id = some y → y.id = id := fun id y hy => by
    rw [Dict.get?_set] at hy
    split_ifs at hy with heq
    · rw [← Option.some.inj hy, heq]
    · exact h id y hy
  unfold Keyed
  rw [entries_exec]
  cases c with
  | enqueue x a => exact hset x
  | fail x => exact hset x
  | _ => exact h

namespace Shelved

theorem dequeue (h : Shelved s e) (hk : Keyed s) (hlate : ∀ a, s.scheduled.get? e = some a → now < a)
    (kind : QueueKind) : StillShelved s e (Queue.adequeue kind now s).2 ∧
      ∀ x, (Queue.adequeue kind now s).1 = .ok x → x.id ≠ e := by
  have hfind {m : State cls} (hm : m.entries = s.entries) {id : EntryId} (hne : e ≠ id) {x : QueueEntry cls}
      (hx : m.afind id = .ok x) : x.id ≠ e := by
    unfold afind at hx
    cases hg : m.entries.get? id with
    | none => simp [hg] at hx
    | some y =>
      rw [hg] at hx
      obtain rfl := Except.ok.inj hx
      rw [hk id y (hm ▸ hg)]
      exact hne.symm
  have plain (stack : Bool) : StillShelved s e ((s.apromoteScheduled now).apop stack).2 ∧
      ∀ x, ((s.apromoteScheduled now).apop stack).1 = .ok x → x.id ≠ e := by
    have hprom := h.promote hlate
    have hentries := entries_apromoteScheduled now s
    obtain ⟨hstill, hpop, hsame⟩ := hprom.toShelved.getPending stack
    unfold apop
    rcases hget : (s.apromoteScheduled now).getPending stack with ⟨_ | id, m⟩
    · rw [hget] at hstill
      exact ⟨trans hprom hstill, fun x hx => by cases hx⟩
    · rw [hget] at hstill hpop hsame
      exact ⟨trans hprom hstill, fun x hx => hfind (hsame.trans hentries) (fun heq => hpop (heq ▸ rfl)) hx⟩
  cases kind with
  | fifo => exact plain false
  | stack => exact plain true
  | priority =>
    have hprom := h.promotePriority hlate
    have hentries := entries_apromoteScheduledPriority now s
    simp only [Queue.adequeue, apopPriority]
    cases hl : leastItem (s.apromoteScheduledPriority now).pendingPriority with
    | none => exact ⟨hprom, fun x hx => by cases hx⟩
    | some item =>
      have hmem : item ∈ (s.apromoteScheduledPriority now).pendingPriority := (leastItem_le hl).1
      have hne : e ≠ item.2.2 := (hprom.priority item hmem).symm
      refine ⟨{ hprom with priority := fun i hi => hprom.priority i (List.mem_of_mem_erase hi) }, fun x hx => ?_⟩
      exact hfind hentries hne hx

theorem arenew (h : Shelved s e) (w : WorkerId) (lease : ℕ) (id : EntryId) (now : ClockTime) :
    StillShelved s e (s.arenew w lease id now).2 := by
  have hrec := h.recoverExpiredClaims now
  unfold State.arenew
  dsimp only
  split_ifs with ho
  · have hne : e ≠ id := by
      rintro rfl
      rw [hrec.claim] at ho
      cases ho
    refine { hrec with claimDeadline := ?_ }
    rw [Dict.get?_set, if_neg hne]
    exact hrec.claimDeadline
  · exact hrec

theorem arelease (h : Shelved s e) (w : WorkerId) (id : EntryId) (delay : ℕ) (now : ClockTime) :
    StillShelved s e (s.arelease w id delay now).2 := by
  unfold State.arelease
  split_ifs with ho
  · have hne : e ≠ id := by
      rintro rfl
      rw [h.claim] at ho
      cases ho
    have hpending : e ∉ s.pending ++ [id] := by
      rw [List.mem_append, List.mem_singleton, not_or]
      exact ⟨h.pending, hne⟩
    have hclaim : (s.claims.erase id).get? e = none := by simp [hne, h.claim]
    have hdeadline : (s.claimDeadlines.erase id).get? e = none := by simp [hne, h.claimDeadline]
    dsimp only
    split
    · exact ⟨⟨hpending, h.priority, hclaim, hdeadline⟩, .inl rfl, rfl⟩
    · exact ⟨⟨hpending, h.priority, hclaim, hdeadline⟩, .inl rfl, rfl⟩
  · exact ⟨h, .inl rfl, rfl⟩

theorem enqueue (h : Shelved s e) {x : QueueEntry cls} (hne : e ≠ x.id) (a : Option ClockTime) (now : ClockTime)
    (kind : QueueKind) : StillShelved s e (Queue.astoreAndPush kind x a now s) := by
  have hstore : StillShelved s e (s.astore x) :=
    ⟨⟨h.pending, h.priority, h.claim, h.claimDeadline⟩, .inl rfl, by simp [astore, hne]⟩
  have hpush : StillShelved s e (Queue.apush kind x (s.astore x)) := by
    have hpending : e ∉ s.pending ++ [x.id] := by
      rw [List.mem_append, List.mem_singleton, not_or]
      exact ⟨h.pending, hne⟩
    cases kind with
    | priority =>
      refine { hstore with priority := fun item hitem => ?_ }
      rcases List.mem_append.mp hitem with hin | hin
      · exact h.priority item hin
      · rw [List.mem_singleton.mp hin]
        exact hne.symm
    | _ => exact { hstore with pending := hpending }
  unfold Queue.astoreAndPush
  cases a with
  | none => exact hpush
  | some a =>
    dsimp only
    split_ifs
    · refine { hstore with scheduled := .inl ?_ }
      simp [aschedule, astore, hne]
    · exact hpush

theorem fail (h : Shelved s e) {x : QueueEntry cls} (hx : (s.entries.get? x.id).isSome) (kind : QueueKind) :
    StillShelved s e (Queue.astoreAndDiscard kind x s) := by
  have hentries : ((s.entries.set x.id x).get? e).isSome = (s.entries.get? e).isSome := by
    rw [Dict.get?_set]
    split_ifs with heq
    · rw [heq, hx]
      rfl
    · rfl
  have hsched : (s.scheduled.erase x.id).get? e = s.scheduled.get? e ∨ (s.scheduled.erase x.id).get? e = none := by
    rw [Dict.get?_erase]
    split_ifs
    · exact .inr rfl
    · exact .inl rfl
  cases kind with
  | priority =>
    exact ⟨⟨h.pending, fun item hi => h.priority item (List.mem_of_mem_filter hi), h.claim, h.claimDeadline⟩,
      hsched, hentries⟩
  | _ =>
    exact ⟨⟨fun hin => h.pending (List.mem_of_mem_erase hin), h.priority, h.claim, h.claimDeadline⟩, hsched, hentries⟩

/-- Every call but its own enqueue leaves the id on the shelf and does not return it. -/
theorem exec (h : Shelved s e) (hk : Keyed s) {c : Call cls} (hc : Tracked s c) (started : ClockTime) {time : ClockTime}
    (hlate : ∀ a, s.scheduled.get? e = some a → time < a) (hnew : ∀ x a, c = .enqueue x a → x.id ≠ e)
    (kind : QueueKind) : StillShelved s e (Memory.exec kind c started time s).2 ∧
      ∀ x, (Memory.exec kind c started time s).1 = some (.ok x) → x.id ≠ e := by
  cases c with
  | enqueue x a => exact ⟨h.enqueue (hnew x a rfl).symm a time kind, fun y hy => by cases hy⟩
  | dequeue =>
    obtain ⟨h₁, h₂⟩ := h.dequeue hk hlate kind
    exact ⟨h₁, fun x hx => h₂ x (Option.some.inj hx)⟩
  | claim w lease =>
    have hprom := h.promote hlate
    have hrec := hprom.toShelved.recoverExpiredClaims started
    have hkeyed : Keyed ((s.apromoteScheduled time).recoverExpiredClaims started) := fun id x hx =>
      hk id x (by rwa [entries_recoverExpiredClaims, entries_apromoteScheduled] at hx)
    obtain ⟨h₁, h₂⟩ := hrec.toShelved.aclaimLoop hkeyed kind.isStack w lease started
      ((s.apromoteScheduled time).recoverExpiredClaims started).pending.length
    exact ⟨trans hprom (trans hrec h₁), fun x hx => h₂ x (Option.some.inj hx)⟩
  | renew w lease id => exact ⟨h.arenew w lease id time, fun y hy => by cases hy⟩
  | release w id delay => exact ⟨h.arelease w id delay time, fun y hy => by cases hy⟩
  | fail x =>
    obtain ⟨-, e₀, he₀, -⟩ := hc
    exact ⟨h.fail (by simp [he₀]) kind, fun y hy => by cases hy⟩

end Shelved

/-! ## Runs -/

/-- An id is stored or unknown to the provider. -/
def StoredOrBlank (s : State cls) : Prop :=
  ∀ e, (s.entries.get? e).isSome ∨ Shelved s e ∧ s.scheduled.get? e = none

theorem isSome_entry_exec (h : (s.entries.get? e).isSome) (kind : QueueKind) (c : Call cls) (started time : ClockTime) :
    ((exec kind c started time s).2.entries.get? e).isSome := by
  have hset (x : QueueEntry cls) : ((s.entries.set x.id x).get? e).isSome := by
    rw [Dict.get?_set]
    split_ifs
    · rfl
    · exact h
  rw [entries_exec]
  cases c with
  | enqueue x a => exact hset x
  | fail x => exact hset x
  | _ => exact h

theorem StoredOrBlank.exec (h : StoredOrBlank s) (hk : Keyed s) {c : Call cls} (hc : Tracked s c) (kind : QueueKind)
    (started time : ClockTime) : StoredOrBlank (Memory.exec kind c started time s).2 := by
  intro e
  rcases h e with hsome | ⟨hshelf, hnone⟩
  · exact .inl (isSome_entry_exec hsome kind c started time)
  · by_cases hnew : ∃ x a, c = .enqueue x a ∧ x.id = e
    · obtain ⟨x, a, rfl, rfl⟩ := hnew
      left
      rw [entries_exec]
      simp
    · have hlate : ∀ a, s.scheduled.get? e = some a → time < a := fun a ha => by
        rw [hnone] at ha
        cases ha
      have hnew' : ∀ x a, c = .enqueue x a → x.id ≠ e := fun x a heq hid => hnew ⟨x, a, heq, hid⟩
      obtain ⟨hstill, -⟩ := hshelf.exec hk hc started hlate hnew' kind
      refine .inr ⟨hstill.toShelved, ?_⟩
      rcases hstill.scheduled with hs | hs
      · rw [hs, hnone]
      · exact hs

/-- Until its instant the entry is stored, on the shelf, and scheduled for that instant at most. -/
def HeldBack (T : ClockTime) (e : EntryId) (g : Timed cls) : Prop :=
  g.now < T → Shelved g.state e ∧ (g.state.entries.get? e).isSome ∧
    (g.state.scheduled.get? e = none ∨ g.state.scheduled.get? e = some T)

namespace HeldBack

variable {T : ClockTime} {g g' : Timed cls} {l : Event cls}

theorem step (h : HeldBack T e g) (hk : Keyed g.state) (hs : Occurs kind g l g') :
    HeldBack T e g' ∧ (Returns e l → T ≤ l.time) := by
  by_cases hlt : l.time < T
  · obtain ⟨hshelf, hstored, hsched⟩ := h (lt_of_le_of_lt (hs.started.trans hs.le) hlt)
    have hlate : ∀ a, g.state.scheduled.get? e = some a → l.time < a := fun a ha => by
      rcases hsched with hnone | hsome
      · rw [hnone] at ha
        cases ha
      · obtain rfl := Option.some.inj (hsome.symm.trans ha)
        exact hlt
    have hnew : ∀ x a, l.call = .enqueue x a → x.id ≠ e := fun x a hcall hid => by
      have hok := hs.ok
      rw [hcall] at hok
      have hnone : g.state.entries.get? x.id = none := hok
      rw [← hid, hnone] at hstored
      cases hstored
    obtain ⟨hstill, hret⟩ := hshelf.exec hk hs.ok l.started hlate hnew kind
    rw [hs.exec_eq] at hstill hret
    refine ⟨fun _ => ⟨hstill.toShelved, by rw [hstill.entries]; exact hstored, ?_⟩, ?_⟩
    · rcases hstill.scheduled with hsame | hnone
      · rw [hsame]
        exact hsched
      · exact .inl hnone
    · rintro ⟨x, hx, hid⟩
      exact absurd hid (hret x hx)
  · exact ⟨fun hnow => absurd (hs.now_eq ▸ hnow) hlt, fun _ => not_lt.mp hlt⟩

theorem run (h : HeldBack T e g) (hk : Keyed g.state) {ls : List (Event cls)} (hrun : Run (Occurs kind) g ls g') :
    ∀ l ∈ ls, Returns e l → T ≤ l.time := by
  induction hrun with
  | nil _ => exact fun l hl => by cases hl
  | @cons g g₁ _ l ls hs _ ih =>
    obtain ⟨hnext, hret⟩ := h.step hk hs
    have hk' := hk.exec kind l.call l.started l.time
    rw [hs.exec_eq] at hk'
    intro l' hl
    rcases List.mem_cons.mp hl with rfl | hl
    · exact hret
    · exact ih hnext hk' l' hl

theorem of_enqueue {x : QueueEntry cls} (hblank : StoredOrBlank g.state) (hcall : l.call = .enqueue x (some T))
    (hs : Occurs kind g l g') : HeldBack T x.id g' := by
  have hok := hs.ok
  have hexec := hs.exec_eq
  rw [hcall] at hok hexec
  have hnone : g.state.entries.get? x.id = none := hok
  obtain ⟨hshelf, -⟩ := (hblank x.id).resolve_left (by simp [hnone])
  intro hnow
  have hlt : l.time < T := hs.now_eq ▸ hnow
  have hstate : (g.state.astore x).aschedule x.id T = g'.state := by
    have hsnd := congrArg Prod.snd hexec
    simp only [exec, Queue.astoreAndPush, if_pos hlt] at hsnd
    exact hsnd
  rw [← hstate]
  exact ⟨⟨hshelf.pending, hshelf.priority, hshelf.claim, hshelf.claimDeadline⟩, by simp [aschedule, astore],
    .inr (by simp [aschedule, astore])⟩

end HeldBack

/-- No call whose last clock reading is before the instant of a scheduled entry returns it. -/
theorem scheduled_returned_late (kind : QueueKind) (t₀ : ClockTime) (before after : List (Event cls)) {l₀ : Event cls}
    {x : QueueEntry cls} {T : ClockTime} {g : Timed cls} (hcall : l₀.call = .enqueue x (some T))
    (h : Run (Occurs kind) (.init t₀) (before ++ l₀ :: after) g) : ∀ l ∈ after, Returns x.id l → T ≤ l.time := by
  obtain ⟨g₁, hbefore, hrest⟩ := h.of_append
  have hinv : Keyed g₁.state ∧ StoredOrBlank g₁.state := by
    refine hbefore.invariant (I := fun g => Keyed g.state ∧ StoredOrBlank g.state) (fun g l g' hg hs => ?_) ?_
    · have hk := hg.1.exec kind l.call l.started l.time
      have hb := hg.2.exec hg.1 hs.ok kind l.started l.time
      rw [hs.exec_eq] at hk hb
      exact ⟨hk, hb⟩
    · refine ⟨fun id x hx => ?_, fun e => .inr ⟨⟨List.not_mem_nil, fun item hi => ?_, rfl, rfl⟩, rfl⟩⟩
      cases hx
      cases hi
  cases hrest with
  | cons hs hrun =>
    have hk := hinv.1.exec kind l₀.call l₀.started l₀.time
    rw [hs.exec_eq] at hk
    exact (HeldBack.of_enqueue hinv.2 hcall hs).run hk hrun

end DjangoQueues.Memory
