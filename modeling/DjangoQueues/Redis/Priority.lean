import DjangoQueues.Lib.Run
import DjangoQueues.Lib.StampedQueue
import DjangoQueues.Redis.Frame

/-! The priority set of a Redis priority queue. Every call acts on it by pushing, dropping or
taking single ids; the packed scores then serve the ids by priority and arrival for as long as
the sequence counter leaves the range of exact integers alone. -/

namespace DjangoQueues.Redis

variable {cls : EntryClass}

/-! ## What each call does to the priority set -/

inductive PriorityOp where
  | push (id : EntryId) (priority : ℚ)
  /-- Remove the id, and reset the counter if it was the last. -/
  | drop (id : EntryId)
  /-- Remove the id and leave the counter. -/
  | take (id : EntryId)
deriving DecidableEq

namespace PriorityOp

def apply : PriorityOp → Store → Store
  | push id priority, s => Library.pushPriority (fl (priority * prioritySequenceSpace)) id s
  | drop id, s => Library.discardPriority id s
  | take id, s => { s with priority := s.priority.rem id }

def applyAll (ops : List PriorityOp) (s : Store) : Store := ops.foldl (fun s op => op.apply s) s

def isPush : PriorityOp → Bool
  | push .. => true
  | drop _ => false
  | take _ => false

/-- How many of the actions draw a sequence number. -/
def pushes (ops : List PriorityOp) : ℕ := ops.countP isPush

end PriorityOp

open PriorityOp

/-- `pop_priority` drops the greatest member. -/
def popOps (s : Store) : List PriorityOp :=
  match s.priority.top? with
  | none => []
  | some (_, id) => [.drop id]

/-- The push of `promote_one_scheduled_priority`. -/
def promoteOps (t : ServerTime) (s : Store) : List PriorityOp :=
  match (s.scheduled.upTo t.nowUs).head? with
  | none => []
  | some (score, _) =>
    match (Library.selectScheduled (s.scheduled.withScore score) none s).1 with
    | none => []
    | some (id, priority) => [.push id priority]

/-- The pushes of the recovery loop, up to an error. -/
def recoverOps (now : ℚ) : List EntryId → Store → List PriorityOp
  | [], _ => []
  | id :: ids, s =>
    match Library.recoverOne (Library.redeliverPriority prioritySequenceSpace) now id s with
    | (.error _, _) => []
    | (.ok .recovered, s') => .push id (recordPriority (s.records.get? id)) :: recoverOps now ids s'
    | (.ok _, s') => recoverOps now ids s'

/-- A claim that finds the pending list empty takes the greatest member; a conflict puts it
back where it was. -/
def claimOps (r : Except ScriptError ClaimOutcome) (m : Store) : List PriorityOp :=
  match m.pending, m.priority.top? with
  | [], some (_, id) =>
    match r with
    | .ok (.claimed _) => [.drop id]
    | .ok (.expired _) => [.drop id]
    | .ok _ => []
    | .error _ => [.take id]
  | _, _ => []

def priorityOps (c : Call cls) (t : ServerTime) (s : Store) : List PriorityOp :=
  match c with
  | .enqueue e availableAt =>
    if e.status = .terminated ∨ ¬priorityAllowed e.priority then []
    else
      match availableAt with
      | none => [.push e.id e.priority]
      | some a => if t.nowUs < fl a.totalMicroseconds then [] else [.push e.id e.priority]
  | .storeAndDiscard e => [.drop e.id]
  | .dequeue =>
    promoteOps t s ++ popOps (Library.promoteOneScheduledPriority prioritySequenceSpace t.nowUs s)
  | .claim w lease x => promoteOps t s ++ claimOps (aclaim .priority w lease x t s).1 (prepare .priority t s)
  | .release w id _ => if s.owner? id = some w then [.push id (recordPriority (s.records.get? id))] else []
  | .recover batch => recoverOps t.nowUs (Library.dueClaims batch t.nowUs s) s
  | .delete id => [.drop id]
  | .pushPriority id priority => if priorityAllowed priority then [.push id priority] else []
  | .popPriority => popOps s
  | .discardPriority id => [.drop id]
  | _ => []

/-- The same priority set and counter. -/
structure SameRanking (s s' : Store) : Prop where
  priority : s'.priority = s.priority
  sequence : s'.sequence = s.sequence

namespace SameRanking

variable {s s' s'' : Store}

theorem refl (s : Store) : SameRanking s s := ⟨rfl, rfl⟩

theorem symm (h : SameRanking s s') : SameRanking s' s := ⟨h.priority.symm, h.sequence.symm⟩

theorem trans (h : SameRanking s s') (h' : SameRanking s' s'') : SameRanking s s'' :=
  ⟨h'.priority.trans h.priority, h'.sequence.trans h.sequence⟩

theorem resetSequence (h : SameRanking s s') :
    SameRanking (Library.resetSequence s) (Library.resetSequence s') := by
  unfold Library.resetSequence
  rw [show s'.priority.card = s.priority.card by rw [h.priority]]
  split_ifs
  · exact ⟨h.priority, by simp only [h.sequence]⟩
  · exact h

theorem apply (h : SameRanking s s') (op : PriorityOp) : SameRanking (op.apply s) (op.apply s') := by
  cases op with
  | push id p => exact ⟨by simp [PriorityOp.apply, Library.pushPriority, h.priority, h.sequence],
      by simp [PriorityOp.apply, Library.pushPriority, h.sequence]⟩
  | drop id =>
    apply SameRanking.resetSequence
    exact ⟨by simp [h.priority], h.sequence⟩
  | take id => exact ⟨by simp [PriorityOp.apply, h.priority], h.sequence⟩

theorem applyAll (h : SameRanking s s') (ops : List PriorityOp) :
    SameRanking (applyAll ops s) (PriorityOp.applyAll ops s') := by
  induction ops generalizing s s' with
  | nil => exact h
  | cons op ops ih => exact ih (h.apply op)

end SameRanking

namespace Library

variable {s : Store}

theorem selectScheduled_ranking (ids : List EntryId) (sel : Option (EntryId × ℚ)) (s : Store) :
    SameRanking s (selectScheduled ids sel s).2 := by
  rw [selectScheduled_frame]
  exact ⟨rfl, rfl⟩

theorem promoteOneScheduledPriority_ranking (t : ServerTime) (s : Store) :
    SameRanking (applyAll (promoteOps t s) s)
      (promoteOneScheduledPriority prioritySequenceSpace t.nowUs s) := by
  unfold promoteOneScheduledPriority promoteOps
  rcases (s.scheduled.upTo t.nowUs).head? with _ | ⟨score, _⟩
  · exact .refl s
  · have h := selectScheduled_ranking (s.scheduled.withScore score) none s
    dsimp only
    rcases hsel : selectScheduled (s.scheduled.withScore score) none s with ⟨_ | ⟨id, p⟩, s'⟩
    · rw [hsel] at h
      exact h
    · rw [hsel] at h
      exact (h.apply (.push id p)).trans ⟨rfl, rfl⟩

theorem popPriority_ranking (s : Store) : SameRanking (applyAll (popOps s) s) (popPriority s).2 := by
  unfold popPriority popOps
  rcases s.priority.top? with _ | ⟨x, id⟩
  · exact .refl s
  · exact .refl _

/-- Resetting a record for redelivery leaves its priority. -/
theorem priority_resetEntry {raw : Json} (h : Cjson.Accepts raw) :
    (tonumber ((resetEntry (Cjson.table raw)).field? "priority")).getD 0 = recordPriority (some raw) := by
  rw [recordPriority, resetEntry, Option.bind_some, Cjson.decode_of_accepts h, Option.bind_some]
  generalize Cjson.table raw = entry
  cases entry with
  | obj kvs => simp [JValue.setField, JValue.field?, Dict.lookup_setList]
  | _ => rfl

theorem recoverLoop_ranking (now : ℚ) (ids : List EntryId) (r d : ℕ) (s : Store) :
    SameRanking (applyAll (recoverOps now ids s) s)
      (recoverLoop (redeliverPriority prioritySequenceSpace) now ids r d s).2 := by
  induction ids generalizing r d s with
  | nil => exact .refl s
  | cons id ids ih =>
    have hcase := recoverOne_case (redeliverPriority prioritySequenceSpace) now id s
    unfold recoverLoop recoverOps
    generalize recoverOne (redeliverPriority prioritySequenceSpace) now id s = out at hcase ⊢
    cases hcase with
    | kept =>
      dsimp only
      refine SameRanking.trans ?_ (ih r d _)
      apply SameRanking.applyAll
      exact ⟨rfl, rfl⟩
    | discarded =>
      dsimp only
      refine SameRanking.trans ?_ (ih r (d + 1) _)
      apply SameRanking.applyAll
      exact ⟨rfl, rfl⟩
    | error => exact .refl s
    | @recovered rawEntry raw _ hr hst =>
      have haccepts : Cjson.Accepts rawEntry := by
        rcases hst with hst | hst <;> exact accepts_of_statusText hst
      dsimp only
      refine SameRanking.trans ?_ (ih (r + 1) d _)
      change SameRanking (applyAll _ ((push id _).apply s)) _
      apply SameRanking.applyAll
      rw [restoreUnclaimed_eq, hr, ← priority_resetEntry haccepts]
      exact ⟨rfl, rfl⟩

/-- A claim that finds the pending list empty works on the greatest member. -/
theorem aclaim_priority_of_nil (w : WorkerId) (lease : ℕ) (x : Bool) (t : ServerTime) (s : Store)
    (hnil : (prepare .priority t s).pending = []) :
    aclaim .priority w lease x t s =
      match (prepare .priority t s).priority.top? with
      | none => (.ok .empty, prepare .priority t s)
      | some (score, id) =>
        claimPopped w lease x t id resetSequence resetSequence
          (fun s => { s with priority := s.priority.add id score })
          { prepare .priority t s with priority := (prepare .priority t s).priority.rem id } := by
  have hprep : deliverDueDelayed false t.nowUs (promoteOneScheduledPriority prioritySequenceSpace t.nowUs s) =
      prepare .priority t s := rfl
  have hpop : popPending false (prepare .priority t s) = (none, prepare .priority t s) := by
    rcases h : popPending false (prepare .priority t s) with ⟨_ | id, p⟩
    · rw [(popPending_none h).1]
    · have hlist := (popPending_some h).2
      rw [hnil] at hlist
      cases hlist
  rcases htop : (prepare .priority t s).priority.top? with _ | ⟨score, id⟩
  · simp only [aclaim, claimPriority, hprep, hpop, htop]
  · simp only [aclaim, claimPriority, hprep, hpop, htop]

/-- What a claim does to the priority set, after promotion and delivery. -/
theorem claimPriority_ranking (w : WorkerId) (lease : ℕ) (x : Bool) (t : ServerTime) (s : Store) :
    SameRanking (applyAll (claimOps (aclaim .priority w lease x t s).1 (prepare .priority t s))
      (prepare .priority t s)) (aclaim .priority w lease x t s).2 := by
  rcases hpop : popPending false (prepare .priority t s) with ⟨_ | id, p⟩
  -- with an empty pending list the head of the set is popped
  · have hnil := (popPending_none hpop).2
    rw [aclaim_priority_of_nil w lease x t s hnil]
    set m := prepare .priority t s
    rcases htop : m.priority.top? with _ | ⟨score, id⟩
    · simp only [claimOps, hnil, htop]
      exact .refl _
    · dsimp only
      have hcase := claimPopped_case w lease x t id resetSequence resetSequence
        (fun s => { s with priority := s.priority.add id score }) { m with priority := m.priority.rem id }
      generalize claimPopped w lease x t id resetSequence resetSequence
        (fun s => { s with priority := s.priority.add id score }) { m with priority := m.priority.rem id } =
          out at hcase ⊢
      have hq {r : Option ℚ} {q : Store} (h : Remaining t id { m with priority := m.priority.rem id } x r q) :
          SameRanking { m with priority := m.priority.rem id } q := by
        cases h with
        | off => exact .refl _
        | left => exact ⟨rfl, rfl⟩
      cases hcase with
      | expired =>
        simp only [claimOps, hnil, htop]
        apply SameRanking.resetSequence
        exact ⟨rfl, rfl⟩
      | error h =>
        simp only [claimOps, hnil, htop]
        exact hq h
      | claimed h =>
        simp only [claimOps, hnil, htop]
        apply SameRanking.resetSequence
        exact (hq h).trans ⟨rfl, rfl⟩
      | conflict h =>
        simp only [claimOps, hnil, htop]
        refine ⟨?_, (hq h).sequence⟩
        change (_ : Store).priority.add id score = m.priority
        rw [(hq h).priority]
        exact SortedSet.add_rem_self (SortedSet.top?_eq_some htop).1
  -- otherwise the claim leaves the set as it is
  · have hprep : deliverDueDelayed false t.nowUs (promoteOneScheduledPriority prioritySequenceSpace t.nowUs s) =
        prepare .priority t s := rfl
    rw [aclaim, claimPriority, hprep, hpop]
    set m := prepare .priority t s
    obtain ⟨heq, hlist⟩ := popPending_some hpop
    have hops (r : Except ScriptError ClaimOutcome) : claimOps r m = [] := by
      simp only [claimOps, hlist, Bool.false_eq_true, if_false]
    rw [hops]
    have hp : SameRanking m p := by
      rw [heq]
      exact ⟨rfl, rfl⟩
    have hcase := claimPopped_case w lease x t id (fun s => s) (fun s => s) (unpopPending false id) p
    dsimp only
    generalize claimPopped w lease x t id (fun s => s) (fun s => s) (unpopPending false id) p = out at hcase ⊢
    have hq {r : Option ℚ} {q : Store} (h : Remaining t id p x r q) : SameRanking m q := by
      cases h with
      | off => exact hp
      | left => exact hp.trans ⟨rfl, rfl⟩
    cases hcase with
    | expired => exact hp.trans ⟨rfl, rfl⟩
    | error h => exact hq h
    | claimed h => exact (hq h).trans ⟨rfl, rfl⟩
    | conflict h => exact (hq h).trans ⟨rfl, rfl⟩

end Library

theorem applyAll_append (ops ops' : List PriorityOp) (s : Store) :
    applyAll (ops ++ ops') s = applyAll ops' (applyAll ops s) := List.foldl_append ..

theorem prepare_ranking (t : ServerTime) (s : Store) :
    SameRanking (applyAll (promoteOps t s) s) (prepare .priority t s) := by
  refine (Library.promoteOneScheduledPriority_ranking t s).trans ?_
  obtain ⟨l, z, heq⟩ := Library.deliverDelayed_eq false
    (((Library.promoteOneScheduledPriority prioritySequenceSpace t.nowUs s).delayed.upTo t.nowUs).map Prod.snd)
    (Library.promoteOneScheduledPriority prioritySequenceSpace t.nowUs s)
  rw [prepare, Library.deliverDueDelayed, heq]
  exact ⟨rfl, rfl⟩

/-- Every call acts on the priority set and its counter by its operations. -/
theorem exec_ranking (c : Call cls) (t : ServerTime) (s : Store) :
    SameRanking (applyAll (priorityOps c t s) s) (exec .priority c t s).2 := by
  cases c with
  | enqueue e a =>
    have hcast : fl ((e.priority * prioritySequenceSpace : ℤ) : ℚ) = fl (e.priority * prioritySequenceSpace) := by
      rw [Int.cast_mul]
    simp only [exec, astoreAndPush, priorityOps]
    by_cases ht : e.status = .terminated
    · simp only [ht, if_true, true_or]
      exact .refl s
    · by_cases hp : priorityAllowed e.priority
      · simp only [ht, hp, not_true_eq_false, or_self, if_false, if_true]
        cases a with
        | none =>
          simp only [Library.storeAndPushPriority, hcast]
          exact ⟨rfl, rfl⟩
        | some a =>
          simp only [Library.storeAvailable, hcast, if_true]
          split_ifs
          · exact ⟨rfl, rfl⟩
          · exact ⟨rfl, rfl⟩
      · simp only [ht, hp, not_false_eq_true, or_true, if_true, if_false, Bool.false_eq_true]
        exact .refl s
  | storeAndDiscard e => exact SameRanking.resetSequence ⟨rfl, rfl⟩
  | dequeue =>
    rw [priorityOps, applyAll_append]
    refine ((Library.promoteOneScheduledPriority_ranking t s).applyAll _).trans ?_
    exact Library.popPriority_ranking _
  | claim w lease x =>
    rw [priorityOps, applyAll_append]
    exact ((prepare_ranking t s).applyAll _).trans (Library.claimPriority_ranking w lease x t s)
  | renew w lease id =>
    rcases Library.renew_cases w lease id t s with ⟨b, hb, -⟩ | ⟨_, _, _, -, -, -, -, hb⟩
    · simp only [exec, hb]
      exact .refl s
    · simp only [exec, hb]
      exact ⟨rfl, rfl⟩
  | release w id d =>
    simp only [exec, arelease, Library.releasePriority, priorityOps]
    cases hc : s.ownClaim? id w with
    | none =>
      rw [if_neg (Store.ownClaim?_eq_none.mp hc)]
      exact .refl s
    | some c =>
      obtain ⟨-, -, -, ho⟩ := Store.ownClaim?_eq_some.mp hc
      rw [if_pos ho]
      dsimp only
      rw [Library.restoreUnclaimed_eq]
      exact ⟨rfl, rfl⟩
  | remove w id =>
    simp only [exec, Library.remove]
    cases s.ownClaim? id w with
    | none => exact .refl s
    | some c => exact ⟨rfl, rfl⟩
  | ack w id =>
    simp only [exec, Library.ack]
    cases s.ownClaim? id w with
    | none => exact .refl s
    | some c => exact ⟨rfl, rfl⟩
  | markRunning w e =>
    rcases Library.markRunning_cases w e.id e.toDict s with ⟨hb, -⟩ | ⟨-, -, hb⟩
    · simp only [exec, hb]
      exact .refl s
    · simp only [exec, hb]
      exact ⟨rfl, rfl⟩
  | settle w e =>
    rcases Library.settle_cases w e.id e.toDict s with ⟨hb, -⟩ | ⟨-, -, hb⟩
    · simp only [exec, hb]
      exact .refl s
    · simp only [exec, hb]
      exact ⟨rfl, rfl⟩
  | recover batch => exact Library.recoverLoop_ranking _ _ 0 0 s
  | prune id =>
    rcases Library.prune_cases id s with hb | ⟨-, hb⟩
    · simp only [exec, hb]
      exact .refl s
    · simp only [exec, hb]
      exact ⟨rfl, rfl⟩
  | delete id => exact SameRanking.resetSequence ⟨rfl, rfl⟩
  | pushPriority id p =>
    simp only [exec, priorityOps, Int.cast_mul]
    split_ifs
    · exact .refl _
    · exact .refl s
  | popPriority => exact Library.popPriority_ranking s
  | discardPriority id => exact .refl _

/-! ## The queue an observer sees -/

namespace PriorityOp

/-- The push, numbered among all pushes, or the removal. -/
def observe : PriorityOp → StampedQueue EntryId → StampedQueue EntryId
  | push id priority, Q => Q.push id ⌊priority⌋
  | drop id, Q => Q.drop id
  | take id, Q => Q.drop id

def observeAll (ops : List PriorityOp) (Q : StampedQueue EntryId) : StampedQueue EntryId :=
  ops.foldl (fun Q op => op.observe Q) Q

/-- A pushed priority is an integer of the allowed magnitude, and every other id present was
pushed fewer than `2 ^ 32` pushes before. -/
def Allowed (_ : Store) (Q : StampedQueue EntryId) : PriorityOp → Prop
  | push id priority => (∃ k : ℤ, priority = k ∧ |k| ≤ maxPriorityMagnitude) ∧
      ∀ b q m, b ≠ id → Q.entries b = some (q, m) → Q.count + 1 < m + 2 ^ 32
  | _ => True

/-- The counter is read exactly and the score stays in the range of exact integers. -/
def Headroom (s : Store) (_ : StampedQueue EntryId) : PriorityOp → Prop
  | push _ priority =>
    let sequence : ℚ := (s.sequence.getD 0 + 1 : ℕ)
    fl sequence = sequence ∧ sequence < 2 ^ 53 + priority * prioritySequenceSpace
  | _ => True

/-- Every operation meets the condition where it is applied. -/
def Along (P : Store → StampedQueue EntryId → PriorityOp → Prop) :
    List PriorityOp → Store → StampedQueue EntryId → Prop
  | [], _, _ => True
  | op :: ops, s, Q => P s Q op ∧ Along P ops (op.apply s) (op.observe Q)

end PriorityOp

/-- The priority set packs the observed queue into exact scores. -/
structure PriorityInv (s : Store) (Q : StampedQueue EntryId) : Prop where
  packs : s.priority.Packs (2 ^ 32) (s.sequence.getD 0) Q
  exact : ∀ id x, s.priority.score? id = some x → ∃ k : ℤ, x = k ∧ |k| < 2 ^ 53

namespace PriorityInv

variable {s s' : Store} {Q : StampedQueue EntryId}

theorem empty : PriorityInv .empty .empty := ⟨.empty _, fun _ _ h => by cases h⟩

theorem congr (h : PriorityInv s Q) (hs : SameRanking s s') : PriorityInv s' Q := by
  refine ⟨?_, ?_⟩
  · rw [hs.priority, hs.sequence]
    exact h.packs
  · rw [hs.priority]
    exact h.exact

/-- The score of a push is packed without rounding. -/
theorem pushed_score {p : ℤ} {n : ℕ} (hp : |p| ≤ maxPriorityMagnitude) (hn : fl n = n)
    (hlt : (n : ℚ) < 2 ^ 53 + p * prioritySequenceSpace) :
    fl (fl (p * prioritySequenceSpace) - fl n) = (StampedQueue.pack (2 ^ 32) p n : ℚ) ∧
      |StampedQueue.pack (2 ^ 32) p n| < 2 ^ 53 := by
  have hbound : |p| ≤ 100000 := hp
  have hspace : ((prioritySequenceSpace : ℤ) : ℚ) = 2 ^ 32 := by norm_num [prioritySequenceSpace]
  have hbase : fl ((p : ℚ) * prioritySequenceSpace) = p * prioritySequenceSpace := by
    have : |p * prioritySequenceSpace| < 2 ^ 53 := by
      rw [abs_mul]
      unfold prioritySequenceSpace
      norm_num
      omega
    exact_mod_cast fl_intCast this
  have hpack : (p : ℚ) * prioritySequenceSpace - n = (StampedQueue.pack (2 ^ 32) p n : ℤ) := by
    rw [StampedQueue.pack, hspace]
    push_cast
    ring
  have hsmall : |StampedQueue.pack (2 ^ 32) p n| < 2 ^ 53 := by
    have hlt' : (n : ℤ) < 2 ^ 53 + p * 2 ^ 32 := by
      rw [hspace] at hlt
      exact_mod_cast hlt
    have hle := (abs_le.mp hbound).2
    unfold StampedQueue.pack
    rw [abs_lt]
    push_cast
    constructor <;> omega
  refine ⟨?_, hsmall⟩
  rw [hbase, hn, hpack]
  exact fl_intCast hsmall

theorem resetSequence (h : PriorityInv s Q) : PriorityInv (Library.resetSequence s) Q := by
  unfold Library.resetSequence
  split_ifs with hz
  · refine ⟨?_, h.exact⟩
    have hzero : (s.sequence.map fun _ => 0).getD 0 = 0 := by cases s.sequence <;> rfl
    change s.priority.Packs (2 ^ 32) ((s.sequence.map fun _ => 0).getD 0) Q
    rw [hzero]
    exact h.packs.reset hz
  · exact h

theorem take (h : PriorityInv s Q) (id : EntryId) :
    PriorityInv { s with priority := s.priority.rem id } (Q.drop id) := by
  refine ⟨h.packs.drop id, fun e x hx => ?_⟩
  rw [SortedSet.score?_rem] at hx
  split_ifs at hx
  exact h.exact e x hx

theorem apply (h : PriorityInv s Q) (op : PriorityOp) (hallowed : op.Allowed s Q) (hroom : op.Headroom s Q) :
    PriorityInv (op.apply s) (op.observe Q) := by
  cases op with
  | push id priority =>
    obtain ⟨⟨k, rfl, hk⟩, hwin⟩ := hallowed
    obtain ⟨hscore, hsmall⟩ := pushed_score hk hroom.1 hroom.2
    refine ⟨?_, fun e x hx => ?_⟩
    · have hpush := h.packs.push (p := k) hwin (by norm_num)
      rw [← hscore] at hpush
      simpa [PriorityOp.apply, PriorityOp.observe, Library.pushPriority] using hpush
    · change (s.priority.add id _).score? e = some x at hx
      rw [SortedSet.score?_add, hscore] at hx
      split_ifs at hx
      · exact ⟨_, (Option.some.inj hx).symm, hsmall⟩
      · exact h.exact e x hx
  | drop id => exact (h.take id).resetSequence
  | take id => exact h.take id

theorem applyAll (h : PriorityInv s Q) (ops : List PriorityOp) (hallowed : Along Allowed ops s Q)
    (hroom : Along Headroom ops s Q) : PriorityInv (applyAll ops s) (observeAll ops Q) := by
  induction ops generalizing s Q with
  | nil => exact h
  | cons op ops ih => exact ih (h.apply op hallowed.1 hroom.1) hallowed.2 hroom.2

end PriorityInv

end DjangoQueues.Redis
