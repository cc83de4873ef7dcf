import DjangoQueues.Memory.Schedule
import DjangoQueues.Redis.Delivery

/-! A claimed id that is also pending. The claim functions without the expiry check report a
conflict and leave everything about the id as it was. With the check, a claimed event has no
unclaimed deadline and is taken for expired; a memory stack fails while it puts the id back. -/

namespace DjangoQueues

namespace Redis

open Library

variable {kind : QueueKind} {s m : Store} {e id : EntryId} {t : ServerTime}

/-- The next claim takes this id: from the pending list, or from the priority set of a priority
queue whose list is empty. -/
def NextIs (kind : QueueKind) (m : Store) (e : EntryId) : Prop :=
  (popPending kind.isStack m).1 = some e ∨
    kind = .priority ∧ m.pending = [] ∧ ∃ score, m.priority.top? = some (score, e)

/-- Nothing about the claimed id has changed: `s` is the store before the call, `m` the one in
which promotion and delivery have left it. -/
structure Unharmed (s m s' : Store) (e : EntryId) : Prop where
  record : s'.records.get? e = s.records.get? e
  claim : s'.claims.get? e = s.claims.get? e
  lease : s'.leases.score? e = s.leases.score? e
  unclaimed : s'.unclaimed.score? e = s.unclaimed.score? e
  pending : s'.pending.count e = m.pending.count e
  priority : s'.priority.score? e = m.priority.score? e

/-- A conflict puts the popped id back where it was. -/
structure PutsBack (m p : Store) (k : Store → Store) : Prop where
  same : SameData m p
  back : k p = m
  unclaimed : ∀ z, k { p with unclaimed := z } = { k p with unclaimed := z }

theorem aclaim_of_nextIs (h : NextIs kind (prepare kind t s) e) (w : WorkerId) (lease : ℕ) (x : Bool) :
    ∃ p f g k, PutsBack (prepare kind t s) p k ∧ (∀ q, ∃ n, f q = { q with sequence := n }) ∧
      (∀ q, ∃ n, g q = { q with sequence := n }) ∧ aclaim kind w lease x t s = claimPopped w lease x t e f g k p := by
  have hpopped (stack : Bool) {m p : Store} (hpop : popPending stack m = (some e, p)) :
      PutsBack m p (unpopPending stack e) := by
    obtain ⟨hp, hl⟩ := popPending_some hpop
    have hsame : SameData m p := (popPending_taken hpop).toSameData
    refine ⟨hsame, ?_, fun z => rfl⟩
    unfold unpopPending
    rw [← hl, hp]
  have plain (stack : Bool) (m : Store) (hm : m = deliverDueDelayed false t.nowUs (promoteOneScheduled t.nowUs s))
      (hpop : (popPending stack m).1 = some e) : ∃ p f g k, PutsBack m p k ∧
        (∀ q, ∃ n, f q = { q with sequence := n }) ∧ (∀ q, ∃ n, g q = { q with sequence := n }) ∧
        claim w lease stack x t s = claimPopped w lease x t e f g k p := by
    rcases hres : popPending stack m with ⟨_ | id, p⟩
    · rw [hres] at hpop
      cases hpop
    · rw [hres] at hpop
      obtain rfl : id = e := Option.some.inj hpop
      refine ⟨p, _, _, _, hpopped stack hres, fun q => ⟨q.sequence, rfl⟩, fun q => ⟨q.sequence, rfl⟩, ?_⟩
      rw [claim, ← hm, hres]
  -- a priority claim comes to its set only when the pending list is empty
  cases kind with
  | fifo => exact plain false _ rfl (h.resolve_right fun hk => by cases hk.1)
  | stack => exact plain true _ rfl (h.resolve_right fun hk => by cases hk.1)
  | priority =>
    set m := prepare .priority t s with hm
    have hm' : m = deliverDueDelayed false t.nowUs
        (promoteOneScheduledPriority prioritySequenceSpace t.nowUs s) := hm
    rcases h with hpop | ⟨-, hnil, score, htop⟩
    · rcases hres : popPending false m with ⟨_ | id, p⟩
      · rw [QueueKind.isStack, hres] at hpop
        cases hpop
      · rw [QueueKind.isStack, hres] at hpop
        obtain rfl : id = e := Option.some.inj hpop
        refine ⟨p, _, _, _, hpopped false hres, fun q => ⟨q.sequence, rfl⟩, fun q => ⟨q.sequence, rfl⟩, ?_⟩
        rw [aclaim, claimPriority, ← hm', hres]
    · have hscore := (SortedSet.top?_eq_some htop).1
      have hres : popPending false m = (none, m) := by
        unfold popPending
        simp only [Bool.false_eq_true, if_false, hnil, List.head?_nil, List.tail_nil]
        rw [← hnil]
      refine ⟨{ m with priority := m.priority.rem e }, _, _, fun q => { q with priority := q.priority.add e score },
        ⟨⟨rfl, rfl, rfl, rfl⟩, ?_, fun z => rfl⟩, fun q => ⟨_, resetSequence_eq q⟩,
        fun q => ⟨_, resetSequence_eq q⟩, ?_⟩
      · dsimp only
        rw [SortedSet.add_rem_self hscore]
      · rw [aclaim, claimPriority, ← hm', hres]
        simp only [htop]

/-- The attempt reports a conflict and harms nothing exactly if it does not look for an
unclaimed deadline. -/
theorem unharmed_iff (hc : (s.claims.get? e).isSome) (hnext : NextIs kind (prepare kind t s) e) {w : WorkerId}
    {lease : ℕ} (hlease : LeaseFits t lease) (x : Bool) :
    ((aclaim kind w lease x t s).1 = .ok (.conflict e) ∧
      Unharmed s (prepare kind t s) (aclaim kind w lease x t s).2 e) ↔ x = false := by
  obtain ⟨p, f, g, k, hput, hf, hg, hr⟩ := aclaim_of_nextIs hnext w lease x
  have hsame := prepare_sameData kind t s
  have hcase := claimPopped_case w lease x t e f g k p
  have hpc : p.claims.get? e = s.claims.get? e := by rw [hput.same.claims, hsame.claims]
  rw [← hr] at hcase
  generalize aclaim kind w lease x t s = res at hcase
  cases hcase with
  | expired hx hd => simp [hx]
  | @error r q hq he =>
    constructor
    · rintro ⟨hconflict, -⟩
      cases hconflict
    · rintro rfl
      cases hq
      obtain ⟨raw, hraw⟩ := exists_encode_claimTable w hlease
      cases hraw.symm.trans he
  | @claimed r q raw hq he hnone =>
    have hqc : q.claims = p.claims := by cases hq <;> rfl
    rw [hqc, hpc] at hnone
    simp [hnone] at hc
  | @conflict r q raw hq he hsome =>
    cases hq with
    | off =>
      rw [hput.back]
      refine ⟨fun _ => rfl, fun _ => ⟨rfl, ?_, ?_, ?_, ?_, rfl, rfl⟩⟩
      · rw [hsame.records]
      · rw [hsame.claims]
      · rw [hsame.leases]
      · rw [hsame.unclaimed]
    | left hd hlt =>
      constructor
      · rintro ⟨-, hun⟩
        have hlost := hun.unclaimed
        rw [hput.unclaimed, ← hsame.unclaimed, ← hput.same.unclaimed, hd] at hlost
        simp at hlost
      · intro hx
        cases hx

/-- Promotion and delivery leave an id alone that is due in neither set. -/
theorem prepare_same (hs : NotDue s e t) (hd : ∀ d, s.delayed.score? e = some d → t.nowUs < d) :
    (prepare kind t s).pending.count e = s.pending.count e ∧
      (prepare kind t s).priority.score? e = s.priority.score? e := by
  have hdeliver (m : Store) (hm : m.delayed = s.delayed) :
      (deliverDueDelayed false t.nowUs m).pending.count e = m.pending.count e ∧
        (deliverDueDelayed false t.nowUs m).priority.score? e = m.priority.score? e := by
    have he : e ∉ (m.delayed.upTo t.nowUs).map Prod.snd := by
      rw [hm]
      intro hin
      obtain ⟨⟨x, b⟩, hp, rfl⟩ := List.mem_map.mp hin
      obtain ⟨hscore, hle⟩ := SortedSet.mem_upTo.mp hp
      exact absurd hle (not_le.mpr (hd x hscore))
    obtain ⟨h₁, -, -, h₂⟩ := deliverDelayed_other false he m
    exact ⟨h₁, by rw [deliverDueDelayed, h₂]⟩
  have plain : (deliverDueDelayed false t.nowUs (promoteOneScheduled t.nowUs s)).pending.count e = s.pending.count e ∧
      (deliverDueDelayed false t.nowUs (promoteOneScheduled t.nowUs s)).priority.score? e = s.priority.score? e := by
    unfold promoteOneScheduled
    rcases hhead : (s.scheduled.upTo t.nowUs).head? with _ | ⟨x, i⟩
    · exact hdeliver s rfl
    · obtain ⟨h₁, -, h₂, h₃⟩ := promoteFirstQueued_other (notMem_withScore_head hhead hs) s
      obtain ⟨h₄, h₅⟩ := hdeliver _ h₂
      exact ⟨h₄.trans h₁, h₅.trans (by rw [h₃])⟩
  cases kind with
  | fifo => exact plain
  | stack => exact plain
  | priority =>
    unfold prepare promoteOneScheduledPriority
    rcases hhead : (s.scheduled.upTo t.nowUs).head? with _ | ⟨x, i⟩
    · exact hdeliver s rfl
    · obtain ⟨-, h₂, h₃, h₄, h₅⟩ := selectScheduled_other (notMem_withScore_head hhead hs) none s
      dsimp only
      rcases hsel : selectScheduled (s.scheduled.withScore x) none s with ⟨_ | ⟨id, p⟩, m⟩
      · rw [hsel] at h₂ h₃ h₄
        obtain ⟨h₆, h₇⟩ := hdeliver m h₃
        exact ⟨h₆.trans (by rw [h₂]), h₇.trans (by rw [h₄])⟩
      · rw [hsel] at h₂ h₃ h₄ h₅
        dsimp only at h₂ h₃ h₄
        have hne : e ≠ id := fun heq => h₅ (fun p hp => by cases hp) (id, p) rfl heq.symm
        set q : Store := { pushPriority (fl (p * prioritySequenceSpace)) id m with
          scheduled := (pushPriority (fl (p * prioritySequenceSpace)) id m).scheduled.rem id } with hq
        obtain ⟨h₆, h₇⟩ := hdeliver q h₃
        refine ⟨h₆.trans ?_, h₇.trans ?_⟩
        · rw [hq, ← h₂]
          rfl
        · rw [hq]
          simp only [pushPriority, SortedSet.score?_add, if_neg hne, h₄]

end Redis

namespace Memory

open State

variable {cls : EntryClass} {s m : State cls} {e : EntryId} {now promoted : ClockTime}

/-- The next claim takes this id: every id before it is delayed, which a stack cannot skip. -/
def NextIs (stack : Bool) (now : ClockTime) (m : State cls) (e : EntryId) : Prop :=
  ¬m.isDelayed now e ∧
    if stack then ∃ rest, m.pending = rest ++ [e]
    else ∃ skipped rest, m.pending = skipped ++ e :: rest ∧ ∀ id ∈ skipped, m.isDelayed now id

/-- The state in which the loop of `_aclaim` starts. -/
def prepared (now promoted : ClockTime) (s : State cls) : State cls :=
  (s.apromoteScheduled promoted).recoverExpiredClaims now

/-- Nothing about the claimed id has changed: `s` is the state before the call, `m` the one in
which promotion and recovery have left it. -/
structure Unharmed (s m s' : State cls) (e : EntryId) : Prop where
  entry : s'.entries.get? e = s.entries.get? e
  claim : s'.claims.get? e = s.claims.get? e
  lease : s'.claimDeadlines.get? e = s.claimDeadlines.get? e
  deadline : s'.unclaimedDeadlines.get? e = s.unclaimedDeadlines.get? e
  remaining : s'.unclaimedRemaining.get? e = s.unclaimedRemaining.get? e
  pending : s'.pending.count e = m.pending.count e

/-- The lease of a claim without one never runs out. -/
def LeaseActive (now : ClockTime) (s : State cls) (e : EntryId) : Prop :=
  ∀ d, s.claimDeadlines.get? e = some d → now < d

theorem apromoteScheduled_eq (promoted : ClockTime) (s : State cls) :
    ∃ d l, s.apromoteScheduled promoted = { s with scheduled := d, pending := l } := by
  obtain ⟨d, hd, -⟩ := popNextDueScheduledLoop_spec false promoted (s.scheduled.items.length + 1) s
  have hpop : (s.popNextDueScheduled false promoted).2 = { s with scheduled := d } := hd
  unfold apromoteScheduled
  rcases hr : s.popNextDueScheduled false promoted with ⟨_ | id, q⟩
  · rw [hr] at hpop
    exact ⟨d, s.pending, hpop⟩
  · rw [hr] at hpop
    exact ⟨d, s.pending ++ [id], congrArg (apush id) hpop⟩

theorem claims_recoverClaims {ids : List EntryId} (he : e ∈ ids) (now : ClockTime) (s : State cls) :
    (ids.foldl (fun s id => s.recoverClaim now id) s).claims.get? e = none := by
  have herased (id : EntryId) (s : State cls) : (s.recoverClaim now id).claims = s.claims.erase id := by
    unfold recoverClaim
    dsimp only
    split_ifs
    · rfl
    · split <;> rfl
  have hnone (ids : List EntryId) (s : State cls) (hs : s.claims.get? e = none) :
      (ids.foldl (fun s id => s.recoverClaim now id) s).claims.get? e = none := by
    induction ids generalizing s with
    | nil => exact hs
    | cons id ids ih =>
      apply ih
      rw [herased, Dict.get?_erase, hs, ite_self]
  induction ids generalizing s with
  | nil => cases he
  | cons id ids ih =>
    rcases List.mem_cons.mp he with rfl | he
    · refine hnone ids _ ?_
      rw [herased, Dict.get?_erase, if_pos rfl]
    · exact ih he _

/-- Until its lease runs out, promotion and recovery keep what is stored of a claim. -/
theorem prepared_sameAt (hlease : LeaseActive now s e) (promoted : ClockTime) :
    ∃ p : State cls, SameAt e p (prepared now promoted s) ∧ ∃ d l, p = { s with scheduled := d, pending := l } := by
  obtain ⟨d, l, hp⟩ := apromoteScheduled_eq promoted s
  refine ⟨s.apromoteScheduled promoted, ?_, d, l, hp⟩
  apply SameAt.recoverClaims
  intro hin
  obtain ⟨a, ha, hle⟩ := mem_expiredClaims.mp hin
  rw [hp] at ha
  exact absurd hle (not_le.mpr (hlease a ha))

/-- Promotion leaves an id alone that is not due. -/
theorem prepared_same (hlease : LeaseActive now s e) (hlate : ∀ a, s.scheduled.get? e = some a → promoted < a) :
    (prepared now promoted s).pending.count e = s.pending.count e := by
  obtain ⟨d, hd, -, hpop⟩ := popNextDueScheduledLoop_spec false promoted (s.scheduled.items.length + 1) s
  have hpopped : (s.popNextDueScheduled false promoted).2 = { s with scheduled := d } := hd
  have hpromoted : (s.apromoteScheduled promoted).pending.count e = s.pending.count e := by
    unfold apromoteScheduled
    rcases hr : s.popNextDueScheduled false promoted with ⟨_ | id, q⟩
    · rw [hr] at hpopped
      dsimp only at hpopped ⊢
      rw [hpopped]
    · rw [hr] at hpopped
      obtain ⟨a, ha, hle⟩ := hpop id (congrArg Prod.fst hr)
      have hne : e ≠ id := fun heq => absurd hle (not_le.mpr (hlate a (heq ▸ ha)))
      have hq : q.pending = s.pending := by
        dsimp only at hpopped
        rw [hpopped]
      show (q.apush id).pending.count e = s.pending.count e
      rw [(SameAt.apush hne q).pending, hq]
  have hrecovered : SameAt e (s.apromoteScheduled promoted) (prepared now promoted s) := by
    apply SameAt.recoverClaims
    intro hin
    obtain ⟨d', l, hp⟩ := apromoteScheduled_eq promoted s
    obtain ⟨a, ha, hle⟩ := mem_expiredClaims.mp hin
    rw [hp] at ha
    exact absurd hle (not_le.mpr (hlease a ha))
  exact hrecovered.pending.trans hpromoted

theorem prepared_recovered (hlease : ¬LeaseActive now s e) : (prepared now promoted s).claims.get? e = none := by
  obtain ⟨d, l, hp⟩ := apromoteScheduled_eq promoted s
  apply claims_recoverClaims
  rw [hp]
  apply mem_expiredClaims.mpr
  unfold LeaseActive at hlease
  push Not at hlease
  exact hlease

theorem aclaim_of_nextIs {stack : Bool} (h : NextIs stack now (prepared now promoted s) e) (w : WorkerId)
    (lease : Option ℕ) (x : Bool) : ∃ l, (l ++ [e]).Perm (prepared now promoted s).pending ∧
      s.aclaim stack w lease x now promoted =
        claimPopped stack w lease x now e { prepared now promoted s with pending := l } := by
  have haclaim : s.aclaim stack w lease x now promoted =
      (prepared now promoted s).aclaimLoop stack w lease x now (prepared now promoted s).pending.length := rfl
  rw [haclaim]
  generalize prepared now promoted s = m at h ⊢
  obtain ⟨hdue, hnext⟩ := h
  cases stack with
  | true =>
    obtain ⟨rest, hp⟩ := hnext
    have hget : m.getPending true = (some e, { m with pending := rest }) := by
      unfold getPending
      rw [hp]
      simp
    refine ⟨rest, by rw [hp], ?_⟩
    rw [hp, List.length_append, List.length_singleton, aclaimLoop_succ, hget]
    exact if_neg hdue
  | false =>
    obtain ⟨skipped, rest, hp, hskip⟩ := hnext
    refine ⟨rest ++ skipped, ?_, ?_⟩
    · rw [hp]
      have hfront : (rest ++ skipped ++ [e]).Perm (e :: (rest ++ skipped)) := List.perm_append_singleton ..
      have hback : (e :: (rest ++ skipped)).Perm (e :: (skipped ++ rest)) := (List.perm_append_comm).cons e
      exact hfront.trans (hback.trans List.perm_middle.symm)
    · have hlen : m.pending.length = skipped.length + (rest.length + 1) := by
        rw [hp, List.length_append, List.length_cons]
      rw [hlen, aclaimLoop_skip w lease x now _ skipped _ hp hskip, aclaimLoop_succ]
      exact if_neg hdue

/-- The claim is still there exactly while its lease is active. -/
theorem isSome_claims_prepared (now promoted : ClockTime) (hc : (s.claims.get? e).isSome) :
    ((prepared now promoted s).claims.get? e).isSome ↔ LeaseActive now s e := by
  constructor
  · intro hsome
    by_contra hlease
    rw [prepared_recovered hlease] at hsome
    cases hsome
  · intro hlease
    obtain ⟨p, hsame, d, l, rfl⟩ := prepared_sameAt hlease promoted
    rw [hsame.claims]
    exact hc

/-- A stack cannot put the duplicate back. -/
theorem aclaim_stuck (hc : (s.claims.get? e).isSome) (hlease : LeaseActive now s e)
    (hnext : NextIs true now (prepared now promoted s) e) (w : WorkerId) (lease : Option ℕ) (x : Bool) :
    (s.aclaim true w lease x now promoted).1 = .error .attributeError := by
  obtain ⟨l, -, hr⟩ := aclaim_of_nextIs hnext w lease x
  have hclaimed := (isSome_claims_prepared now promoted hc).mpr hlease
  rw [hr]
  exact congrArg Prod.fst (if_pos hclaimed)

/-- A queue puts the duplicate back at its end; a stack loses it with another exception. -/
theorem unharmed_iff (hc : (s.claims.get? e).isSome) {stack : Bool} (hnext : NextIs stack now (prepared now promoted s) e)
    (w : WorkerId) (lease : Option ℕ) (x : Bool) :
    ((s.aclaim stack w lease x now promoted).1 = .error (.claimConflict e) ∧
      Unharmed s (prepared now promoted s) (s.aclaim stack w lease x now promoted).2 e) ↔
        stack = false ∧ LeaseActive now s e := by
  obtain ⟨l, hl, hr⟩ := aclaim_of_nextIs hnext w lease x
  set m := prepared now promoted s with hm
  have hactive := isSome_claims_prepared now promoted hc
  rw [← hm] at hactive
  have hgone (hnone : m.claims.get? e = none) : ¬LeaseActive now s e := fun hlease => by
    rw [← hactive, hnone] at hlease
    cases hlease
  rw [hr]
  have hcase := claimPopped_case stack w lease x now e { m with pending := l }
  generalize claimPopped stack w lease x now e { m with pending := l } = res at hcase
  cases hcase with
  | stuck hstack hclaim => simp [hstack]
  | conflict hstack hclaim =>
    have hlease := hactive.mp hclaim
    obtain ⟨p, hsame, d, l', rfl⟩ := prepared_sameAt hlease promoted
    refine ⟨fun _ => ⟨hstack, hlease⟩, fun _ => ⟨rfl, ?_⟩⟩
    exact ⟨hsame.entries, hsame.claims, hsame.claimDeadlines, hsame.unclaimedDeadlines, hsame.unclaimedRemaining,
      hl.count_eq e⟩
  | missing hnone => exact ⟨(fun h => by cases h.1), fun h => absurd h.2 (hgone hnone)⟩
  | undated _ hnone => exact ⟨(fun h => by cases h.1), fun h => absurd h.2 (hgone hnone)⟩
  | expired _ hnone => exact ⟨(fun h => by cases h.1), fun h => absurd h.2 (hgone hnone)⟩
  | claimed hnone => exact ⟨(fun h => by cases h.1), fun h => absurd h.2 (hgone hnone)⟩

end Memory

/-- On Redis, a claim attempt that takes the id of an entry under a claim reports a conflict and
leaves everything about the entry as it was exactly if it makes no expiry check. In process it
does so exactly if the queue is not a stack and the lease of the claim has not run out. Apart
from what promotion and delivery have made pending first, the pending membership compared is
that before the call. -/
theorem duplicate_unharmed_iff (cls : EntryClass) :
    (∀ (kind : Redis.QueueKind) (s : Redis.Store) (e : EntryId) (t : ServerTime) (w : Redis.WorkerId) (lease : ℕ)
      (x : Bool), (s.records.get? e).isSome → (s.claims.get? e).isSome →
        Redis.NextIs kind (Redis.prepare kind t s) e → Redis.Library.LeaseFits t lease →
        (((Redis.aclaim kind w lease x t s).1 = .ok (.conflict e) ∧
          Redis.Unharmed s (Redis.prepare kind t s) (Redis.aclaim kind w lease x t s).2 e) ↔ x = false) ∧
        (Redis.NotDue s e t → (∀ d, s.delayed.score? e = some d → t.nowUs < d) →
          (Redis.prepare kind t s).pending.count e = s.pending.count e ∧
            (Redis.prepare kind t s).priority.score? e = s.priority.score? e)) ∧
      ∀ (stack : Bool) (s : Memory.State cls) (e : EntryId) (now promoted : ClockTime) (w : Memory.WorkerId)
        (lease : Option ℕ) (x : Bool), (s.entries.get? e).isSome → (s.claims.get? e).isSome →
          Memory.NextIs stack now (Memory.prepared now promoted s) e →
          (((s.aclaim stack w lease x now promoted).1 = .error (.claimConflict e) ∧
            Memory.Unharmed s (Memory.prepared now promoted s) (s.aclaim stack w lease x now promoted).2 e) ↔
              stack = false ∧ Memory.LeaseActive now s e) ∧
          (Memory.LeaseActive now s e → (∀ a, s.scheduled.get? e = some a → promoted < a) →
            (Memory.prepared now promoted s).pending.count e = s.pending.count e) := by
  constructor
  · intro kind s e t w lease x _ hc hnext hlease
    exact ⟨Redis.unharmed_iff hc hnext hlease x, Redis.prepare_same⟩
  · intro stack s e now promoted w lease x _ hc hnext
    exact ⟨Memory.unharmed_iff hc hnext w lease x, Memory.prepared_same⟩

namespace Redis

/-- An event under a claim whose id has been pushed once more. -/
def pushedTwice (t : ServerTime) : Store :=
  let e : QueueEntry .base := .plain (.ofLast 1) .null
  let s := Library.storeEventAndPush e.toDict e.id 5000000000 .empty
  let s := (aclaim .fifo "w" defaultClaimLease true t s).2
  { s with pending := s.pending ++ [e.id] }

end Redis

namespace Memory

def pushedTwice (stack : Bool) (now : ClockTime) : State .base :=
  let e : QueueEntry .base := .plain (.ofLast 1) .null
  let s := (State.astore e .empty).apush e.id
  (s.aclaim stack "w" none false now now).2.apush e.id

end Memory

/-- Without the expiry check, and in a queue, the second worker is turned away. -/
theorem duplicate_unharmed_turned_away :
    let t : ServerTime := .ofSeconds 1000 ServerTime.second_1000
    (Redis.aclaim .fifo "v" Redis.defaultClaimLease false t (Redis.pushedTwice t)).1 = .ok (.conflict (.ofLast 1)) ∧
      ((Memory.pushedTwice false t.toClockTime).aclaim false "v" none false t.toClockTime t.toClockTime).1 =
        .error (.claimConflict (.ofLast 1)) := by
  intro t
  obtain ⟨hredis, hmemory⟩ := duplicate_unharmed_iff .base
  have hlease : Redis.Library.LeaseFits t Redis.defaultClaimLease := Redis.Library.leaseFits_of_lt (by decide)
  have hnext : Redis.NextIs .fifo (Redis.prepare .fifo t (Redis.pushedTwice t)) (.ofLast 1) := .inl (by decide +kernel)
  have hnext' : Memory.NextIs false t.toClockTime
      (Memory.prepared t.toClockTime t.toClockTime (Memory.pushedTwice false t.toClockTime)) (.ofLast 1) :=
    ⟨by decide +kernel, [], [], rfl, fun id hid => by cases hid⟩
  have hactive : Memory.LeaseActive t.toClockTime (Memory.pushedTwice false t.toClockTime) (.ofLast 1) :=
    fun d hd => by cases hd
  exact ⟨((hredis .fifo _ _ t "v" _ false (by decide +kernel) (by decide +kernel) hnext hlease).1.mpr rfl).1,
    ((hmemory false _ _ _ _ "v" none false (by decide +kernel) (by decide +kernel) hnext').1.mpr ⟨rfl, hactive⟩).1⟩

/-- With the check the record of the claimed event is deleted; a stack drops the id and raises
another exception. -/
theorem duplicate_harmed :
    let t : ServerTime := .ofSeconds 1000 ServerTime.second_1000
    let s := Redis.pushedTwice t
    let m := Memory.pushedTwice true t.toClockTime
    ((s.records.get? (.ofLast 1)).isSome ∧ (s.claims.get? (.ofLast 1)).isSome ∧ (.ofLast 1) ∈ s.pending ∧
      (Redis.aclaim .fifo "v" Redis.defaultClaimLease true t s).1 = .ok (.expired (.ofLast 1)) ∧
      ((Redis.aclaim .fifo "v" Redis.defaultClaimLease true t s).2.records.get? (.ofLast 1)).isNone) ∧
    (m.entries.get? (.ofLast 1)).isSome ∧ (m.claims.get? (.ofLast 1)).isSome ∧ (.ofLast 1) ∈ m.pending ∧
      (m.aclaim true "v" none false t.toClockTime t.toClockTime).1 = .error .attributeError ∧
      (m.aclaim true "v" none false t.toClockTime t.toClockTime).2.pending = [] := by
  intro t s m
  have hexpired : (Redis.aclaim .fifo "v" Redis.defaultClaimLease true t s).1 = .ok (.expired (.ofLast 1)) := by
    decide +kernel
  have hpending : (m.aclaim true "v" none false t.toClockTime t.toClockTime).2.pending = [] := by decide +kernel
  have hactive : Memory.LeaseActive t.toClockTime m (.ofLast 1) := fun d hd => by cases hd
  have hnext : Memory.NextIs true t.toClockTime (Memory.prepared t.toClockTime t.toClockTime m) (.ofLast 1) :=
    ⟨by decide +kernel, [], by decide +kernel⟩
  have hraised := Memory.aclaim_stuck (by decide +kernel) hactive hnext "v" none false
  refine ⟨⟨?_, ?_, ?_, hexpired, ?_⟩, ?_, ?_, ?_, hraised, hpending⟩
  all_goals decide +kernel

end DjangoQueues
