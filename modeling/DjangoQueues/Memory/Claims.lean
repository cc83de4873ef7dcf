import DjangoQueues.Memory.Provider

/-! The claim loop of the in-process provider, one popped id at a time. -/

namespace DjangoQueues.Memory

variable {cls : EntryClass}

namespace State

/-- What `_aclaim` does with a popped id that is not delayed. -/
def claimPopped (stack : Bool) (w : WorkerId) (lease : Option ℕ) (expireUnclaimed : Bool) (now : ClockTime)
    (id : EntryId) (s : State cls) : Except QueueError (QueueEntry cls) × State cls :=
  if (s.claims.get? id).isSome then
    match s.requeueSkippedPending stack id with
    | .error e => (.error e, s)
    | .ok s => (.error (.claimConflict id), s)
  else
    match s.entries.get? id with
    | none => (.error (.notFound id), s)
    | some e =>
      if expireUnclaimed then
        match s.unclaimedDeadlines.get? id with
        | none => (.error (.expired id), s)
        | some deadline =>
          if deadline ≤ now then
            (.error (.expired id), { s with
              entries := s.entries.erase id
              availableAt := s.availableAt.erase id
              unclaimedDeadlines := s.unclaimedDeadlines.erase id })
          else
            (.ok e, takeClaim w lease now id { s with
              unclaimedDeadlines := s.unclaimedDeadlines.erase id
              unclaimedRemaining := s.unclaimedRemaining.set id (deadline.sub now) })
      else (.ok e, takeClaim w lease now id s)

/-- The loop either goes on with a delayed id put back, or ends with the id it popped. -/
theorem aclaimLoop_succ (stack : Bool) (w : WorkerId) (lease : Option ℕ) (x : Bool) (now : ClockTime) (n : ℕ)
    (s : State cls) : s.aclaimLoop stack w lease x now (n + 1) =
      match s.getPending stack with
      | (none, s) => (.error .empty, s)
      | (some id, s) =>
        if s.isDelayed now id then
          match s.requeueSkippedPending stack id with
          | .error e => (.error e, s)
          | .ok s => s.aclaimLoop stack w lease x now n
        else s.claimPopped stack w lease x now id := rfl

/-- The two ways to take an entry: without its lifetime, or with what is left of it. -/
inductive Taking (now : ClockTime) (id : EntryId) (s : State cls) : Bool → State cls → Prop
  | untimed : Taking now id s false s
  | timed {deadline : ClockTime} (hd : s.unclaimedDeadlines.get? id = some deadline) (hlt : now < deadline) :
    Taking now id s true { s with
      unclaimedDeadlines := s.unclaimedDeadlines.erase id
      unclaimedRemaining := s.unclaimedRemaining.set id (deadline.sub now) }

inductive ClaimCase (stack : Bool) (w : WorkerId) (lease : Option ℕ) (x : Bool) (now : ClockTime) (id : EntryId)
    (s : State cls) : Except QueueError (QueueEntry cls) × State cls → Prop
  | stuck (hstack : stack = true) (hc : (s.claims.get? id).isSome) :
    ClaimCase stack w lease x now id s (.error .attributeError, s)
  | conflict (hstack : stack = false) (hc : (s.claims.get? id).isSome) :
    ClaimCase stack w lease x now id s (.error (.claimConflict id), s.apush id)
  | missing (hc : s.claims.get? id = none) (he : s.entries.get? id = none) :
    ClaimCase stack w lease x now id s (.error (.notFound id), s)
  | undated {e : QueueEntry cls} (hx : x = true) (hc : s.claims.get? id = none) (he : s.entries.get? id = some e)
      (hd : s.unclaimedDeadlines.get? id = none) :
    ClaimCase stack w lease x now id s (.error (.expired id), s)
  | expired {e : QueueEntry cls} {deadline : ClockTime} (hx : x = true) (hc : s.claims.get? id = none)
      (he : s.entries.get? id = some e) (hd : s.unclaimedDeadlines.get? id = some deadline) (hle : deadline ≤ now) :
    ClaimCase stack w lease x now id s (.error (.expired id), { s with
      entries := s.entries.erase id
      availableAt := s.availableAt.erase id
      unclaimedDeadlines := s.unclaimedDeadlines.erase id })
  | claimed {e : QueueEntry cls} {q : State cls} (hc : s.claims.get? id = none) (he : s.entries.get? id = some e)
      (hq : Taking now id s x q) : ClaimCase stack w lease x now id s (.ok e, takeClaim w lease now id q)

theorem claimPopped_case (stack : Bool) (w : WorkerId) (lease : Option ℕ) (x : Bool) (now : ClockTime)
    (id : EntryId) (s : State cls) :
    ClaimCase stack w lease x now id s (s.claimPopped stack w lease x now id) := by
  unfold claimPopped requeueSkippedPending
  by_cases hc : (s.claims.get? id).isSome
  · rw [if_pos hc]
    cases stack with
    | true => exact .stuck rfl hc
    | false => exact .conflict rfl hc
  · rw [if_neg hc]
    have hnone : s.claims.get? id = none := by simpa using hc
    cases he : s.entries.get? id with
    | none => exact .missing hnone he
    | some e =>
      cases x with
      | false => exact .claimed hnone he .untimed
      | true =>
        simp only [if_true]
        cases hd : s.unclaimedDeadlines.get? id with
        | none => exact .undated rfl hnone he hd
        | some deadline =>
          dsimp only
          by_cases hle : deadline ≤ now
          · rw [if_pos hle]
            exact .expired rfl hnone he hd hle
          · rw [if_neg hle]
            exact .claimed hnone he (.timed hd (not_le.mp hle))

/-! ## Delayed ids -/

/-- A queue that is not a stack puts delayed ids back at its end. -/
theorem aclaimLoop_skip (w : WorkerId) (lease : Option ℕ) (x : Bool) (now : ClockTime) (n : ℕ)
    (skipped tail : List EntryId) {s : State cls} (hp : s.pending = skipped ++ tail)
    (hd : ∀ id ∈ skipped, s.isDelayed now id) :
    s.aclaimLoop false w lease x now (skipped.length + n) =
      aclaimLoop false w lease x now n { s with pending := tail ++ skipped } := by
  induction skipped generalizing s tail with
  | nil =>
    have hs : { s with pending := tail ++ [] } = s := by rw [List.append_nil, ← List.nil_append tail, ← hp]
    rw [hs, List.length_nil, Nat.zero_add]
  | cons id skipped ih =>
    have hget : s.getPending false = (some id, { s with pending := skipped ++ tail }) := by
      unfold getPending
      rw [hp]
      rfl
    have hid : isDelayed now { s with pending := skipped ++ tail } id := hd id (List.mem_cons_self ..)
    have hlen : (id :: skipped).length + n = (skipped.length + n) + 1 := by
      rw [List.length_cons]
      omega
    have hrest : ∀ b ∈ skipped, isDelayed now { s with pending := skipped ++ (tail ++ [id]) } b := fun b hb =>
      hd b (List.mem_cons_of_mem _ hb)
    rw [hlen, aclaimLoop_succ, hget]
    dsimp only
    rw [if_pos hid, requeueSkippedPending]
    simp only [Bool.false_eq_true, if_false, apush, List.append_assoc]
    have hnext := ih (s := { s with pending := skipped ++ (tail ++ [id]) }) (tail ++ [id]) rfl hrest
    rw [hnext]
    simp only [List.append_assoc, List.singleton_append]

end State

/-! ## One id at a time -/

/-- Nothing that concerns the id has changed. -/
structure SameAt (e : EntryId) (s s' : State cls) : Prop where
  entries : s'.entries.get? e = s.entries.get? e
  pending : s'.pending.count e = s.pending.count e
  claims : s'.claims.get? e = s.claims.get? e
  claimDeadlines : s'.claimDeadlines.get? e = s.claimDeadlines.get? e
  availableAt : s'.availableAt.get? e = s.availableAt.get? e
  unclaimedDeadlines : s'.unclaimedDeadlines.get? e = s.unclaimedDeadlines.get? e
  unclaimedRemaining : s'.unclaimedRemaining.get? e = s.unclaimedRemaining.get? e

namespace SameAt

variable {s s' s'' : State cls} {e id : EntryId}

theorem refl (e : EntryId) (s : State cls) : SameAt e s s := ⟨rfl, rfl, rfl, rfl, rfl, rfl, rfl⟩

theorem trans (h : SameAt e s s') (h' : SameAt e s' s'') : SameAt e s s'' where
  entries := h'.entries.trans h.entries
  pending := h'.pending.trans h.pending
  claims := h'.claims.trans h.claims
  claimDeadlines := h'.claimDeadlines.trans h.claimDeadlines
  availableAt := h'.availableAt.trans h.availableAt
  unclaimedDeadlines := h'.unclaimedDeadlines.trans h.unclaimedDeadlines
  unclaimedRemaining := h'.unclaimedRemaining.trans h.unclaimedRemaining

/-- The pending ids are the same, in another order. -/
theorem of_perm (e : EntryId) {l : List EntryId} (h : l.Perm s.pending) : SameAt e s { s with pending := l } :=
  ⟨rfl, h.count_eq e, rfl, rfl, rfl, rfl, rfl⟩

theorem apush (he : e ≠ id) (s : State cls) : SameAt e s (s.apush id) := by
  refine ⟨rfl, ?_, rfl, rfl, rfl, rfl, rfl⟩
  have hzero : [id].count e = 0 := List.count_eq_zero.mpr (by simpa using he)
  show (s.pending ++ [id]).count e = s.pending.count e
  rw [List.count_append, hzero, Nat.add_zero]

theorem recoverClaim (he : e ≠ id) (now : ClockTime) (s : State cls) : SameAt e s (s.recoverClaim now id) := by
  have hbase : SameAt e s { s with claims := s.claims.erase id, claimDeadlines := s.claimDeadlines.erase id } :=
    ⟨rfl, rfl, by simp [he], by simp [he], rfl, rfl, rfl⟩
  unfold State.recoverClaim
  dsimp only
  split_ifs
  · exact hbase
  · split
    · exact hbase.trans (.apush he _)
    · refine hbase.trans (SameAt.trans ?_ (.apush he _))
      exact ⟨rfl, rfl, rfl, rfl, rfl, by simp [he], by simp [he]⟩

theorem recoverClaims (ids : List EntryId) (he : e ∉ ids) (now : ClockTime) (s : State cls) :
    SameAt e s (ids.foldl (fun s id => s.recoverClaim now id) s) := by
  induction ids generalizing s with
  | nil => exact .refl e s
  | cons id ids ih =>
    rw [List.mem_cons, not_or] at he
    exact (SameAt.recoverClaim he.1 now s).trans (ih he.2 _)

end SameAt

namespace State

/-- The claims whose lease has run out. -/
def expiredClaims (now : ClockTime) (s : State cls) : List EntryId :=
  (s.claimDeadlines.items.filter (·.2 ≤ now)).map Prod.fst

theorem mem_expiredClaims {now : ClockTime} {s : State cls} {e : EntryId} :
    e ∈ s.expiredClaims now ↔ ∃ d, s.claimDeadlines.get? e = some d ∧ d ≤ now := by
  unfold expiredClaims
  simp only [List.mem_map, List.mem_filter, decide_eq_true_eq, Prod.exists, exists_and_right, exists_eq_right,
    Dict.get?_eq_some]

theorem nodup_expiredClaims (now : ClockTime) (s : State cls) : (s.expiredClaims now).Nodup :=
  s.claimDeadlines.nodup.sublist (List.filter_sublist.map _)

theorem recoverExpiredClaims_eq (now : ClockTime) (s : State cls) :
    s.recoverExpiredClaims now = (s.expiredClaims now).foldl (fun s id => s.recoverClaim now id) s := rfl

end State

end DjangoQueues.Memory
