import DjangoQueues.Redis.Recovery

/-! Recovery in batches: every call takes the first due members of the lease index, and none of
them is due afterwards, so enough calls leave none. -/

namespace DjangoQueues.Redis

open Library

/-- What the store holds of the claim of an id. -/
structure ClaimSlot where
  record : Option Json
  claim : Option Json
  lease : Option ℚ
  unclaimed : Option ℚ
  pending : ℕ
  priority : Option ℚ

def Store.claimSlot (s : Store) (e : EntryId) : ClaimSlot :=
  ⟨s.records.get? e, s.claims.get? e, s.leases.score? e, s.unclaimed.score? e, s.pending.count e, s.priority.score? e⟩

namespace ClaimSlot

/-- The deadline that the claim itself carries. -/
def deadline? (σ : ClaimSlot) : Option ℚ :=
  tonumber ((σ.claim.bind Cjson.decode).bind fun claim => claim.field? "lease_deadline")

/-- The claim has not run out, whatever the index says. -/
def Live (now : ℚ) (σ : ClaimSlot) : Prop := ∃ d, σ.deadline? = some d ∧ now < d

instance (now : ℚ) (σ : ClaimSlot) : Decidable (σ.Live now) :=
  decidable_of_iff (σ.deadline?.any (now < ·) = true) (by simp [Live, Option.any_eq_true])

def Unfinished (σ : ClaimSlot) : Prop := statusText σ.record = some "queued" ∨ statusText σ.record = some "running"

/-- What one visit of recovery makes of a due claim. -/
inductive Visited (kind : QueueKind) (now : ℚ) (σ : ClaimSlot) : ClaimSlot → Prop
  | kept {d : ℚ} (hd : σ.deadline? = some d) (hlt : now < d) : Visited kind now σ { σ with lease := some d }
  | discarded (hlive : ¬σ.Live now) (hs : ¬σ.Unfinished) : Visited kind now σ { σ with claim := none, lease := none }
  | recovered {rawEntry raw : Json} {x : ℚ} {u : Option ℚ} (hlive : ¬σ.Live now) (hs : σ.Unfinished)
      (hr : σ.record = some rawEntry) (he : Cjson.encode (resetEntry (Cjson.table rawEntry)) = some raw) :
    Visited kind now σ
      { record := some raw
        claim := none
        lease := none
        unclaimed := u
        pending := if kind = .priority then σ.pending else σ.pending + 1
        priority := if kind = .priority then some x else σ.priority }

/-- A visited claim is due no more. -/
theorem Visited.lease {kind : QueueKind} {now : ℚ} {σ σ' : ClaimSlot} (h : Visited kind now σ σ') :
    ∀ x, σ'.lease = some x → now < x := by
  intro x hx
  cases h with
  | kept hd hlt =>
    rw [← Option.some.inj hx]
    exact hlt
  | discarded hlive hs => cases hx
  | recovered hlive hs hr he => cases hx

/-- The record of a claim that has run out can be written back. -/
def Encodable (now : ℚ) (σ : ClaimSlot) : Prop :=
  ¬σ.Live now → σ.Unfinished → ∀ raw, σ.record = some raw → (Cjson.encode (resetEntry (Cjson.table raw))).isSome

end ClaimSlot

/-- The redelivery of each queue class. -/
def redeliver (kind : QueueKind) : Lua → EntryId → Store → Store :=
  match kind with
  | .priority => redeliverPriority prioritySequenceSpace
  | _ => redeliverPending

theorem arecover_eq (kind : QueueKind) (batch : ℕ) (t : ServerTime) (s : Store) :
    arecover kind batch t s = recoverLoop (redeliver kind) t.nowUs (dueClaims batch t.nowUs s) 0 0 s := by
  cases kind <;> rfl

section Visit

variable {kind : QueueKind} {now : ℚ} {s : Store} {id e : EntryId}

theorem unclaimed_restoreUnclaimed_other (now : ℚ) (s : Store) (c : Option Lua) (he : e ≠ id) :
    (restoreUnclaimed c id now s).unclaimed.score? e = s.unclaimed.score? e := by
  unfold restoreUnclaimed
  split
  · rfl
  · rw [SortedSet.score?_add, if_neg he]

theorem claimSlot_redeliver_other (entry : Lua) (he : e ≠ id) :
    (redeliver kind entry id s).claimSlot e = s.claimSlot e := by
  cases kind with
  | priority => simp [redeliver, redeliverPriority, pushPriority, Store.claimSlot, he]
  | _ => simp [redeliver, redeliverPending, Store.claimSlot, Ne.symm he]

theorem claimSlot_recovered_other (entry : Lua) (raw : Json) (c : Option Lua) (he : e ≠ id) :
    (dropClaim id (redeliver kind entry id
      (restoreUnclaimed c id now { s with records := s.records.set id raw }))).claimSlot e = s.claimSlot e := by
  have hdrop (m : Store) : (dropClaim id m).claimSlot e = m.claimSlot e := by simp [Store.claimSlot, dropClaim, he]
  have hrestore := unclaimed_restoreUnclaimed_other now { s with records := s.records.set id raw } c he
  rw [hdrop, claimSlot_redeliver_other entry he, restoreUnclaimed_eq]
  simp [Store.claimSlot, he, hrestore]

/-- A visit touches no other id. -/
theorem claimSlot_recoverOne_other (kind : QueueKind) (now : ℚ) (s : Store) (he : e ≠ id) :
    (recoverOne (redeliver kind) now id s).2.claimSlot e = s.claimSlot e := by
  have hcase := recoverOne_case (redeliver kind) now id s
  generalize recoverOne (redeliver kind) now id s = r at hcase
  cases hcase with
  | kept hd hlt => simp [Store.claimSlot, he]
  | discarded hd hs => simp [Store.claimSlot, dropClaim, he]
  | error hd hr hs hnone => rfl
  | recovered hd hr hs hsome => exact claimSlot_recovered_other _ _ _ he

theorem not_live_of (hd : ∀ d, claimDeadline? s e = some d → d ≤ now) : ¬(s.claimSlot e).Live now := by
  rintro ⟨d, hdead, hlt⟩
  exact absurd (hd d hdead) (not_le.mpr hlt)

theorem unfinished_of {raw : Json} (hr : s.records.get? e = some raw)
    (hs : statusText (some raw) = some "queued" ∨ statusText (some raw) = some "running") :
    (s.claimSlot e).Unfinished := by
  change statusText (s.records.get? e) = _ ∨ statusText (s.records.get? e) = _
  rw [hr]
  exact hs

theorem claimSlot_recovered_self (kind : QueueKind) (now : ℚ) (s : Store) (id : EntryId) (entry : Lua) (raw : Json)
    (c : Option Lua) :
    ∃ x u, (dropClaim id (redeliver kind entry id
      (restoreUnclaimed c id now { s with records := s.records.set id raw }))).claimSlot id =
      { record := some raw
        claim := none
        lease := none
        unclaimed := u
        pending := if kind = .priority then (s.claimSlot id).pending else (s.claimSlot id).pending + 1
        priority := if kind = .priority then some x else (s.claimSlot id).priority } := by
  rw [restoreUnclaimed_eq]
  generalize (restoreUnclaimed c id now { s with records := s.records.set id raw }).unclaimed = u
  cases kind with
  | priority =>
    exact ⟨_, u.score? id, by
      simp [Store.claimSlot, dropClaim, redeliver, redeliverPriority, pushPriority]
      rfl⟩
  | _ => exact ⟨0, u.score? id, by simp [Store.claimSlot, dropClaim, redeliver, redeliverPending]⟩

theorem visited_recoverOne (kind : QueueKind) (henc : (s.claimSlot id).Encodable now) :
    ∃ outcome, (recoverOne (redeliver kind) now id s).1 = .ok outcome ∧
      (outcome = .kept ↔ (s.claimSlot id).Live now) ∧
      (s.claimSlot id).Visited kind now ((recoverOne (redeliver kind) now id s).2.claimSlot id) := by
  have hcase := recoverOne_case (redeliver kind) now id s
  generalize recoverOne (redeliver kind) now id s = r at hcase
  cases hcase with
  | @kept d hd hlt =>
    refine ⟨.kept, rfl, ⟨fun _ => ⟨d, hd, hlt⟩, fun _ => rfl⟩, ?_⟩
    have hslot : Store.claimSlot { s with leases := s.leases.add id d } id = { s.claimSlot id with lease := some d } := by
      simp [Store.claimSlot]
    rw [hslot]
    exact .kept hd hlt
  | discarded hd hs =>
    have hdead := not_live_of hd
    refine ⟨.discarded, rfl, ⟨(fun h => by cases h), fun h => absurd h hdead⟩, ?_⟩
    have hslot : (dropClaim id s).claimSlot id = { s.claimSlot id with claim := none, lease := none } := by
      simp [Store.claimSlot, dropClaim]
    rw [hslot]
    exact .discarded hdead (not_or.mpr hs)
  | error hd hr hs hnone =>
    have hsome := henc (not_live_of hd) (unfinished_of hr hs) _ hr
    rw [hnone] at hsome
    cases hsome
  | @recovered rawEntry raw hd hr hs hsome =>
    have hdead := not_live_of hd
    refine ⟨.recovered, rfl, ⟨(fun h => by cases h), fun h => absurd h hdead⟩, ?_⟩
    obtain ⟨x, u, hslot⟩ := claimSlot_recovered_self kind now s id
      (resetEntry (Cjson.table rawEntry)) raw ((s.claims.get? id).bind Cjson.decode)
    rw [hslot]
    exact .recovered hdead (unfinished_of hr hs) hr hsome

/-- Each id of a batch is visited once, and the counters count the claims that are given up. -/
theorem recoverLoop_visits (kind : QueueKind) {ids : List EntryId} (hn : ids.Nodup)
    (henc : ∀ e ∈ ids, (s.claimSlot e).Encodable now)
    (r d : ℕ) :
    ∃ r' d', (recoverLoop (redeliver kind) now ids r d s).1 = .ok (r', d') ∧
      r' + d' = r + d + ids.countP (fun e => ¬(s.claimSlot e).Live now) ∧
      (∀ e ∈ ids, (s.claimSlot e).Visited kind now ((recoverLoop (redeliver kind) now ids r d s).2.claimSlot e)) ∧
      ∀ e ∉ ids, (recoverLoop (redeliver kind) now ids r d s).2.claimSlot e = s.claimSlot e := by
  induction ids generalizing r d s with
  | nil => exact ⟨r, d, rfl, rfl, (fun e he => by cases he), fun e _ => rfl⟩
  | cons id ids ih =>
    rw [List.nodup_cons] at hn
    obtain ⟨outcome, hres, hkept, hvisit⟩ := visited_recoverOne kind (henc id (List.mem_cons_self ..))
    rcases hone : recoverOne (redeliver kind) now id s with ⟨o, s₁⟩
    have hother (e : EntryId) (he : e ≠ id) : s₁.claimSlot e = s.claimSlot e := by
      have h := claimSlot_recoverOne_other kind now s he
      rwa [hone] at h
    rw [hone] at hres hvisit
    dsimp only at hres hvisit
    subst hres
    -- the counters that the rest of the batch starts from
    have hnext : ∃ r₁ d₁, recoverLoop (redeliver kind) now (id :: ids) r d s =
        recoverLoop (redeliver kind) now ids r₁ d₁ s₁ ∧
        r₁ + d₁ = r + d + if (s.claimSlot id).Live now then 0 else 1 := by
      rw [recoverLoop, hone]
      cases outcome with
      | recovered =>
        refine ⟨r + 1, d, rfl, ?_⟩
        rw [if_neg fun h => by simpa using hkept.mpr h]
        omega
      | discarded =>
        refine ⟨r, d + 1, rfl, ?_⟩
        rw [if_neg fun h => by simpa using hkept.mpr h]
        omega
      | kept => exact ⟨r, d, rfl, by rw [if_pos (hkept.mp rfl)]; omega⟩
    obtain ⟨r₁, d₁, hloop, hsum⟩ := hnext
    have hne (e : EntryId) (he : e ∈ ids) : e ≠ id := fun heq => hn.1 (heq ▸ he)
    obtain ⟨r', d', hok, hcount, hvisits, hsame⟩ := ih (s := s₁) hn.2 (fun e he => by
      rw [hother e (hne e he)]
      exact henc e (List.mem_cons_of_mem _ he)) r₁ d₁
    have hcongr : ids.countP (fun e => ¬(s₁.claimSlot e).Live now) = ids.countP fun e => ¬(s.claimSlot e).Live now := by
      apply List.countP_congr
      intro e he
      rw [hother e (hne e he)]
    rw [hloop]
    refine ⟨r', d', hok, ?_, fun e he => ?_, fun e he => ?_⟩
    · rw [hcount, hcongr, hsum, List.countP_cons]
      by_cases hlive : (s.claimSlot id).Live now
      · simp [hlive]
      · simp [hlive]
        omega
    · rcases List.mem_cons.mp he with rfl | he
      · rw [hsame e hn.1]
        exact hvisit
      · rw [← hother e (hne e he)]
        exact hvisits e he
    · rw [List.mem_cons, not_or] at he
      rw [hsame e he.2, hother e he.1]

end Visit

section Calls

variable {kind : QueueKind} {batch : ℕ} {t : ServerTime} {s s' : Store}

/-- The members that are not visited are those behind the batch. -/
theorem upTo_visited {now : ℚ} (hvisit : ∀ e ∈ dueClaims batch now s, ∀ x, s'.leases.score? e = some x → now < x)
    (hsame : ∀ e ∉ dueClaims batch now s, s'.leases.score? e = s.leases.score? e) :
    s'.leases.upTo now = (s.leases.upTo now).drop batch := by
  have hsplit : (s.leases.upTo now).map Prod.snd =
      dueClaims batch now s ++ ((s.leases.upTo now).drop batch).map Prod.snd := by
    rw [dueClaims, ← List.map_append, List.take_append_drop]
  have hdisjoint := List.nodup_append.mp (hsplit ▸ s.leases.nodup_upTo now)
  have hmem (p : ℚ × EntryId) : p ∈ s'.leases.upTo now ↔ p ∈ (s.leases.upTo now).drop batch := by
    constructor
    · intro hp
      obtain ⟨hscore, hle⟩ := SortedSet.mem_upTo.mp hp
      have hnot : p.2 ∉ dueClaims batch now s := fun hin => absurd hle (not_le.mpr (hvisit p.2 hin p.1 hscore))
      have hin : p ∈ s.leases.upTo now := SortedSet.mem_upTo.mpr ⟨(hsame p.2 hnot).symm.trans hscore, hle⟩
      rw [← List.take_append_drop batch (s.leases.upTo now)] at hin
      rcases List.mem_append.mp hin with hin | hin
      · exact absurd (List.mem_map_of_mem hin) hnot
      · exact hin
    · intro hp
      obtain ⟨hscore, hle⟩ := SortedSet.mem_upTo.mp (List.mem_of_mem_drop hp)
      have hnot : p.2 ∉ dueClaims batch now s := fun hin =>
        hdisjoint.2.2 p.2 hin p.2 (List.mem_map_of_mem hp) rfl
      exact SortedSet.mem_upTo.mpr ⟨(hsame p.2 hnot).trans hscore, hle⟩
  have hsorted : (s.leases.upTo now).Pairwise ScoreLE := s.leases.sorted.sublist List.filter_sublist
  have hsorted' : (s'.leases.upTo now).Pairwise ScoreLE := s'.leases.sorted.sublist List.filter_sublist
  have hnodup : (s'.leases.upTo now).Nodup := List.Nodup.of_map _ (s'.leases.nodup_upTo now)
  have hnodup' : ((s.leases.upTo now).drop batch).Nodup :=
    (List.Nodup.of_map _ (s.leases.nodup_upTo now)).sublist (List.drop_sublist _ _)
  exact ((List.perm_ext_iff_of_nodup hnodup hnodup').mpr hmem).eq_of_pairwise' hsorted'
    (hsorted.sublist (List.drop_sublist _ _))

/-- So many calls of `arecover`, one after the other, with the sums of their counts. -/
def recoverCalls (kind : QueueKind) (batch : ℕ) (t : ServerTime) : ℕ → Store → Except ScriptError (ℕ × ℕ) × Store
  | 0, s => (.ok (0, 0), s)
  | k + 1, s =>
    match recoverCalls kind batch t k s with
    | (.error e, s') => (.error e, s')
    | (.ok (recovered, discarded), s') =>
      match arecover kind batch t s' with
      | (.error e, s'') => (.error e, s'')
      | (.ok (recovered', discarded'), s'') => (.ok (recovered + recovered', discarded + discarded'), s'')

/-- After calls that have visited the ids `done`. -/
structure Drained (kind : QueueKind) (now : ℚ) (s : Store) (done : List EntryId) (rest : List (ℚ × EntryId))
    (r d : ℕ) (s' : Store) : Prop where
  rest : s'.leases.upTo now = rest
  visited : ∀ e ∈ done, (s.claimSlot e).Visited kind now (s'.claimSlot e)
  same : ∀ e ∉ done, s'.claimSlot e = s.claimSlot e
  count : r + d = done.countP fun e => ¬(s.claimSlot e).Live now

theorem drained_calls (kind : QueueKind) (batch : ℕ)
    (henc : ∀ e ∈ (s.leases.upTo t.nowUs).map Prod.snd, (s.claimSlot e).Encodable t.nowUs) (k : ℕ) :
    ∃ r d s', recoverCalls kind batch t k s = (.ok (r, d), s') ∧
      Drained kind t.nowUs s (((s.leases.upTo t.nowUs).take (k * batch)).map Prod.snd)
        ((s.leases.upTo t.nowUs).drop (k * batch)) r d s' := by
  induction k with
  | zero =>
    refine ⟨0, 0, s, rfl, ?_, (fun e he => by simp at he), fun e _ => rfl, by simp⟩
    simp
  | succ k ih =>
    obtain ⟨r, d, s₁, hcalls, hdrained⟩ := ih
    set L := s.leases.upTo t.nowUs with hL
    -- the next call sees the first `batch` of what the calls before it left
    have hdue : dueClaims batch t.nowUs s₁ = ((L.drop (k * batch)).take batch).map Prod.snd := by
      rw [dueClaims, hdrained.rest]
    have htake : L.take ((k + 1) * batch) = L.take (k * batch) ++ (L.drop (k * batch)).take batch := by
      rw [Nat.succ_mul, List.take_add]
    have hnodup : ((L.take (k * batch)).map Prod.snd ++ dueClaims batch t.nowUs s₁).Nodup := by
      rw [hdue, ← List.map_append, ← htake, List.map_take]
      exact (s.leases.nodup_upTo t.nowUs).sublist (List.take_sublist _ _)
    have hnew (e : EntryId) (he : e ∈ dueClaims batch t.nowUs s₁) : s₁.claimSlot e = s.claimSlot e :=
      hdrained.same e fun hin => (List.nodup_append.mp hnodup).2.2 e hin e he rfl
    have hmem (e : EntryId) (he : e ∈ dueClaims batch t.nowUs s₁) : e ∈ L.map Prod.snd := by
      rw [hdue] at he
      obtain ⟨p, hp, rfl⟩ := List.mem_map.mp he
      exact List.mem_map_of_mem (List.mem_of_mem_drop (List.mem_of_mem_take hp))
    obtain ⟨r', d', hok, hcount, hvisits, hsame⟩ := recoverLoop_visits kind (nodup_dueClaims batch t.nowUs s₁)
      (fun e he => by
        rw [hnew e he]
        exact henc e (hmem e he)) 0 0
    rw [← arecover_eq] at hok hvisits hsame
    rcases hone : arecover kind batch t s₁ with ⟨o, s₂⟩
    rw [hone] at hok hvisits hsame
    dsimp only at hok hvisits hsame
    subst hok
    refine ⟨r + r', d + d', s₂, by rw [recoverCalls, hcalls]; simp only [hone], ?_, fun e he => ?_, fun e he => ?_, ?_⟩
    · rw [upTo_visited (fun e he => (hvisits e he).lease) fun e he => congrArg ClaimSlot.lease (hsame e he),
        hdrained.rest, List.drop_drop, Nat.succ_mul]
    · rw [htake, List.map_append, ← hdue] at he
      by_cases hin : e ∈ dueClaims batch t.nowUs s₁
      · rw [← hnew e hin]
        exact hvisits e hin
      · rw [hsame e hin]
        exact hdrained.visited e ((List.mem_append.mp he).resolve_right hin)
    · rw [htake, List.map_append, ← hdue, List.mem_append, not_or] at he
      rw [hsame e he.2, hdrained.same e he.1]
    · have hcongr : (dueClaims batch t.nowUs s₁).countP (fun e => ¬(s₁.claimSlot e).Live t.nowUs) =
          (dueClaims batch t.nowUs s₁).countP fun e => ¬(s.claimSlot e).Live t.nowUs := by
        apply List.countP_congr
        intro e he
        rw [hnew e he]
      have hdone := hdrained.count
      rw [htake, List.map_append, ← hdue, List.countP_append, ← hdone, ← hcongr]
      omega

/-- Batches of any size drain the index: each call visits as many of the due members as its batch
holds, and after as many calls as batches there are none is due. -/
theorem recovery_drains (kind : QueueKind) (t : ServerTime) (s : Store) (batch : ℕ) (hb : 1 ≤ batch)
    (henc : ∀ e ∈ (s.leases.upTo t.nowUs).map Prod.snd, (s.claimSlot e).Encodable t.nowUs) :
    (∀ k, ∃ r d s', recoverCalls kind batch t k s = (.ok (r, d), s') ∧
      (s'.leases.upTo t.nowUs).length = (s.leases.upTo t.nowUs).length - k * batch) ∧
    ∃ r d s', recoverCalls kind batch t (((s.leases.upTo t.nowUs).length + batch - 1) / batch) s = (.ok (r, d), s') ∧
      s'.leases.upTo t.nowUs = [] ∧
      (∀ e ∈ (s.leases.upTo t.nowUs).map Prod.snd, (s.claimSlot e).Visited kind t.nowUs (s'.claimSlot e)) ∧
      (∀ e ∉ (s.leases.upTo t.nowUs).map Prod.snd, s'.claimSlot e = s.claimSlot e) ∧
      r + d = ((s.leases.upTo t.nowUs).map Prod.snd).countP fun e => ¬(s.claimSlot e).Live t.nowUs := by
  constructor
  · intro k
    obtain ⟨r, d, s', hcalls, hdrained⟩ := drained_calls kind batch henc k
    exact ⟨r, d, s', hcalls, by rw [hdrained.rest, List.length_drop]⟩
  · set n := (s.leases.upTo t.nowUs).length with hn
    have hle : n ≤ (n + batch - 1) / batch * batch := by
      have hdiv := Nat.lt_div_mul_add hb (a := n + batch - 1)
      omega
    obtain ⟨r, d, s', hcalls, hdrained⟩ := drained_calls kind batch henc ((n + batch - 1) / batch)
    rw [List.take_of_length_le hle, List.drop_eq_nil_of_le hle] at hdrained
    exact ⟨r, d, s', hcalls, hdrained.rest, hdrained.visited, hdrained.same, hdrained.count⟩

theorem sixty_lt_million : 60 < 1000000 := by norm_num

theorem seventy_lt_million : 70 < 1000000 := by norm_num

theorem second_1700000600 : 1700000600 < 2 ^ 33 := by norm_num

/-- Three claims. The second one is on an entry that has failed meanwhile, and the third one carries a later
deadline than the index does, which keeps more digits. -/
def threeClaims : Store :=
  let t : ServerTime := .ofSeconds 1000 ServerTime.second_1000
  let claim : Call .base := .claim "w" defaultClaimLease false
  execAll .fifo [(.enqueue (.plain (.ofLast 1) .null) none, t), (.enqueue (.plain (.ofLast 2) .null) none, t),
    (.enqueue (.plain (.ofLast 3) .null) none, t), (claim, t), (claim, t),
    (.storeAndDiscard { QueueEntry.plain (.ofLast 2) .null with status := .failed }, t),
    (claim, ⟨⟨1700000000, 60, sixty_lt_million⟩, ServerTime.second_1700000000⟩)] .empty

/-- All three are due, and two calls for two claims each recover the first, drop the second and keep the third. -/
theorem recovery_drains_threeClaims :
    let t : ServerTime := ⟨⟨1700000600, 70, seventy_lt_million⟩, second_1700000600⟩
    ∃ r d s', recoverCalls .fifo 2 t 2 threeClaims = (.ok (r, d), s') ∧ s'.leases.upTo t.nowUs = [] ∧
      (∀ e ∈ [.ofLast 1, .ofLast 2, .ofLast 3], (threeClaims.claimSlot e).Visited .fifo t.nowUs (s'.claimSlot e)) ∧
      (threeClaims.claimSlot (.ofLast 1)).Unfinished ∧ ¬(threeClaims.claimSlot (.ofLast 2)).Unfinished ∧
      (threeClaims.claimSlot (.ofLast 3)).Live t.nowUs ∧ r + d = 2 := by
  intro t
  have hdue : (threeClaims.leases.upTo t.nowUs).map Prod.snd = [.ofLast 1, .ofLast 2, .ofLast 3] := by decide +kernel
  have hlen : (threeClaims.leases.upTo t.nowUs).length = 3 := by rw [← List.length_map Prod.snd, hdue]; rfl
  have hwritten : ∀ e ∈ [EntryId.ofLast 1, .ofLast 2, .ofLast 3],
      (threeClaims.records.get? e).all fun raw => (Cjson.encode (resetEntry (Cjson.table raw))).isSome := by
    decide +kernel
  have henc : ∀ e ∈ (threeClaims.leases.upTo t.nowUs).map Prod.snd, (threeClaims.claimSlot e).Encodable t.nowUs := by
    rw [hdue]
    intro e he _ _ raw hraw
    have hall := hwritten e he
    rwa [show threeClaims.records.get? e = some raw from hraw] at hall
  have hcount : ((threeClaims.leases.upTo t.nowUs).map Prod.snd).countP
      (fun e => ¬(threeClaims.claimSlot e).Live t.nowUs) = 2 := by
    rw [hdue]
    decide +kernel
  obtain ⟨-, r, d, s', hcalls, hempty, hvisited, -, hsum⟩ := recovery_drains .fifo t threeClaims 2 one_le_two henc
  rw [hlen] at hcalls
  rw [hdue] at hvisited
  exact ⟨r, d, s', hcalls, hempty, hvisited, .inl (by decide +kernel),
    not_or.mpr ⟨by decide +kernel, by decide +kernel⟩, by decide +kernel, hsum.trans hcount⟩

end Calls

end DjangoQueues.Redis
