import DjangoQueues.RecodedEntries
import DjangoQueues.Redis.Ownership

/-! What recovery does to the record of an expired claim. The script decodes the whole
record, resets its lifecycle fields and encodes it again, so the entry comes back
unchanged only as far as `cjson` keeps its contents. A record it cannot decode stays as it is and
loses its claim, and one it cannot encode ends the script with the rest of the batch undone. -/

namespace DjangoQueues.Redis

variable {cls : EntryClass} {s : Store} {e : EntryId} {now : ℚ}

/-! ## The loop at one id -/

namespace Library

/-- The id is under a claim that recovery ends: its record waits or runs, and the deadline
in its claim has passed. -/
structure Expired (s : Store) (now : ℚ) (e : EntryId) (raw : Json) : Prop where
  record : s.records.get? e = some raw
  status : statusText (some raw) = some "queued" ∨ statusText (some raw) = some "running"
  deadline : ∀ d, claimDeadline? s e = some d → d ≤ now

theorem Expired.congr {s' : Store} {raw : Json} (h : Expired s now e raw)
    (hr : s'.records.get? e = s.records.get? e) (hc : s'.claims.get? e = s.claims.get? e) :
    Expired s' now e raw where
  record := hr.trans h.record
  status := h.status
  deadline d hd := by
    have hd' : claimDeadline? s e = some d := by
      unfold claimDeadline? at hd ⊢
      rwa [hc] at hd
    exact h.deadline d hd'

/-- The claim of `e` is gone and its record is the re-encoded one. -/
structure Returned (s : Store) (e : EntryId) (raw : Json) : Prop where
  record : s.records.get? e = some raw
  claim : s.claims.get? e = none
  lease : s.leases.score? e = none

theorem recoverOne_expired {redeliver : Lua → EntryId → Store → Store} (hre : Redelivers redeliver)
    {rawEntry : Json} (h : Expired s now e rawEntry) :
    (Cjson.encode (resetEntry (Cjson.table rawEntry)) = none ∧
        recoverOne redeliver now e s = (.error .cannotSerialise, s)) ∨
      ∃ raw, Cjson.encode (resetEntry (Cjson.table rawEntry)) = some raw ∧
        (recoverOne redeliver now e s).1 = .ok .recovered ∧ Returned (recoverOne redeliver now e s).2 e raw := by
  have hcase := recoverOne_case redeliver now e s
  generalize recoverOne redeliver now e s = r at hcase
  cases hcase with
  | kept hd hlt => exact absurd (h.deadline _ hd) (not_le.mpr hlt)
  | discarded _ hs =>
    rw [h.record] at hs
    exact absurd h.status (not_or.mpr hs)
  | error _ hr _ he =>
    rw [h.record] at hr
    cases hr
    exact .inl ⟨he, rfl⟩
  | @recovered rawEntry' raw _ hr _ he =>
    rw [h.record] at hr
    cases hr
    have hreq := requeued hre (resetEntry (Cjson.table rawEntry)) ((s.claims.get? e).bind Cjson.decode) now
      e raw s
    refine .inr ⟨raw, he, rfl, ?_, ?_, ?_⟩
    · rw [hreq.records]
      simp
    · rw [hreq.claims]
      simp
    · rw [hreq.leases]
      simp

/-- An iteration that completes ends a claim that has run out. -/
theorem recoverOne_released {redeliver : Lua → EntryId → Store → Store} (hre : Redelivers redeliver)
    (hd : ∀ d, claimDeadline? s e = some d → d ≤ now) {x : Recovered}
    (hok : (recoverOne redeliver now e s).1 = .ok x) :
    (recoverOne redeliver now e s).2.claims.get? e = none ∧
      (recoverOne redeliver now e s).2.leases.score? e = none := by
  have hcase := recoverOne_case redeliver now e s
  generalize recoverOne redeliver now e s = r at hcase hok
  cases hcase with
  | kept hd' hlt => exact absurd (hd _ hd') (not_le.mpr hlt)
  | discarded => simp [dropClaim]
  | error => cases hok
  | @recovered rawEntry raw =>
    have hreq := requeued hre (resetEntry (Cjson.table rawEntry)) ((s.claims.get? e).bind Cjson.decode) now
      e raw s
    rw [hreq.claims, hreq.leases]
    simp

/-- The record, the claim and the lease of `e` are the same in both stores. -/
structure SameClaim (s s' : Store) (e : EntryId) : Prop where
  record : s'.records.get? e = s.records.get? e
  claim : s'.claims.get? e = s.claims.get? e
  lease : s'.leases.score? e = s.leases.score? e

theorem SameClaim.trans {s₁ s₂ : Store} (h : SameClaim s s₁ e) (h' : SameClaim s₁ s₂ e) : SameClaim s s₂ e :=
  ⟨h'.record.trans h.record, h'.claim.trans h.claim, h'.lease.trans h.lease⟩

theorem recoverOne_same {redeliver : Lua → EntryId → Store → Store} (hre : Redelivers redeliver) {id : EntryId}
    (he : e ≠ id) (s : Store) : SameClaim s (recoverOne redeliver now id s).2 e := by
  obtain ⟨hr, hc, hl⟩ := recoverOne_other hre now he s
  exact ⟨hr, hc, hl⟩

theorem recoverLoop_same {redeliver : Lua → EntryId → Store → Store} (hre : Redelivers redeliver)
    {ids : List EntryId} (he : e ∉ ids) (r d : ℕ) (s : Store) :
    SameClaim s (recoverLoop redeliver now ids r d s).2 e := by
  have hstep : ∀ id rest m, e ∉ id :: rest ∧ SameClaim s m e →
      e ∉ rest ∧ SameClaim s (recoverOne redeliver now id m).2 e := by
    rintro id rest m ⟨hmem, hm⟩
    rw [List.mem_cons, not_or] at hmem
    exact ⟨hmem.2, hm.trans (recoverOne_same hre hmem.1 m)⟩
  obtain ⟨rest, -, h⟩ := recoverLoop_rule (I := fun rest m => e ∉ rest ∧ SameClaim s m e) hstep ids r d s
    ⟨he, rfl, rfl, rfl⟩
  exact h

/-- A script that completes comes once to each id of its batch and leaves its claim alone before and after. -/
theorem recoverLoop_visit {redeliver : Lua → EntryId → Store → Store} (hre : Redelivers redeliver)
    {ids : List EntryId} (hn : ids.Nodup) (hmem : e ∈ ids) {r d : ℕ} {p : ℕ × ℕ}
    (hok : (recoverLoop redeliver now ids r d s).1 = .ok p) :
    ∃ m x, SameClaim s m e ∧ (recoverOne redeliver now e m).1 = .ok x ∧
      SameClaim (recoverOne redeliver now e m).2 (recoverLoop redeliver now ids r d s).2 e := by
  induction ids generalizing r d s with
  | nil => cases hmem
  | cons id ids ih =>
    rw [List.nodup_cons] at hn
    -- the loop goes on with the rest, whatever the outcome at the first id
    have hnext : ∃ x r' d', (recoverOne redeliver now id s).1 = .ok x ∧
        recoverLoop redeliver now (id :: ids) r d s =
          recoverLoop redeliver now ids r' d' (recoverOne redeliver now id s).2 := by
      rw [recoverLoop] at hok ⊢
      generalize recoverOne redeliver now id s = out at hok ⊢
      rcases out with ⟨_ | x, s'⟩
      · cases hok
      · cases x <;> exact ⟨_, _, _, rfl, rfl⟩
    obtain ⟨x, r', d', hx, hloop⟩ := hnext
    rw [hloop] at hok ⊢
    by_cases hid : e = id
    · subst hid
      exact ⟨s, x, ⟨rfl, rfl, rfl⟩, hx, recoverLoop_same hre hn.1 r' d' _⟩
    · obtain ⟨m, y, hbefore, hy, hafter⟩ := ih hn.2 ((List.mem_cons.mp hmem).resolve_left hid) hok
      exact ⟨m, y, (recoverOne_same hre hid s).trans hbefore, hy, hafter⟩

/-- A script that completes has re-encoded the record of every expired claim in its batch. -/
theorem recoverLoop_returned {redeliver : Lua → EntryId → Store → Store} (hre : Redelivers redeliver)
    {ids : List EntryId} (hn : ids.Nodup) (hmem : e ∈ ids) {rawEntry : Json}
    (h : Expired s now e rawEntry) {r d : ℕ} {p : ℕ × ℕ} (hok : (recoverLoop redeliver now ids r d s).1 = .ok p) :
    ∃ raw, Cjson.encode (resetEntry (Cjson.table rawEntry)) = some raw ∧
      Returned (recoverLoop redeliver now ids r d s).2 e raw := by
  obtain ⟨m, x, hbefore, hx, hafter⟩ := recoverLoop_visit hre hn hmem hok
  rcases recoverOne_expired hre (h.congr hbefore.record hbefore.claim) with ⟨-, herr⟩ | ⟨raw, henc, -, hret⟩
  · rw [herr] at hx
    cases hx
  · exact ⟨raw, henc, hafter.record.trans hret.record, hafter.claim.trans hret.claim, hafter.lease.trans hret.lease⟩

/-- It has ended every claim in its batch that has run out. -/
theorem recoverLoop_released {redeliver : Lua → EntryId → Store → Store} (hre : Redelivers redeliver)
    {ids : List EntryId} (hn : ids.Nodup) (hmem : e ∈ ids) (hd : ∀ d, claimDeadline? s e = some d → d ≤ now)
    {r d : ℕ} {p : ℕ × ℕ} (hok : (recoverLoop redeliver now ids r d s).1 = .ok p) :
    (recoverLoop redeliver now ids r d s).2.claims.get? e = none ∧
      (recoverLoop redeliver now ids r d s).2.leases.score? e = none := by
  obtain ⟨m, x, hbefore, hx, hafter⟩ := recoverLoop_visit hre hn hmem hok
  have hd' : ∀ d, claimDeadline? m e = some d → d ≤ now := by
    rw [claimDeadline?, hbefore.claim]
    exact hd
  obtain ⟨hclaim, hlease⟩ := recoverOne_released hre hd' hx
  exact ⟨hafter.claim.trans hclaim, hafter.lease.trans hlease⟩

/-- A script completes if it can encode the record of every expired claim it meets. -/
theorem recoverLoop_ok {redeliver : Lua → EntryId → Store → Store} (hre : Redelivers redeliver)
    {ids : List EntryId} (hn : ids.Nodup)
    (h : ∀ e ∈ ids, ∀ raw, Expired s now e raw → (Cjson.encode (resetEntry (Cjson.table raw))).isSome)
    (r d : ℕ) : ∃ p, (recoverLoop redeliver now ids r d s).1 = .ok p := by
  induction ids generalizing r d s with
  | nil => exact ⟨_, rfl⟩
  | cons id ids ih =>
    rw [List.nodup_cons] at hn
    have hrest : ∀ e ∈ ids, ∀ raw, Expired (recoverOne redeliver now id s).2 now e raw →
        (Cjson.encode (resetEntry (Cjson.table raw))).isSome := fun e he raw hexp => by
      have hne : e ≠ id := fun heq => hn.1 (heq ▸ he)
      obtain ⟨k₁, k₂, -⟩ := recoverOne_other hre now hne s
      exact h e (List.mem_cons_of_mem _ he) raw (hexp.congr k₁.symm k₂.symm)
    have hone : ∃ r', (recoverOne redeliver now id s).1 = .ok r' := by
      have hcase := recoverOne_case redeliver now id s
      generalize recoverOne redeliver now id s = res at hcase
      cases hcase with
      | kept hd hlt => exact ⟨_, rfl⟩
      | discarded hd hs => exact ⟨_, rfl⟩
      | error hd hr hs he =>
        have hsome := h id (List.mem_cons_self ..) _ ⟨hr, hs, hd⟩
        simp [he] at hsome
      | recovered hd hr hs he => exact ⟨_, rfl⟩
    obtain ⟨r', hr'⟩ := hone
    rcases hres : recoverOne redeliver now id s with ⟨x, s'⟩
    rw [hres] at hr' hrest
    cases hr'
    rw [recoverLoop, hres]
    cases r' with
    | recovered => exact ih hn.2 hrest (r + 1) d
    | discarded => exact ih hn.2 hrest r (d + 1)
    | kept => exact ih hn.2 hrest r d

end Library

/-! ## The record -/

/-- Recovery writes what `cjson` makes of the entry queued again. -/
theorem resetEntry_table_toDict (c : QueueEntry cls) :
    Library.resetEntry (Cjson.table c.toDict) = Cjson.table c.requeue.toDict := rfl

variable {kind : QueueKind} {batch : ℕ} {t : ServerTime}

/-- The record stored for a claim of `e` that has run out: `e` as it was enqueued, or marked running. -/
structure ExpiredClaim (s : Store) (t : ServerTime) (e : QueueEntry cls) (c : QueueEntry cls) : Prop where
  requeue : c.requeue = e
  status : c.status = .queued ∨ c.status = .running
  record : s.records.get? e.id = some c.toDict
  deadline : ∀ d, Library.claimDeadline? s e.id = some d → d ≤ t.nowUs

namespace ExpiredClaim

variable {e c : QueueEntry cls}

theorem decodable (h : ExpiredClaim s t e c) (hread : ¬s.Refused e.id) : c.Decodable :=
  not_not.mp fun hc => hread ⟨c.toDict, h.record, hc⟩

theorem expired (h : ExpiredClaim s t e c) (hread : ¬s.Refused e.id) :
    Library.Expired s t.nowUs e.id c.toDict where
  record := h.record
  status := by
    rw [statusText_toDict (h.decodable hread)]
    rcases h.status with hs | hs <;> rw [hs]
    · exact .inl rfl
    · exact .inr rfl
  deadline := h.deadline

theorem encode_eq (h : ExpiredClaim s t e c) :
    Cjson.encode (Library.resetEntry (Cjson.table c.toDict)) = Cjson.recode e.toDict := by
  rw [resetEntry_table_toDict, h.requeue]
  rfl

theorem requeue_self (h : ExpiredClaim s t e c) : e.requeue = e := by
  rw [← h.requeue]
  rfl

/-- A completed recovery has stored what `cjson` makes of an entry that it can read. -/
theorem returned (h : ExpiredClaim s t e c) (hread : ¬s.Refused e.id)
    (hdue : e.id ∈ Library.dueClaims batch t.nowUs s) {p : ℕ × ℕ} (hok : (arecover kind batch t s).1 = .ok p) :
    ∃ raw, Cjson.recode e.toDict = some raw ∧ Library.Returned (arecover kind batch t s).2 e.id raw := by
  rw [← h.encode_eq]
  have hn := nodup_dueClaims batch t.nowUs s
  cases kind with
  | priority =>
    exact Library.recoverLoop_returned (Library.redeliverPriority_redelivers _) hn hdue (h.expired hread) hok
  | _ => exact Library.recoverLoop_returned Library.redeliverPending_redelivers hn hdue (h.expired hread) hok

theorem released (h : ExpiredClaim s t e c) (hdue : e.id ∈ Library.dueClaims batch t.nowUs s) {p : ℕ × ℕ}
    (hok : (arecover kind batch t s).1 = .ok p) :
    (arecover kind batch t s).2.claims.get? e.id = none ∧ (arecover kind batch t s).2.leases.score? e.id = none := by
  have hn := nodup_dueClaims batch t.nowUs s
  cases kind with
  | priority => exact Library.recoverLoop_released (Library.redeliverPriority_redelivers _) hn hdue h.deadline hok
  | _ => exact Library.recoverLoop_released Library.redeliverPending_redelivers hn hdue h.deadline hok

end ExpiredClaim

/-- A queue with one entry, claimed at second 1000 for the default lease. -/
def claimedOnce (e : QueueEntry .base) : Store :=
  execAll .fifo [(.enqueue e none, .ofSeconds 1000 ServerTime.second_1000),
    (.claim "w" defaultClaimLease false, .ofSeconds 1000 ServerTime.second_1000)] .empty

theorem claimedOnce_record {e : QueueEntry .base} (hs : e.status = .queued) :
    (claimedOnce e).records.get? e.id = some e.toDict := by
  have hput : (exec .fifo (.enqueue e none) (.ofSeconds 1000 ServerTime.second_1000) .empty).2.records.get? e.id =
      some e.toDict := by
    have hne : e.status ≠ .terminated := by rw [hs]; decide
    simp only [exec, astoreAndPush, hne, if_false, Library.storeAndPush, Dict.get?_set, if_true]
  exact hput ▸ congrArg (fun r => r.get? e.id) (aclaim_frame .fifo "w" defaultClaimLease _ _).1

theorem claimedOnce_expired {e : QueueEntry .base} (hnew : e.requeue = e) (hs : e.status = .queued)
    (hd : Library.claimDeadline? (claimedOnce e) e.id = some 1600000000) :
    ExpiredClaim (claimedOnce e) (.ofSeconds 2000 ServerTime.second_2000) e e where
  requeue := hnew
  status := .inl hs
  record := claimedOnce_record hs
  deadline d hd' := by
    have hnow : (ServerTime.ofSeconds 2000 ServerTime.second_2000).nowUs = 2000000000 := by decide +kernel
    rw [hd, Option.some.injEq] at hd'
    rw [← hd', hnow]
    norm_num

/-- The record a completed recovery leaves of an entry that it can read reads back as the enqueued entry exactly
if `cjson` keeps all of it. -/
theorem recovered_entry_same_iff (limits : RecursionLimits) {e c : QueueEntry cls} (h : ExpiredClaim s t e c)
    (hw : e.Writable limits) (hread : ¬s.Refused e.id) (hdue : e.id ∈ Library.dueClaims batch t.nowUs s)
    {p : ℕ × ℕ} (hok : (arecover kind batch t s).1 = .ok p) :
    (∃ raw e', (arecover kind batch t s).2.records.get? e.id = some raw ∧
      QueueEntry.fromDict limits cls raw = .ok e' ∧ e.SameEntry e') ↔ e.Kept := by
  obtain ⟨raw, henc, hret⟩ := h.returned hread hdue hok
  have hiff : (∃ e', QueueEntry.fromDict limits cls raw = .ok e' ∧ e.SameEntry e') ↔ _ :=
    QueueEntry.readsBack_iff h.requeue_self henc
  constructor
  · rintro ⟨raw', e', hr, hd, hs⟩
    rw [hret.record, Option.some.injEq] at hr
    exact (hiff.mp ⟨e', hr ▸ hd, hs⟩).1
  · intro hk
    obtain ⟨e', hd, hs⟩ := hiff.mpr ⟨hk, hw⟩
    exact ⟨raw, e', hret.record, hd, hs⟩

/-- A null payload is written whatever the limits are. -/
theorem writable_plain_null (limits : RecursionLimits) (id : EntryId) :
    (.plain id .null : QueueEntry .base).Writable limits := by
  intro v hv
  change v ∈ [.null, .null, .null] at hv
  have hnull : v = .null := by simpa using hv
  rw [hnull]
  exact Nat.zero_le _

theorem recovered_entry_same_null :
    let t : ServerTime := .ofSeconds 2000 ServerTime.second_2000
    let e : QueueEntry .base := .plain (.ofLast 1) .null
    ∃ raw e', (arecover .fifo 10 t (claimedOnce e)).2.records.get? e.id = some raw ∧
      QueueEntry.fromDict thousandLevels .base raw = .ok e' ∧ e.SameEntry e' := by
  intro t e
  have hclaim : ExpiredClaim (claimedOnce e) t e e := claimedOnce_expired rfl rfl (by decide +kernel)
  have hread : ¬(claimedOnce e).Refused e.id := by decide +kernel
  have hdue : e.id ∈ Library.dueClaims 10 t.nowUs (claimedOnce e) := by decide +kernel
  have hok : (arecover .fifo 10 t (claimedOnce e)).1 = .ok (1, 0) := by decide +kernel
  refine (recovered_entry_same_iff thousandLevels hclaim (writable_plain_null _ _) hread hdue hok).mpr
    ⟨⟨trivial, trivial⟩, ?_, ?_, ?_, ?_⟩
  · intro v hv
    cases hv
  · intro x hx
    cases hx
  · decide
  · exact ⟨by decide +kernel, by decide +kernel⟩

/-- An empty array comes back as an empty object. -/
theorem recovered_entry_differs_empty_array :
    let t : ServerTime := .ofSeconds 2000 ServerTime.second_2000
    let e : QueueEntry .base := .plain (.ofLast 1) (.arr [])
    (arecover .fifo 10 t (claimedOnce e)).1 = .ok (1, 0) ∧
      ¬∃ raw e', (arecover .fifo 10 t (claimedOnce e)).2.records.get? e.id = some raw ∧
        QueueEntry.fromDict thousandLevels .base raw = .ok e' ∧ e.SameEntry e' := by
  intro t e
  have hclaim : ExpiredClaim (claimedOnce e) t e e := claimedOnce_expired rfl rfl (by decide +kernel)
  have hread : ¬(claimedOnce e).Refused e.id := by decide +kernel
  have hdue : e.id ∈ Library.dueClaims 10 t.nowUs (claimedOnce e) := by decide +kernel
  have hok : (arecover .fifo 10 t (claimedOnce e)).1 = .ok (1, 0) := by decide +kernel
  refine ⟨hok, ?_⟩
  rintro ⟨raw, e', hr, hd, hs⟩
  obtain ⟨raw', henc, hret⟩ := hclaim.returned hread hdue hok
  rw [hret.record, Option.some.injEq] at hr
  subst hr
  have hkept := ((QueueEntry.readsBack_iff hclaim.requeue_self henc).mp ⟨e', hd, hs⟩).1
  exact hkept.payload.1

/-- Recovery completes and ends every claim of its batch exactly if every entry in it that it can
read can be encoded again. -/
theorem recover_completes_iff (entry : EntryId → QueueEntry cls)
    (h : ∀ id ∈ Library.dueClaims batch t.nowUs s, (entry id).id = id ∧ ∃ c, ExpiredClaim s t (entry id) c) :
    ((∃ p, (arecover kind batch t s).1 = .ok p) ∧ ∀ id ∈ Library.dueClaims batch t.nowUs s,
        (arecover kind batch t s).2.claims.get? id = none ∧
          (arecover kind batch t s).2.leases.score? id = none) ↔
      ∀ id ∈ Library.dueClaims batch t.nowUs s, ¬s.Refused id → (entry id).Encodable := by
  constructor
  · rintro ⟨⟨p, hok⟩, -⟩ id hid hread
    obtain ⟨hentry, c, hc⟩ := h id hid
    rw [← hentry] at hid hread
    obtain ⟨raw, henc, -⟩ := hc.returned hread hid hok
    exact (QueueEntry.recode_toDict_isSome_iff hc.requeue_self).mp (Option.isSome_of_mem henc)
  · intro henc
    have hall : ∀ e ∈ Library.dueClaims batch t.nowUs s, ∀ raw, Library.Expired s t.nowUs e raw →
        (Cjson.encode (Library.resetEntry (Cjson.table raw))).isSome := fun id hid raw hexp => by
      obtain ⟨hentry, c, hc⟩ := h id hid
      have hraw : raw = c.toDict := by
        have hrec := hc.record
        rw [hentry, hexp.record] at hrec
        exact Option.some.inj hrec
      -- a record with a status is one that can be read
      have haccepts : Cjson.Accepts raw := hexp.status.elim Library.accepts_of_statusText Library.accepts_of_statusText
      have hread : ¬s.Refused id := by
        rintro ⟨raw', hr', hno⟩
        rw [hexp.record, Option.some.injEq] at hr'
        exact hno (hr' ▸ haccepts)
      rw [hraw, hc.encode_eq]
      exact (QueueEntry.recode_toDict_isSome_iff hc.requeue_self).mpr (henc id hid hread)
    have hn := nodup_dueClaims batch t.nowUs s
    have hok : ∃ p, (arecover kind batch t s).1 = .ok p := by
      cases kind with
      | priority => exact Library.recoverLoop_ok (Library.redeliverPriority_redelivers _) hn hall 0 0
      | _ => exact Library.recoverLoop_ok Library.redeliverPending_redelivers hn hall 0 0
    refine ⟨hok, fun id hid => ?_⟩
    obtain ⟨p, hp⟩ := hok
    obtain ⟨hentry, c, hc⟩ := h id hid
    rw [← hentry] at hid ⊢
    exact hc.released hid hp

theorem recover_completes_null :
    let t : ServerTime := .ofSeconds 2000 ServerTime.second_2000
    let s := claimedOnce (.plain (.ofLast 1) .null)
    ∃ p, (arecover .fifo 10 t s).1 = .ok p := by
  intro t s
  have hdue : Library.dueClaims 10 t.nowUs s = [.ofLast 1] := by decide +kernel
  have hexp := claimedOnce_expired (e := .plain (.ofLast 1) .null) rfl rfl (by decide +kernel)
  refine ((recover_completes_iff (fun id => QueueEntry.plain id .null) ?_).mpr ?_).1
  · intro id hid
    rw [hdue, List.mem_singleton] at hid
    subst hid
    exact ⟨rfl, _, hexp⟩
  · intro id hid _
    rw [hdue, List.mem_singleton] at hid
    subst hid
    refine ⟨trivial, ?_, ?_, ?_⟩
    · intro v hv
      cases hv
    · decide +kernel
    · decide +kernel

/-- Two claims that have both run out; the payload of the first entry is a NaN. -/
def poisonedBatch : Store :=
  execAll .fifo [(.enqueue (.plain (.ofLast 1) (.num (.float .nan))) none, .ofSeconds 1000 ServerTime.second_1000),
    (.enqueue (.plain (.ofLast 2) .null) none, .ofSeconds 1000 ServerTime.second_1000),
    (.claim "w" defaultClaimLease false, .ofSeconds 1000 ServerTime.second_1000),
    (.claim "w" defaultClaimLease false, .ofSeconds 1000 ServerTime.second_1000)] .empty

/-- Recovery stops at the NaN, again when it is called later, and the other claim stays. -/
theorem recover_stops_at_nan :
    let t : ServerTime := .ofSeconds 2000 ServerTime.second_2000
    let t' : ServerTime := .ofSeconds 3000 ServerTime.second_3000
    let r := arecover .fifo 10 t poisonedBatch
    Library.dueClaims 10 t.nowUs poisonedBatch = [.ofLast 1, .ofLast 2] ∧
      r.1 = .error .cannotSerialise ∧ (r.2.claims.get? (.ofLast 2)).isSome ∧
      (arecover .fifo 10 t' r.2).1 = .error .cannotSerialise := by
  decide +kernel

end DjangoQueues.Redis
