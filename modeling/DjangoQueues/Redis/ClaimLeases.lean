import DjangoQueues.ClaimLeases
import DjangoQueues.Lib.Simulation
import DjangoQueues.Redis.Workers

/-! The Redis queue implements the claim-lease protocol. A call that succeeds is the action
of the protocol it is named after, an entry that is recovered, or released by its owner,
expires and is recovered at once, and every other call is a stutter. What the protocol calls
pending is to be in a waiting place. -/

namespace DjangoQueues.Redis

open ClaimLeases (Outcome Status Next)

variable {cls : EntryClass} {kind : QueueKind} {s s' : Store} {id e : EntryId} {w : WorkerId} {t : ServerTime}
  {used : List EntryId}

/-- The states of the protocol over the entries and workers of a queue. -/
abbrev LeaseState := ClaimLeases.State EntryId WorkerId

abbrev LeaseAction := ClaimLeases.Action EntryId WorkerId

/-- The status a protocol outcome is stored with. -/
def outcomeStatus : Outcome → QueueEntryStatus
  | .succeeded => .succeeded
  | .failed => .failed
  | .cancelled => .cancelled
  | .timeout => .timeout

/-- The stored status text of a protocol status. -/
def statusValue? : Status → Option String
  | .absent => none
  | .queued => some "queued"
  | .running => some "running"
  | .terminal outcome => some (outcomeStatus outcome).value

theorem exists_outcome {st : QueueEntryStatus} (h : st.Terminal) : ∃ outcome, outcomeStatus outcome = st := by
  cases st with
  | succeeded => exact ⟨.succeeded, rfl⟩
  | failed => exact ⟨.failed, rfl⟩
  | cancelled => exact ⟨.cancelled, rfl⟩
  | timeout => exact ⟨.timeout, rfl⟩
  | _ => exact absurd h (by decide)

theorem statusValue?_injective : Function.Injective statusValue? := by
  have hterminal : ∀ outcome : Outcome, (outcomeStatus outcome).value ≠ "queued" ∧
      (outcomeStatus outcome).value ≠ "running" := by
    intro outcome
    cases outcome <;> decide
  intro a b h
  cases a with
  | absent => cases b <;> first | rfl | cases h
  | queued =>
    cases b with
    | queued => rfl
    | terminal outcome => exact absurd (Option.some.inj h).symm (hterminal outcome).1
    | _ => simp [statusValue?] at h
  | running =>
    cases b with
    | running => rfl
    | terminal outcome => exact absurd (Option.some.inj h).symm (hterminal outcome).2
    | _ => simp [statusValue?] at h
  | terminal outcome =>
    cases b with
    | absent => cases h
    | queued => exact absurd (Option.some.inj h) (hterminal outcome).1
    | running => exact absurd (Option.some.inj h) (hterminal outcome).2
    | terminal outcome' =>
      revert h
      cases outcome <;> cases outcome' <;> simp [statusValue?, outcomeStatus, QueueEntryStatus.value]

theorem prunable_statusValue? {st : Status} (h : Library.prunable (statusValue? st)) :
    ∃ outcome, st = .terminal outcome := by
  cases st with
  | terminal outcome => exact ⟨outcome, rfl⟩
  | _ => simp [statusValue?, Library.prunable] at h

/-- The stored status of an entry is its status in the protocol, unless its record was pruned. -/
def StatusAgrees (record : Option Json) (st : Status) : Prop :=
  recordStatus record = statusValue? st ∨ record = none ∧ ∃ outcome, st = .terminal outcome

theorem StatusAgrees.eq_of_text {record : Option Json} {st st' : Status} (h : StatusAgrees record st)
    (hst' : recordStatus record = statusValue? st') (hpresent : st' ≠ .absent) : st = st' := by
  rcases h with h | ⟨rfl, -⟩
  · exact statusValue?_injective (h.symm.trans hst')
  · exact absurd (statusValue?_injective (hst'.symm.trans rfl)) hpresent

theorem statusAgrees_update {records : Dict EntryId Json} {lifecycle : EntryId → Status} {raw : Json} {st : Status}
    (h : ∀ e, StatusAgrees (records.get? e) (lifecycle e)) (hst : recordStatus (some raw) = statusValue? st)
    (id e : EntryId) : StatusAgrees ((records.set id raw).get? e) (Function.update lifecycle id st e) := by
  rw [Dict.get?_set]
  by_cases he : e = id
  · left
    rw [if_pos he, he, Function.update_self, hst]
  · rw [if_neg he, Function.update_of_ne he]
    exact h e

theorem owner?_congr (h : s'.claims.get? e = s.claims.get? e) : s'.owner? e = s.owner? e := by
  rw [Store.owner?, Store.owner?, h]

theorem owner_update {owner : EntryId → Option WorkerId} {o : Option WorkerId} (h : ∀ e, owner e = s.owner? e)
    (hid : s'.owner? id = o) (hother : ∀ e, e ≠ id → s'.claims.get? e = s.claims.get? e) (e : EntryId) :
    Function.update owner id o e = s'.owner? e := by
  by_cases he : e = id
  · rw [he, hid, Function.update_self]
  · rw [Function.update_of_ne he, h, owner?_congr (hother e he)]

/-- Every claim record names its worker. -/
def ClaimsOwned (s : Store) : Prop := ∀ e, (s.claims.get? e).isSome → (s.owner? e).isSome

theorem ClaimsOwned.of_other (h : ClaimsOwned s) (hid : (s'.claims.get? id).isSome → (s'.owner? id).isSome)
    (hother : ∀ e, e ≠ id → s'.claims.get? e = s.claims.get? e) : ClaimsOwned s' := by
  intro e he
  by_cases hx : e = id
  · subst hx
    exact hid he
  · rw [owner?_congr (hother e hx)]
    exact h e (by rwa [hother e hx] at he)

/-- The store in the terms of the protocol. Between two calls nothing is expired, and no
worker counts as crashed. -/
structure Represents (s : Store) (used : List EntryId) (a : LeaseState) : Prop where
  location : LocationInv False s
  located : ClaimLeases.Located a
  owned : ClaimsOwned s
  owner : ∀ e, a.owner e = s.owner? e
  expired : a.expired = ∅
  crashed : a.crashed = ∅
  lifecycle : ∀ e, StatusAgrees (s.records.get? e) (a.lifecycle e)
  used : ∀ e, a.lifecycle e ≠ .absent → e ∈ used

namespace Represents

variable {a : LeaseState}

theorem congr (h : Represents s used a) (hl : LocationInv False s') (hr : s'.records = s.records)
    (hc : s'.claims = s.claims) : Represents s' used a where
  location := hl
  located := h.located
  owned e he := by
    rw [owner?_congr (congrArg (fun c => c.get? e) hc)]
    exact h.owned e (by rwa [hc] at he)
  owner e := (h.owner e).trans (owner?_congr (congrArg (fun c => c.get? e) hc)).symm
  expired := h.expired
  crashed := h.crashed
  lifecycle e := by
    rw [hr]
    exact h.lifecycle e
  used := h.used

theorem grow (h : Represents s used a) (more : List EntryId) : Represents s (used ++ more) a :=
  { h with used := fun e he => List.mem_append_left _ (h.used e he) }

/-- Waiting somewhere and being pending are the same. -/
theorem pending_iff (h : Represents s used a) (e : EntryId) : e ∈ a.pending ↔ s.places e = 1 := by
  rw [h.located.pendingIsUnclaimedQueued e, h.owner]
  constructor
  · rintro ⟨hl, ho⟩
    have hnone : s.claims.get? e = none := by
      cases hc : s.claims.get? e with
      | none => rfl
      | some raw =>
        have := h.owned e (by rw [hc]; rfl)
        simp [ho] at this
    rcases h.lifecycle e with hst | ⟨-, outcome, hst⟩
    · rw [hl] at hst
      cases h.location e with
      | absent hr => simp [hr, recordStatus, statusValue?] at hst
      | waiting _ _ _ hp => exact hp
      | held _ hc => simp [hnone] at hc
      | finished hs => simp [hst, statusValue?, Library.prunable] at hs
      | lost h₀ => exact h₀.elim
    · cases hl.symm.trans hst
  · intro hp
    obtain ⟨hs, hc, -, -⟩ := (h.location e).waiting_of_places (by omega)
    exact ⟨(h.lifecycle e).eq_of_text hs (by simp), by simp [Store.owner?, hc]⟩

theorem alive (h : Represents s used a) (w : WorkerId) : w ∉ a.crashed := by
  rw [h.crashed]
  exact Set.notMem_empty w

/-- An entry that is not absent stays among the known ones. -/
theorem used_update (h : Represents s used a) {st : Status} (hid : id ∈ used) (e : EntryId)
    (he : Function.update a.lifecycle id st e ≠ .absent) : e ∈ used := by
  by_cases hx : e = id
  · rwa [hx]
  · rw [Function.update_of_ne hx] at he
    exact h.used e he

theorem mem_used (h : Represents s used a) (st : Status) (hst : recordStatus (s.records.get? id) = statusValue? st)
    (hpresent : st ≠ .absent) : id ∈ used := by
  apply h.used
  rwa [(h.lifecycle id).eq_of_text hst hpresent]

theorem enqueued (h : Represents s used a) (hl : LocationInv False s') {x : QueueEntry cls} (hq : x.status = .queued)
    (hs : Enqueued s x.id x.toDict s') (hfresh : x.id ∉ used) :
    ∃ b, Next a (.enqueue x.id) b ∧ Represents s' (used ++ [x.id]) b := by
  have habsent : a.lifecycle x.id = .absent := by
    by_contra hne
    exact hfresh (h.used x.id hne)
  have hstep := Next.enqueue habsent
  have hclaims : ∀ e, s'.claims.get? e = s.claims.get? e := fun e => by rw [hs.claims]
  refine ⟨_, hstep, ?_⟩
  exact
    { location := hl
      located := h.located.step hstep
      owned := fun e he => by
        rw [owner?_congr (hclaims e)]
        exact h.owned e (by rwa [hclaims] at he)
      owner := fun e => (h.owner e).trans (owner?_congr (hclaims e)).symm
      expired := h.expired
      crashed := h.crashed
      lifecycle := fun e => by
        rw [hs.records]
        exact statusAgrees_update h.lifecycle (by rw [recordStatus_toDict, hq]; rfl) x.id e
      used := fun e he => by
        by_cases hx : e = x.id
        · simp [hx]
        · exact List.mem_append_left _ (h.used e (by simpa [Function.update_of_ne hx] using he)) }

theorem claimed (h : Represents s used a) (hl : LocationInv False s') {raw : Json}
    (hq : recordStatus (s.records.get? id) = some "queued") (hc : s.claims.get? id = none)
    (hw : Library.NamesOwner raw w) (hrec : s'.records = s.records)
    (hcl : s'.claims = s.claims.set id raw) : ∃ b, Next a (.claim id w) b ∧ Represents s' used b := by
  have hqueued : a.lifecycle id = .queued := (h.lifecycle id).eq_of_text hq (by simp)
  have hfree : a.owner id = none := by rw [h.owner, WorldInv.owner?_eq_none hc]
  have hstep := Next.claim ((h.located.pendingIsUnclaimedQueued id).mpr ⟨hqueued, hfree⟩) hqueued hfree (h.alive w)
  have howner : s'.owner? id = some w := (Library.owner?_of_get? (by simp [hcl])).mpr hw
  have hother : ∀ e, e ≠ id → s'.claims.get? e = s.claims.get? e := fun e he => by
    rw [hcl, Dict.get?_set, if_neg he]
  refine ⟨_, hstep, ?_⟩
  exact
    { location := hl
      located := h.located.step hstep
      owned := h.owned.of_other (fun _ => by rw [howner]; rfl) hother
      owner := owner_update h.owner howner hother
      expired := h.expired
      crashed := h.crashed
      lifecycle := fun e => by
        rw [hrec]
        exact h.lifecycle e
      used := h.used }

theorem renewed (h : Represents s used a) (w : WorkerId) (lease : ℕ) (id : EntryId) (t : ServerTime) :
    Represents (Library.renew w lease id t s).2 used a := by
  have hl := h.location.renew w lease id t
  rcases Library.renew_cases w lease id t s with ⟨r, hr, -⟩ | ⟨c, cur, raw, hc, -, -, he, hr⟩
  · rw [hr] at hl ⊢
    exact h
  · rw [hr] at hl ⊢
    obtain ⟨-, -, -, how⟩ := Store.ownClaim?_eq_some.mp hc
    have howner : ∀ x, Store.owner? { s with
        claims := s.claims.set id raw, leases := s.leases.add id (fl (t.nowUs + fl lease)) } x = s.owner? x := by
      intro x
      by_cases hx : x = id
      · rw [hx, how]
        exact (Library.owner?_of_get? (by simp)).mpr (Library.namesOwner_of_ownClaim hc he)
      · exact owner?_congr (by rw [Dict.get?_set, if_neg hx])
    exact
      { location := hl
        located := h.located
        owned := h.owned.of_other (fun _ => by rw [howner, how]; rfl) fun e he => by rw [Dict.get?_set, if_neg he]
        owner := fun e => (h.owner e).trans (howner e).symm
        expired := h.expired
        crashed := h.crashed
        lifecycle := h.lifecycle
        used := h.used }

theorem markedRunning (h : Represents s used a) {x : QueueEntry cls} (hx : x.status = .running)
    (ho : s.owner? x.id = some w) (hq : recordStatus (s.records.get? x.id) = some "queued")
    (hl : LocationInv False { s with records := s.records.set x.id x.toDict }) : ∃ b, Next a (.markRunning x.id w) b ∧
      Represents { s with records := s.records.set x.id x.toDict } used b := by
  have hstep := Next.markRunning ((h.lifecycle x.id).eq_of_text hq (by simp)) ((h.owner x.id).trans ho) (h.alive w)
  refine ⟨_, hstep, ?_⟩
  exact
    { location := hl
      located := h.located.step hstep
      owned := h.owned
      owner := h.owner
      expired := h.expired
      crashed := h.crashed
      lifecycle := statusAgrees_update h.lifecycle (by rw [recordStatus_toDict, hx]; rfl) x.id
      used := h.used_update (h.mem_used .queued hq (by simp)) }

/-- Dropping a claim ends the ownership of one entry. -/
theorem dropClaim_claims (id : EntryId) (s : Store) :
    (Library.dropClaim id s).owner? id = none ∧
      ∀ e, e ≠ id → (Library.dropClaim id s).claims.get? e = s.claims.get? e := by
  simp +contextual [Library.dropClaim, Store.owner?]

theorem settled (h : Represents s used a) {x : QueueEntry cls} {outcome : Outcome}
    (hx : outcomeStatus outcome = x.status) (ho : s.owner? x.id = some w)
    (hr : recordStatus (s.records.get? x.id) = some "running")
    (hl : LocationInv False (Library.dropClaim x.id { s with records := s.records.set x.id x.toDict })) :
    ∃ b, Next a (.settle x.id w outcome) b ∧
      Represents (Library.dropClaim x.id { s with records := s.records.set x.id x.toDict }) used b := by
  have hstep : Next a (.settle x.id w outcome) _ :=
    .settle ((h.lifecycle x.id).eq_of_text hr (by simp)) ((h.owner x.id).trans ho) (h.alive w)
  obtain ⟨hnone, hother⟩ := dropClaim_claims x.id { s with records := s.records.set x.id x.toDict }
  refine ⟨_, hstep, ?_⟩
  exact
    { location := hl
      located := h.located.step hstep
      owned := h.owned.of_other (fun he => by simp [Library.dropClaim] at he) hother
      owner := owner_update h.owner hnone hother
      expired := by rw [h.expired, Set.empty_sdiff]
      crashed := h.crashed
      lifecycle := statusAgrees_update h.lifecycle (by rw [recordStatus_toDict, ← hx]; rfl) x.id
      used := h.used_update (h.mem_used .running hr (by simp)) }

/-- A claim whose entry is put back expires and is recovered. -/
theorem requeued (h : Represents s used a) (hl : LocationInv False s') (hclaimed : (s.claims.get? id).isSome)
    (hstatus : recordStatus (s.records.get? id) = some "queued" ∨ recordStatus (s.records.get? id) = some "running")
    (hq : recordStatus (s'.records.get? id) = some "queued")
    (hrecords : ∀ e, e ≠ id → s'.records.get? e = s.records.get? e) (hclaims : s'.claims = s.claims.erase id) :
    ∃ b, Run Next a [.expire id, .recoverExpired id] b ∧ Represents s' used b := by
  have howned : a.owner id ≠ none := by
    rw [h.owner]
    exact Option.isSome_iff_ne_none.mp (h.owned id hclaimed)
  have hlifecycle : a.lifecycle id = .queued ∨ a.lifecycle id = .running :=
    hstatus.imp (fun hst => (h.lifecycle id).eq_of_text hst (by simp))
      fun hst => (h.lifecycle id).eq_of_text hst (by simp)
  have hexpire : Next a (.expire id) _ := .expire howned (by rw [h.expired]; exact Set.notMem_empty id)
  have hrecover : Next { a with expired := insert id a.expired } (.recoverExpired id) _ :=
    .recoverExpired (Set.mem_insert id a.expired) howned hlifecycle
  have hnone : s'.owner? id = none := by simp [Store.owner?, hclaims]
  have hother : ∀ e, e ≠ id → s'.claims.get? e = s.claims.get? e := fun e he => by simp [hclaims, he]
  refine ⟨_, .cons hexpire (.cons hrecover (.nil _)), ?_⟩
  exact
    { location := hl
      located := (h.located.step hexpire).step hrecover
      owned := h.owned.of_other (fun he => by simp [hclaims] at he) hother
      owner := owner_update h.owner hnone hother
      expired := by
        rw [h.expired]
        simp
      crashed := h.crashed
      lifecycle := fun e => by
        by_cases he : e = id
        · left
          simp [he, hq, statusValue?]
        · rw [hrecords e he]
          simpa [Function.update_of_ne he] using h.lifecycle e
      used := by
        apply h.used_update
        rcases hstatus with hst | hst
        · exact h.mem_used .queued hst (by simp)
        · exact h.mem_used .running hst (by simp) }

/-- The owner gives an entry back that it has not marked running. -/
theorem released (h : Represents s used a) (kind : QueueKind) (ho : s.owner? id = some w)
    (hq : recordStatus (s.records.get? id) = some "queued") (delay : ℕ) (t : ServerTime) :
    ∃ b, Run Next a [.expire id, .recoverExpired id] b ∧ Represents (arelease kind w id delay t s).2 used b := by
  have hr := arelease_released kind ho delay t
  obtain ⟨-, hc, -⟩ := (h.location id).held_of_owner ho
  exact h.requeued (h.location.release kind ho hq delay t) hc (.inl hq) (by rwa [hr.records])
    (fun e _ => by rw [hr.records]) hr.claims

/-- Recovery of some entries, in the terms of the protocol. -/
def recoveries (ids : List EntryId) : List LeaseAction := ids.flatMap fun id => [.expire id, .recoverExpired id]

theorem recovered (h : Represents s used a) (kind : QueueKind) {batch : ℕ} {t : ServerTime}
    (hd : ClaimsReadable batch t.nowUs s) :
    ∃ ids b, Run Next a (recoveries ids) b ∧ Represents (arecover kind batch t s).2 used b := by
  let I (rest : List EntryId) (m : Store) : Prop :=
    (∃ ids b, Run Next a (recoveries ids) b ∧ Represents m used b) ∧
      rest.Nodup ∧ ∀ e ∈ rest, Recoverable False t.nowUs m e
  have hstep : ∀ redeliver, Library.Redelivers redeliver → ∀ id rest m, I (id :: rest) m →
      I rest (Library.recoverOne redeliver t.nowUs id m).2 := by
    rintro redeliver hre id rest m ⟨⟨ids, b, hrun, hb⟩, hn, hl⟩
    rw [List.nodup_cons] at hn
    refine ⟨?_, hn.2, fun e he => ?_⟩
    · have hid := hl id (List.mem_cons_self ..)
      have hloc := (hb.location.recoverOne hre hid).1
      obtain ⟨hs, hc, -⟩ := (hb.location id).held_of_lease hid.1
      have hcase := Library.recoverOne_case redeliver t.nowUs id m
      generalize Library.recoverOne redeliver t.nowUs id m = r at hcase hloc ⊢
      cases hcase with
      | kept => exact ⟨ids, b, hrun, hb.congr hloc rfl rfl⟩
      | discarded hrunOut hne =>
        -- the record can be read, so the script reads the status that it has
        rw [← Store.statusText_eq (hid.2.resolve_left not_false hrunOut)] at hs
        exact absurd hs (not_or.mpr hne)
      | error => exact ⟨ids, b, hrun, hb⟩
      | @recovered rawEntry raw _ _ hst he =>
        have hq : statusText (some raw) = some "queued" := by
          rcases hst with hst | hst <;> exact Library.statusText_of_recovered hst he
        have hreq := Library.requeued hre (Library.resetEntry (Cjson.table rawEntry))
          ((m.claims.get? id).bind Cjson.decode) t.nowUs id raw m
        obtain ⟨b', hrun', hb'⟩ := hb.requeued hloc hc hs
          (by rw [hreq.records, Dict.get?_set, if_pos rfl, recordStatus_of_statusText hq])
          (fun e he => by rw [hreq.records, Dict.get?_set, if_neg he]) hreq.claims
        exact ⟨ids ++ [id], b', by simpa [recoveries] using hrun.append hrun', hb'⟩
    · exact (hl e (List.mem_cons_of_mem _ he)).recoverOne hre fun heq => hn.1 (heq ▸ he)
  obtain ⟨rest, hres, -⟩ := arecover_rule hstep kind batch
    ⟨⟨[], a, .nil a, h⟩, nodup_dueClaims batch t.nowUs s, fun _ => recoverable_of_due (.inr hd)⟩
  exact hres

theorem pruned (h : Represents s used a) (id : EntryId) : Represents (Library.prune id s).2 used a := by
  have hl := h.location.prune id
  rcases Library.prune_cases id s with hr | ⟨hp, hr⟩
  · rw [hr]
    exact h
  · rw [hr] at hl ⊢
    exact
      { location := hl
        located := h.located
        owned := h.owned
        owner := h.owner
        expired := h.expired
        crashed := h.crashed
        lifecycle := fun e => by
          by_cases he : e = id
          · subst he
            right
            refine ⟨by simp, ?_⟩
            rcases h.lifecycle e with hst | ⟨-, hst⟩
            · exact prunable_statusValue? (hst ▸ Library.prunable_recordStatus hp)
            · exact hst
          · simpa [he] using h.lifecycle e
        used := h.used }

end Represents

/-! ## Runs -/

def enqueues : Action cls × ServerTime → Option EntryId
  | (.enqueue e _, _) => some e.id
  | _ => none

/-- A step of a run in which every entry has an id of its own, and which meets no refused record on its way. -/
structure FreshStep (kind : QueueKind) (g : World × List EntryId) (l : Action cls × ServerTime)
    (g' : World × List EntryId) : Prop where
  step : ReadableStep kind g.1 l g'.1
  fresh : ∀ id ∈ enqueues l, id ∉ g.2
  used : g'.2 = g.2 ++ (enqueues l).toList

/-- What a call can come to in the protocol. -/
inductive Amounts : Action cls × ServerTime → List LeaseAction → Prop
  | stutter (l : Action cls × ServerTime) : Amounts l []
  | enqueue (e : QueueEntry cls) (a : Option ClockTime) (t : ServerTime) : Amounts (.enqueue e a, t) [.enqueue e.id]
  | claim (w : WorkerId) (lease : ℕ) (id : EntryId) (t : ServerTime) : Amounts (.claim w lease, t) [.claim id w]
  | markRunning (w : WorkerId) (e : QueueEntry cls) (t : ServerTime) :
    Amounts (.markRunning w e, t) [.markRunning e.id w]
  | release (w : WorkerId) (id : EntryId) (delay : ℕ) (t : ServerTime) :
    Amounts (.release w id delay, t) (Represents.recoveries [id])
  | settle (w : WorkerId) (e : QueueEntry cls) {outcome : Outcome} (h : outcomeStatus outcome = e.status)
      (t : ServerTime) : Amounts (.settle w e, t) [.settle e.id w outcome]
  | recover (batch : ℕ) (ids : List EntryId) (t : ServerTime) :
    Amounts (.recover batch, t) (Represents.recoveries ids)

theorem represents_step {g g' : World × List EntryId} {l : Action cls × ServerTime} {a : LeaseState}
    (hw : WorldInv False g.1) (h : Represents g.1.store g.2 a) (hs : FreshStep kind g l g') :
    ∃ as b, Amounts l as ∧ Run Next a as b ∧ Represents g'.1.store g'.2 b := by
  obtain ⟨g, used⟩ := g
  obtain ⟨g', used'⟩ := g'
  obtain ⟨⟨hstep, hread⟩, hfresh, hused⟩ := hs
  dsimp only at hw h hstep hread hfresh hused ⊢
  subst hused
  -- every call but an enqueue leaves the known ids
  have hnone : used ++ (none : Option EntryId).toList = used := List.append_nil used
  cases hstep with
  | @enqueue t e av ht hq hf =>
    rcases astoreAndPush_cases kind e av t g.store with hr | ⟨s', hr, hs'⟩
    · exact ⟨[], a, .stutter _, .nil a, (h.congr (hw.location.enqueue kind hq av t hf) (by rw [hr]) (by rw [hr])).grow _⟩
    · have hl := hw.location.enqueue kind hq av t hf
      rw [hr] at hl
      obtain ⟨b, hb, hrep⟩ := h.enqueued hl hq hs' (hfresh e.id rfl)
      exact ⟨[.enqueue e.id], b, .enqueue e av t, .cons hb (.nil b), by rw [exec, hr]; exact hrep⟩
  | @claim t w lease ht hp hl =>
    simp only [enqueues, hnone]
    rcases hw.location.claim_cases kind w hl (.inr hread) with ⟨m, hr, hsame, hm⟩ |
      ⟨id, m, raw, hr, hq, hc, hwid, hrec, hcl, hm⟩
    · exact ⟨[], a, .stutter _, .nil a, by rw [exec, hr]; exact h.congr hm hsame.records hsame.claims⟩
    · obtain ⟨b, hb, hrep⟩ := h.claimed hm hq hc hwid hrec hcl
      exact ⟨[.claim id w], b, .claim w lease id t, .cons hb (.nil b), by rw [exec, hr]; exact hrep⟩
  | renew ht => exact ⟨[], a, .stutter _, .nil a, by simp only [enqueues, hnone]; exact h.renewed _ _ _ _⟩
  | @markRunning t w e ht hp he =>
    simp only [enqueues, hnone]
    have hl := hw.location.markRunning w he
    rcases Library.markRunning_cases w e.id e.toDict g.store with ⟨hr, -⟩ | ⟨ho, hq, hr⟩
    · exact ⟨[], a, .stutter _, .nil a, by rw [exec, hr]; exact h⟩
    · rw [hr] at hl
      obtain ⟨b, hb, hrep⟩ := h.markedRunning he ho (recordStatus_of_statusText hq) hl
      exact ⟨[.markRunning e.id w], b, .markRunning w e t, .cons hb (.nil b), by rw [exec, hr]; exact hrep⟩
  | @release t w id delay ht hp =>
    simp only [enqueues, hnone]
    by_cases ho : g.store.owner? id = some w
    · obtain ⟨b, hrun, hrep⟩ := h.released kind ho (hw.unmarked w id (.inr hp) ho) delay t
      exact ⟨Represents.recoveries [id], b, .release w id delay t, hrun, hrep⟩
    · rw [refused_of_not_owner ho (.release delay) kind t]
      exact ⟨[], a, .stutter _, .nil a, h⟩
  | @settle t w e ht he =>
    simp only [enqueues, hnone]
    have hl := hw.location.settle w he
    rcases Library.settle_cases w e.id e.toDict g.store with ⟨hr, -⟩ | ⟨ho, hrun, hr⟩
    · exact ⟨[], a, .stutter _, .nil a, by rw [exec, hr]; exact h⟩
    · rw [hr] at hl
      obtain ⟨outcome, hout⟩ := exists_outcome he
      obtain ⟨b, hb, hrep⟩ := h.settled hout ho (recordStatus_of_statusText hrun) hl
      exact ⟨[.settle e.id w outcome], b, .settle w e hout t, .cons hb (.nil b), by rw [exec, hr]; exact hrep⟩
  | @recover t batch ht =>
    simp only [enqueues, hnone]
    obtain ⟨ids, b, hrun, hrep⟩ := h.recovered kind hread
    exact ⟨Represents.recoveries ids, b, .recover batch ids t, hrun, hrep⟩
  | prune ht => exact ⟨[], a, .stutter _, .nil a, by simp only [enqueues, hnone]; exact h.pruned _⟩
  | leave ht => exact ⟨[], a, .stutter _, .nil a, by simp only [enqueues, hnone]; exact h⟩

/-- Every run of a Redis queue by any number of workers that meets no refused record on its way is a run of the
claim-lease protocol: what the store says about an entry, its status, its owner and whether it waits, is what the
protocol says, and its calls come to the actions of the protocol in their order. -/
theorem redis_queue_refines_claim_leases (kind : QueueKind) (t₀ : ServerTime)
    {ls : List (Action cls × ServerTime)} {g : World × List EntryId}
    (hrun : Run (FreshStep kind) (.init t₀, []) ls g) :
    ∃ (ass : List (List LeaseAction)) (a : LeaseState), List.Forall₂ Amounts ls ass ∧
      Run Next ClaimLeases.init ass.flatten a ∧
      ∀ e, StatusAgrees (g.1.store.records.get? e) (a.lifecycle e) ∧ a.owner e = g.1.store.owner? e ∧
        (e ∈ a.pending ↔ g.1.store.places e = 1) := by
  have hinit : Represents (World.init t₀).store [] ClaimLeases.init :=
    { location := locationInv_empty False
      located := ClaimLeases.located_init
      owned := fun e he => by cases he
      owner := fun _ => rfl
      expired := rfl
      crashed := rfl
      lifecycle := fun _ => .inl rfl
      used := fun _ h => absurd rfl h }
  obtain ⟨ass, a, hamounts, habstract, -, hrep⟩ := Run.refines
    (R := fun g a => WorldInv False g.1 ∧ Represents g.1.store g.2 a) (fun g l g' a hR hs => by
      obtain ⟨as, b, hM, hruns, hb⟩ := represents_step hR.1 hR.2 hs
      exact ⟨as, b, hM, hruns, hR.1.step hs.step.step (.inr hs.step.readable), hb⟩) hrun ⟨worldInv_init False t₀, hinit⟩
  exact ⟨ass, a, hamounts, habstract, fun e => ⟨hrep.lifecycle e, hrep.owner e, hrep.pending_iff e⟩⟩

/-- An entry whose worker has left it is claimed, expires and is pending again in the protocol. -/
theorem redis_queue_refines_claim_leases_recovered : ∃ (as : List LeaseAction) (a : LeaseState),
    Run Next ClaimLeases.init as a ∧ a.lifecycle (.ofLast 1) = .queued ∧ .ofLast 1 ∈ a.pending := by
  have hrun : Run (FreshStep .fifo) (.init (.ofSeconds 1000 ServerTime.second_1000), []) _
      (recoveredWorld .null, [.ofLast 1]) :=
    .cons (t := (enqueuedWorld .null, [.ofLast 1])) ⟨⟨step_enqueue .null, trivial⟩, fun _ _ => List.not_mem_nil, rfl⟩
      (.cons (t := (claimedWorld .null, [.ofLast 1])) ⟨⟨step_claim .null, readable_claim⟩, (fun _ h => by cases h), rfl⟩
        (.cons ⟨⟨step_recover .null, readable_recover⟩, (fun _ h => by cases h), rfl⟩ (.nil _)))
  obtain ⟨ass, a, -, habstract, hrep⟩ := redis_queue_refines_claim_leases .fifo _ hrun
  obtain ⟨hstatus, -, hpending⟩ := hrep (.ofLast 1)
  have hqueued : a.lifecycle (.ofLast 1) = .queued := hstatus.eq_of_text (by decide +kernel) (by simp)
  exact ⟨ass.flatten, a, habstract, hqueued, hpending.mpr (by decide +kernel)⟩

end DjangoQueues.Redis
