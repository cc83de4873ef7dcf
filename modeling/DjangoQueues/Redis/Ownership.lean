import DjangoQueues.Lib.Run
import DjangoQueues.Redis.Frame

/-! Exclusive ownership in the claim protocol. The lease index decides what recovery may
look at, so the owner of a claim keeps it until the deadline it was given there, whatever
the rounded deadline inside the claim record says. A settled record is never written again. -/

namespace DjangoQueues.Redis

variable {cls : EntryClass} {kind : QueueKind} {s s' : Store} {e : EntryId} {w : WorkerId} {t : ServerTime}

/-- The calls of the claim protocol, made with the records their callers pass. -/
def ClaimProtocol (s : Store) : Call cls → Prop
  | .enqueue e _ => e.status = .queued ∧ s.records.get? e.id = none
  | .claim _ _ expireUnclaimed => expireUnclaimed = false
  | .markRunning _ e => e.status = .running
  | .settle _ e => e.status.Terminal
  | .renew .. | .release .. | .ack .. | .recover .. => True
  | _ => False

/-! ## Calls of a worker that is not the owner -/

/-- The calls by which `w` acts on its claim of `e`, each with the reply of a refusal. -/
inductive OwnerCall (w : WorkerId) (e : EntryId) : Call cls → Reply → Prop
  | renew (lease : ℕ) : OwnerCall w e (.renew w lease e) (.renewed (.ok false))
  | markRunning (x : QueueEntry cls) (hx : x.id = e) : OwnerCall w e (.markRunning w x) (.flag false)
  | settle (x : QueueEntry cls) (hx : x.id = e) : OwnerCall w e (.settle w x) (.flag false)
  | release (delay : ℕ) : OwnerCall w e (.release w e delay) (.flag false)
  | remove : OwnerCall w e (.remove w e) (.flag false)
  | ack : OwnerCall w e (.ack w e) (.flag false)

theorem refused_of_not_owner (h : s.owner? e ≠ some w) {c : Call cls} {r : Reply} (hc : OwnerCall w e c r)
    (kind : QueueKind) (t : ServerTime) : exec kind c t s = (r, s) := by
  have hno := Store.ownClaim?_eq_none.mpr h
  cases hc with
  | renew lease => simp only [exec, Library.renew, hno]
  | markRunning x hx =>
    subst hx
    simp only [exec, Library.markRunning, hno]
  | settle x hx =>
    subst hx
    simp only [exec, Library.settle, hno]
  | release delay => cases kind <;> simp only [exec, arelease, Library.release, Library.releasePriority, hno]
  | remove => simp only [exec, Library.remove, hno]
  | ack => simp only [exec, Library.ack, hno]

/-! ## Leases -/

/-- Every server time before the end of a lease is before the deadline in the lease index,
also where that deadline is too large to be exact. -/
theorem nowUs_lt_deadline {t t' : ServerTime} {lease : ℕ}
    (h : t'.totalMicroseconds < t.totalMicroseconds + lease) : t'.nowUs < fl (t.nowUs + fl lease) := by
  rw [t'.nowUs_eq]
  by_cases hsmall : t.totalMicroseconds + lease < 2 ^ 53
  · rw [Library.fl_add_lease hsmall]
    exact_mod_cast h
  · have hlt := t'.total_lt
    have hbig : (2 : ℚ) ^ 53 ≤ t.nowUs + fl lease := by
      rw [t.nowUs_eq]
      by_cases hl : lease < 2 ^ 53
      · rw [fl_natCast hl]
        exact_mod_cast not_lt.mp hsmall
      · have hl' := two_pow_le_fl (x := lease) (m := 53) (by exact_mod_cast not_lt.mp hl)
        have : (0 : ℚ) ≤ t.totalMicroseconds := Nat.cast_nonneg _
        linarith
    have hnow : (t'.totalMicroseconds : ℚ) < 2 ^ 53 := by
      exact_mod_cast hlt.trans (by norm_num)
    exact hnow.trans_le (two_pow_le_fl hbig)

/-- `w` owns `e` under the lease-index deadline `d`. -/
structure Owns (s : Store) (e : EntryId) (w : WorkerId) (d : ℚ) : Prop where
  owner : s.owner? e = some w
  score : s.leases.score? e = some d

namespace Owns

variable {d : ℚ}

theorem isSome (h : Owns s e w d) : (s.claims.get? e).isSome := by
  have := h.owner
  unfold Store.owner? at this
  cases hc : s.claims.get? e with
  | none => simp [hc] at this
  | some _ => rfl

theorem congr (h : Owns s e w d) (hc : s'.claims.get? e = s.claims.get? e)
    (hl : s'.leases.score? e = s.leases.score? e) : Owns s' e w d where
  owner := by
    rw [← h.owner]
    unfold Store.owner?
    rw [hc]
  score := hl.trans h.score

theorem of_sameData (h : Owns s e w d) (hd : SameData s s') : Owns s' e w d :=
  h.congr (by rw [hd.claims]) (by rw [hd.leases])

end Owns

/-- A claim with the expire flag off changes no record and no existing claim. -/
theorem aclaim_frame (kind : QueueKind) (w : WorkerId) (lease : ℕ) (t : ServerTime) (s : Store) :
    (aclaim kind w lease false t s).2.records = s.records ∧
      ∀ e, (s.claims.get? e).isSome → (aclaim kind w lease false t s).2.claims.get? e = s.claims.get? e ∧
        (aclaim kind w lease false t s).2.leases.score? e = s.leases.score? e := by
  have hsame := prepare_sameData kind t s
  rcases aclaim_cases kind w lease false t s with hr | ⟨id, p, f, g, k, ht, ha, hr⟩
  · rw [hr]
    exact ⟨hsame.records, fun e _ => ⟨by rw [hsame.claims], by rw [hsame.leases]⟩⟩
  · have hp : SameData s p := hsame.trans ht.toSameData
    have hcase := Library.claimPopped_case w lease false t id f g k p
    rw [← hr] at hcase
    generalize aclaim kind w lease false t s = res at hcase ⊢
    cases hcase with
    | expired hx => cases hx
    | error hq =>
      cases hq
      exact ⟨hp.records, fun e _ => ⟨by rw [hp.claims], by rw [hp.leases]⟩⟩
    | conflict hq =>
      cases hq
      have hk := hp.trans (ha.conflict_same p)
      exact ⟨hk.records, fun e _ => ⟨by rw [hk.claims], by rw [hk.leases]⟩⟩
    | @claimed _ _ raw hq _ hnone =>
      cases hq
      obtain ⟨q, hg⟩ := ha.claimed_eq { p with
        claims := p.claims.set id raw, leases := p.leases.add id (fl (t.nowUs + fl lease)) }
      rw [hg]
      refine ⟨hp.records, fun e he => ?_⟩
      have hne : e ≠ id := by
        rintro rfl
        rw [hp.claims] at hnone
        simp [hnone] at he
      exact ⟨by simp [hne, hp.claims], by simp [hne, hp.leases]⟩

theorem owns_of_claimed {lease : ℕ} (h : aclaim kind w lease false t s = (.ok (.claimed e), s')) :
    Owns s' e w (fl (t.nowUs + fl lease)) := by
  rcases aclaim_cases kind w lease false t s with hr | ⟨id, p, f, g, k, -, ha, hr⟩
  · cases h.symm.trans hr
  · have hcase := Library.claimPopped_case w lease false t id f g k p
    rw [← hr, h] at hcase
    cases hcase with
    | @claimed _ _ raw hq he _ =>
      cases hq
      obtain ⟨q, hg⟩ := ha.claimed_eq { p with
        claims := p.claims.set e raw, leases := p.leases.add e (fl (t.nowUs + fl lease)) }
      rw [hg]
      exact ⟨(Library.owner?_of_get? (by simp)).mpr (Library.namesOwner_claimTable he), by simp⟩

theorem owns_of_renewed {lease : ℕ} (h : Library.renew w lease e t s = (.ok true, s')) :
    Owns s' e w (fl (t.nowUs + fl lease)) := by
  rcases Library.renew_cases w lease e t s with ⟨r, hr, hne⟩ | ⟨c, cur, raw, hc, -, -, he, hr⟩
  · cases h.symm.trans hr
    exact absurd rfl hne
  · cases h.symm.trans hr
    exact ⟨(Library.owner?_of_get? (by simp)).mpr (Library.namesOwner_of_ownClaim hc he), by simp⟩

/-- `w` obtains or extends a claim of `e` that lasts `lease` microseconds. -/
inductive Grants (w : WorkerId) (e : EntryId) (lease : ℕ) : Event cls → Prop
  | claim (t : ServerTime) : Grants w e lease ⟨.claim w lease false, t, .claimed (.ok (.claimed e))⟩
  | renew (t : ServerTime) : Grants w e lease ⟨.renew w lease e, t, .renewed (.ok true)⟩

/-- `w` ends its own claim of `e`. -/
inductive GivesUp (w : WorkerId) (e : EntryId) : Event cls → Prop
  | release (delay : ℕ) (t : ServerTime) : GivesUp w e ⟨.release w e delay, t, .flag true⟩
  | settle (x : QueueEntry cls) (hx : x.id = e) (t : ServerTime) : GivesUp w e ⟨.settle w x, t, .flag true⟩
  | ack (t : ServerTime) : GivesUp w e ⟨.ack w e, t, .flag true⟩

/-- The event neither renews nor ends the claim of `w`, and is no recovery from `bound` on. -/
structure Undisturbed (w : WorkerId) (e : EntryId) (bound : ℕ) (l : Event cls) : Prop where
  not_granted : ∀ lease, ¬Grants w e lease l
  not_givenUp : ¬GivesUp w e l
  recover_lt : ∀ batch, l.call = .recover batch → l.time.totalMicroseconds < bound

theorem owns_of_granted {lease : ℕ} {l : Event cls} {g g' : Timed} (hl : Grants w e lease l)
    (h : Occurs kind ClaimProtocol g l g') : Owns g'.store e w (fl (l.time.nowUs + fl lease)) := by
  have hex := h.exec_eq
  cases hl with
  | claim t =>
    have hc : aclaim kind w lease false t g.store = (.ok (.claimed e), g'.store) := by
      simpa [exec, Prod.ext_iff] using hex
    exact owns_of_claimed hc
  | renew t =>
    have hr : Library.renew w lease e t g.store = (.ok true, g'.store) := by
      simpa [exec, Prod.ext_iff] using hex
    exact owns_of_renewed hr

/-- An enqueue touches no claim, and no record but its own. -/
theorem astoreAndPush_frame (x : QueueEntry cls) (a : Option ClockTime) (t : ServerTime) (s : Store) :
    (astoreAndPush kind x a t s).2.claims = s.claims ∧ (astoreAndPush kind x a t s).2.leases = s.leases ∧
      ∀ e, e ≠ x.id → (astoreAndPush kind x a t s).2.records.get? e = s.records.get? e := by
  rcases astoreAndPush_cases kind x a t s with hr | ⟨s', hr, hs'⟩
  · rw [hr]
    exact ⟨rfl, rfl, fun _ _ => rfl⟩
  · rw [hr]
    exact ⟨hs'.claims, hs'.leases, fun e he => by rw [hs'.records, Dict.get?_set, if_neg he]⟩

/-- Nothing happened, or `ok` was replied to the owner `w` of `id` and no other claim changed. -/
def OwnClaimOnly (w : WorkerId) (id : EntryId) (s : Store) (ok : Prop) (s' : Store) : Prop :=
  s' = s ∨ ok ∧ s.owner? id = some w ∧ ∀ e, e ≠ id →
    s'.claims.get? e = s.claims.get? e ∧ s'.leases.score? e = s.leases.score? e

theorem dropClaim_other {id : EntryId} {m : Store} (hc : m.claims = s.claims) (hl : m.leases = s.leases)
    (he : e ≠ id) : (Library.dropClaim id m).claims.get? e = s.claims.get? e ∧
      (Library.dropClaim id m).leases.score? e = s.leases.score? e := by
  simp [Library.dropClaim, hc, hl, he]

theorem renew_ownClaimOnly (w : WorkerId) (lease : ℕ) (id : EntryId) (t : ServerTime) (s : Store) :
    OwnClaimOnly w id s ((Library.renew w lease id t s).1 = .ok true) (Library.renew w lease id t s).2 := by
  rcases Library.renew_cases w lease id t s with ⟨r, hr, -⟩ | ⟨c, cur, raw, hc, -, -, -, hr⟩
  · exact .inl (by rw [hr])
  · obtain ⟨-, -, -, ho⟩ := Store.ownClaim?_eq_some.mp hc
    rw [hr]
    exact .inr ⟨rfl, ho, fun e he => by simp [he]⟩

theorem settle_ownClaimOnly (w : WorkerId) (id : EntryId) (raw : Json) (s : Store) :
    OwnClaimOnly w id s ((Library.settle w id raw s).1 = true) (Library.settle w id raw s).2 := by
  rcases Library.settle_cases w id raw s with ⟨hr, -⟩ | ⟨ho, -, hr⟩
  · exact .inl (by rw [hr])
  · rw [hr]
    exact .inr ⟨rfl, ho, fun e he => dropClaim_other rfl rfl he⟩

theorem ack_ownClaimOnly (w : WorkerId) (id : EntryId) (s : Store) :
    OwnClaimOnly w id s ((Library.ack w id s).1 = true) (Library.ack w id s).2 := by
  cases hc : s.ownClaim? id w with
  | none => exact .inl (by rw [Library.ack, hc])
  | some c =>
    obtain ⟨-, -, -, ho⟩ := Store.ownClaim?_eq_some.mp hc
    rw [Library.ack, hc]
    exact .inr ⟨rfl, ho, fun e he => dropClaim_other rfl rfl he⟩

theorem arelease_ownClaimOnly (kind : QueueKind) (w : WorkerId) (id : EntryId) (delay : ℕ) (t : ServerTime)
    (s : Store) :
    OwnClaimOnly w id s ((arelease kind w id delay t s).1 = true) (arelease kind w id delay t s).2 := by
  cases hc : s.ownClaim? id w with
  | none => exact .inl (by cases kind <;> simp only [arelease, Library.release, Library.releasePriority, hc])
  | some c =>
    obtain ⟨-, -, -, ho⟩ := Store.ownClaim?_eq_some.mp hc
    cases kind with
    | priority =>
      simp only [arelease, Library.releasePriority, hc]
      rw [Library.restoreUnclaimed_eq]
      exact .inr ⟨trivial, ho, fun e he => by simp [Library.pushPriority, Library.dropClaim, he]⟩
    | _ =>
      simp only [arelease, Library.release, hc]
      rw [Library.restoreUnclaimed_eq]
      exact .inr ⟨trivial, ho, fun e he => by simp [Library.dropClaim, he]⟩

theorem Owns.of_ownClaimOnly {d : ℚ} {w' : WorkerId} {id : EntryId} {ok : Prop} (h : Owns s e w d)
    (ho : OwnClaimOnly w' id s ok s') (hno : id = e → w' = w → ¬ok) : Owns s' e w d := by
  rcases ho with rfl | ⟨hok, howner, hother⟩
  · exact h
  · have hne : e ≠ id := by
      rintro rfl
      exact hno rfl (Option.some.inj (howner.symm.trans h.owner)) hok
    exact h.congr (hother e hne).1 (hother e hne).2

/-- Recovery before the deadline in the lease index does not come to the claim. -/
theorem Owns.recover {d : ℚ} (h : Owns s e w d) (hd : t.nowUs < d) (kind : QueueKind) (batch : ℕ) :
    Owns (arecover kind batch t s).2 e w d := by
  have hdue : e ∉ Library.dueClaims batch t.nowUs s := fun hmem => by
    obtain ⟨x, hx, hs⟩ := mem_dueClaims hmem
    rw [h.score, Option.some.injEq] at hs
    exact absurd (hs ▸ hx) (not_le.mpr hd)
  have hstep : ∀ redeliver, Library.Redelivers redeliver → ∀ id ids m,
      (e ∉ id :: ids ∧ Owns m e w d) → e ∉ ids ∧ Owns (Library.recoverOne redeliver t.nowUs id m).2 e w d := by
    rintro redeliver hre id ids m ⟨hmem, hm⟩
    rw [List.mem_cons, not_or] at hmem
    obtain ⟨-, h₂, h₃⟩ := Library.recoverOne_other hre t.nowUs hmem.1 m
    exact ⟨hmem.2, hm.congr h₂ h₃⟩
  obtain ⟨-, -, hres⟩ := arecover_rule (I := fun ids m => e ∉ ids ∧ Owns m e w d) hstep kind batch ⟨hdue, h⟩
  exact hres

theorem Owns.exec {d : ℚ} {c : Call cls} (h : Owns s e w d) (hok : ClaimProtocol s c)
    (hg : ∀ lease, ¬Grants w e lease ⟨c, t, (exec kind c t s).1⟩) (hu : ¬GivesUp w e ⟨c, t, (exec kind c t s).1⟩)
    (hd : ∀ batch, c = .recover batch → t.nowUs < d) : Owns (exec kind c t s).2 e w d := by
  cases c with
  | enqueue x a =>
    obtain ⟨h₁, h₂, -⟩ : _ ∧ _ ∧ _ := astoreAndPush_frame x a t s
    exact h.congr (by rw [Redis.exec, h₁]) (by rw [Redis.exec, h₂])
  | claim w' lease x =>
    obtain rfl : x = false := hok
    obtain ⟨h₁, h₂⟩ := (aclaim_frame kind w' lease t s).2 e h.isSome
    exact h.congr h₁ h₂
  | renew w' lease id =>
    refine h.of_ownClaimOnly (renew_ownClaimOnly w' lease id t s) ?_
    rintro rfl rfl hr
    refine hg lease ?_
    simp only [Redis.exec, hr]
    exact .renew t
  | markRunning w' x =>
    rcases Library.markRunning_cases w' x.id x.toDict s with ⟨hr, -⟩ | ⟨-, -, hr⟩
    all_goals
      simp only [Redis.exec, hr]
      exact h.congr rfl rfl
  | settle w' x =>
    refine h.of_ownClaimOnly (settle_ownClaimOnly w' x.id x.toDict s) ?_
    rintro hx rfl hr
    refine hu ?_
    simp only [Redis.exec, hr]
    exact .settle x hx t
  | release w' id delay =>
    refine h.of_ownClaimOnly (arelease_ownClaimOnly kind w' id delay t s) ?_
    rintro rfl rfl hr
    refine hu ?_
    simp only [Redis.exec, hr]
    exact .release delay t
  | ack w' id =>
    refine h.of_ownClaimOnly (ack_ownClaimOnly w' id s) ?_
    rintro rfl rfl hr
    refine hu ?_
    simp only [Redis.exec, hr]
    exact .ack t
  | recover batch => exact h.recover (hd batch rfl) kind batch
  | _ => cases hok

theorem Owns.run {bound : ℕ} {d : ℚ} {ls : List (Event cls)} {g g' : Timed}
    (hrun : Run (Occurs kind ClaimProtocol) g ls g') (h : Owns g.store e w d)
    (hls : ∀ l ∈ ls, Undisturbed w e bound l)
    (hd : ∀ t : ServerTime, t.totalMicroseconds < bound → t.nowUs < d) : Owns g'.store e w d := by
  induction hrun with
  | nil _ => exact h
  | @cons g g₁ _ l ls hs _ ih =>
    have hl := hls l (List.mem_cons_self ..)
    refine ih ?_ fun l' hl' => hls l' (List.mem_cons_of_mem _ hl')
    obtain ⟨c, t, r⟩ := l
    have hr : (Redis.exec kind c t g.store).1 = r := by rw [hs.exec_eq]
    have hstore : (Redis.exec kind c t g.store).2 = g₁.store := by rw [hs.exec_eq]
    rw [← hstore]
    subst hr
    exact h.exec hs.ok hl.not_granted hl.not_givenUp fun batch hb => hd t (hl.recover_lt batch hb)

/-! ## Settlement -/

/-- `x` is settled: the reply says that its record was stored. -/
def Settles (x : QueueEntry cls) (l : Event cls) : Prop := ∃ w, l.call = .settle w x ∧ l.reply = .flag true

theorem arelease_records (kind : QueueKind) (w : WorkerId) (id : EntryId) (delay : ℕ) (t : ServerTime)
    (s : Store) : (arelease kind w id delay t s).2.records = s.records := by
  cases hc : s.ownClaim? id w with
  | none => cases kind <;> simp only [arelease, Library.release, Library.releasePriority, hc]
  | some c =>
    cases kind <;> simp only [arelease, Library.release, Library.releasePriority, hc] <;>
      rw [Library.restoreUnclaimed_eq] <;> rfl

/-- A record that is neither queued nor running is not written by any call of the protocol. -/
theorem records_exec_of_finished {c : Call cls} (hok : ClaimProtocol s c) (hsome : (s.records.get? e).isSome)
    (hq : statusText (s.records.get? e) ≠ some "queued") (hr : statusText (s.records.get? e) ≠ some "running")
    (kind : QueueKind) (t : ServerTime) : (exec kind c t s).2.records.get? e = s.records.get? e := by
  cases c with
  | enqueue x a =>
    have hne : e ≠ x.id := by
      rintro rfl
      simp [hok.2] at hsome
    obtain ⟨-, -, h₃⟩ : _ ∧ _ ∧ _ := astoreAndPush_frame x a t s
    exact h₃ e hne
  | claim w' lease x =>
    obtain rfl : x = false := hok
    exact congrArg (fun r => r.get? e) (aclaim_frame kind w' lease t s).1
  | renew w' lease id =>
    rcases Library.renew_cases w' lease id t s with ⟨r, h, -⟩ | ⟨_, _, _, _, _, _, _, h⟩ <;>
      simp only [exec, h]
  | markRunning w' x =>
    rcases Library.markRunning_cases w' x.id x.toDict s with ⟨h, -⟩ | ⟨-, hst, h⟩
    · simp only [exec, h]
    · have hne : e ≠ x.id := by
        rintro rfl
        exact hq hst
      simp only [exec, h, Dict.get?_set, if_neg hne]
  | settle w' x =>
    rcases Library.settle_cases w' x.id x.toDict s with ⟨h, -⟩ | ⟨-, hst, h⟩
    · simp only [exec, h]
    · have hne : e ≠ x.id := by
        rintro rfl
        exact hr hst
      simp only [exec, h, Library.dropClaim, Dict.get?_set, if_neg hne]
  | release w' id delay => exact congrArg (fun r => r.get? e) (arelease_records kind w' id delay t s)
  | ack w' id =>
    cases hc : s.ownClaim? id w' <;> simp only [exec, Library.ack, hc, Library.dropClaim]
  | recover batch =>
    obtain ⟨-, hres⟩ := arecover_rule (t := t) (I := fun _ m => m.records.get? e = s.records.get? e)
      (fun redeliver hre id ids m hm => by
        rw [Library.recoverOne_finished hre t.nowUs id (by rw [hm]; exact ⟨hq, hr⟩), hm]) kind batch rfl
    exact hres
  | _ => cases hok

theorem status_ne_of_terminal {x : QueueEntry cls} (hx : x.status.Terminal) :
    statusText (some x.toDict) ≠ some "queued" ∧ statusText (some x.toDict) ≠ some "running" := by
  constructor <;>
  · intro h
    have hval := eq_of_statusText_toDict h
    revert hx hval
    cases x.status <;> decide

/-- After a record has been settled no call settles it again or changes it. -/
theorem settled_run {x : QueueEntry cls} (hx : x.status.Terminal) {ls : List (Event cls)} {g g' : Timed}
    (hrun : Run (Occurs kind ClaimProtocol) g ls g') (h : g.store.records.get? x.id = some x.toDict) :
    (∀ l ∈ ls, ∀ y : QueueEntry cls, y.id = x.id → ¬Settles y l) ∧
      g'.store.records.get? x.id = some x.toDict := by
  obtain ⟨hq, hr⟩ := status_ne_of_terminal hx
  induction hrun with
  | nil _ => exact ⟨by simp, h⟩
  | @cons g g₁ _ l ls hs _ ih =>
    have hkeep := records_exec_of_finished hs.ok (by rw [h]; rfl) (by rwa [h]) (by rwa [h]) kind l.time
    rw [hs.exec_eq, h] at hkeep
    obtain ⟨h₁, h₂⟩ := ih hkeep
    refine ⟨fun l' hl' y hy => ?_, h₂⟩
    rcases List.mem_cons.mp hl' with rfl | hl'
    · rintro ⟨w, hcall, hreply⟩
      have hex := hs.exec_eq
      rw [hcall, hreply] at hex
      rcases Library.settle_cases w y.id y.toDict g.store with ⟨hno, -⟩ | ⟨-, hst, -⟩
      · simp [exec, hno] at hex
      · rw [hy, h] at hst
        exact hr hst
    · exact h₁ l' hl' y hy

theorem record_of_settles {x : QueueEntry cls} {l : Event cls} {g g' : Timed} (hl : Settles x l)
    (hs : Occurs kind ClaimProtocol g l g') :
    x.status.Terminal ∧ g'.store.records.get? x.id = some x.toDict := by
  obtain ⟨w, hcall, hreply⟩ := hl
  have hok := hs.ok
  have hex := hs.exec_eq
  rw [hcall] at hok
  rw [hcall, hreply] at hex
  refine ⟨hok, ?_⟩
  rcases Library.settle_cases w x.id x.toDict g.store with ⟨hno, -⟩ | ⟨-, -, hyes⟩
  · simp [exec, hno] at hex
  · simp only [exec, hyes, Prod.mk.injEq, true_and] at hex
    rw [← hex]
    simp [Library.dropClaim]

/-! ## The protocol -/

/-- A worker that is not the owner is refused without an effect; the owner keeps its claim
until its lease ends or it gives it up; and an entry is settled at most once, for good. -/
theorem claim_protocol_exclusive (kind : QueueKind) (t₀ : ServerTime) {ls : List (Event cls)} {g : Timed}
    (hrun : Run (Occurs kind ClaimProtocol) (.init t₀) ls g) :
    (∀ (w : WorkerId) (e : EntryId) (c : Call cls) (r : Reply) (t : ServerTime), g.store.owner? e ≠ some w →
        OwnerCall w e c r → exec kind c t g.store = (r, g.store)) ∧
      (∀ (before after : List (Event cls)) (l : Event cls) (w : WorkerId) (e : EntryId) (lease : ℕ),
        ls = before ++ l :: after → Grants w e lease l →
        (∀ l' ∈ after, Undisturbed w e (l.time.totalMicroseconds + lease) l') → g.store.owner? e = some w) ∧
      ∀ (before after : List (Event cls)) (l : Event cls) (x : QueueEntry cls), ls = before ++ l :: after →
        Settles x l → (∀ l' ∈ after, ∀ y : QueueEntry cls, y.id = x.id → ¬Settles y l') ∧
          g.store.records.get? x.id = some x.toDict := by
  refine ⟨fun w e c r t h hc => refused_of_not_owner h hc kind t, ?_, ?_⟩
  · rintro before after l w e lease rfl hl hafter
    obtain ⟨g₁, -, hrest⟩ := hrun.of_append
    cases hrest with
    | cons hs hrest =>
      exact ((owns_of_granted hl hs).run hrest hafter fun t ht => nowUs_lt_deadline ht).owner
  · rintro before after l x rfl hl
    obtain ⟨g₁, -, hrest⟩ := hrun.of_append
    cases hrest with
    | cons hs hrest =>
      obtain ⟨hx, hrec⟩ := record_of_settles hl hs
      exact settled_run hx hrest hrec

theorem claim_protocol_exclusive_claimed :
    let t : ServerTime := .ofSeconds 1000 ServerTime.second_1000
    let s := (exec .fifo (.enqueue (.plain (.ofLast 1) .null) none) t .empty).2
    (exec .fifo (.claim "w" defaultClaimLease false : Call .base) t s).2.owner? (.ofLast 1) = some "w" := by
  intro t s
  have hclaim : (aclaim .fifo "w" defaultClaimLease false t s).1 = .ok (.claimed (.ofLast 1)) := by
    decide +kernel
  have hrun : Run (Occurs .fifo ClaimProtocol) (.init t)
      [⟨.enqueue (.plain (.ofLast 1) .null) none, t, .done⟩,
        ⟨.claim "w" defaultClaimLease false, t, .claimed (.ok (.claimed (.ofLast 1)))⟩]
      ⟨(exec .fifo (.claim "w" defaultClaimLease false : Call .base) t s).2, t⟩ :=
    .cons (.of_exec t.le_refl ⟨rfl, rfl⟩ rfl)
      (.cons (.of_exec t.le_refl rfl (congrArg Reply.claimed hclaim)) (.nil _))
  exact (claim_protocol_exclusive .fifo t hrun).2.1 [_] [] _ "w" (.ofLast 1) defaultClaimLease rfl
    (.claim t) (by simp)

end DjangoQueues.Redis
