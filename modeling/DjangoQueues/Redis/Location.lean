import DjangoQueues.Lib.Run
import DjangoQueues.Redis.Frame

/-! Where an entry of a tracked Redis queue can be. Workers are modelled with their
program order: an idle worker claims, marks the entry it holds running once, and
releases it only after that was refused. Every id is then absent, waiting in exactly
one place, held under a claim that is in the lease index, or finished; a record that
`cjson.decode` refuses can also be lost, when a promotion or a recovery meets it. -/

namespace DjangoQueues.Redis

/-! ## Location of one id -/

/-- `lossy` says whether an entry may have been lost. -/
inductive Located (lossy : Prop) (s : Store) (e : EntryId) : Prop
  | absent (hr : s.records.get? e = none) (hc : s.claims.get? e = none)
      (hl : s.leases.score? e = none) (hp : s.places e = 0)
  | waiting (hs : recordStatus (s.records.get? e) = some "queued") (hc : s.claims.get? e = none)
      (hl : s.leases.score? e = none) (hp : s.places e = 1)
  | held (hs : recordStatus (s.records.get? e) = some "queued" ∨ recordStatus (s.records.get? e) = some "running")
      (hc : (s.claims.get? e).isSome) (hl : (s.leases.score? e).isSome) (hp : s.places e = 0)
  | finished (hs : Library.prunable (recordStatus (s.records.get? e))) (hc : s.claims.get? e = none)
      (hl : s.leases.score? e = none) (hp : s.places e = 0)
  | lost (hlossy : lossy) (hs : s.Refused e) (hc : s.claims.get? e = none)
      (hl : s.leases.score? e = none) (hp : s.places e = 0)

def LocationInv (lossy : Prop) (s : Store) : Prop := ∀ e, Located lossy s e

theorem locationInv_empty (lossy : Prop) : LocationInv lossy .empty := fun _ => .absent rfl rfl rfl rfl

namespace Located

variable {lossy : Prop} {s s' : Store} {e : EntryId}

theorem congr (h : Located lossy s e) (hr : s'.records.get? e = s.records.get? e)
    (hc : s'.claims.get? e = s.claims.get? e) (hl : s'.leases.score? e = s.leases.score? e)
    (hp : s'.places e = s.places e) : Located lossy s' e := by
  cases h with
  | absent h₁ h₂ h₃ h₄ => exact .absent (hr ▸ h₁) (hc ▸ h₂) (hl ▸ h₃) (hp ▸ h₄)
  | waiting h₁ h₂ h₃ h₄ => exact .waiting (hr ▸ h₁) (hc ▸ h₂) (hl ▸ h₃) (hp ▸ h₄)
  | held h₁ h₂ h₃ h₄ => exact .held (hr ▸ h₁) (hc ▸ h₂) (hl ▸ h₃) (hp ▸ h₄)
  | finished h₁ h₂ h₃ h₄ => exact .finished (hr ▸ h₁) (hc ▸ h₂) (hl ▸ h₃) (hp ▸ h₄)
  | lost h₀ h₁ h₂ h₃ h₄ => exact .lost h₀ (by rwa [Store.Refused, hr]) (hc ▸ h₂) (hl ▸ h₃) (hp ▸ h₄)

theorem waiting_of_places (h : Located lossy s e) (hp : 0 < s.places e) :
    recordStatus (s.records.get? e) = some "queued" ∧ s.claims.get? e = none ∧
      s.leases.score? e = none ∧ s.places e = 1 := by
  cases h with
  | waiting h₁ h₂ h₃ h₄ => exact ⟨h₁, h₂, h₃, h₄⟩
  | _ => omega

theorem held_of_lease (h : Located lossy s e) (hl : (s.leases.score? e).isSome) :
    (recordStatus (s.records.get? e) = some "queued" ∨ recordStatus (s.records.get? e) = some "running") ∧
      (s.claims.get? e).isSome ∧ s.places e = 0 := by
  cases h with
  | held h₁ h₂ h₃ h₄ => exact ⟨h₁, h₂, h₄⟩
  | _ => simp_all

theorem held_of_owner (h : Located lossy s e) {w : WorkerId} (ho : s.owner? e = some w) :
    (recordStatus (s.records.get? e) = some "queued" ∨ recordStatus (s.records.get? e) = some "running") ∧
      (s.claims.get? e).isSome ∧ (s.leases.score? e).isSome ∧ s.places e = 0 := by
  cases h with
  | held h₁ h₂ h₃ h₄ => exact ⟨h₁, h₂, h₃, h₄⟩
  | _ => simp_all [Store.owner?]

theorem absent_of_record (h : Located lossy s e) (hr : s.records.get? e = none) :
    s.claims.get? e = none ∧ s.leases.score? e = none ∧ s.places e = 0 := by
  cases h with
  | absent _ h₂ h₃ h₄ => exact ⟨h₂, h₃, h₄⟩
  | lost _ _ h₂ h₃ h₄ => exact ⟨h₂, h₃, h₄⟩
  | _ => simp_all [recordStatus, Library.prunable]

theorem refused_of_queued (h : recordStatus (s.records.get? e) = some "queued")
    (hs : statusText (s.records.get? e) ≠ some "queued") : s.Refused e :=
  not_not.mp fun hr => hs ((Store.statusText_eq hr).trans h)

end Located

namespace LocationInv

variable {lossy : Prop} {s : Store}

theorem pos_of_scheduled {e : EntryId} {x : ℚ} (h : s.scheduled.score? e = some x) : 0 < s.places e := by
  have := mult_eq_one h
  unfold Store.places
  omega

theorem scheduled_not_priority (h : LocationInv lossy s) {e : EntryId} {x : ℚ}
    (hx : s.scheduled.score? e = some x) : s.priority.score? e = none := by
  have hp := ((h e).waiting_of_places (pos_of_scheduled hx)).2.2.2
  have hm := mult_eq_one hx
  unfold Store.places at hp
  exact mult_eq_zero.mp (by omega)

theorem prepare (h : LocationInv lossy s) (kind : QueueKind) {t : ServerTime} (hd : lossy ∨ DueReadable kind t.nowUs s) :
    LocationInv lossy (prepare kind t s) := fun e => by
  have hsame := prepare_sameData kind t s
  rcases places_prepare (fun _ _ => h.scheduled_not_priority) e with hp | ⟨hmem, hs, hp⟩
  · exact (h e).congr (by rw [hsame.records]) (by rw [hsame.claims]) (by rw [hsame.leases]) hp
  · obtain ⟨hq, hc, hl, hone⟩ := (h e).waiting_of_places (by omega)
    have hrefused := Located.refused_of_queued hq hs
    refine .lost (hd.resolve_right fun hd => hd e hmem hrefused) ?_ (by rw [hsame.claims, hc])
      (by rw [hsame.leases, hl]) (by omega)
    rwa [Store.Refused, hsame.records]

variable {cls : EntryClass} {id : EntryId} {w : WorkerId} {t : ServerTime}

theorem enqueue (h : LocationInv lossy s) (kind : QueueKind) {e : QueueEntry cls} (hq : e.status = .queued)
    (a : Option ClockTime) (t : ServerTime) (hf : s.records.get? e.id = none) :
    LocationInv lossy (astoreAndPush kind e a t s).2 := by
  rcases astoreAndPush_cases kind e a t s with hr | ⟨s', hr, hs'⟩
  · rw [hr]
    exact h
  · rw [hr]
    obtain ⟨hc, hl, hp⟩ := (h e.id).absent_of_record hf
    intro x
    have hpx := hs'.places hp x
    by_cases hx : x = e.id
    · subst hx
      refine .waiting ?_ (by rw [hs'.claims]; exact hc) (by rw [hs'.leases]; exact hl) (by simpa [hp] using hpx)
      rw [hs'.records, Dict.get?_set, if_pos rfl, recordStatus_toDict, hq]
      rfl
    · refine (h x).congr ?_ (by rw [hs'.claims]) (by rw [hs'.leases]) (by simpa [hx] using hpx)
      rw [hs'.records, Dict.get?_set, if_neg hx]

/-- A claim with the expire flag off finds nothing, or takes a waiting id and records its owner. -/
theorem claim_cases (h : LocationInv lossy s) (kind : QueueKind) (w : WorkerId) {lease : ℕ}
    (hlease : Library.LeaseFits t lease) (hd : lossy ∨ DueReadable kind t.nowUs s) :
    (∃ m, aclaim kind w lease false t s = (.ok .empty, m) ∧ SameData s m ∧ LocationInv lossy m) ∨
      ∃ id m raw, aclaim kind w lease false t s = (.ok (.claimed id), m) ∧
        recordStatus (s.records.get? id) = some "queued" ∧ s.claims.get? id = none ∧
        Library.NamesOwner raw w ∧
        m.records = s.records ∧ m.claims = s.claims.set id raw ∧ LocationInv lossy m := by
  have hsame := prepare_sameData kind t s
  have hprep := h.prepare kind hd
  rcases aclaim_cases kind w lease false t s with hr | ⟨id, p, f, g, k, ht, ha, hr⟩
  · exact .inl ⟨_, hr, hsame, hprep⟩
  · obtain ⟨raw, hraw⟩ := Library.exists_encode_claimTable w hlease
    have hpos : 0 < (Redis.prepare kind t s).places id := by simp [ht.places id]
    obtain ⟨hs, hc, hl, hp⟩ := (hprep id).waiting_of_places hpos
    have hpc : p.claims.get? id = none := by rw [ht.claims, hc]
    have hcase := Library.claimPopped_case w lease false t id f g k p
    rw [← hr] at hcase
    generalize aclaim kind w lease false t s = res at hcase ⊢
    cases hcase with
    | expired hx => cases hx
    | error hq he =>
      cases hq
      cases hraw.symm.trans he
    | conflict hq _ hsome =>
      cases hq
      simp [hpc] at hsome
    | claimed hq he hnone =>
      cases hq
      obtain rfl := Option.some.inj (hraw.symm.trans he)
      obtain ⟨q, hg⟩ := ha.claimed_eq { p with
        claims := p.claims.set id raw, leases := p.leases.add id (fl (t.nowUs + fl lease)) }
      rw [hg]
      refine .inr ⟨id, _, raw, rfl, by rw [← hsame.records]; exact hs, by rw [← hsame.claims]; exact hc,
        Library.namesOwner_claimTable hraw, ?_, ?_, ?_⟩
      · exact ht.records.trans hsame.records
      · exact congrArg (fun c => c.set id raw) (ht.claims.trans hsame.claims)
      · intro x
        have hpx := ht.places x
        by_cases hx : x = id
        · subst hx
          refine .held (.inl (by rw [ht.records]; exact hs)) (by simp) (by simp) ?_
          change p.places x = 0
          simp only [hp, if_true] at hpx
          omega
        · refine (hprep x).congr (by rw [ht.records]) (by simp [hx, ht.claims]) (by simp [hx, ht.leases]) ?_
          change p.places x = _
          simp only [hx, if_false] at hpx
          omega

theorem renew (h : LocationInv lossy s) (w : WorkerId) (lease : ℕ) (id : EntryId) (t : ServerTime) :
    LocationInv lossy (Library.renew w lease id t s).2 := by
  rcases Library.renew_cases w lease id t s with ⟨r, hr, -⟩ | ⟨c, cur, raw, hc, -, -, -, hr⟩
  · rw [hr]
    exact h
  · rw [hr]
    obtain ⟨-, -, -, ho⟩ := Store.ownClaim?_eq_some.mp hc
    obtain ⟨hs, -, -, hp⟩ := (h id).held_of_owner ho
    intro x
    by_cases hx : x = id
    · subst hx
      exact .held hs (by simp) (by simp) hp
    · exact (h x).congr rfl (by simp [hx]) (by simp [hx]) rfl

theorem markRunning (h : LocationInv lossy s) (w : WorkerId) {e : QueueEntry cls} (he : e.status = .running) :
    LocationInv lossy (Library.markRunning w e.id e.toDict s).2 := by
  rcases Library.markRunning_cases w e.id e.toDict s with ⟨hr, -⟩ | ⟨ho, -, hr⟩
  · rw [hr]
    exact h
  · rw [hr]
    obtain ⟨-, hc, hl, hp⟩ := (h e.id).held_of_owner ho
    intro x
    by_cases hx : x = e.id
    · subst hx
      refine .held (.inr ?_) hc hl hp
      rw [Dict.get?_set, if_pos rfl, recordStatus_toDict, he]
      rfl
    · exact (h x).congr (by simp [hx]) rfl rfl rfl

/-- A worker that still owns the queued entry it releases puts it back in one place. -/
theorem release (h : LocationInv lossy s) (kind : QueueKind) {w : WorkerId} {id : EntryId} (ho : s.owner? id = some w)
    (hq : recordStatus (s.records.get? id) = some "queued") (delay : ℕ) (t : ServerTime) :
    LocationInv lossy (arelease kind w id delay t s).2 := by
  obtain ⟨-, -, -, hp⟩ := (h id).held_of_owner ho
  have hr := arelease_released kind ho delay t
  intro x
  have hpx := hr.places hp x
  by_cases hx : x = id
  · subst hx
    exact .waiting (by rwa [hr.records]) (by simp [hr.claims]) (by simp [hr.leases]) (by simpa [hp] using hpx)
  · exact (h x).congr (by rw [hr.records]) (by simp [hr.claims, hx]) (by simp [hr.leases, hx])
      (by simpa [hx] using hpx)

theorem settle (h : LocationInv lossy s) (w : WorkerId) {e : QueueEntry cls} (he : e.status.Terminal) :
    LocationInv lossy (Library.settle w e.id e.toDict s).2 := by
  rcases Library.settle_cases w e.id e.toDict s with ⟨hr, -⟩ | ⟨ho, -, hr⟩
  · rw [hr]
    exact h
  · rw [hr]
    obtain ⟨-, -, -, hp⟩ := (h e.id).held_of_owner ho
    intro x
    by_cases hx : x = e.id
    · subst hx
      refine .finished ?_ (by simp [Library.dropClaim]) (by simp [Library.dropClaim]) hp
      simp only [Library.dropClaim, Dict.get?_set, if_true]
      exact prunable_toDict he
    · exact (h x).congr (by simp [Library.dropClaim, hx]) (by simp [Library.dropClaim, hx])
        (by simp [Library.dropClaim, hx]) rfl

theorem prune (h : LocationInv lossy s) (id : EntryId) : LocationInv lossy (Library.prune id s).2 := by
  rcases Library.prune_cases id s with hr | ⟨hp, hr⟩
  · rw [hr]
    exact h
  · rw [hr]
    have hp := Library.prunable_recordStatus hp
    obtain ⟨hc, hl, hz⟩ : s.claims.get? id = none ∧ s.leases.score? id = none ∧ s.places id = 0 := by
      cases h id with
      | finished _ h₂ h₃ h₄ => exact ⟨h₂, h₃, h₄⟩
      | absent _ h₂ h₃ h₄ => exact ⟨h₂, h₃, h₄⟩
      | lost _ _ h₂ h₃ h₄ => exact ⟨h₂, h₃, h₄⟩
      | waiting h₁ => simp [h₁, Library.prunable] at hp
      | held h₁ => rcases h₁ with h₁ | h₁ <;> simp [h₁, Library.prunable] at hp
    have hpending : s.pending.filter (· ≠ id) = s.pending := by
      have hcount := (none_of_places hz).2.2.2
      rw [List.filter_eq_self]
      intro x hx
      simpa using fun heq : x = id => List.count_eq_zero.mp hcount (heq ▸ hx)
    rw [hpending]
    intro x
    by_cases hx : x = id
    · subst hx
      exact .absent (by simp) hc hl hz
    · exact (h x).congr (by simp [hx]) rfl rfl rfl

/-- Recovery keeps the record and claim of an id or ends its claim. -/
def Kept (s s' : Store) : Prop :=
  ∀ e, (s'.records.get? e = s.records.get? e ∧ s'.claims.get? e = s.claims.get? e) ∨
    s'.claims.get? e = none

theorem recoverOne (h : LocationInv lossy s) {redeliver : Lua → EntryId → Store → Store}
    (hre : Library.Redelivers redeliver) {now : ℚ} {id : EntryId} (hd : Recoverable lossy now s id) :
    LocationInv lossy (Library.recoverOne redeliver now id s).2 ∧
      Kept s (Library.recoverOne redeliver now id s).2 := by
  obtain ⟨hs, hc, hp⟩ := (h id).held_of_lease hd.1
  have hother : ∀ e, e ≠ id → _ := fun e he => Library.recoverOne_other hre now he s
  have hcase := Library.recoverOne_case redeliver now id s
  generalize Library.recoverOne redeliver now id s = r at hcase hother
  cases hcase with
  | kept =>
    refine ⟨fun x => ?_, fun x => .inl ⟨rfl, rfl⟩⟩
    by_cases hx : x = id
    · subst hx
      exact .held hs hc (by simp) hp
    · obtain ⟨h₁, h₂, h₃⟩ := hother x hx
      exact (h x).congr h₁ h₂ h₃ rfl
  | discarded hrunOut hne =>
    -- the scripts read another status than the record has
    have hrefused : s.Refused id := not_not.mp fun hr => by
      rw [← Store.statusText_eq hr] at hs
      exact absurd hs (not_or.mpr hne)
    refine ⟨fun x => ?_, fun x => ?_⟩
    · by_cases hx : x = id
      · subst hx
        exact .lost (hd.2.resolve_right fun hd => hd hrunOut hrefused) hrefused (by simp [Library.dropClaim])
          (by simp [Library.dropClaim]) hp
      · obtain ⟨h₁, h₂, h₃⟩ := hother x hx
        exact (h x).congr h₁ h₂ h₃ rfl
    · by_cases hx : x = id
      · exact .inr (by simp [Library.dropClaim, hx])
      · exact .inl ⟨(hother x hx).1, (hother x hx).2.1⟩
  | error _ _ _ _ => exact ⟨h, fun x => .inl ⟨rfl, rfl⟩⟩
  | @recovered rawEntry raw _ _ hst he =>
    have hq : statusText (some raw) = some "queued" := by
      rcases hst with hst | hst <;> exact Library.statusText_of_recovered hst he
    have hreq := Library.requeued hre (Library.resetEntry (Cjson.table rawEntry))
      ((s.claims.get? id).bind Cjson.decode) now id raw s
    have hpl := hreq.places (none_of_places hp).2.2.1
    refine ⟨fun x => ?_, fun x => ?_⟩
    · by_cases hx : x = id
      · subst hx
        refine .waiting ?_ (by rw [hreq.claims]; simp) (by rw [hreq.leases]; simp) ?_
        · rw [hreq.records, Dict.get?_set, if_pos rfl, recordStatus_of_statusText hq]
        · rw [hpl x, hp, if_pos rfl]
      · obtain ⟨h₁, h₂, h₃⟩ := hother x hx
        exact (h x).congr h₁ h₂ h₃ (by rw [hpl x, if_neg hx, Nat.add_zero])
    · by_cases hx : x = id
      · exact .inr (by rw [hreq.claims]; simp [hx])
      · exact .inl ⟨(hother x hx).1, (hother x hx).2.1⟩

theorem recover (h : LocationInv lossy s) (kind : QueueKind) {batch : ℕ} {t : ServerTime}
    (hd : lossy ∨ ClaimsReadable batch t.nowUs s) :
    LocationInv lossy (arecover kind batch t s).2 ∧ Kept s (arecover kind batch t s).2 := by
  let I (rest : List EntryId) (m : Store) : Prop :=
    LocationInv lossy m ∧ Kept s m ∧ rest.Nodup ∧ ∀ e ∈ rest, Recoverable lossy t.nowUs m e
  have hstep : ∀ redeliver, Library.Redelivers redeliver → ∀ id rest m, I (id :: rest) m →
      I rest (Library.recoverOne redeliver t.nowUs id m).2 := by
    rintro redeliver hre id rest m ⟨hm, hk, hn, hl⟩
    rw [List.nodup_cons] at hn
    obtain ⟨h₁, h₂⟩ := hm.recoverOne hre (hl id (List.mem_cons_self ..))
    refine ⟨h₁, fun e => ?_, hn.2, fun e he => ?_⟩
    · rcases h₂ e with ⟨hr, hc⟩ | hc
      · rw [hr, hc]
        exact hk e
      · exact .inr hc
    · exact (hl e (List.mem_cons_of_mem _ he)).recoverOne hre fun heq => hn.1 (heq ▸ he)
  obtain ⟨rest, h₁, h₂, -⟩ := arecover_rule hstep kind batch
    ⟨h, fun _ => .inl ⟨rfl, rfl⟩, nodup_dueClaims batch t.nowUs s, fun _ => recoverable_of_due hd⟩
  exact ⟨h₁, h₂⟩

end LocationInv

end DjangoQueues.Redis
