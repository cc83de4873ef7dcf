import DjangoQueues.Recode
import DjangoQueues.Redis.Delivery

/-! A claim that is renewed on time. The deadline inside a claim record has 14 significant
digits, and both `django_queue_renew` and `django_queue_recover` decide by it, so a renewal
has to come 50 microseconds before the end of its lease. The worker sleeps at most three
quarters of a lease between two renewals, which leaves a quarter for being late. -/

namespace DjangoQueues.Redis

open Rounding

variable {cls : EntryClass} {kind : QueueKind} {s s' : Store} {e : EntryId} {w : WorkerId} {t t₁ : ServerTime}
  {d : ℚ}

/-! ## The worker's schedule -/

/-- `_SHORT_LEASE_SECONDS`. -/
def shortLeaseSeconds : ℚ := 60

/-- `_MEDIUM_LEASE_SECONDS`. -/
def mediumLeaseSeconds : ℚ := 600

/-- `_renewal_delay`, in seconds. -/
def renewalDelay (leaseSeconds : ℚ) : ℚ :=
  if leaseSeconds ≤ shortLeaseSeconds then fl (leaseSeconds / 2)
  else if leaseSeconds ≤ mediumLeaseSeconds then fl (fl (leaseSeconds * 2) / 3)
  else fl (fl (leaseSeconds * 3) / 4)

/-- The lease `arenew` passes to the script. -/
def leaseMicroseconds (leaseSeconds : ℚ) : ℕ := (halfEven (fl (leaseSeconds * 1000000))).toNat

/-- The worker sleeps no longer than three quarters of the lease, rounding aside. -/
theorem renewalDelay_le {leaseSeconds : ℚ} (hpos : 0 < leaseSeconds) (hlt : leaseSeconds < 2 ^ 33) :
    renewalDelay leaseSeconds * 1000000 ≤ leaseSeconds * 750000 + 1 := by
  unfold renewalDelay
  split_ifs with hshort hmedium
  · have herr := abs_le.mp (abs_fl_sub_le (x := leaseSeconds / 2) (k := 33)
      (by rw [abs_of_pos (by positivity)]; norm_num at hlt ⊢; linarith) (by norm_num))
    norm_num at herr
    linarith
  · have hinner := abs_le.mp (abs_fl_sub_le (x := leaseSeconds * 2) (k := 34)
      (by rw [abs_of_pos (by positivity)]; norm_num at hlt ⊢; linarith) (by norm_num))
    have hnonneg := fl_nonneg (x := leaseSeconds * 2) (by positivity)
    norm_num at hinner hlt
    have herr := abs_le.mp (abs_fl_sub_le (x := fl (leaseSeconds * 2) / 3) (k := 33)
      (by rw [abs_of_nonneg (by positivity)]; norm_num; linarith) (by norm_num))
    norm_num at herr
    linarith
  · have hinner := abs_le.mp (abs_fl_sub_le (x := leaseSeconds * 3) (k := 35)
      (by rw [abs_of_pos (by positivity)]; norm_num at hlt ⊢; linarith) (by norm_num))
    have hnonneg := fl_nonneg (x := leaseSeconds * 3) (by positivity)
    norm_num at hinner hlt
    have herr := abs_le.mp (abs_fl_sub_le (x := fl (leaseSeconds * 3) / 4) (k := 33)
      (by rw [abs_of_nonneg (by positivity)]; norm_num; linarith) (by norm_num))
    norm_num at herr
    linarith

theorem le_leaseMicroseconds {leaseSeconds : ℚ} (hpos : 0 < leaseSeconds) (hlt : leaseSeconds < 2 ^ 33) :
    leaseSeconds * 1000000 - 1 ≤ leaseMicroseconds leaseSeconds := by
  have herr := abs_le.mp (abs_fl_sub_le (x := leaseSeconds * 1000000) (k := 53)
    (by rw [abs_of_pos (by positivity)]; norm_num at hlt ⊢; linarith) (by norm_num))
  have hround := abs_le.mp (abs_halfEven_sub_le (fl (leaseSeconds * 1000000)))
  have hle : (halfEven (fl (leaseSeconds * 1000000)) : ℚ) ≤ leaseMicroseconds leaseSeconds := by
    exact_mod_cast Int.self_le_toNat _
  norm_num at herr
  linarith

theorem leaseMicroseconds_lt {leaseSeconds : ℚ} (hpos : 0 < leaseSeconds) (hlt : leaseSeconds < 2 ^ 33) :
    leaseMicroseconds leaseSeconds < 2 ^ 53 := by
  have herr := abs_le.mp (abs_fl_sub_le (x := leaseSeconds * 1000000) (k := 53)
    (by rw [abs_of_pos (by positivity)]; norm_num at hlt ⊢; linarith) (by norm_num))
  have hround := abs_le.mp (abs_halfEven_sub_le (fl (leaseSeconds * 1000000)))
  norm_num at herr hlt
  have hbound : halfEven (fl (leaseSeconds * 1000000)) < 2 ^ 53 := by
    have : (halfEven (fl (leaseSeconds * 1000000)) : ℚ) < 2 ^ 53 := by
      norm_num
      linarith
    exact_mod_cast this
  unfold leaseMicroseconds
  omega

/-! ## The deadline of a claim record -/

/-- What a script reads back of the deadline it wrote into a claim record. -/
def readBack (deadline : ℚ) : ℚ := fl (decimal14.round deadline)

theorem natCast_le_fl_of_le {n : ℕ} {x : ℚ} (hn : n < 2 ^ 53) (h : n ≤ x) : n ≤ fl x := by
  rw [← fl_natCast hn]
  exact fl_le_fl (Nat.cast_nonneg n) h

theorem natCast_le_deadline {n lease : ℕ} (hn : n < 2 ^ 53) (h : n ≤ t.totalMicroseconds + lease) :
    n ≤ fl (t.nowUs + fl lease) := by
  apply natCast_le_fl_of_le hn
  rw [t.nowUs_eq]
  rcases lt_or_ge lease (2 ^ 53) with hl | hl
  · rw [fl_natCast hl]
    exact_mod_cast h
  · have hl' := two_pow_le_fl (x := lease) (m := 53) (by exact_mod_cast hl)
    have hn' : (n : ℚ) < 2 ^ 53 := by exact_mod_cast hn
    have htotal : (0 : ℚ) ≤ t.totalMicroseconds := Nat.cast_nonneg _
    linarith

/-- Below 10^16 the printed deadline is off by at most 50 microseconds. -/
theorem natCast_le_readBack {n : ℕ} (hn : n < 2 ^ 53) (h : (n : ℚ) + 50 ≤ d) : n ≤ readBack d := by
  apply natCast_le_fl_of_le hn
  have hb : ((decimal14.base : ℕ) : ℚ) = 10 := rfl
  have hpos : (0 : ℚ) ≤ d := by
    have := Nat.cast_nonneg (α := ℚ) n
    linarith
  rcases lt_or_ge d (10 ^ 16) with hlt | hge
  · have herr := abs_le.mp (decimal14.abs_round_sub_le_zpow (x := d) (k := 16)
      (by rw [hb, abs_of_nonneg hpos]; exact_mod_cast hlt) (by simp [decimal14]))
    have hdigits : (decimal14.digits : ℤ) = 14 := rfl
    rw [hb, hdigits] at herr
    norm_num at herr
    linarith
  · have hround := decimal14.zpow_le_round (x := d) (m := 16) (by rw [hb]; exact_mod_cast hge)
    rw [hb] at hround
    have hn' : (n : ℚ) < 2 ^ 53 := by exact_mod_cast hn
    norm_num at hround
    linarith

/-- A server time more than 50 microseconds before the end of a lease is before the deadline
that is read back from the claim record. -/
theorem nowUs_lt_readBack {t' : ServerTime} {lease : ℕ}
    (h : t'.totalMicroseconds + 50 < t.totalMicroseconds + lease) :
    t'.nowUs < readBack (fl (t.nowUs + fl lease)) := by
  have hlt := t'.total_lt
  have hdead : ((t'.totalMicroseconds + 51 : ℕ) : ℚ) ≤ fl (t.nowUs + fl lease) :=
    natCast_le_deadline (by omega) (by omega)
  have hread : ((t'.totalMicroseconds + 1 : ℕ) : ℚ) ≤ readBack (fl (t.nowUs + fl lease)) := by
    apply natCast_le_readBack (by omega)
    push_cast at hdead ⊢
    linarith
  rw [t'.nowUs_eq]
  push_cast at hread
  linarith

theorem deadline_nonneg (t : ServerTime) (lease : ℕ) : 0 ≤ fl (t.nowUs + fl lease) := by
  apply fl_nonneg
  rw [t.nowUs_eq]
  exact add_nonneg (Nat.cast_nonneg _) (fl_nonneg (Nat.cast_nonneg _))

theorem deadline_lt (t : ServerTime) {lease : ℕ} (hl : lease < 2 ^ 53) : fl (t.nowUs + fl lease) < 2 ^ 55 := by
  have hnow := t.total_lt_exact
  rw [t.nowUs_eq, fl_natCast hl]
  have hsum : (t.totalMicroseconds : ℚ) + lease < 2 ^ 54 := by
    exact_mod_cast (by omega : t.totalMicroseconds + lease < 2 ^ 54)
  have herr := abs_le.mp (abs_fl_sub_le (x := t.totalMicroseconds + lease) (k := 54)
    (by rw [abs_of_nonneg (by positivity)]; exact_mod_cast hsum) (by norm_num))
  norm_num at herr hsum ⊢
  linarith

theorem leaseFits_of_lease_lt (t : ServerTime) {lease : ℕ} (hl : lease < 2 ^ 53) : Library.LeaseFits t lease := by
  rw [Library.LeaseFits, abs_of_nonneg (deadline_nonneg t lease)]
  exact (deadline_lt t hl).trans (pow_lt_pow_right₀ (by norm_num) (by norm_num))

theorem abs_readBack_lt (t : ServerTime) {lease : ℕ} (hl : lease < 2 ^ 53) :
    |readBack (fl (t.nowUs + fl lease))| < 2 ^ 1024 := by
  have hb : ((decimal14.base : ℕ) : ℚ) = 10 := rfl
  have hdigits : (decimal14.digits : ℤ) = 14 := rfl
  have hnonneg := deadline_nonneg t lease
  have hlt := deadline_lt t hl
  generalize fl (t.nowUs + fl lease) = d at hnonneg hlt ⊢
  norm_num at hlt
  have hround := decimal14.round_nonneg hnonneg
  have herr := abs_le.mp (decimal14.abs_round_sub_le_zpow (x := d) (k := 17)
    (by rw [hb, abs_of_nonneg hnonneg]; norm_num; linarith) (by simp [decimal14]))
  rw [hb, hdigits] at herr
  norm_num at herr
  have herr' := abs_le.mp (abs_fl_sub_le (x := decimal14.round d) (k := 57)
    (by rw [abs_of_nonneg hround]; norm_num; linarith) (by norm_num))
  norm_num at herr'
  have hbound : fl (decimal14.round d) < 2 ^ 60 := by
    norm_num
    linarith
  rw [readBack, abs_of_nonneg (fl_nonneg hround)]
  exact hbound.trans (pow_lt_pow_right₀ (by norm_num) (by norm_num))

/-- The deadline is a finite binary64 number, also as it is read back. -/
structure DeadlineFits (d : ℚ) : Prop where
  exact : fl d = d
  written : |d| < 2 ^ 1024
  read : |readBack d| < 2 ^ 1024

theorem deadlineFits (t : ServerTime) {lease : ℕ} (hl : lease < 2 ^ 53) : DeadlineFits (fl (t.nowUs + fl lease)) where
  exact := fl_fl _
  written := leaseFits_of_lease_lt t hl
  read := abs_readBack_lt t hl

/-! ## Claim records -/

theorem toDouble_print14 (q : ℚ) : (print14 q).toDouble = .ofRat (decimal14.round q) := by
  unfold print14
  dsimp only
  split_ifs with h
  · rw [PyNum.toDouble, Rat.coe_int_num_of_den_eq_one h.1]
  · rfl

theorem toDouble_print14_natCast {n : ℕ} (h : n < 10 ^ 14) : (print14 n).toDouble = .ofRat n := by
  rw [toDouble_print14]
  exact congrArg Double.ofRat (decimal14.round_natCast h)

theorem tonumber_ofRat {q : ℚ} (h : |fl q| < 2 ^ 1024) : tonumber (some (.num (.ofRat q))) = some (fl q) := by
  rw [Double.ofRat, dif_pos h]
  rfl

/-- Writing a claim and reading it back changes the deadline only. -/
theorem exists_claimTable_raw (w : WorkerId) (t₁ : ServerTime) (hd : DeadlineFits d) :
    ∃ raw, Cjson.encode (Library.claimTable w t₁ d none) = some raw ∧
      Cjson.decode raw = some (Library.claimTable w t₁ (decimal14.round d) none) := by
  have hs := t₁.seconds_lt
  have hu := t₁.microseconds_lt
  have hdead := Double.encode_ofRat (q := d) (by rw [hd.exact]; exact hd.written)
  rw [hd.exact] at hdead
  have hwritten : ∃ raw, Cjson.encode (Library.claimTable w t₁ d none) = some raw ∧
      Cjson.table raw = Library.claimTable w t₁ (decimal14.round d) none := by
    simp only [Library.claimTable, Cjson.encode, Cjson.encodeFields,
      Double.encode_ofRat_natCast (by omega : t₁.seconds < 2 ^ 53),
      Double.encode_ofRat_natCast (by omega : t₁.microseconds < 2 ^ 53), hdead, Option.bind_some, Option.map_some]
    refine ⟨_, rfl, ?_⟩
    simp only [Cjson.table, JValue.map, JValue.mapFields, toDouble_print14,
      toDouble_print14_natCast (by omega : t₁.seconds < 10 ^ 14),
      toDouble_print14_natCast (by omega : t₁.microseconds < 10 ^ 14)]
  obtain ⟨raw, henc, htable⟩ := hwritten
  exact ⟨raw, henc, by rw [Library.decode_claimTable henc, htable]⟩

/-- The claim of `e` is the one `w` took at `t₁`, with the deadline `d` written last. -/
structure Leased (s : Store) (e : EntryId) (w : WorkerId) (t₁ : ServerTime) (d : ℚ) : Prop where
  fits : DeadlineFits d
  claim : s.claims.get? e = Cjson.encode (Library.claimTable w t₁ d none)

namespace Leased

theorem congr (h : Leased s e w t₁ d) (hc : s'.claims.get? e = s.claims.get? e) : Leased s' e w t₁ d :=
  ⟨h.fits, hc.trans h.claim⟩

theorem exists_raw (h : Leased s e w t₁ d) : ∃ raw, s.claims.get? e = some raw ∧
    Cjson.decode raw = some (Library.claimTable w t₁ (decimal14.round d) none) := by
  obtain ⟨raw, he, hdec⟩ := exists_claimTable_raw w t₁ h.fits
  exact ⟨raw, h.claim.trans he, hdec⟩

theorem owner (h : Leased s e w t₁ d) : s.owner? e = some w := by
  obtain ⟨raw, hraw, hdec⟩ := h.exists_raw
  rw [Store.owner?, hraw, Option.bind_some, hdec]
  rfl

theorem isSome (h : Leased s e w t₁ d) : (s.claims.get? e).isSome := by
  obtain ⟨raw, hraw, -⟩ := h.exists_raw
  rw [hraw]
  rfl

theorem ownClaim (h : Leased s e w t₁ d) :
    s.ownClaim? e w = some (Library.claimTable w t₁ (decimal14.round d) none) := by
  obtain ⟨raw, hraw, hdec⟩ := h.exists_raw
  exact Store.ownClaim?_eq_some.mpr ⟨raw, hraw, hdec, h.owner⟩

theorem claimDeadline (h : Leased s e w t₁ d) : Library.claimDeadline? s e = some (readBack d) := by
  obtain ⟨raw, hraw, hdec⟩ := h.exists_raw
  rw [Library.claimDeadline?, hraw, Option.bind_some, hdec]
  exact tonumber_ofRat h.fits.read

/-- A renewal before the deadline that is read back succeeds and writes the new one. -/
theorem renew (h : Leased s e w t₁ d) (ht : t.nowUs < readBack d) {lease : ℕ} (hl : lease < 2 ^ 53) :
    (Library.renew w lease e t s).1 = .ok true ∧
      Leased (Library.renew w lease e t s).2 e w t₁ (fl (t.nowUs + fl lease)) := by
  have hnew := deadlineFits t hl
  obtain ⟨raw, hraw, -⟩ := exists_claimTable_raw w t₁ hnew
  have hcur : tonumber ((Library.claimTable w t₁ (decimal14.round d) none).field? "lease_deadline") =
      some (readBack d) := tonumber_ofRat h.fits.read
  have hset : (Library.claimTable w t₁ (decimal14.round d) none).setField "lease_deadline"
      (.num (.ofRat (fl (t.nowUs + fl lease)))) = Library.claimTable w t₁ (fl (t.nowUs + fl lease)) none := rfl
  have heq : Library.renew w lease e t s = (.ok true, { s with
      claims := s.claims.set e raw, leases := s.leases.add e (fl (t.nowUs + fl lease)) }) := by
    simp only [Library.renew, h.ownClaim, hcur, not_le.mpr ht, if_false, hset, hraw]
  rw [heq]
  exact ⟨rfl, hnew, by simp [hraw]⟩

/-- Recovery before the deadline that is read back leaves the claim, also where the one in
the lease index has passed. -/
theorem recover (h : Leased s e w t₁ d) (ht : t.nowUs < readBack d) (kind : QueueKind) (batch : ℕ) :
    Leased (arecover kind batch t s).2 e w t₁ d := by
  have hstep : ∀ redeliver, Library.Redelivers redeliver → ∀ id (_ : List EntryId) m,
      Leased m e w t₁ d → Leased (Library.recoverOne redeliver t.nowUs id m).2 e w t₁ d := by
    intro redeliver hre id _ m hm
    by_cases he : e = id
    · subst he
      have hdead := hm.claimDeadline
      have hcase := Library.recoverOne_case redeliver t.nowUs e m
      generalize Library.recoverOne redeliver t.nowUs e m = r at hcase
      cases hcase with
      | kept => exact hm.congr rfl
      | discarded hd => exact absurd (hd _ hdead) (not_le.mpr ht)
      | error hd => exact absurd (hd _ hdead) (not_le.mpr ht)
      | recovered hd => exact absurd (hd _ hdead) (not_le.mpr ht)
    · exact hm.congr (Library.recoverOne_other hre t.nowUs he m).2.1
  obtain ⟨-, hres⟩ := arecover_rule (I := fun _ m => Leased m e w t₁ d) hstep kind batch h
  exact hres

theorem of_ownClaimOnly {w' : WorkerId} {id : EntryId} {ok : Prop} (h : Leased s e w t₁ d)
    (ho : OwnClaimOnly w' id s ok s') (hno : id = e → w' = w → ¬ok) : Leased s' e w t₁ d := by
  rcases ho with rfl | ⟨hok, howner, hother⟩
  · exact h
  · apply h.congr (hother e _).1
    rintro rfl
    exact hno rfl (Option.some.inj (howner.symm.trans h.owner)) hok

end Leased

theorem leased_of_claimed {lease : ℕ} (hl : lease < 2 ^ 53)
    (h : aclaim kind w lease false t s = (.ok (.claimed e), s')) :
    Leased s' e w t (fl (t.nowUs + fl lease)) := by
  rcases aclaim_cases kind w lease false t s with hr | ⟨id, p, f, g, k, -, ha, hr⟩
  · cases h.symm.trans hr
  · have hcase := Library.claimPopped_case w lease false t id f g k p
    rw [← hr, h] at hcase
    cases hcase with
    | @claimed _ _ raw hq he _ =>
      cases hq
      obtain ⟨q, hg⟩ := ha.claimed_eq { p with
        claims := p.claims.set e raw, leases := p.leases.add e (fl (t.nowUs + fl lease)) }
      rw [hg]
      exact ⟨deadlineFits t hl, by simp [he]⟩

/-! ## Whole runs -/

/-- The call renews the claim of `w` on `e`. -/
def Renews (w : WorkerId) (e : EntryId) (c : Call cls) : Prop := ∃ lease, c = .renew w lease e

/-- A call of the protocol before the deadline that is read back leaves the claim of `w`,
unless `w` itself renews it or gives it up. -/
theorem Leased.exec {c : Call cls} (h : Leased s e w t₁ d) (hok : ClaimProtocol s c) (hr : ¬Renews w e c)
    (hu : ¬GivesUp w e ⟨c, t, (exec kind c t s).1⟩) (ht : t.nowUs < readBack d) :
    Leased (exec kind c t s).2 e w t₁ d := by
  cases c with
  | enqueue x a => exact h.congr (by rw [Redis.exec, (astoreAndPush_frame x a t s).1])
  | claim w' lease x =>
    obtain rfl : x = false := hok
    exact h.congr ((aclaim_frame kind w' lease t s).2 e h.isSome).1
  | renew w' lease id =>
    apply h.of_ownClaimOnly (renew_ownClaimOnly w' lease id t s)
    rintro rfl rfl -
    exact hr ⟨lease, rfl⟩
  | markRunning w' x =>
    rcases Library.markRunning_cases w' x.id x.toDict s with ⟨hno, -⟩ | ⟨-, -, hyes⟩
    · exact h.congr (by simp only [Redis.exec, hno])
    · exact h.congr (by simp only [Redis.exec, hyes])
  | settle w' x =>
    apply h.of_ownClaimOnly (settle_ownClaimOnly w' x.id x.toDict s)
    rintro hx rfl hyes
    apply hu
    simp only [Redis.exec, hyes]
    exact .settle x hx t
  | release w' id delay =>
    apply h.of_ownClaimOnly (arelease_ownClaimOnly kind w' id delay t s)
    rintro rfl rfl hyes
    apply hu
    simp only [Redis.exec, hyes]
    exact .release delay t
  | ack w' id =>
    apply h.of_ownClaimOnly (ack_ownClaimOnly w' id s)
    rintro rfl rfl hyes
    apply hu
    simp only [Redis.exec, hyes]
    exact .ack t
  | recover batch => exact h.recover ht kind batch
  | _ => cases hok

/-- No claim hands out an entry that is claimed. -/
theorem claimed_ne_of_isSome {lease : ℕ} {w' : WorkerId} (h : (s.claims.get? e).isSome) (kind : QueueKind)
    (t : ServerTime) : (aclaim kind w' lease false t s).1 ≠ .ok (.claimed e) := by
  intro hc
  rcases aclaim_cases kind w' lease false t s with hr | ⟨id, p, f, g, k, ht, -, hr⟩
  · cases hc.symm.trans (congrArg Prod.fst hr)
  · have hcase := Library.claimPopped_case w' lease false t id f g k p
    rw [← hr] at hcase
    generalize aclaim kind w' lease false t s = res at hcase hc
    cases hcase with
    | expired hx => cases hx
    | error hq => cases hc
    | conflict hq => cases hc
    | claimed hq _ hnone =>
      cases hq
      cases hc
      rw [ht.toSameData.claims, (prepare_sameData kind t s).claims] at hnone
      simp [hnone] at h

/-- What the other workers see of an entry while `w` holds it. -/
structure Excludes (w : WorkerId) (e : EntryId) (l : Event cls) : Prop where
  claim : ∀ w' lease x, l.call = .claim w' lease x → l.reply ≠ .claimed (.ok (.claimed e))
  refused : ∀ w' r, w' ≠ w → OwnerCall w' e l.call r → l.reply = r

theorem Leased.excludes {l : Event cls} {g g' : Timed} (h : Leased g.store e w t₁ d)
    (hs : Occurs kind ClaimProtocol g l g') : Excludes w e l where
  claim w' lease x hcall hreply := by
    have hok := hs.ok
    have hex := congrArg Prod.fst hs.exec_eq
    rw [hcall] at hok hex
    obtain rfl : x = false := hok
    rw [hreply] at hex
    exact claimed_ne_of_isSome h.isSome kind l.time (Reply.claimed.inj hex)
  refused w' r hw hc := by
    have hex := refused_of_not_owner (s := g.store) (w := w')
      (by rw [h.owner]; exact fun he => hw (Option.some.inj he).symm) hc kind l.time
    exact congrArg Prod.fst (hs.exec_eq.symm.trans hex)

/-- The calls of `w` on the entry it claimed, between those of all others: it renews with its
own lease, each time at most `late` microseconds after the delay it slept since the lease
`current` was granted at `last`. -/
inductive Punctual (w : WorkerId) (e : EntryId) (lease late : ℚ) : ServerTime → ℚ → List (Event cls) → Prop
  | nil (last : ServerTime) (current : ℚ) : Punctual w e lease late last current []
  | renewed {last t : ServerTime} {current : ℚ} {r : Reply} {ls : List (Event cls)}
      (ht : t.nowUs ≤ last.nowUs + renewalDelay current * 1000000 + late)
      (h : Punctual w e lease late t lease ls) :
    Punctual w e lease late last current (⟨.renew w (leaseMicroseconds lease) e, t, r⟩ :: ls)
  | other {last : ServerTime} {current : ℚ} {l : Event cls} {ls : List (Event cls)}
      (hr : ¬Renews w e l.call) (hu : ¬GivesUp w e l)
      (ht : l.time.nowUs ≤ last.nowUs + renewalDelay current * 1000000 + late)
      (h : Punctual w e lease late last current ls) :
    Punctual w e lease late last current (l :: ls)

/-- The lease leaves room for being late. -/
structure Roomy (late lease : ℚ) : Prop where
  pos : 0 < lease
  lt : lease < 2 ^ 33
  room : late + 60 ≤ lease * 250000

theorem Roomy.nowUs_lt {late current : ℚ} (h : Roomy late current) {last t : ServerTime}
    (ht : t.nowUs ≤ last.nowUs + renewalDelay current * 1000000 + late) :
    t.nowUs < readBack (fl (last.nowUs + fl (leaseMicroseconds current))) := by
  apply nowUs_lt_readBack
  have hdelay := renewalDelay_le h.pos h.lt
  have hlease := le_leaseMicroseconds h.pos h.lt
  have hroom := h.room
  rw [t.nowUs_eq, last.nowUs_eq] at ht
  have hlt : (t.totalMicroseconds : ℚ) + 50 < last.totalMicroseconds + leaseMicroseconds current := by linarith
  exact_mod_cast hlt

theorem Leased.run {lease late current : ℚ} {last : ServerTime} {ls : List (Event cls)} {g g' : Timed}
    (hrun : Run (Occurs kind ClaimProtocol) g ls g') (hlease : Roomy late lease) (hcur : Roomy late current)
    (h : Leased g.store e w t₁ (fl (last.nowUs + fl (leaseMicroseconds current))))
    (hp : Punctual w e lease late last current ls) :
    (∀ l ∈ ls, Excludes w e l ∧ (Renews w e l.call → l.reply = .renewed (.ok true))) ∧
      g'.store.owner? e = some w := by
  induction hrun generalizing last current with
  | nil _ => exact ⟨by simp, h.owner⟩
  | @cons g g₁ _ l ls hs _ ih =>
    have hex := h.excludes hs
    have hstore : (Redis.exec kind l.call l.time g.store).2 = g₁.store := by rw [hs.exec_eq]
    cases hp with
    | @renewed _ t _ r _ ht hp =>
      obtain ⟨hok, hnext⟩ := h.renew (hcur.nowUs_lt ht) (leaseMicroseconds_lt hlease.pos hlease.lt)
      have hreply : r = .renewed (.ok true) := by
        rw [← hok]
        exact (congrArg Prod.fst hs.exec_eq).symm
      obtain ⟨h₁, h₂⟩ := ih hlease (hstore ▸ hnext) hp
      exact ⟨List.forall_mem_cons.mpr ⟨⟨hex, fun _ => hreply⟩, h₁⟩, h₂⟩
    | other hr hu ht hp =>
      have hreply : (Redis.exec kind l.call l.time g.store).1 = l.reply := by rw [hs.exec_eq]
      have hnext : Leased (Redis.exec kind l.call l.time g.store).2 e w t₁ _ :=
        h.exec hs.ok hr (by rw [hreply]; exact hu) (hcur.nowUs_lt ht)
      obtain ⟨h₁, h₂⟩ := ih hcur (hstore ▸ hnext) hp
      exact ⟨List.forall_mem_cons.mpr ⟨⟨hex, fun h => absurd h hr⟩, h₁⟩, h₂⟩

/-- A worker that renews its claim after each `_renewal_delay`, less than a quarter of the
lease late, keeps it through every interleaving with other workers and with recovery: each
of its renewals succeeds, nobody else is given the entry, and every other worker's call on
it is refused. -/
theorem punctual_worker_keeps_claim (kind : QueueKind) (t₀ : ServerTime) {ls : List (Event cls)} {g : Timed}
    (hrun : Run (Occurs kind ClaimProtocol) (.init t₀) ls g) (before after : List (Event cls))
    {claimLease lease late : ℚ} (hls : ls = before ++
      ⟨.claim w (leaseMicroseconds claimLease) false, t, .claimed (.ok (.claimed e))⟩ :: after)
    (hclaim : Roomy late claimLease) (hlease : Roomy late lease)
    (hp : Punctual w e lease late t claimLease after) :
    (∀ l ∈ after, Excludes w e l ∧ (Renews w e l.call → l.reply = .renewed (.ok true))) ∧
      g.store.owner? e = some w := by
  subst hls
  obtain ⟨g₁, -, hrest⟩ := hrun.of_append
  cases hrest with
  | @cons _ g₂ _ _ _ hs hrest =>
    have hc : aclaim kind w (leaseMicroseconds claimLease) false t g₁.store =
        (.ok (.claimed e), g₂.store) := by
      simpa [exec, Prod.ext_iff] using hs.exec_eq
    exact (leased_of_claimed (leaseMicroseconds_lt hclaim.pos hclaim.lt) hc).run hrest hlease hclaim hp

theorem second_1400 : 1400 < 2 ^ 33 := by norm_num

theorem second_1700 : 1700 < 2 ^ 33 := by norm_num

theorem eq_of_givesUp_release {w' : WorkerId} {id : EntryId} {delay : ℕ} {r : Reply}
    (h : GivesUp w e (⟨.release w' id delay, t, r⟩ : Event cls)) : w' = w := by
  cases h
  rfl

/-- Ten minutes of lease, renewed after the 400 seconds the worker sleeps: another worker claims and finds nothing,
its calls on the entry are refused, and a recovery after the end of the first lease leaves the claim. -/
theorem punctual_worker_keeps_claim_contested :
    let t : ServerTime := .ofSeconds 1000 ServerTime.second_1000
    let t' : ServerTime := .ofSeconds 1400 second_1400
    let t'' : ServerTime := .ofSeconds 1700 second_1700
    let lease := leaseMicroseconds 600
    let taken : List (Call .base × ServerTime) :=
      [(.enqueue (.plain (.ofLast 1) .null) none, t), (.claim "w" lease false, t)]
    let after : List (Call .base × ServerTime) :=
      [(.renew "w" lease (.ofLast 1), t'), (.claim "v" lease false, t'), (.release "v" (.ofLast 1) 0, t''),
        (.recover 100, t'')]
    ∃ g, Run (Occurs .fifo ClaimProtocol) (.init t) (history .fifo (taken ++ after) .empty) g ∧
      g.store.owner? (.ofLast 1) = some "w" ∧
      ∀ l ∈ history .fifo after (execAll .fifo taken .empty), Excludes "w" (.ofLast 1) l := by
  intro t t' t'' lease taken after
  let s := (exec .fifo (.enqueue (.plain (.ofLast 1) .null) none : Call .base) t .empty).2
  have hclaim : (aclaim .fifo "w" lease false t s).1 = .ok (.claimed (.ofLast 1)) := by decide +kernel
  have hroomy : Roomy 0 600 := ⟨by norm_num, by norm_num, by norm_num⟩
  have hpermits : Permits .fifo ClaimProtocol (taken ++ after) (.init t) :=
    ⟨t.le_refl, ⟨rfl, rfl⟩, t.le_refl, rfl, (by decide : t ≤ t'), trivial, t'.le_refl, rfl,
      (by decide : t' ≤ t''), trivial, t''.le_refl, trivial, trivial⟩
  obtain ⟨g, hrun⟩ := run_history hpermits
  have hsplit : history .fifo (taken ++ after) .empty = [⟨.enqueue (.plain (.ofLast 1) .null) none, t, .done⟩] ++
      ⟨.claim "w" lease false, t, .claimed (.ok (.claimed (.ofLast 1)))⟩ ::
        history .fifo after (execAll .fifo taken .empty) := by
    rw [← hclaim]
    rfl
  have hpunctual : Punctual "w" (.ofLast 1) 600 0 t 600 (history .fifo after (execAll .fifo taken .empty)) := by
    refine .renewed (by decide +kernel) (.other ?_ ?_ (by decide +kernel) (.other ?_ ?_ (by decide +kernel)
      (.other ?_ ?_ (by decide +kernel) (.nil _ _))))
    · exact fun ⟨_, h⟩ => by cases h
    · exact fun h => by cases h
    · exact fun ⟨_, h⟩ => by cases h
    · exact fun h => absurd (eq_of_givesUp_release h) (by decide)
    · exact fun ⟨_, h⟩ => by cases h
    · exact fun h => by cases h
  obtain ⟨hafter, howner⟩ := punctual_worker_keeps_claim .fifo t hrun _ _ hsplit hroomy hroomy hpunctual
  exact ⟨g, hrun, howner, fun l hl => (hafter l hl).1⟩

end DjangoQueues.Redis
