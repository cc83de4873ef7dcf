import DjangoQueues.Lib.Run
import DjangoQueues.Recode
import DjangoQueues.Redis.Ownership

/-! Event queues on Redis. An event has a deadline by which it must have been consumed; the
time it spends claimed does not count. The remaining lifetime moves from the unclaimed
deadlines into the claim record and back, and inside the claim record it is printed with 14
significant digits. As long as no step rounds, the deadline of an event is its first deadline
plus the time it has spent claimed, and it disappears before that only when it is consumed. -/

namespace DjangoQueues.Redis

variable {cls : EntryClass}

inductive EventCall (cls : EntryClass) where
  | store (e : QueueEntry cls) (deadline : ℕ)
  | claim (w : WorkerId) (lease : ℕ)
  | renew (w : WorkerId) (lease : ℕ) (id : EntryId)
  | release (w : WorkerId) (id : EntryId) (delay : ℕ)
  | remove (w : WorkerId) (id : EntryId)
  | recover (batch : ℕ)
  | expire (id : EntryId)
  | dequeue

inductive EventReply where
  | done
  | flag (b : Bool)
  | claimed (r : Except ScriptError ClaimOutcome)
  | renewed (r : Except ScriptError Bool)
  | recovered (r : Except ScriptError (ℕ × ℕ))
  | dequeued (raw : Option Json)

def execEvent (stack : Bool) (c : EventCall cls) (t : ServerTime) (s : Store) : EventReply × Store :=
  match c with
  | .store e deadline => (.done, Library.storeEventAndPush e.toDict e.id deadline s)
  | .claim w lease => let r := Library.claim w lease stack true t s; (.claimed r.1, r.2)
  | .renew w lease id => let r := Library.renew w lease id t s; (.renewed r.1, r.2)
  | .release w id delay => let r := Library.release w id delay t s; (.flag r.1, r.2)
  | .remove w id => let r := Library.remove w id s; (.flag r.1, r.2)
  | .recover batch => let r := Library.recover batch t s; (.recovered r.1, r.2)
  | .expire id => let r := Library.expire id t s; (.flag r.1, r.2)
  | .dequeue => let r := Library.dequeueEvent stack t s; (.dequeued r.1, r.2)

/-! ## Time spent claimed -/

/-- What an observer notes about each event: its first deadline, the time it has spent
claimed in periods that have ended, and the time of its latest claim. -/
structure Ledger where
  initial : EntryId → ℚ
  spent : EntryId → ℚ
  since : EntryId → ℚ

namespace Ledger

def empty : Ledger := ⟨fun _ => 0, fun _ => 0, fun _ => 0⟩

/-- The first deadline plus the time spent claimed. -/
def deadline (L : Ledger) (e : EntryId) : ℚ := L.initial e + L.spent e

/-- A period begins when a claim record appears and ends when it is gone. -/
def note (c : EventCall cls) (t : ServerTime) (s s' : Store) (L : Ledger) : Ledger :=
  match c with
  | .store x d =>
    { L with
      initial := Function.update L.initial x.id d
      spent := Function.update L.spent x.id 0 }
  | _ =>
    { L with
      spent := fun e => if (s.claims.get? e).isSome ∧ (s'.claims.get? e).isNone
        then L.spent e + (t.totalMicroseconds - L.since e) else L.spent e
      since := fun e => if (s.claims.get? e).isNone ∧ (s'.claims.get? e).isSome
        then t.totalMicroseconds else L.since e }

end Ledger

structure EventWorld where
  store : Store
  ledger : Ledger
  now : ServerTime

namespace EventWorld

def init (t : ServerTime) : EventWorld := ⟨.empty, .empty, t⟩

def next (stack : Bool) (c : EventCall cls) (t : ServerTime) (g : EventWorld) : EventWorld :=
  let s' := (execEvent stack c t g.store).2
  ⟨s', g.ledger.note c t g.store s', t⟩

end EventWorld

/-- The lifetime the claim of `id` carries. -/
def remaining? (s : Store) (id : EntryId) : Option ℚ :=
  tonumber (((s.claims.get? id).bind Cjson.decode).bind fun c => c.field? "unclaimed_remaining_us")

/-- The number is printed and read back without loss. -/
def Exact14 (q : ℚ) : Prop := |q| < 2 ^ 1024 ∧ fl (decimal14.round q) = q

/-- The kind of a plain queue with this `stack` flag. -/
def plainKind (stack : Bool) : QueueKind := if stack then .stack else .fifo

/-- Nothing is rounded: the first deadline is a binary64 number, a lifetime that moves into a
claim has a 14-digit rendering, and one that moves back gives a binary64 deadline. -/
def Exact (stack : Bool) (s : Store) (t : ServerTime) : EventCall cls → Prop
  | .store _ d => fl d = d
  | .claim _ _ => ∀ id D, (Library.popPending stack (prepare (plainKind stack) t s)).1 = some id →
      s.unclaimed.score? id = some D → t.nowUs < D → Exact14 (D - t.nowUs)
  | .release _ id _ => ∀ r, remaining? s id = some r → fl (t.nowUs + r) = t.nowUs + r
  | .recover batch => ∀ id ∈ Library.dueClaims batch t.nowUs s, ∀ r, remaining? s id = some r →
      fl (t.nowUs + r) = t.nowUs + r
  | _ => True

/-- The calls the queue and its workers make: a new event has a fresh id, and a lease has a
deadline that can be written. -/
def EventOk (s : Store) (t : ServerTime) : EventCall cls → Prop
  | .store e _ => e.status = .queued ∧ s.records.get? e.id = none
  | .claim _ lease => Library.LeaseFits t lease
  | _ => True

structure EventStep (stack : Bool) (g : EventWorld) (l : EventCall cls × ServerTime) (g' : EventWorld) :
    Prop where
  le : g.now ≤ l.2
  ok : EventOk g.store l.2 l.1
  eq : g' = g.next stack l.1 l.2

/-- A step in which nothing is rounded, and no claim on a record that `cjson.decode` refuses is found run out. -/
structure ExactStep (stack : Bool) (g : EventWorld) (l : EventCall cls × ServerTime) (g' : EventWorld) :
    Prop extends EventStep stack g l g' where
  exact : Exact stack g.store l.2 l.1
  readable : ∀ batch, l.1 = .recover batch → ClaimsReadable batch l.2.nowUs g.store

/-! ## Where an event is -/

inductive EventAt (s : Store) (L : Ledger) (e : EntryId) : Prop
  | absent (hr : s.records.get? e = none) (hc : s.claims.get? e = none) (hl : s.leases.score? e = none)
      (hp : s.places e = 0)
  | waiting (hs : recordStatus (s.records.get? e) = some "queued") (hc : s.claims.get? e = none)
      (hl : s.leases.score? e = none) (hp : s.places e = 1) (hu : s.unclaimed.score? e = some (L.deadline e))
  | held {r : ℚ} (hs : recordStatus (s.records.get? e) = some "queued") (hc : (s.claims.get? e).isSome)
      (hl : (s.leases.score? e).isSome) (hp : s.places e = 0) (hu : s.unclaimed.score? e = none)
      (hr : remaining? s e = some r) (heq : r = L.deadline e - L.since e) (hexact : Exact14 r)

/-- Where every event is, and that nothing is scheduled or prioritised. -/
structure EventInv (s : Store) (L : Ledger) : Prop where
  located : ∀ e, EventAt s L e
  scheduled : s.scheduled = .empty
  priority : s.priority = .empty

theorem eventInv_empty (L : Ledger) : EventInv .empty L :=
  ⟨fun _ => .absent rfl rfl rfl rfl, rfl, rfl⟩

variable {stack : Bool} {s s' : Store} {L L' : Ledger} {e id : EntryId} {t : ServerTime}

namespace Ledger

/-- A call that neither begins nor ends a period leaves the account of the event. -/
theorem note_eq {c : EventCall cls} (hstore : ∀ x d, c = .store x d → e ≠ x.id)
    (hc : (s'.claims.get? e).isSome = (s.claims.get? e).isSome) :
    (L.note c t s s').deadline e = L.deadline e ∧ (L.note c t s s').since e = L.since e := by
  cases c with
  | store x d =>
    have hne := hstore x d rfl
    simp [note, deadline, Function.update_of_ne hne]
  | _ =>
    cases h : s.claims.get? e <;> cases h' : s'.claims.get? e <;> simp_all [note, deadline]

end Ledger

/-! ## Deadlines in claim records -/

theorem Exact14.fl_eq {q : ℚ} (h : Exact14 q) : fl q = q := by rw [← h.2, fl_fl]

theorem tonumber_print14 {q : ℚ} (h : Exact14 q) :
    tonumber (some (Cjson.table (.num (print14 q)))) = some q := by
  have hv : (print14 q).value = .rat q := value_print14_eq_iff.mpr h
  cases hp : print14 q with
  | int n =>
    rw [hp] at hv
    obtain rfl : (n : ℚ) = q := by simpa [PyNum.value] using hv
    rw [Cjson.table, JValue.map, PyNum.toDouble, Double.ofRat_of_isDouble ⟨h.fl_eq, h.1⟩]
    rfl
  | float x =>
    rw [hp] at hv
    cases x with
    | finite r hr =>
      obtain rfl : r = q := by simpa [PyNum.value, Double.value] using hv
      rfl
    | infinite b => simp [PyNum.value, Double.value] at hv
    | nan => simp [PyNum.value, Double.value] at hv

theorem Exact14.encode_ofRat {q : ℚ} (h : Exact14 q) : (Double.ofRat q).encode = some (print14 q) := by
  have hfin : |fl q| < 2 ^ 1024 := by
    rw [h.fl_eq]
    exact h.1
  rw [Double.encode_ofRat hfin, h.fl_eq]

theorem exists_encode_lifetime (w : WorkerId) {lease : ℕ} (hl : Library.LeaseFits t lease) {r : ℚ}
    (hr : Exact14 r) :
    ∃ raw, Cjson.encode (Library.claimTable w t (fl (t.nowUs + fl lease)) (some r)) = some raw := by
  have hs := t.seconds_lt
  have hu := t.microseconds_lt
  have hd := Double.encode_ofRat (q := fl (t.nowUs + fl lease)) (by rwa [fl_fl])
  simp only [Library.claimTable, Cjson.encode, Cjson.encodeFields,
    Double.encode_ofRat_natCast (by omega : t.seconds < 2 ^ 53),
    Double.encode_ofRat_natCast (by omega : t.microseconds < 2 ^ 53), hd, hr.encode_ofRat, Option.bind_some,
    Option.map_some]
  exact ⟨_, rfl⟩

/-- The lifetime a claim was written with is read back from it. -/
theorem lifetime_of_encode {w : WorkerId} {d r : ℚ} {raw : Json} (hr : Exact14 r)
    (h : Cjson.encode (Library.claimTable w t d (some r)) = some raw) :
    tonumber ((Cjson.decode raw).bind fun c => c.field? "unclaimed_remaining_us") = some r := by
  have hfield : (Cjson.table raw).field? "unclaimed_remaining_us" =
      ((Cjson.encode (.num (.ofRat r))).map Cjson.table) := Cjson.field?_table_encode h _
  rw [Library.decode_claimTable h, Option.bind_some, hfield, Cjson.encode, hr.encode_ofRat]
  exact tonumber_print14 hr

/-- Renewing a claim keeps the lifetime in it. -/
theorem lifetime_of_setField {c : Lua} {x : Double} {raw : Json} {r : ℚ} (hr : Exact14 r) (ha : Cjson.Accepts c)
    (hc : tonumber (c.field? "unclaimed_remaining_us") = some r)
    (h : Cjson.encode (c.setField "lease_deadline" (.num x)) = some raw) :
    tonumber ((Cjson.decode raw).bind fun c => c.field? "unclaimed_remaining_us") = some r := by
  rw [Library.decode_setField ha h, Option.bind_some]
  cases c with
  | obj kvs =>
    have hfield := Cjson.field?_table_encode h "unclaimed_remaining_us"
    rw [Dict.lookup_setList, if_neg (by decide)] at hfield
    rw [JValue.field?] at hc
    cases hl : kvs.lookup ("unclaimed_remaining_us" : Text) with
    | none => simp [hl, tonumber] at hc
    | some x =>
      rw [hl] at hc hfield
      obtain ⟨hq, rfl⟩ : ∃ hq, x = .num (.finite r hq) := by
        unfold tonumber at hc
        split at hc
        · next q hq heq =>
          obtain rfl := Option.some.inj hc
          exact ⟨hq, Option.some.inj heq⟩
        · cases hc
      rw [hfield]
      exact tonumber_print14 hr
  | _ => simp [JValue.field?, tonumber] at hc

/-! ## What each call does to each event -/

/-- Nothing about the event changes but, perhaps, the deadline of its lease. -/
structure SameEvent (s s' : Store) (e : EntryId) : Prop where
  records : s'.records.get? e = s.records.get? e
  claims : s'.claims.get? e = s.claims.get? e
  leases : (s'.leases.score? e).isSome = (s.leases.score? e).isSome
  places : s'.places e = s.places e
  unclaimed : s'.unclaimed.score? e = s.unclaimed.score? e

namespace SameEvent

theorem refl (s : Store) (e : EntryId) : SameEvent s s e := ⟨rfl, rfl, rfl, rfl, rfl⟩

theorem trans {s'' : Store} (h : SameEvent s s' e) (h' : SameEvent s' s'' e) : SameEvent s s'' e :=
  ⟨h'.records.trans h.records, h'.claims.trans h.claims, h'.leases.trans h.leases, h'.places.trans h.places,
    h'.unclaimed.trans h.unclaimed⟩

theorem of_sameData (h : SameData s s') (hp : s'.places e = s.places e) : SameEvent s s' e :=
  ⟨by rw [h.records], by rw [h.claims], by rw [h.leases], hp, by rw [h.unclaimed]⟩

theorem remaining (h : SameEvent s s' e) : remaining? s' e = remaining? s e := by
  unfold remaining?
  rw [h.claims]

end SameEvent

/-- The event has left every structure. -/
structure Dropped (s : Store) (e : EntryId) : Prop where
  records : s.records.get? e = none
  claims : s.claims.get? e = none
  leases : s.leases.score? e = none
  places : s.places e = 0

/-- The event waits again, with the lifetime its claim carried counted from `now`. -/
structure Restored (s : Store) (now : ℚ) (s' : Store) (e : EntryId) : Prop where
  status : recordStatus (s'.records.get? e) = some "queued"
  claimed : (s.claims.get? e).isSome
  claims : s'.claims.get? e = none
  leases : s'.leases.score? e = none
  places : s'.places e = 1
  unclaimed : ∀ r, remaining? s e = some r → s'.unclaimed.score? e = some (fl (now + r))

theorem Restored.congr {s'' : Store} {now : ℚ} (h : Restored s now s' e) (hsame : SameEvent s' s'' e) :
    Restored s now s'' e where
  status := hsame.records ▸ h.status
  claimed := h.claimed
  claims := hsame.claims.trans h.claims
  leases := by simpa [h.leases] using hsame.leases
  places := hsame.places.trans h.places
  unclaimed r hr := hsame.unclaimed.trans (h.unclaimed r hr)

/-- Calls that let the event expire. -/
def MayExpire : EventCall cls → EntryId → Prop
  | .claim _ _, _ => True
  | .expire id, e => id = e
  | .dequeue, _ => True
  | _, _ => False

/-- How an event may disappear in a call at `t` with reply `r`: its owner removes it, it is
returned in time, or it expires. -/
inductive Gone (c : EventCall cls) (t : ServerTime) (s : Store) (L : Ledger) (r : EventReply) (e : EntryId) :
    Prop
  | removed {w : WorkerId} (hc : c = .remove w e) (ho : s.owner? e = some w)
  | returned {raw : Json} (hr : r = .dequeued (some raw)) (hs : s.records.get? e = some raw)
      (hlt : t.totalMicroseconds < L.deadline e)
  | expired (hc : MayExpire c e) (hle : L.deadline e ≤ t.totalMicroseconds)

/-- What a call at `t` with reply `r` may do to the event `e`: it ends in one of the places, its
record goes only when it is consumed or overdue, and it is claimed only before its deadline. -/
structure Advance (c : EventCall cls) (t : ServerTime) (s : Store) (L : Ledger) (r : EventReply) (s' : Store)
    (e : EntryId) : Prop where
  located : EventAt s' (L.note c t s s') e
  gone : (s.records.get? e).isSome → s'.records.get? e = none → Gone c t s L r e
  claimed : s.claims.get? e = none → (s'.claims.get? e).isSome → t.totalMicroseconds < L.deadline e

variable {c : EventCall cls} {r : EventReply} {w : WorkerId} {now : ℚ}

namespace EventAt

theorem same (h : EventAt s L e) (hsame : SameEvent s s' e) (hd : L'.deadline e = L.deadline e)
    (hs : L'.since e = L.since e) : EventAt s' L' e := by
  cases h with
  | absent h₁ h₂ h₃ h₄ =>
    refine .absent (hsame.records.trans h₁) (hsame.claims.trans h₂) ?_ (hsame.places.trans h₄)
    simpa [h₃] using hsame.leases
  | waiting h₁ h₂ h₃ h₄ h₅ =>
    refine .waiting (hsame.records ▸ h₁) (hsame.claims.trans h₂) ?_ (hsame.places.trans h₄) ?_
    · simpa [h₃] using hsame.leases
    · rw [hsame.unclaimed, h₅, hd]
  | held h₁ h₂ h₃ h₄ h₅ h₆ h₇ h₈ =>
    exact .held (hsame.records ▸ h₁) (hsame.claims ▸ h₂) (hsame.leases.trans h₃) (hsame.places.trans h₄)
      (hsame.unclaimed.trans h₅) (hsame.remaining.trans h₆) (by rw [h₇, hd, hs]) h₈

/-- An event in a waiting place is waiting. -/
theorem waiting_of_places (h : EventAt s L e) (hp : 0 < s.places e) :
    recordStatus (s.records.get? e) = some "queued" ∧ s.claims.get? e = none ∧ s.leases.score? e = none ∧
      s.places e = 1 ∧ s.unclaimed.score? e = some (L.deadline e) := by
  cases h with
  | waiting h₁ h₂ h₃ h₄ h₅ => exact ⟨h₁, h₂, h₃, h₄, h₅⟩
  | _ => omega

/-- An event with a claim is held. -/
theorem held_of_claim (h : EventAt s L e) (hc : (s.claims.get? e).isSome) :
    recordStatus (s.records.get? e) = some "queued" ∧ (s.leases.score? e).isSome ∧ s.places e = 0 ∧
      s.unclaimed.score? e = none ∧
      ∃ r, remaining? s e = some r ∧ r = L.deadline e - L.since e ∧ Exact14 r := by
  cases h with
  | absent _ h₂ => simp [h₂] at hc
  | waiting _ h₂ => simp [h₂] at hc
  | held h₁ _ h₃ h₄ h₅ h₆ h₇ h₈ => exact ⟨h₁, h₃, h₄, h₅, _, h₆, h₇, h₈⟩

/-- A lease belongs to a claim. -/
theorem claim_of_lease (h : EventAt s L e) (hl : (s.leases.score? e).isSome) : (s.claims.get? e).isSome := by
  cases h with
  | absent _ _ h₃ => simp [h₃] at hl
  | waiting _ _ h₃ => simp [h₃] at hl
  | held _ h₂ => exact h₂

end EventAt

namespace Advance

theorem of_same (h : EventAt s L e) (hstore : ∀ x d, c = .store x d → e ≠ x.id) (hsame : SameEvent s s' e) :
    Advance c t s L r s' e := by
  have hnote := Ledger.note_eq (s := s) (L := L) (t := t) hstore (congrArg Option.isSome hsame.claims)
  refine ⟨h.same hsame hnote.1 hnote.2, fun hsome hnone => ?_, fun hnone hsome => ?_⟩
  · rw [hsame.records] at hnone
    simp [hnone] at hsome
  · rw [hsame.claims] at hsome
    simp [hnone] at hsome

theorem of_unchanged (h : EventInv s L) (hstore : ∀ x d, c ≠ .store x d) (e : EntryId) :
    Advance c t s L r s e :=
  .of_same (h.located e) (fun x d hc => absurd hc (hstore x d)) (.refl s e)

theorem of_dropped (hdrop : Dropped s' e) (hgone : Gone c t s L r e) : Advance c t s L r s' e := by
  refine ⟨.absent hdrop.records hdrop.claims hdrop.leases hdrop.places, fun _ _ => hgone, fun _ hsome => ?_⟩
  rw [hdrop.claims] at hsome
  cases hsome

/-- The lifetime that a claim gives back ends at the deadline moved by the time of the claim. -/
theorem of_restored (h : EventAt s L e) (hstore : ∀ x d, c ≠ .store x d)
    (hres : Restored s t.nowUs s' e)
    (hexact : ∀ r, remaining? s e = some r → fl (t.nowUs + r) = t.nowUs + r) : Advance c t s L r s' e := by
  obtain ⟨-, -, -, -, q, hq, heq, -⟩ := h.held_of_claim hres.claimed
  have hdeadline : (L.note c t s s').deadline e = L.deadline e + (t.totalMicroseconds - L.since e) := by
    have hc := hres.claimed
    cases c with
    | store x d => exact absurd rfl (hstore x d)
    | _ => simp [Ledger.note, Ledger.deadline, hc, hres.claims, add_assoc]
  refine ⟨.waiting hres.status hres.claims hres.leases hres.places ?_, fun _ hnone => ?_, fun hnone _ => ?_⟩
  · rw [hres.unclaimed q hq, hexact q hq, hdeadline, heq, t.nowUs_eq]
    congr 1
    ring
  · have hs := hres.status
    simp [hnone, recordStatus] at hs
  · have hc := hres.claimed
    simp [hnone] at hc

/-- A claim takes the lifetime over from the unclaimed deadline. -/
theorem of_claimed {q : Store} {raw : Json} {d : ℚ} (h : EventAt s L e) (hstore : ∀ x d, c ≠ .store x d)
    (hplace : 0 < s.places e) (hrec : q.records = s.records) (hp : q.places e = 0)
    (hlt : t.nowUs < L.deadline e) (hexact : Exact14 (L.deadline e - t.nowUs))
    (henc : Cjson.encode (Library.claimTable w t d (some (L.deadline e - t.nowUs))) = some raw) :
    Advance c t s L r { q with
      claims := q.claims.set e raw, leases := q.leases.add e d, unclaimed := q.unclaimed.rem e } e := by
  set s' : Store := { q with
    claims := q.claims.set e raw, leases := q.leases.add e d, unclaimed := q.unclaimed.rem e } with hs'
  obtain ⟨h₁, h₂, -, -, -⟩ := h.waiting_of_places hplace
  have hget : s'.claims.get? e = some raw := by simp [hs']
  have hread : remaining? s' e = some (L.deadline e - t.nowUs) := by
    rw [remaining?, hget]
    exact lifetime_of_encode hexact henc
  have hnote : (L.note c t s s').deadline e = L.deadline e ∧
      (L.note c t s s').since e = t.totalMicroseconds := by
    cases c with
    | store x d => exact absurd rfl (hstore x d)
    | _ => simp [Ledger.note, Ledger.deadline, h₂, hget]
  refine ⟨.held ?_ (by rw [hget]; rfl) (by simp [hs']) hp (by simp [hs']) hread ?_ hexact, fun hsome hnone => ?_,
    fun _ _ => t.nowUs_eq ▸ hlt⟩
  · rw [← hrec] at h₁
    exact h₁
  · rw [hnote.1, hnote.2, t.nowUs_eq]
  · rw [← hrec] at hsome
    simp [show q.records.get? e = none from hnone] at hsome

end Advance

/-! ## Giving a claim back -/

/-- A release and a recovery drop the claim and put its lifetime back; `q` is the store they do
this in. -/
theorem giveBack_other {c : Option Lua} {q : Store} (he : e ≠ id) (hq : SameEvent s q e) :
    SameEvent s (Library.restoreUnclaimed c id now (Library.dropClaim id q)) e := by
  refine hq.trans ⟨?_, ?_, ?_, ?_, ?_⟩
  · rw [Library.restoreUnclaimed_eq]
    rfl
  · rw [Library.restoreUnclaimed_eq]
    simp [Library.dropClaim, he]
  · rw [Library.restoreUnclaimed_eq]
    simp [Library.dropClaim, he]
  · rw [Library.restoreUnclaimed_eq]
    rfl
  · unfold Library.restoreUnclaimed
    split <;> simp [Library.dropClaim, he]

theorem giveBack_restored {raw : Json} (hg : s.claims.get? e = some raw) {q : Store}
    (hst : recordStatus (q.records.get? e) = some "queued") (hp : q.places e = 1) :
    Restored s now (Library.restoreUnclaimed (Cjson.decode raw) e now (Library.dropClaim e q)) e := by
  rw [Library.restoreUnclaimed_eq]
  refine ⟨hst, by simp [hg], by simp [Library.dropClaim], by simp [Library.dropClaim], hp, fun r hr => ?_⟩
  have hr' : tonumber ((Cjson.decode raw).bind fun c => c.field? "unclaimed_remaining_us") = some r := by
    rw [remaining?, hg, Option.bind_some] at hr
    exact hr
  unfold Library.restoreUnclaimed
  simp only [hr']
  simp

namespace EventInv

/-- Promotion and delivery move events only between the pending list and the delayed set. -/
theorem prepare (h : EventInv s L) (stack : Bool) (t : ServerTime) (e : EntryId) :
    SameEvent s (prepare (plainKind stack) t s) e :=
  .of_sameData (prepare_sameData _ t s) (places_prepare_of_unscheduled h.scheduled e)

theorem store (h : EventInv s L) {x : QueueEntry cls} {d : ℕ} (hq : x.status = .queued)
    (hf : s.records.get? x.id = none) (hd : fl d = d) (e : EntryId) :
    Advance (.store x d) t s L .done (Library.storeEventAndPush x.toDict x.id d s) e := by
  obtain ⟨hc, hl, hp⟩ : s.claims.get? x.id = none ∧ s.leases.score? x.id = none ∧ s.places x.id = 0 := by
    cases h.located x.id with
    | absent _ h₂ h₃ h₄ => exact ⟨h₂, h₃, h₄⟩
    | waiting h₁ => simp [hf, recordStatus] at h₁
    | held h₁ => simp [hf, recordStatus] at h₁
  have hplaces := (enqueued_pending s x.id x.toDict).places hp
  by_cases he : e = x.id
  · subst he
    refine ⟨.waiting ?_ hc hl ((hplaces x.id).trans (by simp [hp])) ?_, ?_, ?_⟩
    · change recordStatus ((s.records.set x.id x.toDict).get? x.id) = some "queued"
      rw [Dict.get?_set, if_pos rfl, recordStatus_toDict, hq]
      rfl
    · change (s.unclaimed.add x.id (fl d)).score? x.id = some _
      rw [SortedSet.score?_add, if_pos rfl, hd]
      simp [Ledger.note, Ledger.deadline]
    · intro hsome
      simp [hf] at hsome
    · intro _ hsome
      change (s.claims.get? x.id).isSome at hsome
      simp [hc] at hsome
  · refine .of_same (h.located e) (fun y d' hy => ?_) ⟨?_, rfl, rfl, (hplaces e).trans (by simp [he]), ?_⟩
    · cases hy
      exact he
    · change (s.records.set x.id x.toDict).get? e = _
      rw [Dict.get?_set, if_neg he]
    · change (s.unclaimed.add x.id (fl d)).score? e = _
      rw [SortedSet.score?_add, if_neg he]

/-- A renewed claim keeps its lifetime. -/
theorem renew (h : EventInv s L) (w : WorkerId) (lease : ℕ) (id : EntryId) (t : ServerTime) (e : EntryId) :
    Advance (.renew w lease id : EventCall cls) t s L (.renewed (Library.renew w lease id t s).1)
      (Library.renew w lease id t s).2 e := by
  rcases Library.renew_cases w lease id t s with ⟨b, hb, -⟩ | ⟨c, cur, raw, hc, -, -, henc, hb⟩
  · rw [hb]
    exact .of_unchanged h (by simp) e
  · rw [hb]
    obtain ⟨raw₀, hg, hdec, -⟩ := Store.ownClaim?_eq_some.mp hc
    by_cases he : e = id
    · subst he
      have hclaim : (s.claims.get? e).isSome := by simp [hg]
      obtain ⟨h₁, h₂, h₃, h₄, r, hr, heq, hexact⟩ := (h.located e).held_of_claim hclaim
      set s' : Store := { s with
        claims := s.claims.set e raw, leases := s.leases.add e (fl (t.nowUs + fl lease)) } with hs'
      have hclaim' : (s'.claims.get? e).isSome := by simp [hs']
      have hnote := Ledger.note_eq (c := (.renew w lease e : EventCall cls)) (s := s) (L := L) (t := t)
        (by simp) (hclaim'.trans hclaim.symm)
      have hread : remaining? s' e = some r := by
        have hr₀ : tonumber (c.field? "unclaimed_remaining_us") = some r := by
          rw [remaining?, hg, Option.bind_some, hdec] at hr
          exact hr
        have hget : s'.claims.get? e = some raw := by simp [hs']
        rw [remaining?, hget]
        exact lifetime_of_setField hexact (Cjson.accepts_of_decode hdec) hr₀ henc
      refine ⟨.held h₁ hclaim' (by simp [hs']) h₃ h₄ hread ?_ hexact, fun hsome hnone => ?_,
        fun hnone _ => ?_⟩
      · rw [hnote.1, hnote.2]
        exact heq
      · simp [show s.records.get? e = none from hnone] at hsome
      · simp [hnone] at hclaim
    · exact .of_same (h.located e) (by simp) ⟨rfl, by simp [he], by simp [he], rfl, rfl⟩

theorem release (h : EventInv s L) (w : WorkerId) (id : EntryId) (delay : ℕ) (t : ServerTime)
    (hexact : Exact stack s t (.release w id delay : EventCall cls)) (e : EntryId) :
    Advance (.release w id delay : EventCall cls) t s L (.flag (Library.release w id delay t s).1)
      (Library.release w id delay t s).2 e := by
  cases hc : s.ownClaim? id w with
  | none =>
    rw [Library.release, hc]
    exact .of_unchanged h (by simp) e
  | some c =>
    rw [Library.release, hc]
    obtain ⟨raw, hg, hdec, -⟩ := Store.ownClaim?_eq_some.mp hc
    have hclaim : (s.claims.get? id).isSome := by simp [hg]
    obtain ⟨hst, -, hp, -⟩ := (h.located id).held_of_claim hclaim
    set q : Store := { s with delayed := s.delayed.add id (fl (t.nowUs + fl delay)) } with hq
    by_cases he : e = id
    · subst he
      have hplaces : q.places e = 1 := by
        have := none_of_places hp
        simp [hq, Store.places, mult_eq_zero.mpr this.1, mult_eq_zero.mpr this.2.2.1, this.2.2.2]
      have hres : Restored s t.nowUs _ e := giveBack_restored hg (q := q) hst hplaces
      rw [hdec] at hres
      exact .of_restored (h.located e) (by simp) hres hexact
    · refine .of_same (h.located e) (by simp) (giveBack_other (q := q) he ⟨rfl, rfl, rfl, ?_, rfl⟩)
      simp [hq, Store.places, he]

theorem remove (h : EventInv s L) (w : WorkerId) (id : EntryId) (t : ServerTime) (e : EntryId) :
    Advance (.remove w id : EventCall cls) t s L (.flag (Library.remove w id s).1) (Library.remove w id s).2
      e := by
  cases hc : s.ownClaim? id w with
  | none =>
    rw [Library.remove, hc]
    exact .of_unchanged h (by simp) e
  | some c =>
    rw [Library.remove, hc]
    obtain ⟨raw, hg, -, ho⟩ := Store.ownClaim?_eq_some.mp hc
    have hclaim : (s.claims.get? id).isSome := by simp [hg]
    obtain ⟨-, -, hp, -⟩ := (h.located id).held_of_claim hclaim
    by_cases he : e = id
    · subst he
      have hnone := none_of_places hp
      refine .of_dropped ⟨by simp, by simp [Library.dropClaim], by simp [Library.dropClaim], ?_⟩
        (.removed rfl ho)
      simp [Store.places, Library.dropClaim, mult_eq_zero.mpr hnone.1, mult_eq_zero.mpr hnone.2.2.1,
        List.count_eq_zero]
    · refine .of_same (h.located e) (by simp) ?_
      refine ⟨by simp [Library.dropClaim, he], by simp [Library.dropClaim, he],
        by simp [Library.dropClaim, he], ?_, by simp [Library.dropClaim, he]⟩
      simp [Store.places, Library.dropClaim, List.count_filter, he]

/-- Dropping a waiting event leaves nothing of it and all of the others. -/
theorem dropEvent (hc : s.claims.get? id = none) (hs : s.scheduled = .empty)
    (hp : s.priority = .empty) :
    Dropped (Library.dropEvent id s) id ∧ ∀ e ≠ id, SameEvent s (Library.dropEvent id s) e := by
  refine ⟨⟨by simp [Library.dropEvent], hc, by simp [Library.dropEvent], ?_⟩, fun e he => ?_⟩
  · simp [Store.places, Library.dropEvent, hs, hp, mult, List.count_eq_zero]
  · refine ⟨by simp [Library.dropEvent, he], rfl, by simp [Library.dropEvent, he], ?_,
      by simp [Library.dropEvent, he]⟩
    simp [Store.places, Library.dropEvent, he, List.count_filter]

/-- Expiry does nothing or drops an unclaimed event whose deadline has passed. -/
theorem expire_cases (id : EntryId) (t : ServerTime) (s : Store) :
    (Library.expire id t s).2 = s ∨
      s.claims.get? id = none ∧ (∃ d ≤ t.nowUs, s.unclaimed.score? id = some d) ∧
        (s.records.get? id).isSome ∧ (Library.expire id t s).2 = Library.dropEvent id s := by
  unfold Library.expire
  cases hc : s.claims.get? id with
  | some raw => exact .inl rfl
  | none =>
    cases hd : s.unclaimed.score? id with
    | none => exact .inl rfl
    | some d =>
      cases hr : s.records.get? id with
      | none => exact .inl (by simp)
      | some raw =>
        rcases lt_or_ge t.nowUs d with hlt | hle
        · exact .inl (by simp [hlt])
        · exact .inr ⟨rfl, ⟨d, hle, rfl⟩, rfl, by simp [not_lt.mpr hle]⟩

theorem expire (h : EventInv s L) (id : EntryId) (t : ServerTime) (e : EntryId) :
    Advance (.expire id : EventCall cls) t s L (.flag (Library.expire id t s).1) (Library.expire id t s).2 e := by
  rcases expire_cases id t s with heq | ⟨hc, ⟨d, hle, hd⟩, hr, heq⟩
  · rw [heq]
    exact .of_unchanged h (by simp) e
  · rw [heq]
    obtain ⟨hdrop, hother⟩ := dropEvent hc h.scheduled h.priority
    by_cases he : e = id
    · subst he
      refine .of_dropped hdrop (.expired rfl ?_)
      cases h.located e with
      | absent h₁ => simp [h₁] at hr
      | waiting _ _ _ _ h₅ =>
        rw [h₅, Option.some.injEq] at hd
        rw [hd, ← t.nowUs_eq]
        exact hle
      | held _ h₂ => simp [hc] at h₂
    · exact .of_same (h.located e) (by simp) (hother e he)

end EventInv

/-! ## Recovery of events -/

/-- An event under a claim waits nowhere. -/
structure UnderClaim (s : Store) (e : EntryId) : Prop where
  status : recordStatus (s.records.get? e) = some "queued"
  claim : (s.claims.get? e).isSome
  lease : (s.leases.score? e).isSome
  places : s.places e = 0

/-- Recovery has dropped the claim on a record that it could not read. -/
structure Discarded (s s' : Store) (e : EntryId) : Prop where
  records : s'.records.get? e = s.records.get? e
  claims : s'.claims.get? e = none
  leases : s'.leases.score? e = none
  places : s'.places e = 0

theorem Discarded.congr {s'' : Store} (h : Discarded s s' e) (hsame : SameEvent s' s'' e) : Discarded s s'' e where
  records := hsame.records.trans h.records
  claims := hsame.claims.trans h.claims
  leases := by simpa [h.leases] using hsame.leases
  places := hsame.places.trans h.places

/-- What recovery does to an event whose claim has run out. -/
def GivenBack (lossy : Prop) (s : Store) (now : ℚ) (s' : Store) (e : EntryId) : Prop :=
  Restored s now s' e ∨ lossy ∧ Discarded s s' e

/-- Halfway through recovery of the `due` claims of `s₀`, with `ids` still to come: each event is
untouched, or its claim was due and has been given back. -/
structure Recovering (lossy : Prop) (s₀ : Store) (now : ℚ) (due ids : List EntryId) (s : Store) : Prop where
  nodup : ids.Nodup
  subset : ids ⊆ due
  scheduled : s.scheduled = .empty
  priority : s.priority = .empty
  event : ∀ e, SameEvent s₀ s e ∨ (e ∈ due ∧ e ∉ ids) ∧ GivenBack lossy s₀ now s e

namespace Recovering

variable {lossy : Prop} {s₀ : Store} {due ids : List EntryId}

/-- One iteration that touches `id` only leaves the others as they were. -/
theorem step (h : Recovering lossy s₀ now due (id :: ids) s) (hsched : s'.scheduled = .empty)
    (hprio : s'.priority = .empty) (hother : ∀ e ≠ id, SameEvent s s' e)
    (hid : SameEvent s₀ s' id ∨ GivenBack lossy s₀ now s' id) : Recovering lossy s₀ now due ids s' := by
  obtain ⟨hnot, hnodup⟩ := List.nodup_cons.mp h.nodup
  refine ⟨hnodup, fun e he => h.subset (List.mem_cons_of_mem _ he), hsched, hprio, fun e => ?_⟩
  by_cases he : e = id
  · subst he
    exact hid.imp_right fun hr => ⟨⟨h.subset (List.mem_cons_self ..), hnot⟩, hr⟩
  · have hsame := hother e he
    rcases h.event e with h' | ⟨⟨hdue, hnot'⟩, h'⟩
    · exact .inl (h'.trans hsame)
    · exact .inr ⟨⟨hdue, fun hm => hnot' (List.mem_cons_of_mem _ hm)⟩,
        h'.imp (·.congr hsame) (And.imp_right (·.congr hsame))⟩

theorem recoverOne (hclaimed : ∀ e ∈ due, UnderClaim s₀ e) (hdue : ∀ e ∈ due, Recoverable lossy now s₀ e)
    (h : Recovering lossy s₀ now due (id :: ids) s) :
    Recovering lossy s₀ now due ids (Library.recoverOne Library.redeliverPending now id s).2 := by
  have hmem := h.subset (List.mem_cons_self ..)
  obtain ⟨hst, hclaim, hlease, hp⟩ := hclaimed id hmem
  have hread := (hdue id hmem).2
  have hsame : SameEvent s₀ s id := (h.event id).resolve_right fun hr => hr.1.2 (List.mem_cons_self ..)
  have hcase := Library.recoverOne_case Library.redeliverPending now id s
  generalize Library.recoverOne Library.redeliverPending now id s = out at hcase ⊢
  cases hcase with
  | kept hd hlt =>
    refine h.step h.scheduled h.priority (fun e he => ⟨rfl, rfl, by simp [he], rfl, rfl⟩) (.inl ?_)
    exact hsame.trans ⟨rfl, rfl, by simp [hsame.leases, hlease], rfl, rfl⟩
  | discarded hrunOut hs =>
    -- the claim of an event is on a queued record, so the record cannot be read
    have hlossy : lossy := by
      refine hread.resolve_right fun hread => ?_
      rw [Library.claimDeadline?, hsame.claims] at hrunOut
      rw [← Store.statusText_eq (hread hrunOut)] at hst
      rw [hsame.records] at hs
      exact hs.1 hst
    refine h.step h.scheduled h.priority (fun e he => ?_) (.inr (.inr ⟨hlossy, ?_⟩))
    · exact ⟨rfl, by simp [Library.dropClaim, he], by simp [Library.dropClaim, he], rfl, rfl⟩
    · exact ⟨hsame.records, by simp [Library.dropClaim], by simp [Library.dropClaim], hsame.places.trans hp⟩
  | error => exact h.step h.scheduled h.priority (fun e _ => .refl _ e) (.inl hsame)
  | @recovered rawEntry raw _ hr hs he =>
    obtain ⟨rawClaim, hg⟩ := Option.isSome_iff_exists.mp hclaim
    have hread : (s.claims.get? id).bind Cjson.decode = Cjson.decode rawClaim := by
      rw [hsame.claims, hg, Option.bind_some]
    set q := Library.redeliverPending (Library.resetEntry (Cjson.table rawEntry)) id
      { s with records := s.records.set id raw } with hq
    -- the lifetime is put back before the claim is dropped and the id pushed, in the source's order
    have hcomm : Library.dropClaim id (Library.redeliverPending (Library.resetEntry (Cjson.table rawEntry)) id
        (Library.restoreUnclaimed ((s.claims.get? id).bind Cjson.decode) id now
          { s with records := s.records.set id raw })) =
        Library.restoreUnclaimed (Cjson.decode rawClaim) id now (Library.dropClaim id q) := by
      rw [hread]
      unfold Library.restoreUnclaimed
      split <;> rfl
    have hplaces (e : EntryId) : q.places e = s.places e + if e = id then 1 else 0 :=
      Library.redeliverPending_redelivers.places _ id { s with records := s.records.set id raw } e
        (by rw [show s.priority = .empty from h.priority]; rfl)
    have hqueued : recordStatus (q.records.get? id) = some "queued" := by
      have hrec : q.records.get? id = some raw := by simp [hq, Library.redeliverPending]
      rw [hrec]
      apply recordStatus_of_statusText
      exact hs.elim (Library.statusText_of_recovered · he) (Library.statusText_of_recovered · he)
    rw [hcomm]
    refine h.step ?_ ?_ (fun e hne => giveBack_other hne ?_) (.inr (.inl (giveBack_restored hg hqueued ?_)))
    · rw [Library.restoreUnclaimed_eq]
      exact h.scheduled
    · rw [Library.restoreUnclaimed_eq]
      exact h.priority
    · exact ⟨by simp [hq, Library.redeliverPending, hne], rfl, rfl, by rw [hplaces, if_neg hne, add_zero], rfl⟩
    · rw [hplaces, hsame.places, hp, if_pos rfl]

/-- The whole loop, from a store in which every event with a lease is under a claim. -/
theorem recover {batch : ℕ} {t : ServerTime} (hclaimed : ∀ e, (s.leases.score? e).isSome → UnderClaim s e)
    (hread : lossy ∨ ClaimsReadable batch t.nowUs s) (hsched : s.scheduled = .empty) (hprio : s.priority = .empty) :
    ∃ ids, Recovering lossy s t.nowUs (Library.dueClaims batch t.nowUs s) ids (Library.recover batch t s).2 := by
  have hdue {e : EntryId} (he : e ∈ Library.dueClaims batch t.nowUs s) := recoverable_of_due hread he
  exact Library.recoverLoop_rule
    (fun _ _ _ hq => hq.recoverOne (fun e he => hclaimed e (hdue he).1) (fun _ he => hdue he)) _ 0 0 s
    ⟨nodup_dueClaims batch t.nowUs s, fun _ he => he, hsched, hprio, fun e => .inl (.refl s e)⟩

end Recovering

namespace EventInv

theorem underClaim (h : EventInv s L) (hl : (s.leases.score? e).isSome) : UnderClaim s e := by
  have hclaim := (h.located e).claim_of_lease hl
  obtain ⟨hst, -, hp, -⟩ := (h.located e).held_of_claim hclaim
  exact ⟨hst, hclaim, hl, hp⟩

theorem recovering (h : EventInv s L) {batch : ℕ} {t : ServerTime} (hread : ClaimsReadable batch t.nowUs s) :
    ∃ ids, Recovering False s t.nowUs (Library.dueClaims batch t.nowUs s) ids (Library.recover batch t s).2 :=
  Recovering.recover (fun _ hl => h.underClaim hl) (.inr hread) h.scheduled h.priority

theorem recover (h : EventInv s L) {batch : ℕ} {t : ServerTime} (hread : ClaimsReadable batch t.nowUs s)
    (hexact : Exact stack s t (.recover batch : EventCall cls)) (e : EntryId) :
    Advance (.recover batch : EventCall cls) t s L (.recovered (Library.recover batch t s).1)
      (Library.recover batch t s).2 e := by
  obtain ⟨ids, hrec⟩ := h.recovering hread
  rcases hrec.event e with hsame | ⟨⟨hdue, -⟩, hres⟩
  · exact .of_same (h.located e) (by simp) hsame
  · exact .of_restored (h.located e) (by simp) (hres.resolve_right fun hd => hd.1) (hexact e hdue)

/-! ## Claims and direct consumption -/

theorem prepare_unscheduled (h : EventInv s L) (stack : Bool) (t : ServerTime) :
    (Redis.prepare (plainKind stack) t s).scheduled = .empty ∧
      (Redis.prepare (plainKind stack) t s).priority = .empty := by
  have hprom : Library.promoteOneScheduled t.nowUs s = s := by
    unfold Library.promoteOneScheduled
    rw [h.scheduled]
    rfl
  have hprep : Redis.prepare (plainKind stack) t s = Library.deliverDueDelayed false t.nowUs s := by
    cases stack <;> exact congrArg (Library.deliverDueDelayed false t.nowUs) hprom
  obtain ⟨l, z, heq⟩ := Library.deliverDelayed_eq false ((s.delayed.upTo t.nowUs).map Prod.snd) s
  rw [hprep, Library.deliverDueDelayed, heq]
  exact ⟨h.scheduled, h.priority⟩

/-- The event a claim pops was waiting, and popping it leaves it nowhere. -/
theorem popped (h : EventInv s L) {p : Store}
    (hpop : Library.popPending stack (Redis.prepare (plainKind stack) t s) = (some id, p)) :
    0 < s.places id ∧ p.records = s.records ∧ p.claims.get? id = none ∧ p.places id = 0 ∧
      p.unclaimed.score? id = some (L.deadline id) ∧ ∀ e ≠ id, SameEvent s p e := by
  have htaken := Library.popPending_taken hpop
  have hprep := h.prepare stack t
  have hcount := htaken.places id
  rw [(hprep id).places, if_pos rfl] at hcount
  have hpos : 0 < s.places id := by omega
  obtain ⟨-, h₂, -, h₄, h₅⟩ := (h.located id).waiting_of_places hpos
  refine ⟨hpos, htaken.records.trans (prepare_sameData _ t s).records, ?_, by omega, ?_,
    fun e he => (hprep e).trans ?_⟩
  · rw [htaken.claims, (hprep id).claims, h₂]
  · rw [htaken.unclaimed, (hprep id).unclaimed, h₅]
  · refine .of_sameData htaken.toSameData ?_
    have := htaken.places e
    rw [if_neg he] at this
    omega

theorem claim (h : EventInv s L) (w : WorkerId) (lease : ℕ) (t : ServerTime) (hl : Library.LeaseFits t lease)
    (hexact : Exact stack s t (.claim w lease : EventCall cls)) (e : EntryId) :
    Advance (.claim w lease : EventCall cls) t s L (.claimed (Library.claim w lease stack true t s).1)
      (Library.claim w lease stack true t s).2 e := by
  have hm : Library.deliverDueDelayed false t.nowUs (Library.promoteOneScheduled t.nowUs s) =
      Redis.prepare (plainKind stack) t s := by
    cases stack <;> rfl
  rw [Library.claim, hm]
  rcases hpop : Library.popPending stack (Redis.prepare (plainKind stack) t s) with ⟨_ | id, p⟩
  · obtain ⟨rfl, -⟩ := Library.popPending_none hpop
    exact .of_same (h.located e) (by simp) (h.prepare stack t e)
  · obtain ⟨hpos, hrec, hc, hp, hu, hother⟩ := h.popped hpop
    have hu₀ := ((h.located id).waiting_of_places hpos).2.2.2.2
    have hlife (hlt : t.nowUs < L.deadline id) : Exact14 (L.deadline id - t.nowUs) :=
      hexact id _ (by rw [hpop]) hu₀ hlt
    have hcase := Library.claimPopped_case w lease true t id (fun s => s) (fun s => s)
      (Library.unpopPending stack id) p
    dsimp only
    generalize Library.claimPopped w lease true t id (fun s => s) (fun s => s)
      (Library.unpopPending stack id) p = out at hcase ⊢
    cases hcase with
    | expired _ hd =>
      by_cases he : e = id
      · subst he
        obtain ⟨h₁, -, h₃, h₄⟩ := none_of_places hp
        refine .of_dropped ⟨by simp, hc, by simp, ?_⟩ (.expired trivial (t.nowUs_eq ▸ hd _ hu))
        simp [Store.places, mult_eq_zero.mpr h₁, mult_eq_zero.mpr h₃, h₄]
      · refine .of_same (h.located e) (by simp) ((hother e he).trans ?_)
        exact ⟨by simp [he], rfl, by simp [he], by simp [Store.places, he], by simp [he]⟩
    | error hq henc =>
      cases hq with
      | left hd hlt =>
        -- nothing that a claim writes is an overflow
        obtain rfl := Option.some.inj (hu.symm.trans hd)
        obtain ⟨raw, hraw⟩ := exists_encode_lifetime w hl (hlife hlt)
        rw [(hlife hlt).fl_eq, hraw] at henc
        cases henc
    | @claimed _ _ raw hq henc _ =>
      cases hq with
      | left hd hlt =>
        obtain rfl := Option.some.inj (hu.symm.trans hd)
        rw [(hlife hlt).fl_eq] at henc
        by_cases he : e = id
        · subst he
          exact .of_claimed (h.located e) (by simp) hpos hrec hp hlt (hlife hlt) henc
        · refine .of_same (h.located e) (by simp) ((hother e he).trans ?_)
          exact ⟨rfl, by simp [he], by simp [he], rfl, by simp [he]⟩
    | conflict hq _ hsome =>
      cases hq with
      | left hd hlt => simp [hc] at hsome

end EventInv

end DjangoQueues.Redis
