import DjangoQueues.Lib.PopOrder
import DjangoQueues.Redis.Frame

/-! Direct consumption of an event: the loop of `django_queue_dequeue_event` finds the first live
event, and drops or keeps every other id as its claim says. -/

namespace DjangoQueues.Redis

open Library

/-- All that the function's structures hold of an id, its claim apart. -/
structure EventSlot where
  pending : ℕ
  record : Option Json
  delayed : Option ℚ
  lease : Option ℚ
  unclaimed : Option ℚ

namespace EventSlot

def empty : EventSlot := ⟨0, none, none, none, none⟩

end EventSlot

namespace Store

def slot (s : Store) (e : EntryId) : EventSlot :=
  ⟨s.pending.count e, s.records.get? e, s.delayed.score? e, s.leases.score? e, s.unclaimed.score? e⟩

def claimed (s : Store) (e : EntryId) : Bool := (s.claims.get? e).isSome

/-- Unclaimed, with a record and a deadline that has not come. -/
def liveEvent (now : ℚ) (s : Store) (e : EntryId) : Bool :=
  !s.claimed e && (s.records.get? e).isSome && (s.unclaimed.score? e).any (now < ·)

end Store

/-- The ids that are looked at: up to the first live one. -/
def examined (live : EntryId → Bool) : List EntryId → List EntryId
  | [] => []
  | e :: rest => if live e then [e] else e :: examined live rest

theorem mem_examined {live : EntryId → Bool} {l : List EntryId} {e : EntryId} :
    e ∈ examined live l ↔ e ∈ l.takeWhile (! live ·) ∨ l.find? live = some e := by
  induction l with
  | nil => simp [examined]
  | cons a l ih =>
    unfold examined
    by_cases ha : live a = true
    · simp [ha, eq_comm]
    · simp [ha, ih, or_assoc]

section Without

variable {live live' : EntryId → Bool} {id : EntryId}

theorem examined_filter_ne (hid : ¬live id = true) (hlive : ∀ e ≠ id, live' e = live e) (l : List EntryId) :
    examined live' (l.filter (· ≠ id)) = (examined live l).filter (· ≠ id) := by
  induction l with
  | nil => rfl
  | cons a l ih =>
    by_cases ha : a = id
    · subst ha
      rw [List.filter_cons_of_neg (by simp), ih, examined, if_neg hid, List.filter_cons_of_neg (by simp)]
    · rw [List.filter_cons_of_pos (by simpa using ha), examined, examined, hlive a ha]
      split_ifs
      · rw [List.filter_cons_of_pos (by simpa using ha), List.filter_nil]
      · rw [List.filter_cons_of_pos (by simpa using ha), ih]

theorem find?_filter_ne (hid : ¬live id = true) (hlive : ∀ e ≠ id, live' e = live e) (l : List EntryId) :
    (l.filter (· ≠ id)).find? live' = l.find? live := by
  induction l with
  | nil => rfl
  | cons a l ih =>
    by_cases ha : a = id
    · subst ha
      rw [List.filter_cons_of_neg (by simp), ih, List.find?_cons_of_neg hid]
    · rw [List.filter_cons_of_pos (by simpa using ha), List.find?_cons, List.find?_cons, hlive a ha, ih]

end Without

section PopOrder

variable (stack : Bool)

theorem popPending_eq {s : Store} {id : EntryId} {l : List EntryId} (h : popOrder stack s.pending = id :: l) :
    popPending stack s = (some id, { s with pending := popOrder stack l }) := by
  have hpending : s.pending = popOrder stack (id :: l) := by rw [← h, popOrder_popOrder]
  unfold popPending
  rw [hpending]
  unfold popOrder
  cases stack <;> simp

theorem popPending_nil {s : Store} (h : popOrder stack s.pending = []) : popPending stack s = (none, s) := by
  have hpending : s.pending = [] := by
    rw [← popOrder_popOrder stack s.pending, h]
    cases stack <;> rfl
  unfold popPending
  cases s with
  | mk records pending =>
    subst hpending
    cases stack <;> rfl

end PopOrder

theorem slot_dropEvent (s : Store) (id e : EntryId) :
    (dropEvent id s).slot e = if e = id then .empty else s.slot e := by
  split_ifs with h
  · subst h
    simp [Store.slot, dropEvent, EventSlot.empty, List.count_eq_zero]
  · simp [Store.slot, dropEvent, h]

/-- What the loop has made of the ids that were still to be looked at. -/
structure Consumption (stack : Bool) (now : ℚ) (s : Store) (rest : List EntryId) (result : Option Json × Store) :
    Prop where
  reply : result.1 = (rest.find? (s.liveEvent now)).bind s.records.get?
  claims : result.2.claims = s.claims
  slot : ∀ e, result.2.slot e =
    if e ∈ examined (s.liveEvent now) rest ∧ ¬s.claimed e = true then .empty else s.slot e
  /-- What follows the event that is returned stays in front. -/
  order : ∀ pre id post, rest = pre ++ id :: post → (∀ e ∈ pre, ¬s.liveEvent now e = true) →
    s.liveEvent now id = true →
      (post.filter fun e => s.claimed e ∨ e ∉ pre ++ [id]) <+: popOrder stack result.2.pending

section Loop

variable {stack : Bool} {now : ℚ} {s : Store} {id : EntryId} {rest back : List EntryId}

theorem slot_withPending {l : List EntryId} {e : EntryId} (h : l.count e = s.pending.count e) :
    Store.slot { s with pending := l } e = s.slot e := by
  simp [Store.slot, h]

theorem not_live_of_claimed {e : EntryId} (h : s.claimed e = true) : ¬s.liveEvent now e = true := by
  simp [Store.liveEvent, h]

theorem claims_eq_none_of_live {e : EntryId} (h : s.liveEvent now e = true) : s.claims.get? e = none := by
  by_contra hne
  exact not_live_of_claimed (Option.isSome_iff_ne_none.mpr hne) h

theorem exists_record_of_live {e : EntryId} (h : s.liveEvent now e = true) : s.records.get? e ≠ none := by
  simp only [Store.liveEvent, Bool.and_eq_true] at h
  exact Option.isSome_iff_ne_none.mp h.1.2

/-- One turn of the loop, in the order in which ids are popped. -/
theorem dequeueEventLoop_succ {l : List EntryId} (h : popOrder stack s.pending = id :: l) (n : ℕ) :
    dequeueEventLoop stack now (n + 1) s =
      if s.claimed id = true then dequeueEventLoop stack now n { s with pending := popOrder stack (l ++ [id]) }
      else if s.liveEvent now id = true then (s.records.get? id, dropEvent id { s with pending := popOrder stack l })
      else dequeueEventLoop stack now n (dropEvent id { s with pending := popOrder stack l }) := by
  have hskip : (if stack then id :: popOrder stack l else popOrder stack l ++ [id]) = popOrder stack (l ++ [id]) := by
    rw [← popOrder_popOrder stack (if stack then _ else _), popOrder_skipped, popOrder_popOrder]
  rw [dequeueEventLoop, popPending_eq stack h]
  dsimp only
  rw [hskip]
  by_cases hclaim : s.claimed id = true
  · rw [if_pos hclaim]
    exact if_pos hclaim
  · rw [if_neg hclaim]
    refine (if_neg hclaim).trans ?_
    unfold Store.liveEvent
    cases hrec : s.records.get? id with
    | none => simp
    | some raw =>
      cases hdead : s.unclaimed.score? id with
      | none => simp
      | some deadline => simp [hclaim]

/-- Only claimed ids are left: they are turned round, and nothing else happens. -/
theorem dequeueEventLoop_claimed (now : ℚ) (n : ℕ) (h : ∀ e ∈ popOrder stack s.pending, s.claimed e = true) :
    (dequeueEventLoop stack now n s).1 = none ∧
      ∃ l, (dequeueEventLoop stack now n s).2 = { s with pending := l } ∧ ∀ e, l.count e = s.pending.count e := by
  induction n generalizing s with
  | zero => exact ⟨rfl, s.pending, rfl, fun _ => rfl⟩
  | succ n ih =>
    cases horder : popOrder stack s.pending with
    | nil =>
      rw [dequeueEventLoop, popPending_nil stack horder]
      exact ⟨rfl, s.pending, rfl, fun _ => rfl⟩
    | cons id l =>
      rw [horder] at h
      rw [dequeueEventLoop_succ horder, if_pos (h id (List.mem_cons_self ..))]
      have hturned (e : EntryId) : (popOrder stack (l ++ [id])).count e = s.pending.count e := by
        rw [← count_popOrder stack s.pending, horder, count_popOrder]
        exact (List.perm_append_singleton id l).count_eq e
      obtain ⟨hnone, l', hl', hcount⟩ := ih (s := { s with pending := popOrder stack (l ++ [id]) }) (by
        rw [popOrder_popOrder]
        intro e he
        exact h e ((List.perm_append_singleton id l).mem_iff.mp he))
      exact ⟨hnone, l', hl', fun e => (hcount e).trans (hturned e)⟩

/-- Taking off `id` leaves what the structures hold of the others. -/
theorem slot_popped {l : List EntryId} (h : popOrder stack s.pending = id :: l) {e : EntryId} (he : e ≠ id) :
    Store.slot { s with pending := popOrder stack l } e = s.slot e := by
  apply slot_withPending
  rw [count_popOrder, ← count_popOrder stack s.pending, h, List.count_cons_of_ne (Ne.symm he)]

namespace Consumption

variable {result : Option Json × Store}

/-- A claimed id has been put back. -/
theorem skip (hclaim : s.claimed id = true) (horder : popOrder stack s.pending = id :: rest ++ back)
    (h : Consumption stack now { s with pending := popOrder stack (rest ++ back ++ [id]) } rest result) :
    Consumption stack now s (id :: rest) result := by
  have hdead : ¬s.liveEvent now id = true := not_live_of_claimed hclaim
  refine ⟨?_, h.claims, fun e => ?_, fun pre id' post heq hpre hlive => ?_⟩
  · rw [List.find?_cons_of_neg hdead]
    exact h.reply
  · have hcount : (popOrder stack (rest ++ back ++ [id])).count e = s.pending.count e := by
      rw [count_popOrder, ← count_popOrder stack s.pending, horder]
      exact (List.perm_append_singleton id (rest ++ back)).count_eq e
    have hiff : e ∈ examined (s.liveEvent now) (id :: rest) ∧ ¬s.claimed e = true ↔
        e ∈ examined (s.liveEvent now) rest ∧ ¬s.claimed e = true := by
      rw [examined, if_neg hdead, List.mem_cons]
      constructor
      · rintro ⟨rfl | hmem, hun⟩
        · exact absurd hclaim hun
        · exact ⟨hmem, hun⟩
      · rintro ⟨hmem, hun⟩
        exact ⟨.inr hmem, hun⟩
    rw [h.slot e, slot_withPending hcount]
    exact if_congr hiff.symm rfl rfl
  · cases pre with
    | nil =>
      obtain ⟨rfl, -⟩ := List.cons.inj heq
      exact absurd hlive hdead
    | cons a pre =>
      obtain ⟨rfl, hrest⟩ := List.cons.inj heq
      have hkeep := h.order pre id' post hrest (fun e he => hpre e (List.mem_cons_of_mem _ he)) hlive
      have hfilter : (post.filter fun e => s.claimed e ∨ e ∉ id :: pre ++ [id']) =
          post.filter fun e => s.claimed e ∨ e ∉ pre ++ [id'] := by
        apply List.filter_congr
        intro e _
        by_cases he : e = id
        · simp [he, hclaim]
        · simp [he]
      rw [hfilter]
      exact hkeep

/-- The first live event has been taken. -/
theorem take (hclaim : ¬s.claimed id = true) (hlive : s.liveEvent now id = true)
    (horder : popOrder stack s.pending = id :: rest ++ back) :
    Consumption stack now s (id :: rest)
      (s.records.get? id, dropEvent id { s with pending := popOrder stack (rest ++ back) }) := by
  refine ⟨?_, rfl, fun e => ?_, fun pre id' post heq hpre _ => ?_⟩
  · rw [List.find?_cons_of_pos hlive]
    rfl
  · rw [slot_dropEvent, examined, if_pos hlive]
    by_cases he : e = id
    · rw [if_pos he, if_pos ⟨List.mem_singleton.mpr he, he ▸ hclaim⟩]
    · rw [if_neg he, if_neg fun h => he (List.mem_singleton.mp h.1)]
      exact slot_popped horder he
  · cases pre with
    | cons a pre =>
      obtain ⟨rfl, -⟩ := List.cons.inj heq
      exact absurd hlive (hpre id (List.mem_cons_self ..))
    | nil =>
      obtain ⟨rfl, rfl⟩ := List.cons.inj heq
      have hfilter : (rest.filter fun e => s.claimed e ∨ e ∉ [] ++ [id]) = rest.filter (· ≠ id) := by
        apply List.filter_congr
        intro e _
        by_cases he : e = id
        · simp [he, hclaim]
        · simp [he]
      rw [hfilter]
      change _ <+: popOrder stack ((popOrder stack (rest ++ back)).filter (· ≠ id))
      rw [popOrder_filter, popOrder_popOrder, List.filter_append]
      exact List.prefix_append _ _

/-- An unclaimed id that is not live has been dropped. -/
theorem drop (hclaim : ¬s.claimed id = true) (hdead : ¬s.liveEvent now id = true)
    (horder : popOrder stack s.pending = id :: rest ++ back)
    (h : Consumption stack now (dropEvent id { s with pending := popOrder stack (rest ++ back) })
      (rest.filter (· ≠ id)) result) : Consumption stack now s (id :: rest) result := by
  set s' : Store := dropEvent id { s with pending := popOrder stack (rest ++ back) } with hs'
  have hrecord {e : EntryId} (he : e ≠ id) : s'.records.get? e = s.records.get? e := by simp [hs', dropEvent, he]
  have hlive {e : EntryId} (he : e ≠ id) : s'.liveEvent now e = s.liveEvent now e := by
    simp [hs', Store.liveEvent, Store.claimed, dropEvent, he]
  have hslot (e : EntryId) : s'.slot e = if e = id then .empty else s.slot e := by
    rw [hs', slot_dropEvent]
    split_ifs with he
    · rfl
    · exact slot_popped horder he
  -- the rest of the loop runs on a queue without `id`, wherever else it stood
  refine ⟨?_, h.claims, fun e => ?_, fun pre id' post heq hpre hid' => ?_⟩
  · rw [List.find?_cons_of_neg hdead, h.reply, find?_filter_ne hdead fun e he => hlive he]
    cases hfound : rest.find? (s.liveEvent now) with
    | none => rfl
    | some e =>
      have he : e ≠ id := fun heq => hdead (heq ▸ List.find?_some hfound)
      exact hrecord he
  · have hmem : e ∈ examined (s'.liveEvent now) (rest.filter (· ≠ id)) ↔
        e ∈ examined (s.liveEvent now) rest ∧ e ≠ id := by
      rw [examined_filter_ne hdead fun e he => hlive he, List.mem_filter, decide_eq_true_iff]
    have hcons : e ∈ examined (s.liveEvent now) (id :: rest) ↔ e = id ∨ e ∈ examined (s.liveEvent now) rest := by
      rw [examined, if_neg hdead, List.mem_cons]
    rw [h.slot e, hslot e]
    by_cases he : e = id
    · have hdropped : e ∈ examined (s.liveEvent now) (id :: rest) ∧ ¬s.claimed e = true :=
        ⟨hcons.mpr (.inl he), he ▸ hclaim⟩
      rw [if_pos he, ite_self, if_pos hdropped]
    · rw [if_neg he]
      refine if_congr ?_ rfl rfl
      rw [hmem, hcons]
      simp only [he, ne_eq, not_false_eq_true, and_true, false_or]
      rfl
  · cases pre with
    | nil =>
      obtain ⟨rfl, -⟩ := List.cons.inj heq
      exact absurd hid' hdead
    | cons a pre =>
      obtain ⟨rfl, hrest⟩ := List.cons.inj heq
      have hne : id' ≠ id := fun heq => hdead (heq ▸ hid')
      have hsplit : rest.filter (· ≠ id) = pre.filter (· ≠ id) ++ id' :: post.filter (· ≠ id) := by
        have hrest' : rest = pre ++ id' :: post := hrest
        rw [hrest', List.filter_append, List.filter_cons_of_pos (by simpa using hne)]
      have hkeep := h.order _ id' _ hsplit (fun e he => by
        obtain ⟨hmem, hne⟩ := List.mem_filter.mp he
        rw [hlive (of_decide_eq_true hne)]
        exact hpre e (List.mem_cons_of_mem _ hmem)) (by rw [hlive hne]; exact hid')
      have hfilter : (post.filter fun e => s.claimed e ∨ e ∉ id :: pre ++ [id']) =
          (post.filter (· ≠ id)).filter fun e => s.claimed e ∨ e ∉ pre.filter (· ≠ id) ++ [id'] := by
        rw [List.filter_filter]
        apply List.filter_congr
        intro e _
        by_cases he : e = id
        · simp [he, hclaim]
        · simp [he]
      rw [hfilter]
      exact hkeep

end Consumption

theorem dequeueEventLoop_spec (now : ℚ) (n : ℕ) (horder : popOrder stack s.pending = rest ++ back)
    (hback : ∀ e ∈ back, s.claimed e = true) (hn : rest.length ≤ n) :
    Consumption stack now s rest (dequeueEventLoop stack now n s) := by
  -- `rest` has not been looked at yet and `back` was put back, so `rest` bounds the turns that matter
  induction n generalizing s rest back with
  | zero =>
    obtain rfl := List.length_eq_zero_iff.mp (Nat.le_zero.mp hn)
    refine ⟨rfl, rfl, fun e => ?_, fun pre id post h => by simp at h⟩
    simp [examined, dequeueEventLoop]
  | succ n ih =>
    cases rest with
    | nil =>
      have hall : ∀ e ∈ popOrder stack s.pending, s.claimed e = true := by
        rw [horder]
        exact hback
      obtain ⟨hnone, l, hl, hcount⟩ := dequeueEventLoop_claimed now (n + 1) hall
      refine ⟨hnone, by rw [hl], fun e => ?_, fun pre id post h => by simp at h⟩
      rw [hl, slot_withPending (hcount e)]
      simp [examined]
    | cons id rest =>
      have hlen : rest.length ≤ n := Nat.le_of_succ_le_succ hn
      rw [dequeueEventLoop_succ horder]
      split_ifs with hclaim hlive
      · refine Consumption.skip hclaim horder (@ih _ rest (back ++ [id]) ?_ ?_ hlen)
        · rw [popOrder_popOrder, List.append_assoc]
        · intro e he
          rcases List.mem_append.mp he with he | he
          · exact hback e he
          · rw [List.mem_singleton.mp he]
            exact hclaim
      · exact Consumption.take hclaim hlive horder
      · refine Consumption.drop hclaim hlive horder (@ih _ (rest.filter (· ≠ id)) (back.filter (· ≠ id)) ?_ ?_ ?_)
        · change popOrder stack ((popOrder stack (rest ++ back)).filter (· ≠ id)) = _
          rw [popOrder_filter, popOrder_popOrder, List.filter_append]
        · intro e he
          exact hback e (List.mem_of_mem_filter he)
        · exact (List.length_filter_le _ _).trans hlen

end Loop

/-- The delayed ids that are due join the pending list in the order of their scores. -/
theorem deliverDelayed_pending (ids : List EntryId) (s : Store) :
    (deliverDelayed false ids s).pending = s.pending ++ ids := by
  induction ids generalizing s with
  | nil => exact (List.append_nil _).symm
  | cons id ids ih =>
    rw [deliverDelayed, ih]
    simp

/-- `id` is in none of the structures of the function and has no record. -/
def Vanished (s : Store) (id : EntryId) : Prop := s.slot id = .empty ∧ s.claims.get? id = none

/-- Direct consumption returns the record of the first live event, `empty` if there is none; what it
looks at before is dropped unless it is claimed, and the rest stays as the delivery left it. -/
theorem dequeueEvent_first_live (stack : Bool) (t : ServerTime) (s : Store) :
    let delivered := deliverDueDelayed false t.nowUs s
    let order := popOrder stack (s.pending ++ (s.delayed.upTo t.nowUs).map Prod.snd)
    let result := dequeueEvent stack t s
    result.1 = (order.find? (s.liveEvent t.nowUs)).bind s.records.get? ∧
    (result.1 = none ↔ ∀ id ∈ order, ¬s.liveEvent t.nowUs id = true) ∧
    (∀ id, order.find? (s.liveEvent t.nowUs) = some id → Vanished result.2 id) ∧
    (∀ id ∈ order.takeWhile (! s.liveEvent t.nowUs ·), s.claims.get? id = none → Vanished result.2 id) ∧
    (∀ id ∈ order, s.claimed id = true → id ∈ result.2.pending ∧ result.2.slot id = delivered.slot id) ∧
    (∀ id, id ∉ order.takeWhile (! s.liveEvent t.nowUs ·) → order.find? (s.liveEvent t.nowUs) ≠ some id →
      result.2.slot id = delivered.slot id) ∧
    result.2.claims = s.claims ∧
    ∀ pre id post, order = pre ++ id :: post → (∀ e ∈ pre, ¬s.liveEvent t.nowUs e = true) →
      s.liveEvent t.nowUs id = true →
        (post.filter fun e => s.claimed e ∨ e ∉ pre ++ [id]) <+: popOrder stack result.2.pending := by
  intro delivered order result
  obtain ⟨hrecords, hclaims, -, hunclaimed⟩ := deliverDueDelayed_sameData false t.nowUs s
  -- delivery appends the due ids and leaves alone what liveness is read from
  have hclaimed : delivered.claimed = s.claimed := by
    funext e
    rw [Store.claimed, Store.claimed, hclaims]
  have hlive : delivered.liveEvent t.nowUs = s.liveEvent t.nowUs := by
    funext e
    rw [Store.liveEvent, Store.liveEvent, hclaimed, hrecords, hunclaimed]
  have horder : popOrder stack delivered.pending = order ++ [] := by
    rw [List.append_nil]
    exact congrArg (popOrder stack) (deliverDelayed_pending _ s)
  have hlen : order.length ≤ delivered.pending.length := by
    rw [← List.append_nil order, ← horder, length_popOrder]
  obtain ⟨hreply, hkeep, hslot, hrest⟩ :=
    dequeueEventLoop_spec t.nowUs delivered.pending.length horder (fun e he => by cases he) hlen
  rw [hlive, hrecords] at hreply
  rw [hlive, hclaimed] at hrest
  simp only [hlive, hclaimed] at hslot
  have hvanished {id : EntryId} (hmem : id ∈ examined (s.liveEvent t.nowUs) order) (hun : s.claims.get? id = none) :
      Vanished result.2 id := by
    refine ⟨(hslot id).trans (if_pos ⟨hmem, by simp [Store.claimed, hun]⟩), ?_⟩
    change (dequeueEventLoop stack t.nowUs delivered.pending.length delivered).2.claims.get? id = none
    rw [hkeep, hclaims, hun]
  refine ⟨hreply, ?_, fun id hid => ?_, fun id hid hun => ?_, fun id hid hc => ?_, fun id hid hne => ?_,
    hkeep.trans hclaims, hrest⟩
  · rw [show result.1 = _ from hreply]
    cases hfound : order.find? (s.liveEvent t.nowUs) with
    | none => simpa using List.find?_eq_none.mp hfound
    | some id =>
      have hid := List.find?_some hfound
      constructor
      · intro hnone
        exact absurd hnone (exists_record_of_live hid)
      · intro hall
        exact absurd hid (hall id (List.mem_of_find?_eq_some hfound))
  · exact hvanished (mem_examined.mpr (.inr hid)) (claims_eq_none_of_live (List.find?_some hid))
  · exact hvanished (mem_examined.mpr (.inl hid)) hun
  · have hsame : result.2.slot id = delivered.slot id := (hslot id).trans (if_neg fun h => h.2 hc)
    refine ⟨?_, hsame⟩
    have hcount : result.2.pending.count id = delivered.pending.count id := congrArg EventSlot.pending hsame
    rw [← List.count_pos_iff, hcount, List.count_pos_iff, ← popOrder_popOrder stack delivered.pending, horder,
      List.append_nil, ← List.count_pos_iff, count_popOrder]
    exact List.count_pos_iff.mpr hid
  · refine (hslot id).trans (if_neg fun h => ?_)
    rcases mem_examined.mp h.1 with hmem | hfound
    · exact hid hmem
    · exact hne hfound

end DjangoQueues.Redis
