import DjangoQueues.Lib.Run
import DjangoQueues.Lib.SortedSet
import Mathlib.Data.List.ReduceOption

/-! The raw values of a Redis queue: a list with a capacity, and the sorted set of a priority
queue. A provider call is one command after the other, each atomic on the server, and the
commands of different clients interleave. -/

namespace DjangoQueues.Redis.Raw

abbrev CallId := ℕ

section ListQueue

variable {α : Type}

/-- Where a call of `aadd` is. -/
inductive Adding (α : Type) where
  | idle
  /-- `LLEN` has been read and leaves room. -/
  | checked (size : ℕ) (items : List (Option α))
  | full
  | added

structure RawList (α : Type) where
  items : List α
  adds : CallId → Adding α

/-- No call has begun. -/
def RawList.opened (items : List α) : RawList α := ⟨items, fun _ => .idle⟩

inductive ListAction (α : Type) where
  | llen (c : CallId) (items : List (Option α))
  | rpush (c : CallId)
  | pop (stack : Bool)

def RawList.move (c : CallId) (phase : Adding α) (s : RawList α) : RawList α :=
  { s with adds := Function.update s.adds c phase }

/-- `QueueFullException` is raised. -/
def exceeds (maxsize size : ℕ) (items : List (Option α)) : Bool := maxsize ≠ 0 ∧ maxsize < size + items.length

inductive ListStep (maxsize : ℕ) (s : RawList α) : ListAction α → RawList α → Prop
  | refused {c : CallId} {items : List (Option α)} (hc : s.adds c = .idle) (hne : items ≠ [])
      (hfull : exceeds maxsize s.items.length items = true) :
    ListStep maxsize s (.llen c items) (s.move c .full)
  | llen {c : CallId} {items : List (Option α)} (hc : s.adds c = .idle) (hne : items ≠ [])
      (hfull : exceeds maxsize s.items.length items = false) :
    ListStep maxsize s (.llen c items) (s.move c (.checked s.items.length items))
  /-- Items that are `None` are left out. -/
  | rpush {c : CallId} {size : ℕ} {items : List (Option α)} (hc : s.adds c = .checked size items) :
    ListStep maxsize s (.rpush c) (RawList.move c .added { s with items := s.items ++ items.reduceOption })
  | pop {stack : Bool} :
    ListStep maxsize s (.pop stack) { s with items := if stack then s.items.dropLast else s.items.tail }

/-- A push finds the list no longer than its call has read it. -/
def ListFresh (s : RawList α) : ListAction α → Prop
  | .rpush c => ∀ size items, s.adds c = .checked size items → s.items.length ≤ size
  | _ => True

structure ListFreshStep (maxsize : ℕ) (s : RawList α) (a : ListAction α) (s' : RawList α) : Prop where
  step : ListStep maxsize s a s'
  fresh : ListFresh s a

structure ListInv (maxsize : ℕ) (s : RawList α) : Prop where
  length : s.items.length ≤ maxsize
  checked : ∀ c size items, s.adds c = .checked size items → size + items.length ≤ maxsize

theorem ListInv.move {maxsize : ℕ} {s : RawList α} (h : ListInv maxsize s) (c : CallId) {phase : Adding α}
    (hp : ∀ size items, phase = .checked size items → size + items.length ≤ maxsize) :
    ListInv maxsize (s.move c phase) where
  length := h.length
  checked := fun c' size items hc => by
    rw [show (s.move c phase).adds c' = if c' = c then phase else s.adds c' from Function.update_apply ..] at hc
    split_ifs at hc
    · exact hp size items hc
    · exact h.checked c' size items hc

theorem ListInv.step {maxsize : ℕ} (hm : 1 ≤ maxsize) {s s' : RawList α} {a : ListAction α} (h : ListInv maxsize s)
    (hstep : ListFreshStep maxsize s a s') : ListInv maxsize s' := by
  obtain ⟨hstep, hfresh⟩ := hstep
  cases hstep with
  | refused hc hne hfull => exact h.move _ fun _ _ hp => by cases hp
  | @llen c items hc hne hfull =>
    apply h.move
    intro size items' hp
    obtain ⟨rfl, rfl⟩ := Adding.checked.inj hp
    have hroom : ¬(maxsize ≠ 0 ∧ maxsize < s.items.length + items.length) := of_decide_eq_false hfull
    omega
  | @rpush c size items hc =>
    have hroom := h.checked c size items hc
    have hlen := hfresh size items hc
    have hpushed : items.reduceOption.length ≤ items.length := List.reduceOption_length_le items
    have hinv : ListInv maxsize { s with items := s.items ++ items.reduceOption } := by
      refine ⟨?_, h.checked⟩
      rw [List.length_append]
      omega
    exact hinv.move _ fun _ _ hp => by cases hp
  | @pop stack =>
    refine ⟨le_trans ?_ h.length, h.checked⟩
    dsimp only
    split_ifs
    · exact (List.dropLast_sublist _).length_le
    · exact (List.tail_sublist _).length_le

theorem RawList.length_le {maxsize : ℕ} (hm : 1 ≤ maxsize) {s s' : RawList α} {as : List (ListAction α)}
    (hidle : ∀ c, s.adds c = .idle) (hlen : s.items.length ≤ maxsize) (h : Run (ListFreshStep maxsize) s as s') :
    s'.items.length ≤ maxsize := by
  have hinv : ListInv maxsize s := ⟨hlen, fun c size items hc => by rw [hidle c] at hc; cases hc⟩
  exact (h.invariant (fun _ _ _ hi hs => hi.step hm hs) hinv).length

end ListQueue

section SetQueue

variable {α : Type} [LinearOrder α]

/-- Where a call of `aadd_priority` is. -/
inductive AddingPriority (α : Type) where
  | idle
  | next (todo : List (ℚ × α))
  /-- `ZCARD` has been read for the item `(priority, value)` and leaves room. -/
  | checked (size : ℕ) (priority : ℚ) (value : α) (todo : List (ℚ × α))
  | full

/-- Where a call of `aget_priority` is. -/
inductive Getting (α : Type) where
  | idle
  /-- `ZREVRANGE` has named this member. -/
  | holding (member : α)
  | returned (member : α)
  | empty

structure RawSet (α : Type) [LinearOrder α] where
  store : SortedSet α
  adds : CallId → AddingPriority α
  gets : CallId → Getting α
  /-- What the calls of `aget_priority` have returned so far. -/
  returned : List α

inductive SetAction (α : Type) where
  | start (c : CallId) (items : List (ℚ × α))
  | zcard (c : CallId)
  | zadd (c : CallId)
  | zrevrange (c : CallId)
  | zrem (c : CallId)
  | bzpopmax (c : CallId)

namespace RawSet

/-- No call has begun. -/
def opened (store : SortedSet α) : RawSet α := ⟨store, fun _ => .idle, fun _ => .idle, []⟩

def moveAdd (c : CallId) (phase : AddingPriority α) (s : RawSet α) : RawSet α :=
  { s with adds := Function.update s.adds c phase }

def moveGet (c : CallId) (phase : Getting α) (s : RawSet α) : RawSet α :=
  { s with gets := Function.update s.gets c phase }

/-- `ZADD NX`: a member that is stored keeps its score. -/
def zadd (priority : ℚ) (value : α) (s : RawSet α) : RawSet α :=
  match s.store.score? value with
  | some _ => s
  | none => { s with store := s.store.add value priority }

def zrem (member : α) (s : RawSet α) : RawSet α := { s with store := s.store.rem member }

/-- The call `c` gives `member` to its caller. -/
def give (c : CallId) (member : α) (s : RawSet α) : RawSet α :=
  { s.moveGet c (.returned member) with returned := member :: s.returned }

end RawSet

inductive SetStep (maxsize : ℕ) (s : RawSet α) : SetAction α → RawSet α → Prop
  | start {c : CallId} {items : List (ℚ × α)} (hc : s.adds c = .idle) :
    SetStep maxsize s (.start c items) (s.moveAdd c (.next items))
  | refused {c : CallId} {priority : ℚ} {value : α} {todo : List (ℚ × α)}
      (hc : s.adds c = .next ((priority, value) :: todo)) (hm : maxsize ≠ 0) (hfull : maxsize ≤ s.store.card) :
    SetStep maxsize s (.zcard c) (s.moveAdd c .full)
  | zcard {c : CallId} {priority : ℚ} {value : α} {todo : List (ℚ × α)}
      (hc : s.adds c = .next ((priority, value) :: todo)) (hm : maxsize ≠ 0) (hroom : s.store.card < maxsize) :
    SetStep maxsize s (.zcard c) (s.moveAdd c (.checked s.store.card priority value todo))
  | zadd {c : CallId} {size : ℕ} {priority : ℚ} {value : α} {todo : List (ℚ × α)}
      (hc : s.adds c = .checked size priority value todo) :
    SetStep maxsize s (.zadd c) ((s.zadd priority value).moveAdd c (.next todo))
  /-- Without a capacity the size is not read. -/
  | unchecked {c : CallId} {priority : ℚ} {value : α} {todo : List (ℚ × α)}
      (hc : s.adds c = .next ((priority, value) :: todo)) (hm : maxsize = 0) :
    SetStep maxsize s (.zadd c) ((s.zadd priority value).moveAdd c (.next todo))
  /-- The first read of a call, or the read of a further attempt of `apoll_priority`. -/
  | zrevrange {c : CallId} {priority : ℚ} {member : α} (hc : s.gets c = .idle ∨ s.gets c = .empty)
      (htop : s.store.top? = some (priority, member)) :
    SetStep maxsize s (.zrevrange c) (s.moveGet c (.holding member))
  | empty {c : CallId} (hc : s.gets c = .idle ∨ s.gets c = .empty) (htop : s.store.top? = none) :
    SetStep maxsize s (.zrevrange c) (s.moveGet c .empty)
  /-- The number of members that `ZREM` has removed is not looked at. -/
  | zrem {c : CallId} {member : α} (hc : s.gets c = .holding member) :
    SetStep maxsize s (.zrem c) ((s.zrem member).give c member)
  /-- `apoll_priority` after an empty read. -/
  | bzpopmax {c : CallId} {priority : ℚ} {member : α} (hc : s.gets c = .empty)
      (htop : s.store.top? = some (priority, member)) :
    SetStep maxsize s (.bzpopmax c) ((s.zrem member).give c member)

namespace RawSet

/-- A `ZADD` finds the set no larger than its call has read it. -/
def Fresh (s : RawSet α) : SetAction α → Prop
  | .zadd c => ∀ size priority value todo, s.adds c = .checked size priority value todo → s.store.card ≤ size
  | _ => True

/-- A `ZREM` finds the member that its call has read. -/
def Stored (s : RawSet α) : SetAction α → Prop
  | .zrem c => ∀ member, s.gets c = .holding member → s.store.score? member ≠ none
  | _ => True

end RawSet

structure SetFreshStep (maxsize : ℕ) (s : RawSet α) (a : SetAction α) (s' : RawSet α) : Prop where
  step : SetStep maxsize s a s'
  fresh : s.Fresh a

structure SetInv (maxsize : ℕ) (s : RawSet α) : Prop where
  card : s.store.card ≤ maxsize
  checked : ∀ c size priority value todo, s.adds c = .checked size priority value todo → size < maxsize

namespace SetInv

variable {maxsize : ℕ} {s s' : RawSet α}

theorem moveAdd (h : SetInv maxsize s) (c : CallId) {phase : AddingPriority α}
    (hp : ∀ size priority value todo, phase = .checked size priority value todo → size < maxsize) :
    SetInv maxsize (s.moveAdd c phase) where
  card := h.card
  checked := fun c' size priority value todo hc => by
    rw [show (s.moveAdd c phase).adds c' = if c' = c then phase else s.adds c' from Function.update_apply ..] at hc
    split_ifs at hc
    · exact hp size priority value todo hc
    · exact h.checked c' size priority value todo hc

theorem zadd (h : SetInv maxsize s) (priority : ℚ) (value : α) (hroom : s.store.card < maxsize) :
    SetInv maxsize (s.zadd priority value) := by
  rw [RawSet.zadd]
  split
  · exact h
  · rename_i habsent
    refine ⟨?_, h.checked⟩
    rw [SortedSet.card_add habsent]
    exact hroom

theorem give (h : SetInv maxsize s) (c : CallId) (member : α) :
    SetInv maxsize ((s.zrem member).give c member) where
  card := le_trans (s.store.card_rem_le member) h.card
  checked := h.checked

theorem step (hm : 1 ≤ maxsize) {a : SetAction α} (h : SetInv maxsize s) (hstep : SetFreshStep maxsize s a s') :
    SetInv maxsize s' := by
  obtain ⟨hstep, hfresh⟩ := hstep
  cases hstep with
  | start hc => exact h.moveAdd _ fun _ _ _ _ hp => by cases hp
  | refused hc hm hfull => exact h.moveAdd _ fun _ _ _ _ hp => by cases hp
  | zcard hc hm hroom =>
    apply h.moveAdd
    intro size priority value todo hp
    obtain ⟨rfl, -⟩ := AddingPriority.checked.inj hp
    exact hroom
  | @zadd c size priority value todo hc =>
    have hread : s.store.card ≤ size := hfresh size priority value todo hc
    have hroom : size < maxsize := h.checked c size priority value todo hc
    exact (h.zadd priority value (lt_of_le_of_lt hread hroom)).moveAdd _ fun _ _ _ _ hp => by cases hp
  | unchecked hc hzero =>
    rw [hzero] at hm
    exact absurd hm (by decide)
  | zrevrange hc htop => exact ⟨h.card, h.checked⟩
  | empty hc htop => exact ⟨h.card, h.checked⟩
  | zrem hc => exact h.give _ _
  | bzpopmax hc htop => exact h.give _ _

end SetInv

theorem RawSet.card_le {maxsize : ℕ} (hm : 1 ≤ maxsize) {s s' : RawSet α} {as : List (SetAction α)}
    (hidle : ∀ c, s.adds c = .idle) (hcard : s.store.card ≤ maxsize) (h : Run (SetFreshStep maxsize) s as s') :
    s'.store.card ≤ maxsize := by
  have hinv : SetInv maxsize s := ⟨hcard, fun c size priority value todo hc => by rw [hidle c] at hc; cases hc⟩
  exact (h.invariant (fun _ _ _ hi hs => hi.step hm hs) hinv).card

/-- The capacity is kept in every run in which a push finds the queue no larger than its own call
has read it. -/
theorem capacity_kept {maxsize : ℕ} (hm : 1 ≤ maxsize) :
    (∀ (s s' : RawList α) (as : List (ListAction α)), (∀ c, s.adds c = .idle) → s.items.length ≤ maxsize →
      Run (ListFreshStep maxsize) s as s' → s'.items.length ≤ maxsize) ∧
    ∀ (s s' : RawSet α) (as : List (SetAction α)), (∀ c, s.adds c = .idle) → s.store.card ≤ maxsize →
      Run (SetFreshStep maxsize) s as s' → s'.store.card ≤ maxsize := by
  constructor
  · intro s s' as hidle hlen h
    exact RawList.length_le hm hidle hlen h
  · intro s s' as hidle hcard h
    exact RawSet.card_le hm hidle hcard h

theorem capacity_kept_one_call :
    (∃ s' : RawList ℕ, Run (ListFreshStep 1) (RawList.opened []) [.llen 0 [some 7], .rpush 0] s' ∧
      s'.items = [7] ∧ s'.items.length ≤ 1) ∧
    ∃ s' : RawSet ℕ, Run (SetFreshStep 1) (RawSet.opened .empty) [.start 0 [(3, 7)], .zcard 0, .zadd 0] s' ∧
      s'.store.card = 1 ∧ s'.store.card ≤ 1 := by
  have hlist : Run (ListFreshStep 1) (RawList.opened ([] : List ℕ)) [.llen 0 [some 7], .rpush 0] _ :=
    .cons ⟨.llen rfl (by decide) rfl, trivial⟩
      (.cons ⟨.rpush rfl, fun size items hc => by cases hc; decide⟩ (.nil _))
  have hset : Run (SetFreshStep 1) (RawSet.opened (.empty : SortedSet ℕ)) [.start 0 [(3, 7)], .zcard 0, .zadd 0] _ :=
    .cons ⟨.start rfl, trivial⟩ (.cons ⟨.zcard rfl (by decide) (by decide), trivial⟩
      (.cons ⟨.zadd rfl, fun size priority value todo hc => by cases hc; decide⟩ (.nil _)))
  exact ⟨⟨_, hlist, rfl, (capacity_kept (by decide)).1 _ _ _ (fun _ => rfl) (by decide) hlist⟩,
    ⟨_, hset, rfl, (capacity_kept (by decide)).2 _ _ _ (fun _ => rfl) (by decide) hset⟩⟩

/-- Two calls read the empty queue and both push. -/
theorem capacity_exceeded :
    (∃ s' : RawList ℕ, Run (ListStep 1) (RawList.opened [])
      [.llen 0 [some 7], .llen 1 [some 8], .rpush 0, .rpush 1] s' ∧ s'.items = [7, 8]) ∧
    ∃ s' : RawSet ℕ, Run (SetStep 1) (RawSet.opened .empty)
      [.start 0 [(3, 7)], .start 1 [(3, 8)], .zcard 0, .zcard 1, .zadd 0, .zadd 1] s' ∧ s'.store.card = 2 := by
  refine ⟨⟨_, .cons (.llen rfl (by decide) rfl) (.cons (.llen rfl (by decide) rfl)
    (.cons (.rpush rfl) (.cons (.rpush rfl) (.nil _)))), rfl⟩, ?_⟩
  exact ⟨_, .cons (.start rfl) (.cons (.start rfl) (.cons (.zcard rfl (by decide) (by decide))
    (.cons (.zcard rfl (by decide) (by decide)) (.cons (.zadd rfl) (.cons (.zadd rfl) (.nil _)))))), rfl⟩

def IsGet : SetAction α → Prop
  | .zrevrange _ | .zrem _ | .bzpopmax _ => True
  | _ => False

structure SetStoredStep (maxsize : ℕ) (s : RawSet α) (a : SetAction α) (s' : RawSet α) : Prop where
  step : SetStep maxsize s a s'
  stored : s.Stored a

/-- What is stored and what has been returned, together. -/
def RawSet.total (s : RawSet α) : ℕ := s.store.card + s.returned.length

/-- No member is returned twice, nor returned and stored. -/
structure Given (s : RawSet α) : Prop where
  nodup : s.returned.Nodup
  absent : ∀ m ∈ s.returned, s.store.score? m = none

section Gets

variable {maxsize : ℕ} {s s' : RawSet α} {a : SetAction α} {as : List (SetAction α)}

theorem RawSet.total_give (c : CallId) (member : α) :
    ((s.zrem member).give c member).total = (s.store.rem member).card + s.returned.length + 1 := rfl

theorem RawSet.total_give_of_stored {c : CallId} {member : α} (h : s.store.score? member ≠ none) :
    ((s.zrem member).give c member).total = s.total := by
  obtain ⟨priority, hscore⟩ := Option.ne_none_iff_exists'.mp h
  have hcard := SortedSet.card_rem hscore
  rw [RawSet.total_give, RawSet.total]
  omega

theorem RawSet.total_give_of_absent {c : CallId} {member : α} (h : s.store.score? member = none) :
    ((s.zrem member).give c member).total = s.total + 1 := by
  rw [RawSet.total_give, SortedSet.rem_of_score?_eq_none h, RawSet.total]

theorem stored_of_top? {priority : ℚ} {member : α} (htop : s.store.top? = some (priority, member)) :
    s.store.score? member ≠ none := by
  rw [(SortedSet.top?_eq_some htop).1]
  exact Option.some_ne_none _

/-- A get never takes from the total, and adds to it exactly when its member is gone. -/
theorem total_step (hget : IsGet a) (h : SetStep maxsize s a s') :
    s.total ≤ s'.total ∧ (s'.total = s.total → s.Stored a) ∧ (s.Stored a → s'.total = s.total) := by
  cases h with
  | start hc => exact hget.elim
  | refused hc hm hfull => exact hget.elim
  | zcard hc hm hroom => exact hget.elim
  | zadd hc => exact hget.elim
  | unchecked hc hm => exact hget.elim
  | zrevrange hc htop => exact ⟨le_rfl, fun _ => trivial, fun _ => rfl⟩
  | empty hc htop => exact ⟨le_rfl, fun _ => trivial, fun _ => rfl⟩
  | @zrem c member hc =>
    cases hscore : s.store.score? member with
    | none =>
      have htotal := RawSet.total_give_of_absent (c := c) hscore
      refine ⟨by omega, fun heq => by omega, fun hstored => ?_⟩
      exact absurd hscore (hstored member hc)
    | some priority =>
      have hne : s.store.score? member ≠ none := by simp [hscore]
      have htotal := RawSet.total_give_of_stored (c := c) hne
      refine ⟨htotal.ge, fun _ member' hc' => ?_, fun _ => htotal⟩
      obtain rfl := Getting.holding.inj (hc.symm.trans hc')
      exact hne
  | @bzpopmax c priority member hc htop =>
    have htotal := RawSet.total_give_of_stored (c := c) (stored_of_top? htop)
    exact ⟨htotal.ge, fun _ => trivial, fun _ => htotal⟩

theorem total_le (h : Run (SetStep maxsize) s as s') (hget : ∀ a ∈ as, IsGet a) : s.total ≤ s'.total := by
  induction h with
  | nil _ => exact le_rfl
  | cons hstep _ ih =>
    rw [List.forall_mem_cons] at hget
    exact (total_step hget.1 hstep).1.trans (ih hget.2)

/-- A run that keeps the total has removed a stored member at every `ZREM`. -/
theorem stored_of_total (h : Run (SetStep maxsize) s as s') (hget : ∀ a ∈ as, IsGet a)
    (htotal : s'.total = s.total) : Run (SetStoredStep maxsize) s as s' := by
  induction h with
  | nil s => exact .nil s
  | cons hstep hrun ih =>
    rw [List.forall_mem_cons] at hget
    obtain ⟨hle, hstored, -⟩ := total_step hget.1 hstep
    have hrest := total_le hrun hget.2
    have hfirst := le_antisymm (htotal ▸ hrest) hle
    exact .cons ⟨hstep, hstored hfirst⟩ (ih hget.2 (htotal.trans hfirst.symm))

theorem total_of_stored (h : Run (SetStoredStep maxsize) s as s') (hget : ∀ a ∈ as, IsGet a) :
    s'.total = s.total := by
  induction h with
  | nil _ => rfl
  | cons hstep _ ih =>
    rw [List.forall_mem_cons] at hget
    exact (ih hget.2).trans ((total_step hget.1 hstep.step).2.2 hstep.stored)

theorem Given.give (h : Given s) {c : CallId} {member : α} (hstored : s.store.score? member ≠ none) :
    Given ((s.zrem member).give c member) where
  nodup := by
    refine List.nodup_cons.mpr ⟨fun hmem => ?_, h.nodup⟩
    exact hstored (h.absent member hmem)
  absent := by
    intro m hm
    change (s.store.rem member).score? m = none
    rw [SortedSet.score?_rem]
    split_ifs with heq
    · rfl
    · exact h.absent m ((List.mem_cons.mp hm).resolve_left heq)

theorem Given.step (hget : IsGet a) (h : Given s) (hstep : SetStoredStep maxsize s a s') : Given s' := by
  obtain ⟨hstep, hstored⟩ := hstep
  cases hstep with
  | start hc => exact hget.elim
  | refused hc hm hfull => exact hget.elim
  | zcard hc hm hroom => exact hget.elim
  | zadd hc => exact hget.elim
  | unchecked hc hm => exact hget.elim
  | zrevrange hc htop => exact ⟨h.nodup, h.absent⟩
  | empty hc htop => exact ⟨h.nodup, h.absent⟩
  | @zrem c member hc => exact h.give (hstored member hc)
  | bzpopmax hc htop => exact h.give (stored_of_top? htop)

/-- The calls of a run of gets return distinct members, and the set shrinks by as many, exactly when
every `ZREM` finds the member that its own call has read. -/
theorem given_once_iff {store : SortedSet α} (h : Run (SetStep maxsize) (RawSet.opened store) as s')
    (hget : ∀ a ∈ as, IsGet a) :
    s'.returned.Nodup ∧ s'.store.card + s'.returned.length = store.card ↔
      Run (SetStoredStep maxsize) (RawSet.opened store) as s' := by
  constructor
  · rintro ⟨-, htotal⟩
    exact stored_of_total h hget htotal
  · intro hrun
    have hopened : Given (RawSet.opened store) := ⟨List.nodup_nil, fun m hm => by cases hm⟩
    have hgiven := hrun.invariant_of_forall (fun _ _ _ hg hi hs => Given.step hg hi hs) hget hopened
    exact ⟨hgiven.nodup, total_of_stored hrun hget⟩

end Gets

end SetQueue

/-- Seven above eight. -/
def twoMembers : SortedSet ℕ := (SortedSet.empty.add 7 3).add 8 1

theorem given_once_in_turn :
    ∃ s' : RawSet ℕ, Run (SetStep 0) (RawSet.opened twoMembers)
        [.zrevrange 0, .zrem 0, .zrevrange 1, .zrem 1] s' ∧ s'.returned = [8, 7] ∧
      s'.returned.Nodup ∧ s'.store.card + s'.returned.length = twoMembers.card := by
  have hrun : Run (SetStoredStep 0) (RawSet.opened twoMembers) [.zrevrange 0, .zrem 0, .zrevrange 1, .zrem 1] _ :=
    .cons ⟨.zrevrange (.inl rfl) rfl, trivial⟩ (.cons ⟨.zrem rfl, fun m hm => by cases hm; decide⟩
      (.cons ⟨.zrevrange (.inl rfl) rfl, trivial⟩ (.cons ⟨.zrem rfl, fun m hm => by cases hm; decide⟩ (.nil _))))
  refine ⟨_, hrun.mono fun _ _ _ hs => hs.step, rfl, ?_⟩
  exact (given_once_iff (hrun.mono fun _ _ _ hs => hs.step) (by simp [IsGet])).mpr hrun

/-- Both calls read the top member before either removes it: one member is returned twice. -/
theorem given_twice :
    ∃ s' : RawSet ℕ, Run (SetStep 0) (RawSet.opened twoMembers)
        [.zrevrange 0, .zrevrange 1, .zrem 0, .zrem 1] s' ∧ s'.returned = [7, 7] ∧ s'.store.card = 1 :=
  ⟨_, .cons (.zrevrange (.inl rfl) rfl) (.cons (.zrevrange (.inl rfl) rfl)
    (.cons (.zrem rfl) (.cons (.zrem rfl) (.nil _)))), rfl, rfl⟩

end DjangoQueues.Redis.Raw
