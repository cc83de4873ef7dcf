import DjangoQueues.Lib.CappedAdd
import DjangoQueues.Redis.RawQueue

/-! Adding raw values to a queue with a capacity. The memory queues and the Redis priority set take a batch item by
item, with a test of the size before each; the Redis list tests the whole batch once. -/

namespace DjangoQueues.Raw

open CappedAdd

variable {α : Type}

/-! ## The four implementations -/

/-- `put_nowait` of a batch, on a queue or a stack. -/
def memoryAadd (maxsize : ℕ) (items : List α) (content : List α) : Bool × List α :=
  addEach maxsize List.length (fun x content => content ++ [x]) items content

/-- An argument of `aadd_priority`: a tuple or list begins with its priority, another value has priority 0. -/
inductive PriorityItem (α : Type) where
  | value (v : α)
  | tuple (priority : ℤ) (values : List α)

inductive PriorityValue (α : Type) where
  | one (v : α)
  | tuple (vs : List α)

/-- The item of the priority queue. -/
def PriorityItem.stored : PriorityItem α → ℤ × PriorityValue α
  | value v => (0, .one v)
  | tuple priority [v] => (-priority, .one v)
  | tuple priority vs => (-priority, .tuple vs)

/-- The content is kept in the order of arrival. -/
def memoryAaddPriority (maxsize : ℕ) (items : List (PriorityItem α)) (content : List (ℤ × PriorityValue α)) :
    Bool × List (ℤ × PriorityValue α) :=
  addEach maxsize List.length (fun x content => content ++ [x.stored]) items content

/-- Items that are `None` are counted by the test and left out by the push. -/
def redisAadd (maxsize : ℕ) (items : List (Option α)) (content : List α) : Bool × List α :=
  if items = [] then (false, content)
  else if Redis.Raw.exceeds maxsize content.length items then (true, content)
  else (false, content ++ items.reduceOption)

section Priority

variable [LinearOrder α]

/-- `ZADD NX`. -/
def zaddNx (item : ℚ × α) (content : SortedSet α) : SortedSet α :=
  match content.score? item.2 with
  | some _ => content
  | none => content.add item.2 item.1

def redisAaddPriority (maxsize : ℕ) (items : List (ℚ × α)) (content : SortedSet α) : Bool × SortedSet α :=
  addEach maxsize SortedSet.card zaddNx items content

/-- The values of the items that are not stored yet, each once. -/
def newValues (items : List (ℚ × α)) (content : SortedSet α) : Finset α :=
  (items.map Prod.snd).toFinset.filter fun v => content.score? v = none

end Priority

/-! ## Calls without other clients -/

/-- The commands of a call of `aadd` that no other client interrupts. -/
theorem redisAadd_run (maxsize : ℕ) {items : List (Option α)} (hne : items ≠ []) (content : List α)
    (c : Redis.Raw.CallId) : ∃ acts s', Run (Redis.Raw.ListStep maxsize) (.opened content) acts s' ∧
      s'.items = (redisAadd maxsize items content).2 ∧
      s'.adds c = if (redisAadd maxsize items content).1 then .full else .added := by
  rw [redisAadd, if_neg hne]
  cases hfull : Redis.Raw.exceeds maxsize content.length items with
  | true =>
    refine ⟨_, _, .cons (.refused (c := c) rfl hne hfull) (.nil _), rfl, ?_⟩
    exact Function.update_self ..
  | false =>
    have hchecked := Function.update_self c (Redis.Raw.Adding.checked content.length items)
      (Redis.Raw.RawList.opened content).adds
    refine ⟨_, _, .cons (.llen (c := c) rfl hne hfull) (.cons (.rpush hchecked) (.nil _)), rfl, ?_⟩
    exact Function.update_self ..

section Priority

variable [LinearOrder α]

theorem store_zadd (item : ℚ × α) (s : Redis.Raw.RawSet α) :
    (s.zadd item.1 item.2).store = zaddNx item s.store := by
  unfold Redis.Raw.RawSet.zadd zaddNx
  cases s.store.score? item.2 <;> rfl

/-- The commands of a call of `aadd_priority` that no other client interrupts: two for each item. -/
theorem redisAaddPriority_run {maxsize : ℕ} (hm : 1 ≤ maxsize) (c : Redis.Raw.CallId) (items : List (ℚ × α))
    (s : Redis.Raw.RawSet α) (hs : s.adds c = .next items) : ∃ acts s', Run (Redis.Raw.SetStep maxsize) s acts s' ∧
      s'.store = (redisAaddPriority maxsize items s.store).2 ∧
      s'.adds c = if (redisAaddPriority maxsize items s.store).1 then .full else .next [] := by
  induction items generalizing s with
  | nil => exact ⟨[], s, .nil s, rfl, hs⟩
  | cons item items ih =>
    rw [redisAaddPriority, addEach]
    have hne : maxsize ≠ 0 := by omega
    by_cases hfull : maxsize ≤ s.store.card
    · rw [if_pos ⟨hm, hfull⟩]
      refine ⟨_, _, .cons (.refused hs hne hfull) (.nil _), rfl, ?_⟩
      exact Function.update_self ..
    · rw [if_neg fun h => hfull h.2]
      set checked := s.moveAdd c (.checked s.store.card item.1 item.2 items) with hchecked
      have hadds : checked.adds c = .checked s.store.card item.1 item.2 items := Function.update_self ..
      obtain ⟨acts, s', hrun, hstore, hphase⟩ := ih ((checked.zadd item.1 item.2).moveAdd c (.next items))
        (Function.update_self ..)
      have hnext : ((checked.zadd item.1 item.2).moveAdd c (.next items)).store = zaddNx item s.store :=
        store_zadd item checked
      rw [hnext] at hstore hphase
      exact ⟨_, s', .cons (.zcard hs hne (not_le.mp hfull)) (.cons (.zadd hadds) hrun), hstore, hphase⟩

end Priority

/-! ## What a call leaves behind -/

/-- A refused call has changed nothing, and it is refused exactly where its items do not fit. -/
structure Clean {σ : Type} (maxsize size count : ℕ) (content : σ) (r : Bool × σ) : Prop where
  unchanged : r.1 = true → r.2 = content
  refused : r.1 = true ↔ maxsize < size + count

/-- Item by item, a batch of `count` that leaves room for a part of it only is refused after that part. -/
def WholeBatch (maxsize size count : ℕ) : Prop :=
  (count = 0 → size ≤ maxsize) ∧ (size < maxsize → size + count ≤ maxsize)

theorem length_foldl_append {β : Type} (f : β → α) (xs : List β) (content : List α) :
    (xs.foldl (fun content x => content ++ [f x]) content).length = content.length + xs.length := by
  induction xs generalizing content with
  | nil => rfl
  | cons x xs ih =>
    rw [List.foldl_cons, ih, List.length_append, List.length_singleton, List.length_cons]
    omega

/-- A list to which a batch is added item by item. -/
theorem clean_addEach_iff {β : Type} {maxsize : ℕ} (hm : 1 ≤ maxsize) (f : β → α) (items : List β) (content : List α) :
    Clean maxsize content.length items.length content
      (addEach maxsize List.length (fun x content => content ++ [f x]) items content) ↔
    WholeBatch maxsize content.length items.length := by
  have hrefused := refused_iff List.length (fun x content => content ++ [f x])
    (fun x s => by rw [List.length_append]; omega) hm items content
  rw [length_foldl_append, List.length_dropLast] at hrefused
  have heq := eq_iff_of_refused List.length (fun x content => content ++ [f x]) hm items content
  have hempty : items ≠ [] ↔ items.length ≠ 0 := List.length_eq_zero_iff.not.symm
  rw [hempty] at hrefused
  unfold WholeBatch
  constructor
  · rintro ⟨hunchanged, hcount⟩
    rw [hrefused] at hcount
    refine ⟨fun hzero => by omega, fun hroom => ?_⟩
    by_contra hover
    have htrue := hrefused.mpr ⟨by omega, by omega⟩
    have hfull := (heq htrue).mp (hunchanged htrue)
    omega
  · rintro ⟨hzero, hroom⟩
    refine ⟨fun htrue => (heq htrue).mpr ?_, ?_⟩
    · have := hrefused.mp htrue
      omega
    · rw [hrefused]
      omega

/-- The Redis list: nothing is ever left behind, but the test counts the items that are `None`. -/
theorem clean_redisAadd_iff {maxsize : ℕ} (hm : 1 ≤ maxsize) (items : List (Option α)) (content : List α) :
    Clean maxsize content.length items.reduceOption.length content (redisAadd maxsize items content) ↔
    (items = [] → content.length ≤ maxsize) ∧
      (content.length + items.reduceOption.length ≤ maxsize → content.length + items.length ≤ maxsize) := by
  have hstored : items.reduceOption.length ≤ items.length := List.reduceOption_length_le items
  unfold redisAadd
  by_cases hempty : items = []
  · rw [if_pos hempty, hempty]
    constructor
    · rintro ⟨-, hcount⟩
      refine ⟨fun _ => ?_, fun h => h⟩
      by_contra hover
      cases hcount.mpr (by simpa using hover)
    · rintro ⟨hfits, -⟩
      refine ⟨fun h => (by cases h), fun h => (by cases h), fun h => ?_⟩
      have := hfits rfl
      simp only [List.reduceOption_nil, List.length_nil] at h
      omega
  · rw [if_neg hempty]
    have hexceeds : Redis.Raw.exceeds maxsize content.length items = true ↔
        maxsize < content.length + items.length := by
      rw [Redis.Raw.exceeds, decide_eq_true_eq]
      exact ⟨fun h => h.2, fun h => ⟨by omega, h⟩⟩
    split_ifs with hfull
    · rw [hexceeds] at hfull
      constructor
      · rintro ⟨-, hcount⟩
        have hover := hcount.mp rfl
        exact ⟨fun h => absurd h hempty, fun h => by omega⟩
      · rintro ⟨-, hnone⟩
        refine ⟨fun _ => rfl, fun _ => ?_, fun _ => rfl⟩
        by_contra hfits
        have := hnone (not_lt.mp hfits)
        omega
    · rw [hexceeds] at hfull
      constructor
      · exact fun _ => ⟨fun h => absurd h hempty, fun _ => by omega⟩
      · intro _
        refine ⟨fun h => (by cases h), fun h => (by cases h), fun h => ?_⟩
        omega

section Priority

variable [LinearOrder α]

theorem card_zaddNx (item : ℚ × α) (content : SortedSet α) :
    (zaddNx item content).card = content.card + if content.score? item.2 = none then 1 else 0 := by
  unfold zaddNx
  cases h : content.score? item.2 with
  | none => rw [if_pos rfl, SortedSet.card_add h]
  | some s => rfl

theorem score?_zaddNx (item : ℚ × α) (content : SortedSet α) (v : α) :
    (zaddNx item content).score? v = none ↔ content.score? v = none ∧ v ≠ item.2 := by
  unfold zaddNx
  cases h : content.score? item.2 with
  | none =>
    dsimp only
    rw [SortedSet.score?_add]
    split_ifs with hv
    · simp [hv]
    · simp [hv]
  | some s =>
    dsimp only
    constructor
    · intro hnone
      refine ⟨hnone, fun hv => ?_⟩
      rw [hv, h] at hnone
      cases hnone
    · exact fun hnone => hnone.1

theorem card_newValues_cons (item : ℚ × α) (items : List (ℚ × α)) (content : SortedSet α) :
    (newValues (item :: items) content).card =
      (newValues items (zaddNx item content)).card + if content.score? item.2 = none then 1 else 0 := by
  have hrest : newValues items (zaddNx item content) = (newValues items content).erase item.2 := by
    ext v
    simp only [newValues, Finset.mem_filter, score?_zaddNx, Finset.mem_erase]
    tauto
  unfold newValues at hrest ⊢
  rw [hrest, List.map_cons, List.toFinset_cons, Finset.filter_insert]
  split_ifs with hnew
  · rw [← Finset.card_erase_add_one (Finset.mem_insert_self item.2 _), Finset.erase_insert_eq_erase]
  · have hnot : item.2 ∉ (items.map Prod.snd).toFinset.filter fun v => content.score? v = none :=
      fun h => hnew (Finset.mem_filter.mp h).2
    rw [Finset.erase_eq_of_notMem hnot, add_zero]

theorem card_foldl_zaddNx (items : List (ℚ × α)) (content : SortedSet α) :
    (items.foldl (fun content item => zaddNx item content) content).card =
      content.card + (newValues items content).card := by
  induction items generalizing content with
  | nil => rfl
  | cons item items ih =>
    rw [List.foldl_cons, ih, card_zaddNx, card_newValues_cons]
    omega

theorem card_newValues_le (items : List (ℚ × α)) (content : SortedSet α) :
    (newValues items content).card ≤ (newValues items.dropLast content).card + 1 := by
  induction items generalizing content with
  | nil => exact Nat.zero_le _
  | cons item items ih =>
    cases items with
    | nil =>
      rw [card_newValues_cons]
      split_ifs <;> simp [newValues]
    | cons next items =>
      rw [List.dropLast_cons_of_ne_nil (List.cons_ne_nil next items), card_newValues_cons, card_newValues_cons item]
      have := ih (zaddNx item content)
      omega

/-- The priority set: the values before the last leave room, or the set is full and has not all the values yet. -/
def WholeSet (maxsize : ℕ) (items : List (ℚ × α)) (content : SortedSet α) : Prop :=
  (items = [] → content.card ≤ maxsize) ∧
  (items ≠ [] → (content.card < maxsize → content.card + (newValues items.dropLast content).card < maxsize) ∧
    (content.card = maxsize → 0 < (newValues items content).card))

theorem clean_redisAaddPriority_iff {maxsize : ℕ} (hm : 1 ≤ maxsize) (items : List (ℚ × α)) (content : SortedSet α) :
    Clean maxsize content.card (newValues items content).card content (redisAaddPriority maxsize items content) ↔
    WholeSet maxsize items content := by
  have hrefused := refused_iff SortedSet.card zaddNx (fun x s => by rw [card_zaddNx]; omega) hm items content
  rw [card_foldl_zaddNx] at hrefused
  have heq := eq_iff_of_refused SortedSet.card zaddNx hm items content
  have hlast := card_newValues_le items content
  unfold WholeSet
  constructor
  · rintro ⟨hunchanged, hcount⟩
    rw [redisAaddPriority, hrefused] at hcount
    refine ⟨fun hempty => ?_, fun hne => ⟨fun hroom => ?_, fun hfull => ?_⟩⟩
    · by_contra hover
      exact (hcount.mpr (by omega)).1 hempty
    · by_contra hover
      have htrue := hrefused.mpr ⟨hne, not_lt.mp hover⟩
      have hfull := (heq htrue).mp (hunchanged htrue)
      omega
    · have := hcount.mp ⟨hne, by omega⟩
      omega
  · rintro ⟨hempty, hitems⟩
    refine ⟨fun htrue => (heq htrue).mpr ?_, ?_⟩
    · obtain ⟨hne, hover⟩ := hrefused.mp htrue
      by_contra hroom
      have := (hitems hne).1 (not_le.mp hroom)
      omega
    · rw [redisAaddPriority, hrefused]
      by_cases hne : items = []
      · have := hempty hne
        subst hne
        constructor
        · exact fun h => absurd rfl h.1
        · intro h
          have hnone : (newValues ([] : List (ℚ × α)) content).card = 0 := rfl
          omega
      · obtain ⟨hroom, hfull⟩ := hitems hne
        constructor
        · rintro ⟨-, hover⟩
          rcases lt_trichotomy content.card maxsize with hlt | heq | hgt
          · have := hroom hlt
            omega
          · have := hfull heq
            omega
          · omega
        · intro hover
          refine ⟨hne, ?_⟩
          omega

/-- For each implementation, the batches of which a refused one changes nothing and exactly those that do not fit are
refused. -/
theorem refused_add_clean_iff {maxsize : ℕ} (hm : 1 ≤ maxsize) :
    (∀ items content : List α, Clean maxsize content.length items.length content (memoryAadd maxsize items content) ↔
      WholeBatch maxsize content.length items.length) ∧
    (∀ (items : List (PriorityItem α)) (content : List (ℤ × PriorityValue α)),
      Clean maxsize content.length items.length content (memoryAaddPriority maxsize items content) ↔
        WholeBatch maxsize content.length items.length) ∧
    (∀ (items : List (Option α)) (content : List α),
      Clean maxsize content.length items.reduceOption.length content (redisAadd maxsize items content) ↔
        (items = [] → content.length ≤ maxsize) ∧
          (content.length + items.reduceOption.length ≤ maxsize → content.length + items.length ≤ maxsize)) ∧
    ∀ (items : List (ℚ × α)) (content : SortedSet α),
      Clean maxsize content.card (newValues items content).card content (redisAaddPriority maxsize items content) ↔
        WholeSet maxsize items content :=
  ⟨clean_addEach_iff hm (fun x => x), clean_addEach_iff hm PriorityItem.stored, clean_redisAadd_iff hm,
    clean_redisAaddPriority_iff hm⟩

end Priority

theorem refused_add_clean_full :
    1 ≤ 2 ∧ Clean 2 [7, 8].length [9].length [7, 8] (memoryAadd 2 [9] [7, 8]) := by
  have hm : 1 ≤ 2 := by decide
  have hwhole : WholeBatch 2 [7, 8].length [9].length := ⟨(fun h => by cases h), (fun h => absurd h (by decide))⟩
  exact ⟨hm, ((refused_add_clean_iff hm).1 [9] [7, 8]).mpr hwhole⟩

/-- With room for one more, a batch of two is refused after its first item, on the memory queues and on the Redis
priority set. The Redis list refuses one item beside a `None`, and the full set refuses a value it has. -/
theorem refused_add_changes :
    memoryAadd 2 [8, 9] [7] = (true, [7, 8]) ∧
    memoryAaddPriority 2 [.value 8, .value 9] [(0, .one 7)] = (true, [(0, .one 7), (0, .one 8)]) ∧
    redisAadd 1 [none, some 7] [] = (true, []) ∧
    (redisAaddPriority 2 [(1, 8), (1, 9)] (SortedSet.empty.add 7 1)).1 = true ∧
    (redisAaddPriority 2 [(1, 8), (1, 9)] (SortedSet.empty.add 7 1)).2.card = 2 ∧
    (redisAaddPriority 1 [(1, 7)] (SortedSet.empty.add 7 1)).1 = true := by
  refine ⟨rfl, rfl, rfl, ?_, ?_, ?_⟩
  · decide +kernel
  · decide +kernel
  · decide +kernel

end DjangoQueues.Raw
