import DjangoQueues.RecodedEntries

/-! What `from_dict` raises. A record that cannot be restored should fail with a `ValueError`; an identity that is
no text, an integer that no float can hold, and a value nested too deeply for `repr` or `json.dumps` fail otherwise
when the checks before them pass. -/

namespace DjangoQueues

open Rounding

/-- The exceptions that `from_dict` makes of its own or of a `TypeError`. -/
def RestoreError.IsValueError : RestoreError → Prop
  | .missing _ => True
  | .notRestored _ => True
  | .invalid _ => True
  | .attributeError _ => False
  | .overflowError _ => False
  | .recursionError _ => False

/-- An exception of another class is raised. -/
def Escapes {α : Type} (x : Except RestoreError α) : Prop := ∃ err, x = .error err ∧ ¬err.IsValueError

section Escapes

variable {α β : Type}

@[simp]
theorem not_escapes_ok (a : α) : ¬Escapes (.ok a) := by
  rintro ⟨err, h, -⟩
  cases h

@[simp]
theorem escapes_error (err : RestoreError) : Escapes (.error err : Except RestoreError α) ↔ ¬err.IsValueError := by
  constructor
  · rintro ⟨e, he, hnot⟩
    rwa [Except.error.inj he]
  · exact fun h => ⟨err, rfl, h⟩

/-- Nothing escapes from two steps when nothing does from the first, nor from the second where it is reached. -/
theorem not_escapes_bind {x : Except RestoreError α} {f : α → Except RestoreError β} :
    ¬Escapes (x >>= f) ↔ ¬Escapes x ∧ ∀ a, x = .ok a → ¬Escapes (f a) := by
  cases x with
  | error err =>
    have hbind : (Except.error err >>= f) = .error err := rfl
    rw [hbind, escapes_error, escapes_error]
    exact ⟨fun h => ⟨h, fun a ha => by cases ha⟩, fun h => h.1⟩
  | ok a =>
    have hbind : (Except.ok a >>= f) = f a := rfl
    rw [hbind]
    refine ⟨fun h => ⟨not_escapes_ok a, fun b hb => ?_⟩, fun h => h.2 a rfl⟩
    rwa [← Except.ok.inj hb]

end Escapes

namespace QueueEntry

variable {cls : EntryClass}

/-! ## The values that each decoder takes -/

/-- `null` or a text, which `uuid.UUID` can look into. -/
def IsText (v : Json) : Prop := v = .null ∨ ∃ s, v = .str s

/-- An integer that `math.isfinite` cannot convert. -/
def TooLarge (v : Json) : Prop := ∃ n : ℤ, v = .num (.int n) ∧ 2 ^ 1024 ≤ |fl n|

def IdAccepted (v : Json) : Prop := v = .null ∨ ∃ s : String, v = .str s ∧ (EntryId.parseUuid? s).isSome

/-- The text of a UUID of version 7. -/
def IdVersion7 (v : Json) : Prop := ∃ (s : String) (d : List (Fin 16)), v = .str s ∧ EntryId.parseUuid? s = some d ∧
  IsVersion7 d

def StatusAccepted (v : Json) : Prop := v = .null ∨ ∃ s : String, v = .str s ∧ (QueueEntryStatus.ofValue? s).isSome

def InstantAccepted (v : Json) : Prop :=
  v = .null ∨ (∃ n : ℤ, v = .num (.int n) ∧ |fl n| < 2 ^ 1024 ∧ 0 ≤ n) ∨
    ∃ q h, v = .num (.float (.finite q h)) ∧ 0 ≤ q

def BudgetAccepted (v : Json) : Prop := v = .null ∨ ∃ t : PyNum, v = .num t ∧ t.IsBudget

def PriorityAccepted (v : Json) : Prop := ∃ n : ℤ, v = .num (.int n)

section Decoders

variable {limits : RecursionLimits} {v : Json}

/-- A check that shows what it refuses fails in its own way for a value that `repr` gets through. -/
theorem not_escapes_shown {α : Type} {name : String} {check : Json → Except RestoreError α}
    (hok : ∀ a, check v = .ok a → v.nesting = 0) :
    ¬Escapes (shown limits name check v) ↔ ¬Escapes (check v) ∧ v.nesting ≤ limits.repr := by
  unfold shown
  cases hcheck : check v with
  | error err =>
    simp only [Except.mapError, escapes_error]
    split_ifs with h <;> simp [h, RestoreError.IsValueError]
  | ok a => simp [Except.mapError, hok a hcheck]

theorem not_escapes_restoreId : ¬Escapes (restoreId v) ↔ IsText v := by
  unfold restoreId
  split
  · simp [IsText]
  · rename_i s
    refine ⟨fun _ => .inr ⟨_, rfl⟩, fun _ => ?_⟩
    split <;> simp [RestoreError.IsValueError]
  · simp [IsText, RestoreError.IsValueError]
  · rename_i hnull hplain hlone
    have hnot : ¬IsText v := by
      rintro (h | ⟨s, h⟩)
      · exact hnull h
      · cases s with
        | plain s => exact hplain s h
        | lone t => exact hlone t h
    simp [RestoreError.IsValueError, hnot]

theorem restoreId_eq_ok {id? : Option (List (Fin 16))} (h : restoreId v = .ok id?) :
    IdAccepted v ∧ (id? = none ↔ v = .null) ∧ ∀ d, id? = some d → (IdVersion7 v ↔ IsVersion7 d) := by
  unfold restoreId at h
  split at h
  · obtain rfl := Except.ok.inj h
    exact ⟨.inl rfl, by simp, fun d hd => by cases hd⟩
  · rename_i s
    split at h
    · rename_i d hd
      obtain rfl := Except.ok.inj h
      refine ⟨.inr ⟨_, rfl, by simp [hd]⟩, by simp, fun d' hd' => ?_⟩
      obtain rfl := Option.some.inj hd'
      constructor
      · rintro ⟨s', d', hs, hd', hv⟩
        obtain rfl : s = s' := Text.plain.inj (JValue.str.inj hs)
        rwa [Option.some.inj (hd.symm.trans hd')]
      · exact fun hv => ⟨s, d, rfl, hd, hv⟩
    · cases h
  · cases h
  · cases h

theorem exists_restoreId (h : IdAccepted v) : ∃ id?, restoreId v = .ok id? := by
  rcases h with rfl | ⟨s, rfl, hs⟩
  · exact ⟨none, rfl⟩
  · obtain ⟨d, hd⟩ := Option.isSome_iff_exists.mp hs
    exact ⟨some d, by rw [restoreId, hd]⟩

theorem not_escapes_restoreStatus (v : Json) : ¬Escapes (restoreStatus v) := by
  unfold restoreStatus
  split
  · simp
  · split <;> simp [RestoreError.IsValueError]
  · simp [RestoreError.IsValueError]

theorem restoreStatus_eq_ok {status? : Option QueueEntryStatus} (h : restoreStatus v = .ok status?) :
    StatusAccepted v ∧ (status? = none ↔ v = .null) := by
  unfold restoreStatus at h
  split at h
  · obtain rfl := Except.ok.inj h
    exact ⟨.inl rfl, by simp⟩
  · split at h
    · rename_i st hst
      obtain rfl := Except.ok.inj h
      exact ⟨.inr ⟨_, rfl, by simp [hst]⟩, by simp⟩
    · cases h
  · cases h

theorem nesting_of_statusAccepted (h : StatusAccepted v) : v.nesting = 0 := by
  rcases h with rfl | ⟨s, rfl, -⟩ <;> rfl

theorem not_escapes_shownStatus :
    ¬Escapes (shown limits "status" restoreStatus v) ↔ v.nesting ≤ limits.repr := by
  rw [not_escapes_shown fun _ h => nesting_of_statusAccepted (restoreStatus_eq_ok h).1]
  exact and_iff_right (not_escapes_restoreStatus v)

theorem exists_restoreStatus (limits : RecursionLimits) (h : StatusAccepted v) :
    ∃ status?, shown limits "status" restoreStatus v = .ok status? := by
  simp only [shown_eq_ok]
  rcases h with rfl | ⟨s, rfl, hs⟩
  · exact ⟨none, rfl⟩
  · obtain ⟨st, hst⟩ := Option.isSome_iff_exists.mp hs
    exact ⟨some st, by rw [restoreStatus, hst]⟩

theorem not_escapes_restoreInstant {name : String} : ¬Escapes (restoreInstant name v) ↔ ¬TooLarge v := by
  unfold restoreInstant
  split
  · simp [TooLarge]
  · rename_i n
    have hlarge : TooLarge (.num (.int n)) ↔ 2 ^ 1024 ≤ |fl n| := by simp [TooLarge]
    rw [hlarge]
    split_ifs with h hneg <;> simp [RestoreError.IsValueError, h]
  · have hlarge (q : ℚ) (hq : IsDouble q) : ¬TooLarge (.num (.float (.finite q hq))) := by simp [TooLarge]
    split_ifs <;> simp [RestoreError.IsValueError, hlarge]
  · rename_i hint hfloat
    have hlarge : ¬TooLarge v := by
      rintro ⟨n, hn, -⟩
      exact hint n hn
    simp [RestoreError.IsValueError, hlarge]

theorem restoreInstant_eq_ok {name : String} {t? : Option ClockTime} (h : restoreInstant name v = .ok t?) :
    InstantAccepted v ∧ (t? = none ↔ v = .null) := by
  unfold restoreInstant at h
  split at h
  · obtain rfl := Except.ok.inj h
    exact ⟨.inl rfl, by simp⟩
  · rename_i n
    split_ifs at h with hlarge hneg
    obtain rfl := Except.ok.inj h
    exact ⟨.inr (.inl ⟨n, rfl, not_le.mp hlarge, not_lt.mp hneg⟩), by simp⟩
  · rename_i q hq
    split_ifs at h with hneg
    obtain rfl := Except.ok.inj h
    exact ⟨.inr (.inr ⟨q, hq, rfl, not_lt.mp hneg⟩), by simp⟩
  · cases h

/-- A value that `from_timestamp` neither overflows on nor fails to show when it refuses it. -/
def InstantSafe (limits : RecursionLimits) (v : Json) : Prop := ¬TooLarge v ∧ v.nesting ≤ limits.repr

theorem not_escapes_shownInstant {name : String} :
    ¬Escapes (shown limits name (restoreInstant name) v) ↔ InstantSafe limits v := by
  have hok : ∀ t?, restoreInstant name v = .ok t? → v.nesting = 0 := fun _ h => by
    rcases (restoreInstant_eq_ok h).1 with rfl | ⟨n, rfl, -⟩ | ⟨q, hq, rfl, -⟩ <;> rfl
  rw [not_escapes_shown hok, not_escapes_restoreInstant]
  rfl

theorem exists_restoreInstant (limits : RecursionLimits) (h : InstantAccepted v) (name : String) :
    ∃ t?, shown limits name (restoreInstant name) v = .ok t? := by
  simp only [shown_eq_ok]
  rcases h with rfl | ⟨n, rfl, hsmall, hpos⟩ | ⟨q, hq, rfl, hpos⟩
  · exact ⟨none, rfl⟩
  · exact ⟨_, (if_neg (not_le.mpr hsmall)).trans (if_neg (not_lt.mpr hpos))⟩
  · exact ⟨_, if_neg (not_lt.mpr hpos)⟩

theorem not_escapes_restoreBudget : ¬Escapes (restoreBudget v) ↔ ¬TooLarge v := by
  unfold restoreBudget
  split
  · simp [TooLarge]
  · rename_i t
    cases t with
    | int n =>
      have hlarge : TooLarge (.num (.int n)) ↔ 2 ^ 1024 ≤ |fl n| := by simp [TooLarge]
      rw [hlarge]
      split_ifs with hbudget
      · have hsmall : ¬2 ^ 1024 ≤ |fl n| := not_le.mpr hbudget.2
        simp [hsmall]
      · dsimp only
        split_ifs with h <;> simp [RestoreError.IsValueError, h]
    | float x =>
      have hlarge : ¬TooLarge (.num (.float x)) := by simp [TooLarge]
      split_ifs <;> simp [RestoreError.IsValueError, hlarge]
  · rename_i hnum
    have hlarge : ¬TooLarge v := by
      rintro ⟨n, hn, -⟩
      exact hnum _ hn
    simp [RestoreError.IsValueError, hlarge]

theorem restoreBudget_eq_ok_iff : (∃ b, restoreBudget v = .ok b) ↔ BudgetAccepted v := by
  constructor
  · rintro ⟨b, h⟩
    unfold restoreBudget at h
    split at h
    · exact .inl rfl
    · rename_i t
      split_ifs at h with hbudget
      · exact .inr ⟨t, rfl, hbudget⟩
      · cases t with
        | int n =>
          dsimp only at h
          split_ifs at h
        | float x => cases h
    · cases h
  · rintro (rfl | ⟨t, rfl, ht⟩)
    · exact ⟨_, rfl⟩
    · exact ⟨_, dif_pos ht⟩

theorem not_escapes_shownBudget :
    ¬Escapes (shown limits "timeout_seconds" restoreBudget v) ↔ InstantSafe limits v := by
  have hok : ∀ b, restoreBudget v = .ok b → v.nesting = 0 := fun b h => by
    rcases restoreBudget_eq_ok_iff.mp ⟨b, h⟩ with rfl | ⟨t, rfl, -⟩ <;> rfl
  rw [not_escapes_shown hok, not_escapes_restoreBudget]
  rfl

theorem restorePriority_eq_ok_iff : (∃ n, restorePriority v = .ok n) ↔ PriorityAccepted v := by
  unfold restorePriority
  split
  · exact ⟨fun _ => ⟨_, rfl⟩, fun _ => ⟨_, rfl⟩⟩
  · rename_i hnot
    constructor
    · rintro ⟨n, h⟩
      cases h
    · rintro ⟨n, hn⟩
      exact absurd hn (hnot n)

theorem not_escapes_shownPriority :
    ¬Escapes (shown limits "priority" restorePriority v) ↔ v.nesting ≤ limits.repr := by
  have hok : ∀ n, restorePriority v = .ok n → v.nesting = 0 := fun n h => by
    obtain ⟨m, rfl⟩ := restorePriority_eq_ok_iff.mp ⟨n, h⟩
    rfl
  rw [not_escapes_shown hok]
  unfold restorePriority
  split <;> simp [RestoreError.IsValueError]

theorem not_escapes_validateJsonValues {vs : List (String × Json)} :
    ¬Escapes (validateJsonValues limits vs) ↔ ∀ p ∈ vs, p.2.nesting ≤ limits.dumps := by
  induction vs with
  | nil => simp [validateJsonValues]
  | cons p vs ih =>
    rw [validateJsonValues, List.forall_mem_cons, ← ih]
    split_ifs with h <;> simp [h, RestoreError.IsValueError]

end Decoders

/-! ## The whole record -/

theorem length_extra (cls : EntryClass) (v : Json) :
    (cls.fields.map fun p => fieldD v p.1 p.2).length = cls.fields.length := List.length_map _

/-- The last checks of `__post_init__`. -/
def finish (limits : RecursionLimits) (cls : EntryClass) (v : Json) (digits : List (Fin 16)) (queue : Text)
    (status : QueueEntryStatus) (queuedAt : ClockTime) (dispatchedAt finishedAt : Option ClockTime)
    (budget : { t : Option PyNum // ∀ x ∈ t, x.IsBudget }) (priority : ℤ) : Except RestoreError (QueueEntry cls) :=
  if hv : IsVersion7 digits then
    if hq : queue = "" then .error (.invalid "queue")
    else
      validateJsonValues limits (jsonFields cls v) >>= fun _ => .ok {
        id := ⟨digits, hv⟩, queue, status, queuedAt, dispatchedAt, finishedAt
        payload := fieldD v "payload" .null
        result := fieldD v "result" .null
        error := fieldD v "error" .null
        timeoutSeconds := budget.1, priority
        extra := cls.fields.map fun p => fieldD v p.1 p.2
        queue_ne := hq
        budget := budget.2
        extra_length := length_extra cls v }
  else .error (.invalid "id")

theorem not_escapes_finish {limits : RecursionLimits} {v : Json} {digits : List (Fin 16)} {queue : Text}
    {status : QueueEntryStatus} {queuedAt : ClockTime} {dispatchedAt finishedAt : Option ClockTime}
    {budget : { t : Option PyNum // ∀ x ∈ t, x.IsBudget }} {priority : ℤ} :
    ¬Escapes (finish limits cls v digits queue status queuedAt dispatchedAt finishedAt budget priority) ↔
      (IsVersion7 digits → queue ≠ "" → ∀ p ∈ jsonFields cls v, p.2.nesting ≤ limits.dumps) := by
  unfold finish
  split_ifs with hv hq
  · simp [RestoreError.IsValueError, hq]
  · rw [not_escapes_bind, not_escapes_validateJsonValues]
    simp [hv, hq]
  · simp [RestoreError.IsValueError, hv]

/-- `from_dict` after its decoders: the record is built, and `__post_init__` checks it. -/
def build (limits : RecursionLimits) (cls : EntryClass) (v : Json) (id? : Option (List (Fin 16)))
    (status? : Option QueueEntryStatus) (queuedAt? dispatchedAt finishedAt : Option ClockTime) :
    Except RestoreError (QueueEntry cls) := do
  let some digits := id? | throw (.invalid "id")
  let .str queue := fieldD v "queue" .null | throw (.invalid "queue")
  let some status := status? | throw (.invalid "status")
  let some queuedAt := queuedAt? | throw (.invalid "queued_at")
  let budget ← shown limits "timeout_seconds" restoreBudget (fieldD v "timeout_seconds" .null)
  let priority ← shown limits "priority" restorePriority (fieldD v "priority" (.num (.int 0)))
  finish limits cls v digits queue status queuedAt dispatchedAt finishedAt budget priority

theorem fromDict_eq_build {limits : RecursionLimits} {v : Json} (h : missingFields v = []) : fromDict limits cls v =
    restoreId (fieldD v "id" .null) >>= fun id? =>
    shown limits "status" restoreStatus (fieldD v "status" .null) >>= fun status? =>
    shown limits "queued_at" (restoreInstant "queued_at") (fieldD v "queued_at" .null) >>= fun queuedAt? =>
    shown limits "dispatched_at" (restoreInstant "dispatched_at") (fieldD v "dispatched_at" .null) >>= fun dispatchedAt =>
    shown limits "finished_at" (restoreInstant "finished_at") (fieldD v "finished_at" .null) >>= fun finishedAt =>
    build limits cls v id? status? queuedAt? dispatchedAt finishedAt := by
  unfold fromDict
  rw [if_neg (not_not.mpr h)]
  rfl

/-- The values that the last checks meet: the budget, the priority and, once the rest of the entry is accepted, the
values that are stored as they are. -/
def BuildsSafely (limits : RecursionLimits) (cls : EntryClass) (v : Json) (version7 : Prop) : Prop :=
  InstantSafe limits (fieldD v "timeout_seconds" .null) ∧
    (BudgetAccepted (fieldD v "timeout_seconds" .null) →
      (fieldD v "priority" (.num (.int 0))).nesting ≤ limits.repr ∧
      (PriorityAccepted (fieldD v "priority" (.num (.int 0))) → version7 → fieldD v "queue" .null ≠ .str "" →
        ∀ p ∈ jsonFields cls v, p.2.nesting ≤ limits.dumps))

/-- They come after the four fields that must not be `None`. -/
theorem not_escapes_build {limits : RecursionLimits} {v : Json} {id? : Option (List (Fin 16))}
    {status? : Option QueueEntryStatus} {queuedAt? dispatchedAt finishedAt : Option ClockTime} :
    ¬Escapes (build limits cls v id? status? queuedAt? dispatchedAt finishedAt) ↔
      ∀ digits, id? = some digits → (∃ q, fieldD v "queue" .null = .str q) → status? ≠ none → queuedAt? ≠ none →
        BuildsSafely limits cls v (IsVersion7 digits) := by
  unfold build
  cases id? with
  | none => simp [throw, throwThe, MonadExceptOf.throw, RestoreError.IsValueError]
  | some digits =>
    dsimp only
    split
    · rename_i queue hqueue
      cases status? with
      | none => simp [throw, throwThe, MonadExceptOf.throw, RestoreError.IsValueError]
      | some status =>
        cases queuedAt? with
        | none => simp [throw, throwThe, MonadExceptOf.throw, RestoreError.IsValueError]
        | some queuedAt =>
          dsimp only
          rw [not_escapes_bind, not_escapes_shownBudget]
          have hrest (b : { b : Option PyNum // ∀ t ∈ b, t.IsBudget }) :
              ¬Escapes (shown limits "priority" restorePriority (fieldD v "priority" (.num (.int 0))) >>= fun priority =>
                finish limits cls v digits queue status queuedAt dispatchedAt finishedAt b priority) ↔
              (fieldD v "priority" (.num (.int 0))).nesting ≤ limits.repr ∧
                (PriorityAccepted (fieldD v "priority" (.num (.int 0))) → IsVersion7 digits →
                  fieldD v "queue" .null ≠ .str "" → ∀ p ∈ jsonFields cls v, p.2.nesting ≤ limits.dumps) := by
            rw [not_escapes_bind, not_escapes_shownPriority]
            refine and_congr_right fun _ => ?_
            simp only [not_escapes_finish, shown_eq_ok, hqueue, ne_eq, JValue.str.injEq]
            rw [← restorePriority_eq_ok_iff]
            exact ⟨fun h ⟨n, hn⟩ => h n hn, fun h n hn => h ⟨n, hn⟩⟩
          constructor
          · rintro ⟨hsafe, h⟩ _ hd - - -
            obtain rfl := Option.some.inj hd
            refine ⟨hsafe, fun hbudget => ?_⟩
            obtain ⟨b, hb⟩ := restoreBudget_eq_ok_iff.mpr hbudget
            exact (hrest b).mp (h b (shown_eq_ok.mpr hb))
          · intro h
            obtain ⟨hsafe, h⟩ := h digits rfl ⟨queue, hqueue⟩ (by simp) (by simp)
            exact ⟨hsafe, fun b hb => (hrest b).mpr (h (restoreBudget_eq_ok_iff.mp ⟨b, shown_eq_ok.mp hb⟩))⟩
    · rename_i hqueue
      have hnot : ¬∃ q, fieldD v "queue" .null = .str q := by
        rintro ⟨q, hq⟩
        exact hqueue q hq
      simp [throw, throwThe, MonadExceptOf.throw, RestoreError.IsValueError, hnot]

/-- No check that `from_dict` reaches meets a value that raises another class: each one is asked for only where the
record has every required field and the checks before it pass. -/
def FailsOneWay (limits : RecursionLimits) (cls : EntryClass) (v : Json) : Prop :=
  missingFields v = [] → IsText (fieldD v "id" .null) ∧
    (IdAccepted (fieldD v "id" .null) → (fieldD v "status" .null).nesting ≤ limits.repr ∧
      (StatusAccepted (fieldD v "status" .null) → InstantSafe limits (fieldD v "queued_at" .null) ∧
        (InstantAccepted (fieldD v "queued_at" .null) → InstantSafe limits (fieldD v "dispatched_at" .null) ∧
          (InstantAccepted (fieldD v "dispatched_at" .null) → InstantSafe limits (fieldD v "finished_at" .null) ∧
            (InstantAccepted (fieldD v "finished_at" .null) →
              fieldD v "id" .null ≠ .null → (∃ q, fieldD v "queue" .null = .str q) →
              fieldD v "status" .null ≠ .null → fieldD v "queued_at" .null ≠ .null →
              BuildsSafely limits cls v (IdVersion7 (fieldD v "id" .null)))))))

/-- `json.dumps` gets through the values of a returned entry. -/
theorem Restores.writable {limits : RecursionLimits} {v : Json} {e : QueueEntry cls} (h : Restores limits v e) :
    e.Writable limits := by
  rw [Writable, ← h.values_eq, List.forall_mem_map]
  exact validateJsonValues_eq_ok.mp h.nesting

theorem not_escapes_fromDict {limits : RecursionLimits} {v : Json} :
    ¬Escapes (fromDict limits cls v) ↔ FailsOneWay limits cls v := by
  by_cases hm : missingFields v = []
  swap
  · have hmissing : fromDict limits cls v = .error (.missing (missingFields v)) := by
      unfold fromDict
      rw [if_pos hm]
      rfl
    rw [hmissing, escapes_error]
    exact ⟨fun _ h => absurd h hm, fun _ h => h trivial⟩
  rw [fromDict_eq_build hm]
  simp only [not_escapes_bind, not_escapes_restoreId, not_escapes_shownStatus, not_escapes_shownInstant,
    not_escapes_build]
  constructor
  · rintro ⟨htext, h⟩ -
    refine ⟨htext, fun hid => ?_⟩
    obtain ⟨id?, hid?⟩ := exists_restoreId hid
    obtain ⟨hst, h⟩ := h id? hid?
    refine ⟨hst, fun hstatus => ?_⟩
    obtain ⟨status?, hstatus?⟩ := exists_restoreStatus limits hstatus
    obtain ⟨hq, h⟩ := h status? hstatus?
    refine ⟨hq, fun hqueued => ?_⟩
    obtain ⟨queuedAt?, hqueued?⟩ := exists_restoreInstant limits hqueued "queued_at"
    obtain ⟨hd, h⟩ := h queuedAt? hqueued?
    refine ⟨hd, fun hdispatched => ?_⟩
    obtain ⟨dispatchedAt, hdispatched?⟩ := exists_restoreInstant limits hdispatched "dispatched_at"
    obtain ⟨hf, h⟩ := h dispatchedAt hdispatched?
    refine ⟨hf, fun hfinished hidne hqueue hstatusne hqueuedne => ?_⟩
    obtain ⟨finishedAt, hfinished?⟩ := exists_restoreInstant limits hfinished "finished_at"
    obtain ⟨-, hnull, hversion⟩ := restoreId_eq_ok hid?
    obtain ⟨digits, rfl⟩ := Option.ne_none_iff_exists'.mp (fun h => hidne (hnull.mp h))
    rw [hversion digits rfl]
    apply h finishedAt hfinished? digits rfl hqueue
    · rwa [Ne, (restoreStatus_eq_ok (shown_eq_ok.mp hstatus?)).2]
    · rwa [Ne, (restoreInstant_eq_ok (shown_eq_ok.mp hqueued?)).2]
  · intro h
    obtain ⟨htext, h⟩ := h hm
    refine ⟨htext, fun id? hid? => ?_⟩
    obtain ⟨hid, hnull, hversion⟩ := restoreId_eq_ok hid?
    obtain ⟨hst, h⟩ := h hid
    refine ⟨hst, fun status? hstatus? => ?_⟩
    have hstatus := restoreStatus_eq_ok (shown_eq_ok.mp hstatus?)
    obtain ⟨hq, h⟩ := h hstatus.1
    refine ⟨hq, fun queuedAt? hqueued? => ?_⟩
    have hqueued := restoreInstant_eq_ok (shown_eq_ok.mp hqueued?)
    obtain ⟨hd, h⟩ := h hqueued.1
    refine ⟨hd, fun dispatchedAt hdispatched? => ?_⟩
    obtain ⟨hf, h⟩ := h (restoreInstant_eq_ok (shown_eq_ok.mp hdispatched?)).1
    refine ⟨hf, fun finishedAt hfinished? digits hdigits hqueue hstatusne hqueuedne => ?_⟩
    rw [← hversion digits hdigits]
    apply h (restoreInstant_eq_ok (shown_eq_ok.mp hfinished?)).1 _ hqueue
    · rwa [Ne, ← hstatus.2]
    · rwa [Ne, ← hqueued.2]
    · intro h
      rw [hnull.mpr h] at hdigits
      cases hdigits

/-- Every failure of `from_dict` is a `ValueError`, and every entry it returns passes its checks, exactly when no
identity that is no text, no integer that is too large for a float and no value nested too deeply is reached. -/
theorem restore_error_iff (limits : RecursionLimits) (cls : EntryClass) (fields : List (Text × Json)) :
    ((∀ err, fromDict limits cls (.obj fields) = .error err → err.IsValueError) ∧
      ∀ e, fromDict limits cls (.obj fields) = .ok e → e.Writable limits) ↔ FailsOneWay limits cls (.obj fields) := by
  have hescape : (∀ err, fromDict limits cls (.obj fields) = .error err → err.IsValueError) ↔
      ¬Escapes (fromDict limits cls (.obj fields)) := by
    simp [Escapes]
  rw [hescape, not_escapes_fromDict]
  exact and_iff_left fun e he => (fromDict_eq_ok_iff.mp he).writable

/-- A stored record whose identity has been replaced by a number. -/
def numberedRecord : List (Text × Json) :=
  ("id", .num (.int 5)) :: (plain (.ofLast 1) .null).toDictBase.tail

theorem restore_attributeError :
    (∀ limits, fromDict limits .base (.obj numberedRecord) = .error (.attributeError "id")) ∧
      ¬(RestoreError.attributeError "id").IsValueError :=
  ⟨fun _ => rfl, fun h => h⟩

end QueueEntry

end DjangoQueues
