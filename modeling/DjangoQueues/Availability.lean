import DjangoQueues.Memory.Schedule
import DjangoQueues.Redis.Schedule

/-! Entries enqueued for a later instant, on both backends. -/

namespace DjangoQueues

variable {cls : EntryClass}

/-- On both backends, and for each queue class, no call made before the instant of an entry
enqueued for later returns it. -/
theorem scheduled_never_early (kind : Redis.QueueKind) (x : QueueEntry cls) (T : ClockTime) :
    (∀ (t₀ t : ServerTime) (before after : List (Redis.Event cls)) (g : Redis.Timed),
      Run (Redis.Occurs kind Redis.Tracked) (.init t₀) (before ++ ⟨.enqueue x (some T), t, .done⟩ :: after) g →
        ∀ l ∈ after, Redis.Returns x.id l → T ≤ l.time.toClockTime) ∧
      ∀ (t₀ : ClockTime) (before after : List (Memory.Event cls)) (l₀ : Memory.Event cls) (g : Memory.Timed cls),
        l₀.call = .enqueue x (some T) → Run (Memory.Occurs kind) (.init t₀) (before ++ l₀ :: after) g →
          ∀ l ∈ after, Memory.Returns x.id l → T ≤ l.time :=
  ⟨fun t₀ _ before after _ h => Redis.scheduled_returned_late kind t₀ before after h,
    fun t₀ before after _ _ hcall h => Memory.scheduled_returned_late kind t₀ before after hcall h⟩

/-- An entry for second 2000 is returned at second 3000, on either side. -/
theorem scheduled_never_early_returned :
    let T : ClockTime := ⟨2000, 0, ClockTime.zero_lt_million⟩
    let t : ServerTime := .ofSeconds 1000 ServerTime.second_1000
    let t' : ServerTime := .ofSeconds 3000 ServerTime.second_3000
    let x : QueueEntry .base := .plain (.ofLast 1) .null
    let s := (Redis.exec .fifo (.enqueue x (some T)) t .empty).2
    let m := (Memory.exec .fifo (.enqueue x (some T)) t.toClockTime t.toClockTime .empty).2
    ((Redis.adequeue .fifo t' s).1 = some (.ofLast 1) ∧ T ≤ t'.toClockTime) ∧
      (Memory.Queue.adequeue .fifo t'.toClockTime m).1 = .ok x ∧ T ≤ t'.toClockTime := by
  intro T t t' x s m
  have hredis : (Redis.adequeue .fifo t' s).1 = some (.ofLast 1) := by decide +kernel
  have hmemory : (Memory.Queue.adequeue .fifo t'.toClockTime m).1 = .ok x := rfl
  have hpermits : Redis.Permits .fifo Redis.Tracked [(.enqueue x (some T), t), (.dequeue, t')] (.init t) :=
    ⟨t.le_refl, ⟨rfl, rfl⟩, by decide, trivial, trivial⟩
  obtain ⟨g, hrun⟩ := Redis.run_history hpermits
  have hle : t.toClockTime ≤ t'.toClockTime := by decide
  let g₁ : Memory.Timed .base := ⟨m, t.toClockTime⟩
  let l₁ : Memory.Event .base := ⟨.enqueue x (some T), t.toClockTime, t.toClockTime, none⟩
  let l₂ : Memory.Event .base := ⟨.dequeue, t'.toClockTime, t'.toClockTime, some (.ok x)⟩
  have h₁ : Memory.Occurs .fifo (.init t.toClockTime) l₁ g₁ := ⟨le_refl _, le_refl _, rfl, rfl, rfl⟩
  have h₂ : Memory.Occurs .fifo g₁ l₂ ⟨(Memory.Queue.adequeue .fifo t'.toClockTime m).2, t'.toClockTime⟩ :=
    ⟨hle, le_refl _, trivial, rfl, rfl⟩
  obtain ⟨hfirst, hsecond⟩ := scheduled_never_early .fifo x T
  refine ⟨⟨hredis, ?_⟩, hmemory, ?_⟩
  · exact hfirst t t [] [_] g hrun _ (List.mem_singleton.mpr rfl) (.inr (congrArg Redis.Reply.popped hredis))
  · exact hsecond _ [] [l₂] l₁ _ rfl (.cons h₁ (.cons h₂ (.nil _))) l₂ (List.mem_singleton.mpr rfl) ⟨x, rfl, rfl⟩

end DjangoQueues
