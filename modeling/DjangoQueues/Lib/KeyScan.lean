import DjangoQueues.Lib.Dict

/-! Reading a store that changes meanwhile: its keys are collected page by page, and their values are then read at
once. A key that is there all the time is found, one that comes may be found or missed, one that goes has no value, and
every key can be found again. A key that has gone does not come back. -/

structure KeyScan (κ : Type*) where
  /-- The keys that were there when it began. -/
  first : List κ
  found : List κ

namespace KeyScan

variable {κ α : Type*} [DecidableEq κ]

def start (d : Dict κ α) : KeyScan κ := ⟨d.keys, []⟩

def page (keys : List κ) (c : KeyScan κ) : KeyScan κ := { c with found := c.found ++ keys }

/-- The keys of a page are in the store when it is read. -/
def Stored (d : Dict κ α) (keys : List κ) : Prop := ∀ k ∈ keys, (d.get? k).isSome = true

/-- Nothing is missing that was there all the time. -/
def Complete (d : Dict κ α) (c : KeyScan κ) : Prop := ∀ k ∈ c.first, (d.get? k).isSome = true → k ∈ c.found

instance (d : Dict κ α) (keys : List κ) : Decidable (Stored d keys) :=
  inferInstanceAs (Decidable (∀ k ∈ keys, _))

instance (d : Dict κ α) (c : KeyScan κ) : Decidable (c.Complete d) :=
  inferInstanceAs (Decidable (∀ k ∈ c.first, _))

def values (d : Dict κ α) (c : KeyScan κ) : List α := c.found.filterMap d.get?

variable {d : Dict κ α} {c : KeyScan κ} {f : α → κ}

theorem mem_values {a : α} : a ∈ c.values d ↔ ∃ k ∈ c.found, d.get? k = some a := List.mem_filterMap

/-- Where a value names its key, the keys of the values are among those found, in the same order. -/
theorem values_map_sublist (hf : ∀ k a, d.get? k = some a → f a = k) : ((c.values d).map f).Sublist c.found := by
  unfold values
  induction c.found with
  | nil => exact List.Sublist.refl _
  | cons k l ih =>
    cases hk : d.get? k with
    | none =>
      rw [List.filterMap_cons_none hk]
      exact ih.cons k
    | some a =>
      rw [List.filterMap_cons_some hk, List.map_cons, hf k a hk]
      exact ih.cons_cons k

end KeyScan
