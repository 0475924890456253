import Mathlib.Logic.Function.Basic
import Mathlib.Data.Option.Basic

/-!
# Partial maps

The lookup behaviour of a hash map: which key holds which value. Iteration order
is not part of it; code that iterates says separately what it assumes of the
order. The three operations are those the registries and indices use: insert,
remove one key, and retain the entries a predicate accepts.
-/

namespace ConflictGraph

universe u v

/-- A map from `κ` to `ν`, as its lookup function. -/
abbrev PartialMap (κ : Type u) (ν : Type v) : Type (max u v) := κ → Option ν

namespace PartialMap

variable {κ : Type u} {ν : Type v}

/-- The map without entries. -/
def empty : PartialMap κ ν := fun _ => none

/-- Drop the entries that `keep` refuses. -/
def retain (m : PartialMap κ ν) (keep : κ → ν → Bool) : PartialMap κ ν :=
  fun k => (m k).filter (keep k)

@[simp] theorem empty_apply (k : κ) : (empty : PartialMap κ ν) k = none := rfl

@[simp] theorem retain_eq_some {m : PartialMap κ ν} {keep : κ → ν → Bool} {k : κ} {v : ν} :
    m.retain keep k = some v ↔ m k = some v ∧ keep k v = true := by
  rw [retain, Option.filter_eq_some_iff]

variable [DecidableEq κ]

/-- Store `v` under `k`, replacing what was there. -/
def insert (m : PartialMap κ ν) (k : κ) (v : ν) : PartialMap κ ν :=
  Function.update m k (some v)

/-- Forget what is stored under `k`. -/
def remove (m : PartialMap κ ν) (k : κ) : PartialMap κ ν := Function.update m k none

@[simp] theorem insert_self (m : PartialMap κ ν) (k : κ) (v : ν) : m.insert k v k = some v :=
  Function.update_self ..

theorem insert_of_ne (m : PartialMap κ ν) {k k' : κ} (v : ν) (h : k' ≠ k) :
    m.insert k v k' = m k' :=
  Function.update_of_ne h ..

@[simp] theorem remove_self (m : PartialMap κ ν) (k : κ) : m.remove k k = none :=
  Function.update_self ..

theorem remove_of_ne (m : PartialMap κ ν) {k k' : κ} (h : k' ≠ k) : m.remove k k' = m k' :=
  Function.update_of_ne h ..

theorem insert_apply (m : PartialMap κ ν) (k k' : κ) (v : ν) :
    m.insert k v k' = if k' = k then some v else m k' :=
  Function.update_apply ..

/-- A key that is present after an insertion is the new one or was present. -/
theorem eq_or_ne_none_of_insert {m : PartialMap κ ν} {k k' : κ} {v : ν}
    (h : m.insert k v k' ≠ none) : k' = k ∨ m k' ≠ none := by
  by_cases heq : k' = k
  · exact .inl heq
  · exact .inr (by rwa [insert_of_ne m v heq] at h)

end PartialMap

end ConflictGraph
