import Mathlib.Data.List.Nodup

/-!
# Dictionaries that keep their order

A dictionary whose items stay in the order in which their keys were added, as those of
Python do. What is looked up is decided by the last insertion at a key (`get?_insert`), and
the items are just what is looked up (`mem_items_iff`).
-/

namespace ConflictGraph

universe u v

/-- A dictionary with its items, each key once. -/
structure OrderedDict (κ : Type u) (ν : Type v) : Type (max u v) where
  items : List (κ × ν)
  nodup : (items.map Prod.fst).Nodup

namespace OrderedDict

variable {κ : Type u} {ν : Type v}

/-- `{}`. -/
def empty : OrderedDict κ ν := ⟨[], List.nodup_nil⟩

/-- `list(d)`. -/
def keys (d : OrderedDict κ ν) : List κ := d.items.map Prod.fst

/-- `list(d.values())`. -/
def values (d : OrderedDict κ ν) : List ν := d.items.map Prod.snd

variable [DecidableEq κ] (d : OrderedDict κ ν) (k k' : κ) (v v' : ν)

/-- `d.get(k)`. -/
def get? : Option ν := d.items.lookup k

/-- The items after `d[k] = v`: a key that is there keeps its place. -/
def insertItems : List (κ × ν) :=
  if k ∈ d.keys then d.items.map fun item => if item.1 = k then (k, v) else item
  else d.items ++ [(k, v)]

theorem map_fst_insertItems :
    (d.insertItems k v).map Prod.fst = if k ∈ d.keys then d.keys else d.keys ++ [k] := by
  rw [insertItems]
  split
  · rw [List.map_map, keys]
    refine List.map_congr_left fun item _ => ?_
    by_cases hkey : item.1 = k
    · simp [hkey]
    · simp [hkey]
  · rw [List.map_append, keys]
    rfl

theorem nodup_insertItems : ((d.insertItems k v).map Prod.fst).Nodup := by
  rw [map_fst_insertItems]
  split
  · exact d.nodup
  · rename_i hnew
    rw [← List.concat_eq_append]
    exact d.nodup.concat hnew

/-- `d[k] = v`. -/
def insert : OrderedDict κ ν := ⟨d.insertItems k v, d.nodup_insertItems k v⟩

variable {d k k' v v'}

/-- The items are what is looked up. -/
theorem mem_items_iff : (k, v) ∈ d.items ↔ d.get? k = some v := by
  rw [get?, List.lookup_eq_some_iff]
  refine ⟨fun h => ?_, ?_⟩
  · obtain ⟨before, after, heq⟩ := List.append_of_mem h
    refine ⟨before, after, heq, fun item hitem => ?_⟩
    have hnodup := d.nodup
    rw [heq, List.map_append, List.map_cons] at hnodup
    refine bne_iff_ne.mpr fun hkey => ?_
    exact (List.nodup_append.mp hnodup).2.2 k (hkey ▸ List.mem_map_of_mem hitem) k
      List.mem_cons_self rfl
  · rintro ⟨before, after, heq, -⟩
    rw [heq]
    exact List.mem_append_right _ List.mem_cons_self

theorem mem_keys_iff : k ∈ d.keys ↔ ∃ v, d.get? k = some v := by
  simp only [keys, List.mem_map, Prod.exists, exists_and_right, exists_eq_right, mem_items_iff]

theorem mem_values_iff : v ∈ d.values ↔ ∃ k, d.get? k = some v := by
  simp only [values, List.mem_map, Prod.exists, exists_eq_right, mem_items_iff]

theorem mem_insertItems :
    (k', v') ∈ d.insertItems k v ↔ (k' = k ∧ v' = v) ∨ (k' ≠ k ∧ (k', v') ∈ d.items) := by
  rw [insertItems]
  split
  · rename_i hmem
    obtain ⟨⟨_, old⟩, hold, rfl⟩ := List.mem_map.mp hmem
    rw [List.mem_map]
    refine ⟨?_, ?_⟩
    · rintro ⟨item, hitem, heq⟩
      split at heq
      · exact .inl (Prod.ext_iff.mp heq.symm)
      · rename_i hkey
        rw [heq] at hitem hkey
        exact .inr ⟨hkey, hitem⟩
    · rintro (⟨rfl, rfl⟩ | ⟨hkey, hitem⟩)
      · exact ⟨_, hold, if_pos rfl⟩
      · exact ⟨_, hitem, if_neg hkey⟩
  · rename_i hnew
    rw [List.mem_append, List.mem_singleton, Prod.mk.injEq, or_comm]
    refine or_congr_right (and_iff_right_of_imp fun hitem hkey => hnew ?_).symm
    exact hkey ▸ List.mem_map_of_mem hitem

/-- **What is looked up after an insertion.** -/
theorem get?_insert : (d.insert k v).get? k' = if k' = k then some v else d.get? k' := by
  refine Option.ext fun found => ?_
  rw [← mem_items_iff, insert, mem_insertItems]
  split
  · simp_all [eq_comm]
  · simp_all [mem_items_iff]

theorem mem_keys_insert : k' ∈ (d.insert k v).keys ↔ k' = k ∨ k' ∈ d.keys := by
  rw [mem_keys_iff, mem_keys_iff, get?_insert]
  by_cases hkey : k' = k
  · simp [hkey]
  · simp [hkey]

@[simp] theorem get?_empty : (empty : OrderedDict κ ν).get? k = none := rfl

end OrderedDict

end ConflictGraph
