import Mathlib.Data.List.Dedup
import Mathlib.Data.List.Perm.Basic

/-!
# Left joins and groups

`FROM l LEFT JOIN r ON … GROUP BY k`, where `k` is a key of the rows on the left: there is one
group for each of these rows, and in it the row stands with all its matches, or alone
(`groups_leftJoin_perm`).
-/

namespace ConflictGraph

universe u v w

variable {α : Type u} {β : Type v} {κ : Type w}

/-- A row of the left with its matches, or alone. -/
def joined (on : α → β → Bool) (r : List β) (a : α) : List (α × Option β) :=
  match r.filter (on a) with
  | [] => [(a, none)]
  | found => found.map fun b => (a, some b)

/-- `l LEFT JOIN r ON …`. -/
def leftJoin (on : α → β → Bool) (l : List α) (r : List β) : List (α × Option β) :=
  l.flatMap (joined on r)

variable {on : α → β → Bool} {l : List α} {r : List β} {key : α → κ}

theorem joined_ne_nil (on : α → β → Bool) (r : List β) (a : α) : joined on r a ≠ [] := by
  rw [joined]
  split
  · exact List.cons_ne_nil _ _
  · rename_i found hne
    exact fun h => hne (List.map_eq_nil_iff.mp h)

theorem fst_eq_of_mem_joined {a : α} {row : α × Option β} (h : row ∈ joined on r a) :
    row.1 = a := by
  rw [joined] at h
  split at h
  · rw [List.mem_singleton.mp h]
  · obtain ⟨b, -, rfl⟩ := List.mem_map.mp h
    rfl

/-- What a row is joined with are its matches. -/
theorem filterMap_joined (on : α → β → Bool) (r : List β) (a : α) :
    (joined on r a).filterMap Prod.snd = r.filter (on a) := by
  rw [joined]
  split
  · rename_i hnone
    rw [hnone]
    rfl
  · rw [List.filterMap_map]
    exact List.filterMap_some

/-- No row of the left is lost. -/
theorem mem_keys_leftJoin {k : κ} :
    k ∈ (leftJoin on l r).map (fun row => key row.1) ↔ k ∈ l.map key := by
  simp only [leftJoin, List.mem_map, List.mem_flatMap]
  refine ⟨?_, ?_⟩
  · rintro ⟨row, ⟨a, ha, hrow⟩, rfl⟩
    exact ⟨a, ha, by rw [fst_eq_of_mem_joined hrow]⟩
  · rintro ⟨a, ha, rfl⟩
    obtain ⟨row, hrow⟩ := List.exists_mem_of_ne_nil _ (joined_ne_nil on r a)
    exact ⟨row, ⟨a, ha, hrow⟩, by rw [fst_eq_of_mem_joined hrow]⟩

variable [DecidableEq κ]

/-- `GROUP BY`. -/
def groups (key : α → κ) (rows : List α) : List (List α) :=
  (rows.map key).dedup.map fun k => rows.filter fun row => key row = k

theorem filter_joined_eq (k : κ) (a : α) :
    (joined on r a).filter (fun row => key row.1 = k) =
      if key a = k then joined on r a else [] := by
  split
  · rename_i heq
    refine List.filter_eq_self.mpr fun row hrow => ?_
    rw [fst_eq_of_mem_joined hrow]
    exact decide_eq_true heq
  · rename_i hne
    refine List.filter_eq_nil_iff.mpr fun row hrow h => hne ?_
    rw [fst_eq_of_mem_joined hrow] at h
    exact of_decide_eq_true h

/-- The rows of one key are those of one row of the left. -/
theorem filter_leftJoin (h : (l.map key).Nodup) {a : α} (ha : a ∈ l) :
    (leftJoin on l r).filter (fun row => key row.1 = key a) = joined on r a := by
  induction l with
  | nil => exact absurd ha List.not_mem_nil
  | cons first rest ih =>
    rw [List.map_cons, List.nodup_cons] at h
    rw [leftJoin, List.flatMap_cons, List.filter_append, filter_joined_eq]
    rcases List.mem_cons.mp ha with rfl | hrest
    · have hnone : (leftJoin on rest r).filter (fun row => key row.1 = key a) = [] := by
        refine List.filter_eq_nil_iff.mpr fun row hrow hkey => h.1 ?_
        rw [← of_decide_eq_true hkey]
        exact mem_keys_leftJoin.mp (List.mem_map.mpr ⟨row, hrow, rfl⟩)
      rw [if_pos rfl, ← leftJoin, hnone, List.append_nil]
    · have hne : key first ≠ key a := fun heq => h.1 (heq ▸ List.mem_map_of_mem hrest)
      rw [if_neg hne, List.nil_append]
      exact ih h.2 hrest

/-- **One group for each row of the left.** -/
theorem groups_leftJoin_perm (h : (l.map key).Nodup) :
    (groups (fun row => key row.1) (leftJoin on l r)).Perm (l.map (joined on r)) := by
  have hkeys : ((leftJoin on l r).map fun row => key row.1).dedup.Perm (l.map key) :=
    (List.perm_ext_iff_of_nodup (List.nodup_dedup _) h).mpr fun k =>
      List.mem_dedup.trans mem_keys_leftJoin
  refine (hkeys.map _).trans (List.Perm.of_eq ?_)
  rw [List.map_map]
  exact List.map_congr_left fun a ha => filter_leftJoin h ha

end ConflictGraph
