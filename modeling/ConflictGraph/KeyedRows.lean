import Mathlib.Data.List.Induction
import ConflictGraph.OrderedDict

/-!
# Rows that are written again and again

A table has a row for each key, and what a write does with the row of its key depends on
whether there is one (`apply`). So the row of a key is what the writes to this key alone have
made, in their order, however they are mixed with others (`Written.apply`). Where the last
write undoes those before it, only the first and the last of them are left in it
(`foldl_merging`).
-/

namespace ConflictGraph

universe u v w

variable {κ : Type u} {ρ : Type v} {ω : Type w} [DecidableEq κ]

theorem OrderedDict.get?_eq_none {d : OrderedDict κ ρ} {k : κ} (h : k ∉ d.keys) :
    d.get? k = none :=
  Option.eq_none_iff_forall_ne_some.mpr fun row hrow =>
    h (OrderedDict.mem_keys_iff.mpr ⟨row, hrow⟩)

/-- The row of a new key comes last. -/
theorem OrderedDict.values_insert_new {d : OrderedDict κ ρ} {k : κ} (row : ρ) (h : k ∉ d.keys) :
    (d.insert k row).values = d.values ++ [row] := by
  change (d.insertItems k row).map Prod.snd = _
  rw [OrderedDict.insertItems, if_neg h, List.map_append]
  rfl

/-- What writes make of the row of a key; `none` is no row. No write takes a row away. -/
structure RowWrite (ρ : Type v) (ω : Type w) : Type (max v w) where
  run : Option ρ → ω → Option ρ
  keeps : ∀ row write, run row write = none → row = none

namespace RowWrite

variable (f : RowWrite ρ ω)

/-- The row that these writes make. -/
def rowOf (writes : List ω) : Option ρ := writes.foldl f.run none

theorem rowOf_concat (writes : List ω) (write : ω) :
    f.rowOf (writes ++ [write]) = f.run (f.rowOf writes) write := by
  rw [rowOf, List.foldl_append]
  rfl

/-- Write to the row of a key. -/
def apply (d : OrderedDict κ ρ) (k : κ) (write : ω) : OrderedDict κ ρ :=
  (f.run (d.get? k) write).elim d (d.insert k)

theorem get?_apply {d : OrderedDict κ ρ} {k k' : κ} {write : ω} :
    (f.apply d k write).get? k' = if k' = k then f.run (d.get? k) write else d.get? k' := by
  rw [apply]
  rcases h : f.run (d.get? k) write with _ | row
  · rw [Option.elim_none]
    split
    · rename_i heq
      rw [heq]
      exact f.keeps _ _ h
    · rfl
  · exact OrderedDict.get?_insert

/-- The rows are those that the writes have made. -/
def Written (key : ω → κ) (d : OrderedDict κ ρ) (writes : List ω) : Prop :=
  ∀ k, d.get? k = f.rowOf (writes.filter fun write => key write = k)

variable {f} {key : ω → κ}

theorem Written.empty : f.Written key OrderedDict.empty [] := fun _ => rfl

section Concat

variable {d d' : OrderedDict κ ρ} {writes : List ω}

/-- **One more write**, and rows in which it is done. -/
theorem Written.concat {write : ω} (h : f.Written key d writes)
    (hown : d'.get? (key write) = f.run (d.get? (key write)) write)
    (hother : ∀ k, k ≠ key write → d'.get? k = d.get? k) :
    f.Written key d' (writes ++ [write]) := by
  intro k
  rw [List.filter_append]
  by_cases hkey : k = key write
  · have hlast : [write].filter (fun write => key write = k) = [write] := by simp [hkey]
    rw [hlast, rowOf_concat, ← h k, hkey, hown]
  · have hlast : [write].filter (fun write => key write = k) = [] := by simp [Ne.symm hkey]
    rw [hlast, List.append_nil, hother k hkey, h k]

theorem Written.apply (h : f.Written key d writes) (write : ω) :
    f.Written key (f.apply d (key write) write) (writes ++ [write]) :=
  h.concat ((get?_apply f).trans (if_pos rfl)) fun _ hkey => (get?_apply f).trans (if_neg hkey)

/-- A write whose row is inserted. -/
theorem Written.insert (h : f.Written key d writes) (write : ω) (row : ρ)
    (hrow : f.run (d.get? (key write)) write = some row) :
    f.Written key (d.insert (key write) row) (writes ++ [write]) :=
  h.concat ((OrderedDict.get?_insert.trans (if_pos rfl)).trans hrow.symm) fun _ hkey =>
    OrderedDict.get?_insert.trans (if_neg hkey)

/-- A write that leaves the row. -/
theorem Written.skip (h : f.Written key d writes) (write : ω)
    (hsame : f.run (d.get? (key write)) write = d.get? (key write)) :
    f.Written key d (writes ++ [write]) :=
  h.concat hsame.symm fun _ _ => rfl

end Concat

/-- Any row is there exactly if it was written. -/
theorem Written.isSome_iff {d : OrderedDict κ ρ} {writes : List ω} (h : f.Written key d writes)
    (hmakes : ∀ row write, f.run row write ≠ none) (k : κ) :
    (d.get? k).isSome = true ↔ ∃ write ∈ writes, key write = k := by
  rw [h k]
  have hrow : ∀ own : List ω, (f.rowOf own).isSome = true ↔ own ≠ [] := by
    intro own
    induction own using List.reverseRecOn with
    | nil => exact iff_of_false Bool.false_ne_true fun h => h rfl
    | append_singleton own write _ =>
      rw [rowOf_concat]
      exact iff_of_true (Option.isSome_iff_ne_none.mpr (hmakes _ _)) (List.concat_ne_nil _ _)
  rw [hrow, ne_eq, List.filter_eq_nil_iff]
  simp

end RowWrite

/-! ## Rows that are merged -/

section Merge

variable (merge : ρ → ρ → ρ)

/-- `INSERT … ON CONFLICT DO UPDATE`: the first row is inserted, and later ones are merged into
it. -/
def merging : RowWrite ρ ρ where
  run row write := some (row.elim write fun old => merge old write)
  keeps _ _ h := absurd h (Option.some_ne_none _)

/-- The last of two merges undoes the other. -/
def LastDecides : Prop := ∀ a b c, merge (merge a b) c = merge a c

variable {merge}

theorem rowOf_merging_cons (first : ρ) (rest : List ρ) :
    (merging merge).rowOf (first :: rest) = some (rest.foldl merge first) := by
  rw [RowWrite.rowOf, List.foldl_cons]
  change rest.foldl (merging merge).run (some first) = _
  induction rest generalizing first with
  | nil => rfl
  | cons row rest ih => exact ih (merge first row)

/-- **The first and the last write** make the row. -/
theorem foldl_merging (h : LastDecides merge) (first : ρ) (rest : List ρ) :
    (merging merge).rowOf (first :: rest) =
      some (rest.getLast?.elim first fun last => merge first last) := by
  rw [rowOf_merging_cons]
  induction rest using List.reverseRecOn with
  | nil => rfl
  | append_singleton rest last ih =>
    rw [List.foldl_append, List.getLast?_concat, Option.elim_some, List.foldl_cons, List.foldl_nil]
    rcases hlast : rest.getLast? with _ | before
    · rw [hlast] at ih
      rw [Option.some.inj ih]
      rfl
    · rw [hlast] at ih
      rw [Option.some.inj ih, Option.elim_some, h]

end Merge

end ConflictGraph
