import Mathlib.Algebra.Order.BigOperators.Group.List
import Mathlib.Algebra.Order.Ring.Defs
import Mathlib.Data.List.Sort
import Mathlib.Tactic.Linarith
import ConflictGraph.Chain
import ConflictGraph.Lanes

/-!
# How much a board can hold

A worker who does one thing at a time does, by an instant, work that lasts at most so long;
so some workers do, together, at most that many times as much. What they do need not be
given in order: items that do not meet form a chain when they are sorted by their starts.
-/

namespace ConflictGraph

universe u

variable {α : Type u} {K : Type*} [CommRing K] [LinearOrder K] [IsStrictOrderedRing K]
  {start stop : α → K} {l : List α}

/-- A chain that starts no earlier than an instant fits between it and its last stop. -/
theorem Chained.sum_le : ∀ {origin : K}, Chained start stop l → (∀ a ∈ l, start a < stop a) →
    (∀ a ∈ l, origin ≤ start a) →
    (l.map fun a => stop a - start a).sum ≤ lastStop stop origin l - origin := by
  induction l with
  | nil => simp
  | cons a rest ih =>
    intro origin h hpos horigin
    rw [chained_cons] at h
    rw [List.forall_mem_cons] at hpos horigin
    have hrest := ih h.2 hpos.2 h.1
    rw [List.map_cons, List.sum_cons, lastStop_cons]
    linarith [horigin.1]

omit [CommRing K] [IsStrictOrderedRing K] in
/-- Items that do not meet form a chain when they are sorted by their starts. -/
theorem chained_insertionSort (hpos : ∀ a ∈ l, start a < stop a)
    (h : l.Pairwise fun a b => ¬ Meets (start a) (stop a) (start b) (stop b)) :
    Chained start stop (l.insertionSort fun a b => start a ≤ start b) := by
  have htotal : Std.Total fun a b : α => start a ≤ start b :=
    ⟨fun a b => le_total (start a) (start b)⟩
  have htrans : IsTrans α fun a b => start a ≤ start b := ⟨fun _ _ _ hab hbc => hab.trans hbc⟩
  have hperm := List.perm_insertionSort (fun a b => start a ≤ start b) l
  have hsorted := List.pairwise_insertionSort (fun a b => start a ≤ start b) l
  have happart := (hperm.pairwise_iff fun {a b} hab hmeets => hab hmeets.symm).mpr h
  refine (hsorted.and happart).imp_of_mem fun {a b} _ hb hab => ?_
  have hposb := hpos b (hperm.mem_iff.mp hb)
  -- the one that starts first has stopped before the other starts, or they would meet
  by_contra hlt
  exact hab.2 ⟨hab.1.trans_lt hposb, not_le.mp hlt⟩

/-- One worker does no more by an instant than there is time. -/
theorem sum_le_of_not_meets {limit : K} (hlimit : 0 ≤ limit)
    (hpos : ∀ a ∈ l, start a < stop a) (hstart : ∀ a ∈ l, 0 ≤ start a)
    (hstop : ∀ a ∈ l, stop a ≤ limit)
    (h : l.Pairwise fun a b => ¬ Meets (start a) (stop a) (start b) (stop b)) :
    (l.map fun a => stop a - start a).sum ≤ limit := by
  have hperm := List.perm_insertionSort (fun a b => start a ≤ start b) l
  have hmem : ∀ {a}, a ∈ l.insertionSort (fun a b => start a ≤ start b) → a ∈ l :=
    hperm.mem_iff.mp
  have hlast : lastStop stop 0 (l.insertionSort fun a b => start a ≤ start b) ≤ limit := by
    rw [lastStop]
    split
    · exact hlimit
    · rename_i a ha
      exact hstop a (hmem (List.mem_of_getLast? ha))
  calc (l.map fun a => stop a - start a).sum
      = ((l.insertionSort fun a b => start a ≤ start b).map fun a => stop a - start a).sum :=
        (hperm.map _).symm.sum_eq
    _ ≤ lastStop stop 0 (l.insertionSort fun a b => start a ≤ start b) - 0 :=
        (chained_insertionSort hpos h).sum_le (fun a ha => hpos a (hmem ha))
          fun a ha => hstart a (hmem ha)
    _ ≤ limit := by rwa [sub_zero]

/-- **Some workers do no more than that many times as much.** -/
theorem sum_le_workers {workerOf : α → ℤ} {workers : ℕ} {limit : K} (hlimit : 0 ≤ limit)
    (hworker : ∀ a ∈ l, 0 ≤ workerOf a ∧ workerOf a < workers)
    (hpos : ∀ a ∈ l, start a < stop a) (hstart : ∀ a ∈ l, 0 ≤ start a)
    (hstop : ∀ a ∈ l, stop a ≤ limit)
    (h : l.Pairwise fun a b =>
      workerOf a = workerOf b → ¬ Meets (start a) (stop a) (start b) (stop b)) :
    (l.map fun a => stop a - start a).sum ≤ workers * limit := by
  have hkeys : ((List.range workers).map fun w : ℕ => (w : ℤ)).Nodup :=
    List.nodup_range.map Nat.cast_injective
  have hgroups := flatMap_filter_perm workerOf hkeys l fun a ha => by
    obtain ⟨h0, hlt⟩ := hworker a ha
    exact List.mem_map.mpr ⟨(workerOf a).toNat, List.mem_range.mpr (by omega), by omega⟩
  -- what one worker does is done one after another
  have hone : ∀ w : ℤ, ((l.filter fun a => workerOf a = w).map fun a => stop a - start a).sum ≤
      limit := by
    intro w
    have hmem : ∀ {a}, a ∈ l.filter (fun a => workerOf a = w) → a ∈ l ∧ workerOf a = w :=
      fun ha => by simpa using ha
    refine sum_le_of_not_meets hlimit (fun a ha => hpos a (hmem ha).1)
      (fun a ha => hstart a (hmem ha).1) (fun a ha => hstop a (hmem ha).1) ?_
    refine (h.sublist List.filter_sublist).imp_of_mem fun {a b} ha hb hab => ?_
    exact hab ((hmem ha).2.trans (hmem hb).2.symm)
  have hsum : ∀ ws : List ℤ, ((ws.flatMap fun w => l.filter fun a => workerOf a = w).map
      fun a => stop a - start a).sum ≤ ws.length * limit := by
    intro ws
    induction ws with
    | nil => simp
    | cons w rest ih =>
      rw [List.flatMap_cons, List.map_append, List.sum_append, List.length_cons, Nat.cast_succ,
        add_mul, one_mul, add_comm]
      exact add_le_add ih (hone w)
  rw [← (hgroups.map _).sum_eq]
  refine (hsum _).trans_eq ?_
  rw [List.length_map, List.length_range]

end ConflictGraph
