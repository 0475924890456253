import Mathlib.Algebra.BigOperators.Group.List.Basic
import Mathlib.Data.List.Sym
import Mathlib.Order.Bounds.Basic
import ConflictGraph.Chain
import ConflictGraph.Lanes

/-!
# Boards in time

A board is *sound* when each of its lanes is what one worker does: its items carry the
lane's index, stop when they have lasted as long as they say, and follow one another. Pushing
an item that starts when the worker is free, or later, keeps a board sound, and a sound board
never has a worker do two things at once.

Also here: what a double loop over the pairs of a list sums up.
-/

namespace ConflictGraph

universe u v

variable {α : Type u} {K : Type v}

/-- Pushing an item moves the end of one lane. -/
theorem map_lastStop_push (stop : α → K) (origin : K) (lanes : List (List α)) (worker : ℕ) (a : α) :
    (push lanes worker a).map (lastStop stop origin) =
      (lanes.map (lastStop stop origin)).set worker (stop a) := by
  refine List.ext_getElem? fun i => ?_
  rw [List.getElem?_map, List.getElem?_set, List.length_map]
  by_cases hne : worker = i
  · subst hne
    rw [if_pos rfl]
    by_cases hlt : worker < lanes.length
    · rw [getElem?_push_self (List.getElem?_eq_getElem hlt), if_pos hlt, Option.map_some,
        lastStop_concat]
    · rw [if_neg hlt, List.getElem?_eq_none (by rw [length_push]; exact not_lt.mp hlt),
        Option.map_none]
  · rw [if_neg hne, getElem?_push_ne (Ne.symm hne), List.getElem?_map]

variable [AddCommGroup K] [LinearOrder K]

/-! ## Sound lanes -/

/-- The lane is what the worker does, one item after the other. -/
structure SoundLane (workerOf : α → ℤ) (start stop length : α → K) (worker : ℕ) (lane : List α) :
    Prop where
  worker_eq : ∀ a ∈ lane, workerOf a = worker
  stop_eq : ∀ a ∈ lane, stop a = start a + length a
  start_nonneg : ∀ a ∈ lane, 0 ≤ start a
  length_pos : ∀ a ∈ lane, 0 < length a
  chained : Chained start stop lane

/-- Every lane is sound for its index. -/
def SoundBoard (workerOf : α → ℤ) (start stop length : α → K) (lanes : List (List α)) : Prop :=
  ∀ (i : ℕ) (lane : List α), lanes[i]? = some lane → SoundLane workerOf start stop length i lane

variable {workerOf : α → ℤ} {start stop length : α → K} {worker : ℕ} {lane : List α}
  {lanes : List (List α)} {a : α}

theorem soundLane_nil (worker : ℕ) : SoundLane workerOf start stop length worker [] :=
  ⟨List.forall_mem_nil _, List.forall_mem_nil _, List.forall_mem_nil _, List.forall_mem_nil _,
    chained_nil⟩

theorem soundBoard_replicate (n : ℕ) :
    SoundBoard workerOf start stop length (List.replicate n []) := by
  intro i lane h
  rw [List.eq_of_mem_replicate (List.mem_of_getElem? h)]
  exact soundLane_nil i

/-- What a sound lane says about its items, said of the whole board. -/
theorem SoundBoard.mem_flatten (h : SoundBoard workerOf start stop length lanes)
    (ha : a ∈ lanes.flatten) :
    0 ≤ workerOf a ∧ workerOf a < lanes.length ∧ 0 ≤ start a ∧ stop a = start a + length a ∧
      0 < length a := by
  obtain ⟨i, lane, hlane, hmem⟩ := mem_flatten_iff_getElem?.mp ha
  have hsound := h i lane hlane
  have hlt : i < lanes.length := (List.getElem?_eq_some_iff.mp hlane).1
  rw [hsound.worker_eq a hmem]
  exact ⟨Int.natCast_nonneg i, by exact_mod_cast hlt, hsound.start_nonneg a hmem,
    hsound.stop_eq a hmem, hsound.length_pos a hmem⟩

/-- **No worker does two things at once.** -/
theorem SoundBoard.compatible (h : SoundBoard workerOf start stop length lanes) :
    lanes.flatten.Pairwise fun a b =>
      workerOf a = workerOf b → ¬ Meets (start a) (stop a) (start b) (stop b) := by
  rw [List.pairwise_flatten]
  refine ⟨fun lane hlane => ?_, ?_⟩
  · obtain ⟨i, hi⟩ := List.mem_iff_getElem?.mp hlane
    refine (h i lane hi).chained.not_meets.imp ?_
    intro a b hnot _
    exact hnot
  · rw [List.pairwise_iff_getElem]
    intro i j hi hj hij a ha b hb hworker
    have hai := (h i _ (List.getElem?_eq_getElem hi)).worker_eq a ha
    have hbj := (h j _ (List.getElem?_eq_getElem hj)).worker_eq b hb
    rw [hai, hbj] at hworker
    omega

section Ordered

variable [IsOrderedAddMonoid K]

namespace SoundLane

theorem start_lt_stop (h : SoundLane workerOf start stop length worker lane) :
    ∀ a ∈ lane, start a < stop a := fun a ha => by
  rw [h.stop_eq a ha]
  exact lt_add_of_pos_right _ (h.length_pos a ha)

theorem stop_le (h : SoundLane workerOf start stop length worker lane) :
    ∀ a ∈ lane, stop a ≤ lastStop stop 0 lane :=
  h.chained.stop_le_lastStop h.start_lt_stop

theorem lastStop_nonneg (h : SoundLane workerOf start stop length worker lane) :
    0 ≤ lastStop stop 0 lane := by
  rcases List.eq_nil_or_concat' lane with rfl | ⟨init, last, rfl⟩
  · exact le_refl 0
  · have hmem : last ∈ init ++ [last] := List.mem_append_right _ (List.mem_singleton_self last)
    exact (h.start_nonneg last hmem).trans
      ((h.start_lt_stop last hmem).le.trans (h.stop_le last hmem))

/-- A sound lane stays sound when an item is appended at or after its end. -/
theorem concat (h : SoundLane workerOf start stop length worker lane) (hworker : workerOf a = worker)
    (hstop : stop a = start a + length a) (hpos : 0 < length a)
    (hstart : lastStop stop 0 lane ≤ start a) :
    SoundLane workerOf start stop length worker (lane ++ [a]) where
  worker_eq := List.forall_mem_append.mpr ⟨h.worker_eq, List.forall_mem_singleton.mpr hworker⟩
  stop_eq := List.forall_mem_append.mpr ⟨h.stop_eq, List.forall_mem_singleton.mpr hstop⟩
  start_nonneg := List.forall_mem_append.mpr
    ⟨h.start_nonneg, List.forall_mem_singleton.mpr (h.lastStop_nonneg.trans hstart)⟩
  length_pos := List.forall_mem_append.mpr ⟨h.length_pos, List.forall_mem_singleton.mpr hpos⟩
  chained := h.chained.concat h.start_lt_stop hstart

end SoundLane

/-- **The push rule.** An item that starts when its worker is free keeps a board sound. -/
theorem SoundBoard.push (h : SoundBoard workerOf start stop length lanes)
    (hlane : lanes[worker]? = some lane)
    (hworker : workerOf a = worker) (hstop : stop a = start a + length a) (hpos : 0 < length a)
    (hstart : lastStop stop 0 lane ≤ start a) :
    SoundBoard workerOf start stop length (ConflictGraph.push lanes worker a) := by
  intro i lane' hi
  by_cases hne : i = worker
  · subst hne
    rw [getElem?_push_self hlane] at hi
    rw [← Option.some.inj hi]
    exact (h i lane hlane).concat hworker hstop hpos hstart
  · rw [getElem?_push_ne hne] at hi
    exact h i lane' hi

end Ordered

/-! ## Sums over pairs -/

section Pairs

variable {M : Type v} [AddCommMonoid M] {f : Sym2 α → M} {against : α → M → α → M}
  {loop : M → List α → M}

/-- **The double loop.** A loop that adds, for every item and every later one, what the pair
contributes, sums over the unordered pairs, if an item contributes nothing with itself. -/
theorem doubleLoop_eq (hnil : ∀ total, loop total [] = total)
    (hcons : ∀ total a rest, loop total (a :: rest) = loop (rest.foldl (against a) total) rest)
    (hagainst : ∀ a total b, against a total b = total + f s(a, b))
    (hself : ∀ a, f s(a, a) = 0) (l : List α) :
    ∀ total : M, loop total l = total + (l.sym2.map f).sum := by
  have hfold : ∀ (a : α) (rest : List α) (total : M), rest.foldl (against a) total =
      total + (rest.map fun b => f s(a, b)).sum := by
    intro a rest
    induction rest with
    | nil => exact fun total => (add_zero total).symm
    | cons b rest ih =>
      intro total
      rw [List.foldl_cons, ih, hagainst, List.map_cons, List.sum_cons, add_assoc]
  induction l with
  | nil => exact fun total => (hnil total).trans (add_zero total).symm
  | cons a rest ih =>
    intro total
    rw [hcons, ih, hfold, List.sym2, List.map_append, List.sum_append, List.map_cons,
      List.map_cons, List.sum_cons, hself, zero_add, List.map_map, add_assoc]
    rfl

end Pairs

end ConflictGraph
