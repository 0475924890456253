import Mathlib.Algebra.Order.BigOperators.Group.List
import Mathlib.Algebra.Order.Field.Basic
import Mathlib.Algebra.BigOperators.Group.List.Basic
import Mathlib.Tactic.Linarith
import Mathlib.Tactic.FieldSimp
import Mathlib.Tactic.Ring

/-!
# Longest processing time first

List scheduling puts the next job on a lane that is free first. If no earlier job is
shorter, then the lane ends at most `4/3 - 1/(3m)` times later than the latest lane of
*any* way to spread the jobs over the `m` lanes. A job is its duration here, and a plan the
list of its lanes.

The proof is the classical one. A job of at most a third of the bound `T` is paid for by the
average load. A longer job cannot come to lie beyond `T` at all, which is a count: give a job
that leaves no room for the new one beside it the weight two, other jobs the weight one, and
jobs shorter than the new one the weight zero. A lane that ends by `T` weighs at most two, and
a lane on which the new job does not fit weighs at least two.
-/

namespace ConflictGraph

universe u

variable {K : Type u} [Field K] [LinearOrder K]

/-- How many jobs of length `d` a job of length `x` stands for, in a lane of length `T`. -/
def jobWeight (d T x : K) : ℕ := if x < d then 0 else if x + d ≤ T then 1 else 2

/-- The weight of a lane. -/
def laneWeight (d T : K) (lane : List K) : ℕ := (lane.map (jobWeight d T)).sum

theorem jobWeight_pos {d T x : K} (h : d ≤ x) : 1 ≤ jobWeight d T x := by
  rw [jobWeight, if_neg (not_lt.mpr h)]
  split <;> omega

theorem laneWeight_cons (d T x : K) (lane : List K) :
    laneWeight d T (x :: lane) = jobWeight d T x + laneWeight d T lane := by
  rw [laneWeight, List.map_cons, List.sum_cons, laneWeight]

/-- The weight of a plan is the weight of its jobs. -/
theorem laneWeight_flatten (d T : K) (lanes : List (List K)) :
    laneWeight d T lanes.flatten = (lanes.map (laneWeight d T)).sum := by
  rw [laneWeight, List.map_flatten, List.sum_flatten, List.map_map]
  rfl

/-- A lane of longer jobs on which the next one does not fit weighs at least two. -/
theorem two_le_laneWeight {d T : K} (hdT : d ≤ T) {lane : List K} (hlong : ∀ x ∈ lane, d ≤ x)
    (hsum : T < lane.sum + d) : 2 ≤ laneWeight d T lane := by
  rcases lane with _ | ⟨x, _ | ⟨y, rest⟩⟩
  · rw [List.sum_nil, zero_add] at hsum
    exact absurd hdT (not_le.mpr hsum)
  · rw [List.sum_singleton] at hsum
    have hx : ¬ x < d := not_lt.mpr (hlong x List.mem_cons_self)
    rw [laneWeight, List.map_singleton, List.sum_singleton, jobWeight, if_neg hx,
      if_neg (not_le.mpr hsum)]
  · have hx := jobWeight_pos (T := T) (hlong x List.mem_cons_self)
    have hy := jobWeight_pos (T := T) (hlong y (List.mem_cons_of_mem _ List.mem_cons_self))
    rw [laneWeight_cons, laneWeight_cons]
    omega

section Weight

variable [IsStrictOrderedRing K]

/-- How long a lane of a given weight is at least, when three jobs of length `d` are too long
for `T`. -/
theorem le_sum_of_laneWeight {d T : K} (hd : T < 3 * d) (hT : 0 ≤ T) {lane : List K}
    (hnonneg : ∀ x ∈ lane, 0 ≤ x) :
    0 ≤ lane.sum ∧ (1 ≤ laneWeight d T lane → d ≤ lane.sum) ∧
      (2 ≤ laneWeight d T lane → 2 * d ≤ lane.sum ∨ T < lane.sum + d) ∧
      (3 ≤ laneWeight d T lane → T < lane.sum) := by
  induction lane with
  | nil => exact ⟨le_refl 0, nofun, nofun, nofun⟩
  | cons x rest ih =>
    rw [List.forall_mem_cons] at hnonneg
    obtain ⟨h₀, h₁, h₂, h₃⟩ := ih hnonneg.2
    have hx := hnonneg.1
    rw [laneWeight_cons, List.sum_cons, jobWeight]
    split
    · -- the job is short: it adds no weight, and only makes the lane longer
      rw [zero_add]
      refine ⟨by linarith, fun h => by linarith [h₁ h], fun h => ?_, fun h => by linarith [h₃ h]⟩
      exact (h₂ h).imp (fun h => by linarith) fun h => by linarith
    · rename_i hlong
      rw [not_lt] at hlong
      split
      · -- the job counts once
        refine ⟨by linarith, fun _ => by linarith, fun h => ?_, fun h => ?_⟩
        · left
          linarith [h₁ (by omega)]
        · rcases h₂ (by omega) with h | h
          · linarith
          · linarith
      · -- the job counts twice, and nothing fits beside it
        rename_i hwide
        rw [not_le] at hwide
        refine ⟨by linarith, fun _ => by linarith, fun _ => .inr (by linarith), fun h => ?_⟩
        linarith [h₁ (by omega)]

/-- A lane that ends in time weighs at most two. -/
theorem laneWeight_le_two {d T : K} (hd : T < 3 * d) (hT : 0 ≤ T) {lane : List K}
    (hnonneg : ∀ x ∈ lane, 0 ≤ x) (hsum : lane.sum ≤ T) : laneWeight d T lane ≤ 2 := by
  by_contra h
  exact absurd hsum (not_le.mpr ((le_sum_of_laneWeight hd hT hnonneg).2.2.2 (by omega)))

end Weight

section Bound

/-! `lanes` is the plan so far, `d` the next job, and `rest` are the jobs after it; `other` is
another plan for all of them. -/

variable {d T start : K} {lanes other : List (List K)} {rest : List K}
  (hlen : other.length = lanes.length)
  (hperm : other.flatten.Perm (lanes.flatten ++ d :: rest))
  (hlong : ∀ x ∈ lanes.flatten, d ≤ x) (hd : 0 ≤ d) (hrest : ∀ x ∈ rest, 0 ≤ x)
  (hstart : ∀ lane ∈ lanes, start ≤ lane.sum) (hother : ∀ lane ∈ other, lane.sum ≤ T)

include hperm hlong hd hrest in
theorem nonneg_of_mem_other : ∀ x ∈ other.flatten, 0 ≤ x := by
  intro x hx
  rcases List.mem_append.mp (hperm.mem_iff.mp hx) with hx | hx
  · exact hd.trans (hlong x hx)
  · rcases List.mem_cons.mp hx with rfl | hx
    · exact hd
    · exact hrest x hx

variable [IsStrictOrderedRing K]

include hperm hlong hd hrest hother in
/-- The bound is at least as long as the job. -/
theorem le_bound : d ≤ T := by
  have hmem : d ∈ other.flatten :=
    hperm.mem_iff.mpr (List.mem_append_right _ List.mem_cons_self)
  obtain ⟨lane, hlane, hdl⟩ := List.mem_flatten.mp hmem
  refine (List.single_le_sum (fun x hx => ?_) d hdl).trans (hother lane hlane)
  exact nonneg_of_mem_other hperm hlong hd hrest x (List.mem_flatten.mpr ⟨lane, hlane, hx⟩)

include hlen hperm hrest hstart hother in
/-- What the average load pays for. -/
theorem length_nsmul_start_le : (lanes.length : K) * start + d ≤ lanes.length * T := by
  have hours : lanes.length • start ≤ (lanes.map List.sum).sum := by
    rw [← List.length_map (f := List.sum)]
    refine List.card_nsmul_le_sum _ _ fun x hx => ?_
    obtain ⟨lane, hlane, rfl⟩ := List.mem_map.mp hx
    exact hstart lane hlane
  have htheirs : (other.map List.sum).sum ≤ other.length • T := by
    rw [← List.length_map (f := List.sum)]
    refine List.sum_le_card_nsmul _ _ fun x hx => ?_
    obtain ⟨lane, hlane, rfl⟩ := List.mem_map.mp hx
    exact hother lane hlane
  have htotal := hperm.sum_eq
  rw [List.sum_append, List.sum_cons, List.sum_flatten, List.sum_flatten] at htotal
  have hnonneg := List.sum_nonneg hrest
  rw [nsmul_eq_mul] at hours
  rw [nsmul_eq_mul, hlen] at htheirs
  linarith

include hlen hperm hlong hd hrest hstart hother in
/-- A job longer than a third of the bound ends by the bound. -/
theorem start_add_le_of_long (hthird : T < 3 * d) : start + d ≤ T := by
  have hdT := le_bound hperm hlong hd hrest hother
  by_contra hlate
  rw [not_le] at hlate
  have hours : lanes.length • 2 ≤ (lanes.map (laneWeight d T)).sum := by
    rw [← List.length_map (f := laneWeight d T)]
    refine List.card_nsmul_le_sum _ _ fun w hw => ?_
    obtain ⟨lane, hlane, rfl⟩ := List.mem_map.mp hw
    refine two_le_laneWeight hdT
      (fun x hx => hlong x (List.mem_flatten.mpr ⟨lane, hlane, hx⟩)) ?_
    exact hlate.trans_le (add_le_add_left (hstart lane hlane) d)
  have htheirs : (other.map (laneWeight d T)).sum ≤ other.length • 2 := by
    rw [← List.length_map (f := laneWeight d T)]
    refine List.sum_le_card_nsmul _ _ fun w hw => ?_
    obtain ⟨lane, hlane, rfl⟩ := List.mem_map.mp hw
    refine laneWeight_le_two hthird (hd.trans hdT) (fun x hx => ?_) (hother lane hlane)
    exact nonneg_of_mem_other hperm hlong hd hrest x (List.mem_flatten.mpr ⟨lane, hlane, hx⟩)
  -- the other plan holds our lanes, the job and more, so it weighs more than ours
  have htotal : laneWeight d T other.flatten = laneWeight d T (lanes.flatten ++ d :: rest) :=
    (hperm.map _).sum_eq
  rw [laneWeight_flatten, laneWeight, List.map_append, List.sum_append, ← laneWeight,
    laneWeight_flatten, List.map_cons, List.sum_cons] at htotal
  have hself : 1 ≤ jobWeight d T d := jobWeight_pos (le_refl d)
  rw [hlen] at htheirs
  rw [nsmul_eq_mul, Nat.cast_id] at hours htheirs
  omega

include hlen hperm hlong hd hrest hstart hother in
/-- **The next of the longest jobs ends in time**: within `4/3 - 1/(3m)` of any bound on the
lanes of another plan. -/
theorem start_add_le (hlanes : lanes ≠ []) :
    start + d ≤ (4 / 3 - 1 / (3 * (lanes.length : K))) * T := by
  have hm : (1 : K) ≤ lanes.length := by
    exact_mod_cast Nat.one_le_iff_ne_zero.mpr (List.length_pos_iff.mpr hlanes).ne'
  have hdT := le_bound hperm hlong hd hrest hother
  have haverage := length_nsmul_start_le hlen hperm hrest hstart hother
  have hbound : (4 / 3 - 1 / (3 * (lanes.length : K))) * T =
      (4 * lanes.length - 1) * T / (3 * lanes.length) := by
    have hne : (lanes.length : K) ≠ 0 := by linarith
    field_simp
  rw [hbound, le_div_iff₀ (by linarith)]
  rcases le_or_gt (3 * d) T with hthird | hthird
  · nlinarith [mul_le_mul_of_nonneg_left hthird (sub_nonneg.mpr hm)]
  · have hlong := start_add_le_of_long hlen hperm hlong hd hrest hstart hother hthird
    nlinarith [mul_le_mul_of_nonneg_left hlong (by linarith : (0 : K) ≤ 3 * lanes.length),
      mul_nonneg (hd.trans hdT) (sub_nonneg.mpr hm)]

end Bound

end ConflictGraph
