import Mathlib.Algebra.Order.BigOperators.GroupWithZero.List
import Mathlib.Algebra.Order.Field.Basic
import Mathlib.Data.List.Forall2
import Mathlib.Tactic.Linarith

/-!
# Noisy or

Causes act independently of one another, each occurrence with the probability that is its weight.
Nothing happens if every occurrence of every cause fails to act: that is the *survival* of a list of
causes. It falls as the causes grow in number.
-/

namespace ConflictGraph

universe u v

variable {α : Type u} {K : Type v} [Field K]

/-- The probability that no cause of the list acts. -/
def survival (weight : α → K) (count : α → ℕ) (causes : List α) : K :=
  (causes.map fun a => (1 - weight a) ^ count a).prod

variable {weight : α → K} {count : α → ℕ} {causes causes' : List α} {a : α}

@[simp] theorem survival_nil : survival weight count [] = 1 := rfl

theorem survival_cons :
    survival weight count (a :: causes) =
      (1 - weight a) ^ count a * survival weight count causes := by
  rw [survival, List.map_cons, List.prod_cons, survival]

/-- Causes that do not occur do not act. -/
theorem survival_eq_one (h : ∀ a ∈ causes, count a = 0) : survival weight count causes = 1 := by
  induction causes with
  | nil => rfl
  | cons a causes ih =>
    rw [List.forall_mem_cons] at h
    rw [survival_cons, h.1, pow_zero, one_mul, ih h.2]

/-- What a further cause of probability `q` makes of the probability `p`. -/
def noisyOr (p q : K) : K := 1 - (1 - p) * (1 - q)

@[simp] theorem noisyOr_zero (p : K) : noisyOr p 0 = p := by
  rw [noisyOr, sub_zero, mul_one, sub_sub_cancel]

variable [LinearOrder K]

/-- The weights of the causes are probabilities. -/
def Weighted (weight : α → K) (causes : List α) : Prop := ∀ a ∈ causes, 0 ≤ weight a ∧ weight a ≤ 1

theorem weighted_cons :
    Weighted weight (a :: causes) ↔ (0 ≤ weight a ∧ weight a ≤ 1) ∧ Weighted weight causes :=
  List.forall_mem_cons

variable [IsStrictOrderedRing K]

theorem survival_nonneg (h : Weighted weight causes) : 0 ≤ survival weight count causes := by
  refine List.prod_nonneg fun x hx => ?_
  obtain ⟨a, ha, rfl⟩ := List.mem_map.mp hx
  exact pow_nonneg (sub_nonneg.mpr (h a ha).2) _

/-- To survive is a chance. -/
theorem survival_le_one (h : Weighted weight causes) : survival weight count causes ≤ 1 := by
  induction causes with
  | nil => exact le_rfl
  | cons a causes ih =>
    obtain ⟨⟨hnonneg, hone⟩, hrest⟩ := weighted_cons.mp h
    rw [survival_cons]
    exact mul_le_one₀ (pow_le_one₀ (sub_nonneg.mpr hone) (sub_le_self 1 hnonneg))
      (survival_nonneg hrest) (ih hrest)

/-- More occurrences leave less to survive. -/
theorem survival_antitone (hweighted : Weighted weight causes')
    (h : List.Forall₂ (fun a b => weight b = weight a ∧ count a ≤ count b) causes causes') :
    survival weight count causes' ≤ survival weight count causes := by
  induction h with
  | nil => exact le_rfl
  | @cons a b causes causes' hab _ ih =>
    obtain ⟨⟨hnonneg, hone⟩, hrest⟩ := weighted_cons.mp hweighted
    rw [survival_cons, survival_cons, ← hab.1]
    exact mul_le_mul
      (pow_le_pow_of_le_one (sub_nonneg.mpr hone) (sub_le_self 1 hnonneg) hab.2)
      (ih hrest) (survival_nonneg hrest) (pow_nonneg (sub_nonneg.mpr hone) _)

/-- A cause that occurs fails to act at least once. -/
theorem survival_le (h : Weighted weight causes) (ha : a ∈ causes) (hoccurs : count a ≠ 0) :
    survival weight count causes ≤ 1 - weight a := by
  induction causes with
  | nil => exact absurd ha List.not_mem_nil
  | cons b causes ih =>
    obtain ⟨⟨hnonneg, hone⟩, hrest⟩ := weighted_cons.mp h
    have hbase : 0 ≤ 1 - weight b := sub_nonneg.mpr hone
    have hle : 1 - weight b ≤ 1 := sub_le_self 1 hnonneg
    rw [survival_cons]
    rcases List.mem_cons.mp ha with rfl | ha
    · calc (1 - weight a) ^ count a * survival weight count causes
        _ ≤ (1 - weight a) ^ count a :=
          mul_le_of_le_one_right (pow_nonneg hbase _) (survival_le_one hrest)
        _ ≤ 1 - weight a := pow_le_of_le_one hbase hle hoccurs
    · calc (1 - weight b) ^ count b * survival weight count causes
        _ ≤ survival weight count causes :=
          mul_le_of_le_one_left (survival_nonneg hrest) (pow_le_one₀ hbase hle)
        _ ≤ 1 - weight a := ih hrest ha

/-! ## One cause more -/

variable {p p' q q' : K}

/-- More of either chance, more of both. -/
theorem noisyOr_mono (hp : p ≤ p') (hq : q ≤ q') (hone : p ≤ 1) (hone' : q' ≤ 1) :
    noisyOr p q ≤ noisyOr p' q' :=
  sub_le_sub_left (mul_le_mul (sub_le_sub_left hp 1) (sub_le_sub_left hq 1)
    (sub_nonneg.mpr hone') (sub_nonneg.mpr hone)) 1

/-- A further cause does not take from the probability. -/
theorem le_noisyOr (hone : p ≤ 1) (hq : 0 ≤ q) (hone' : q ≤ 1) : p ≤ noisyOr p q :=
  (noisyOr_zero p).symm.trans_le (noisyOr_mono le_rfl hq hone hone')

/-- Nor does it act less than by itself. -/
theorem le_noisyOr_right (hp : 0 ≤ p) (hone' : q ≤ 1) : q ≤ noisyOr p q := by
  have h : 0 ≤ p * (1 - q) := mul_nonneg hp (sub_nonneg.mpr hone')
  rw [noisyOr]
  linarith

theorem noisyOr_le_one (hone : p ≤ 1) (hone' : q ≤ 1) : noisyOr p q ≤ 1 :=
  sub_le_self 1 (mul_nonneg (sub_nonneg.mpr hone) (sub_nonneg.mpr hone'))

end ConflictGraph
