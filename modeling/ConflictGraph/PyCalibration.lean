import Mathlib.Algebra.BigOperators.Field
import Mathlib.Algebra.BigOperators.Intervals
import Mathlib.Algebra.Order.BigOperators.Group.Finset
import Mathlib.Algebra.Order.Floor.Semiring
import Mathlib.Data.Rat.Floor
import Mathlib.Tactic.FieldSimp
import Mathlib.Tactic.Linarith
import ConflictGraph.PyMetrics

/-!
# Every example counts once

The bins of `expected_calibration_error` are half-open but for the last one. For a
probability, exactly one of them holds it, the one `binOf` computes, so that the error is
a sum over a partition of the examples: the triangle inequality bounds it from below by
the distance of the two means, and the distance of each example from its label from above
by one.
-/

namespace ConflictGraph.Py

/-! ## Sums over a mask -/

theorem sum_select {n : ℕ} (mask : Fin n → Bool) (values : Fin n → ℚ) :
    (select mask values).sum = ∑ i with mask i, values i := by
  rw [Finset.sum_filter, Fin.sum_univ_def, select]
  induction List.finRange n with
  | nil => rfl
  | cons i rest ih =>
    by_cases h : mask i
    · simp [h, ih]
    · simp [h, ih]

theorem length_select {n : ℕ} {α : Type} (mask : Fin n → Bool) (values : Fin n → α) :
    (select mask values).length = (List.finRange n).countP mask := by
  rw [select, List.length_map, List.countP_eq_length_filter]

/-! ## The bins -/

/-- The bin of a probability. -/
def binOf (bins : ℕ) (probability : ℚ) : ℕ := min ⌊probability * bins⌋₊ (bins - 1)

section Bins

variable {bins index : ℕ} {probability : ℚ}

theorem binOf_lt (hbins : 1 ≤ bins) : binOf bins probability < bins :=
  (min_le_right _ _).trans_lt (by omega)

/-- **The bins are a partition**: a probability is in its own bin and in no other. -/
theorem inBin_iff (hindex : index < bins) (h0 : 0 ≤ probability) (h1 : probability ≤ 1) :
    inBin bins index probability = true ↔ binOf bins probability = index := by
  have hpos : (0 : ℚ) < bins := by exact_mod_cast (by omega : 0 < bins)
  have hscaled : 0 ≤ probability * bins := mul_nonneg h0 hpos.le
  have hlower : boundary bins index ≤ probability ↔ index ≤ ⌊probability * bins⌋₊ := by
    rw [boundary, div_le_iff₀ hpos, Nat.le_floor_iff hscaled]
  have hupper : probability < boundary bins (index + 1) ↔ ⌊probability * bins⌋₊ < index + 1 := by
    rw [boundary, lt_div_iff₀ hpos, Nat.floor_lt hscaled]
  -- the last bin has no bound above that a probability could miss
  have hlast : ¬ index + 1 < bins → probability ≤ boundary bins (index + 1) := by
    intro h
    have he : index + 1 = bins := by omega
    rwa [boundary, he, div_self hpos.ne']
  rw [inBin, binOf, Bool.and_eq_true, decide_eq_true_eq, hlower]
  split
  · rw [decide_eq_true_eq, hupper]
    omega
  · rename_i h
    simp only [hlast h, decide_true, and_true]
    omega

end Bins

/-! ## The error as a sum over the partition -/

section Error

variable {n : ℕ} {labels : Fin n → ℤ} {p : Fin n → ℚ} {bins : ℕ}

/-- A bin adds the distance between its labels and its probabilities, over the number of
all the examples. -/
theorem binError_eq (index : ℕ) :
    binError labels p bins index =
      |∑ i with inBin bins index (p i) = true, ((labels i : ℚ) - p i)| / n := by
  rw [binError]
  split
  · rename_i hany
    have hcount : (0 : ℚ) < (List.finRange n).countP fun i => inBin bins index (p i) := by
      obtain ⟨i, hi, hin⟩ := List.any_eq_true.mp hany
      exact_mod_cast List.countP_pos_iff.mpr ⟨i, hi, hin⟩
    rw [maskMean, mean, mean, length_select, length_select, sum_select, sum_select,
      ← sub_div, ← Finset.sum_sub_distrib, abs_div, abs_of_pos hcount]
    field_simp
  · rename_i hany
    have hempty : (Finset.univ.filter fun i => inBin bins index (p i) = true) = ∅ := by
      apply Finset.filter_eq_empty_iff.mpr
      intro i _ hi
      exact hany (List.any_eq_true.mpr ⟨i, List.mem_finRange i, hi⟩)
    simp [hempty]

theorem foldl_binError :
    (List.range bins).foldl (fun error index => error + binError labels p bins index) 0 =
      ∑ index ∈ Finset.range bins, binError labels p bins index := by
  have hrun : ∀ k, (List.range k).foldl
      (fun error index => error + binError labels p bins index) 0 =
      ∑ index ∈ Finset.range k, binError labels p bins index := by
    intro k
    induction k with
    | zero => rfl
    | succ k ih => rw [List.range_succ, List.foldl_concat, ih, Finset.sum_range_succ]
  exact hrun bins

variable (hp : ∀ i, 0 ≤ p i ∧ p i ≤ 1)

include hp

/-- The examples of a bin are those whose own bin it is. -/
theorem filter_inBin {index : ℕ} (hindex : index ∈ Finset.range bins) :
    (Finset.univ.filter fun i => inBin bins index (p i) = true) =
      Finset.univ.filter fun i => binOf bins (p i) = index := by
  apply Finset.filter_congr
  intro i _
  exact inBin_iff (Finset.mem_range.mp hindex) (hp i).1 (hp i).2

theorem abs_sub_le_sum_binError (hbins : 1 ≤ bins) :
    |∑ i, ((labels i : ℚ) - p i)| / n ≤
      ∑ index ∈ Finset.range bins, binError labels p bins index := by
  have hmaps : ∀ i ∈ Finset.univ, binOf bins (p i) ∈ Finset.range bins :=
    fun i _ => Finset.mem_range.mpr (binOf_lt hbins)
  calc |∑ i, ((labels i : ℚ) - p i)| / n
      = |∑ index ∈ Finset.range bins,
          ∑ i with binOf bins (p i) = index, ((labels i : ℚ) - p i)| / n := by
        rw [Finset.sum_fiberwise_of_maps_to hmaps]
    _ ≤ (∑ index ∈ Finset.range bins,
          |∑ i with binOf bins (p i) = index, ((labels i : ℚ) - p i)|) / n := by
        apply div_le_div_of_nonneg_right (Finset.abs_sum_le_sum_abs _ _)
        exact Nat.cast_nonneg n
    _ = ∑ index ∈ Finset.range bins, binError labels p bins index := by
        rw [Finset.sum_div]
        apply Finset.sum_congr rfl
        intro index hindex
        rw [binError_eq, filter_inBin hp hindex]

theorem sum_binError_le_one (hbins : 1 ≤ bins) (hn : 0 < n)
    (hl : ∀ i, labels i = 0 ∨ labels i = 1) :
    ∑ index ∈ Finset.range bins, binError labels p bins index ≤ 1 := by
  have hdist : ∀ i, |(labels i : ℚ) - p i| ≤ 1 := by
    intro i
    obtain ⟨h0, h1⟩ := hp i
    rw [abs_le]
    rcases hl i with h | h
    · rw [h, Int.cast_zero]
      exact ⟨by linarith, by linarith⟩
    · rw [h, Int.cast_one]
      exact ⟨by linarith, by linarith⟩
  have hbin : ∀ index ∈ Finset.range bins, binError labels p bins index ≤
      ((Finset.univ.filter fun i => binOf bins (p i) = index).card : ℚ) / n := by
    intro index hindex
    rw [binError_eq, filter_inBin hp hindex]
    apply div_le_div_of_nonneg_right _ (Nat.cast_nonneg n)
    refine (Finset.abs_sum_le_sum_abs _ _).trans ?_
    simpa using Finset.sum_le_card_nsmul _ _ 1 fun i _ => hdist i
  have hmaps : ∀ i ∈ Finset.univ, binOf bins (p i) ∈ Finset.range bins :=
    fun i _ => Finset.mem_range.mpr (binOf_lt hbins)
  calc ∑ index ∈ Finset.range bins, binError labels p bins index
      ≤ ∑ index ∈ Finset.range bins,
          ((Finset.univ.filter fun i => binOf bins (p i) = index).card : ℚ) / n :=
        Finset.sum_le_sum hbin
    _ = (n : ℚ) / n := by
        rw [← Finset.sum_div, ← Nat.cast_sum, ← Finset.card_eq_sum_card_fiberwise hmaps,
          Finset.card_fin]
    _ = 1 := div_self (by exact_mod_cast hn.ne')

end Error

/-- `expected_calibration_error` of as many probabilities as labels, at least one. -/
theorem expectedCalibrationError_eq {n : ℕ} {labels : Fin n → ℤ} {p : Fin n → ℚ} {bins : ℤ}
    (hbins : 1 ≤ bins) (hn : 0 < n) :
    expectedCalibrationError labels p bins =
      .ok (∑ index ∈ Finset.range bins.toNat, binError labels p bins.toNat index) := by
  rw [expectedCalibrationError, if_neg (by omega), dif_pos rfl, if_neg hn.ne']
  exact congrArg Except.ok foldl_binError

/-- **Calibration error counts every example once.** Each probability is in exactly one
bin, and the error lies between the distance of the means and one. -/
theorem calibration_counts_once {n : ℕ} {labels : Fin n → ℤ} {p : Fin n → ℚ} {bins : ℤ}
    (hbins : 1 ≤ bins) (hn : 0 < n) (hl : ∀ i, labels i = 0 ∨ labels i = 1)
    (hp : ∀ i, 0 ≤ p i ∧ p i ≤ 1) :
    (∀ i, ∃! index, index < bins.toNat ∧ inBin bins.toNat index (p i) = true) ∧
      ∃ error, expectedCalibrationError labels p bins = .ok error ∧
        |mean (List.ofFn fun i => (labels i : ℚ)) - mean (List.ofFn p)| ≤ error ∧
        error ≤ 1 := by
  have hbins' : 1 ≤ bins.toNat := by omega
  refine ⟨fun i => ?_, _, expectedCalibrationError_eq hbins hn, ?_,
    sum_binError_le_one hp hbins' hn hl⟩
  · refine ⟨binOf bins.toNat (p i), ⟨binOf_lt hbins', ?_⟩, fun index hindex => ?_⟩
    · exact (inBin_iff (binOf_lt hbins') (hp i).1 (hp i).2).mpr rfl
    · exact ((inBin_iff hindex.1 (hp i).1 (hp i).2).mp hindex.2).symm
  · have hmeans : |mean (List.ofFn fun i => (labels i : ℚ)) - mean (List.ofFn p)| =
        |∑ i, ((labels i : ℚ) - p i)| / n := by
      rw [mean, mean, List.length_ofFn, List.length_ofFn, List.sum_ofFn, List.sum_ofFn,
        ← sub_div, ← Finset.sum_sub_distrib, abs_div, Nat.abs_cast]
    rw [hmeans]
    exact abs_sub_le_sum_binError hp hbins'

/-- Two examples in one bin, of the ten. -/
theorem calibration_counts_once_of_two :
    (∀ i : Fin 2, ∃! index, index < (10 : ℤ).toNat ∧
        inBin (10 : ℤ).toNat index ((fun _ => 1 / 2 : Fin 2 → ℚ) i) = true) ∧
      ∃ error, expectedCalibrationError (![0, 1] : Fin 2 → ℤ) (fun _ : Fin 2 => (1 / 2 : ℚ))
          10 = .ok error ∧
        |mean (List.ofFn fun i => ((![0, 1] : Fin 2 → ℤ) i : ℚ)) -
          mean (List.ofFn fun _ : Fin 2 => (1 / 2 : ℚ))| ≤ error ∧ error ≤ 1 :=
  calibration_counts_once (by decide) (by decide) (by decide) fun _ => by norm_num

end ConflictGraph.Py
