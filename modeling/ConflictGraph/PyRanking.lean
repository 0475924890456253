import Mathlib.Data.Fin.Tuple.Sort
import ConflictGraph.PyCalibration
import ConflictGraph.Ranking

/-!
# The fallback ranking metrics and ties

`_roc_auc` counts pairs, so the order of the rows is nothing to it. `_average_precision`
walks down a ranking and judges each positive by the rows so far: where probabilities
tie, its value depends on how `np.argsort` happens to list the tie, and is not the sum
over thresholds that scikit-learn computes. The two agree, and the order of the rows does
not matter, exactly when a positive that ties with another row has only positives at its
probability and above. However ties are listed, all the figures of `classification_metrics`
are shares (`classificationMetrics_bounded`).
-/

namespace ConflictGraph.Py

open Ranking

section Metrics

variable {n : ℕ}

/-! ## The definition by thresholds -/

/-- The recall of the rows that a test of the probability accepts. -/
def recallOf (labels : Fin n → ℤ) (accepts : Fin n → Bool) : ℚ :=
  ((Finset.univ.filter fun i => accepts i ∧ labels i = 1).card : ℚ) / (∑ i, labels i : ℤ)

/-- The precision at a threshold. -/
def precisionAt (labels : Fin n → ℤ) (probabilities : Fin n → ℚ) (threshold : ℚ) : ℚ :=
  ((Finset.univ.filter fun i => threshold ≤ probabilities i ∧ labels i = 1).card : ℚ) /
    (Finset.univ.filter fun i => threshold ≤ probabilities i).card

/-- The recall that a threshold adds to that of the next higher one. -/
def recallIncrement (labels : Fin n → ℤ) (probabilities : Fin n → ℚ) (threshold : ℚ) : ℚ :=
  recallOf labels (fun i => decide (threshold ≤ probabilities i)) -
    recallOf labels (fun i => decide (threshold < probabilities i))

/-- The average precision as a sum over the distinct thresholds of recall increment times
precision. -/
def thresholdAveragePrecision (labels : Fin n → ℤ) (probabilities : Fin n → ℚ) : ℚ :=
  ∑ threshold ∈ Finset.univ.image probabilities,
    recallIncrement labels probabilities threshold * precisionAt labels probabilities threshold

/-- A positive that shares its probability with another row has only positives at that
probability and above. -/
def TiesAtTop (labels : Fin n → ℤ) (probabilities : Fin n → ℚ) : Prop :=
  ∀ i j k, i ≠ j → probabilities i = probabilities j → labels i = 1 →
    probabilities i ≤ probabilities k → labels k = 1

variable {labels : Fin n → ℤ} {p : Fin n → ℚ} {σ : Equiv.Perm (Fin n)}

theorem recallIncrement_eq (threshold : ℚ) :
    recallIncrement labels p threshold =
      ((Finset.univ.filter fun i => labels i = 1 ∧ p i = threshold).card : ℚ) /
        (∑ i, labels i : ℤ) := by
  have hsplit : (Finset.univ.filter fun i => threshold ≤ p i ∧ labels i = 1).card =
      (Finset.univ.filter fun i => threshold < p i ∧ labels i = 1).card +
        (Finset.univ.filter fun i => labels i = 1 ∧ p i = threshold).card := by
    rw [← Finset.card_union_of_disjoint]
    · congr 1
      ext i
      simp only [Finset.mem_filter, Finset.mem_univ, true_and, Finset.mem_union]
      rw [le_iff_lt_or_eq, or_and_right,
        and_comm (a := threshold = p i), eq_comm (a := threshold)]
    · rw [Finset.disjoint_left]
      intro i hi hi'
      exact (Finset.mem_filter.mp hi).2.1.ne (Finset.mem_filter.mp hi').2.2.symm
  rw [recallIncrement, recallOf, recallOf, ← sub_div]
  simp only [decide_eq_true_eq]
  rw [hsplit]
  push_cast
  ring_nf

/-- Each positive adds the precision at its own probability. -/
theorem thresholdAveragePrecision_eq :
    thresholdAveragePrecision labels p =
      (∑ i with labels i = 1, precisionAt labels p (p i)) / (∑ i, labels i : ℤ) := by
  have hmaps : ∀ i ∈ Finset.univ.filter fun i => labels i = 1, p i ∈ Finset.univ.image p :=
    fun i _ => Finset.mem_image_of_mem p (Finset.mem_univ i)
  rw [thresholdAveragePrecision, ← Finset.sum_fiberwise_of_maps_to hmaps, Finset.sum_div]
  apply Finset.sum_congr rfl
  intro threshold _
  have hconst : ∀ i ∈ Finset.univ.filter fun i => labels i = 1 ∧ p i = threshold,
      precisionAt labels p (p i) = precisionAt labels p threshold :=
    fun i hi => by rw [(Finset.mem_filter.mp hi).2.2]
  rw [recallIncrement_eq, Finset.filter_filter, Finset.sum_congr rfl hconst, Finset.sum_const,
    nsmul_eq_mul]
  ring

/-! ## Another order of the rows -/

theorem sum_labels_comp : ∑ i, (labels ∘ σ) i = ∑ i, labels i := Equiv.sum_comp σ labels

theorem precisionAt_comp (threshold : ℚ) :
    precisionAt (labels ∘ σ) (p ∘ σ) threshold = precisionAt labels p threshold := by
  have hhits : (Finset.univ.filter fun i => threshold ≤ p (σ i) ∧ labels (σ i) = 1).card =
      (Finset.univ.filter fun i => threshold ≤ p i ∧ labels i = 1).card :=
    Finset.card_equiv σ fun i => by simp
  have hall : (Finset.univ.filter fun i => threshold ≤ p (σ i)).card =
      (Finset.univ.filter fun i => threshold ≤ p i).card :=
    Finset.card_equiv σ fun i => by simp
  simp only [precisionAt, Function.comp_apply]
  rw [hhits, hall]

theorem thresholdAveragePrecision_comp :
    thresholdAveragePrecision (labels ∘ σ) (p ∘ σ) = thresholdAveragePrecision labels p := by
  rw [thresholdAveragePrecision_eq, thresholdAveragePrecision_eq, sum_labels_comp]
  congr 1
  apply Finset.sum_equiv σ
  · simp
  · intro i _
    rw [precisionAt_comp, Function.comp_apply]

theorem TiesAtTop.comp (h : TiesAtTop labels p) (σ : Equiv.Perm (Fin n)) :
    TiesAtTop (labels ∘ σ) (p ∘ σ) :=
  fun i j k hij => h (σ i) (σ j) (σ k) (σ.injective.ne hij)

theorem select_comp_perm {α : Type} (mask : Fin n → Bool) (values : Fin n → α) :
    (select (mask ∘ σ) (values ∘ σ)).Perm (select mask values) := by
  have hmap : select (mask ∘ σ) (values ∘ σ) =
      (((List.finRange n).map σ).filter mask).map values := by
    rw [select, List.filter_map, List.map_map]
  rw [hmap]
  exact ((Equiv.Perm.map_finRange_perm σ).filter mask).map values

/-- **`_roc_auc` does not depend on the order of the rows.** -/
theorem rocAUC_comp : rocAUC (labels ∘ σ) (p ∘ σ) = rocAUC labels p := by
  have hpos : (select (fun i => decide ((labels ∘ σ) i = 1)) (p ∘ σ)).Perm
      (select (fun i => decide (labels i = 1)) p) :=
    select_comp_perm (fun i => decide (labels i = 1)) p
  have hneg : (select (fun i => decide ((labels ∘ σ) i = 0)) (p ∘ σ)).Perm
      (select (fun i => decide (labels i = 0)) p) :=
    select_comp_perm (fun i => decide (labels i = 0)) p
  have hwins := hpos.flatMap fun left _ => hneg.map fun right => wins left right
  simp only [rocAUC]
  rw [hpos.length_eq, hneg.length_eq, hwins.sum_eq]

/-! ## The loop as a ranking -/

section Order

variable {order : Equiv.Perm (Fin n)}

theorem ne_zero_iff (hl : ∀ i, labels i = 0 ∨ labels i = 1) (i : Fin n) :
    labels i ≠ 0 ↔ labels i = 1 := by
  rcases hl i with h | h
  · simp [h]
  · simp [h]

/-- The sum over thresholds is that of a ranking, whatever the order of a tie. -/
theorem thresholdAveragePrecision_ranked (hl : ∀ i, labels i = 0 ∨ labels i = 1)
    (order : Equiv.Perm (Fin n)) :
    thresholdAveragePrecision labels p =
      sumByThreshold (fun rank => labels (order rank) ≠ 0) (p ∘ order) /
        (∑ i, labels i : ℤ) := by
  rw [thresholdAveragePrecision_eq, sumByThreshold]
  congr 1
  symm
  apply Finset.sum_equiv order
  · simp [ne_zero_iff hl]
  · intro rank _
    rw [Function.comp_apply, ← precisionAt_comp (σ := order)]
    simp only [precisionFrom, hitsFrom, precisionAt, ne_zero_iff hl, Function.comp_apply]

/-- A tie of positives and negatives can be listed in two ways, the rows exchanged where
they stand, with different sums. -/
theorem exists_exchange (hs : Antitone (p ∘ order)) {i j : Fin n}
    (he : p (order i) = p (order j)) (hi : labels (order i) ≠ 0) (hj : ¬ labels (order j) ≠ 0) :
    ∃ σ : Equiv.Perm (Fin n), p ∘ σ = p ∧
      sumByRank (fun rank => (labels ∘ σ) (order rank) ≠ 0) ℚ ≠
        sumByRank (fun rank => labels (order rank) ≠ 0) ℚ := by
  obtain ⟨k, k', hk', hkk', hdiff⟩ := exists_neighbours
    (fun rank => labels (order rank) ≠ 0) hs he hi hj
  -- exchanging rows of one probability leaves the array of probabilities as it is
  refine ⟨Equiv.swap (order k) (order k'), ?_, ?_⟩
  · funext i
    rcases eq_or_ne i (order k) with rfl | hne
    · rw [Function.comp_apply, Equiv.swap_apply_left]
      exact hkk'.symm
    rcases eq_or_ne i (order k') with rfl | hne'
    · rw [Function.comp_apply, Equiv.swap_apply_right]
      exact hkk'
    · rw [Function.comp_apply, Equiv.swap_apply_of_ne_of_ne hne hne']
  · have hmoved : ∀ rank, (labels ∘ Equiv.swap (order k) (order k')) (order rank) =
        labels (order (Equiv.swap k k' rank)) := by
      intro rank
      rw [Function.comp_apply, ← order.injective.map_swap]
    have hrank : sumByRank (fun rank => (labels ∘ Equiv.swap (order k) (order k')) (order rank) ≠ 0)
        ℚ = sumByRank (fun rank => labels (order (Equiv.swap k k' rank)) ≠ 0) ℚ :=
      sumByRank_congr fun rank => by rw [hmoved]
    rw [hrank]
    exact sumByRank_swap_ne (fun rank => labels (order rank) ≠ 0) hk' hdiff

/-- A positive whose tie goes on, with a negative that reaches its probability, makes the
sum by rank too small, where ties are pure. -/
theorem sumByRank_lt_of_tie (hs : Antitone (p ∘ order))
    (hpure : ∀ i j, p (order i) = p (order j) → labels (order i) ≠ 0 → labels (order j) ≠ 0)
    {a b k : Fin n} (hab : a < b) (he : p (order a) = p (order b)) (ha : labels (order a) ≠ 0)
    (hk : p (order a) ≤ p k) (hneg : ¬ labels k ≠ 0) :
    sumByRank (fun rank => labels (order rank) ≠ 0) ℚ <
      sumByThreshold (fun rank => labels (order rank) ≠ 0) (p ∘ order) := by
  have hunsettled : ¬ Settled (fun rank => labels (order rank) ≠ 0) (p ∘ order) a := by
    rintro (hlast | hall)
    · exact hlast b hab he.symm
    · have hk' : labels (order (order.symm k)) ≠ 0 := hall (order.symm k) (by simpa using hk)
      rw [Equiv.apply_symm_apply] at hk'
      exact hneg hk'
  exact sumByRank_lt hs hpure ha hunsettled

end Order

/-- The order of the rows by decreasing probability. -/
def descending (argsort : (Fin n → ℚ) → Equiv.Perm (Fin n)) (p : Fin n → ℚ) :
    Equiv.Perm (Fin n) :=
  argsort fun i => -p i

section Loop

variable {argsort : (Fin n → ℚ) → Equiv.Perm (Fin n)}

/-- `_average_precision` is the sum by rank of the positives. -/
theorem averagePrecision_eq :
    averagePrecision argsort labels p =
      sumByRank (fun rank => labels (descending argsort p rank) ≠ 0) ℚ /
        (∑ i, labels i : ℤ) := by
  have hloop := foldl_ranks (K := ℚ) (fun rank => labels (descending argsort p rank) ≠ 0) n
    le_rfl
  have hall : (List.finRange n).take n = List.finRange n :=
    List.take_of_length_le (List.length_finRange).le
  have hbelow : below (fun rank => labels (descending argsort p rank) ≠ 0) n =
      Finset.univ.filter fun rank => labels (descending argsort p rank) ≠ 0 := by
    simp [below]
  rw [hall, hbelow] at hloop
  simp only [averagePrecision]
  split
  · rename_i h
    rw [h, Int.cast_zero, div_zero]
  · exact congrArg (fun acc : ℕ × ℚ => acc.2 / (∑ i, labels i : ℤ)) hloop

variable (hsort : ∀ values : Fin n → ℚ, Monotone (values ∘ argsort values))
  (hl : ∀ i, labels i = 0 ∨ labels i = 1)

include hsort

theorem antitone_descending : Antitone (p ∘ descending argsort p) := by
  intro i j hij
  exact neg_le_neg_iff.mp (hsort (fun i => -p i) hij)

/-- Where no other order of the rows changes the average precision, a tie is all positive
or all negative. -/
theorem tie_pure (hpos : ((∑ i, labels i : ℤ) : ℚ) ≠ 0)
    (hperm : ∀ σ : Equiv.Perm (Fin n),
      averagePrecision argsort (labels ∘ σ) (p ∘ σ) = averagePrecision argsort labels p)
    (i j : Fin n) (he : p (descending argsort p i) = p (descending argsort p j))
    (hi : labels (descending argsort p i) ≠ 0) : labels (descending argsort p j) ≠ 0 := by
  by_contra hj
  obtain ⟨σ, hsame, hne⟩ := exists_exchange (antitone_descending hsort) he hi (not_not.mpr hj)
  have hvalue := hperm σ
  rw [hsame, averagePrecision_eq, averagePrecision_eq, sum_labels_comp,
    div_left_inj' hpos] at hvalue
  exact hne hvalue

include hl

/-- Ties at the top settle every positive at its rank. -/
theorem averagePrecision_eq_threshold (h : TiesAtTop labels p) :
    averagePrecision argsort labels p = thresholdAveragePrecision labels p := by
  rw [averagePrecision_eq, thresholdAveragePrecision_ranked hl (descending argsort p)]
  congr 1
  apply sumByRank_eq (antitone_descending hsort)
  intro rank hrank
  by_cases hlast : ∀ j, rank < j → p (descending argsort p j) ≠ p (descending argsort p rank)
  · exact Or.inl hlast
  · push Not at hlast
    obtain ⟨j, hj, he⟩ := hlast
    have hne := (descending argsort p).injective.ne hj.ne
    exact Or.inr fun k hk =>
      (ne_zero_iff hl _).mpr (h _ _ _ hne he.symm ((ne_zero_iff hl _).mp hrank) hk)

/-- **The fallback metrics ignore the order of the rows, and the average precision is the
one by thresholds, exactly when ties are at the top.** -/
theorem fallback_metrics_iff :
    ((∀ σ : Equiv.Perm (Fin n),
        averagePrecision argsort (labels ∘ σ) (p ∘ σ) = averagePrecision argsort labels p ∧
          rocAUC (labels ∘ σ) (p ∘ σ) = rocAUC labels p) ∧
      averagePrecision argsort labels p = thresholdAveragePrecision labels p) ↔
    TiesAtTop labels p := by
  refine ⟨fun ⟨hperm, hthreshold⟩ i j k hij he hi hk => ?_, fun h => ⟨fun σ => ⟨?_, rocAUC_comp⟩,
    averagePrecision_eq_threshold hsort hl h⟩⟩
  · by_contra hneg
    -- there is a positive, so the sums can be compared without their number
    have hpos : ((∑ i, labels i : ℤ) : ℚ) ≠ 0 := by
      have hone : labels i ≤ ∑ i, labels i :=
        Finset.single_le_sum (fun i _ => by rcases hl i with h | h <;> simp [h])
          (Finset.mem_univ i)
      exact_mod_cast (by omega : (∑ i, labels i : ℤ) ≠ 0)
    have hpure := tie_pure hsort hpos fun σ => (hperm σ).1
    rw [averagePrecision_eq, thresholdAveragePrecision_ranked hl (descending argsort p),
      div_left_inj' hpos] at hthreshold
    obtain ⟨a, rfl⟩ := (descending argsort p).surjective i
    obtain ⟨b, rfl⟩ := (descending argsort p).surjective j
    have ha := (ne_zero_iff hl _).mpr hi
    have hk' : ¬ labels k ≠ 0 := fun h => hneg ((ne_zero_iff hl k).mp h)
    -- the earlier of the two rows of the tie is the one judged too soon
    rcases lt_or_gt_of_ne (ne_of_apply_ne _ hij) with hab | hba
    · exact (sumByRank_lt_of_tie (antitone_descending hsort) hpure hab he ha hk hk').ne
        hthreshold
    · exact (sumByRank_lt_of_tie (antitone_descending hsort) hpure hba he.symm
        (hpure a b he ha) (he ▸ hk) hk').ne hthreshold
  · have hl' : ∀ i, (labels ∘ σ) i = 0 ∨ (labels ∘ σ) i = 1 := fun i => hl (σ i)
    rw [averagePrecision_eq_threshold hsort hl' (h.comp σ),
      thresholdAveragePrecision_comp, averagePrecision_eq_threshold hsort hl h]

end Loop

end Metrics

/-- A positive and a negative that tie, listed as they stand. -/
theorem fallback_metrics_iff_of_tie :
    ((∀ σ : Equiv.Perm (Fin 2),
        averagePrecision Tuple.sort (![1, 0] ∘ σ) ((fun _ => 1 / 2) ∘ σ) =
            averagePrecision Tuple.sort ![1, 0] (fun _ => 1 / 2) ∧
          rocAUC (![1, 0] ∘ σ) ((fun _ => 1 / 2) ∘ σ) = rocAUC ![1, 0] (fun _ => 1 / 2)) ∧
      averagePrecision Tuple.sort ![1, 0] (fun _ => 1 / 2) =
        thresholdAveragePrecision ![1, 0] (fun _ : Fin 2 => 1 / 2)) ↔
    TiesAtTop ![1, 0] (fun _ : Fin 2 => 1 / 2) :=
  fallback_metrics_iff Tuple.monotone_sort (by decide)

/-- Listed the other way round, they have another average precision. -/
theorem tied_rows_not_invariant :
    ¬ ((∀ σ : Equiv.Perm (Fin 2),
        averagePrecision Tuple.sort (![1, 0] ∘ σ) ((fun _ => 1 / 2) ∘ σ) =
            averagePrecision Tuple.sort ![1, 0] (fun _ => 1 / 2) ∧
          rocAUC (![1, 0] ∘ σ) ((fun _ => 1 / 2) ∘ σ) = rocAUC ![1, 0] (fun _ => 1 / 2)) ∧
      averagePrecision Tuple.sort ![1, 0] (fun _ => 1 / 2) =
        thresholdAveragePrecision ![1, 0] (fun _ : Fin 2 => 1 / 2)) := by
  have hrefl : ∀ c : ℚ, Tuple.sort (fun _ : Fin 2 => c) = Equiv.refl (Fin 2) :=
    fun _ => Tuple.sort_eq_refl_iff_monotone.mpr monotone_const
  intro h
  have hswap := (h.1 (Equiv.swap 0 1)).1
  simp [averagePrecision, hrefl, List.finRange_succ] at hswap

/-! ## All the metrics -/

/-- A share of two counts. -/
theorem share_mem_Icc (a b : ℕ) :
    (if a + b = 0 then 0 else (a : ℚ) / (a + b : ℕ)) ∈ Set.Icc (0 : ℚ) 1 := by
  split
  · exact ⟨le_rfl, zero_le_one⟩
  · refine ⟨by positivity, div_le_one_of_le₀ ?_ (Nat.cast_nonneg _)⟩
    exact_mod_cast Nat.le_add_right a b

/-- The harmonic mean of two shares. -/
theorem f1_mem_Icc {precision recallScore : ℚ} (hp : precision ∈ Set.Icc (0 : ℚ) 1)
    (hr : recallScore ∈ Set.Icc (0 : ℚ) 1) :
    (if precision + recallScore = 0 then 0
      else 2 * precision * recallScore / (precision + recallScore)) ∈ Set.Icc (0 : ℚ) 1 := by
  obtain ⟨hp0, hp1⟩ := hp
  obtain ⟨hr0, hr1⟩ := hr
  split
  · exact ⟨le_rfl, zero_le_one⟩
  · have hleft := mul_le_of_le_one_right hp0 hr1
    have hright := mul_le_of_le_one_left hr0 hp1
    exact ⟨div_nonneg (by positivity) (add_nonneg hp0 hr0),
      div_le_one_of_le₀ (by linarith) (add_nonneg hp0 hr0)⟩

theorem mean_mem_Icc {values : List ℚ} (h : ∀ v ∈ values, v ∈ Set.Icc (0 : ℚ) 1) :
    mean values ∈ Set.Icc (0 : ℚ) 1 := by
  have hsum : values.sum ≤ values.length := by
    simpa using List.sum_le_card_nsmul values 1 fun v hv => (h v hv).2
  exact ⟨div_nonneg (List.sum_nonneg fun v hv => (h v hv).1) (Nat.cast_nonneg _),
    div_le_one_of_le₀ hsum (Nat.cast_nonneg _)⟩

theorem wins_mem_Icc (left right : ℚ) : wins left right ∈ Set.Icc (0 : ℚ) 1 := by
  rw [wins]
  rcases lt_trichotomy right left with h | h | h
  · simp [h, h.ne']
  · rw [if_neg h.not_lt, if_pos h.symm]
    norm_num
  · simp [h.not_gt, h.ne]

section Bounds

variable {n : ℕ} {labels : Fin n → ℤ}

/-- The wins over the pairs there are. -/
theorem rocAUC_mem_Icc (p : Fin n → ℚ) :
    rocAUC labels p ∈ Set.Icc (0 : ℚ) 1 := by
  simp only [rocAUC]
  split
  · norm_num
  · have hmean := @mean_mem_Icc
      ((select (fun i => decide (labels i = 1)) p).flatMap fun left =>
        (select (fun i => decide (labels i = 0)) p).map fun right => wins left right) ?_
    · simpa [mean, List.length_flatMap] using hmean
    · intro value hvalue
      obtain ⟨left, -, hleft⟩ := List.mem_flatMap.mp hvalue
      obtain ⟨right, -, rfl⟩ := List.mem_map.mp hleft
      exact wins_mem_Icc left right

/-- No positive has a precision above one. -/
theorem averagePrecision_mem_Icc (argsort : (Fin n → ℚ) → Equiv.Perm (Fin n))
    (hl : ∀ i, labels i = 0 ∨ labels i = 1) (p : Fin n → ℚ) :
    averagePrecision argsort labels p ∈ Set.Icc (0 : ℚ) 1 := by
  have hprecision : ∀ i, (precisionUpTo (fun rank => labels (descending argsort p rank) ≠ 0) i :
      ℚ) ∈ Set.Icc (0 : ℚ) 1 := by
    intro i
    refine ⟨by rw [precisionUpTo]; positivity, div_le_one_of_le₀ ?_ (Nat.cast_nonneg _)⟩
    have hcard : hits (fun rank => labels (descending argsort p rank) ≠ 0) i ≤ (i : ℕ) + 1 := by
      rw [hits, ← Fin.card_Iic]
      exact Finset.card_le_card fun j hj => Finset.mem_Iic.mpr (Finset.mem_filter.mp hj).2.1
    exact_mod_cast hcard
  have hsum : ((∑ i, labels i : ℤ) : ℚ) =
      (Finset.univ.filter fun rank => labels (descending argsort p rank) ≠ 0).card := by
    rw [← Equiv.sum_comp (descending argsort p) labels, Finset.card_filter]
    push_cast
    refine Finset.sum_congr rfl fun rank _ => ?_
    rcases hl (descending argsort p rank) with h | h <;> simp [h]
  rw [averagePrecision_eq, hsum, sumByRank]
  refine ⟨div_nonneg (Finset.sum_nonneg fun i _ => (hprecision i).1) (Nat.cast_nonneg _),
    div_le_one_of_le₀ ?_ (Nat.cast_nonneg _)⟩
  simpa using Finset.sum_le_card_nsmul _ _ 1 fun i _ => (hprecision i).2

/-- The matrix counts every example once. -/
theorem confusion_total (hl : ∀ i, labels i = 0 ∨ labels i = 1) (p : Fin n → ℚ) (threshold : ℚ) :
    confusion labels p threshold 0 false + confusion labels p threshold 0 true +
      (confusion labels p threshold 1 false + confusion labels p threshold 1 true) = n := by
  have hlabel : ∀ label, confusion labels p threshold label false +
      confusion labels p threshold label true =
        (List.finRange n).countP fun i => decide (labels i = label) := by
    intro label
    rw [List.countP_eq_countP_filter_add _ _ fun i => !decide (threshold ≤ p i),
      List.countP_filter, List.countP_filter]
    simp [confusion]
  have hone : ∀ i ∈ List.finRange n,
      decide (labels i = 1) = true ↔ decide (¬ decide (labels i = 0) = true) = true := by
    intro i _
    rcases hl i with h | h <;> simp [h]
  rw [hlabel, hlabel, List.countP_congr hone, ← List.length_eq_countP_add_countP,
    List.length_finRange]

theorem brier_mem_Icc (hl : ∀ i, labels i = 0 ∨ labels i = 1) {p : Fin n → ℚ}
    (hp : ∀ i, p i ∈ Set.Icc (0 : ℚ) 1) :
    (if n = 0 then 0 else mean (List.ofFn fun i => (p i - labels i) ^ 2)) ∈
      Set.Icc (0 : ℚ) 1 := by
  split
  · exact ⟨le_rfl, zero_le_one⟩
  · refine mean_mem_Icc fun value hvalue => ?_
    obtain ⟨i, rfl⟩ := List.mem_ofFn.mp hvalue
    obtain ⟨h0, h1⟩ := hp i
    refine ⟨sq_nonneg _, ?_⟩
    rcases hl i with h | h
    · rw [h, Int.cast_zero, sub_zero]
      exact pow_le_one₀ h0 h1
    · rw [h, Int.cast_one, sq_le_one_iff_abs_le_one, abs_le]
      exact ⟨by linarith, by linarith⟩

/-- The error of ten bins, also of no examples. -/
theorem exists_calibrationError (hl : ∀ i, labels i = 0 ∨ labels i = 1) {p : Fin n → ℚ}
    (hp : ∀ i, p i ∈ Set.Icc (0 : ℚ) 1) :
    ∃ error, expectedCalibrationError labels p = .ok error ∧ error ∈ Set.Icc (0 : ℚ) 1 := by
  rcases Nat.eq_zero_or_pos n with rfl | hn
  · exact ⟨0, by simp [expectedCalibrationError], le_rfl, zero_le_one⟩
  · refine ⟨_, expectedCalibrationError_eq (by decide) hn, ?_,
      sum_binError_le_one hp (by decide) hn hl⟩
    exact Finset.sum_nonneg fun index _ => by
      rw [binError_eq]
      positivity

/-- **The figures of `classification_metrics`** are shares, and its matrix counts every example
once; the probabilities may be any numbers, as they are clipped. The two ranking scores are
shares, too, where scikit-learn is not installed. -/
theorem classificationMetrics_bounded (argsort : (Fin n → ℚ) → Equiv.Perm (Fin n))
    (sklearn : Option (Sklearn n)) (hl : ∀ i, labels i = 0 ∨ labels i = 1)
    (probabilities : Fin n → ℚ) (threshold : ℚ) :
    ∃ m, classificationMetrics argsort sklearn labels probabilities threshold = .ok m ∧
      m.precision ∈ Set.Icc 0 1 ∧ m.recallScore ∈ Set.Icc 0 1 ∧ m.f1 ∈ Set.Icc 0 1 ∧
      m.brierScore ∈ Set.Icc 0 1 ∧ m.expectedCalibrationError ∈ Set.Icc 0 1 ∧
      (m.confusionMatrix.map List.sum).sum = n ∧
      (sklearn = none → m.prAUC ∈ Set.Icc 0 1 ∧ m.rocAUC ∈ Set.Icc 0 1) := by
  have hclip : ∀ i, clip probabilities i ∈ Set.Icc (0 : ℚ) 1 := fun i =>
    ⟨le_min (le_max_right _ _) zero_le_one, min_le_right _ _⟩
  obtain ⟨error, herror, hbounds⟩ := exists_calibrationError hl hclip
  rw [classificationMetrics, dif_pos rfl]
  simp only [Fin.cast_refl, id_eq, herror]
  refine ⟨_, rfl, share_mem_Icc _ _, share_mem_Icc _ _,
    f1_mem_Icc (share_mem_Icc _ _) (share_mem_Icc _ _), brier_mem_Icc hl hclip, hbounds, ?_, ?_⟩
  · simpa [add_assoc] using confusion_total hl (clip probabilities) threshold
  · rintro rfl
    exact ⟨averagePrecision_mem_Icc argsort hl _, rocAUC_mem_Icc _⟩

end Bounds
end ConflictGraph.Py
