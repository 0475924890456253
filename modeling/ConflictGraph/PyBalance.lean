import Mathlib.Algebra.Order.BigOperators.Group.Finset
import Mathlib.Tactic.FieldSimp
import Mathlib.Tactic.Linarith
import ConflictGraph.PySplit

/-!
# The pair split is balanced

Weighted by the ratios, the scores of the three buckets add up to the part of the examples
dealt so far plus the part of the positives dealt so far, which is less than two while a
group is left. So the bucket with the least score is below two, below twice its share of
the examples and of the positives, when a group comes to it, and no group is larger than
the largest.
-/

namespace ConflictGraph.Py

/-! ## The weighted average -/

/-- The least of some values is at most their average. -/
theorem le_average {ι : Type} [Fintype ι] {weight value : ι → ℚ} {least : ι}
    (hweight : ∀ b, 0 ≤ weight b) (hsum : ∑ b, weight b = 1)
    (hleast : ∀ b, value least ≤ value b) : value least ≤ ∑ b, weight b * value b := by
  calc value least = ∑ b, weight b * value least := by rw [← Finset.sum_mul, hsum, one_mul]
    _ ≤ ∑ b, weight b * value b :=
      Finset.sum_le_sum fun b _ => mul_le_mul_of_nonneg_left (hleast b) (hweight b)

/-! ## How much was dealt -/

section Totals

variable {examples : List PairExample}

theorem positivesAt_le_length (examples : List PairExample) (indices : List ℕ) :
    positivesAt examples indices ≤ indices.length := by
  rw [positivesAt]
  induction indices with
  | nil => exact le_rfl
  | cons index rest ih =>
    rw [List.map_cons, List.sum_cons, List.length_cons, add_comm]
    exact Nat.add_le_add ih (Bool.toNat_le _)

theorem sum_toNat_label (examples : List PairExample) :
    (examples.map fun e => e.label.toNat).sum = examples.countP PairExample.label := by
  induction examples with
  | nil => rfl
  | cons e rest ih =>
    rw [List.map_cons, List.sum_cons, List.countP_cons, ih, add_comm]
    cases e.label <;> rfl

/-- All the positives there are. -/
theorem positivesAt_range :
    positivesAt examples (List.range examples.length) = examples.countP PairExample.label := by
  rw [positivesAt, ← sum_toNat_label]
  congr 1
  apply List.ext_getElem
  · simp
  · intro i h _
    rw [List.length_map, List.length_range] at h
    simp [h]

theorem positivesAt_subperm (examples : List PairExample) {xs ys : List ℕ} (h : xs.Subperm ys) :
    positivesAt examples xs ≤ positivesAt examples ys := by
  obtain ⟨zs, hperm, hsub⟩ := h
  rw [← positivesAt_perm hperm]
  exact (hsub.map _).sum_le_sum fun _ _ => Nat.zero_le _

variable {done rest : List Str} {group : Str} {s : SplitState} {assigned : Fin 3 → List Str}

/-- What the buckets hold and the next group are not more than there is. -/
theorem Dealt.subperm (h : Dealt examples done s assigned)
    (hgroups : (done ++ group :: rest).Perm (splitGroups examples)) :
    ((s.buckets 0 ++ s.buckets 1 ++ s.buckets 2) ++ groupIndices examples group).Subperm
      (List.range examples.length) := by
  have hbuckets : (s.buckets 0 ++ s.buckets 1 ++ s.buckets 2).Perm
      (done.flatMap (groupIndices examples)) := by
    rw [h.buckets_eq, h.buckets_eq, h.buckets_eq, ← List.flatMap_append, ← List.flatMap_append]
    exact h.perm.flatMap_right _
  have hall := flatMap_groupIndices_perm hgroups
  rw [List.flatMap_append, List.flatMap_cons, ← List.append_assoc] at hall
  refine ((hbuckets.append_right _).subperm).trans (List.Subperm.trans ?_ hall.subperm)
  exact (List.sublist_append_left _ _).subperm

theorem Dealt.length_add_lt (h : Dealt examples done s assigned)
    (hgroups : (done ++ group :: rest).Perm (splitGroups examples)) :
    (s.buckets 0).length + (s.buckets 1).length + (s.buckets 2).length < examples.length := by
  have hle := (h.subperm hgroups).length_le
  have hne : groupIndices examples group ≠ [] :=
    groupIndices_ne_nil (hgroups.mem_iff.mp (by simp))
  have hpos := List.length_pos_iff.mpr hne
  simp only [List.length_append, List.length_range] at hle
  omega

theorem Dealt.positives_add_le (h : Dealt examples done s assigned)
    (hgroups : (done ++ group :: rest).Perm (splitGroups examples)) :
    s.positives 0 + s.positives 1 + s.positives 2 ≤ examples.countP PairExample.label := by
  have hle := positivesAt_subperm examples (h.subperm hgroups)
  rw [positivesAt_range, positivesAt_append, positivesAt_append, positivesAt_append] at hle
  rw [h.positives_eq, h.positives_eq, h.positives_eq]
  omega

end Totals

/-! ## The bound -/

/-- What the bound takes for granted: the metadata counts the positives, the ratios sum to
one, and no share is less than one. -/
structure Balanceable (dataset : Dataset) (ratios : Fin 3 → ℚ) : Prop where
  positives : dataset.metadata.positiveExamples =
    (dataset.examples.countP PairExample.label : ℕ)
  one_le_positives : 1 ≤ dataset.metadata.positiveExamples
  sum_eq_one : ratios 0 + ratios 1 + ratios 2 = 1
  pos : ∀ b, 0 < ratios b
  one_le_size : ∀ b, 1 ≤ dataset.examples.length * ratios b
  one_le_share : ∀ b, 1 ≤ dataset.metadata.positiveExamples * ratios b

section Bound

variable {dataset : Dataset} {ratios : Fin 3 → ℚ} (h : Balanceable dataset ratios)

include h

theorem Balanceable.pass : RatiosPass ratios := by
  refine ⟨?_, h.pos⟩
  rw [h.sum_eq_one, sub_self, abs_zero]
  norm_num

/-- The score of a bucket without the guards against small shares. -/
theorem Balanceable.score_eq (s : SplitState) (b : Fin 3) :
    score dataset ratios s b = (s.buckets b).length / (dataset.examples.length * ratios b) +
      s.positives b / (dataset.metadata.positiveExamples * ratios b) := by
  simp only [score]
  rw [max_eq_right (h.one_le_size b), max_eq_right h.one_le_positives,
    max_eq_right (h.one_le_share b)]

variable {done rest : List Str} {group : Str} {s : SplitState} {assigned : Fin 3 → List Str}

/-- The least score is below two while a group is left. -/
theorem Balanceable.score_lt (hdealt : Dealt dataset.examples done s assigned)
    (hgroups : (done ++ group :: rest).Perm (splitGroups dataset.examples)) :
    score dataset ratios s (leastScored (score dataset ratios s)) < 2 := by
  have hlength : ((s.buckets 0).length + (s.buckets 1).length + (s.buckets 2).length : ℚ) <
      dataset.examples.length := by exact_mod_cast hdealt.length_add_lt hgroups
  have hpositives : (s.positives 0 + s.positives 1 + s.positives 2 : ℚ) ≤
      dataset.metadata.positiveExamples := by
    rw [h.positives]
    exact_mod_cast hdealt.positives_add_le hgroups
  have hn : (0 : ℚ) < dataset.examples.length := by
    refine lt_of_le_of_lt ?_ hlength
    positivity
  have hp : (0 : ℚ) < dataset.metadata.positiveExamples := by
    exact_mod_cast Int.lt_of_lt_of_le Int.one_pos h.one_le_positives
  -- the ratio cancels against the one in the share of the bucket
  have hterm : ∀ b, ratios b * score dataset ratios s b =
      (s.buckets b).length / dataset.examples.length +
        s.positives b / dataset.metadata.positiveExamples := by
    intro b
    have hb := (h.pos b).ne'
    rw [h.score_eq]
    field_simp
  calc score dataset ratios s (leastScored (score dataset ratios s))
      ≤ ∑ b, ratios b * score dataset ratios s b :=
        le_average (fun b => (h.pos b).le) (by rw [Fin.sum_univ_three, h.sum_eq_one])
          (leastScored_le _)
    _ = ((s.buckets 0).length + (s.buckets 1).length + (s.buckets 2).length : ℚ) /
          dataset.examples.length +
        (s.positives 0 + s.positives 1 + s.positives 2 : ℚ) /
          dataset.metadata.positiveExamples := by
        rw [Fin.sum_univ_three, hterm, hterm, hterm]
        ring
    _ < 2 := by
        have hsize := (div_lt_one hn).mpr hlength
        have hshare := (div_le_one hp).mpr hpositives
        linarith

/-- So that bucket has less than twice its share of both. -/
theorem Balanceable.lt_of_score_lt {b : Fin 3} (hscore : score dataset ratios s b < 2) :
    ((s.buckets b).length : ℚ) < 2 * dataset.examples.length * ratios b ∧
      (s.positives b : ℚ) < 2 * dataset.metadata.positiveExamples * ratios b := by
  have hsize : 0 < dataset.examples.length * ratios b := one_pos.trans_le (h.one_le_size b)
  have hshare : 0 < dataset.metadata.positiveExamples * ratios b :=
    one_pos.trans_le (h.one_le_share b)
  have hsize' : 0 ≤ ((s.buckets b).length : ℚ) / (dataset.examples.length * ratios b) :=
    div_nonneg (Nat.cast_nonneg _) hsize.le
  have hshare' : 0 ≤ (s.positives b : ℚ) / (dataset.metadata.positiveExamples * ratios b) :=
    div_nonneg (Nat.cast_nonneg _) hshare.le
  rw [h.score_eq] at hscore
  rw [mul_assoc, mul_assoc, ← div_lt_iff₀ hsize, ← div_lt_iff₀ hshare]
  exact ⟨by linarith, by linarith⟩

/-- The bound on a state of the loop. -/
def Balanced (dataset : Dataset) (ratios : Fin 3 → ℚ) (largest : ℕ) (s : SplitState) : Prop :=
  ∀ b, ((s.buckets b).length : ℚ) < 2 * dataset.examples.length * ratios b + largest ∧
    (s.positives b : ℚ) < 2 * dataset.metadata.positiveExamples * ratios b + largest

variable {largest : ℕ}

/-- A group that is not larger than the largest keeps the bound. -/
theorem Balanceable.deal (hdealt : Dealt dataset.examples done s assigned)
    (hgroups : (done ++ group :: rest).Perm (splitGroups dataset.examples))
    (hlargest : (groupIndices dataset.examples group).length ≤ largest)
    (hs : Balanced dataset ratios largest s) :
    Balanced dataset ratios largest (Py.deal dataset ratios s group) := by
  intro b
  rw [Py.deal]
  rcases eq_or_ne b (leastScored (score dataset ratios s)) with rfl | hne
  -- the bucket was below twice its share, and gets no more than the largest group
  · obtain ⟨hlength, hpositives⟩ := h.lt_of_score_lt (h.score_lt hdealt hgroups)
    have hgroup : ((groupIndices dataset.examples group).length : ℚ) ≤ largest := by
      exact_mod_cast hlargest
    have hlabels : (positivesAt dataset.examples (groupIndices dataset.examples group) : ℚ) ≤
        largest := by
      exact_mod_cast (positivesAt_le_length _ _).trans hlargest
    simp only [Function.update_self, List.length_append, Nat.cast_add]
    exact ⟨by linarith, by linarith⟩
  · simp only [Function.update_of_ne hne]
    exact hs b

theorem Balanceable.balanced_init : Balanced dataset ratios largest ⟨fun _ => [], fun _ => 0⟩ := by
  intro b
  have hsize := h.one_le_size b
  have hshare := h.one_le_share b
  have hlargest : (0 : ℚ) ≤ largest := Nat.cast_nonneg _
  simp only [List.length_nil, Nat.cast_zero]
  exact ⟨by linarith, by linarith⟩

theorem Balanceable.balanced_dealAll {groups : List Str}
    (hgroups : groups.Perm (splitGroups dataset.examples))
    (hlargest : ∀ group ∈ groups, (groupIndices dataset.examples group).length ≤ largest) :
    Balanced dataset ratios largest (dealAll dataset ratios groups) := by
  have hrun : ∃ assigned,
      Dealt dataset.examples groups (dealAll dataset ratios groups) assigned ∧
        Balanced dataset ratios largest (dealAll dataset ratios groups) := by
    refine foldl_prefix_invariant (f := Py.deal dataset ratios)
      (I := fun done s => ∃ assigned, Dealt dataset.examples done s assigned ∧
        Balanced dataset ratios largest s) ?_ ?_
    · exact ⟨fun _ => [], .init _, h.balanced_init⟩
    · rintro done group rest s heq ⟨assigned, hdealt, hs⟩
      have hmem : group ∈ groups := by simp [heq]
      exact ⟨_, hdealt.deal (hgroups.mem_iff.mp hmem),
        h.deal hdealt (heq ▸ hgroups) (hlargest group hmem) hs⟩
  exact hrun.choose_spec.2

end Bound

/-- **The pair split is balanced**: each list has less than twice its share of the examples
and of the positives, up to the size of the largest group. -/
theorem pairDisjointSplit_balanced {runtime : DatasetRuntime} {dataset : Dataset} {seed : ℤ}
    {ratios : Fin 3 → ℚ} {largest : ℕ}
    (hshuffle : ∀ seed groups, (runtime.shuffle seed groups).Perm groups)
    (h : Balanceable dataset ratios)
    (hlargest : IsGreatest {size | ∃ e ∈ dataset.examples,
      size = (groupIndices dataset.examples e.splitGroup).length} largest) :
    ∃ split, pairDisjointSplit runtime dataset seed ratios = .ok split ∧
      ∀ b, ((split.lists b).length : ℚ) <
          2 * dataset.examples.length * ratios b + largest ∧
        (positivesAt dataset.examples (split.lists b) : ℚ) <
          2 * dataset.metadata.positiveExamples * ratios b + largest := by
  obtain ⟨groups, s, assigned, hgroups, hs, hdealt, -, hok⟩ :=
    pairDisjointSplit_eq_ok seed hshuffle h.pass
  have hbalanced : Balanced dataset ratios largest s := by
    rw [hs]
    exact h.balanced_dealAll hgroups fun group hgroup => by
      obtain ⟨e, he, rfl⟩ := mem_splitGroups.mp (hgroups.mem_iff.mp hgroup)
      exact hlargest.2 ⟨e, he, rfl⟩
  refine ⟨s.split, hok, fun b => ?_⟩
  obtain ⟨hlength, hpositives⟩ := hbalanced b
  rw [hdealt.positives_eq] at hpositives
  rw [SplitState.lists_split, List.length_insertionSort,
    positivesAt_perm (List.perm_insertionSort ..)]
  exact ⟨hlength, hpositives⟩

/-- Two groups of two and two of one, by equal ratios. -/
theorem pairDisjointSplit_balanced_of_four :
    let dataset := Dataset.ofExamples [.inGroup (str "x") true, .inGroup (str "y") true,
      .inGroup (str "x") false, .inGroup (str "z") true, .inGroup (str "y") false,
      .inGroup (str "w") false]
    ∃ split, pairDisjointSplit .shuffling dataset 42 (fun _ => 1 / 3) = .ok split ∧
      ∀ b, ((split.lists b).length : ℚ) <
          2 * dataset.examples.length * (1 / 3) + (2 : ℕ) ∧
        (positivesAt dataset.examples (split.lists b) : ℚ) <
          2 * dataset.metadata.positiveExamples * (1 / 3) + (2 : ℕ) := by
  refine pairDisjointSplit_balanced shuffle42_perm
    ⟨by decide, by decide, by norm_num, fun _ => by norm_num, fun _ => ?_, fun _ => ?_⟩ ⟨?_, ?_⟩
  · simp [Dataset.ofExamples]
    norm_num
  · simp [Dataset.ofExamples, PairExample.inGroup]
  · exact ⟨_, List.mem_cons_self, by decide⟩
  · rintro size ⟨e, he, rfl⟩
    revert e
    decide

end ConflictGraph.Py
