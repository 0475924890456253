import Mathlib.Algebra.BigOperators.Fin
import Mathlib.Algebra.Order.Field.Rat
import Mathlib.Data.Fin.VecNotation
import Mathlib.Tactic.FinCases
import Mathlib.Tactic.Positivity
import ConflictGraph.Loop
import ConflictGraph.PyDataset

/-!
# The pair-disjoint split

`pair_disjoint_split` deals the groups of a dataset out to train, validation and test, in
shuffled order, each group to the bucket with the least score: its size and its positives,
each over what the ratios allot to it. What a bucket holds is what the groups dealt to it
hold (`Dealt`), and each group is dealt once, so the buckets partition the examples and
share no group. A bucket that holds nothing has score zero and any other a positive one,
so nobody is dealt a second group before everybody has one.
-/

namespace ConflictGraph.Py

/-! ## The split -/

structure DatasetSplit : Type where
  train : List ℕ := []
  validation : List ℕ := []
  test : List ℕ := []
  strategy : Str := str "pair-disjoint"
  deriving DecidableEq

/-- The three lists. -/
def DatasetSplit.lists (split : DatasetSplit) : Fin 3 → List ℕ :=
  ![split.train, split.validation, split.test]

/-- `set(xs) & set(ys)` is not empty. -/
def meets {α : Type} [DecidableEq α] (xs ys : List α) : Bool := xs.any fun x => x ∈ ys

/-- Two of three lists have something in common. -/
def overlap3 {α : Type} [DecidableEq α] (lists : Fin 3 → List α) : Bool :=
  meets (lists 0) (lists 1) || meets (lists 0) (lists 2) || meets (lists 1) (lists 2)

/-- The groups of some examples. -/
def groupsAt (examples : List PairExample) (indices : List ℕ) : List Str :=
  indices.filterMap fun index => examples[index]?.map PairExample.splitGroup

/-- `DatasetSplit.validate`. -/
def DatasetSplit.validate (split : DatasetSplit) (dataset : Dataset) : Except Exception Unit :=
  if overlap3 split.lists then .error ⟨.valueError, "dataset split indices overlap"⟩
  else if (List.finRange 3).any fun b =>
      (split.lists b).any fun index => decide (dataset.examples.length ≤ index) then
    .error ⟨.valueError, "dataset split index is out of range"⟩
  else if overlap3 fun b => groupsAt dataset.examples (split.lists b) then
    .error ⟨.valueError, "pair leakage detected across splits"⟩
  else .ok ()

/-! ## Dealing -/

/-- `by_group[group]`. -/
def groupIndices (examples : List PairExample) (group : Str) : List ℕ :=
  (examples.zipIdx.filter fun e => e.1.splitGroup = group).map Prod.snd

/-- `sorted(by_group)`. -/
def splitGroups (examples : List PairExample) : List Str :=
  (examples.map PairExample.splitGroup).dedup.insertionSort (· ≤ ·)

/-- `sum(dataset.examples[index].label for index in indices)`. -/
def positivesAt (examples : List PairExample) (indices : List ℕ) : ℕ :=
  (indices.map fun index => (examples[index]?.any PairExample.label).toNat).sum

structure SplitState : Type where
  buckets : Fin 3 → List ℕ
  positives : Fin 3 → ℕ

/-- The score of a bucket. -/
def score (dataset : Dataset) (ratios : Fin 3 → ℚ) (s : SplitState) (b : Fin 3) : ℚ :=
  let target := dataset.examples.length * ratios b
  let totalPositiveTarget : ℤ := max 1 dataset.metadata.positiveExamples
  (s.buckets b).length / max 1 target + s.positives b / max 1 (totalPositiveTarget * ratios b)

/-- `min(scores)[1]`: the least score, and of equal ones the first. -/
def leastScored (scores : Fin 3 → ℚ) : Fin 3 :=
  if scores 0 ≤ scores 1 ∧ scores 0 ≤ scores 2 then 0 else if scores 1 ≤ scores 2 then 1 else 2

/-- The body of the loop over the groups. -/
def deal (dataset : Dataset) (ratios : Fin 3 → ℚ) (s : SplitState) (group : Str) : SplitState :=
  let indices := groupIndices dataset.examples group
  let bucket := leastScored (score dataset ratios s)
  ⟨Function.update s.buckets bucket (s.buckets bucket ++ indices),
    Function.update s.positives bucket
      (s.positives bucket + positivesAt dataset.examples indices)⟩

/-- The ratios that pass the check. -/
def RatiosPass (ratios : Fin 3 → ℚ) : Prop :=
  |ratios 0 + ratios 1 + ratios 2 - 1| ≤ 1 / 1000000000 ∧ ∀ b, 0 < ratios b

instance (ratios : Fin 3 → ℚ) : Decidable (RatiosPass ratios) :=
  inferInstanceAs (Decidable (_ ∧ _))

/-- The buckets after the loop. -/
def dealAll (dataset : Dataset) (ratios : Fin 3 → ℚ) (groups : List Str) : SplitState :=
  groups.foldl (deal dataset ratios) ⟨fun _ => [], fun _ => 0⟩

/-- `DatasetSplit(train=sorted(buckets[0]), ...)`. -/
def SplitState.split (s : SplitState) : DatasetSplit where
  train := (s.buckets 0).insertionSort (· ≤ ·)
  validation := (s.buckets 1).insertionSort (· ≤ ·)
  test := (s.buckets 2).insertionSort (· ≤ ·)

/-- `pair_disjoint_split`. -/
def pairDisjointSplit (runtime : DatasetRuntime) (dataset : Dataset) (seed : ℤ := 42)
    (ratios : Fin 3 → ℚ := ![7 / 10, 15 / 100, 15 / 100]) : Except Exception DatasetSplit := do
  if RatiosPass ratios then
    let groups := runtime.shuffle seed (splitGroups dataset.examples)
    let split := (dealAll dataset ratios groups).split
    split.validate dataset
    return split
  else .error ⟨.valueError, "split ratios must be positive and sum to one"⟩

/-! ## Groups -/

section Groups

variable {examples : List PairExample} {group : Str} {index : ℕ}

/-- The indices of a group are those of its examples. -/
theorem mem_groupIndices : index ∈ groupIndices examples group ↔
    ∃ e, examples[index]? = some e ∧ e.splitGroup = group := by
  simp only [groupIndices, List.mem_map, List.mem_filter, List.mem_zipIdx_iff_getElem?,
    decide_eq_true_eq, Prod.exists, exists_eq_right]

theorem mem_splitGroups : group ∈ splitGroups examples ↔ ∃ e ∈ examples, e.splitGroup = group := by
  rw [splitGroups, List.mem_insertionSort, List.mem_dedup, List.mem_map]

theorem nodup_splitGroups : (splitGroups examples).Nodup :=
  (List.perm_insertionSort ..).nodup_iff.mpr (List.nodup_dedup _)

/-- A group has an example. -/
theorem groupIndices_ne_nil (h : group ∈ splitGroups examples) :
    groupIndices examples group ≠ [] := by
  obtain ⟨e, he, hgroup⟩ := mem_splitGroups.mp h
  obtain ⟨index, hindex⟩ := List.mem_iff_getElem?.mp he
  exact List.ne_nil_of_mem (mem_groupIndices.mpr ⟨e, hindex, hgroup⟩)

theorem nodup_groupIndices : (groupIndices examples group).Nodup := by
  rw [groupIndices]
  have hnodup : (examples.zipIdx.map Prod.snd).Nodup := by
    rw [List.zipIdx_map_snd]
    exact List.nodup_range'
  exact (List.filter_sublist.map Prod.snd).nodup hnodup

/-- All the groups together hold every index once. -/
theorem flatMap_groupIndices_perm {groups : List Str} (h : groups.Perm (splitGroups examples)) :
    (groups.flatMap (groupIndices examples)).Perm (List.range examples.length) := by
  apply (List.perm_ext_iff_of_nodup ?_ List.nodup_range).mpr
  · intro index
    rw [List.mem_flatMap, List.mem_range]
    refine ⟨fun ⟨group, _, hindex⟩ => ?_, fun hlt => ?_⟩
    · obtain ⟨e, he, -⟩ := mem_groupIndices.mp hindex
      exact (List.getElem?_eq_some_iff.mp he).1
    · have he := List.getElem?_eq_getElem hlt
      have hmem := List.mem_of_getElem? he
      refine ⟨_, h.mem_iff.mpr (mem_splitGroups.mpr ⟨_, hmem, rfl⟩), ?_⟩
      exact mem_groupIndices.mpr ⟨_, he, rfl⟩
  -- an index in two groups would be that of an example of both
  · refine List.nodup_flatMap.mpr ⟨fun group _ => nodup_groupIndices, ?_⟩
    refine (h.nodup_iff.mpr nodup_splitGroups).imp fun {a b} hne index ha hb => hne ?_
    obtain ⟨e, he, hgroup⟩ := mem_groupIndices.mp ha
    obtain ⟨e', he', hgroup'⟩ := mem_groupIndices.mp hb
    obtain rfl := Option.some.inj (he.symm.trans he')
    exact hgroup.symm.trans hgroup'

end Groups

/-! ## What the buckets hold -/

/-- The groups dealt to each bucket so far, which together are those done: a bucket holds
what its groups hold. While a bucket has no group, none has two. -/
structure Dealt (examples : List PairExample) (done : List Str) (s : SplitState)
    (assigned : Fin 3 → List Str) : Prop where
  buckets_eq : ∀ b, s.buckets b = (assigned b).flatMap (groupIndices examples)
  positives_eq : ∀ b, s.positives b = positivesAt examples (s.buckets b)
  perm : (assigned 0 ++ assigned 1 ++ assigned 2).Perm done
  mem : ∀ b, ∀ group ∈ assigned b, group ∈ splitGroups examples
  fair : ∀ b, assigned b = [] → ∀ b', (assigned b').length ≤ 1

section Dealing

variable {dataset : Dataset} {ratios : Fin 3 → ℚ} {s : SplitState} {group : Str} {b : Fin 3}

/-- Nobody has a lower score than who is dealt the group. -/
theorem leastScored_le (scores : Fin 3 → ℚ) (b : Fin 3) :
    scores (leastScored scores) ≤ scores b := by
  rw [leastScored]
  split
  · rename_i h
    fin_cases b
    · exact le_rfl
    · exact h.1
    · exact h.2
  · rename_i h
    rw [not_and_or, not_le, not_le] at h
    split
    · rename_i h12
      fin_cases b
      · exact h.elim le_of_lt fun h20 => h12.trans h20.le
      · exact le_rfl
      · exact h12
    · rename_i h12
      have h21 := not_le.mp h12
      fin_cases b
      · exact h.elim (fun h10 => h21.le.trans h10.le) le_of_lt
      · exact h21.le
      · exact le_rfl

theorem positivesAt_append (examples : List PairExample) (xs ys : List ℕ) :
    positivesAt examples (xs ++ ys) = positivesAt examples xs + positivesAt examples ys := by
  rw [positivesAt, List.map_append, List.sum_append, positivesAt, positivesAt]

theorem positivesAt_perm {examples : List PairExample} {xs ys : List ℕ} (h : xs.Perm ys) :
    positivesAt examples xs = positivesAt examples ys := (h.map _).sum_eq

/-- Dealing a group adds it to what is dealt. -/
theorem perm_update {assigned : Fin 3 → List Str} (b : Fin 3) :
    (Function.update assigned b (assigned b ++ [group]) 0 ++
      Function.update assigned b (assigned b ++ [group]) 1 ++
      Function.update assigned b (assigned b ++ [group]) 2).Perm
    (assigned 0 ++ assigned 1 ++ assigned 2 ++ [group]) := by
  rw [List.perm_iff_count]
  intro a
  fin_cases b
  · simp [List.count_cons]
    omega
  · simp [List.count_cons]
  · simp

/-- A bucket with nothing in it has score zero. -/
theorem score_eq_zero (hb : s.buckets b = []) (hp : s.positives b = 0) :
    score dataset ratios s b = 0 := by
  simp [score, hb, hp]

/-- Any other has a higher one. -/
theorem score_pos (hb : s.buckets b ≠ []) : 0 < score dataset ratios s b := by
  have hlength : (0 : ℚ) < (s.buckets b).length := by
    exact_mod_cast List.length_pos_iff.mpr hb
  have hsize : 0 < ((s.buckets b).length : ℚ) /
      max 1 (dataset.examples.length * ratios b) := by positivity
  have hpositives : (0 : ℚ) ≤ s.positives b /
      max 1 ((max 1 dataset.metadata.positiveExamples : ℤ) * ratios b) := by positivity
  exact add_pos_of_pos_of_nonneg hsize hpositives

namespace Dealt

variable {done : List Str} {assigned : Fin 3 → List Str}

/-- Nothing is dealt in the beginning. -/
theorem init (examples : List PairExample) :
    Dealt examples [] ⟨fun _ => [], fun _ => 0⟩ fun _ => [] :=
  ⟨fun _ => rfl, fun _ => rfl, List.Perm.nil, fun _ => List.forall_mem_nil _,
    fun _ _ _ => Nat.zero_le 1⟩

/-- Who was dealt a group has something. -/
theorem bucket_ne_nil (h : Dealt dataset.examples done s assigned) (hb : assigned b ≠ []) :
    s.buckets b ≠ [] := by
  obtain ⟨group, hgroup⟩ := List.exists_mem_of_ne_nil _ hb
  obtain ⟨index, hindex⟩ :=
    List.exists_mem_of_ne_nil _ (groupIndices_ne_nil (h.mem b group hgroup))
  rw [h.buckets_eq]
  exact List.ne_nil_of_mem (List.mem_flatMap.mpr ⟨group, hgroup, hindex⟩)

/-- While a bucket has no group, the next group goes to such a bucket. -/
theorem assigned_leastScored (h : Dealt dataset.examples done s assigned)
    (hb : assigned b = []) : assigned (leastScored (score dataset ratios s)) = [] := by
  by_contra hne
  have hbucket : s.buckets b = [] := by rw [h.buckets_eq, hb, List.flatMap_nil]
  have hpositives : s.positives b = 0 := by
    rw [h.positives_eq, hbucket]
    rfl
  have hle := leastScored_le (score dataset ratios s) b
  rw [score_eq_zero hbucket hpositives] at hle
  exact hle.not_gt (score_pos (h.bucket_ne_nil hne))

/-- The step lemma of dealing. -/
theorem deal (h : Dealt dataset.examples done s assigned)
    (hgroup : group ∈ splitGroups dataset.examples) :
    Dealt dataset.examples (done ++ [group]) (Py.deal dataset ratios s group)
      (Function.update assigned (leastScored (score dataset ratios s))
        (assigned (leastScored (score dataset ratios s)) ++ [group])) where
  buckets_eq b := by
    rw [Py.deal]
    rcases eq_or_ne b (leastScored (score dataset ratios s)) with rfl | hne
    · simp [h.buckets_eq]
    · simp [hne, h.buckets_eq]
  positives_eq b := by
    rw [Py.deal]
    rcases eq_or_ne b (leastScored (score dataset ratios s)) with rfl | hne
    · simp [h.positives_eq, positivesAt_append]
    · simp [hne, h.positives_eq]
  perm := (perm_update _).trans (h.perm.append_right _)
  mem b a ha := by
    rcases eq_or_ne b (leastScored (score dataset ratios s)) with rfl | hne
    · rw [Function.update_self, List.mem_append, List.mem_singleton] at ha
      exact ha.elim (h.mem _ a) fun he => he ▸ hgroup
    · rw [Function.update_of_ne hne] at ha
      exact h.mem b a ha
  fair b hb b' := by
    have hne : b ≠ leastScored (score dataset ratios s) := by
      rintro rfl
      rw [Function.update_self] at hb
      simp at hb
    rw [Function.update_of_ne hne] at hb
    rcases eq_or_ne b' (leastScored (score dataset ratios s)) with rfl | hne'
    -- a bucket still has no group, so the one dealt to had none
    · rw [Function.update_self, h.assigned_leastScored hb]
      exact le_rfl
    · rw [Function.update_of_ne hne']
      exact h.fair b hb b'

/-- Three groups are enough for everybody. -/
theorem bucket_ne_nil_of_three_le (h : Dealt dataset.examples done s assigned)
    (hthree : 3 ≤ done.length) (b : Fin 3) : s.buckets b ≠ [] := by
  apply h.bucket_ne_nil
  intro hb
  have hfair := h.fair b hb
  have hlength := h.perm.length_eq
  rw [List.length_append, List.length_append] at hlength
  -- one of the buckets has none, and the other two have at most one each
  have h0 := hfair 0
  have h1 := hfair 1
  have h2 := hfair 2
  have hzero : (assigned b).length = 0 := by rw [hb, List.length_nil]
  fin_cases b
  · simp only [Fin.zero_eta] at hzero
    omega
  · simp only [Fin.mk_one] at hzero
    omega
  · simp only [Fin.reduceFinMk] at hzero
    omega

end Dealt

/-- The loop over some groups deals each of them once. -/
theorem exists_dealt {groups : List Str}
    (h : ∀ group ∈ groups, group ∈ splitGroups dataset.examples) :
    ∃ assigned, Dealt dataset.examples groups (dealAll dataset ratios groups) assigned := by
  refine foldl_prefix_invariant (f := deal dataset ratios)
    (I := fun done s => ∃ assigned, Dealt dataset.examples done s assigned) ?_ ?_
  · exact ⟨fun _ => [], .init _⟩
  · rintro done group rest s hgroups ⟨assigned, hdealt⟩
    exact ⟨_, hdealt.deal (h group (by simp [hgroups]))⟩

end Dealing

/-! ## Three lists without a common element -/

section Lists

variable {α : Type} {lists : Fin 3 → List α}

theorem disjoint_of_nodup (h : (lists 0 ++ lists 1 ++ lists 2).Nodup) {b b' : Fin 3}
    (hne : b ≠ b') : (lists b).Disjoint (lists b') := by
  rw [List.nodup_append', List.nodup_append'] at h
  obtain ⟨⟨-, -, h01⟩, -, h012⟩ := h
  rw [List.disjoint_append_left] at h012
  fin_cases b <;> fin_cases b'
  · exact absurd rfl hne
  · exact h01
  · exact h012.1
  · exact h01.symm
  · exact absurd rfl hne
  · exact h012.2
  · exact h012.1.symm
  · exact h012.2.symm
  · exact absurd rfl hne

variable [DecidableEq α]

theorem meets_eq_false {xs ys : List α} (h : xs.Disjoint ys) : meets xs ys = false := by
  rw [meets, List.any_eq_false]
  intro x hx
  simpa using h hx

/-- Lists of which no two meet pass the check. -/
theorem overlap3_eq_false (h : ∀ b b', b ≠ b' → (lists b).Disjoint (lists b')) :
    overlap3 lists = false := by
  rw [overlap3, meets_eq_false (h 0 1 (by decide)), meets_eq_false (h 0 2 (by decide)),
    meets_eq_false (h 1 2 (by decide))]
  rfl

end Lists

/-! ## The split as a partition -/

/-- A group is among those of some examples if one of them is of it. -/
theorem mem_groupsAt {examples : List PairExample} {indices : List ℕ} {group : Str} :
    group ∈ groupsAt examples indices ↔ ∃ index ∈ indices, index ∈ groupIndices examples group := by
  simp only [groupsAt, List.mem_filterMap, Option.map_eq_some_iff, mem_groupIndices]

/-- The lists of a split partition the indices and share no group. -/
structure Partitions (examples : List PairExample) (lists : Fin 3 → List ℕ) : Prop where
  perm : (lists 0 ++ lists 1 ++ lists 2).Perm (List.range examples.length)
  groups_disjoint : ∀ b b', b ≠ b' →
    (groupsAt examples (lists b)).Disjoint (groupsAt examples (lists b'))

namespace Partitions

variable {examples : List PairExample} {lists : Fin 3 → List ℕ}

/-- All the groups dealt out. -/
theorem of_dealt {groups : List Str} {s : SplitState} {assigned : Fin 3 → List Str}
    (h : Dealt examples groups s assigned) (hgroups : groups.Perm (splitGroups examples)) :
    Partitions examples s.buckets where
  perm := by
    rw [h.buckets_eq, h.buckets_eq, h.buckets_eq, ← List.flatMap_append, ← List.flatMap_append]
    exact (h.perm.flatMap_right _).trans (flatMap_groupIndices_perm hgroups)
  groups_disjoint b b' hne := by
    have hnodup : (assigned 0 ++ assigned 1 ++ assigned 2).Nodup :=
      (h.perm.trans hgroups).nodup_iff.mpr nodup_splitGroups
    have hmem : ∀ {b group}, group ∈ groupsAt examples (s.buckets b) → group ∈ assigned b := by
      intro b group hgroup
      obtain ⟨index, hindex, hin⟩ := mem_groupsAt.mp hgroup
      rw [h.buckets_eq, List.mem_flatMap] at hindex
      obtain ⟨group', hassigned, hin'⟩ := hindex
      obtain ⟨e, he, rfl⟩ := mem_groupIndices.mp hin
      obtain ⟨e', he', rfl⟩ := mem_groupIndices.mp hin'
      obtain rfl := Option.some.inj (he.symm.trans he')
      exact hassigned
    intro group hgroup hgroup'
    exact disjoint_of_nodup hnodup hne (hmem hgroup) (hmem hgroup')

/-- A partition may be reordered. -/
theorem of_perm (h : Partitions examples lists) {lists' : Fin 3 → List ℕ}
    (hperm : ∀ b, (lists' b).Perm (lists b)) : Partitions examples lists' where
  perm := (((hperm 0).append (hperm 1)).append (hperm 2)).trans h.perm
  groups_disjoint b b' hne _ hgroup hgroup' :=
    h.groups_disjoint b b' hne (((hperm b).filterMap _).mem_iff.mp hgroup)
      (((hperm b').filterMap _).mem_iff.mp hgroup')

theorem nodup (h : Partitions examples lists) : (lists 0 ++ lists 1 ++ lists 2).Nodup :=
  h.perm.nodup_iff.mpr List.nodup_range

theorem nodup_lists (h : Partitions examples lists) (b : Fin 3) : (lists b).Nodup := by
  have hnodup := h.nodup
  rw [List.nodup_append', List.nodup_append'] at hnodup
  fin_cases b
  · exact hnodup.1.1
  · exact hnodup.1.2.1
  · exact hnodup.2.1

theorem lt_length (h : Partitions examples lists) {b : Fin 3} {index : ℕ}
    (hindex : index ∈ lists b) : index < examples.length := by
  apply List.mem_range.mp
  apply h.perm.mem_iff.mp
  rw [List.mem_append, List.mem_append]
  fin_cases b
  · exact Or.inl (Or.inl hindex)
  · exact Or.inl (Or.inr hindex)
  · exact Or.inr hindex

end Partitions

/-- `validate` lets a partition pass. -/
theorem validate_eq_ok {dataset : Dataset} {split : DatasetSplit}
    (h : Partitions dataset.examples split.lists) : split.validate dataset = .ok () := by
  have hindices : overlap3 split.lists = false :=
    overlap3_eq_false fun _ _ hne => disjoint_of_nodup h.nodup hne
  have hgroups : overlap3 (fun b => groupsAt dataset.examples (split.lists b)) = false :=
    overlap3_eq_false h.groups_disjoint
  have hrange : ((List.finRange 3).any fun b =>
      (split.lists b).any fun index => decide (dataset.examples.length ≤ index)) = false := by
    apply List.any_eq_false.mpr
    intro b _
    simpa using fun index hindex => h.lt_length hindex
  rw [DatasetSplit.validate, hindices, hgroups, hrange]
  rfl

theorem SplitState.lists_split (s : SplitState) (b : Fin 3) :
    s.split.lists b = (s.buckets b).insertionSort (· ≤ ·) := by
  fin_cases b <;> rfl

section Split

variable {runtime : DatasetRuntime} {dataset : Dataset} {seed : ℤ} {ratios : Fin 3 → ℚ}
  (hshuffle : ∀ seed groups, (runtime.shuffle seed groups).Perm groups)

include hshuffle

variable (seed) in
/-- The split that `pair_disjoint_split` returns, and how its groups were dealt. -/
theorem pairDisjointSplit_eq_ok (hratios : RatiosPass ratios) :
    ∃ groups s assigned, groups.Perm (splitGroups dataset.examples) ∧
      s = dealAll dataset ratios groups ∧ Dealt dataset.examples groups s assigned ∧
      Partitions dataset.examples s.split.lists ∧
      pairDisjointSplit runtime dataset seed ratios = .ok s.split := by
  have hgroups := hshuffle seed (splitGroups dataset.examples)
  obtain ⟨assigned, hdealt⟩ : ∃ assigned, Dealt dataset.examples
      (runtime.shuffle seed (splitGroups dataset.examples))
      (dealAll dataset ratios (runtime.shuffle seed (splitGroups dataset.examples))) assigned :=
    exists_dealt fun group => hgroups.mem_iff.mp
  have hpartitions : Partitions dataset.examples
      (dealAll dataset ratios (runtime.shuffle seed (splitGroups dataset.examples))).split.lists :=
    (Partitions.of_dealt hdealt hgroups).of_perm fun b => by
      rw [SplitState.lists_split]
      exact List.perm_insertionSort ..
  refine ⟨_, _, assigned, hgroups, rfl, hdealt, hpartitions, ?_⟩
  rw [pairDisjointSplit, if_pos hratios]
  simp only [validate_eq_ok hpartitions]
  rfl

/-- **The pair split leaks nothing and starves nobody**: it returns three sorted lists that
partition the indices, no group is in two of them, and each gets something if there are
three groups. -/
theorem pairDisjointSplit_partitions (hratios : RatiosPass ratios) :
    ∃ split, pairDisjointSplit runtime dataset seed ratios = .ok split ∧
      (∀ b, (split.lists b).Pairwise (· < ·)) ∧
      (split.lists 0 ++ split.lists 1 ++ split.lists 2).Perm
        (List.range dataset.examples.length) ∧
      (∀ b b', b ≠ b' → (groupsAt dataset.examples (split.lists b)).Disjoint
        (groupsAt dataset.examples (split.lists b'))) ∧
      (3 ≤ (dataset.examples.map PairExample.splitGroup).dedup.length →
        ∀ b, split.lists b ≠ []) := by
  obtain ⟨groups, s, assigned, hgroups, -, hdealt, hpartitions, hok⟩ :=
    pairDisjointSplit_eq_ok seed hshuffle hratios
  refine ⟨_, hok, fun b => ?_, hpartitions.perm, hpartitions.groups_disjoint, fun hthree b => ?_⟩
  · have hsorted : (s.split.lists b).Pairwise (· ≤ ·) := by
      rw [SplitState.lists_split]
      exact List.pairwise_insertionSort ..
    exact (hsorted.and (hpartitions.nodup_lists b)).imp fun h => lt_of_le_of_ne h.1 h.2
  · have hlength : groups.length = (dataset.examples.map PairExample.splitGroup).dedup.length := by
      rw [hgroups.length_eq, splitGroups, List.length_insertionSort]
    have hbucket := hdealt.bucket_ne_nil_of_three_le (hlength ▸ hthree) b
    rw [SplitState.lists_split]
    exact fun hnil => hbucket (List.perm_nil.mp (hnil ▸ (List.perm_insertionSort ..).symm))

end Split

/-- An example of a group with nothing else to tell. -/
def PairExample.inGroup (group : Str) (label : Bool) : PairExample :=
  ⟨str "a", str "b", [], label, 1, str "UNKNOWN", group, []⟩

/-- A dataset of some examples, with the counts that `build` gives it. -/
def Dataset.ofExamples (examples : List PairExample) : Dataset where
  examples := examples
  metadata := {
    schemaVersion := schemaVersion, createdAt := [], seed := 42, sourceRuns := [],
    testCount := 2, resourceCount := 1, exampleCount := examples.length,
    positiveExamples := examples.countP PairExample.label,
    negativeExamples := examples.countP fun e => !e.label,
    featureNames := PairFeatures.featureNames, traceQuality := 1 }

/-- What `random.Random(42).shuffle` does to lists of two to four. -/
def shuffle42 {α : Type} : ℤ → List α → List α
  | 42, [x, y] => [y, x]
  | 42, [x, y, z] => [y, x, z]
  | 42, [w, x, y, z] => [y, x, z, w]
  | _, xs => xs

/-- It is a permutation. -/
theorem shuffle42_perm {α : Type} (seed : ℤ) (xs : List α) : (shuffle42 seed xs).Perm xs := by
  unfold shuffle42
  split
  · exact List.Perm.swap ..
  · exact List.Perm.swap ..
  · rename_i w x y z
    have hlast : [y, x, z, w].Perm (w :: [y, x, z]) := List.perm_append_singleton w [y, x, z]
    exact hlast.trans ((List.Perm.swap x y [z]).cons w)
  · exact List.Perm.refl _

/-- A runtime that shuffles as Python does. -/
def DatasetRuntime.shuffling : DatasetRuntime := { DatasetRuntime.still with shuffle := shuffle42 }

/-- Three groups, one of two examples, by the default ratios. -/
theorem pairDisjointSplit_partitions_of_three :
    let dataset := Dataset.ofExamples [.inGroup (str "x") true, .inGroup (str "y") false,
      .inGroup (str "x") false, .inGroup (str "z") false]
    ∃ split, pairDisjointSplit .shuffling dataset = .ok split ∧
      (∀ b, (split.lists b).Pairwise (· < ·)) ∧
      (split.lists 0 ++ split.lists 1 ++ split.lists 2).Perm
        (List.range dataset.examples.length) ∧
      (∀ b b', b ≠ b' → (groupsAt dataset.examples (split.lists b)).Disjoint
        (groupsAt dataset.examples (split.lists b'))) ∧
      (3 ≤ (dataset.examples.map PairExample.splitGroup).dedup.length →
        ∀ b, split.lists b ≠ []) :=
  pairDisjointSplit_partitions shuffle42_perm (by
    refine ⟨?_, fun b => ?_⟩
    · change |(7 / 10 + 15 / 100 + 15 / 100 - 1 : ℚ)| ≤ 1 / 1000000000
      norm_num
    · fin_cases b <;> norm_num)

end ConflictGraph.Py
