import ConflictGraph.GoDeterminism

/-!
# The placement risk

`placementRisk` walks over the tests of the other lanes. Each that overlaps the placement
multiplies the chance that nothing happens by a *factor*, and is named in the reasons if it is
risky enough. A test that does not overlap has the factor one, so the risk is the complement of
a rounded product over all other tests. It is positive as soon as rounding leaves of one
factor less than one, and a conflicting test that runs during the whole placement makes it
reach that test's own risk where nothing is rounded.
-/

namespace ConflictGraph.Go

/-! ## Risk indices -/

/-- The index answers with probabilities. -/
def RiskIndex.Bounded (risk : RiskIndex) : Prop :=
  ∀ a b, 0 ≤ risk.probability a b ∧ risk.probability a b ≤ 1

theorem bounded_of_predictions {risk : RiskIndex}
    (h : ∀ key p, risk.predictions key = some p → 0 ≤ p.probability ∧ p.probability ≤ 1) :
    risk.Bounded := by
  intro a b
  rw [RiskIndex.probability]
  by_cases heq : a = b
  · rw [if_pos heq]
    exact ⟨zero_le_one, le_refl 1⟩
  · rw [if_neg heq]
    rcases hheld : risk.predictions (pairKey a b) with _ | p
    · exact ⟨le_refl 0, zero_le_one⟩
    · exact h _ p hheld

/-- `NewRiskIndex` accepts probabilities only. -/
theorem bounded_newRiskIndex {predictions : List Prediction} {risk : RiskIndex}
    (h : newRiskIndex predictions = .ok risk) : risk.Bounded := by
  suffices hloop : ∀ (rest : List Prediction) (index : RiskIndex),
      (∀ key p, index.predictions key = some p → 0 ≤ p.probability ∧ p.probability ≤ 1) →
      addPredictions index rest = .ok risk →
      ∀ key p, risk.predictions key = some p → 0 ≤ p.probability ∧ p.probability ≤ 1 from
    bounded_of_predictions (hloop predictions ⟨PartialMap.empty⟩
      (fun _ _ hnone => absurd hnone.symm (Option.some_ne_none _)) h)
  intro rest
  induction rest with
  | nil =>
    intro index hindex hrun
    rw [← Except.ok.inj hrun]
    exact hindex
  | cons p rest ih =>
    intro index hindex hrun
    rw [addPredictions] at hrun
    rcases hnorm : p.normalize with text | q
    · rw [hnorm] at hrun
      cases hrun
    · rw [hnorm] at hrun
      have hinsert : ∀ key r, index.predictions.insert (pairKey q.testA q.testB) q key = some r →
          0 ≤ r.probability ∧ r.probability ≤ 1 := by
        intro key r hr
        rw [PartialMap.insert_apply] at hr
        by_cases hkey : key = pairKey q.testA q.testB
        · rw [if_pos hkey] at hr
          rw [← Option.some.inj hr]
          exact (Prediction.normalize_probability hnorm).2
        · rw [if_neg hkey] at hr
          exact hindex key r hr
      refine ih (index.add q) ?_ hrun
      unfold RiskIndex.add
      dsimp only
      split
      · exact hinsert
      · split
        · exact hinsert
        · exact hindex

/-! ## Factors -/

/-- The chance, as the machine rounds it, that two tests with these instants and durations do
not conflict. -/
def RiskIndex.pairFactor (risk : RiskIndex) (rounding : Rounding) (a b : ScheduledTest) : ℚ :=
  rounding.complement (rounding.round (risk.probability a.testID b.testID *
    min 1 (rounding.round
      (overlap a.estimatedStart a.estimatedEnd b.estimatedStart b.estimatedEnd /
        max (1 / 1000) (min a.estimatedDuration b.estimatedDuration)))))

/-- It does not matter which of the two is placed last. -/
theorem RiskIndex.pairFactor_comm (risk : RiskIndex) (rounding : Rounding) (a b : ScheduledTest) :
    risk.pairFactor rounding a b = risk.pairFactor rounding b a := by
  rw [pairFactor, pairFactor, risk.probability_comm, overlap_comm, min_comm a.estimatedDuration]

section Fold

variable {rounding : Rounding} {risk : RiskIndex} {t : ScheduledTest}

/-- A factor is a chance. -/
theorem RiskIndex.Bounded.pairFactor_mem (h : risk.Bounded) (rounding : Rounding)
    (t o : ScheduledTest) :
    0 ≤ risk.pairFactor rounding t o ∧ risk.pairFactor rounding t o ≤ 1 := by
  obtain ⟨hnonneg, hle⟩ := h t.testID o.testID
  have hexposure : 0 ≤ min 1 (rounding.round
      (overlap t.estimatedStart t.estimatedEnd o.estimatedStart o.estimatedEnd /
        max (1 / 1000) (min t.estimatedDuration o.estimatedDuration))) :=
    le_min zero_le_one (rounding.round_nonneg
      (div_nonneg (overlap_nonneg ..) (le_max_of_le_left (by norm_num))))
  rw [pairFactor]
  exact ⟨rounding.complement_nonneg
      (rounding.round_le_one (mul_le_one₀ hle hexposure (min_le_left _ _))),
    rounding.complement_le_one (rounding.round_nonneg (mul_nonneg hnonneg hexposure))⟩

/-- A test that does not overlap has no part in the risk. -/
theorem RiskIndex.pairFactor_of_apart {o : ScheduledTest}
    (h : overlap t.estimatedStart t.estimatedEnd o.estimatedStart o.estimatedEnd = 0) :
    risk.pairFactor rounding t o = 1 := by
  rw [pairFactor, h, zero_div, rounding.round_zero, min_eq_right zero_le_one, mul_zero,
    rounding.round_zero, rounding.complement_zero]

/-- Without rounding, a risky test that overlaps leaves less than certainty. -/
theorem RiskIndex.pairFactor_exact_lt_one {o : ScheduledTest}
    (hshared : 0 < overlap t.estimatedStart t.estimatedEnd o.estimatedStart o.estimatedEnd)
    (hrisk : 0 < risk.probability t.testID o.testID) : risk.pairFactor .exact t o < 1 := by
  refine sub_lt_self 1 (mul_pos hrisk (lt_min one_pos (div_pos hshared ?_)))
  exact lt_max_of_lt_left (by norm_num)

theorem placementRiskStep_fst (hend : t.estimatedEnd = t.estimatedStart + t.estimatedDuration)
    {acc : ℚ × List String} (hacc : rounding.round acc.1 = acc.1) (o : ScheduledTest) :
    (placementRiskStep rounding t.testID t.estimatedStart t.estimatedEnd risk acc o).1 =
      rounding.round (acc.1 * risk.pairFactor rounding t o) := by
  have hduration : t.estimatedEnd - t.estimatedStart = t.estimatedDuration := by
    rw [hend, add_sub_cancel_left]
  rw [placementRiskStep]
  by_cases hshared : overlap t.estimatedStart t.estimatedEnd o.estimatedStart o.estimatedEnd = 0
  · rw [if_pos hshared, RiskIndex.pairFactor_of_apart hshared, mul_one, hacc]
  · rw [if_neg hshared, hduration]
    rfl

/-- The loop of `placementRisk` multiplies the factors of all other tests. -/
theorem foldl_placementRiskStep_fst
    (hend : t.estimatedEnd = t.estimatedStart + t.estimatedDuration) (tests : List ScheduledTest) :
    ∀ acc : ℚ × List String, rounding.round acc.1 = acc.1 →
      (tests.foldl (placementRiskStep rounding t.testID t.estimatedStart t.estimatedEnd risk)
          acc).1 =
        rounding.product acc.1 (tests.map (risk.pairFactor rounding t)) := by
  induction tests with
  | nil => exact fun _ _ => rfl
  | cons o rest ih =>
    intro acc hacc
    have hstep : (placementRiskStep rounding t.testID t.estimatedStart t.estimatedEnd risk acc o).1
        = rounding.round (acc.1 * risk.pairFactor rounding t o) :=
      placementRiskStep_fst hend hacc o
    rw [List.foldl_cons, ih _ (by rw [hstep, rounding.round_round]), hstep, List.map_cons,
      Rounding.product_cons]

/-- **The placement risk** of a test is the complement of the product of its factors. -/
theorem placementRisk_fst (hend : t.estimatedEnd = t.estimatedStart + t.estimatedDuration)
    (lanes : List Lane) (worker : ℕ) :
    (placementRisk rounding t.testID t.estimatedStart t.estimatedEnd lanes worker risk).1 =
      rounding.complement
        (rounding.product 1 ((otherTests lanes worker).map (risk.pairFactor rounding t))) := by
  rw [placementRisk, foldl_placementRiskStep_fst hend _ _ rounding.round_one]

/-- The risk is positive if rounding leaves of one factor less than one. -/
theorem RiskIndex.Bounded.placementRisk_pos (h : risk.Bounded)
    (hend : t.estimatedEnd = t.estimatedStart + t.estimatedDuration) {lanes : List Lane}
    {worker : ℕ} {o : ScheduledTest} (ho : o ∈ otherTests lanes worker)
    (hlt : risk.pairFactor rounding t o < 1) :
    0 < (placementRisk rounding t.testID t.estimatedStart t.estimatedEnd lanes worker risk).1 := by
  rw [placementRisk_fst hend]
  refine rounding.complement_product_pos (List.forall_mem_map.mpr fun u _ =>
    h.pairFactor_mem rounding t u) (List.mem_map_of_mem ho) ?_ hlt
  exact rounding.round_complement _

/-- Without rounding, the risk is at least that of any test that overlaps the whole placement, or
is itself overlapped whole. -/
theorem RiskIndex.Bounded.probability_le_placementRisk (h : risk.Bounded)
    (hend : t.estimatedEnd = t.estimatedStart + t.estimatedDuration) {lanes : List Lane}
    {worker : ℕ} {o : ScheduledTest} (ho : o ∈ otherTests lanes worker)
    (hwhole : max (1 / 1000) (min t.estimatedDuration o.estimatedDuration) ≤
      overlap t.estimatedStart t.estimatedEnd o.estimatedStart o.estimatedEnd) :
    risk.probability t.testID o.testID ≤
      (placementRisk .exact t.testID t.estimatedStart t.estimatedEnd lanes worker risk).1 := by
  have hlength : (0 : ℚ) < max (1 / 1000) (min t.estimatedDuration o.estimatedDuration) :=
    lt_max_of_lt_left (by norm_num)
  have hfactor : risk.pairFactor .exact t o = 1 - risk.probability t.testID o.testID := by
    rw [pairFactor, Rounding.exact_round, Rounding.exact_round,
      min_eq_left ((one_le_div hlength).mpr hwhole), mul_one]
    rfl
  rw [placementRisk_fst hend]
  have hle := Rounding.exact.product_le_factor zero_le_one le_rfl
    (List.forall_mem_map.mpr fun u _ => h.pairFactor_mem .exact t u) _ (List.mem_map_of_mem ho) rfl
  rw [hfactor] at hle
  exact le_sub_comm.mp hle

end Fold

/-! ## Reasons -/

/-- The line that names a test. -/
def RiskIndex.reason (risk : RiskIndex) (testID : String) (o : ScheduledTest) : String :=
  o.nodeID ++ ": " ++ formatFixed1 (risk.probability testID o.testID * 100) ++ "% conflict risk"

/-- Every overlapping test that is risky enough is named. -/
theorem mem_foldl_placementRiskStep {rounding : Rounding} {testID : String} {start stop : ℚ}
    {risk : RiskIndex} {line : String} {tests : List ScheduledTest} :
    ∀ acc : ℚ × List String,
      (line ∈ acc.2 ∨ ∃ o ∈ tests, overlap start stop o.estimatedStart o.estimatedEnd ≠ 0 ∧
        1 / 4 ≤ risk.probability testID o.testID ∧ line = risk.reason testID o) →
      line ∈ (tests.foldl (placementRiskStep rounding testID start stop risk) acc).2 := by
  induction tests with
  | nil => exact fun acc h => h.resolve_right fun ⟨_, hmem, _⟩ => List.not_mem_nil hmem
  | cons o rest ih =>
    intro acc h
    rw [List.foldl_cons]
    refine ih _ ?_
    rcases h with hold | ⟨u, hu, hshared, hrisk, rfl⟩
    · left
      rw [placementRiskStep]
      split
      · exact hold
      · dsimp only
        split
        · exact List.mem_append_left _ hold
        · exact hold
    · rcases List.mem_cons.mp hu with rfl | hrest
      · left
        rw [placementRiskStep, if_neg hshared]
        dsimp only
        rw [if_pos hrisk]
        exact List.mem_append_right _ (List.mem_singleton_self _)
      · exact Or.inr ⟨u, hrest, hshared, hrisk, rfl⟩

end ConflictGraph.Go
