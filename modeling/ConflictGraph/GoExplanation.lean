import ConflictGraph.GoPlacementRisk

/-!
# Explained plans

A scheduled test carries the risk and the reasons that `placementRisk` gave it when it was
placed. The test that is placed second of two that overlap saw the other one, also where the
guard delayed it, so the placement loop *explains* every risky overlap whose risk rounding does
not lose. Refinement moves tests and leaves their risk and reasons alone. The plan stays
explained where refinement has nothing to do, and where the pairs it could bring together are
on record already.
-/

namespace ConflictGraph.Go

/-! ## What a test accounts for -/

/-- A line of the reasons of `a` begins with the node of `b`. -/
def ScheduledTest.Lists (a b : ScheduledTest) : Prop :=
  ∃ reason ∈ a.reasons, (b.nodeID ++ ": ").toList <+: reason.toList

instance (a b : ScheduledTest) : Decidable (a.Lists b) :=
  inferInstanceAs (Decidable (∃ reason ∈ a.reasons, _ <+: _))

/-- One of the two tests has a risk cost, and where the pair is risky enough to be named, one
lists the other. -/
def RiskIndex.Recorded (risk : RiskIndex) (a b : ScheduledTest) : Prop :=
  (0 < a.riskCost ∨ 0 < b.riskCost) ∧
    (1 / 4 ≤ risk.probability a.testID b.testID → a.Lists b ∨ b.Lists a)

instance (risk : RiskIndex) (a b : ScheduledTest) : Decidable (risk.Recorded a b) :=
  inferInstanceAs (Decidable (_ ∧ (_ → _)))

/-- The tests are risky together, and neither accounts for it. -/
def RiskIndex.Unrecorded (risk : RiskIndex) (a b : ScheduledTest) : Prop :=
  0 < risk.probability a.testID b.testID ∧ ¬ risk.Recorded a b

instance (risk : RiskIndex) (a b : ScheduledTest) : Decidable (risk.Unrecorded a b) :=
  inferInstanceAs (Decidable (_ ∧ _))

theorem RiskIndex.Unrecorded.symm {risk : RiskIndex} (a b : ScheduledTest)
    (h : risk.Unrecorded a b) : risk.Unrecorded b a := by
  obtain ⟨hrisk, hnot⟩ := h
  rw [risk.probability_comm] at hrisk
  refine ⟨hrisk, fun hrecorded => hnot ⟨hrecorded.1.symm, fun hnamed => ?_⟩⟩
  rw [risk.probability_comm] at hnamed
  exact (hrecorded.2 hnamed).symm

/-- Every two tests on different workers that overlap and are risky together are recorded. -/
abbrev Explained (risk : RiskIndex) (tests : List ScheduledTest) : Prop :=
  Separated ScheduledTest.worker ScheduledTest.estimatedStart ScheduledTest.estimatedEnd
    risk.Unrecorded tests

/-! ## What the placement loop records -/

section Placement

variable {rounding : Rounding} {risk : RiskIndex}

/-- Neither test accounts for the other, though rounding leaves something of their risk. -/
def RiskIndex.Missed (rounding : Rounding) (risk : RiskIndex) (a b : ScheduledTest) : Prop :=
  risk.pairFactor rounding a b < 1 ∧ risk.Unrecorded a b

theorem RiskIndex.Missed.symm (a b : ScheduledTest) (h : risk.Missed rounding a b) :
    risk.Missed rounding b a := by
  obtain ⟨hleft, hunrecorded⟩ := h
  rw [risk.pairFactor_comm] at hleft
  exact ⟨hleft, hunrecorded.symm a b⟩

/-- No two tests on different workers that overlap are missed. -/
abbrev NoneMissed (rounding : Rounding) (risk : RiskIndex) (tests : List ScheduledTest) : Prop :=
  Separated ScheduledTest.worker ScheduledTest.estimatedStart ScheduledTest.estimatedEnd
    (risk.Missed rounding) tests

/-- The scheduled test accounts for every risky test of another lane that runs beside it. -/
theorem scheduled_recorded {ctx : Context} (hrisk : ctx.risk.Bounded) {lanes : List Lane}
    (hsound : LanesSound lanes) {worker : ℕ} {start : ℚ} {best : Test}
    (hpos : 0 < best.durationEMA) :
    ∀ o ∈ otherTests lanes worker,
      ctx.risk.Missed ctx.runtime.rounding (ctx.scheduled lanes worker start best) o →
        ¬ Meets (ctx.scheduled lanes worker start best).estimatedStart
          (ctx.scheduled lanes worker start best).estimatedEnd o.estimatedStart o.estimatedEnd := by
  rintro o ho ⟨hleft, -, hnot⟩ hmeets
  have hend : (ctx.scheduled lanes worker start best).estimatedEnd =
      (ctx.scheduled lanes worker start best).estimatedStart +
        (ctx.scheduled lanes worker start best).estimatedDuration := rfl
  refine hnot ⟨Or.inl ?_, fun hnamed => Or.inl ?_⟩
  · exact hrisk.placementRisk_pos hend ho hleft
  · refine ⟨ctx.risk.reason best.id o, ?_, ?_⟩
    · have hshared := (overlap_pos_iff (lt_add_of_pos_right _ hpos)
        (hsound.start_lt_end ho)).mpr hmeets
      exact mem_foldl_placementRiskStep _ (Or.inr ⟨o, ho, hshared.ne', hnamed, rfl⟩)
    · refine ⟨(formatFixed1 (ctx.risk.probability best.id o.testID * 100)).toList ++
        "% conflict risk".toList, ?_⟩
      simp only [RiskIndex.reason, String.toList_append, List.append_assoc]

/-- The step lemma: a round misses nothing. -/
theorem noneMissed_place {ctx : Context} (hrisk : ctx.risk.Bounded) {jobs : List Job} {round : ℕ}
    {p q : Placement} (hinv : p.Inv jobs) (h : ctx.place round p = .ok q)
    (hnone : NoneMissed ctx.runtime.rounding ctx.risk (p.lanes.flatMap Lane.tests)) :
    NoneMissed ctx.runtime.rounding ctx.risk (q.lanes.flatMap Lane.tests) := by
  obtain ⟨lane, best, hlane, hbest, rfl⟩ := place_eq_ok h
  have hlt : earliestLane p.lanes < p.lanes.length := (List.getElem?_eq_some_iff.mp hlane).1
  refine (separated_appendTo RiskIndex.Missed.symm hinv.sound.indexed hlt rfl).mpr ⟨hnone, ?_⟩
  exact scheduled_recorded hrisk hinv.sound (hinv.duration_pos best (mem_of_chosen hbest))

/-- The run lemma: the placement loop misses nothing. -/
theorem noneMissed_placeAll {ctx : Context} (hrisk : ctx.risk.Bounded) {jobs : List Job}
    {fuel round : ℕ} {p q : Placement} (hinv : p.Inv jobs)
    (hnone : NoneMissed ctx.runtime.rounding ctx.risk (p.lanes.flatMap Lane.tests))
    (h : ctx.placeAll fuel round p = .ok q) :
    LanesSound q.lanes ∧
      NoneMissed ctx.runtime.rounding ctx.risk (q.lanes.flatMap Lane.tests) := by
  have hkept := placeAll_invariant (I := fun p => p.Inv jobs ∧
      NoneMissed ctx.runtime.rounding ctx.risk (p.lanes.flatMap Lane.tests))
    (fun hp (hnext : ctx.place _ _ = .ok _) =>
      ⟨(hp.1.place hnext).1, noneMissed_place hrisk hp.1 hnext hp.2⟩)
    ⟨hinv, hnone⟩ h
  exact ⟨hkept.1.sound, hkept.2⟩

/-- Rounding loses the risk of no two tests on different workers that overlap. -/
abbrev RisksKept (rounding : Rounding) (risk : RiskIndex) (tests : List ScheduledTest) : Prop :=
  Separated ScheduledTest.worker ScheduledTest.estimatedStart ScheduledTest.estimatedEnd
    (fun a b => 0 < risk.probability a.testID b.testID ∧ 1 ≤ risk.pairFactor rounding a b) tests

/-- What is not missed and not lost to rounding is explained. -/
theorem explained_of_risksKept {tests : List ScheduledTest} (h : NoneMissed rounding risk tests)
    (hkept : RisksKept rounding risk tests) : Explained risk tests := by
  refine (h.and hkept).imp fun ⟨hnot, hpair⟩ ⟨hworker, hmeets, hunrecorded⟩ => ?_
  rcases lt_or_ge (risk.pairFactor rounding _ _) 1 with hlt | hlost
  · exact hnot ⟨hworker, hmeets, hlt, hunrecorded⟩
  · exact hpair ⟨hworker, hmeets, hunrecorded.1, hlost⟩

/-- Exact arithmetic loses no risk. -/
theorem risksKept_exact {lanes : List Lane} (h : LanesSound lanes) :
    RisksKept .exact risk (lanes.flatMap Lane.tests) := by
  refine List.pairwise_of_forall_mem_list fun a ha b hb ⟨_, hmeets, hrisk, hlost⟩ => ?_
  obtain ⟨-, -, -, hend, hpos⟩ := h.mem_flatMap ha
  obtain ⟨-, -, -, hend', hpos'⟩ := h.mem_flatMap hb
  have hshared := (overlap_pos_iff (hend ▸ lt_add_of_pos_right _ hpos)
    (hend' ▸ lt_add_of_pos_right _ hpos')).mpr hmeets
  exact absurd (risk.pairFactor_exact_lt_one hshared hrisk) (not_lt.mpr hlost)

end Placement

/-! ## Refinement with nothing to do -/

section Refinement

variable {risk : RiskIndex} {weight : ℚ} {lanes : List Lane}

/-- No lane that refinement looks at has idle time, and no swap gains anything. -/
structure Settled (risk : RiskIndex) (weight : ℚ) (lanes : List Lane) : Prop where
  packed : ∀ lane ∈ lanes, 1 < lane.tests.length → PackedFrom 0 lane.tests
  no_gain : ∀ worker < lanes.length, ∀ lane ∈ lanes[worker]?, ∀ i < lane.tests.length - 1,
    objective lanes risk weight ≤
      objective (swapAndReflow lanes worker i) risk weight + 1 / 1000000000

instance (risk : RiskIndex) (weight : ℚ) (lanes : List Lane) :
    Decidable (Settled risk weight lanes) :=
  decidable_of_iff (_ ∧ _) ⟨fun h => ⟨h.1, h.2⟩, fun h => ⟨h.packed, h.no_gain⟩⟩

/-- A trial on settled lanes leaves everything as it is. -/
theorem Settled.trySwap_eq (h : Settled risk weight lanes) (hsound : LanesSound lanes)
    {worker i : ℕ} {lane : Lane} (hlane : lanes[worker]? = some lane)
    (hi : i < lane.tests.length - 1) :
    trySwap risk weight worker ⟨lanes, objective lanes risk weight, false⟩ i =
      ⟨lanes, objective lanes risk weight, false⟩ := by
  have hgain := h.no_gain worker (List.getElem?_eq_some_iff.mp hlane).1 lane hlane i hi
  have hback : swapAndReflow (swapAndReflow lanes worker i) worker i = lanes := by
    rw [swapAndReflow_swapAndReflow]
    refine closeGaps_eq_self hsound fun lane' hlane' => ?_
    obtain rfl := Option.some.inj (hlane.symm.trans hlane')
    exact h.packed lane (List.mem_of_getElem? hlane) (by omega)
  rw [trySwap]
  dsimp only
  rw [if_neg (not_lt.mpr hgain), hback]

/-- Refinement leaves settled lanes as they are. -/
theorem Settled.refineRounds_eq (h : Settled risk weight lanes) (hsound : LanesSound lanes) :
    ∀ rounds : ℕ, refineRounds risk weight rounds lanes = lanes := by
  have hround : (List.range lanes.length).foldl (refineLane risk weight)
      ⟨lanes, objective lanes risk weight, false⟩ =
        ⟨lanes, objective lanes risk weight, false⟩ := by
    refine foldl_invariant (I := fun s : RefineState =>
      s = ⟨lanes, objective lanes risk weight, false⟩) rfl ?_
    rintro visit hvisit hstate
    rw [hstate, refineLane]
    rcases hlane : lanes[visit.2]? with _ | lane
    · rfl
    · dsimp only
      refine foldl_invariant (I := fun s : RefineState =>
      s = ⟨lanes, objective lanes risk weight, false⟩) rfl ?_
      rintro t ht hstate'
      rw [hstate']
      exact h.trySwap_eq hsound hlane (List.mem_range.mp (mem_of_mem_foldTrace ht))
  intro rounds
  rcases rounds with _ | rounds
  · rfl
  · simp only [refineRounds, refine, hround, Bool.false_eq_true, if_false]

/-! ## Refinement where everything is on record -/

/-- Every two tests on different workers that are risky together are recorded, whether or not
they overlap. -/
def AllRecorded (risk : RiskIndex) (lanes : List Lane) : Prop :=
  ∀ a ∈ lanes.flatMap Lane.tests, ∀ b ∈ lanes.flatMap Lane.tests, a.worker ≠ b.worker →
    ¬ risk.Unrecorded a b

instance (risk : RiskIndex) (lanes : List Lane) : Decidable (AllRecorded risk lanes) :=
  inferInstanceAs (Decidable (∀ a ∈ lanes.flatMap Lane.tests, _))

/-- What is on record does not depend on the instants. -/
theorem RiskIndex.unrecorded_untimed (risk : RiskIndex) (a b : ScheduledTest) :
    risk.Unrecorded a.untimed b.untimed ↔ risk.Unrecorded a b :=
  Iff.rfl

/-- A swap moves tests on their lane, and changes nothing else about them. -/
theorem exists_of_mem_swapAndReflow (h : LanesSound lanes) {worker i : ℕ} {t : ScheduledTest}
    (ht : t ∈ (swapAndReflow lanes worker i).flatMap Lane.tests) :
    ∃ u ∈ lanes.flatMap Lane.tests, t.untimed = u.untimed ∧ t.worker = u.worker := by
  obtain ⟨j, lane', hj, hmem⟩ := mem_flatMap_tests.mp ht
  by_cases hne : j = worker
  · subst hne
    rw [swapAndReflow, List.getElem?_modify_eq] at hj
    obtain ⟨lane, hlane, rfl⟩ := Option.map_eq_some_iff.mp hj
    have hsound : (reflow { lane with tests := swapAdjacent i lane.tests } j).Sound j :=
      reflow_sound j fun u hu =>
        (h j lane hlane).duration_pos u ((swapAdjacent_perm lane.tests i).subset hu)
    have hmapped := List.mem_map_of_mem (f := ScheduledTest.untimed) hmem
    rw [reflow_untimed] at hmapped
    obtain ⟨u, hu, huntimed⟩ := List.mem_map.mp hmapped
    have hold : u ∈ lane.tests := (swapAdjacent_perm lane.tests i).subset hu
    exact ⟨u, mem_flatMap_tests.mpr ⟨j, lane, hlane, hold⟩, huntimed.symm,
      (hsound.worker_eq t hmem).trans ((h j lane hlane).worker_eq u hold).symm⟩
  · rw [swapAndReflow, List.getElem?_modify_ne _ _ (Ne.symm hne)] at hj
    exact ⟨t, mem_flatMap_tests.mpr ⟨j, lane', hj, hmem⟩, rfl, rfl⟩

theorem AllRecorded.swapAndReflow (h : AllRecorded risk lanes) (hsound : LanesSound lanes)
    (worker i : ℕ) : AllRecorded risk (swapAndReflow lanes worker i) := by
  intro a ha b hb hworker hunrecorded
  obtain ⟨a', ha', hauntimed, haworker⟩ := exists_of_mem_swapAndReflow hsound ha
  obtain ⟨b', hb', hbuntimed, hbworker⟩ := exists_of_mem_swapAndReflow hsound hb
  rw [haworker, hbworker] at hworker
  rw [← risk.unrecorded_untimed, hauntimed, hbuntimed, risk.unrecorded_untimed] at hunrecorded
  exact h a' ha' b' hb' hworker hunrecorded

/-- What is on record stays on record, however the tests are moved. -/
theorem AllRecorded.explained_refineRounds {jobs : List Job} (h : AllRecorded risk lanes)
    (himpl : Implements jobs lanes) (rounds : ℕ) :
    Explained risk ((refineRounds risk weight rounds lanes).flatMap Lane.tests) := by
  have hkept : Implements jobs (refineRounds risk weight rounds lanes) ∧
      AllRecorded risk (refineRounds risk weight rounds lanes) :=
    refineRounds_lanes (I := fun lanes => Implements jobs lanes ∧ AllRecorded risk lanes)
      (fun _ worker i hI => ⟨hI.1.swapAndReflow worker i, hI.2.swapAndReflow hI.1.sound worker i⟩)
      rounds lanes ⟨himpl, h⟩
  exact List.pairwise_of_forall_mem_list fun a ha b hb ⟨hworker, _, hunrecorded⟩ =>
    hkept.2 a ha b hb hworker hunrecorded

end Refinement

/-! ## The plan that `Build` returns -/

/-- In the schedule that `Build` returns every risky overlap is recorded. -/
def Scheduler.PlanExplained (s : Scheduler) (rt : Runtime) (runID : String) (tests : List Test)
    (predictions : List Prediction) : Prop :=
  OnOk (newRiskIndex predictions) fun risk =>
    OnOk (s.build rt runID tests predictions) fun sched => Explained risk sched.tests

instance (s : Scheduler) (rt : Runtime) (runID : String) (tests : List Test)
    (predictions : List Prediction) : Decidable (s.PlanExplained rt runID tests predictions) :=
  inferInstanceAs (Decidable (OnOk _ _))

/-- Refinement does not run, or has nothing to do on the placed lanes, or finds everything that
it could bring together on record. -/
def Scheduler.RefinementHarmless (s : Scheduler) (risk : RiskIndex) (tests : List Test)
    (placed : List Lane) : Prop :=
  (64 < tests.length ∨ s.parameters.refinementRounds = 0) ∨
    Settled risk s.parameters.riskWeight placed ∨ AllRecorded risk placed

instance (s : Scheduler) (risk : RiskIndex) (tests : List Test) (placed : List Lane) :
    Decidable (s.RefinementHarmless risk tests placed) :=
  inferInstanceAs (Decidable (_ ∨ _ ∨ _))

/-- The placed lanes lose no risk to rounding, and refinement is harmless on them. -/
def Scheduler.KeepsExplanations (s : Scheduler) (rt : Runtime) (tests : List Test)
    (predictions : List Prediction) : Prop :=
  s.OncePlaced rt tests predictions fun risk placed =>
    RisksKept rt.rounding risk (placed.flatMap Lane.tests) ∧ s.RefinementHarmless risk tests placed

instance (s : Scheduler) (rt : Runtime) (tests : List Test) (predictions : List Prediction) :
    Decidable (s.KeepsExplanations rt tests predictions) :=
  inferInstanceAs (Decidable (s.OncePlaced rt tests predictions _))

section Plan

variable {s : Scheduler} {rt : Runtime} {tests : List Test} {predictions : List Prediction}

/-- The placement loop of `Build` hands sound lanes to refinement and misses nothing. -/
theorem noneMissed_placed :
    s.OncePlaced rt tests predictions fun risk placed =>
      LanesSound placed ∧ NoneMissed rt.rounding risk (placed.flatMap Lane.tests) := by
  intro risk hrisk placed hplaced
  obtain ⟨remaining, tie, p, hintake, hplace, rfl⟩ := place_eq_ok_inv hplaced
  have hinv := (drawn_of_intake (Drawn.empty rt.float64) hintake).1.inv s.workers.toNat
  have hbounded : (Context.mk s.parameters risk tie rt).risk.Bounded := bounded_newRiskIndex hrisk
  refine noneMissed_placeAll hbounded hinv ?_ hplace
  rw [flatMap_replicate_empty]
  exact List.Pairwise.nil

end Plan

end ConflictGraph.Go
