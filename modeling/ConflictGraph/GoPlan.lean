import Mathlib.Data.Multiset.Sym
import Mathlib.Algebra.BigOperators.Group.Multiset.Basic
import ConflictGraph.GoRefine

/-!
# The plan

`Build` puts the parts together: it indexes the predictions, places the tests,
refines the lanes, flattens and sorts them, and checks the result. The placement
loop establishes `Implements`, refinement keeps it, and a flattened plan inherits
from it everything a caller relies on.
-/

namespace ConflictGraph.Go

/-! ## Inputs that are accepted -/

/-- Predictions that all pass `Normalize` are indexed. -/
theorem exists_addPredictions {predictions : List Prediction}
    (h : ∀ p ∈ predictions, ∃ q, p.normalize = .ok q) :
    ∀ index : RiskIndex, ∃ risk, addPredictions index predictions = .ok risk := by
  induction predictions with
  | nil => exact fun index => ⟨index, rfl⟩
  | cons p rest ih =>
    intro index
    rw [List.forall_mem_cons] at h
    obtain ⟨⟨q, hq⟩, hrest⟩ := h
    obtain ⟨risk, hrisk⟩ := ih hrest (index.add q)
    refine ⟨risk, ?_⟩
    rw [addPredictions, hq]
    exact hrisk

/-- What `Build` needs of its scheduler to place every test. -/
structure Scheduler.Places (s : Scheduler) : Prop where
  workers_pos : 0 < s.workers
  policy_valid : s.policy.valid = true
  lookahead_pos : 0 < s.parameters.lookahead

theorem Scheduler.Admitted.places {s : Scheduler} (h : s.Admitted) : s.Places :=
  ⟨h.workers_pos, h.policy_valid, h.lookahead_pos⟩

/-- **The placement loop** places valid, distinct tests on sound lanes, one for each
worker. -/
theorem Scheduler.Places.place_eq_ok {s : Scheduler} (h : s.Places) (rt : Runtime)
    (risk : RiskIndex) {tests : List Test} (hvalid : ∀ t ∈ tests, t.validate = .ok ())
    (hnodup : (tests.map Test.id).Nodup) :
    ∃ lanes, s.place rt risk tests = .ok lanes ∧ Implements (tests.map Test.job) lanes ∧
      lanes.length = s.workers.toNat := by
  obtain ⟨tie, hintake⟩ := intake_eq_ok rt.float64 hvalid 0 [] PartialMap.empty hnodup
  have hworkers : List.replicate s.workers.toNat (Lane.mk [] 0) ≠ [] := by
    have hpos := h.workers_pos
    rw [← List.length_pos_iff, List.length_replicate]
    omega
  obtain ⟨q, hplace, hinv, hrem, hlen⟩ :=
    (Placement.Inv.init s.workers.toNat hvalid hnodup).placeAll
      ⟨s.parameters, risk, tie, rt⟩ h.lookahead_pos
        (tests.map Test.withDefaultDuration).length 0 _ hworkers le_rfl
  refine ⟨q.lanes, ?_, ⟨hinv.sound, ?_⟩, ?_⟩
  · rw [Scheduler.place, hintake]
    dsimp only
    rw [if_neg (not_lt.mpr h.workers_pos.le), List.nil_append, hplace]
  · have hjobs := hinv.jobs_perm
    rwa [hrem, List.map_nil, List.append_nil] at hjobs
  · rw [hlen, List.length_replicate]

/-- What a successful placement went through. -/
theorem place_eq_ok_inv {s : Scheduler} {rt : Runtime} {risk : RiskIndex} {tests : List Test}
    {lanes : List Lane} (h : s.place rt risk tests = .ok lanes) :
    ∃ remaining tie p, intake rt.float64 0 tests [] PartialMap.empty = .ok (remaining, tie) ∧
      (Context.mk s.parameters risk tie rt).placeAll remaining.length 0
        ⟨List.replicate s.workers.toNat ⟨[], 0⟩, remaining⟩ = .ok p ∧ p.lanes = lanes := by
  rw [Scheduler.place] at h
  rcases hintake : intake rt.float64 0 tests [] PartialMap.empty with text | ⟨remaining, tie⟩
  · simp only [hintake, reduceCtorEq] at h
  · by_cases hworkers : s.workers < 0
    · simp only [hintake, if_pos hworkers, reduceCtorEq] at h
    · rcases hplace : (Context.mk s.parameters risk tie rt).placeAll remaining.length 0
          ⟨List.replicate s.workers.toNat ⟨[], 0⟩, remaining⟩ with failure | p
      · simp only [hintake, if_neg hworkers, hplace, reduceCtorEq] at h
      · simp only [hintake, if_neg hworkers, hplace, Except.ok.injEq] at h
        exact ⟨remaining, tie, p, rfl, hplace, h⟩

/-- What a successful call of `Build` does after the placement. -/
theorem build_eq_ok_placed {s : Scheduler} {rt : Runtime} {runID : String} {tests : List Test}
    {predictions : List Prediction} {sched : Schedule}
    (h : s.build rt runID tests predictions = .ok sched) :
    ∃ risk placed, newRiskIndex predictions = .ok risk ∧ s.place rt risk tests = .ok placed ∧
      sched = s.result rt runID risk (s.refineLanes risk tests placed) := by
  rw [Scheduler.build] at h
  rcases hrisk : newRiskIndex predictions with text | risk
  · simp only [hrisk, reduceCtorEq] at h
  · rcases hplace : s.place rt risk tests with failure | placed
    · simp only [hrisk, hplace, reduceCtorEq] at h
    · refine ⟨risk, placed, rfl, hplace, ?_⟩
      simp only [hrisk, hplace] at h
      rcases hvalid : (s.result rt runID risk (s.refineLanes risk tests placed)).validate
          with text | accepted
      · simp only [hvalid, reduceCtorEq] at h
      · simp only [hvalid, Except.ok.injEq] at h
        exact h.symm

/-- What a successful call of `Build` went through. -/
theorem build_eq_ok_inv {s : Scheduler} {rt : Runtime} {runID : String} {tests : List Test}
    {predictions : List Prediction} {sched : Schedule}
    (h : s.build rt runID tests predictions = .ok sched) :
    ∃ risk remaining tie p, newRiskIndex predictions = .ok risk ∧
      intake rt.float64 0 tests [] PartialMap.empty = .ok (remaining, tie) ∧
      (Context.mk s.parameters risk tie rt).placeAll remaining.length 0
        ⟨List.replicate s.workers.toNat ⟨[], 0⟩, remaining⟩ = .ok p ∧
      sched = s.result rt runID risk (s.refineLanes risk tests p.lanes) := by
  obtain ⟨risk, placed, hrisk, hplace, hsched⟩ := build_eq_ok_placed h
  obtain ⟨remaining, tie, p, hintake, hplaceAll, rfl⟩ := place_eq_ok_inv hplace
  exact ⟨risk, remaining, tie, p, hrisk, hintake, hplaceAll, hsched⟩

/-! ## Lanes flattened -/

/-- Two tests that share a worker do not share an instant. -/
def ScheduledTest.Compatible (a b : ScheduledTest) : Prop :=
  a.worker = b.worker →
    ¬ Meets a.estimatedStart a.estimatedEnd b.estimatedStart b.estimatedEnd

theorem ScheduledTest.Compatible.symm {a b : ScheduledTest} (h : a.Compatible b) :
    b.Compatible a :=
  fun hworker hmeets => h hworker.symm hmeets.symm

/-- Tests of sound lanes are compatible. -/
theorem LanesSound.compatible {lanes : List Lane} (h : LanesSound lanes) :
    (lanes.flatMap Lane.tests).Pairwise ScheduledTest.Compatible := by
  rw [List.pairwise_flatMap]
  refine ⟨fun lane hlane => ?_, ?_⟩
  · obtain ⟨i, hi⟩ := List.mem_iff_getElem?.mp hlane
    refine (h i lane hi).chained.not_meets.imp ?_
    intro a b hnot _
    exact hnot
  · rw [List.pairwise_iff_getElem]
    intro i j hi hj hij a ha b hb hworker
    have hai := (h i _ (List.getElem?_eq_getElem hi)).worker_eq a ha
    have hbj := (h j _ (List.getElem?_eq_getElem hj)).worker_eq b hb
    rw [hai, hbj, Nat.cast_inj] at hworker
    omega

/-- What a sound lane says about its tests, said of the whole plan. -/
theorem LanesSound.mem_flatMap {lanes : List Lane} (h : LanesSound lanes) {t : ScheduledTest}
    (ht : t ∈ lanes.flatMap Lane.tests) :
    0 ≤ t.worker ∧ t.worker < lanes.length ∧ 0 ≤ t.estimatedStart ∧
      t.estimatedEnd = t.estimatedStart + t.estimatedDuration ∧ 0 < t.estimatedDuration := by
  obtain ⟨i, lane, hlane, hmem⟩ := mem_flatMap_tests.mp ht
  have hsound := h i lane hlane
  have hlt : i < lanes.length := (List.getElem?_eq_some_iff.mp hlane).1
  rw [hsound.worker_eq t hmem]
  exact ⟨Int.natCast_nonneg i, by exact_mod_cast hlt, hsound.start_nonneg t hmem,
    hsound.end_eq t hmem, hsound.duration_pos t hmem⟩

/-- The makespan is the latest end, and zero for a plan without tests. -/
theorem LanesSound.makespan_spec {lanes : List Lane} (h : LanesSound lanes) :
    (lanes.flatMap Lane.tests = [] ∧ makespan lanes = 0) ∨
      IsGreatest {x | ∃ t ∈ lanes.flatMap Lane.tests, t.estimatedEnd = x} (makespan lanes) := by
  obtain ⟨hmem, hbound⟩ := isGreatest_foldl_max Lane.endAt lanes 0
  have hle : ∀ t ∈ lanes.flatMap Lane.tests, t.estimatedEnd ≤ makespan lanes := by
    intro t ht
    obtain ⟨i, lane, hlane, hin⟩ := mem_flatMap_tests.mp ht
    exact ((h i lane hlane).end_le t hin).trans
      (hbound (Or.inr ⟨lane, List.mem_of_getElem? hlane, rfl⟩))
  by_cases hnil : lanes.flatMap Lane.tests = []
  · refine Or.inl ⟨hnil, ?_⟩
    rcases hmem with hzero | ⟨lane, hlane, hend⟩
    · exact hzero
    · obtain ⟨i, hi⟩ := List.mem_iff_getElem?.mp hlane
      rw [makespan, ← hend, (h i lane hi).endAt_eq, List.flatMap_eq_nil_iff.mp hnil lane hlane]
      rfl
  · refine Or.inr ⟨?_, fun x ⟨t, ht, hx⟩ => hx ▸ hle t ht⟩
    obtain ⟨t, ht⟩ := List.exists_mem_of_ne_nil _ hnil
    have hpos : 0 < makespan lanes := by
      obtain ⟨-, -, hstart, hend, hdur⟩ := h.mem_flatMap ht
      have hle := hle t ht
      linarith
    rcases hmem with hzero | ⟨lane, hlane, hend⟩
    · exact absurd hzero hpos.ne'
    · obtain ⟨i, hi⟩ := List.mem_iff_getElem?.mp hlane
      have hsound := h i lane hi
      rcases List.eq_nil_or_concat' lane.tests with hempty | ⟨init, last, hlast⟩
      · -- an empty lane ends at zero, which is not the makespan
        rw [hsound.endAt_eq, hempty, lastStop_nil] at hend
        exact absurd hend hpos.ne
      · refine ⟨last, List.mem_flatMap.mpr ⟨lane, hlane, ?_⟩, ?_⟩
        · rw [hlast]
          exact List.mem_append_right _ (List.mem_singleton_self last)
        · rw [makespan, ← hend, hsound.endAt_eq, hlast, lastStop_concat]

/-! ## Risk, independent of order -/

/-- The order of two tests is nothing to their risk. -/
theorem RiskIndex.probability_comm (risk : RiskIndex) (a b : String) :
    risk.probability a b = risk.probability b a := by
  by_cases h : a = b
  · rw [h]
  · rw [RiskIndex.probability, RiskIndex.probability, if_neg h, if_neg (Ne.symm h), pairKey_comm]

/-- What an unordered pair of tests contributes to the expected risk. -/
def RiskIndex.pairRisk (risk : RiskIndex) : Sym2 ScheduledTest → ℚ :=
  Sym2.lift ⟨fun a b =>
    if a.worker = b.worker then 0
    else
      overlap a.estimatedStart a.estimatedEnd b.estimatedStart b.estimatedEnd *
        risk.probability a.testID b.testID,
    fun a b => by
      simp only [eq_comm (a := a.worker), overlap_comm a.estimatedStart,
        risk.probability_comm a.testID]⟩

theorem RiskIndex.pairRisk_mk (risk : RiskIndex) (a b : ScheduledTest) :
    risk.pairRisk s(a, b) =
      if a.worker = b.worker then 0
      else
        overlap a.estimatedStart a.estimatedEnd b.estimatedStart b.estimatedEnd *
          risk.probability a.testID b.testID :=
  rfl

/-- The expected risk of a plan, which is a multiset of scheduled tests. -/
def RiskIndex.crossWorkerRisk (risk : RiskIndex) (plan : Multiset ScheduledTest) : ℚ :=
  (plan.sym2.map risk.pairRisk).sum

theorem foldl_scheduleRiskAgainst (left : ScheduledTest) (risk : RiskIndex)
    (rest : List ScheduledTest) :
    ∀ total : ℚ, rest.foldl (scheduleRiskAgainst left risk) total =
      total + (rest.map fun right => risk.pairRisk s(left, right)).sum := by
  induction rest with
  | nil => exact fun total => (add_zero total).symm
  | cons right rest ih =>
    intro total
    have hstep : scheduleRiskAgainst left risk total right =
        total + risk.pairRisk s(left, right) := by
      rw [scheduleRiskAgainst, RiskIndex.pairRisk_mk]
      by_cases h : left.worker = right.worker
      · rw [if_pos h, if_pos h, add_zero]
      · rw [if_neg h, if_neg h]
    rw [List.foldl_cons, ih, hstep, List.map_cons, List.sum_cons, add_assoc]

/-- The risk of a schedule is summed over its pairs. -/
theorem scheduleRiskFrom_eq (risk : RiskIndex) (tests : List ScheduledTest) :
    ∀ total : ℚ, scheduleRiskFrom risk total tests =
      total + (tests.sym2.map risk.pairRisk).sum := by
  induction tests with
  | nil => exact fun total => (add_zero total).symm
  | cons left rest ih =>
    intro total
    -- a test paired with itself shares its own worker
    have hself : risk.pairRisk s(left, left) = 0 := if_pos rfl
    rw [scheduleRiskFrom, ih, foldl_scheduleRiskAgainst, List.sym2, List.map_append,
      List.sum_append, List.map_cons, List.map_cons, List.sum_cons, hself, zero_add, List.map_map,
      add_assoc]
    rfl

/-- **The expected risk does not depend on the order of the plan.** -/
theorem scheduleRisk_eq (risk : RiskIndex) (tests : List ScheduledTest) :
    scheduleRisk tests risk = risk.crossWorkerRisk tests := by
  rw [scheduleRisk, scheduleRiskFrom_eq, zero_add]
  rfl

/-! ## The plan that `Build` returns -/

theorem startLess_eq_true {a b : ScheduledTest} :
    startLess a b = true ↔ a.estimatedStart < b.estimatedStart ∨
      a.estimatedStart = b.estimatedStart ∧ a.worker < b.worker := by
  rw [startLess]
  by_cases h : a.estimatedStart = b.estimatedStart
  · rw [if_pos h, decide_eq_true_eq, h]
    simp
  · rw [if_neg h, decide_eq_true_eq]
    simp [h]

theorem startLess_eq_false {a b : ScheduledTest} :
    startLess b a = false ↔ a.estimatedStart < b.estimatedStart ∨
      a.estimatedStart = b.estimatedStart ∧ a.worker ≤ b.worker := by
  rw [← Bool.not_eq_true, startLess_eq_true, not_or, not_lt, not_and, not_lt, le_iff_lt_or_eq]
  refine ⟨?_, ?_⟩
  · rintro ⟨hlt | heq, hworker⟩
    · exact Or.inl hlt
    · exact Or.inr ⟨heq, hworker heq.symm⟩
  · rintro (hlt | ⟨heq, hworker⟩)
    · exact ⟨Or.inl hlt, fun h => absurd h hlt.ne'⟩
    · exact ⟨Or.inr heq, fun _ => hworker⟩

/-- The plan is sorted by a comparison that `sort.Slice` accepts. -/
theorem startLess_strictOrder : StrictOrder startLess where
  irrefl a := startLess_eq_false.mpr (Or.inr ⟨rfl, le_refl _⟩)
  trans a b c hab hbc := by
    rw [startLess_eq_true] at *
    rcases hab with hab | ⟨hab, hab'⟩ <;> rcases hbc with hbc | ⟨hbc, hbc'⟩
    · exact Or.inl (hab.trans hbc)
    · exact Or.inl (hbc ▸ hab)
    · exact Or.inl (hab ▸ hbc)
    · exact Or.inr ⟨hab.trans hbc, hab'.trans hbc'⟩
  incomparable a b c hab hbc := by
    rw [startLess_eq_false] at *
    rcases hab with hab | ⟨hab, hab'⟩ <;> rcases hbc with hbc | ⟨hbc, hbc'⟩
    · exact Or.inl (hbc.trans hab)
    · exact Or.inl (hbc ▸ hab)
    · exact Or.inl (hab ▸ hbc)
    · exact Or.inr ⟨hbc.trans hab, hbc'.trans hab'⟩

/-- What a caller may rely on in a plan for the given tests. -/
structure Schedule.PlanFor (sched : Schedule) (s : Scheduler) (risk : RiskIndex)
    (tests : List Test) : Prop where
  workers_eq : sched.workers = s.workers
  /-- every test occurs exactly once, with its node and its duration -/
  jobs_perm : (sched.tests.map ScheduledTest.job).Perm (tests.map Test.job)
  worker_range : ∀ t ∈ sched.tests, 0 ≤ t.worker ∧ t.worker < sched.workers
  start_nonneg : ∀ t ∈ sched.tests, 0 ≤ t.estimatedStart
  end_eq : ∀ t ∈ sched.tests, t.estimatedEnd = t.estimatedStart + t.estimatedDuration
  duration_pos : ∀ t ∈ sched.tests, 0 < t.estimatedDuration
  /-- tests of one worker never overlap -/
  compatible : sched.tests.Pairwise ScheduledTest.Compatible
  /-- ordered by start, then by worker -/
  ordered : sched.tests.Pairwise fun a b =>
    a.estimatedStart < b.estimatedStart ∨
      a.estimatedStart = b.estimatedStart ∧ a.worker ≤ b.worker
  /-- the makespan is the latest end -/
  makespan_spec : (sched.tests = [] ∧ sched.expectedMakespan = 0) ∨
    IsGreatest {x | ∃ t ∈ sched.tests, t.estimatedEnd = x} sched.expectedMakespan
  risk_eq : sched.expectedRisk = risk.crossWorkerRisk sched.tests

section PlanFor

variable {s : Scheduler} {risk : RiskIndex} {tests : List Test} {sched : Schedule}

/-- The lanes of the right jobs, flattened and sorted, are a plan. -/
theorem Implements.planFor {lanes : List Lane} (h : Implements (tests.map Test.job) lanes)
    (hlen : (lanes.length : ℤ) = s.workers) (hperm : sched.tests.Perm (lanes.flatMap Lane.tests))
    (hsorted : sched.tests.Pairwise fun a b => startLess b a = false)
    (hworkers : sched.workers = s.workers) (hspan : sched.expectedMakespan = makespan lanes)
    (hrisk : sched.expectedRisk = scheduleRisk sched.tests risk) :
    sched.PlanFor s risk tests where
  workers_eq := hworkers
  jobs_perm := (hperm.map _).trans h.jobs_perm
  worker_range t ht := by
    obtain ⟨hlow, hhigh, -⟩ := h.sound.mem_flatMap (hperm.mem_iff.mp ht)
    rw [hlen, ← hworkers] at hhigh
    exact ⟨hlow, hhigh⟩
  start_nonneg t ht := (h.sound.mem_flatMap (hperm.mem_iff.mp ht)).2.2.1
  end_eq t ht := (h.sound.mem_flatMap (hperm.mem_iff.mp ht)).2.2.2.1
  duration_pos t ht := (h.sound.mem_flatMap (hperm.mem_iff.mp ht)).2.2.2.2
  compatible := (hperm.pairwise_iff fun h => h.symm).mpr h.sound.compatible
  ordered := hsorted.imp fun h => startLess_eq_false.mp h
  makespan_spec := by
    have hends : {x | ∃ t ∈ sched.tests, t.estimatedEnd = x} =
        {x | ∃ t ∈ lanes.flatMap Lane.tests, t.estimatedEnd = x} := by
      ext x
      exact exists_congr fun t => and_congr_left fun _ => hperm.mem_iff
    rw [hspan, hends]
    rcases h.sound.makespan_spec with ⟨hnil, hzero⟩ | hgreatest
    · rw [hnil] at hperm
      exact Or.inl ⟨hperm.eq_nil, hzero⟩
    · exact Or.inr hgreatest
  risk_eq := hrisk.trans (scheduleRisk_eq risk sched.tests)

/-- A plan passes `Schedule.Validate`. -/
theorem Schedule.PlanFor.validate (h : sched.PlanFor s risk tests) (hs : s.Places)
    (hnodup : (tests.map Test.id).Nodup) (hpolicy : sched.policy = s.policy) (hid : sched.id ≠ "")
    (hrunID : sched.runID ≠ "") : sched.validate = .ok () := by
  have hids : (sched.tests.map ScheduledTest.testID).Nodup := by
    have hjobs := h.jobs_perm.map Job.id
    rw [List.map_map, List.map_map] at hjobs
    exact hjobs.nodup_iff.mpr hnodup
  have hvalid : validateTests sched.workers [] sched.tests = .ok () := by
    rw [validateTests_eq_ok]
    refine ⟨fun t ht => ⟨(h.worker_range t ht).1, (h.worker_range t ht).2, h.start_nonneg t ht, ?_,
      List.not_mem_nil⟩, hids⟩
    rw [h.end_eq t ht]
    exact le_add_of_nonneg_right (h.duration_pos t ht).le
  rw [Schedule.validate, if_neg (not_or.mpr ⟨hid, hrunID⟩), h.workers_eq,
    if_neg (not_le.mpr hs.workers_pos), hpolicy, hs.policy_valid, if_neg Bool.noConfusion,
    ← h.workers_eq, hvalid]

end PlanFor

/-- A scheduler that can place every test returns a plan for valid, distinct tests and valid
predictions. -/
theorem Scheduler.Places.exists_build {s : Scheduler} (h : s.Places) (rt : Runtime)
    (runID : String) {tests : List Test} {predictions : List Prediction}
    (hvalid : ∀ t ∈ tests, t.validate = .ok ()) (hnodup : (tests.map Test.id).Nodup)
    (hpredictions : ∀ p ∈ predictions, ∃ q, p.normalize = .ok q) :
    ∃ risk sched, newRiskIndex predictions = .ok risk ∧
      s.build rt runID tests predictions = .ok sched ∧ sched.PlanFor s risk tests := by
  obtain ⟨risk, hrisk⟩ := exists_addPredictions hpredictions ⟨PartialMap.empty⟩
  obtain ⟨placed, hplaced, himpl, hlen⟩ := h.place_eq_ok rt risk hvalid hnodup
  have hlen' : ((s.refineLanes risk tests placed).length : ℤ) = s.workers := by
    rw [length_refineLanes, hlen, Int.toNat_of_nonneg h.workers_pos.le]
  have hrunID : (if runID = "" then rt.runUUID else runID) ≠ "" := by
    by_cases hempty : runID = ""
    · rw [if_pos hempty]
      exact rt.runUUID_ne
    · rw [if_neg hempty]
      exact hempty
  have hplan : (s.result rt runID risk (s.refineLanes risk tests placed)).PlanFor s risk tests :=
    (himpl.refineLanes s risk tests).planFor hlen' (rt.sortSlice_perm startLess _)
      (rt.sortSlice_sorted startLess_strictOrder _) rfl rfl rfl
  refine ⟨risk, _, hrisk, ?_, hplan⟩
  rw [Scheduler.build, newRiskIndex, hrisk]
  dsimp only
  rw [hplaced]
  dsimp only
  rw [hplan.validate h hnodup rfl rt.scheduleUUID_ne hrunID]

/-- **Plan validity.** An admitted scheduler returns a plan for valid, distinct tests
and valid predictions, whatever the runtime chooses. -/
theorem Scheduler.Admitted.build_eq_ok {s : Scheduler} (h : s.Admitted) (rt : Runtime)
    (runID : String) {tests : List Test} {predictions : List Prediction}
    (hvalid : ∀ t ∈ tests, t.validate = .ok ()) (hnodup : (tests.map Test.id).Nodup)
    (hpredictions : ∀ p ∈ predictions, ∃ q, p.normalize = .ok q) :
    ∃ risk sched, newRiskIndex predictions = .ok risk ∧
      s.build rt runID tests predictions = .ok sched ∧ sched.PlanFor s risk tests :=
  h.places.exists_build rt runID hvalid hnodup hpredictions

/-- Three tests on two workers, two of which must not overlap. -/
theorem build_eq_ok_balanced :
    ∃ risk sched, newRiskIndex [.certain "a" "b"] = .ok risk ∧
      Scheduler.balanced.build .reference "run"
        [.lasting "a" 10, .lasting "b" 8, .lasting "c" 0] [.certain "a" "b"] = .ok sched ∧
      sched.PlanFor .balanced risk [.lasting "a" 10, .lasting "b" 8, .lasting "c" 0] :=
  Scheduler.Admitted.build_eq_ok (by decide +kernel) .reference "run" (by decide +kernel)
    (by decide +kernel) (List.forall_mem_singleton.mpr ⟨.certain "a" "b", by decide +kernel⟩)

end ConflictGraph.Go
