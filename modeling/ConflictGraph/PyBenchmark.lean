import Mathlib.Tactic.FieldSimp
import ConflictGraph.PyPlan
import ConflictGraph.Workload

/-!
# The benchmark's figures

`simulate_schedule` of `benchmark.py` runs a schedule against a synthetic world, and the two
schedulers that the conflict scheduler is measured against: `RandomScheduler`, which takes
the worker that is free first from a heap, and `SerialScheduler`, which has one worker and a
cursor. All three schedulers give plans that some workers can carry out (`Feasible`), so the
workers are never busy for more than the whole time; the counter of the failures goes up
exactly when the set of failed tests grows.
-/

namespace ConflictGraph.Py

/-! ## The other schedulers -/

structure RandomScheduler : Type where
  workers : ℤ
  seed : ℤ := 42
  deriving DecidableEq

/-- `heapq.heappop`: the least entry and the rest of the heap. -/
def heappop (heap : List (ℚ × ℕ)) : Except Exception ((ℚ × ℕ) × List (ℚ × ℕ)) :=
  (heap.argmin fun entry => toLex entry).elim (.error ⟨.indexError, "index out of range"⟩)
    fun least => .ok (least, heap.erase least)

/-- `run_id or str(uuid.uuid4())`. -/
def Runtime.runIDFor (rt : Runtime) (runID : Option String) : String :=
  runID.elim rt.runUUID fun text => if text = "" then rt.runUUID else text

/-- `ScheduledTest(test.id, test.node_id, worker, start, start + duration, duration)`. -/
def scheduledAt (stats : PartialMap String TestStats) (test : TestIdentity) (worker : ℕ)
    (start : ℚ) : ScheduledTest where
  testID := test.id
  nodeID := test.nodeID
  worker := worker
  estimatedStart := start
  estimatedEnd := start + durationOf stats test.id
  estimatedDuration := durationOf stats test.id

namespace RandomScheduler

/-- The variables of the loop of `schedule`. -/
structure State : Type where
  heap : List (ℚ × ℕ)
  lanes : List ScheduledTest

/-- The body of the loop. -/
def place (stats : PartialMap String TestStats) (s : State) (test : TestIdentity) :
    Except Exception State :=
  (heappop s.heap).map fun popped =>
    let scheduled := scheduledAt stats test popped.1.2 popped.1.1
    ⟨(scheduled.estimatedEnd, popped.1.2) :: popped.2, s.lanes ++ [scheduled]⟩

/-- `schedule`; `shuffle` is `random.Random(seed).shuffle`. -/
def schedule (r : RandomScheduler) (rt : Runtime)
    (shuffle : ℤ → List TestIdentity → List TestIdentity) (tests : List TestIdentity)
    (stats : PartialMap String TestStats) (runID : Option String) : Except Exception Schedule := do
  let s ← (shuffle r.seed tests).foldlM (place stats)
    ⟨(List.range r.workers.toNat).map fun worker => (0, worker), []⟩
  return {
    id := rt.scheduleUUID, runID := rt.runIDFor runID, workers := r.workers,
    policy := .aggressive, tests := s.lanes, schedulerLatencyMS := rt.elapsedMS,
    expectedMakespan := makespan s.lanes, expectedRisk := 0, seed := r.seed }

end RandomScheduler

namespace SerialScheduler

/-- The body of the loop of `schedule`, which keeps the cursor and the tests so far. -/
def place (stats : PartialMap String TestStats) (s : ℚ × List ScheduledTest)
    (test : TestIdentity) : ℚ × List ScheduledTest :=
  (s.1 + durationOf stats test.id, s.2 ++ [scheduledAt stats test 0 s.1])

/-- `schedule`. -/
def schedule (rt : Runtime) (tests : List TestIdentity) (stats : PartialMap String TestStats)
    (runID : Option String) : Schedule :=
  let s := tests.foldl (place stats) (0, [])
  { id := rt.scheduleUUID, runID := rt.runIDFor runID, workers := 1, policy := .safe,
    tests := s.2, schedulerLatencyMS := rt.elapsedMS, expectedMakespan := s.1,
    expectedRisk := 0, seed := 0 }

end SerialScheduler

/-! ## The simulation -/

/-- What `simulate_schedule` looks at in a world: how likely two tests are to disturb one
another. -/
structure SyntheticWorld : Type where
  probabilities : PartialMap (String × String) ℚ

structure TrialResult : Type where
  scheduler : String
  trial : ℤ
  seed : ℤ
  workers : ℤ
  tests : ℕ
  failures : ℕ
  conflictFailures : ℕ
  flakeRate : ℚ
  makespanSeconds : ℚ
  workerUtilization : ℚ
  averageActiveWorkers : ℚ
  expectedRiskExposure : ℚ
  conflictingOverlaps : ℕ
  unnecessarySerializationRate : ℚ
  schedulerOverheadMS : ℚ
  deriving DecidableEq

/-- The variables of the double loop, and how many draws it has taken. -/
structure TrialState : Type where
  failures : Finset String := ∅
  conflictFailures : ℕ := 0
  conflictingOverlaps : ℕ := 0
  riskExposure : ℚ := 0
  drawn : ℕ := 0

namespace SyntheticWorld

variable (world : SyntheticWorld) (draw : ℕ → ℚ)

/-- What follows on a conflicting overlap: perhaps one of the two tests fails. -/
def disturb (s : TrialState) (left right : ScheduledTest) (threat : ℚ) : TrialState :=
  let s := { s with
    conflictingOverlaps := s.conflictingOverlaps + 1
    riskExposure := s.riskExposure + threat }
  -- the first draw decides whether a test fails, a second one which of the two
  if draw s.drawn < threat then
    let victim := if draw (s.drawn + 1) < 1 / 2 then left.testID else right.testID
    { s with
      drawn := s.drawn + 2
      conflictFailures := if victim ∈ s.failures then s.conflictFailures else s.conflictFailures + 1
      failures := insert victim s.failures }
  else { s with drawn := s.drawn + 1 }

/-- The inner loop of `simulate_schedule`. -/
def meet (left : ScheduledTest) (s : TrialState) (right : ScheduledTest) : TrialState :=
  if left.worker = right.worker then s
  else
    let shared := overlap left.estimatedStart left.estimatedEnd right.estimatedStart
      right.estimatedEnd
    if shared ≤ 0 then s
    else
      -- a pair that the world does not know disturbs nobody
      let probability := (world.probabilities (stablePair left.testID right.testID)).getD 0
      if probability = 0 then s
      else
        let exposure := min 1
          (shared / max (1 / 1000) (min left.estimatedDuration right.estimatedDuration))
        disturb draw s left right (probability * exposure)

/-- The outer loop of `simulate_schedule`. -/
def meetAll : TrialState → List ScheduledTest → TrialState
  | s, [] => s
  | s, left :: rest => meetAll (rest.foldl (world.meet draw left) s) rest

end SyntheticWorld

/-- `simulate_schedule`; `draw` are the draws of `random.Random(seed)`. -/
def simulateSchedule (sched : Schedule) (world : SyntheticWorld) (trial seed : ℤ)
    (schedulerName : String) (draw : ℕ → ℚ) : TrialResult :=
  let tests := sched.tests
  let s := world.meetAll draw {} tests
  let span := makespan tests
  let work := (tests.map ScheduledTest.estimatedDuration).sum
  let utilization := if span = 0 then 0 else work / (span * sched.workers)
  let averageActive := if span = 0 then 0 else work / span
  let ideal := if sched.workers = 0 then work else work / sched.workers
  let serialization := if span = 0 then 0 else max 0 (span - ideal) / span
  { scheduler := schedulerName, trial := trial, seed := seed, workers := sched.workers,
    tests := tests.length, failures := s.failures.card, conflictFailures := s.conflictFailures,
    flakeRate := if tests = [] then 0 else (s.failures.card : ℚ) / tests.length,
    makespanSeconds := span, workerUtilization := utilization,
    averageActiveWorkers := averageActive, expectedRiskExposure := s.riskExposure,
    conflictingOverlaps := s.conflictingOverlaps, unnecessarySerializationRate := serialization,
    schedulerOverheadMS := sched.schedulerLatencyMS }

/-! ## Plans that can be carried out -/

/-- So many workers can carry out the plan: each does one thing at a time. -/
structure Feasible (workers : ℤ) (tests : List ScheduledTest) : Prop where
  worker_range : ∀ t ∈ tests, 0 ≤ t.worker ∧ t.worker < workers
  start_nonneg : ∀ t ∈ tests, 0 ≤ t.estimatedStart
  end_eq : ∀ t ∈ tests, t.estimatedEnd = t.estimatedStart + t.estimatedDuration
  duration_pos : ∀ t ∈ tests, 0 < t.estimatedDuration
  compatible : tests.Pairwise fun a b => a.worker = b.worker →
    ¬ Meets a.estimatedStart a.estimatedEnd b.estimatedStart b.estimatedEnd

namespace Feasible

variable {workers : ℤ} {tests : List ScheduledTest}

theorem nil (workers : ℤ) : Feasible workers [] :=
  ⟨List.forall_mem_nil _, List.forall_mem_nil _, List.forall_mem_nil _, List.forall_mem_nil _,
    List.Pairwise.nil⟩

/-- A test can be added when its worker has done what it had to. -/
theorem concat (h : Feasible workers tests) (stats : PartialMap String TestStats)
    (test : TestIdentity) {worker : ℕ} {start : ℚ} (hworker : (worker : ℤ) < workers)
    (hstart : 0 ≤ start)
    (hbusy : ∀ t ∈ tests, t.worker = worker → t.estimatedEnd ≤ start) :
    Feasible workers (tests ++ [scheduledAt stats test worker start]) where
  worker_range := List.forall_mem_append.mpr
    ⟨h.worker_range, List.forall_mem_singleton.mpr ⟨Int.natCast_nonneg worker, hworker⟩⟩
  start_nonneg := List.forall_mem_append.mpr
    ⟨h.start_nonneg, List.forall_mem_singleton.mpr hstart⟩
  end_eq := List.forall_mem_append.mpr ⟨h.end_eq, List.forall_mem_singleton.mpr rfl⟩
  duration_pos := List.forall_mem_append.mpr
    ⟨h.duration_pos, List.forall_mem_singleton.mpr (durationOf_pos stats test.id)⟩
  compatible := by
    refine List.pairwise_append.mpr ⟨h.compatible, List.pairwise_singleton .., ?_⟩
    intro t ht t' ht' hsame
    rw [List.mem_singleton.mp ht'] at hsame ⊢
    exact not_meets_of_le (hbusy t ht hsame)

theorem start_lt_end (h : Feasible workers tests) :
    ∀ t ∈ tests, t.estimatedStart < t.estimatedEnd := by
  intro t ht
  rw [h.end_eq t ht]
  exact lt_add_of_pos_right _ (h.duration_pos t ht)

end Feasible

/-- A plan of `static_schedule` can be carried out. -/
theorem Schedule.PlanFor.feasible {sched : Schedule} {workers : ℤ}
    {stats : PartialMap String TestStats} {risk : RiskIndex} {tests : List TestIdentity}
    (h : sched.PlanFor workers stats risk tests) : Feasible workers sched.tests where
  worker_range := h.worker_range
  start_nonneg := h.start_nonneg
  end_eq := h.end_eq
  duration_pos t ht := by
    rw [h.duration_eq t ht]
    exact durationOf_pos stats t.testID
  compatible := h.compatible

/-! ## The heap of workers -/

/-- What the loop of `RandomScheduler.schedule` keeps: the heap has each worker once, with
an instant by which the worker has done what it had to. -/
structure RandomScheduler.State.Inv (workers : ℕ) (s : RandomScheduler.State) : Prop where
  feasible : Feasible workers s.lanes
  keys : (s.heap.map Prod.snd).Perm (List.range workers)
  nonneg : ∀ entry ∈ s.heap, 0 ≤ entry.1
  busy : ∀ entry ∈ s.heap, ∀ t ∈ s.lanes, t.worker = entry.2 → t.estimatedEnd ≤ entry.1

/-- The heap is what is popped, and the rest. -/
theorem heappop_perm {heap rest : List (ℚ × ℕ)} {least : ℚ × ℕ}
    (h : heappop heap = .ok (least, rest)) : heap.Perm (least :: rest) := by
  rw [heappop] at h
  rcases hmin : heap.argmin fun entry => toLex entry with _ | entry
  · simp only [hmin, Option.elim_none, reduceCtorEq] at h
  · simp only [hmin, Option.elim_some, Except.ok.injEq, Prod.mk.injEq] at h
    obtain ⟨rfl, rfl⟩ := h
    exact List.perm_cons_erase (List.argmin_mem hmin)

/-- Placing a test keeps the heap and the lanes in step. -/
theorem RandomScheduler.State.Inv.place {stats : PartialMap String TestStats} {workers : ℕ}
    {s s' : RandomScheduler.State} {test : TestIdentity} (h : s.Inv workers)
    (hplace : RandomScheduler.place stats s test = .ok s') : s'.Inv workers := by
  obtain ⟨⟨⟨start, worker⟩, rest⟩, hpop, rfl⟩ := eq_ok_of_map_eq_ok hplace
  have hperm := heappop_perm hpop
  have hentry : (start, worker) ∈ s.heap := hperm.mem_iff.mpr List.mem_cons_self
  have hrest : ∀ entry ∈ rest, entry ∈ s.heap :=
    fun entry hmem => hperm.mem_iff.mpr (List.mem_cons_of_mem _ hmem)
  have hkeys := (hperm.map Prod.snd).symm.trans h.keys
  have hworker : worker < workers := List.mem_range.mp (hkeys.mem_iff.mp List.mem_cons_self)
  -- the heap has each worker once
  have hother : ∀ entry ∈ rest, entry.2 ≠ worker := by
    intro entry hmem heq
    have hnodup := hkeys.nodup_iff.mpr List.nodup_range
    rw [List.map_cons, List.nodup_cons] at hnodup
    exact hnodup.1 (List.mem_map.mpr ⟨entry, hmem, heq⟩)
  have hpos := durationOf_pos stats test.id
  refine ⟨h.feasible.concat stats test (by exact_mod_cast hworker) (h.nonneg _ hentry)
    (h.busy _ hentry), hkeys, ?_, ?_⟩
  · refine List.forall_mem_cons.mpr ⟨?_, fun entry hmem => h.nonneg entry (hrest entry hmem)⟩
    exact add_nonneg (h.nonneg _ hentry) hpos.le
  · refine List.forall_mem_cons.mpr ⟨fun t ht hsame => ?_, fun entry hmem t ht hsame => ?_⟩
    · rcases List.mem_append.mp ht with hold | hnew
      · exact (h.busy _ hentry t hold hsame).trans (le_add_of_nonneg_right hpos.le)
      · rw [List.mem_singleton.mp hnew]
    -- the new test is on the worker that was popped
    · rcases List.mem_append.mp ht with hold | hnew
      · exact h.busy entry (hrest entry hmem) t hold hsame
      · rw [List.mem_singleton.mp hnew] at hsame
        exact absurd (Int.natCast_inj.mp hsame).symm (hother entry hmem)

theorem RandomScheduler.length_lanes_of_place {stats : PartialMap String TestStats}
    {s s' : RandomScheduler.State} {test : TestIdentity}
    (hplace : RandomScheduler.place stats s test = .ok s') :
    s'.lanes.length = s.lanes.length + 1 := by
  obtain ⟨popped, -, rfl⟩ := eq_ok_of_map_eq_ok hplace
  exact List.length_append

/-- **A random schedule is feasible**, and has all the tests. -/
theorem RandomScheduler.schedule_feasible {r : RandomScheduler} {rt : Runtime}
    {shuffle : ℤ → List TestIdentity → List TestIdentity} {tests : List TestIdentity}
    {stats : PartialMap String TestStats} {runID : Option String} {sched : Schedule}
    (hworkers : 1 ≤ r.workers) (h : r.schedule rt shuffle tests stats runID = .ok sched) :
    sched.workers = r.workers ∧ Feasible r.workers sched.tests ∧
      sched.tests.length = (shuffle r.seed tests).length := by
  obtain ⟨s, hrun, hsched⟩ := bind_eq_ok_iff.mp h
  obtain rfl := Except.ok.inj hsched
  have hinit : RandomScheduler.State.Inv r.workers.toNat
      ⟨(List.range r.workers.toNat).map fun worker => (0, worker), []⟩ := by
    refine ⟨.nil _, ?_, ?_, fun _ _ => List.forall_mem_nil _⟩
    · simp
    · simp
  have hinv := @foldlM_invariant _ _ _ (RandomScheduler.place stats)
    (fun done s => RandomScheduler.State.Inv r.workers.toNat s ∧ s.lanes.length = done.length)
    (fun hs hplace => ⟨hs.1.place hplace, by
      rw [RandomScheduler.length_lanes_of_place hplace, hs.2, List.length_append,
        List.length_singleton]⟩) _ [] _ _ ⟨hinit, rfl⟩ hrun
  refine ⟨rfl, ?_, hinv.2⟩
  have hfeasible := hinv.1.feasible
  rwa [Int.toNat_of_nonneg (by omega)] at hfeasible

/-! ## The cursor -/

/-- What the loop of `SerialScheduler.schedule` keeps. -/
structure SerialScheduler.Inv (done : List TestIdentity) (s : ℚ × List ScheduledTest) :
    Prop where
  feasible : Feasible 1 s.2
  cursor_nonneg : 0 ≤ s.1
  ends_le : ∀ t ∈ s.2, t.estimatedEnd ≤ s.1
  length_eq : s.2.length = done.length

/-- One test after the other. -/
theorem SerialScheduler.Inv.place {done : List TestIdentity} {s : ℚ × List ScheduledTest}
    (h : SerialScheduler.Inv done s) (stats : PartialMap String TestStats) (test : TestIdentity) :
    SerialScheduler.Inv (done ++ [test]) (SerialScheduler.place stats s test) := by
  have hpos := durationOf_pos stats test.id
  constructor
  · exact h.feasible.concat stats test Int.one_pos h.cursor_nonneg fun t ht _ => h.ends_le t ht
  · exact add_nonneg h.cursor_nonneg hpos.le
  · refine List.forall_mem_append.mpr ⟨fun t ht => ?_, List.forall_mem_singleton.mpr le_rfl⟩
    exact (h.ends_le t ht).trans (le_add_of_nonneg_right hpos.le)
  · simp [SerialScheduler.place, h.length_eq]

/-- The serial plan can be carried out by one worker. -/
theorem SerialScheduler.schedule_feasible (rt : Runtime) (tests : List TestIdentity)
    (stats : PartialMap String TestStats) (runID : Option String) :
    Feasible 1 (SerialScheduler.schedule rt tests stats runID).tests ∧
      (SerialScheduler.schedule rt tests stats runID).tests.length = tests.length := by
  have hrun : SerialScheduler.Inv tests (tests.foldl (SerialScheduler.place stats) (0, [])) := by
    refine foldl_prefix_invariant ?_ fun _ hdone => hdone.place stats _
    exact ⟨.nil 1, le_rfl, List.forall_mem_nil _, rfl⟩
  exact ⟨hrun.feasible, hrun.length_eq⟩

/-! ## The counters -/

/-- What the double loop keeps: `conflict_failures` counts the failed tests, each of them a
test of the plan. -/
structure TrialState.Counts (ids : List String) (s : TrialState) : Prop where
  count_eq : s.conflictFailures = s.failures.card
  subset : s.failures ⊆ ids.toFinset

namespace SyntheticWorld

variable {world : SyntheticWorld} {draw : ℕ → ℚ} {ids : List String} {s : TrialState}
  {left right : ScheduledTest}

/-- A disturbance is counted for a test of the schedule. -/
theorem disturb_counts (h : s.Counts ids) (hleft : left.testID ∈ ids) (hright : right.testID ∈ ids)
    (threat : ℚ) : (disturb draw s left right threat).Counts ids := by
  rw [disturb]
  dsimp only
  split
  · set victim := if draw (s.drawn + 1) < 1 / 2 then left.testID else right.testID with hvictim
    have hmem : victim ∈ ids := by
      rw [hvictim]
      split
      · exact hleft
      · exact hright
    refine ⟨?_, Finset.insert_subset (List.mem_toFinset.mpr hmem) h.subset⟩
    by_cases hfailed : victim ∈ s.failures
    · simp [hfailed, h.count_eq]
    · simp [hfailed, h.count_eq]
  · exact ⟨h.count_eq, h.subset⟩

theorem meet_counts (h : s.Counts ids) (hleft : left.testID ∈ ids) (hright : right.testID ∈ ids) :
    (world.meet draw left s right).Counts ids := by
  rw [meet]
  dsimp only
  split_ifs
  · exact h
  · exact h
  · exact h
  · exact disturb_counts h hleft hright _

theorem meet_eq_of_worker (h : left.worker = right.worker) :
    world.meet draw left s right = s := by
  rw [meet, if_pos h]

/-- So are all that come of the meetings. -/
theorem meetAll_counts {tests : List ScheduledTest} (hids : ∀ t ∈ tests, t.testID ∈ ids) :
    ∀ {s : TrialState}, s.Counts ids → (world.meetAll draw s tests).Counts ids := by
  induction tests with
  | nil => exact fun h => h
  | cons left rest ih =>
    intro s h
    rw [List.forall_mem_cons] at hids
    refine ih hids.2 (foldl_invariant (I := TrialState.Counts ids) h fun t ht hbefore => ?_)
    exact meet_counts hbefore hids.1 (hids.2 _ (mem_of_mem_foldTrace ht))

/-- Tests of one worker never disturb one another. -/
theorem meetAll_eq_of_worker {worker : ℤ} {tests : List ScheduledTest}
    (hworker : ∀ t ∈ tests, t.worker = worker) :
    ∀ s : TrialState, world.meetAll draw s tests = s := by
  induction tests with
  | nil => exact fun _ => rfl
  | cons left rest ih =>
    intro s
    rw [List.forall_mem_cons] at hworker
    have hinner : rest.foldl (world.meet draw left) s = s := by
      refine foldl_invariant (I := fun after => after = s) rfl fun t ht hbefore => ?_
      have hright := hworker.2 _ (mem_of_mem_foldTrace ht)
      rw [meet_eq_of_worker (hworker.1.trans hright.symm)]
      exact hbefore
    rw [meetAll, hinner]
    exact ih hworker.2 s

end SyntheticWorld

/-! ## Figures that are possible -/

/-- What can be said of the figures of a trial with so many tests. -/
structure TrialResult.Possible (r : TrialResult) (tests : ℕ) : Prop where
  utilization_mem : 0 ≤ r.workerUtilization ∧ r.workerUtilization ≤ 1
  serialization_eq : 0 < r.makespanSeconds →
    r.unnecessarySerializationRate = 1 - r.workerUtilization
  failures_eq : r.failures = r.conflictFailures
  failures_le : r.failures ≤ tests

/-- The workers are busy for no longer than there is time. -/
theorem Feasible.work_le {workers : ℤ} {tests : List ScheduledTest} (h : Feasible workers tests)
    (hworkers : 1 ≤ workers) :
    (tests.map ScheduledTest.estimatedDuration).sum ≤ workers * makespan tests := by
  rcases makespan_spec tests with ⟨rfl, hzero⟩ | hgreatest
  · simp [hzero]
  · have hstop : ∀ t ∈ tests, t.estimatedEnd ≤ makespan tests :=
      fun t ht => hgreatest.2 ⟨t, ht, rfl⟩
    have hspan : 0 ≤ makespan tests := by
      obtain ⟨t, ht, hlast⟩ := hgreatest.1
      rw [← hlast]
      exact (h.start_nonneg t ht).trans (h.start_lt_end t ht).le
    have hlen : ∀ t ∈ tests, t.estimatedEnd - t.estimatedStart = t.estimatedDuration := by
      intro t ht
      rw [h.end_eq t ht]
      exact add_sub_cancel_left _ _
    obtain ⟨n, rfl⟩ : ∃ n : ℕ, workers = n := ⟨workers.toNat, by omega⟩
    rw [← List.map_congr_left hlen]
    exact_mod_cast sum_le_workers hspan h.worker_range h.start_lt_end h.start_nonneg hstop
      h.compatible

theorem Feasible.work_nonneg {workers : ℤ} {tests : List ScheduledTest}
    (h : Feasible workers tests) : 0 ≤ (tests.map ScheduledTest.estimatedDuration).sum := by
  refine List.sum_nonneg fun x hx => ?_
  obtain ⟨t, ht, rfl⟩ := List.mem_map.mp hx
  exact (h.duration_pos t ht).le

/-- The figures of a plan that can be carried out. -/
theorem Feasible.possible {sched : Schedule} (h : Feasible sched.workers sched.tests)
    (hworkers : 1 ≤ sched.workers) (world : SyntheticWorld) (trial seed : ℤ) (name : String)
    (draw : ℕ → ℚ) :
    (simulateSchedule sched world trial seed name draw).Possible sched.tests.length := by
  have hwork := h.work_le hworkers
  have hnonneg := h.work_nonneg
  have hpos : (0 : ℚ) < sched.workers := by exact_mod_cast hworkers
  have hcounts : (world.meetAll draw {} sched.tests).Counts
      (sched.tests.map ScheduledTest.testID) :=
    SyntheticWorld.meetAll_counts (fun t ht => List.mem_map_of_mem ht)
      ⟨rfl, Finset.empty_subset _⟩
  constructor
  · simp only [simulateSchedule]
    split_ifs with hspan
    · exact ⟨le_rfl, zero_le_one⟩
    -- the workers have worked, so some time has passed
    · have hspan : 0 < makespan sched.tests :=
        ((mul_nonneg_iff_of_pos_left hpos).mp (hnonneg.trans hwork)).lt_of_ne' hspan
      have hall := mul_pos hspan hpos
      exact ⟨div_nonneg hnonneg hall.le, (div_le_one hall).mpr (by rwa [mul_comm])⟩
  · intro hspan
    replace hspan : 0 < makespan sched.tests := hspan
    have hideal : (sched.tests.map ScheduledTest.estimatedDuration).sum / sched.workers ≤
        makespan sched.tests := (div_le_iff₀' hpos).mpr hwork
    have hne : sched.workers ≠ 0 := by omega
    simp only [simulateSchedule, if_neg hspan.ne', if_neg hne, max_eq_right (sub_nonneg.mpr hideal)]
    field_simp
  · exact hcounts.count_eq.symm
  · calc (world.meetAll draw {} sched.tests).failures.card
        ≤ (sched.tests.map ScheduledTest.testID).toFinset.card :=
          Finset.card_le_card hcounts.subset
      _ ≤ (sched.tests.map ScheduledTest.testID).length := List.toFinset_card_le _
      _ = sched.tests.length := List.length_map _

/-! ## Every scheduler's plans -/

/-- The schedules of the three schedulers for the given tests. -/
inductive Produced (workers : ℤ) (tests : List TestIdentity)
    (stats : PartialMap String TestStats) : Schedule → Prop
  | static {policy : RiskPolicy} {seed : ℤ} {riskWeight hardThreshold : Option ℚ}
      {refinementRounds : ℤ} {s : ConflictScheduler} {rt : Runtime}
      {predictions : List PairPrediction} {runID : Option String} {sched : Schedule}
      (hnew : ConflictScheduler.new workers policy seed riskWeight hardThreshold
        refinementRounds = .ok s)
      (hsched : s.staticSchedule rt tests stats predictions runID = .ok sched) :
      Produced workers tests stats sched
  | random {seed : ℤ} {rt : Runtime} {shuffle : ℤ → List TestIdentity → List TestIdentity}
      {runID : Option String} {sched : Schedule}
      (hshuffle : (shuffle seed tests).Perm tests)
      (hsched : (RandomScheduler.mk workers seed).schedule rt shuffle tests stats runID =
        .ok sched) :
      Produced workers tests stats sched
  | serial (rt : Runtime) (runID : Option String) :
      Produced workers tests stats (SerialScheduler.schedule rt tests stats runID)

theorem Schedule.PlanFor.length_eq {sched : Schedule} {workers : ℤ}
    {stats : PartialMap String TestStats} {risk : RiskIndex} {tests : List TestIdentity}
    (h : sched.PlanFor workers stats risk tests) (hids : (tests.map TestIdentity.id).Nodup) :
    sched.tests.length = tests.length := by
  have hperm := (List.perm_ext_iff_of_nodup h.nodup hids).mpr h.mem_iff
  simpa using hperm.length_eq

/-- **Every schedule that is simulated is feasible.** -/
theorem Produced.feasible {workers : ℤ} {tests : List TestIdentity}
    {stats : PartialMap String TestStats} {sched : Schedule}
    (h : Produced workers tests stats sched) (hworkers : 1 ≤ workers)
    (hids : (tests.map TestIdentity.id).Nodup) :
    1 ≤ sched.workers ∧ Feasible sched.workers sched.tests ∧
      sched.tests.length = tests.length := by
  cases h with
  | @static policy seed riskWeight hardThreshold rounds s rt predictions runID sched hnew hsched =>
    obtain ⟨s', hs', rfl, hlook⟩ := ConflictScheduler.new_eq_ok hworkers policy seed riskWeight
      hardThreshold rounds
    obtain rfl := Except.ok.inj (hnew.symm.trans hs')
    obtain ⟨planned, hplanned, heq, hplan⟩ := s.staticSchedule_planFor hworkers hlook rt tests
      stats predictions runID
    obtain rfl := Except.ok.inj (hsched.symm.trans hplanned)
    rw [heq]
    exact ⟨hworkers, hplan.feasible, hplan.length_eq hids⟩
  | random hshuffle hsched =>
    obtain ⟨heq, hfeasible, hlen⟩ := RandomScheduler.schedule_feasible hworkers hsched
    rw [heq]
    exact ⟨hworkers, hfeasible, hlen.trans hshuffle.length_eq⟩
  | serial rt runID => exact ⟨le_rfl, SerialScheduler.schedule_feasible rt tests stats runID⟩

/-- Nothing overlaps in the serial plan, so nothing fails. -/
theorem SerialScheduler.meetAll_schedule (rt : Runtime) (tests : List TestIdentity)
    (stats : PartialMap String TestStats) (runID : Option String) (world : SyntheticWorld)
    (draw : ℕ → ℚ) (s : TrialState) :
    world.meetAll draw s (SerialScheduler.schedule rt tests stats runID).tests = s := by
  obtain ⟨hfeasible, -⟩ := SerialScheduler.schedule_feasible rt tests stats runID
  refine @SyntheticWorld.meetAll_eq_of_worker world draw 0 _ (fun t ht => ?_) s
  have hrange := hfeasible.worker_range t ht
  omega

/-- **The figures of a trial are possible.** Whatever the world and the draws, the workers
are busy for no less than none and no more than all of the time, what is lost to waiting is
the rest of it, a failure is counted once for each failed test, and the serial plan has no
conflict at all. -/
theorem simulateSchedule_possible {workers : ℤ} (hworkers : 1 ≤ workers)
    {tests : List TestIdentity} (hids : (tests.map TestIdentity.id).Nodup)
    (stats : PartialMap String TestStats) (world : SyntheticWorld) (trial seed : ℤ)
    (schedulerName : String) (draw : ℕ → ℚ) :
    (∀ sched, Produced workers tests stats sched →
      (simulateSchedule sched world trial seed schedulerName draw).Possible tests.length) ∧
    ∀ rt runID, (simulateSchedule (SerialScheduler.schedule rt tests stats runID) world trial seed
        schedulerName draw).conflictingOverlaps = 0 ∧
      (simulateSchedule (SerialScheduler.schedule rt tests stats runID) world trial seed
        schedulerName draw).failures = 0 := by
  refine ⟨fun sched hsched => ?_, fun rt runID => ?_⟩
  · obtain ⟨hpositive, hfeasible, hlen⟩ := hsched.feasible hworkers hids
    rw [← hlen]
    exact hfeasible.possible hpositive world trial seed schedulerName draw
  · simp [simulateSchedule, SerialScheduler.meetAll_schedule]

/-- Two tests on two workers, that disturb one another half of the time. -/
theorem simulateSchedule_possible_of_two :
    (∀ sched, Produced 2 [.named "a", .named "b"] (statsOf [("a", 10), ("b", 8)]) sched →
      (simulateSchedule sched ⟨fun pair => if pair = ("a", "b") then some (1 / 2) else none⟩ 0 42
        "random" fun n => 1 / (n + 2)).Possible 2) ∧
    ∀ rt runID,
      (simulateSchedule (SerialScheduler.schedule rt [.named "a", .named "b"]
        (statsOf [("a", 10), ("b", 8)]) runID)
        ⟨fun pair => if pair = ("a", "b") then some (1 / 2) else none⟩ 0 42
        "random" fun n => 1 / (n + 2)).conflictingOverlaps = 0 ∧
      (simulateSchedule (SerialScheduler.schedule rt [.named "a", .named "b"]
        (statsOf [("a", 10), ("b", 8)]) runID)
        ⟨fun pair => if pair = ("a", "b") then some (1 / 2) else none⟩ 0 42
        "random" fun n => 1 / (n + 2)).failures = 0 :=
  simulateSchedule_possible (by decide) (by decide) _ _ _ _ _ _

end ConflictGraph.Py
