import ConflictGraph.PyPlan
import ConflictGraph.PyResults

/-!
# The run command of the Python package

`run` collects the tests, plans them, executes the plan, and saves a document with the results,
which it calls `COMPLETED` if all of them have passed. As a plan has every test once, and a test
without a result is one that `fail_fast` has kept from running after a failure, a `COMPLETED` run
is one in which every test that was collected has run once and passed (`completed_iff`).
-/

namespace ConflictGraph.Py

/-! ## The command -/

/-- An `ExecutionResult` with its instants. -/
structure TimedResult : Type extends ExecutionResult where
  startedAt : ℚ
  durationSeconds : ℚ
  deriving DecidableEq

/-- What ends `run` or `plan` before a document is saved. -/
inductive CommandError : Type where
  /-- `typer.BadParameter` -/
  | badParameter (message hint : String)
  | raised (e : Exception)
  deriving DecidableEq

/-- `_worker_count`. -/
def workerCount (requested : Option ℤ) (configured : ℤ) : Except CommandError ℤ :=
  let workers := requested.getD configured
  if 1 ≤ workers ∧ workers ≤ 1024 then .ok workers
  else .error (.badParameter "workers must be between 1 and 1024" "workers")

/-- `{test.id: TestStats() for test in tests}`. -/
def freshStats (tests : List TestIdentity) : PartialMap String TestStats :=
  tests.foldl (fun stats test => stats.insert test.id {}) PartialMap.empty

/-- The arguments of `run`, and the settings that it reads. -/
structure RunTests : Type where
  workers : Option ℤ := none
  policy : Option RiskPolicy := none
  timeout : ℚ := 300
  failFast : Bool := false
  /-- `settings.workers` -/
  configuredWorkers : ℤ := 4
  riskPolicy : RiskPolicy := .balanced
  seed : ℤ := 42
  riskWeight : ℚ := 2
  hardThreshold : ℚ := 9 / 10
  refinementRounds : ℤ := 4
  /-- `settings.tracing.mode` -/
  traceMode : String := "replay"
  deriving DecidableEq

/-- The document that `run` saves. -/
structure RunArtifact : Type where
  id : String
  status : String
  schedulerPolicy : RiskPolicy
  workerCount : ℤ
  traceMode : String
  modelVersion : String
  tests : ℕ
  passed : ℕ
  failed : ℕ
  testSeconds : ℚ
  schedule : Schedule
  executions : List TimedResult
  predictions : List PairPrediction
  deriving DecidableEq

/-- The model that made the predictions, if there is one. -/
def modelVersionOf (predictions : List PairPrediction) : String :=
  match (predictions.map PairPrediction.modelVersion).eraseDups with
  | [] => "duration-only"
  | [version] => version
  | _ => "mixed"

namespace RunTests

variable (c : RunTests)

/-- The schedule that `run` executes, of the tests that were collected and their predictions, or
what ends the command before. -/
def plan (rt : Runtime) (tests : List TestIdentity) (predictions : List PairPrediction)
    (runID : String) : Except CommandError Schedule := do
  if c.timeout ≤ 0 then .error (.badParameter "timeout must be positive" "timeout")
  else
    let workers ← workerCount c.workers c.configuredWorkers
    let scheduler ← (ConflictScheduler.new workers (c.policy.getD c.riskPolicy) c.seed
      (some c.riskWeight) (some c.hardThreshold) c.refinementRounds).mapError .raised
    (scheduler.staticSchedule rt tests (freshStats tests) predictions (some runID)).mapError .raised

/-- The document about the results that `execute` returns. -/
def artifact (runID : String) (schedule : Schedule) (results : List TimedResult)
    (predictions : List PairPrediction) : RunArtifact :=
  let passed := results.countP (·.status = .passed)
  { id := runID
    status := if passed = results.length then "COMPLETED" else "FAILED"
    schedulerPolicy := schedule.policy
    workerCount := schedule.workers
    traceMode := c.traceMode
    modelVersion := modelVersionOf predictions
    tests := results.length
    passed := passed
    failed := results.length - passed
    testSeconds := (results.map TimedResult.durationSeconds).sum
    schedule := schedule
    executions := results
    predictions := predictions }

/-- The exit code of `run`, when it has saved its document. -/
def exitCode (a : RunArtifact) : ℕ := if a.passed ≠ a.tests then 1 else 0

/-- `execute` returns these results of the schedule. The command never calls `cancel`, and an
interrupt ends it without a document. -/
def Returns (schedule : Schedule) (results : List TimedResult) : Prop :=
  ∃ e ls s, e.schedule = schedule ∧ e.failFast = c.failFast ∧
    runFrom (ScheduleExecutor.step e) e.init ls = some s ∧ .cancel ∉ ls ∧ s.Finished ∧
      ∃ recorded : List TimedResult, recorded.map TimedResult.toExecutionResult = s.results ∧
        results = recorded.insertionSort fun a b => a.startedAt ≤ b.startedAt

end RunTests

/-! ## The tests of a plan -/

section Collected

variable {tests : List TestIdentity}

/-- A test is planned under its identifier, with the node of a test that has it. -/
def Collected (tests : List TestIdentity) (item : ScheduledTest) : Prop :=
  ∃ test ∈ tests, test.id = item.testID ∧ test.nodeID = item.nodeID

theorem indexByID_some {id : String} (h : id ∈ tests.map TestIdentity.id) :
    ∃ test ∈ tests, test.id = id ∧ indexByID tests id = some test := by
  rw [indexByID]
  induction tests using List.reverseRecOn with
  | nil => exact absurd h List.not_mem_nil
  | append_singleton before test ih =>
    rw [List.foldl_append, List.foldl_cons, List.foldl_nil]
    by_cases hid : id = test.id
    · subst hid
      exact ⟨test, by simp, rfl, by simp [PartialMap.insert]⟩
    · have hbefore : id ∈ before.map TestIdentity.id := by simpa [hid] using h
      obtain ⟨found, hfound, hsame, hindex⟩ := ih hbefore
      refine ⟨found, List.mem_append_left _ hfound, hsame, ?_⟩
      simpa [PartialMap.insert, hid] using hindex

/-- What holds of all lanes, and of a lane that is changed, holds of all lanes afterwards. -/
theorem forall_mem_modify {Q : List ScheduledTest → Prop}
    {f : List ScheduledTest → List ScheduledTest} {lanes : List (List ScheduledTest)}
    (h : ∀ lane ∈ lanes, Q lane) (hf : ∀ lane ∈ lanes, Q (f lane)) (i : ℕ) :
    ∀ lane ∈ lanes.modify i f, Q lane := by
  intro lane hlane
  obtain ⟨j, hj⟩ := List.mem_iff_getElem?.mp hlane
  rw [List.getElem?_modify] at hj
  obtain ⟨old, hold, rfl⟩ := Option.map_eq_some_iff.mp hj
  have hmem := List.mem_of_getElem? hold
  by_cases hi : i = j
  · simpa [hi] using hf old hmem
  · simpa [hi] using h old hmem

/-- A lane of tests that were collected. -/
abbrev CollectedLane (tests : List TestIdentity) (lane : List ScheduledTest) : Prop :=
  ∀ item ∈ lane, Collected tests item

theorem CollectedLane.reflowFrom {lane : List ScheduledTest} (worker : ℤ) :
    ∀ cursor : ℚ, CollectedLane tests lane →
      CollectedLane tests (reflowFrom worker cursor lane) := by
  induction lane with
  | nil => exact fun _ h => h
  | cons item rest ih =>
    intro cursor h
    rw [CollectedLane, List.forall_mem_cons] at h
    exact List.forall_mem_cons.mpr ⟨h.1, ih _ h.2⟩

/-- A swap has the same tests. -/
theorem collected_swapAndReflow {lanes : List (List ScheduledTest)} (worker i : ℕ)
    (h : ∀ lane ∈ lanes, CollectedLane tests lane) :
    ∀ lane ∈ swapAndReflow lanes worker i, CollectedLane tests lane := by
  refine forall_mem_modify h (fun lane hlane => ?_) worker
  exact CollectedLane.reflowFrom _ _ fun item hitem =>
    h lane hlane item ((swapAdjacent_perm lane i).subset hitem)

/-- A round places a test that was collected. -/
theorem collected_place {ctx : Context} {p q : Placement} (hbyID : ctx.byID = indexByID tests)
    (h : ctx.place p = .ok q) (hremaining : ∀ id ∈ p.remaining, id ∈ tests.map TestIdentity.id)
    (hlanes : ∀ lane ∈ p.lanes, CollectedLane tests lane) :
    (∀ id ∈ q.remaining, id ∈ tests.map TestIdentity.id) ∧
      ∀ lane ∈ q.lanes, CollectedLane tests lane := by
  obtain ⟨worker, first, chosen, start, -, hfirst, hchoose, rfl⟩ := place_eq_ok h
  refine ⟨fun id hid => hremaining id (List.mem_of_mem_erase hid), ?_⟩
  obtain ⟨chosen', start', hchoose', hmem, -⟩ := exists_choose ctx p.lanes worker
    (p.laneEnd worker) (List.ne_nil_of_mem (minBy_mem hfirst))
  obtain ⟨rfl, rfl⟩ := Prod.mk.inj (Except.ok.inj (hchoose.symm.trans hchoose'))
  obtain ⟨test, htest, hid, hindex⟩ :=
    indexByID_some (hremaining chosen (List.mem_of_mem_take hmem))
  refine forall_mem_modify hlanes (fun lane hlane => ?_) worker
  refine List.forall_mem_append.mpr ⟨hlanes lane hlane, List.forall_mem_singleton.mpr ?_⟩
  refine ⟨test, htest, hid, ?_⟩
  simp only [Context.scheduled, hbyID, hindex]

theorem collected_placeAll {ctx : Context} (hbyID : ctx.byID = indexByID tests) :
    ∀ (fuel : ℕ) {p q : Placement}, (∀ id ∈ p.remaining, id ∈ tests.map TestIdentity.id) →
      (∀ lane ∈ p.lanes, CollectedLane tests lane) → ctx.placeAll fuel p = .ok q →
        ∀ lane ∈ q.lanes, CollectedLane tests lane := by
  intro fuel
  induction fuel with
  | zero =>
    intro p q _ hlanes hrun
    exact Except.ok.inj hrun ▸ hlanes
  | succ fuel ih =>
    intro p q hremaining hlanes hrun
    rw [Context.placeAll] at hrun
    split at hrun
    · exact Except.ok.inj hrun ▸ hlanes
    · split at hrun
      · cases hrun
      · rename_i next hnext
        obtain ⟨hremaining', hlanes'⟩ := collected_place hbyID hnext hremaining hlanes
        exact ih hremaining' hlanes' hrun

/-- **A plan runs what was collected.** -/
theorem collected_staticSchedule {s : ConflictScheduler} {rt : Runtime}
    {stats : PartialMap String TestStats} {predictions : List PairPrediction}
    {runID : Option String} {sched : Schedule}
    (h : s.staticSchedule rt tests stats predictions runID = .ok sched) :
    ∀ item ∈ sched.tests, Collected tests item := by
  rcases hplaced : (s.start rt tests stats predictions).1.placeAll
      (s.start rt tests stats predictions).2.remaining.length
      (s.start rt tests stats predictions).2 with e | placed
  · simp only [ConflictScheduler.staticSchedule, hplaced, reduceCtorEq] at h
  simp only [ConflictScheduler.staticSchedule, hplaced, Except.ok.injEq] at h
  subst h
  have hlanes : ∀ lane ∈ placed.lanes, CollectedLane tests lane := by
    refine collected_placeAll rfl _ (fun id hid => ?_) (fun lane hlane item hitem => ?_) hplaced
    · exact List.mem_eraseDups.mp ((orderRemaining_perm _ _ tests).mem_iff.mp hid)
    · rw [List.eq_of_mem_replicate hlane] at hitem
      exact absurd hitem List.not_mem_nil
  have hrefined : ∀ lane ∈ s.refineLanes (s.start rt tests stats predictions).1.risk tests
      placed.lanes, CollectedLane tests lane := by
    rw [ConflictScheduler.refineLanes]
    split
    · exact refineRounds_lanes (I := fun lanes => ∀ lane ∈ lanes, CollectedLane tests lane)
        (fun lanes worker i h => collected_swapAndReflow worker i h) _ _ hlanes
    · exact hlanes
  intro item hitem
  obtain ⟨lane, hlane, hmem⟩ :=
    List.mem_flatten.mp ((List.perm_insertionSort ..).mem_iff.mp hitem)
  exact hrefined lane hlane item hmem

end Collected

/-! ## Completed runs -/

namespace RunTests

variable {c : RunTests} {rt : Runtime} {tests : List TestIdentity}
  {predictions : List PairPrediction} {runID : String} {schedule : Schedule}
  {results : List TimedResult}

/-- What the command executes is a plan of what it has collected. -/
theorem planFor_of_plan (h : c.plan rt tests predictions runID = .ok schedule) :
    schedule.PlanFor schedule.workers (freshStats tests) (RiskIndex.new predictions) tests ∧
      ∀ item ∈ schedule.tests, Collected tests item := by
  rw [plan] at h
  split at h
  · cases h
  obtain ⟨workers, hworkers, h⟩ := bind_eq_ok_iff.mp h
  obtain ⟨scheduler, hscheduler, h⟩ := bind_eq_ok_iff.mp h
  have hrange : 1 ≤ workers := by
    rw [workerCount] at hworkers
    split at hworkers
    · rename_i hrange
      exact Except.ok.inj hworkers ▸ hrange.1
    · cases hworkers
  obtain ⟨s, hs, hsame, hlook⟩ := ConflictScheduler.new_eq_ok hrange (c.policy.getD c.riskPolicy)
    c.seed (some c.riskWeight) (some c.hardThreshold) c.refinementRounds
  rw [hs] at hscheduler
  obtain rfl := Except.ok.inj hscheduler
  obtain ⟨sched, hsched, hcount, hplan⟩ := s.staticSchedule_planFor (hsame ▸ hrange) hlook rt tests
    (freshStats tests) predictions (some runID)
  rw [hsched] at h
  obtain rfl := Except.ok.inj h
  exact ⟨hcount ▸ hplan, collected_staticSchedule hsched⟩

/-- The results are of the tests of the plan, none twice, and none is missing unless a test has
failed and the command fails fast. -/
theorem results_of_returns (hplan : c.plan rt tests predictions runID = .ok schedule)
    (h : c.Returns schedule results) :
    (results.map (·.testID)).Subperm (schedule.tests.map ScheduledTest.testID) ∧
      (¬ (results.map (·.testID)).Perm (schedule.tests.map ScheduledTest.testID) →
        c.failFast = true ∧ ∃ result ∈ results, result.status ≠ .passed) ∧
      ∀ result ∈ results, result.runID = schedule.runID ∧
        ∃ test ∈ tests, test.id = result.testID ∧ test.nodeID = result.nodeID := by
  obtain ⟨e, ls, s, rfl, hfast, hrun, hcancel, hfinished, recorded, hrecorded, rfl⟩ := h
  obtain ⟨-, hsub, hmissing⟩ := ScheduleExecutor.results_of_execute hrun hfinished
  have hsorted :=
    List.perm_insertionSort (fun a b : TimedResult => a.startedAt ≤ b.startedAt) recorded
  have hids : ∀ l : List ExecutionResult,
      (l.map ExecutionResult.target).map Prod.fst = l.map ExecutionResult.testID := fun l =>
    List.map_map ..
  have hplanned : ∀ l : List ScheduledTest,
      (l.map ScheduledTest.target).map Prod.fst = l.map ScheduledTest.testID := fun l =>
    List.map_map ..
  have hresults : ((recorded.insertionSort fun a b => a.startedAt ≤ b.startedAt).map
      (·.testID)).Perm (s.results.map ExecutionResult.testID) := by
    rw [← hrecorded, List.map_map]
    exact hsorted.map _
  refine ⟨?_, fun hnot => ?_, fun result hresult => ?_⟩
  · obtain ⟨some, hperm, hsublist⟩ := hsub
    have hmapped : ((s.results.map ExecutionResult.target).map Prod.fst).Subperm
        ((e.schedule.tests.map ScheduledTest.target).map Prod.fst) :=
      ⟨some.map Prod.fst, hperm.map _, hsublist.map _⟩
    rw [hids, hplanned] at hmapped
    exact hresults.subperm.trans hmapped
  · have hnotAll : ¬ (s.results.map ExecutionResult.target).Perm
        (e.schedule.tests.map ScheduledTest.target) := fun hperm => by
      have hmapped := hperm.map Prod.fst
      rw [hids, hplanned] at hmapped
      exact hnot (hresults.trans hmapped)
    obtain ⟨hfailFast, failed, hfailed, hstatus⟩ := (hmissing hnotAll).resolve_left hcancel
    rw [← hrecorded] at hfailed
    obtain ⟨result, hresult, rfl⟩ := List.mem_map.mp hfailed
    exact ⟨hfast ▸ hfailFast, result, hsorted.mem_iff.mpr hresult, hstatus⟩
  · have hmem : result.toExecutionResult ∈ s.results :=
      hrecorded ▸ List.mem_map_of_mem (hsorted.mem_iff.mp hresult)
    obtain ⟨hrunID, item, hitem, htarget⟩ :=
      (ScheduleExecutor.recorded_of_steps hrun).results _ hmem
    obtain ⟨test, htest, hid, hnode⟩ := (planFor_of_plan hplan).2 item hitem
    obtain ⟨hsameID, hsameRest⟩ := Prod.mk.inj htarget
    exact ⟨hrunID, test, htest, hid.trans hsameID.symm,
      hnode.trans (congrArg Prod.fst hsameRest).symm⟩

/-- A document says `COMPLETED` if all its executions have passed. -/
theorem status_artifact_iff :
    (c.artifact runID schedule results predictions).status = "COMPLETED" ↔
      ∀ result ∈ results, result.status = .passed := by
  rw [artifact]
  split
  · rename_i hall
    refine iff_of_true rfl fun result hresult => ?_
    simpa using List.countP_eq_length.mp hall result hresult
  · rename_i hnot
    refine iff_of_false (show ¬ "FAILED" = "COMPLETED" by decide) fun hpassed => hnot ?_
    exact List.countP_eq_length.mpr fun result hresult => decide_eq_true (hpassed result hresult)

/-- **A run that is called completed.** Its document has an execution of every test that was
collected, one for each identifier, and all of them have passed; otherwise a test has failed. In
any case no identifier has two executions, they are of nodes that were collected, and without
`fail_fast` none is missing. -/
theorem completed_iff (hplan : c.plan rt tests predictions runID = .ok schedule)
    (h : c.Returns schedule results) :
    ((c.artifact runID schedule results predictions).status = "COMPLETED" ↔
      (results.map (·.testID)).Perm (tests.map TestIdentity.id).eraseDups ∧
        ∀ result ∈ results, result.status = .passed) ∧
    (c.failFast = false → (results.map (·.testID)).Perm (tests.map TestIdentity.id).eraseDups) ∧
    (results.map (·.testID)).Nodup ∧
    ∀ result ∈ results, ∃ test ∈ tests, test.id = result.testID ∧ test.nodeID = result.nodeID := by
  obtain ⟨hplanFor, -⟩ := planFor_of_plan hplan
  obtain ⟨hsub, hmissing, hcollected⟩ := results_of_returns hplan h
  have hplanned : (schedule.tests.map ScheduledTest.testID).Perm
      (tests.map TestIdentity.id).eraseDups :=
    (List.perm_ext_iff_of_nodup hplanFor.nodup (nodup_eraseDups _)).mpr fun id =>
      (hplanFor.mem_iff id).trans List.mem_eraseDups.symm
  have hall : (c.failFast = true → ∀ result ∈ results, result.status = .passed) →
      (results.map (·.testID)).Perm (tests.map TestIdentity.id).eraseDups := by
    intro hpassed
    refine List.Perm.trans (not_not.mp fun hnot => ?_) hplanned
    obtain ⟨hfast, result, hresult, hstatus⟩ := hmissing hnot
    exact hstatus (hpassed hfast result hresult)
  refine ⟨?_, fun hfast => hall fun htrue => ?_, ?_,
    fun result hresult => (hcollected result hresult).2⟩
  · rw [status_artifact_iff]
    exact ⟨fun hpassed => ⟨hall fun _ => hpassed, hpassed⟩, And.right⟩
  · exact absurd (hfast.symm.trans htrue) Bool.false_ne_true
  · obtain ⟨some, hperm, hsublist⟩ := hsub
    exact hperm.nodup_iff.mp (hsublist.nodup hplanFor.nodup)

end RunTests

/-! ## A run on two workers -/

namespace RunTests

/-- Two workers, and every test is run. -/
def twoWorkers : RunTests := { workers := some 2 }

def threeTests : List TestIdentity := [.named "a", .named "b", .named "c"]

/-- One prediction, which keeps two of the tests apart. -/
def apart : List PairPrediction := [.new "a" "b" 1 ""]

/-- The plan: `a` waits for `b`. -/
def apartPlan : Schedule :=
  ⟨"schedule", "run-1", 2, .balanced, [⟨"c", "c", 0, 0, 1, 1, 0, []⟩, ⟨"b", "b", 1, 0, 1, 1, 0, []⟩,
    ⟨"a", "a", 0, 1, 2, 1, 0, []⟩], 0, 2, 0, 42⟩

/-- The plan, as it is executed. -/
def apartExecution : Execution := ⟨apartPlan, false, by decide⟩

/-- The results by their starts; `b` has failed. -/
def apartResults : List TimedResult :=
  [⟨⟨"run-1", "c", "c", 0, .passed, 0, false⟩, 10, 2⟩,
    ⟨⟨"run-1", "b", "b", 1, .failed, 1, false⟩, 21 / 2, 1⟩,
    ⟨⟨"run-1", "a", "a", 0, .passed, 0, false⟩, 12, 1⟩]

/-- `b` ends before `c`, and `a` is started late. -/
theorem returns_apartResults : twoWorkers.Returns apartPlan apartResults := by
  refine ⟨apartExecution, [.begin 0 fun _ => true, .begin 1 fun _ => true,
    .finish 1 false 1 fun _ => true, .advance 2, .finish 0 false 0 fun _ => true,
    .finish 0 false 0 fun _ => true], _, rfl, rfl, rfl, by simp, by decide, ?_⟩
  exact ⟨[⟨⟨"run-1", "b", "b", 1, .failed, 1, false⟩, 21 / 2, 1⟩,
    ⟨⟨"run-1", "c", "c", 0, .passed, 0, false⟩, 10, 2⟩,
    ⟨⟨"run-1", "a", "a", 0, .passed, 0, false⟩, 12, 1⟩], by decide +kernel, by decide +kernel⟩

/-- Every test has a result, and one has failed. -/
theorem completed_iff_apart :
    twoWorkers.plan .reference threeTests apart "run-1" = .ok apartPlan ∧
      ((twoWorkers.artifact "run-1" apartPlan apartResults apart).status = "COMPLETED" ↔
        (apartResults.map (·.testID)).Perm (threeTests.map TestIdentity.id).eraseDups ∧
          ∀ result ∈ apartResults, result.status = .passed) ∧
      (twoWorkers.failFast = false →
        (apartResults.map (·.testID)).Perm (threeTests.map TestIdentity.id).eraseDups) ∧
      (apartResults.map (·.testID)).Nodup ∧
      ∀ result ∈ apartResults, ∃ test ∈ threeTests,
        test.id = result.testID ∧ test.nodeID = result.nodeID := by
  have hplan : twoWorkers.plan .reference threeTests apart "run-1" = .ok apartPlan := by
    decide +kernel
  exact ⟨hplan, completed_iff hplan returns_apartResults⟩

end RunTests

end ConflictGraph.Py
