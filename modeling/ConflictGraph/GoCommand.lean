import ConflictGraph.GoConfig
import ConflictGraph.GoExecutor

/-!
# The command that runs a plan

`execute` of the command line collects tests, inserts a run, plans, runs and finishes
it. Every step can fail. The steps are answered by `Outcomes`, and what the command
does to the database is the list of its calls. Once the run is inserted, each error
return has to finish it; one of them does not.
-/

namespace ConflictGraph.Go

/-! ## Errors and runs -/

/-- `errors.Join`: nil if every error is nil. -/
def joinErrors (errors : List (Option String)) : Option String :=
  match errors.filterMap id with
  | [] => none
  | texts => some ("\n".intercalate texts)

inductive RunStatus : Type where
  | running
  | completed
  | failed
  deriving DecidableEq, Repr

/-- `types.Run`, as `execute` fills it in. -/
structure Run : Type where
  id : String
  status : RunStatus
  policy : RiskPolicy
  workerCount : ℤ
  seed : ℤ
  sourceRevision : String
  traceMode : String
  modelVersion : String
  startedAt : ℤ
  predictionCount : ℕ
  deriving DecidableEq

/-- A call of the store. -/
inductive DatabaseCall : Type where
  | saveTests (tests : List Test)
  | createRun (run : Run)
  | savePredictions (runID : String) (predictions : List Prediction)
  | saveSchedule (schedule : Schedule)
  | finishRun (runID : String) (status : RunStatus) (message : String)
  deriving DecidableEq

/-- The answers that one call of `execute` gets; an error is its text, `none` is nil. -/
structure Outcomes : Type where
  parse : Option String
  load : Except String Config
  openStore : Option String
  collect : Except String (List Test)
  predictions : Except String (List Prediction)
  runID : String
  now : ℤ
  saveTests : Option String
  createRun : Option String
  /-- `configuredScheduler` -/
  scheduler : Except String Scheduler
  /-- `engine.Build` -/
  build : Except String Schedule
  savePredictions : Option String
  saveSchedule : Option String
  /-- `executor.NewCgroupTracer` -/
  newTracer : Option String
  /-- `runner.Execute` -/
  execute : List ExecutionResult × Option String
  finishRun : Option String

/-- The model version of a run: that of the predictions, if they agree. -/
def modelVersionOf : List Prediction → String
  | [] => "duration-only"
  | first :: rest =>
    if ∀ prediction ∈ rest, prediction.modelVersion = first.modelVersion then first.modelVersion
    else "mixed"

/-- What a command did: its database calls in order, and the error it returns. -/
abbrev CommandResult : Type := List DatabaseCall × Option String

/-- Do one more call before what follows. -/
def CommandResult.after (call : DatabaseCall) (r : CommandResult) : CommandResult :=
  (call :: r.1, r.2)

/-! ## execute -/

/-- `failRun`. -/
def Outcomes.failRun (o : Outcomes) (runID cause : String) : CommandResult :=
  ([.finishRun runID .failed cause],
    match o.finishRun with
    | some err => joinErrors [some cause, some err]
    | none => some cause)

/-- The loop over the results: the status and the message so far. -/
def judgeResults (acc : RunStatus × String) (results : List ExecutionResult) : RunStatus × String :=
  results.foldl
    (fun acc result =>
      if result.status ≠ .passed then
        (.failed, if acc.2 = "" then "one or more tests failed" else acc.2)
      else acc)
    acc

/-- The status and the message with which `execute` finishes a run. -/
def Outcomes.runVerdict (o : Outcomes) : RunStatus × String :=
  judgeResults
    (match o.execute.2 with
      | some text => (.failed, text)
      | none => (.completed, ""))
    o.execute.1

/-- The end of `execute`, from `runner.Execute` on. -/
def Outcomes.runSchedule (o : Outcomes) (runID : String) : CommandResult :=
  ([.finishRun runID o.runVerdict.1 o.runVerdict.2],
    match o.finishRun with
    | some err => joinErrors [o.execute.2, some err]
    | none =>
      if o.runVerdict.1 = .failed ∧ o.execute.2 = none then some o.runVerdict.2 else o.execute.2)

/-- `execute` after `CreateRun` has succeeded. -/
def Outcomes.executeRun (o : Outcomes) (settings : Config) (runID : String)
    (predictions : List Prediction) : CommandResult :=
  match o.scheduler with
  | .error err => o.failRun runID err
  | .ok _ =>
    match o.build with
    | .error err => o.failRun runID err
    | .ok schedule =>
      .after (.savePredictions runID predictions) <|
        match o.savePredictions with
        | some err => o.failRun runID ("save predictions: " ++ err)
        | none =>
          .after (.saveSchedule schedule) <|
            match o.saveSchedule with
            | some err => o.failRun runID ("save schedule: " ++ err)
            | none =>
              if settings.tracing.mode = "ebpf" then
                match o.newTracer with
                | some err => ([], some ("initialize test attribution: " ++ err))
                | none => o.runSchedule runID
              else o.runSchedule runID

/-- The run that `execute` inserts. -/
def Outcomes.newRun (o : Outcomes) (settings : Config) (predictions : List Prediction) : Run :=
  { id := o.runID, status := .running, policy := settings.riskPolicy,
    workerCount := settings.workers, seed := settings.seed, sourceRevision := "unknown",
    traceMode := settings.tracing.mode, modelVersion := modelVersionOf predictions,
    startedAt := o.now, predictionCount := predictions.length }

/-- `execute` of `main.go`. -/
def Outcomes.executeCommand (o : Outcomes) : CommandResult :=
  match o.parse with
  | some err => ([], some err)
  | none =>
    match o.load with
    | .error err => ([], some err)
    | .ok settings =>
      match o.openStore with
      | some err => ([], some err)
      | none =>
        match o.collect with
        | .error err => ([], some err)
        | .ok tests =>
          match o.predictions with
          | .error err => ([], some err)
          | .ok predictions =>
            .after (.saveTests tests) <|
              match o.saveTests with
              | some err => ([], some err)
              | none =>
                .after (.createRun (o.newRun settings predictions)) <|
                  match o.createRun with
                  | some err => ([], some err)
                  | none => o.executeRun settings o.runID predictions

/-! ## Every created run is finished -/

/-- The runs that the calls finish, with status and message. -/
def finishes (calls : List DatabaseCall) : List (String × RunStatus × String) :=
  calls.filterMap fun
    | .finishRun runID status message => some (runID, status, message)
    | _ => none

/-- The plan was executed, without an error and with passed results only. -/
def Outcomes.Succeeds (o : Outcomes) : Prop :=
  o.execute.2 = none ∧ ∀ result ∈ o.execute.1, result.status = .passed

/-- The plan is made and stored. -/
structure Outcomes.Prepared (o : Outcomes) : Prop where
  scheduler : o.scheduler.isOk = true
  build : o.build.isOk = true
  savePredictions : o.savePredictions = none
  saveSchedule : o.saveSchedule = none

/-- The tracer is needed and cannot be initialised. -/
def Outcomes.TracerFails (o : Outcomes) (settings : Config) : Prop :=
  settings.tracing.mode = "ebpf" ∧ o.newTracer ≠ none

/-- The setup reaches `runner.Execute`. -/
def Outcomes.Starts (o : Outcomes) (settings : Config) : Prop :=
  o.Prepared ∧ ¬ o.TracerFails settings

/-- The run is finished exactly once, `COMPLETED` only after a passed execution and
`FAILED` otherwise, and then the command returns an error. -/
def Outcomes.FinishesRun (o : Outcomes) (settings : Config) (r : CommandResult) : Prop :=
  ∃ status message, finishes r.1 = [(o.runID, status, message)] ∧
    (status = .completed → o.Starts settings ∧ o.Succeeds) ∧
    (¬ (o.Starts settings ∧ o.Succeeds) → status = .failed) ∧ (status = .failed → r.2 ≠ none)

/-- `CreateRun` has succeeded, for these settings. -/
structure Outcomes.CreatesRun (o : Outcomes) (settings : Config) (tests : List Test)
    (predictions : List Prediction) : Prop where
  parse : o.parse = none
  load : o.load = .ok settings
  openStore : o.openStore = none
  collect : o.collect = .ok tests
  predictions : o.predictions = .ok predictions
  saveTests : o.saveTests = none
  createRun : o.createRun = none

theorem joinErrors_ne_none {errors : List (Option String)} {err : String}
    (h : some err ∈ errors) : joinErrors errors ≠ none := by
  rw [joinErrors]
  have hmem : err ∈ errors.filterMap id := List.mem_filterMap.mpr ⟨some err, h, rfl⟩
  rcases hjoin : errors.filterMap id with _ | ⟨text, rest⟩
  · rw [hjoin] at hmem
    cases hmem
  · exact Option.some_ne_none _

section Finish

variable {o : Outcomes} {settings : Config}

/-- A call that finishes no run changes nothing about finishing. -/
theorem finishesRun_after {call : DatabaseCall} (hcall : finishes [call] = []) (r : CommandResult) :
    o.FinishesRun settings (.after call r) ↔ o.FinishesRun settings r := by
  have hsame : finishes (call :: r.1) = finishes r.1 := by
    have happend : finishes (call :: r.1) = finishes [call] ++ finishes r.1 :=
      List.filterMap_append (l := [call])
    rw [happend, hcall, List.nil_append]
  simp only [Outcomes.FinishesRun, CommandResult.after, hsame]

/-- A failed setup step finishes the run as `FAILED`. -/
theorem finishesRun_failRun (cause : String) :
    o.FinishesRun settings (o.failRun o.runID cause) := by
  refine ⟨.failed, cause, rfl, ⟨nofun, fun _ => rfl, fun _ => ?_⟩⟩
  rw [Outcomes.failRun]
  rcases o.finishRun with _ | err
  · exact Option.some_ne_none cause
  · exact joinErrors_ne_none List.mem_cons_self

/-- The loop over the results ends with `COMPLETED` exactly if it started so and every
result passed. -/
theorem judgeResults_eq_completed (results : List ExecutionResult) :
    ∀ acc : RunStatus × String, (judgeResults acc results).1 = .completed ↔
      acc.1 = .completed ∧ ∀ result ∈ results, result.status = .passed := by
  induction results with
  | nil =>
    intro acc
    simp [judgeResults]
  | cons result rest ih =>
    intro acc
    rw [judgeResults, List.foldl_cons, ← judgeResults, ih, List.forall_mem_cons]
    by_cases hpassed : result.status = .passed
    · rw [if_neg (not_not.mpr hpassed)]
      simp only [hpassed, true_and]
    · rw [if_pos hpassed]
      simp only [hpassed, false_and, and_false, reduceCtorEq]

/-- It never ends with `RUNNING`. -/
theorem judgeResults_ne_running (results : List ExecutionResult) :
    ∀ acc : RunStatus × String, acc.1 ≠ .running → (judgeResults acc results).1 ≠ .running := by
  induction results with
  | nil => exact fun _ h => h
  | cons result rest ih =>
    intro acc h
    rw [judgeResults, List.foldl_cons, ← judgeResults]
    refine ih _ ?_
    by_cases hpassed : result.status = .passed
    · rwa [if_neg (not_not.mpr hpassed)]
    · rw [if_pos hpassed]
      exact nofun

theorem runVerdict_eq_completed : o.runVerdict.1 = .completed ↔ o.Succeeds := by
  rw [Outcomes.runVerdict, judgeResults_eq_completed, Outcomes.Succeeds]
  rcases o.execute.2 with _ | text
  · simp
  · simp

theorem runVerdict_eq_failed (h : ¬ o.Succeeds) : o.runVerdict.1 = .failed := by
  have hrunning : o.runVerdict.1 ≠ .running := by
    refine judgeResults_ne_running _ _ ?_
    rcases o.execute.2 with _ | text <;> exact nofun
  rcases hstatus : o.runVerdict.1 with _ | _ | _
  · exact absurd hstatus hrunning
  · exact absurd (runVerdict_eq_completed.mp hstatus) h
  · rfl

/-- Executing the plan finishes the run with the status it deserves. -/
theorem finishesRun_runSchedule (h : o.Starts settings) :
    o.FinishesRun settings (o.runSchedule o.runID) := by
  refine ⟨o.runVerdict.1, o.runVerdict.2, rfl, ?_, ?_, ?_⟩
  · exact fun hstatus => ⟨h, runVerdict_eq_completed.mp hstatus⟩
  · exact fun hnot => runVerdict_eq_failed fun hsucceeds => hnot ⟨h, hsucceeds⟩
  · intro hstatus
    rw [Outcomes.runSchedule]
    rcases o.finishRun with _ | err
    · by_cases hnil : o.execute.2 = none
      · simp only [if_pos (And.intro hstatus hnil)]
        exact Option.some_ne_none _
      · simp only [if_neg (fun hand : _ ∧ _ => hnil hand.2)]
        exact hnil
    · exact joinErrors_ne_none (List.mem_cons_of_mem _ List.mem_cons_self)

/-- After `CreateRun` the run is finished as it should be, unless the plan is stored and
the tracer then fails. -/
theorem finishesRun_executeRun (predictions : List Prediction) :
    o.FinishesRun settings (o.executeRun settings o.runID predictions) ↔
      ¬ (o.Prepared ∧ o.TracerFails settings) := by
  have hfail : ∀ cause, ¬ o.Prepared → (o.FinishesRun settings (o.failRun o.runID cause) ↔
      ¬ (o.Prepared ∧ o.TracerFails settings)) := fun cause hnot =>
    iff_of_true (finishesRun_failRun cause) fun h => hnot h.1
  rw [Outcomes.executeRun]
  rcases hscheduler : o.scheduler with err | engine
  · exact hfail err fun h => by simpa [hscheduler, Except.isOk, Except.toBool] using h.scheduler
  rcases hbuild : o.build with err | schedule
  · exact hfail err fun h => by simpa [hbuild, Except.isOk, Except.toBool] using h.build
  refine (finishesRun_after rfl _).trans ?_
  rcases hpredictions : o.savePredictions with _ | err
  swap
  · exact hfail _ fun h => by simpa [hpredictions] using h.savePredictions
  refine (finishesRun_after rfl _).trans ?_
  rcases hschedule : o.saveSchedule with _ | err
  swap
  · exact hfail _ fun h => by simpa [hschedule] using h.saveSchedule
  have hprepared : o.Prepared :=
    ⟨by rw [hscheduler]; rfl, by rw [hbuild]; rfl, hpredictions, hschedule⟩
  by_cases hmode : settings.tracing.mode = "ebpf"
  · simp only [if_pos hmode]
    rcases htracer : o.newTracer with _ | err
    · have hok : ¬ o.TracerFails settings := fun h => h.2 htracer
      exact iff_of_true (finishesRun_runSchedule ⟨hprepared, hok⟩) fun h => hok h.2
    · -- the early return that does not finish the run
      refine iff_of_false ?_ fun hnot => hnot ⟨hprepared, hmode, htracer ▸ Option.some_ne_none err⟩
      rintro ⟨status, message, hfinishes, -⟩
      cases hfinishes
  · simp only [if_neg hmode]
    have hok : ¬ o.TracerFails settings := fun h => hmode h.1
    exact iff_of_true (finishesRun_runSchedule ⟨hprepared, hok⟩) fun h => hok h.2

/-- **Every created run is finished**, except when the plan is stored and the tracer
cannot be initialised. -/
theorem finishesRun_executeCommand {tests : List Test} {predictions : List Prediction}
    (h : o.CreatesRun settings tests predictions) :
    o.FinishesRun settings o.executeCommand ↔ ¬ (o.Prepared ∧ o.TracerFails settings) := by
  rw [Outcomes.executeCommand, h.parse, h.load, h.openStore, h.collect, h.predictions, h.saveTests,
    h.createRun]
  refine (finishesRun_after rfl _).trans ((finishesRun_after rfl _).trans ?_)
  exact finishesRun_executeRun predictions

end Finish

/-- Valid settings with a given tracing mode. -/
def Config.withMode (mode : String) : Config :=
  { version := 1, workers := 2, riskPolicy := .balanced, seed := 42, artifactDir := "artifacts",
    databaseURL := "postgres://localhost/conflictgraph", apiAddress := "127.0.0.1:8080",
    tracing := ⟨mode, false, "", 0, "/sys/fs/cgroup/conflictgraph",
      "/run/conflictgraph/tracer.sock"⟩,
    scheduler := ⟨2, 9 / 10, 4⟩, model := ⟨"model.json", 0⟩ }

def twoTests : List Test :=
  [{ id := "a", nodeID := "t.py::a" }, { id := "b", nodeID := "t.py::b" }]

/-- The two tests, each on a worker of its own. -/
def twoTestPlan : Schedule :=
  ⟨"schedule", "run", 2, .balanced, [⟨"a", "t.py::a", 0, 0, 1, 1, 0, []⟩,
    ⟨"b", "t.py::b", 1, 0, 1, 1, 0, []⟩], 0, 1, 0, 42⟩

def twoTestPredictions : List Prediction :=
  [{ testA := "a", testB := "b", probability := 1 / 10, modelVersion := "v1" }]

/-- The second test fails. -/
def twoTestResults : List ExecutionResult :=
  [⟨"e1", "run", "a", "t.py::a", 0, .passed, 0, 1, 0, false⟩,
    ⟨"e2", "run", "b", "t.py::b", 1, .failed, 0, 1, 1, false⟩]

/-- Every step succeeds, except perhaps for the tracer; a test fails. -/
def Outcomes.withTracer (settings : Config) (newTracer : Option String) : Outcomes :=
  { parse := none, load := .ok settings, openStore := none, collect := .ok twoTests,
    predictions := .ok twoTestPredictions, runID := "run", now := 0, saveTests := none,
    createRun := none, scheduler := configuredScheduler settings, build := .ok twoTestPlan,
    savePredictions := none, saveSchedule := none, newTracer := newTracer,
    execute := (twoTestResults, none), finishRun := none }

/-- With a tracer the run is finished, and `FAILED` as its second test has failed. -/
theorem finishesRun_executeCommand_failedTest :
    finishes (Outcomes.withTracer (.withMode "ebpf") none).executeCommand.1 =
        [("run", .failed, "one or more tests failed")] ∧
      ((Outcomes.withTracer (.withMode "ebpf") none).FinishesRun (.withMode "ebpf")
          (Outcomes.withTracer (.withMode "ebpf") none).executeCommand ↔
        ¬ ((Outcomes.withTracer (.withMode "ebpf") none).Prepared ∧
          (Outcomes.withTracer (.withMode "ebpf") none).TracerFails (.withMode "ebpf"))) :=
  ⟨by decide +kernel, finishesRun_executeCommand ⟨rfl, rfl, rfl, rfl, rfl, rfl, rfl⟩⟩

/-- **A failing tracer leaves the run `RUNNING`.** The command returns the error of the
tracer and finishes nothing. -/
theorem not_finishesRun_tracer :
    (Config.withMode "ebpf").validate "linux" = .ok () ∧
      (Outcomes.withTracer (.withMode "ebpf") (some "permission denied")).CreatesRun
        (.withMode "ebpf") twoTests twoTestPredictions ∧
      finishes
        (Outcomes.withTracer (.withMode "ebpf") (some "permission denied")).executeCommand.1 = [] ∧
      ¬ (Outcomes.withTracer (.withMode "ebpf") (some "permission denied")).FinishesRun
        (.withMode "ebpf")
        (Outcomes.withTracer (.withMode "ebpf") (some "permission denied")).executeCommand := by
  have hnone : finishes (Outcomes.withTracer (.withMode "ebpf")
      (some "permission denied")).executeCommand.1 = [] := by decide +kernel
  refine ⟨by decide +kernel, ⟨rfl, rfl, rfl, rfl, rfl, rfl, rfl⟩, hnone, ?_⟩
  rintro ⟨status, message, hfinishes, -⟩
  rw [hnone] at hfinishes
  cases hfinishes

end ConflictGraph.Go
