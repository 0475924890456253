import ConflictGraph.PostgresTables
import ConflictGraph.PyArtifact

/-!
# What the clients send

The statements of each call of the two stores, the one of the control plane and the one of the
Python package, with the columns that the source names; the others have their defaults.
-/

namespace ConflictGraph

open Sql

/-! ## The control plane -/

namespace Go

/-- The text of a status. -/
def RunStatus.text : RunStatus → String
  | .running => "RUNNING"
  | .completed => "COMPLETED"
  | .failed => "FAILED"

/-- The text of a status. -/
def ExecutionStatus.text : ExecutionStatus → String
  | .pending => "PENDING"
  | .running => "RUNNING"
  | .passed => "PASSED"
  | .failed => "FAILED"
  | .timedOut => "TIMED_OUT"
  | .cancelled => "CANCELLED"
  | .infraError => "INFRA_ERROR"

namespace Postgres

variable (now : ℤ)

/-- The row of a test. -/
def testRow (test : Test) : TestRow :=
  { id := test.id, nodeID := test.nodeID, repository := test.repository, suite := test.suite,
    framework := test.framework, testFile := test.file, testClass := test.class_,
    testFunction := test.function, parameters := test.parameters,
    sourceRevision := test.sourceRevision, durationEMA := test.durationEMA,
    durationMedian := test.durationMedian, failureRate := test.failureRate,
    executionCount := test.executionCount, createdAt := now, updatedAt := now }

/-- `SaveTests`. -/
def saveTests (tests : List Test) : List Statement :=
  tests.map fun test => .upsertTest (testRow now test)

/-- The row of a run, which starts when the database says so. -/
def runRow (run : Run) : RunRow :=
  { id := run.id, status := run.status.text, schedulerPolicy := run.policy.text,
    workerCount := run.workerCount, seed := run.seed, sourceRevision := run.sourceRevision,
    traceMode := run.traceMode, modelVersion := some run.modelVersion, startedAt := now,
    predictionCount := some run.predictionCount }

/-- `CreateRun`. -/
def createRun (run : Run) : List Statement := [.insertRun (runRow now run)]

/-- `SavePredictions`; `clock` is what `time.Now` returns. -/
def savePredictions (runID : String) (clock : Prediction → ℤ) (predictions : List Prediction) :
    List Statement :=
  predictions.map fun p => .insertPrediction (Database.predictionRow runID clock p) false

/-- The row of a schedule. -/
def scheduleRow (schedule : Schedule) : ScheduleRow :=
  { id := schedule.id, runID := schedule.runID, policy := schedule.policy.text,
    workerCount := schedule.workers, expectedMakespan := schedule.expectedMakespan,
    expectedRisk := schedule.expectedRisk, latencyMS := schedule.schedulerLatencyMS,
    seed := schedule.seed, plan := .tests schedule.tests, createdAt := now }

/-- `SaveSchedule`. -/
def saveSchedule (schedule : Schedule) : List Statement :=
  [.insertSchedule (scheduleRow now schedule)]

/-- The row of a result; `Duration` is `ended.Sub(started).Seconds()`. -/
def executionRow (result : CapturedResult) : ExecutionRow :=
  { id := result.executionID, runID := result.runID, testID := result.testID,
    workerID := result.worker, status := result.status.text, startedAt := result.startedAt,
    endedAt := result.endedAt,
    durationSeconds := ((result.endedAt - result.startedAt : ℤ) : ℚ) / 1000000000,
    exitCode := result.exitCode, stdout := result.stdout, stderr := result.stderr,
    failureMessage := result.failureMessage, timedOut := result.timedOut, createdAt := now }

/-- `SaveExecution`. -/
def saveExecution (result : CapturedResult) : List Statement :=
  [.insertExecution (executionRow now result) false]

/-- `FinishRun`. -/
def finishRun (runID : String) (status : RunStatus) (errorMessage : String)
    (quality : Option ℚ) : List Statement :=
  [.updateRun runID ⟨status.text, errorMessage, quality, now⟩]

/-- The statements of a call of the command. -/
def statements (clock : Prediction → ℤ) : DatabaseCall → List Statement
  | .saveTests tests => saveTests now tests
  | .createRun run => createRun now run
  | .savePredictions runID predictions => savePredictions runID clock predictions
  | .saveSchedule schedule => saveSchedule now schedule
  | .finishRun runID status message => finishRun now runID status message none

end Postgres

end Go

/-! ## The Python package -/

namespace Py

/-- `RiskPolicy.value`. -/
def RiskPolicy.value : RiskPolicy → String
  | .aggressive => "aggressive"
  | .balanced => "balanced"
  | .safe => "safe"

/-- `ExecutionStatus.value`. -/
def ExecutionStatus.value : ExecutionStatus → String
  | .pending => "PENDING"
  | .running => "RUNNING"
  | .passed => "PASSED"
  | .failed => "FAILED"
  | .timedOut => "TIMED_OUT"
  | .cancelled => "CANCELLED"
  | .infraError => "INFRA_ERROR"

/-- The text of a cause. -/
def ConflictCause.text (cause : ConflictCause) : String :=
  ((ConflictCause.values.find? fun entry => entry.2 = cause).map Prod.fst).getD ""

/-- A result with the fields that are only stored; texts are encoded. -/
structure StoredResult : Type extends ExecutionResult where
  executionID : String
  startedAt : ℤ
  endedAt : ℤ
  durationSeconds : ℚ
  stdout : List UInt8
  stderr : List UInt8
  failureMessage : List UInt8 := []
  deriving DecidableEq

/-- A prediction with the time at which it was made. -/
structure DatedPrediction : Type extends PairPrediction where
  predictedAt : ℤ
  deriving DecidableEq

namespace PostgresStore

variable (now : ℤ)

/-- The row of a test. -/
def testRow (test : TestIdentity) : TestRow :=
  { id := test.id, nodeID := test.nodeID, repository := test.repository, suite := test.suite,
    framework := test.framework, testFile := test.testFile, testClass := test.testClass,
    testFunction := test.testFunction, parameters := test.parameters,
    sourceRevision := test.sourceRevision, createdAt := now, updatedAt := now }

/-- `upsert_tests`. -/
def upsertTests (tests : List TestIdentity) : List Statement :=
  tests.map fun test => .upsertTest (testRow now test)

/-- The row of a run. -/
def runRow (runID scheduler : String) (workers seed : ℤ) (revision traceMode : String) : RunRow :=
  { id := runID, status := "RUNNING", schedulerPolicy := scheduler, workerCount := workers,
    seed := seed, sourceRevision := revision, traceMode := traceMode, startedAt := now }

/-- `create_run`. -/
def createRun (runID scheduler : String) (workers seed : ℤ) (revision traceMode : String) :
    List Statement :=
  [.insertRun (runRow now runID scheduler workers seed revision traceMode)]

/-- The row of a schedule. -/
def scheduleRow (schedule : Schedule) : ScheduleRow :=
  { id := schedule.id, runID := schedule.runID, policy := schedule.policy.value,
    workerCount := schedule.workers, expectedMakespan := schedule.expectedMakespan,
    expectedRisk := schedule.expectedRisk, latencyMS := schedule.schedulerLatencyMS,
    seed := schedule.seed, plan := .schedule schedule, createdAt := now }

/-- `save_schedule`. -/
def saveSchedule (schedule : Schedule) : List Statement :=
  [.insertSchedule (scheduleRow now schedule)]

/-- The row of a result. -/
def executionRow (result : StoredResult) : ExecutionRow :=
  { id := result.executionID, runID := result.runID, testID := result.testID,
    workerID := result.worker, status := result.status.value, startedAt := result.startedAt,
    endedAt := result.endedAt, durationSeconds := result.durationSeconds,
    exitCode := result.exitCode, stdout := result.stdout, stderr := result.stderr,
    failureMessage := result.failureMessage, timedOut := result.timedOut, createdAt := now }

/-- `save_result`. -/
def saveResult (result : StoredResult) : List Statement :=
  [.insertExecution (executionRow now result) true]

/-- The row of a prediction. -/
def predictionRow (runID : String) (p : DatedPrediction) : Go.PredictionRow :=
  ⟨runID, p.testA, p.testB, p.probability, p.cause.text, p.modelVersion, some p.sharedResources,
    p.explanation, p.predictedAt⟩

/-- `save_predictions`. -/
def savePredictions (runID : String) (predictions : List DatedPrediction) : List Statement :=
  predictions.map fun p => .insertPrediction (predictionRow runID p) true

/-- `finalize_run`: a run is `FAILED` if there is an error text. -/
def finalizeRun (runID : String) (traceQuality : Option ℚ) (error : String) : List Statement :=
  [.updateRun runID ⟨if error = "" then "COMPLETED" else "FAILED", error, traceQuality, now⟩]

end PostgresStore

end Py

end ConflictGraph
