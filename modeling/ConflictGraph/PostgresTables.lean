import ConflictGraph.GoCommand
import ConflictGraph.GoOutput
import ConflictGraph.GoPredictionRows
import ConflictGraph.KeyedRows
import ConflictGraph.PyExecutor

/-!
# The tables and their statements

The control plane and the Python package write the same tables. Every call of theirs is a
transaction: a list of statements, all of which take effect or none. A statement first meets
the checks of its row, then the rows that have its key, and last the rows it refers to.
-/

namespace ConflictGraph.Sql

open Go (Violation PredictionRow)

/-! ## Rows -/

/-- A row of `tests`. -/
structure TestRow : Type where
  id : String
  nodeID : String
  repository : String
  suite : String
  framework : String
  testFile : String
  testClass : String
  testFunction : String
  parameters : String
  sourceRevision : String
  durationEMA : ℚ := 1
  durationMedian : ℚ := 1
  failureRate : ℚ := 0
  executionCount : ℤ := 0
  createdAt : ℤ
  updatedAt : ℤ
  deriving DecidableEq

/-- A row of `runs`. -/
structure RunRow : Type where
  id : String
  status : String
  schedulerPolicy : String
  workerCount : ℤ
  seed : ℤ
  sourceRevision : String
  traceMode : String
  traceQuality : Option ℚ := none
  modelVersion : Option String := none
  startedAt : ℤ
  endedAt : Option ℤ := none
  error : String := ""
  /-- `prediction_count` of `metadata`, which has no other members -/
  predictionCount : Option ℕ := none
  deriving DecidableEq

/-- A row of `executions`; texts are encoded. -/
structure ExecutionRow : Type where
  id : String
  runID : String
  testID : String
  workerID : ℤ
  status : String
  startedAt : ℤ
  endedAt : ℤ
  durationSeconds : ℚ
  exitCode : ℤ
  stdout : List UInt8
  stderr : List UInt8
  failureMessage : List UInt8
  timedOut : Bool
  createdAt : ℤ
  deriving DecidableEq

/-- What the document in `plan` is made of: the clients do not agree on it. -/
inductive Plan : Type where
  | tests (tests : List Go.ScheduledTest)
  | schedule (schedule : Py.Schedule)
  deriving DecidableEq

/-- A row of `schedules`. -/
structure ScheduleRow : Type where
  id : String
  runID : String
  policy : String
  workerCount : ℤ
  expectedMakespan : ℚ
  expectedRisk : ℚ
  latencyMS : ℚ
  seed : ℤ
  plan : Plan
  createdAt : ℤ
  deriving DecidableEq

/-- What `UPDATE runs` sets. -/
structure Finish : Type where
  status : String
  error : String
  traceQuality : Option ℚ
  endedAt : ℤ
  deriving DecidableEq

/-- The statuses that the `CHECK` of `runs` allows. -/
def runStatuses : List String := ["PENDING", "RUNNING", "COMPLETED", "FAILED", "CANCELLED"]

/-- The row after an `UPDATE`. -/
def RunRow.finish (row : RunRow) (f : Finish) : RunRow :=
  { row with
    status := f.status, error := f.error, traceQuality := f.traceQuality,
    endedAt := some f.endedAt }

/-- `DO UPDATE` of `tests`. -/
def TestRow.updated (old new : TestRow) : TestRow :=
  { old with
    nodeID := new.nodeID, sourceRevision := new.sourceRevision, updatedAt := new.updatedAt }

/-- `DO UPDATE` of `predictions`: the resources and the time stay. -/
def predictionUpdated (old new : PredictionRow) : PredictionRow :=
  { old with
    probability := new.probability, cause := new.cause, modelVersion := new.modelVersion,
    explanation := new.explanation }

/-- A write to the row of a run. -/
inductive RunWrite : Type where
  | created (row : RunRow)
  | finished (runID : String) (f : Finish)
  deriving DecidableEq

/-- The run that is written to. -/
def RunWrite.runID : RunWrite → String
  | .created row => row.id
  | .finished runID _ => runID

/-- A run is inserted; an `UPDATE` changes the row that is there. -/
def runWrites : RowWrite RunRow RunWrite where
  run
    | none, .created row => some row
    | none, .finished _ _ => none
    | some old, .created _ => some old
    | some old, .finished _ f => some (old.finish f)
  keeps row write h := by
    rcases row with _ | old
    · rfl
    · cases write <;> cases h

/-- Tests are updated. -/
def testWrites : RowWrite TestRow TestRow := merging TestRow.updated

/-- Predictions are updated. -/
def predictionWrites : RowWrite PredictionRow PredictionRow := merging predictionUpdated

/-- `DO NOTHING`: the row that is there stays. -/
def firstWrites (ρ : Type) : RowWrite ρ ρ := merging fun old _ => old

/-! ## Statements -/

/-- The rows of a database. -/
structure Tables : Type where
  tests : OrderedDict String TestRow := .empty
  runs : OrderedDict String RunRow := .empty
  executions : OrderedDict String ExecutionRow := .empty
  schedules : OrderedDict String ScheduleRow := .empty
  /-- by run and pair, which are `UNIQUE` -/
  predictions : OrderedDict (String × String × String) PredictionRow := .empty

/-- The statements that write. -/
inductive Statement : Type where
  /-- `INSERT INTO tests … ON CONFLICT(id) DO UPDATE` -/
  | upsertTest (row : TestRow)
  /-- `INSERT INTO runs` -/
  | insertRun (row : RunRow)
  /-- `INSERT INTO executions`, perhaps `ON CONFLICT(id) DO NOTHING` -/
  | insertExecution (row : ExecutionRow) (doNothing : Bool)
  /-- `INSERT INTO schedules` -/
  | insertSchedule (row : ScheduleRow)
  /-- `INSERT INTO predictions`, perhaps `ON CONFLICT(…) DO UPDATE` -/
  | insertPrediction (row : PredictionRow) (doUpdate : Bool)
  /-- `UPDATE runs … WHERE id=` -/
  | updateRun (runID : String) (f : Finish)
  deriving DecidableEq

namespace Tables

variable (t : Tables)

/-- `INSERT INTO runs`. -/
def insertRun (row : RunRow) : Except Violation Tables :=
  if ¬ (row.status ∈ runStatuses ∧ 0 < row.workerCount) then .error .check
  else if row.id ∈ t.runs.keys then .error .unique
  else .ok { t with runs := t.runs.insert row.id row }

/-- `INSERT INTO executions`. -/
def insertExecution (row : ExecutionRow) (doNothing : Bool) : Except Violation Tables :=
  if row.durationSeconds < 0 then .error .check
  else if row.id ∈ t.executions.keys then
    if doNothing then .ok t else .error .unique
  else if row.runID ∈ t.runs.keys ∧ row.testID ∈ t.tests.keys then
    .ok { t with executions := t.executions.insert row.id row }
  else .error .foreignKey

/-- `INSERT INTO schedules`. -/
def insertSchedule (row : ScheduleRow) : Except Violation Tables :=
  if row.id ∈ t.schedules.keys ∨ row.runID ∈ t.schedules.values.map ScheduleRow.runID then
    .error .unique
  else if row.runID ∈ t.runs.keys then
    .ok { t with schedules := t.schedules.insert row.id row }
  else .error .foreignKey

/-- `INSERT INTO predictions`. -/
def insertPrediction (row : PredictionRow) (doUpdate : Bool) : Except Violation Tables :=
  if row.sharedResources = none then .error .notNull
  else if ¬ ((0 ≤ row.probability ∧ row.probability ≤ 1) ∧ row.testA < row.testB) then
    .error .check
  else
    match t.predictions.get? row.pair with
    | some old =>
      if doUpdate then
        .ok { t with predictions := t.predictions.insert row.pair (predictionUpdated old row) }
      else .error .unique
    | none =>
      if row.runID ∈ t.runs.keys ∧ row.testA ∈ t.tests.keys ∧ row.testB ∈ t.tests.keys then
        .ok { t with predictions := t.predictions.insert row.pair row }
      else .error .foreignKey

/-- `UPDATE runs`, which touches no row if there is none. -/
def updateRun (runID : String) (f : Finish) : Except Violation Tables :=
  match t.runs.get? runID with
  | none => .ok t
  | some old =>
    if f.status ∈ runStatuses then .ok { t with runs := t.runs.insert runID (old.finish f) }
    else .error .check

/-- One statement. -/
def exec : Statement → Except Violation Tables
  | .upsertTest row => .ok { t with tests := testWrites.apply t.tests row.id row }
  | .insertRun row => t.insertRun row
  | .insertExecution row doNothing => t.insertExecution row doNothing
  | .insertSchedule row => t.insertSchedule row
  | .insertPrediction row doUpdate => t.insertPrediction row doUpdate
  | .updateRun runID f => t.updateRun runID f

end Tables

/-! ## Transactions -/

/-- How the rest of the world treats a transaction that violates nothing. -/
inductive Fate : Type where
  /-- it is committed, and the client is told so -/
  | acknowledged
  /-- it is committed, but the client gets an error -/
  | unacknowledged
  /-- it is rolled back, and the client gets an error -/
  | failed
  deriving DecidableEq

/-- What a call of a client sends, and what becomes of it. -/
structure Transaction : Type where
  statements : List Statement
  fate : Fate
  deriving DecidableEq

/-- The tables after a transaction, if it violates nothing. -/
def Tables.commit (t : Tables) (statements : List Statement) : Except Violation Tables :=
  statements.foldlM Tables.exec t

/-- A transaction in these tables: the tables after it, and whether the client gets no error. -/
def Tables.attempt (t : Tables) (x : Transaction) : Tables × Bool :=
  match t.commit x.statements with
  | .error _ => (t, false)
  | .ok t' =>
    match x.fate with
    | .acknowledged => (t', true)
    | .unacknowledged => (t', false)
    | .failed => (t, false)

/-- The statements of a transaction that have taken effect. -/
def Tables.effective (t : Tables) (x : Transaction) : List Statement :=
  if (t.commit x.statements).isOk ∧ x.fate ≠ .failed then x.statements else []

/-- The tables after these transactions, in the order in which they were committed. -/
def Tables.after (t : Tables) (xs : List Transaction) : Tables :=
  xs.foldl (fun t x => (t.attempt x).1) t

/-- The statements that have taken effect. -/
def Tables.effects (t : Tables) : List Transaction → List Statement
  | [] => []
  | x :: rest => t.effective x ++ (t.attempt x).1.effects rest

/-- The transactions, with what the clients were told. -/
def Tables.answers (t : Tables) : List Transaction → List (Transaction × Bool)
  | [] => []
  | x :: rest => (x, (t.attempt x).2) :: (t.attempt x).1.answers rest

end ConflictGraph.Sql
