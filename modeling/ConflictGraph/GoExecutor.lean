import ConflictGraph.GoScheduler

/-!
# The executor

`Executor.Execute` runs one goroutine for each worker. Each goes through its tests in
the order of their planned starts, and reports results and errors on two buffered
channels; the parent context, or fail-fast, can cancel all of them. A state holds
where each goroutine stands, what is on the channels, what the sink was given, and
whether the shared context is cancelled. An action says which goroutine moves and how
its environment (process, tracer, sink, timer) answers.
-/

namespace ConflictGraph.Go

/-! ## Results -/

/-- `types.ExecutionResult`, without the captured output. Instants are nanoseconds. -/
structure ExecutionResult : Type where
  executionID : String
  runID : String
  testID : String
  nodeID : String
  worker : ℤ
  status : ExecutionStatus
  startedAt : ℤ
  endedAt : ℤ
  exitCode : ℤ
  timedOut : Bool
  deriving DecidableEq

/-- `types.ExecutionResult{}`. -/
def ExecutionResult.zero : ExecutionResult :=
  ⟨"", "", "", "", 0, .pending, 0, 0, 0, false⟩

/-- What `uuid.NewString` returns: never the empty text, which marks a zero result. -/
abbrev ExecutionID : Type := { id : String // id ≠ "" }

/-- What `command.Wait` reports. -/
inductive Exit : Type where
  | success
  /-- an `*exec.ExitError` with this code -/
  | code : ℤ → Exit
  /-- any other error -/
  | other
  deriving DecidableEq

/-- The status, exit code and timeout flag that `executeOne` derives: its own deadline
comes first, then cancellation, then the exit. -/
def verdict (deadline cancelled : Bool) (exit : Exit) : ExecutionStatus × ℤ × Bool :=
  if deadline then (.timedOut, -1, true)
  else if cancelled then (.cancelled, -1, false)
  else
    match exit with
    | .success => (.passed, 0, false)
    | .code c => (.failed, c, false)
    | .other => (.infraError, -1, false)

/-- `Schedule.ByWorker`, one group. -/
def Schedule.byWorker (s : Schedule) (rt : Runtime) (worker : ℕ) : List ScheduledTest :=
  rt.sortSlice (fun a b => a.estimatedStart < b.estimatedStart)
    (s.tests.filter fun test => test.worker = worker)

/-! ## Goroutines -/

/-- Where a worker's goroutine stands; `rest` are the tests it has not taken. -/
inductive Stage : Type where
  /-- at the head of the loop -/
  | loop (rest : List ScheduledTest)
  /-- in `waitForPlannedStart` -/
  | waiting (test : ScheduledTest) (rest : List ScheduledTest)
  /-- about to start the process in `executeOne` -/
  | ready (test : ScheduledTest) (rest : List ScheduledTest)
  /-- in `executeOne`, the process runs and the tracer registers it -/
  | registering (test : ScheduledTest) (rest : List ScheduledTest) (executionID : ExecutionID)
      (startedAt : ℤ)
  /-- in `executeOne`, waiting for the process -/
  | running (test : ScheduledTest) (rest : List ScheduledTest) (executionID : ExecutionID)
      (startedAt : ℤ)
  /-- `executeOne` has returned; the result is not sent yet -/
  | returned (rest : List ScheduledTest) (result : ExecutionResult) (err : Option String)
  /-- before `SaveExecution` -/
  | saving (rest : List ScheduledTest) (result : ExecutionResult) (err : Option String)
  /-- before `if err != nil` -/
  | judging (rest : List ScheduledTest) (result : ExecutionResult) (err : Option String)
  /-- the error is sent, and fail-fast cancels next -/
  | cancelling (rest : List ScheduledTest)
  /-- the goroutine has returned -/
  | done
  deriving DecidableEq

/-- What a goroutine does next, with the answer of its environment. -/
inductive Move : Type where
  /-- take the next test, or leave the loop -/
  | take
  /-- the planned start has come -/
  | begin
  /-- the wait is interrupted by the context -/
  | interrupt
  /-- the process starts -/
  | start (executionID : ExecutionID) (startedAt : ℤ)
  /-- the process does not start -/
  | startFails (text : String)
  /-- the tracer registers the process -/
  | register
  /-- the tracer does not register the process -/
  | registerFails (text : String)
  /-- the process ends; `problem` is the error of the kill or of the cleanup -/
  | finish (deadline : Bool) (exit : Exit) (endedAt : ℤ) (problem : Option String)
  /-- send the result -/
  | report
  /-- the sink answers -/
  | save (err : Option String)
  /-- look at the error and at the status -/
  | judge
  /-- call `cancel` after an error -/
  | cancel
  deriving DecidableEq

/-- An action of the system. -/
inductive Action : Type where
  /-- the parent context is cancelled -/
  | parentCancel
  /-- a worker's goroutine moves -/
  | worker (index : ℕ) (move : Move)
  deriving DecidableEq

/-- The parts of the system that do not change while it runs. -/
structure Execution : Type where
  schedule : Schedule
  failFast : Bool
  hasSink : Bool
  hasTracer : Bool

structure ExecutorState : Type where
  stages : List Stage
  cancelled : Bool
  /-- the buffered results -/
  results : List ExecutionResult
  /-- the buffered errors -/
  errors : List String
  /-- what `SaveExecution` was called with -/
  saved : List ExecutionResult
  deriving DecidableEq

/-- The state in which the goroutines start. -/
def Execution.init (e : Execution) (rt : Runtime) : ExecutorState :=
  ⟨(List.range e.schedule.workers.toNat).map fun worker => .loop (e.schedule.byWorker rt worker),
    false, [], [], []⟩

/-- Put the goroutine of a worker into another stage. -/
def ExecutorState.goto (s : ExecutorState) (index : ℕ) (stage : Stage) : ExecutorState :=
  { s with stages := s.stages.set index stage }

/-- `results <- result`, if the buffer has room. -/
def Execution.sendResult (e : Execution) (s : ExecutorState) (result : ExecutionResult) :
    Option ExecutorState :=
  if s.results.length < e.schedule.tests.length then
    some { s with results := s.results ++ [result] }
  else none

/-- `errorsChannel <- err`, if the buffer has room. -/
def Execution.sendError (e : Execution) (s : ExecutorState) (err : String) :
    Option ExecutorState :=
  if s.errors.length < e.schedule.tests.length * 2 then
    some { s with errors := s.errors ++ [err] }
  else none

/-- One move of the goroutine `index`, which stands at `stage`. -/
def Execution.move (e : Execution) (s : ExecutorState) (index : ℕ) :
    Stage → Move → Option ExecutorState
  | .loop [], .take => some (s.goto index .done)
  | .loop (test :: rest), .take =>
    if s.cancelled then some (s.goto index .done) else some (s.goto index (.waiting test rest))
  | .waiting test rest, .begin => some (s.goto index (.ready test rest))
  | .waiting _ _, .interrupt => if s.cancelled then some (s.goto index .done) else none
  | .ready test rest, .start executionID startedAt =>
    if e.hasTracer then some (s.goto index (.registering test rest executionID startedAt))
    else some (s.goto index (.running test rest executionID startedAt))
  | .ready test rest, .startFails text =>
    some (s.goto index (.returned rest .zero (some s!"start {test.nodeID}: {text}")))
  | .registering test rest executionID startedAt, .register =>
    some (s.goto index (.running test rest executionID startedAt))
  | .registering _ rest _ _, .registerFails text =>
    some (s.goto index (.returned rest .zero (some s!"register trace attribution: {text}")))
  | .running test rest executionID startedAt, .finish deadline exit endedAt problem =>
    let outcome := verdict deadline s.cancelled exit
    some (s.goto index (.returned rest
      ⟨executionID, e.schedule.runID, test.testID, test.nodeID, test.worker, outcome.1,
        startedAt, endedAt, outcome.2.1, outcome.2.2⟩ problem))
  | .returned rest result err, .report =>
    if result.executionID = "" then some (s.goto index (.judging rest result err))
    else
      match e.sendResult s result with
      | none => none
      | some sent =>
        some (sent.goto index
          (if e.hasSink then .saving rest result err else .judging rest result err))
  | .saving rest result err, .save answer =>
    let called := { s with saved := s.saved ++ [result] }
    match answer with
    | none => some (called.goto index (.judging rest result err))
    | some text =>
      match e.sendError called s!"persist execution {result.executionID}: {text}" with
      | none => none
      | some sent => some (sent.goto index (.judging rest result err))
  | .judging rest result err, .judge =>
    match err with
    | some text =>
      match e.sendError s text with
      | none => none
      | some sent => some (sent.goto index (if e.failFast then .cancelling rest else .loop rest))
    | none =>
      if e.failFast ∧ result.status ≠ .passed then
        some ({ s with cancelled := true }.goto index .done)
      else some (s.goto index (.loop rest))
  | .cancelling rest, .cancel => some ({ s with cancelled := true }.goto index (.loop rest))
  | _, _ => none

/-- One step of the system. -/
def Execution.step (e : Execution) (s : ExecutorState) : Action → Option ExecutorState
  | .parentCancel => some { s with cancelled := true }
  | .worker index move =>
    match s.stages[index]? with
    | none => none
    | some stage => e.move s index stage move

/-- A step of a worker is a move of its goroutine from where that stands. -/
theorem step_worker {e : Execution} {s t : ExecutorState} {index : ℕ} {move : Move}
    (h : e.step s (.worker index move) = some t) :
    ∃ old, s.stages[index]? = some old ∧ e.move s index old move = some t := by
  rw [Execution.step] at h
  rcases hold : s.stages[index]? with _ | old
  · simp only [hold, reduceCtorEq] at h
  · simp only [hold] at h
    exact ⟨old, rfl, h⟩

/-! ## What Execute returns -/

/-- All goroutines have returned: `done` is closed and `Execute` goes on. -/
def ExecutorState.Finished (s : ExecutorState) : Prop := ∀ stage ∈ s.stages, stage = .done

instance (s : ExecutorState) : Decidable s.Finished :=
  inferInstanceAs (Decidable (∀ stage ∈ s.stages, stage = .done))

/-- The results that `Execute` returns: those on the channel, by start. -/
def ExecutorState.output (s : ExecutorState) (rt : Runtime) : List ExecutionResult :=
  rt.sortSlice (fun a b => a.startedAt < b.startedAt) s.results

/-- The error that `Execute` returns; `none` is nil. -/
def ExecutorState.failure (s : ExecutorState) : Option String :=
  if s.errors = [] then none else some ("\n".intercalate s.errors)

end ConflictGraph.Go
