import ConflictGraph.GoCommand

/-!
# One test of the Go executor

`executeOne` starts a process under a context of its own, waits for it, kills what is left of
its process group, cleans the tracer up, and only then looks at the context to decide the status.
Here each of these steps has its instant, so the deadline and the cancellation may fall between
any two of them.
-/

namespace ConflictGraph.Go

/-! ## The context -/

/-- Why a context has ended. -/
inductive ContextError : Type where
  | canceled
  | deadlineExceeded
  deriving DecidableEq

/-- The context of the caller: the instant at which it is cancelled, if it is, and whether a
context under it notices that before a deadline at the same instant. -/
structure ParentContext : Type where
  cancelledAt : Option ℤ
  cancelFirst : Bool

structure TimeoutContext : Type extends ParentContext where
  deadline : ℤ

/-- `context.WithTimeout`. -/
def contextWithTimeout (parent : ParentContext) (now timeout : ℤ) : TimeoutContext :=
  { parent with deadline := now + timeout }

/-- When and why the context ends. The first of the two events stays its error for good. -/
def TimeoutContext.ends (ctx : TimeoutContext) : ℤ × ContextError :=
  match ctx.cancelledAt with
  | none => (ctx.deadline, .deadlineExceeded)
  | some c =>
    if c < ctx.deadline ∨ c = ctx.deadline ∧ ctx.cancelFirst then (c, .canceled)
    else (ctx.deadline, .deadlineExceeded)

/-- `ctx.Err()` at an instant. -/
def TimeoutContext.err (ctx : TimeoutContext) (now : ℤ) : Option ContextError :=
  if ctx.ends.1 ≤ now then some ctx.ends.2 else none

/-! ## The process -/

/-- What happens to a process that is started, in nanoseconds. `exitCode` is what
`ExitError.ExitCode` reads: the code of the exit, or -1 after a signal. -/
structure ProcessRun : Type where
  startedAt : ℤ
  lifetime : ℕ
  exitCode : ℤ
  /-- how long the tracer takes to register the process -/
  registering : ℕ
  /-- `Wait` learns that the context ended and that the group was signalled -/
  interrupted : Bool
  /-- how long `Wait` waits for the output pipes, which descendants may hold open -/
  pipes : ℕ
  /-- how long the kill of the descendants takes -/
  kill : ℕ
  killError : Option String
  /-- how long the cleanup of the tracer takes -/
  cleanup : ℕ
  cleanupError : Option String
  /-- from the cleanup to the first look at `ctx.Err()` -/
  firstLook : ℕ
  /-- from the first look to the second -/
  secondLook : ℕ

namespace ProcessRun

variable (p : ProcessRun)

def exitAt : ℤ := p.startedAt + p.lifetime

/-- `Wait` has the exit of the process: it is called when the process is registered. -/
def collectedAt : ℤ := max p.exitAt (p.startedAt + p.registering)

/-- `time.Now()` after the cleanup. -/
def endedAt : ℤ := p.collectedAt + p.pipes + p.kill + p.cleanup

/-- The instant of `errors.Is(ctx.Err(), context.DeadlineExceeded)`. -/
def firstLookAt : ℤ := p.endedAt + p.firstLook

/-- The instant of `errors.Is(ctx.Err(), context.Canceled)`. -/
def secondLookAt : ℤ := p.firstLookAt + p.secondLook

/-- What `command.Wait` reports. It prefers the process's own error; the copying of the output
never fails, as a `limitedBuffer` takes every write. -/
def waitReport (ctx : TimeoutContext) : Exit :=
  if p.exitCode ≠ 0 then .code p.exitCode
  else if ctx.ends.1 ≤ p.collectedAt ∧ p.interrupted then .other
  else .success

/-- The errors that `executeOne` returns along with its result. -/
def problem (nodeID : String) : Option String :=
  joinErrors [p.killError.map ("terminate descendants: " ++ ·),
    p.cleanupError.map (s!"clean up trace attribution for {nodeID}: " ++ ·)]

/-- The instant at which the context is looked at for the event that ended it. -/
def decisionAt (ctx : TimeoutContext) : ℤ :=
  match ctx.ends.2 with
  | .deadlineExceeded => p.firstLookAt
  | .canceled => p.secondLookAt

end ProcessRun

/-- How `executeOne` gets from `command.Start` to `command.Wait`. -/
inductive Launch : Type where
  /-- the process does not start -/
  | startFails (text : String)
  /-- the tracer does not register the process, which is killed -/
  | registerFails (text : String)
  | running (process : ProcessRun)

/-- `e.Adapter.Timeout`, with its default of five minutes. -/
def effectiveTimeout (timeout : ℤ) : ℤ := if timeout ≤ 0 then 5 * 60 * 1000000000 else timeout

/-- The context of a test whose `executeOne` is called at `called`. -/
def testContext (timeout called : ℤ) (parent : ParentContext) : TimeoutContext :=
  contextWithTimeout parent called (effectiveTimeout timeout)

/-- `Executor.executeOne`, called at `called` by an executor with this `Adapter.Timeout`. -/
def executeOne (timeout : ℤ) (parent : ParentContext) (runID : String) (test : ScheduledTest)
    (executionID : ExecutionID) (called : ℤ) : Launch → ExecutionResult × Option String
  | .startFails text => (.zero, some s!"start {test.nodeID}: {text}")
  | .registerFails text => (.zero, some s!"register trace attribution: {text}")
  | .running p =>
    let ctx := testContext timeout called parent
    let outcome := verdict (ctx.err p.firstLookAt = some .deadlineExceeded)
      (ctx.err p.secondLookAt = some .canceled) (p.waitReport ctx)
    (⟨executionID, runID, test.testID, test.nodeID, test.worker, outcome.1, p.startedAt, p.endedAt,
      outcome.2.1, outcome.2.2⟩, p.problem test.nodeID)

/-! ## When the context ends -/

theorem TimeoutContext.ends_eq (ctx : TimeoutContext) :
    ctx.ends = (ctx.deadline, .deadlineExceeded) ∨
      ∃ c, ctx.cancelledAt = some c ∧ ctx.ends = (c, .canceled) := by
  unfold TimeoutContext.ends
  split
  · exact .inl rfl
  · rename_i c hc
    split
    · exact .inr ⟨c, hc, rfl⟩
    · exact .inl rfl

theorem TimeoutContext.lt_ends_iff (ctx : TimeoutContext) (now : ℤ) :
    now < ctx.ends.1 ↔ now < ctx.deadline ∧ ∀ c ∈ ctx.cancelledAt, now < c := by
  unfold TimeoutContext.ends
  split
  · rename_i hnone
    simp [hnone]
  · rename_i c hc
    simp only [hc, Option.mem_def, Option.some.injEq, forall_eq']
    split
    all_goals omega

/-- The context has ended by the instant if its deadline or its cancellation has come. -/
theorem TimeoutContext.ends_le_iff (ctx : TimeoutContext) (now : ℤ) :
    ctx.ends.1 ≤ now ↔ ctx.deadline ≤ now ∨ ∃ c ∈ ctx.cancelledAt, c ≤ now := by
  rw [← not_lt, ctx.lt_ends_iff, not_and_or, not_lt]
  simp only [not_forall, not_lt, exists_prop]

/-! ## What executeOne reports -/

/-- What a process's own exit makes of its test. -/
def ownExit (exitCode : ℤ) : ExecutionStatus × ℤ × Bool :=
  if exitCode = 0 then (.passed, 0, false) else (.failed, exitCode, false)

/-- What the end of the context makes of a test. -/
def ContextError.verdict : ContextError → ExecutionStatus × ℤ × Bool
  | .deadlineExceeded => (.timedOut, -1, true)
  | .canceled => (.cancelled, -1, false)

theorem ProcessRun.collectedAt_le_firstLookAt (p : ProcessRun) : p.collectedAt ≤ p.firstLookAt := by
  rw [ProcessRun.firstLookAt, ProcessRun.endedAt]
  omega

theorem ProcessRun.exitAt_le_collectedAt (p : ProcessRun) : p.exitAt ≤ p.collectedAt :=
  le_max_left _ _

theorem ProcessRun.firstLookAt_le_decisionAt (p : ProcessRun) (ctx : TimeoutContext) :
    p.firstLookAt ≤ p.decisionAt ctx := by
  rw [ProcessRun.decisionAt, ProcessRun.secondLookAt]
  split
  · exact le_rfl
  · omega

/-- The outcome is decided by the context if that has ended when it is looked at, and by the
process's exit otherwise. The report of `Wait` on the context never gets through. -/
theorem verdict_eq (p : ProcessRun) (ctx : TimeoutContext) :
    verdict (ctx.err p.firstLookAt = some .deadlineExceeded)
        (ctx.err p.secondLookAt = some .canceled) (p.waitReport ctx) =
      if ctx.ends.1 ≤ p.decisionAt ctx then ctx.ends.2.verdict else ownExit p.exitCode := by
  have hcollected := p.collectedAt_le_firstLookAt
  have hlooks : p.firstLookAt ≤ p.secondLookAt := by
    rw [ProcessRun.secondLookAt]
    omega
  have hreport : p.firstLookAt < ctx.ends.1 →
      verdict false false (p.waitReport ctx) = ownExit p.exitCode := by
    intro hlt
    have hnot : ¬(ctx.ends.1 ≤ p.collectedAt ∧ p.interrupted) := fun h => by omega
    rw [ProcessRun.waitReport, if_neg hnot, ownExit]
    by_cases hzero : p.exitCode = 0
    · rw [if_neg (not_not.mpr hzero), if_pos hzero]
      rfl
    · rw [if_pos hzero, if_neg hzero]
      rfl
  rcases ctx.ends_eq with hends | ⟨c, -, hends⟩
  · simp only [TimeoutContext.err, ProcessRun.decisionAt, hends] at hreport ⊢
    by_cases hle : ctx.deadline ≤ p.firstLookAt
    · simp [hle, verdict, ContextError.verdict]
    · simp [hle, hreport (not_le.mp hle)]
  · simp only [TimeoutContext.err, ProcessRun.decisionAt, hends] at hreport ⊢
    by_cases hle : c ≤ p.secondLookAt
    · simp [hle, verdict, ContextError.verdict]
    · simp [hle, hreport (by omega)]

/-- The report is that of the process's own exit if the process exits before the deadline and
before any cancellation, and blames the context only if one of the two came first. -/
structure ReportsOwnExit (ctx : TimeoutContext) (p : ProcessRun) (r : ExecutionResult) : Prop where
  own_exit : p.exitAt < ctx.deadline → (∀ c ∈ ctx.cancelledAt, p.exitAt < c) →
    (p.exitCode = 0 → r.status = .passed ∧ r.exitCode = 0) ∧
      (p.exitCode ≠ 0 → r.status = .failed ∧ r.exitCode = p.exitCode)
  interrupted : r.status = .timedOut ∨ r.status = .cancelled →
    ctx.deadline ≤ p.exitAt ∨ ∃ c ∈ ctx.cancelledAt, c ≤ p.exitAt

variable {timeout called : ℤ} {parent : ParentContext} {runID : String} {test : ScheduledTest}
  {executionID : ExecutionID}

/-- **A test is reported by its own exit exactly if its context does not end between the exit and
the look at the context**, which comes after the kill of the descendants and the cleanup. -/
theorem executeOne_reportsOwnExit_iff (p : ProcessRun) :
    ReportsOwnExit (testContext timeout called parent) p
        (executeOne timeout parent runID test executionID called (.running p)).1 ↔
      ¬(p.exitAt < (testContext timeout called parent).ends.1 ∧
        (testContext timeout called parent).ends.1 ≤
          p.decisionAt (testContext timeout called parent)) := by
  set ctx := testContext timeout called parent with hctx
  set r := (executeOne timeout parent runID test executionID called (.running p)).1 with hr
  have hstatus : r.status = (if ctx.ends.1 ≤ p.decisionAt ctx then ctx.ends.2.verdict
      else ownExit p.exitCode).1 := by
    rw [← verdict_eq]
    rfl
  have hcode : r.exitCode = (if ctx.ends.1 ≤ p.decisionAt ctx then ctx.ends.2.verdict
      else ownExit p.exitCode).2.1 := by
    rw [← verdict_eq]
    rfl
  have hexit : p.exitAt ≤ p.decisionAt ctx :=
    (p.exitAt_le_collectedAt.trans p.collectedAt_le_firstLookAt).trans
      (p.firstLookAt_le_decisionAt ctx)
  refine ⟨?_, fun h => ?_⟩
  · rintro h ⟨hlt, hle⟩
    rw [if_pos hle] at hstatus
    have hblamed : r.status = .timedOut ∨ r.status = .cancelled := by
      rw [hstatus]
      cases ctx.ends.2 with
      | canceled => exact .inr rfl
      | deadlineExceeded => exact .inl rfl
    exact absurd ((ctx.ends_le_iff p.exitAt).mpr (h.interrupted hblamed)) (not_le.mpr hlt)
  · by_cases hlt : p.exitAt < ctx.ends.1
    · have hnot : ¬ ctx.ends.1 ≤ p.decisionAt ctx := fun hle => h ⟨hlt, hle⟩
      rw [if_neg hnot, ownExit] at hstatus hcode
      refine ⟨fun _ _ => ⟨fun hzero => ?_, fun hne => ?_⟩, fun hblamed => ?_⟩
      · rw [if_pos hzero] at hstatus hcode
        exact ⟨hstatus, hcode⟩
      · rw [if_neg hne] at hstatus hcode
        exact ⟨hstatus, hcode⟩
      · split at hstatus
        all_goals rw [hstatus] at hblamed; rcases hblamed with h | h <;> cases h
    · have hended := (ctx.ends_le_iff p.exitAt).mp (not_lt.mp hlt)
      exact ⟨fun hdeadline hcancel =>
        absurd ((ctx.lt_ends_iff p.exitAt).mpr ⟨hdeadline, hcancel⟩) hlt, fun _ => hended⟩

/-- A test that passes a second before its deadline, with a cleanup of a second and a half. -/
def slowCleanup : ProcessRun :=
  { startedAt := 0, lifetime := 1000000000, exitCode := 0, registering := 0, interrupted := false,
    pipes := 0, kill := 0, killError := none, cleanup := 1500000000, cleanupError := none,
    firstLook := 0, secondLook := 0 }

/-- It is reported as timed out, with the exit code -1. -/
theorem not_reportsOwnExit_slowCleanup :
    ¬ ReportsOwnExit (testContext 2000000000 0 ⟨none, false⟩) slowCleanup
      (executeOne 2000000000 ⟨none, false⟩ "run" ⟨"a", "t.py::a", 0, 0, 1, 1, 0, []⟩
        ⟨"x", by decide⟩ 0 (.running slowCleanup)).1 := by
  intro h
  have hpassed := ((h.own_exit (by decide) (by decide)).1 rfl).1
  exact absurd hpassed (by decide)

/-! ## The step of the executor -/

/-- The executor's goroutine returns from a running process with what `executeOne` returns, when
the answers it gets are those of the context. -/
theorem move_finish_eq_executeOne (e : Execution) (s : ExecutorState) (index : ℕ)
    (rest : List ScheduledTest) (p : ProcessRun)
    (hcancelled : (testContext timeout called parent).err p.firstLookAt ≠ some .deadlineExceeded →
      s.cancelled = decide ((testContext timeout called parent).err p.secondLookAt =
        some .canceled)) :
    e.move s index (.running test rest executionID p.startedAt)
        (.finish ((testContext timeout called parent).err p.firstLookAt = some .deadlineExceeded)
          (p.waitReport (testContext timeout called parent)) p.endedAt (p.problem test.nodeID)) =
      some (s.goto index (.returned rest
        (executeOne timeout parent e.schedule.runID test executionID called (.running p)).1
        (executeOne timeout parent e.schedule.runID test executionID called (.running p)).2)) := by
  rw [Execution.move, executeOne]
  by_cases hdeadline : (testContext timeout called parent).err p.firstLookAt =
      some .deadlineExceeded
  · simp only [hdeadline, decide_true, verdict, if_true]
  · rw [hcancelled hdeadline]

end ConflictGraph.Go
