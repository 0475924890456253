import Mathlib.Data.List.Sort
import ConflictGraph.PyTypes
import ConflictGraph.Transition

/-!
# The Python executor

`ScheduleExecutor.execute` runs one coroutine for each worker on one event loop. What a
coroutine does from where it is resumed to where it waits next is one step: it can only wait
in the sleep before a planned start and for its process. The queue of a worker has all its
items before the coroutines start, so `get` does not wait; the lock is held over nothing that
waits, so it is free; and the process is started before `create_subprocess_exec` waits for
the first time. `on_result` is taken to return.

A coroutine looks at `_cancelled` at the head of its loop, and not again after the sleep. So
the flag keeps all coroutines from new processes but those that are asleep
(`startsNoMore_iff`).
-/

namespace ConflictGraph.Py

inductive ExecutionStatus : Type where
  | pending
  | running
  | passed
  | failed
  | timedOut
  | cancelled
  | infraError
  deriving DecidableEq

/-- `ExecutionResult`, without the captured output and the instants. -/
structure ExecutionResult : Type where
  runID : String
  testID : String
  nodeID : String
  worker : ℤ
  status : ExecutionStatus
  exitCode : ℤ
  timedOut : Bool
  deriving DecidableEq

/-- A schedule that is executed; `execute` finds a queue for every worker number. -/
structure Execution : Type where
  schedule : Schedule
  failFast : Bool
  inRange : ∀ item ∈ schedule.tests, 0 ≤ item.worker ∧ item.worker < schedule.workers

/-- The order in which the items are put into the queues. -/
def ScheduledTest.queuedBefore (a b : ScheduledTest) : Prop :=
  a.worker < b.worker ∨ (a.worker = b.worker ∧ a.estimatedStart ≤ b.estimatedStart)

instance : DecidableRel ScheduledTest.queuedBefore := fun _ _ => inferInstanceAs (Decidable (_ ∨ _))

/-- The queue of a worker; the sentinel is its end. -/
def Execution.queue (e : Execution) (worker : ℕ) : List ScheduledTest :=
  (e.schedule.tests.insertionSort ScheduledTest.queuedBefore).filter (·.worker = worker)

/-- Where the coroutine of a worker waits; `rest` is what its queue has. -/
inductive Coroutine : Type where
  /-- it has not run yet -/
  | created (rest : List ScheduledTest)
  /-- in `asyncio.sleep` before the planned start -/
  | asleep (item : ScheduledTest) (rest : List ScheduledTest)
  /-- in `_run_one`, for the process -/
  | running (item : ScheduledTest) (rest : List ScheduledTest)
  /-- it has returned -/
  | done
  deriving DecidableEq

def Coroutine.isAsleep : Coroutine → Bool
  | .asleep _ _ => true
  | _ => false

/-- The tests that the coroutine has still to start a process for. -/
def Coroutine.owed : Coroutine → List ScheduledTest
  | .created rest => rest
  | .asleep item rest => item :: rest
  | .running _ rest => rest
  | .done => []

/-- A `ScheduleExecutor` in `execute`. -/
structure ScheduleExecutor : Type where
  /-- `_cancelled` -/
  cancelled : Bool
  /-- the time since `schedule_started` -/
  elapsed : ℚ
  workers : List Coroutine
  results : List ExecutionResult
  /-- the processes that were started, each with the worker whose coroutine did it -/
  started : List (ℕ × ScheduledTest)
  deriving DecidableEq

/-- What happens next; `starts` says which tests the system starts a process for, if it is asked
to before the coroutine waits again. -/
inductive ExecutorAction : Type where
  /-- time passes -/
  | advance (elapsed : ℚ)
  /-- `cancel` is called -/
  | cancel
  /-- the coroutine of a worker runs for the first time -/
  | begin (worker : ℕ) (starts : ScheduledTest → Bool)
  /-- the planned start has come -/
  | wake (worker : ℕ) (starts : ScheduledTest → Bool)
  /-- the process has ended -/
  | finish (worker : ℕ) (timedOut : Bool) (exitCode : ℤ) (starts : ScheduledTest → Bool)

/-- The state when the coroutines are created. -/
def Execution.init (e : Execution) : ScheduleExecutor :=
  ⟨false, 0, (List.range e.schedule.workers.toNat).map fun worker => .created (e.queue worker), [], []⟩

namespace ScheduleExecutor

/-- The coroutine of a worker waits somewhere else, or has returned. -/
def goto (s : ScheduleExecutor) (worker : ℕ) (coroutine : Coroutine) : ScheduleExecutor :=
  { s with workers := s.workers.set worker coroutine }

/-- The status of a process that was started. -/
def statusOf (timedOut : Bool) (exitCode : ℤ) : ExecutionStatus :=
  if timedOut then .timedOut else if exitCode = 0 then .passed else .failed

/-- What a coroutine does with the result of `_run_one`. -/
def record (e : Execution) (s : ScheduleExecutor) (item : ScheduledTest) (status : ExecutionStatus)
    (exitCode : ℤ) : ScheduleExecutor :=
  { s with
    results := s.results ++ [⟨e.schedule.runID, item.testID, item.nodeID, item.worker, status,
      exitCode, decide (status = .timedOut)⟩]
    cancelled := s.cancelled || (e.failFast && decide (status ≠ .passed)) }

/-- The process of an item is started. -/
def launch (s : ScheduleExecutor) (worker : ℕ) (item : ScheduledTest) (rest : List ScheduledTest) :
    ScheduleExecutor :=
  { s with started := s.started ++ [(worker, item)] }.goto worker (.running item rest)

/-- The loop of `run_worker`, from its head to where it waits next. Where the system refuses to
start a process, the `OSError` is a result, and the loop goes on. -/
def loop (e : Execution) (starts : ScheduledTest → Bool) (worker : ℕ) :
    ScheduleExecutor → List ScheduledTest → ScheduleExecutor
  | s, [] => s.goto worker .done
  | s, item :: rest =>
    if s.cancelled then s.goto worker .done
    else if s.elapsed < item.estimatedStart then s.goto worker (.asleep item rest)
    else if starts item then s.launch worker item rest
    else loop e starts worker (s.record e item .infraError (-1)) rest

/-- The rest of an iteration, after the sleep. -/
def wakeUp (e : Execution) (starts : ScheduledTest → Bool) (worker : ℕ) (s : ScheduleExecutor)
    (item : ScheduledTest) (rest : List ScheduledTest) : ScheduleExecutor :=
  if starts item then s.launch worker item rest
  else loop e starts worker (s.record e item .infraError (-1)) rest

/-- One action, where it is possible. -/
def step (e : Execution) (s : ScheduleExecutor) : ExecutorAction → Option ScheduleExecutor
  | .advance elapsed => if s.elapsed ≤ elapsed then some { s with elapsed } else none
  | .cancel => some { s with cancelled := true }
  | .begin worker starts =>
    match s.workers[worker]? with
    | some (.created rest) => some (s.loop e starts worker rest)
    | _ => none
  | .wake worker starts =>
    match s.workers[worker]? with
    | some (.asleep item rest) =>
      if item.estimatedStart ≤ s.elapsed then some (s.wakeUp e starts worker item rest) else none
    | _ => none
  | .finish worker timedOut exitCode starts =>
    match s.workers[worker]? with
    | some (.running item rest) =>
      some ((s.record e item (statusOf timedOut exitCode) exitCode).loop e starts worker rest)
    | _ => none

/-! ## What is started -/

variable {e : Execution} {s t : ScheduleExecutor} {l : ExecutorAction} {ls : List ExecutorAction}
  {worker : ℕ} {item : ScheduledTest} {rest : List ScheduledTest} {starts : ScheduledTest → Bool}

/-- The tests that the coroutine of a worker has started processes for. -/
def startedBy (s : ScheduleExecutor) (worker : ℕ) : List ScheduledTest :=
  (s.started.filter (·.1 = worker)).map Prod.snd

/-- The coroutine of a worker, on its way through its queue: the tests it has started and those it
owes come from there, in this order. -/
def Follows (e : Execution) (s : ScheduleExecutor) (worker : ℕ) : Prop :=
  ∃ coroutine, s.workers[worker]? = some coroutine ∧
    (s.startedBy worker ++ coroutine.owed).Sublist (e.queue worker)

/-- Only one worker has moved. -/
def MovesOnly (worker : ℕ) (s t : ScheduleExecutor) : Prop :=
  t.workers.length = s.workers.length ∧ ∀ other ≠ worker,
    t.workers[other]? = s.workers[other]? ∧ t.startedBy other = s.startedBy other

theorem movesOnly_goto (s : ScheduleExecutor) (worker : ℕ) (coroutine : Coroutine) :
    MovesOnly worker s (s.goto worker coroutine) :=
  ⟨List.length_set .., fun _ hother => ⟨List.getElem?_set_ne hother.symm, rfl⟩⟩

theorem movesOnly_launch (s : ScheduleExecutor) (worker : ℕ) (item : ScheduledTest)
    (rest : List ScheduledTest) : MovesOnly worker s (s.launch worker item rest) := by
  refine ⟨List.length_set .., fun other hother => ⟨List.getElem?_set_ne hother.symm, ?_⟩⟩
  simp [startedBy, launch, goto, hother.symm]

theorem startedBy_launch :
    (s.launch worker item rest).startedBy worker = s.startedBy worker ++ [item] := by
  simp [startedBy, launch, goto]

/-- A worker that starts the next item of its queue still follows it. -/
theorem follows_launch (hlt : worker < s.workers.length)
    (h : (s.startedBy worker ++ item :: rest).Sublist (e.queue worker)) :
    Follows e (s.launch worker item rest) worker := by
  refine ⟨.running item rest, List.getElem?_set_self hlt, ?_⟩
  rw [startedBy_launch, List.append_assoc]
  exact h

/-- So does one that only waits. -/
theorem follows_goto {coroutine : Coroutine} (hlt : worker < s.workers.length)
    (h : (s.startedBy worker ++ coroutine.owed).Sublist (e.queue worker)) :
    Follows e (s.goto worker coroutine) worker :=
  ⟨coroutine, List.getElem?_set_self hlt, h⟩

/-- From the head of the loop on, a coroutine keeps to its queue. -/
theorem follows_loop : ∀ {s : ScheduleExecutor}, worker < s.workers.length →
    (s.startedBy worker ++ rest).Sublist (e.queue worker) →
    Follows e (s.loop e starts worker rest) worker ∧
      MovesOnly worker s (s.loop e starts worker rest) := by
  -- by induction on the queue, as the loop goes on only after an `OSError`
  induction rest with
  | nil => exact fun hlt h => ⟨follows_goto hlt h, movesOnly_goto ..⟩
  | cons item rest ih =>
    intro s hlt h
    have hless : (s.startedBy worker).Sublist (e.queue worker) :=
      (List.sublist_append_left ..).trans h
    rw [loop]
    split
    · exact ⟨follows_goto hlt (by rwa [Coroutine.owed, List.append_nil]), movesOnly_goto ..⟩
    split
    · exact ⟨follows_goto hlt h, movesOnly_goto ..⟩
    split
    · exact ⟨follows_launch hlt h, movesOnly_launch ..⟩
    · have hskip : (s.startedBy worker ++ rest).Sublist (e.queue worker) :=
        ((List.sublist_cons_self item rest).append_left _).trans h
      exact @ih (s.record e item .infraError (-1)) hlt hskip

/-- Every worker keeps to its queue. -/
def Orderly (e : Execution) (s : ScheduleExecutor) : Prop :=
  ∀ worker, (worker < s.workers.length → Follows e s worker) ∧
    (s.workers.length ≤ worker → s.startedBy worker = [])

/-- If one worker moves and follows its queue, all do. -/
theorem Orderly.of_movesOnly (hs : Orderly e s) (hlt : worker < s.workers.length)
    (hfollows : Follows e t worker) (hmoves : MovesOnly worker s t) : Orderly e t := by
  obtain ⟨hlength, hothers⟩ := hmoves
  intro other
  rw [hlength]
  by_cases hother : other = worker
  · subst hother
    exact ⟨fun _ => hfollows, fun hle => absurd hlt (Nat.not_lt_of_le hle)⟩
  · obtain ⟨hworkers, hstarted⟩ := hothers other hother
    refine ⟨fun hlt => ?_, fun hle => hstarted.trans ((hs other).2 hle)⟩
    obtain ⟨coroutine, hcoroutine, hsublist⟩ := (hs other).1 hlt
    exact ⟨coroutine, hworkers.trans hcoroutine, hstarted ▸ hsublist⟩

/-- The coroutine that stands somewhere owes what comes from its queue. -/
theorem Orderly.sublist {coroutine : Coroutine} (hs : Orderly e s)
    (h : s.workers[worker]? = some coroutine) :
    worker < s.workers.length ∧
      (s.startedBy worker ++ coroutine.owed).Sublist (e.queue worker) := by
  obtain ⟨hlt, -⟩ := List.getElem?_eq_some_iff.mp h
  obtain ⟨found, hfound, hsublist⟩ := (hs worker).1 hlt
  obtain rfl := Option.some.inj (hfound.symm.trans h)
  exact ⟨hlt, hsublist⟩

/-- The step lemma. -/
theorem Orderly.of_step (h : s.step e l = some t) (hs : Orderly e s) : Orderly e t := by
  cases l with
  | advance elapsed =>
    simp only [step] at h
    split at h <;> cases h
    exact hs
  | cancel =>
    obtain rfl := Option.some.inj h
    exact hs
  | begin worker starts =>
    simp only [step] at h
    split at h <;> cases h
    rename_i rest hworker
    obtain ⟨hlt, hsublist⟩ := hs.sublist hworker
    obtain ⟨hfollows, hmoves⟩ := follows_loop hlt hsublist
    exact hs.of_movesOnly hlt hfollows hmoves
  | wake worker starts =>
    simp only [step] at h
    split at h
    · rename_i item rest hworker
      split at h <;> cases h
      obtain ⟨hlt, hsublist⟩ := hs.sublist hworker
      rw [wakeUp]
      split
      · exact hs.of_movesOnly hlt (follows_launch hlt hsublist) (movesOnly_launch ..)
      · have hskip : (s.startedBy worker ++ rest).Sublist (e.queue worker) :=
          ((List.sublist_cons_self item rest).append_left _).trans hsublist
        obtain ⟨hfollows, hmoves⟩ :=
          @follows_loop e worker rest starts (s.record e item .infraError (-1)) hlt hskip
        exact hs.of_movesOnly hlt hfollows hmoves
    · cases h
  | finish worker timedOut exitCode starts =>
    simp only [step] at h
    split at h <;> cases h
    rename_i item rest hworker
    obtain ⟨hlt, hsublist⟩ := hs.sublist hworker
    obtain ⟨hfollows, hmoves⟩ := @follows_loop e worker rest starts
      (s.record e item (statusOf timedOut exitCode) exitCode) hlt hsublist
    exact hs.of_movesOnly hlt hfollows hmoves

theorem orderly_init (e : Execution) : Orderly e e.init := by
  intro worker
  refine ⟨fun hlt => ⟨.created (e.queue worker), ?_, List.Sublist.refl _⟩, fun _ => rfl⟩
  rw [Execution.init, List.length_map, List.length_range] at hlt
  rw [Execution.init, List.getElem?_map, List.getElem?_range hlt, Option.map_some]

/-- Each scheduled test is started at most as often as it is scheduled, and by its own worker. -/
def StartsOnce (e : Execution) (s : ScheduleExecutor) : Prop :=
  (∀ start ∈ s.started, start.2.worker = start.1) ∧
    ∀ item, (s.started.map Prod.snd).count item ≤ e.schedule.tests.count item

theorem mem_startedBy {start : ℕ × ScheduledTest} (h : start ∈ s.started) :
    start.2 ∈ s.startedBy start.1 :=
  List.mem_map_of_mem (List.mem_filter.mpr ⟨h, decide_eq_true rfl⟩)

theorem Orderly.startedBy_sublist (hs : Orderly e s) (worker : ℕ) :
    (s.startedBy worker).Sublist (e.queue worker) := by
  rcases Nat.lt_or_ge worker s.workers.length with hlt | hle
  · obtain ⟨coroutine, -, hsublist⟩ := (hs worker).1 hlt
    exact (List.sublist_append_left ..).trans hsublist
  · rw [(hs worker).2 hle]
    exact List.nil_sublist _

/-- What a worker starts is planned for it. -/
theorem Orderly.worker_eq (hs : Orderly e s) {start : ℕ × ScheduledTest} (h : start ∈ s.started) :
    start.2.worker = start.1 := by
  have hqueue : start.2 ∈ e.queue start.1 := (hs.startedBy_sublist start.1).subset (mem_startedBy h)
  exact of_decide_eq_true (List.mem_filter.mp hqueue).2

theorem count_queue_le (e : Execution) (worker : ℕ) (item : ScheduledTest) :
    (e.queue worker).count item ≤ e.schedule.tests.count item :=
  calc (e.queue worker).count item
    _ ≤ (e.schedule.tests.insertionSort ScheduledTest.queuedBefore).count item :=
      (List.filter_sublist).count_le _
    _ = e.schedule.tests.count item := (List.perm_insertionSort _ _).count_eq _

/-- All starts of a test are starts by one worker. -/
theorem Orderly.count_started (hs : Orderly e s) {worker : ℕ} (h : (worker, item) ∈ s.started) :
    (s.started.map Prod.snd).count item = (s.startedBy worker).count item := by
  have hworker : item.worker = worker := hs.worker_eq h
  simp only [startedBy, List.count, List.countP_map, List.countP_filter]
  refine List.countP_congr fun start hstart => ?_
  simp only [Function.comp_apply, beq_iff_eq, Bool.and_eq_true, decide_eq_true_eq]
  refine ⟨fun hitem => ⟨hitem, ?_⟩, And.left⟩
  have hother : item.worker = start.1 := hitem ▸ hs.worker_eq hstart
  exact Int.ofNat.inj (hother.symm.trans hworker)

/-- So nothing is started twice. -/
theorem Orderly.startsOnce (hs : Orderly e s) : StartsOnce e s := by
  refine ⟨fun start hstart => hs.worker_eq hstart, fun item => ?_⟩
  by_cases hitem : item ∈ s.started.map Prod.snd
  · obtain ⟨⟨worker, _⟩, hstart, rfl⟩ := List.mem_map.mp hitem
    calc (s.started.map Prod.snd).count _
      _ = (s.startedBy worker).count _ := hs.count_started hstart
      _ ≤ (e.queue worker).count _ := (hs.startedBy_sublist worker).count_le _
      _ ≤ e.schedule.tests.count _ := count_queue_le ..
  · rw [List.count_eq_zero_of_not_mem hitem]
    exact Nat.zero_le _

/-- The run lemma. -/
theorem orderly_of_steps (h : runFrom (step e) e.init ls = some s) : Orderly e s :=
  invariant_of_steps Orderly.of_step h (orderly_init e)

/-! ## After the flag is set -/

/-- Nobody starts anything any more: the flag is set, and nobody is past the test of it. -/
def Calm (s : ScheduleExecutor) : Prop :=
  s.cancelled = true ∧ ∀ coroutine ∈ s.workers, coroutine.isAsleep = false

theorem loop_of_cancelled (h : s.cancelled = true) (rest : List ScheduledTest) :
    s.loop e starts worker rest = s.goto worker .done := by
  cases rest with
  | nil => rfl
  | cons item rest => rw [loop, if_pos h]

theorem Calm.goto_done (hs : Calm s) : Calm (s.goto worker .done) := by
  refine ⟨hs.1, fun coroutine hcoroutine => ?_⟩
  rcases List.mem_or_eq_of_mem_set hcoroutine with hcoroutine | rfl
  · exact hs.2 coroutine hcoroutine
  · rfl

theorem Calm.record (hs : Calm s) (item : ScheduledTest) (status : ExecutionStatus)
    (exitCode : ℤ) : Calm (s.record e item status exitCode) :=
  ⟨by rw [ScheduleExecutor.record, hs.1, Bool.true_or], hs.2⟩

/-- In a calm executor a coroutine that gets to the head of its loop returns. -/
theorem Calm.loop (hs : Calm s) (rest : List ScheduledTest) :
    Calm (s.loop e starts worker rest) ∧ (s.loop e starts worker rest).started = s.started := by
  rw [loop_of_cancelled hs.1]
  exact ⟨hs.goto_done, rfl⟩

/-- Where nobody is to start anything, nobody does. -/
theorem Calm.of_step (h : s.step e l = some t) (hs : Calm s) : Calm t ∧ t.started = s.started := by
  cases l with
  | advance elapsed =>
    simp only [step] at h
    split at h <;> cases h
    exact ⟨hs, rfl⟩
  | cancel =>
    obtain rfl := Option.some.inj h
    exact ⟨⟨rfl, hs.2⟩, rfl⟩
  | begin worker starts =>
    simp only [step] at h
    split at h <;> cases h
    exact hs.loop _
  | wake worker starts =>
    simp only [step] at h
    split at h
    · -- nobody is asleep, so nobody wakes up
      rename_i item rest hworker
      cases hs.2 _ (List.mem_of_getElem? hworker)
    · cases h
  | finish worker timedOut exitCode starts =>
    simp only [step] at h
    split at h <;> cases h
    rename_i item rest hworker
    exact (hs.record item (statusOf timedOut exitCode) exitCode).loop rest

theorem Calm.started_eq (hs : Calm s) (h : runFrom (step e) s ls = some t) :
    t.started = s.started :=
  (@invariant_of_steps _ _ (step e) (fun t => Calm t ∧ t.started = s.started)
    (fun hstep hm =>
      have hkept := Calm.of_step hstep hm.1
      ⟨hkept.1, hkept.2.trans hm.2⟩) _ _ _ h ⟨hs, rfl⟩).2

/-- A coroutine that is asleep starts its test when the planned start has come, whatever the flag
says by then. -/
theorem exists_run_of_asleep (h : s.workers[worker]? = some (.asleep item rest)) :
    ∃ ls t, runFrom (step e) s ls = some t ∧ t.started = s.started ++ [(worker, item)] := by
  have hwake : step e { s with elapsed := max s.elapsed item.estimatedStart }
      (.wake worker fun _ => true) =
        some ({ s with elapsed := max s.elapsed item.estimatedStart }.launch worker item rest) := by
    simp only [step, h]
    exact if_pos (le_max_right ..)
  refine ⟨[.advance (max s.elapsed item.estimatedStart), .wake worker fun _ => true], _,
    runFrom_cons.mpr ⟨_, if_pos (le_max_left ..), runFrom_cons.mpr ⟨_, hwake, rfl⟩⟩, rfl⟩

/-- Whatever happens from now on, no process is started. -/
def StartsNoMore (e : Execution) (s : ScheduleExecutor) : Prop :=
  ∀ ls t, runFrom (step e) s ls = some t → t.started = s.started

/-- **The flag stops new processes except those of the coroutines that are asleep when it is
set.** In any case, tests are started once, by their own workers. -/
theorem startsNoMore_iff (e : Execution) {ls : List ExecutorAction} {s : ScheduleExecutor}
    (h : runFrom (step e) e.init ls = some s) :
    ((s.cancelled = true → StartsNoMore e s) ↔
      (s.cancelled = true → ∀ coroutine ∈ s.workers, coroutine.isAsleep = false)) ∧
    StartsOnce e s := by
  refine ⟨forall_congr' fun hcancelled => ⟨fun hno coroutine hcoroutine => ?_, fun hawake ls t ht =>
    Calm.started_eq ⟨hcancelled, hawake⟩ ht⟩, (orderly_of_steps h).startsOnce⟩
  obtain ⟨worker, hworker⟩ := List.mem_iff_getElem?.mp hcoroutine
  cases coroutine with
  | asleep item rest =>
    -- let time pass until its planned start
    obtain ⟨more, t, ht, hstarted⟩ := @exists_run_of_asleep e s worker item rest hworker
    rw [hno more t ht, List.self_eq_append_right] at hstarted
    cases hstarted
  | created rest => rfl
  | running item rest => rfl
  | done => rfl

/-- Two workers; the test of the second is planned for when that of the first has ended. -/
def failingFirst : Execution :=
  ⟨⟨"s", "run", 2, .safe, [⟨"a", "a", 0, 0, 1, 1, 0, []⟩, ⟨"b", "b", 1, 1, 2, 1, 0, []⟩],
    0, 2, 0, 0⟩, true, by decide⟩

/-- The first test fails while the second worker waits for the planned start of its test. -/
def failingRun : List ExecutorAction :=
  [.begin 0 fun _ => true, .begin 1 fun _ => true, .finish 0 false 1 fun _ => true]

theorem startsNoMore_iff_failingFirst : ∃ s,
    runFrom (step failingFirst) failingFirst.init failingRun = some s ∧
    ((s.cancelled = true → StartsNoMore failingFirst s) ↔
      (s.cancelled = true → ∀ coroutine ∈ s.workers, coroutine.isAsleep = false)) ∧
    StartsOnce failingFirst s :=
  ⟨_, by rfl, @startsNoMore_iff failingFirst failingRun _ (by rfl)⟩

/-- The failed test has set the flag, and the second worker starts its test nevertheless. -/
theorem not_startsNoMore_failingFirst : ∃ s,
    runFrom (step failingFirst) failingFirst.init failingRun = some s ∧ failingFirst.failFast = true ∧
    s.results.map (·.status) = [.failed] ∧ s.cancelled = true ∧ ¬StartsNoMore failingFirst s := by
  refine ⟨_, by rfl, by rfl, by rfl, by rfl, fun hno => ?_⟩
  have hstarted := hno [.advance 1, .wake 1 fun _ => true] _ (by rfl)
  revert hstarted
  decide

end ScheduleExecutor

end ConflictGraph.Py
