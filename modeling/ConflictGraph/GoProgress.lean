import Mathlib.Algebra.Order.BigOperators.Group.List
import Mathlib.Data.List.Flatten
import ConflictGraph.GoExecution

/-!
# The executor makes progress

The two channels are buffered once for all, for a result and two errors of every test. A
goroutine has a *budget* for what it can still send and how often it can still move; each
move spends from it, so no buffer overflows and no goroutine moves forever. What a
goroutine has tried to start, followed by what it has still to do, is the start of its
part of the plan, in order.
-/

namespace ConflictGraph.Go

/-! ## Budgets -/

/-- How many moves the goroutine can still make, nine for each test. -/
def Stage.movesLeft : Stage → ℕ
  | .loop rest => 9 * rest.length + 1
  | .waiting _ rest => 9 * rest.length + 9
  | .ready _ rest => 9 * rest.length + 8
  | .registering _ rest _ _ => 9 * rest.length + 7
  | .running _ rest _ _ => 9 * rest.length + 6
  | .returned rest _ _ => 9 * rest.length + 5
  | .saving rest _ _ => 9 * rest.length + 4
  | .judging rest _ _ => 9 * rest.length + 3
  | .cancelling rest => 9 * rest.length + 2
  | .done => 0

/-- How many results the goroutine can still send. -/
def Stage.resultsLeft : Stage → ℕ
  | .loop rest => rest.length
  | .waiting _ rest => rest.length + 1
  | .ready _ rest => rest.length + 1
  | .registering _ rest _ _ => rest.length + 1
  | .running _ rest _ _ => rest.length + 1
  | .returned rest _ _ => rest.length + 1
  | .saving rest _ _ => rest.length
  | .judging rest _ _ => rest.length
  | .cancelling rest => rest.length
  | .done => 0

/-- How many errors the goroutine can still send: for a test the one of the sink and the
one of `executeOne`. -/
def Stage.errorsLeft : Stage → ℕ
  | .loop rest => 2 * rest.length
  | .waiting _ rest => 2 * rest.length + 2
  | .ready _ rest => 2 * rest.length + 2
  | .registering _ rest _ _ => 2 * rest.length + 2
  | .running _ rest _ _ => 2 * rest.length + 2
  | .returned rest _ _ => 2 * rest.length + 2
  | .saving rest _ _ => 2 * rest.length + 2
  | .judging rest _ _ => 2 * rest.length + 1
  | .cancelling rest => 2 * rest.length
  | .done => 0

/-- A move spends from the budget of its goroutine. -/
theorem move_budget {e : Execution} {s t : ExecutorState} {index : ℕ} {old : Stage}
    {move : Move} (h : e.move s index old move = some t) :
    ∃ new, t.stages = s.stages.set index new ∧ new.movesLeft < old.movesLeft ∧
      t.results.length + new.resultsLeft ≤ s.results.length + old.resultsLeft ∧
      t.errors.length + new.errorsLeft ≤ s.errors.length + old.errorsLeft := by
  unfold Execution.move Execution.sendResult Execution.sendError ExecutorState.goto at h
  grind [Stage.movesLeft, Stage.resultsLeft, Stage.errorsLeft]

/-- Replacing an element of a list changes a sum by what the two elements contribute. -/
theorem sum_map_set {α : Type} (f : α → ℕ) {a : α} (b : α) {l : List α} :
    ∀ {i : ℕ}, l[i]? = some a → ((l.set i b).map f).sum + f a = (l.map f).sum + f b := by
  induction l with
  | nil => exact fun h => nomatch h
  | cons x rest ih =>
    intro i h
    rcases i with _ | i
    · obtain rfl := Option.some.inj h
      simp only [List.set_cons_zero, List.map_cons, List.sum_cons]
      omega
    · have hrest := ih h
      simp only [List.set_cons_succ, List.map_cons, List.sum_cons]
      omega

/-- The step is a move of a goroutine. -/
def Action.isMove : Action → Bool
  | .parentCancel => false
  | .worker _ _ => true

/-- What was sent and what can still be sent fits into the buffers, and the moves are
bounded. -/
structure Execution.Budget (e : Execution) (done : List (ExecutorState × Action))
    (s : ExecutorState) : Prop where
  results : s.results.length + (s.stages.map Stage.resultsLeft).sum ≤ e.schedule.tests.length
  errors : s.errors.length + (s.stages.map Stage.errorsLeft).sum ≤ e.schedule.tests.length * 2
  moves : done.countP (fun visit => visit.2.isMove) + (s.stages.map Stage.movesLeft).sum ≤
    9 * e.schedule.tests.length + e.schedule.workers.toNat

theorem Execution.Budget.init {e : Execution} (rt : Runtime)
    (hvalid : e.schedule.validate = .ok ()) : e.Budget [] (e.init rt) := by
  have hlength := (byWorker_perm rt hvalid).length_eq
  rw [List.length_flatMap] at hlength
  have hsum (f : Stage → ℕ) (a b : ℕ) (hf : ∀ rest, f (.loop rest) = a * rest.length + b) :
      ((e.init rt).stages.map f).sum =
        a * e.schedule.tests.length + b * e.schedule.workers.toNat := by
    rw [Execution.init, List.map_map, ← hlength]
    generalize e.schedule.workers.toNat = workers
    induction workers with
    | zero => rfl
    | succ workers ih =>
      simp only [List.range_succ, List.map_append, List.sum_append, List.map_singleton,
        List.sum_singleton, Function.comp_apply, hf] at ih ⊢
      rw [ih]
      ring
  refine ⟨?_, ?_, ?_⟩
  · rw [hsum Stage.resultsLeft 1 0 fun rest => by rw [Stage.resultsLeft]; omega]
    simp [Execution.init]
  · rw [hsum Stage.errorsLeft 2 0 fun rest => rfl]
    simp [Execution.init, Nat.mul_comm]
  · rw [hsum Stage.movesLeft 9 1 fun rest => rfl]
    simp

/-- The step lemma of the budget. -/
theorem Execution.Budget.step {e : Execution} {done : List (ExecutorState × Action)}
    {s t : ExecutorState} {a : Action} (hstep : e.step s a = some t) (h : e.Budget done s) :
    e.Budget (done ++ [(s, a)]) t := by
  obtain ⟨hresults, herrors, hmoves⟩ := h
  rcases a with _ | ⟨index, move⟩
  · obtain rfl := Option.some.inj hstep
    exact ⟨hresults, herrors, by simpa [Action.isMove] using hmoves⟩
  · obtain ⟨old, hold, hmove⟩ := step_worker hstep
    obtain ⟨new, hstages, hless, hsent, hraised⟩ := move_budget hmove
    have hmovesLeft := sum_map_set Stage.movesLeft new hold
    have hresultsLeft := sum_map_set Stage.resultsLeft new hold
    have herrorsLeft := sum_map_set Stage.errorsLeft new hold
    refine ⟨?_, ?_, ?_⟩ <;> rw [hstages]
    · omega
    · omega
    · rw [List.countP_append, List.countP_singleton, if_pos (by rfl)]
      omega

/-! ## No goroutine is stuck -/

/-- The goroutine is about to send on a channel whose buffer is full. -/
def Execution.Blocked (e : Execution) (s : ExecutorState) (index : ℕ) : Prop :=
  (∃ rest result err, s.stages[index]? = some (.returned rest result err) ∧
    result.executionID ≠ "" ∧ e.sendResult s result = none) ∨
  (∃ rest result err text, s.stages[index]? = some (.saving rest result err) ∧
    e.sendError s text = none) ∨
  ∃ rest result text, s.stages[index]? = some (.judging rest result (some text)) ∧
    e.sendError s text = none

/-- Within its budget nobody is blocked. -/
theorem Execution.Budget.not_blocked {e : Execution} {done : List (ExecutorState × Action)}
    {s : ExecutorState} (h : e.Budget done s) (index : ℕ) : ¬ e.Blocked s index := by
  have hroom {stage : Stage} (hstage : s.stages[index]? = some stage) :
      stage.resultsLeft ≤ (s.stages.map Stage.resultsLeft).sum ∧
        stage.errorsLeft ≤ (s.stages.map Stage.errorsLeft).sum := by
    have hmem := List.mem_of_getElem? hstage
    exact ⟨List.le_sum_of_mem (List.mem_map_of_mem hmem),
      List.le_sum_of_mem (List.mem_map_of_mem hmem)⟩
  have hresults := h.results
  have herrors := h.errors
  rintro (⟨rest, result, err, hstage, -, hnone⟩ | ⟨rest, result, err, text, hstage, hnone⟩ |
    ⟨rest, result, text, hstage, hnone⟩)
  · obtain ⟨hleft, -⟩ := hroom hstage
    rw [Stage.resultsLeft] at hleft
    rw [Execution.sendResult, if_pos (by omega)] at hnone
    cases hnone
  · obtain ⟨-, hleft⟩ := hroom hstage
    rw [Stage.errorsLeft] at hleft
    rw [Execution.sendError, if_pos (by omega)] at hnone
    cases hnone
  · obtain ⟨-, hleft⟩ := hroom hstage
    rw [Stage.errorsLeft] at hleft
    rw [Execution.sendError, if_pos (by omega)] at hnone
    cases hnone

/-- The goroutine waits for its process to end. -/
def Stage.isRunning : Stage → Bool
  | .running _ _ _ _ => true
  | _ => false

/-- The move is the end of a process. -/
def Move.isFinish : Move → Bool
  | .finish _ _ _ _ => true
  | _ => false

/-- The goroutine can go on, and needs the end of a process only if it waits for it. -/
def Execution.CanMove (e : Execution) (s : ExecutorState) (index : ℕ) (stage : Stage) : Prop :=
  ∃ move, (e.step s (.worker index move)).isSome = true ∧
    (move.isFinish = true → stage.isRunning = true)

/-- A goroutine that has not returned and is not blocked can go on. -/
theorem canMove_of_not_blocked {e : Execution} {s : ExecutorState} {index : ℕ} {stage : Stage}
    (hstage : s.stages[index]? = some stage) (hblocked : ¬ e.Blocked s index)
    (hne : stage ≠ .done) : e.CanMove s index stage := by
  have hstep (move : Move) : e.step s (.worker index move) = e.move s index stage move := by
    rw [Execution.step, hstage]
  cases stage with
  | loop rest =>
    refine ⟨.take, ?_, (absurd · Bool.false_ne_true)⟩
    rw [hstep]
    cases rest with
    | nil => rfl
    | cons test rest =>
      rw [Execution.move]
      split <;> rfl
  | waiting test rest => exact ⟨.begin, by rw [hstep]; rfl, (absurd · Bool.false_ne_true)⟩
  | ready test rest => exact ⟨.startFails "", by rw [hstep]; rfl, (absurd · Bool.false_ne_true)⟩
  | registering test rest executionID startedAt =>
    exact ⟨.register, by rw [hstep]; rfl, (absurd · Bool.false_ne_true)⟩
  | running test rest executionID startedAt =>
    exact ⟨.finish false .success 0 none, by rw [hstep]; rfl, fun _ => rfl⟩
  | returned rest result err =>
    refine ⟨.report, ?_, (absurd · Bool.false_ne_true)⟩
    rw [hstep]
    simp only [Execution.move]
    by_cases hzero : result.executionID = ""
    · rw [if_pos hzero]
      rfl
    · rw [if_neg hzero]
      rcases hsend : e.sendResult s result with _ | sent
      · exact absurd (Or.inl ⟨rest, result, err, hstage, hzero, hsend⟩) hblocked
      · rfl
  | saving rest result err => exact ⟨.save none, by rw [hstep]; rfl, (absurd · Bool.false_ne_true)⟩
  | judging rest result err =>
    refine ⟨.judge, ?_, (absurd · Bool.false_ne_true)⟩
    rw [hstep]
    rcases err with _ | text
    · simp only [Execution.move]
      split <;> rfl
    · simp only [Execution.move]
      rcases hsend : e.sendError s text with _ | sent
      · exact absurd (Or.inr (Or.inr ⟨rest, result, text, hstage, hsend⟩)) hblocked
      · rfl
  | cancelling rest => exact ⟨.cancel, by rw [hstep]; rfl, (absurd · Bool.false_ne_true)⟩
  | done => exact absurd rfl hne

/-! ## What was started -/

/-- The tests that the goroutine has not tried to start. -/
def Stage.todo : Stage → List ScheduledTest
  | .loop rest => rest
  | .waiting test rest => test :: rest
  | .ready test rest => test :: rest
  | .registering _ rest _ _ => rest
  | .running _ rest _ _ => rest
  | .returned rest _ _ => rest
  | .saving rest _ _ => rest
  | .judging rest _ _ => rest
  | .cancelling rest => rest
  | .done => []

/-- The worker that calls `command.Start` in the step, and the test it does so for. -/
def start? (visit : ExecutorState × Action) : Option (ℕ × ScheduledTest) :=
  match visit.2 with
  | .worker index (.start _ _) =>
    match visit.1.stages[index]? with
    | some (.ready test _) => some (index, test)
    | _ => none
  | .worker index (.startFails _) =>
    match visit.1.stages[index]? with
    | some (.ready test _) => some (index, test)
    | _ => none
  | _ => none

/-- The starts of one worker, in order. -/
def startsOf (index : ℕ) (starts : List (ℕ × ScheduledTest)) : List ScheduledTest :=
  (starts.filter fun start => start.1 = index).map Prod.snd

theorem startsOf_append (index : ℕ) (starts more : List (ℕ × ScheduledTest)) :
    startsOf index (starts ++ more) = startsOf index starts ++ startsOf index more := by
  rw [startsOf, List.filter_append, List.map_append]
  rfl

theorem start?_worker {s : ExecutorState} {index : ℕ} {move : Move} {start : ℕ × ScheduledTest}
    (h : start? (s, .worker index move) = some start) : start.1 = index := by
  rw [start?] at h
  grind

/-- What a goroutine starts is the next test it has to do. -/
theorem move_starts {e : Execution} {s t : ExecutorState} {index : ℕ} {old : Stage}
    {move : Move} (hold : s.stages[index]? = some old) (h : e.move s index old move = some t) :
    ∃ new, t.stages = s.stages.set index new ∧
      (start? (s, .worker index move)).toList.map Prod.snd ++ new.todo <+: old.todo := by
  unfold Execution.move Execution.sendResult Execution.sendError ExecutorState.goto at h
  grind [Stage.todo, start?]

/-- Each worker has started a part of its plan, and goes on from there. -/
structure Execution.Started (e : Execution) (rt : Runtime) (done : List (ExecutorState × Action))
    (s : ExecutorState) : Prop where
  length_eq : s.stages.length = e.schedule.workers.toNat
  worker_lt : ∀ start ∈ done.filterMap start?, start.1 < e.schedule.workers.toNat
  starts_prefix : ∀ index stage, s.stages[index]? = some stage →
    startsOf index (done.filterMap start?) ++ stage.todo <+: e.schedule.byWorker rt index

theorem Execution.Started.init (e : Execution) (rt : Runtime) :
    e.Started rt [] (e.init rt) := by
  refine ⟨?_, ?_, ?_⟩
  · rw [Execution.init, List.length_map, List.length_range]
  · exact fun start hstart => absurd hstart List.not_mem_nil
  · intro index stage hstage
    rw [Execution.init, List.getElem?_map] at hstage
    obtain ⟨worker, hworker, rfl⟩ := Option.map_eq_some_iff.mp hstage
    obtain ⟨hlt, rfl⟩ := List.getElem?_eq_some_iff.mp hworker
    rw [List.getElem_range]
    exact List.prefix_refl _

/-- The step lemma of starts. -/
theorem Execution.Started.step {e : Execution} {rt : Runtime}
    {done : List (ExecutorState × Action)} {s t : ExecutorState} {a : Action}
    (hstep : e.step s a = some t) (h : e.Started rt done s) :
    e.Started rt (done ++ [(s, a)]) t := by
  rcases a with _ | ⟨index, move⟩
  · obtain rfl := Option.some.inj hstep
    have hsame : (done ++ [(s, Action.parentCancel)]).filterMap start? =
        done.filterMap start? := by
      rw [filterMap_concat]
      exact List.append_nil _
    refine ⟨h.length_eq, ?_, ?_⟩ <;> rw [hsame]
    · exact h.worker_lt
    · exact h.starts_prefix
  · obtain ⟨old, hold, hmove⟩ := step_worker hstep
    obtain ⟨new, hstages, hprefix⟩ := move_starts hold hmove
    have hlt : index < s.stages.length := (List.getElem?_eq_some_iff.mp hold).1
    have hstarts := filterMap_concat start? done (s, .worker index move)
    refine ⟨?_, ?_, ?_⟩
    · rw [hstages, List.length_set, h.length_eq]
    · intro start hmem
      rw [hstarts] at hmem
      rcases List.mem_append.mp hmem with hmem | hmem
      · exact h.worker_lt start hmem
      · rw [start?_worker (Option.mem_toList.mp hmem), ← h.length_eq]
        exact hlt
    · intro i stage hstage
      rw [hstarts, startsOf_append]
      by_cases hi : i = index
      · subst hi
        rw [hstages, List.getElem?_set_self hlt] at hstage
        obtain rfl := Option.some.inj hstage
        have hown : startsOf i (start? (s, .worker i move)).toList =
            (start? (s, .worker i move)).toList.map Prod.snd := by
          rw [startsOf, List.filter_eq_self.mpr]
          exact fun start hmem =>
            decide_eq_true (start?_worker (Option.mem_toList.mp hmem))
        rw [hown, List.append_assoc]
        exact ((List.prefix_append_right_inj _).mpr hprefix).trans (h.starts_prefix i old hold)
      · rw [hstages, List.getElem?_set_ne (Ne.symm hi)] at hstage
        have hother : startsOf i (start? (s, .worker index move)).toList = [] := by
          rw [startsOf, List.map_eq_nil_iff, List.filter_eq_nil_iff]
          intro start hmem
          rw [decide_eq_true_eq, start?_worker (Option.mem_toList.mp hmem)]
          exact Ne.symm hi
        rw [hother, List.append_nil]
        exact h.starts_prefix i stage hstage

/-- What each worker has started is a part of its plan. -/
theorem Execution.Started.prefix_byWorker {e : Execution} {rt : Runtime}
    {done : List (ExecutorState × Action)} {s : ExecutorState} (h : e.Started rt done s) {index : ℕ}
    (hindex : index < e.schedule.workers.toNat) :
    startsOf index (done.filterMap start?) <+: e.schedule.byWorker rt index := by
  rw [← h.length_eq] at hindex
  have hstarts := h.starts_prefix index _ (List.getElem?_eq_getElem hindex)
  exact (List.prefix_append ..).trans hstarts

/-- A start belongs to the worker of its test. -/
theorem Execution.Started.mem {e : Execution} {rt : Runtime}
    {done : List (ExecutorState × Action)} {s : ExecutorState} (h : e.Started rt done s)
    {start : ℕ × ScheduledTest} (hstart : start ∈ done.filterMap start?) :
    start.2 ∈ e.schedule.tests ∧ start.2.worker = start.1 := by
  have hown : start.2 ∈ startsOf start.1 (done.filterMap start?) :=
    List.mem_map.mpr ⟨start, List.mem_filter.mpr ⟨hstart, decide_eq_true rfl⟩, rfl⟩
  have hgroup := (h.prefix_byWorker (h.worker_lt start hstart)).subset hown
  obtain ⟨hmem, hworker⟩ := List.mem_filter.mp ((rt.sortSlice_perm ..).mem_iff.mp hgroup)
  exact ⟨hmem, of_decide_eq_true hworker⟩

/-- Starting earlier is an order that `sort.Slice` accepts. -/
theorem plannedStart_strictOrder :
    StrictOrder fun a b : ScheduledTest => decide (a.estimatedStart < b.estimatedStart) where
  irrefl a := decide_eq_false (lt_irrefl _)
  trans a b c hab hbc :=
    decide_eq_true ((of_decide_eq_true hab).trans (of_decide_eq_true hbc))
  incomparable a b c hab hbc := by
    rw [decide_eq_false_iff_not, not_lt] at *
    exact hbc.trans hab

/-- The tests of one worker are started in the order of their planned starts. -/
theorem Execution.Started.ordered {e : Execution} {rt : Runtime}
    {done : List (ExecutorState × Action)} {s : ExecutorState} (h : e.Started rt done s)
    (index : ℕ) : (startsOf index (done.filterMap start?)).Pairwise
      fun a b => a.estimatedStart ≤ b.estimatedStart := by
  by_cases hindex : index < e.schedule.workers.toNat
  · have hsorted := rt.sortSlice_sorted plannedStart_strictOrder
      (e.schedule.tests.filter fun test => test.worker = index)
    refine (hsorted.sublist (h.prefix_byWorker hindex).sublist).imp fun hab => ?_
    rwa [decide_eq_false_iff_not, not_lt] at hab
  · have hnone : startsOf index (done.filterMap start?) = [] := by
      rw [startsOf, List.map_eq_nil_iff, List.filter_eq_nil_iff]
      intro start hstart
      rw [decide_eq_true_eq]
      rintro rfl
      exact hindex (h.worker_lt start hstart)
    rw [hnone]
    exact List.Pairwise.nil

/-- No test is started twice. -/
theorem Execution.Started.nodup {e : Execution} {rt : Runtime}
    {done : List (ExecutorState × Action)} {s : ExecutorState} (h : e.Started rt done s)
    (hvalid : e.schedule.validate = .ok ()) :
    ((done.filterMap start?).map fun start => start.2.testID).Nodup := by
  have hids : (e.schedule.tests.map ScheduledTest.testID).Nodup := by
    rw [Schedule.validate] at hvalid
    split_ifs at hvalid
    exact (validateTests_eq_ok.mp hvalid).2
  -- worker by worker, the starts are a part of the plan
  have hgroups := (flatMap_filter_perm Prod.fst (List.nodup_range (n := e.schedule.workers.toNat))
    (done.filterMap start?) fun start hstart =>
      List.mem_range.mpr (h.worker_lt start hstart)).map Prod.snd
  rw [List.map_flatMap] at hgroups
  have hsub : ((List.range e.schedule.workers.toNat).flatMap fun index =>
      startsOf index (done.filterMap start?)).Sublist
        ((List.range e.schedule.workers.toNat).flatMap (e.schedule.byWorker rt)) :=
    List.Sublist.flatMap_right _ fun index hindex =>
      (h.prefix_byWorker (List.mem_range.mp hindex)).sublist
  have hplan := ((byWorker_perm rt hvalid).map ScheduledTest.testID).nodup_iff.mpr hids
  have hstarts := hplan.sublist (hsub.map ScheduledTest.testID)
  have hall := (hgroups.map ScheduledTest.testID).nodup_iff.mp hstarts
  rwa [List.map_map] at hall

/-! ## What was returned -/

/-- The result that the goroutine holds and has not sent, unless it is a zero result. -/
def Stage.held : Stage → List ExecutionResult
  | .returned _ result _ => if result.executionID = "" then [] else [result]
  | _ => []

/-- What `executeOne` has just returned. -/
def Stage.returned? : Stage → Option ExecutionResult
  | .returned _ result _ => some result
  | _ => none

/-- The result that `executeOne` returns to a worker in the step. -/
def Execution.produced? (e : Execution) (visit : ExecutorState × Action) :
    Option ExecutionResult :=
  match visit.2 with
  | .parentCancel => none
  | .worker index _ =>
    match e.step visit.1 visit.2 with
    | none => none
    | some t => t.stages[index]?.bind Stage.returned?

theorem move_results {e : Execution} {s t : ExecutorState} {index : ℕ} {old : Stage}
    {move : Move} (h : e.move s index old move = some t) :
    ∃ new, t.stages = s.stages.set index new ∧
      t.results ++ new.held = s.results ++ old.held ++
        new.returned?.toList.filter fun result => result.executionID ≠ "" := by
  unfold Execution.move Execution.sendResult Execution.sendError ExecutorState.goto at h
  grind [Stage.held, Stage.returned?]

/-- The results that workers produced under an identifier are on the channel or held. -/
def Execution.Reported (e : Execution) (done : List (ExecutorState × Action))
    (s : ExecutorState) : Prop :=
  (s.results ++ s.stages.flatMap Stage.held).Perm
    ((done.filterMap e.produced?).filter fun result => result.executionID ≠ "")

theorem Execution.Reported.init (e : Execution) (rt : Runtime) : e.Reported [] (e.init rt) := by
  have hheld : (e.init rt).stages.flatMap Stage.held = [] := by
    rw [List.flatMap_eq_nil_iff]
    intro stage hstage
    obtain ⟨worker, -, rfl⟩ := List.mem_map.mp hstage
    rfl
  rw [Execution.Reported, hheld]
  exact List.Perm.refl []

/-- The step lemma of reports. -/
theorem Execution.Reported.step {e : Execution} {done : List (ExecutorState × Action)}
    {s t : ExecutorState} {a : Action} (hstep : e.step s a = some t) (h : e.Reported done s) :
    e.Reported (done ++ [(s, a)]) t := by
  rw [Execution.Reported, filterMap_concat, List.filter_append]
  rcases a with _ | ⟨index, move⟩
  · obtain rfl := Option.some.inj hstep
    exact (List.append_nil _).symm ▸ h
  · obtain ⟨old, hold, hmove⟩ := step_worker hstep
    obtain ⟨new, hstages, hsent⟩ := move_results hmove
    have hlt : index < s.stages.length := (List.getElem?_eq_some_iff.mp hold).1
    have hproduced : e.produced? (s, .worker index move) = new.returned? := by
      rw [Execution.produced?]
      simp only [hstep, hstages, List.getElem?_set_self hlt, Option.bind_some]
    have htrade := flatMap_set_perm new Stage.held hold
    rw [hproduced, hstages]
    rw [Execution.Reported] at h
    rw [List.perm_iff_count] at h htrade ⊢
    intro result
    have hcount := congrArg (List.count result) hsent
    have hh := h result
    have ht := htrade result
    simp only [List.count_append] at hcount hh ht ⊢
    omega

/-! ## Runs -/

/-- What holds of a run of the goroutines, wherever it has come to. -/
structure Execution.Orderly (e : Execution) (rt : Runtime) (actions : List Action)
    (s : ExecutorState) : Prop where
  /-- no send blocks -/
  not_blocked : ∀ index, ¬ e.Blocked s index
  /-- nobody waits for anything but the end of a process -/
  canMove : ∀ index stage, s.stages[index]? = some stage → stage ≠ .done →
    e.CanMove s index stage
  /-- nobody moves forever -/
  moves_le : actions.countP Action.isMove ≤
    9 * e.schedule.tests.length + e.schedule.workers.toNat
  /-- no test is started twice -/
  starts_nodup : (((visits e.step (e.init rt) actions).filterMap start?).map
    fun start => start.2.testID).Nodup
  /-- what is started is scheduled, on this worker -/
  starts_mem : ∀ start ∈ (visits e.step (e.init rt) actions).filterMap start?,
    start.2 ∈ e.schedule.tests ∧ start.2.worker = start.1
  /-- each worker starts its tests by planned start -/
  starts_ordered : ∀ index,
    (startsOf index ((visits e.step (e.init rt) actions).filterMap start?)).Pairwise
      fun a b => a.estimatedStart ≤ b.estimatedStart
  /-- what is returned is what was produced under an identifier -/
  output_perm : s.Finished → (s.output rt).Perm
    (((visits e.step (e.init rt) actions).filterMap e.produced?).filter
      fun result => result.executionID ≠ "")

/-- **The executor cannot block itself, and runs nothing twice.** -/
theorem orderly_of_run {e : Execution} {rt : Runtime} {actions : List Action} {s : ExecutorState}
    (hvalid : e.schedule.validate = .ok ())
    (hrun : runFrom e.step (e.init rt) actions = some s) : e.Orderly rt actions s := by
  have hbudget : e.Budget (visits e.step (e.init rt) actions) s :=
    history_of_run (J := e.Budget) Execution.Budget.step hrun (.init rt hvalid)
  have hstarted : e.Started rt (visits e.step (e.init rt) actions) s :=
    history_of_run (J := e.Started rt) Execution.Started.step hrun (.init e rt)
  have hreported : e.Reported (visits e.step (e.init rt) actions) s :=
    history_of_run (J := e.Reported) Execution.Reported.step hrun (.init e rt)
  have hmoves := hbudget.moves
  have hcount := congrArg (List.countP Action.isMove) (map_snd_visits hrun)
  rw [List.countP_map] at hcount
  refine ⟨hbudget.not_blocked, ?_, ?_, hstarted.nodup hvalid, fun start => hstarted.mem,
    hstarted.ordered, ?_⟩
  · exact fun index stage hstage => canMove_of_not_blocked hstage (hbudget.not_blocked index)
  · rw [← hcount]
    exact (Nat.le_add_right ..).trans hmoves
  · intro hfinished
    have hheld : s.stages.flatMap Stage.held = [] := by
      rw [List.flatMap_eq_nil_iff]
      intro stage hstage
      rw [hfinished stage hstage]
      rfl
    rw [Execution.Reported, hheld, List.append_nil] at hreported
    exact (rt.sortSlice_perm ..).trans hreported

/-- A run in which `b` fails, and the first worker gives up `c`. -/
def Execution.failingRun : List Action :=
  [.worker 0 .take, .worker 1 .take, .worker 0 .begin, .worker 1 .begin,
    .worker 1 (.start Execution.eb 0), .worker 0 (.start Execution.ea 1),
    .worker 1 (.finish false (.code 1) 4 none), .worker 0 (.finish false .success 5 none),
    .worker 1 .report, .worker 1 .judge, .worker 0 .report, .worker 0 .judge, .worker 0 .take]

theorem orderly_of_run_failing :
    (Execution.pair true false).schedule.validate = .ok () ∧
      ∃ s, runFrom (Execution.pair true false).step
          ((Execution.pair true false).init .reference) Execution.failingRun = some s ∧
        (Execution.pair true false).Orderly .reference Execution.failingRun s :=
  ⟨by decide +kernel,
    ⟨[.done, .done], true,
      [⟨"eb", "run", "b", "b", 1, .failed, 0, 4, 1, false⟩,
        ⟨"ea", "run", "a", "a", 0, .passed, 1, 5, 0, false⟩], [], []⟩,
    by decide +kernel, orderly_of_run (by decide +kernel) (by decide +kernel)⟩

end ConflictGraph.Go
