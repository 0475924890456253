import ConflictGraph.GoExecutor
import ConflictGraph.Lanes
import ConflictGraph.Transition

/-!
# No silently skipped test

Every test of the schedule is *owed* by one goroutine until its result is on the
channel. A goroutine that stops owing a test without a result leaves an error
behind, with one exception: a goroutine that sees the cancelled context at its loop
check or in its wait just returns. After a fail-fast cancellation that is harmless,
since what caused it is on a channel already. After a cancellation by the parent it
is not.
-/

namespace ConflictGraph.Go

/-! ## What a goroutine owes -/

/-- The tests for which the goroutine has still to send a result. -/
def Stage.owed : Stage → List String
  | .loop rest => rest.map ScheduledTest.testID
  | .waiting test rest => test.testID :: rest.map ScheduledTest.testID
  | .ready test rest => test.testID :: rest.map ScheduledTest.testID
  | .registering test rest _ _ => test.testID :: rest.map ScheduledTest.testID
  | .running test rest _ _ => test.testID :: rest.map ScheduledTest.testID
  | .returned rest result _ =>
    if result.executionID = "" then rest.map ScheduledTest.testID
    else result.testID :: rest.map ScheduledTest.testID
  | .saving rest _ _ => rest.map ScheduledTest.testID
  | .judging rest _ _ => rest.map ScheduledTest.testID
  | .cancelling rest => rest.map ScheduledTest.testID
  | .done => []

/-- The error that the goroutine has still to send. -/
def Stage.unsent : Stage → Option String
  | .returned _ _ err => err
  | .saving _ _ err => err
  | .judging _ _ err => err
  | _ => none

/-- What stands behind a goroutine: a zero result comes with an error, a result without
one has been sent, and so has an error that cancels. -/
def Stage.Backed (s : ExecutorState) : Stage → Prop
  | .returned _ result err => result.executionID = "" → err ≠ none
  | .saving _ result err => err = none → result ∈ s.results
  | .judging _ result err => err = none → result ∈ s.results
  | .cancelling _ => s.errors ≠ []
  | _ => True

/-- What a move of a goroutine from `old` to `new` does to the channels. -/
inductive Effect (s : ExecutorState) (old : Stage) (move : Move) (new : Stage)
    (t : ExecutorState) : Prop where
  /-- nothing is sent, and the goroutine owes what it owed -/
  | quiet (results : t.results = s.results) (errors : t.errors = s.errors)
      (owed : new.owed = old.owed) (unsent : old.unsent = none ∨ new.unsent = old.unsent)
  /-- the process was not started or not registered: an error is due -/
  | failed (results : t.results = s.results) (errors : t.errors = s.errors)
      (unsent : new.unsent ≠ none)
  /-- a result is sent -/
  | reported (result : ExecutionResult) (results : t.results = s.results ++ [result])
      (errors : t.errors = s.errors) (owed : old.owed = result.testID :: new.owed)
      (unsent : new.unsent = old.unsent)
  /-- an error is sent -/
  | recorded (text : String) (results : t.results = s.results)
      (errors : t.errors = s.errors ++ [text])
  /-- fail-fast stops the goroutine after a result that is not `PASSED` -/
  | stopped (rest : List ScheduledTest) (result : ExecutionResult) (results : t.results = s.results)
      (errors : t.errors = s.errors) (judged : old = .judging rest result none)
      (status : result.status ≠ .passed)
  /-- the goroutine gives up because the context is cancelled -/
  | gaveUp (results : t.results = s.results) (errors : t.errors = s.errors)
      (cancelled : s.cancelled = true) (unsent : old.unsent = none)
      (stage : (move = .take ∧ ∃ test rest, old = .loop (test :: rest)) ∨
        (move = .interrupt ∧ ∃ test rest, old = .waiting test rest))

theorem sendResult_eq_some {e : Execution} {s t : ExecutorState} {result : ExecutionResult}
    (h : e.sendResult s result = some t) : t = { s with results := s.results ++ [result] } := by
  rw [Execution.sendResult] at h
  split at h
  · exact (Option.some.inj h).symm
  · cases h

theorem sendError_eq_some {e : Execution} {s t : ExecutorState} {err : String}
    (h : e.sendError s err = some t) : t = { s with errors := s.errors ++ [err] } := by
  rw [Execution.sendError] at h
  split at h
  · exact (Option.some.inj h).symm
  · cases h

/-- Every move of a goroutine has one of the effects. -/
theorem move_effect {e : Execution} {s t : ExecutorState} {index : ℕ} {old : Stage} {move : Move}
    (h : e.move s index old move = some t) :
    ∃ new, t.stages = s.stages.set index new ∧ Effect s old move new t ∧
      (old.Backed s → new.Backed t) := by
  unfold Execution.move at h
  split at h
  · -- the loop is over
    obtain rfl := Option.some.inj h
    exact ⟨.done, rfl, .quiet rfl rfl rfl (Or.inl rfl), fun _ => trivial⟩
  · rename_i test rest
    by_cases hc : s.cancelled = true
    · rw [if_pos hc] at h
      obtain rfl := Option.some.inj h
      exact ⟨.done, rfl, .gaveUp rfl rfl hc rfl (Or.inl ⟨rfl, test, rest, rfl⟩), fun _ => trivial⟩
    · rw [if_neg hc] at h
      obtain rfl := Option.some.inj h
      exact ⟨.waiting test rest, rfl, .quiet rfl rfl rfl (Or.inl rfl), fun _ => trivial⟩
  · obtain rfl := Option.some.inj h
    exact ⟨_, rfl, .quiet rfl rfl rfl (Or.inl rfl), fun _ => trivial⟩
  · rename_i test rest
    by_cases hc : s.cancelled = true
    · rw [if_pos hc] at h
      obtain rfl := Option.some.inj h
      exact ⟨.done, rfl, .gaveUp rfl rfl hc rfl (Or.inr ⟨rfl, test, rest, rfl⟩), fun _ => trivial⟩
    · rw [if_neg hc] at h
      cases h
  · rename_i test rest executionID startedAt
    by_cases ht : e.hasTracer = true
    · rw [if_pos ht] at h
      obtain rfl := Option.some.inj h
      exact ⟨_, rfl, .quiet rfl rfl rfl (Or.inl rfl), fun _ => trivial⟩
    · rw [if_neg ht] at h
      obtain rfl := Option.some.inj h
      exact ⟨_, rfl, .quiet rfl rfl rfl (Or.inl rfl), fun _ => trivial⟩
  · obtain rfl := Option.some.inj h
    exact ⟨_, rfl, .failed rfl rfl (Option.some_ne_none _), fun _ _ => Option.some_ne_none _⟩
  · obtain rfl := Option.some.inj h
    exact ⟨_, rfl, .quiet rfl rfl rfl (Or.inl rfl), fun _ => trivial⟩
  · obtain rfl := Option.some.inj h
    exact ⟨_, rfl, .failed rfl rfl (Option.some_ne_none _), fun _ _ => Option.some_ne_none _⟩
  · -- `executeOne` returns a result under the identifier it started with
    rename_i test rest executionID startedAt deadline exit endedAt problem
    obtain rfl := Option.some.inj h
    exact ⟨_, rfl, .quiet rfl rfl (if_neg executionID.2) (Or.inl rfl),
      fun _ hzero => absurd hzero executionID.2⟩
  · rename_i rest result err
    by_cases hzero : result.executionID = ""
    · rw [if_pos hzero] at h
      obtain rfl := Option.some.inj h
      exact ⟨_, rfl, .quiet rfl rfl (if_pos hzero).symm (Or.inr rfl),
        fun hold hnone => absurd hnone (hold hzero)⟩
    · rw [if_neg hzero] at h
      rcases hsend : e.sendResult s result with _ | sent
      · simp only [hsend, reduceCtorEq] at h
      · simp only [hsend, Option.some.injEq] at h
        obtain rfl := sendResult_eq_some hsend
        subst h
        have hsent : result ∈ s.results ++ [result] :=
          List.mem_append_right _ (List.mem_singleton_self result)
        refine ⟨_, rfl, .reported result rfl rfl ?_ ?_, fun _ => ?_⟩
        · rw [Stage.owed, if_neg hzero]
          split <;> rfl
        · split <;> rfl
        · split <;> exact fun _ => hsent
  · rename_i rest result err answer
    rcases answer with _ | text
    · obtain rfl := Option.some.inj h
      exact ⟨_, rfl, .quiet rfl rfl rfl (Or.inr rfl), fun hold => hold⟩
    · simp only at h
      split at h
      · cases h
      · rename_i sent hsend
        obtain rfl := sendError_eq_some hsend
        obtain rfl := Option.some.inj h
        exact ⟨_, rfl, .recorded _ rfl rfl, fun hold => hold⟩
  · rename_i rest result err
    rcases err with _ | text
    · by_cases hstop : e.failFast = true ∧ result.status ≠ .passed
      · rw [if_pos hstop] at h
        obtain rfl := Option.some.inj h
        exact ⟨.done, rfl, .stopped rest result rfl rfl rfl hstop.2, fun _ => trivial⟩
      · rw [if_neg hstop] at h
        obtain rfl := Option.some.inj h
        exact ⟨.loop rest, rfl, .quiet rfl rfl rfl (Or.inl rfl), fun _ => trivial⟩
    · simp only at h
      split at h
      · cases h
      · rename_i sent hsend
        obtain rfl := sendError_eq_some hsend
        obtain rfl := Option.some.inj h
        refine ⟨_, rfl, .recorded _ rfl rfl, fun _ => ?_⟩
        split
        · exact List.append_ne_nil_of_right_ne_nil _ (List.cons_ne_nil _ _)
        · trivial
  · obtain rfl := Option.some.inj h
    exact ⟨_, rfl, .quiet rfl rfl rfl (Or.inl rfl), fun _ => trivial⟩
  · cases h

/-! ## Trouble is never forgotten -/

namespace ExecutorState

/-- An error or a result that is not `PASSED` is on a channel. -/
def Recorded (s : ExecutorState) : Prop :=
  s.errors ≠ [] ∨ ∃ result ∈ s.results, result.status ≠ .passed

/-- Something is recorded, or a goroutine has an error to send. -/
def Troubled (s : ExecutorState) : Prop :=
  s.Recorded ∨ ∃ stage ∈ s.stages, stage.unsent ≠ none

/-- In this action a goroutine returns with tests left, because the context is
cancelled. -/
def GivesUp (s : ExecutorState) (a : Action) : Prop :=
  s.cancelled = true ∧ ∃ index,
    (a = .worker index .take ∧ ∃ test rest, s.stages[index]? = some (.loop (test :: rest))) ∨
    (a = .worker index .interrupt ∧ ∃ test rest, s.stages[index]? = some (.waiting test rest))

/-- Something stands behind every goroutine. -/
def Backed (s : ExecutorState) : Prop := ∀ stage ∈ s.stages, stage.Backed s

end ExecutorState

section Effect

variable {s t : ExecutorState} {old new : Stage} {move : Move}

/-- No result is lost. -/
theorem Effect.mem_results (h : Effect s old move new t) {result : ExecutionResult}
    (hmem : result ∈ s.results) : result ∈ t.results := by
  cases h with
  | reported other results => exact results ▸ List.mem_append_left _ hmem
  | quiet results | failed results | recorded _ results | stopped _ _ results | gaveUp results =>
    exact results ▸ hmem

/-- No error is forgotten. -/
theorem Effect.errors_ne_nil (h : Effect s old move new t) (hne : s.errors ≠ []) :
    t.errors ≠ [] := by
  cases h with
  | recorded text _ errors => exact errors ▸ List.append_ne_nil_of_left_ne_nil hne _
  | quiet _ errors | failed _ errors | reported _ _ errors | stopped _ _ _ errors
  | gaveUp _ errors => exact errors ▸ hne

theorem Effect.recorded_mono (h : Effect s old move new t) (hrec : s.Recorded) : t.Recorded := by
  rcases hrec with herr | ⟨result, hmem, hstatus⟩
  · exact Or.inl (h.errors_ne_nil herr)
  · exact Or.inr ⟨result, h.mem_results hmem, hstatus⟩

/-- An error that is due stays due until it is sent. -/
theorem Effect.unsent_mono (h : Effect s old move new t) (hold : old.unsent ≠ none) :
    t.Recorded ∨ new.unsent ≠ none := by
  cases h with
  | quiet _ _ _ unsent => exact Or.inr (unsent.resolve_left hold ▸ hold)
  | failed _ _ unsent => exact Or.inr unsent
  | reported _ _ _ _ unsent => exact Or.inr (unsent ▸ hold)
  | recorded text _ errors => exact Or.inl (Or.inl (errors ▸ by simp))
  | stopped rest result _ _ judged => exact absurd (judged ▸ rfl) hold
  | gaveUp _ _ _ unsent => exact absurd unsent hold

theorem Effect.troubled_mono {index : ℕ} (h : Effect s old move new t)
    (hold : s.stages[index]? = some old) (hstages : t.stages = s.stages.set index new)
    (htrouble : s.Troubled) : t.Troubled := by
  have hlt : index < s.stages.length := (List.getElem?_eq_some_iff.mp hold).1
  rcases htrouble with hrec | ⟨stage, hstage, hunsent⟩
  · exact Or.inl (h.recorded_mono hrec)
  · obtain ⟨j, hj⟩ := List.mem_iff_getElem?.mp hstage
    by_cases hne : j = index
    · subst hne
      obtain rfl := Option.some.inj (hold.symm.trans hj)
      rcases h.unsent_mono hunsent with hrec | hnew
      · exact Or.inl hrec
      · exact Or.inr ⟨new, hstages ▸ List.mem_set hlt new, hnew⟩
    · refine Or.inr ⟨stage, ?_, hunsent⟩
      rw [hstages]
      refine List.mem_iff_getElem?.mpr ⟨j, ?_⟩
      rw [List.getElem?_set_ne (Ne.symm hne), hj]

theorem Effect.backed_mono {index : ℕ} (h : Effect s old move new t)
    (hstages : t.stages = s.stages.set index new) (hbacked : s.Backed) (hnew : new.Backed t) :
    t.Backed := by
  intro stage hstage
  rw [hstages] at hstage
  rcases List.mem_or_eq_of_mem_set hstage with hmem | rfl
  · have hold := hbacked stage hmem
    cases stage with
    | saving rest result err => exact fun hnone => h.mem_results (hold hnone)
    | judging rest result err => exact fun hnone => h.mem_results (hold hnone)
    | returned rest result err => exact hold
    | cancelling rest => exact h.errors_ne_nil hold
    | _ => trivial
  · exact hnew

end Effect

/-! ## The account of the tests -/

/-- Every test of the schedule has a result on the channel or is owed by a goroutine. -/
def Execution.Accounted (e : Execution) (s : ExecutorState) : Prop :=
  (s.results.map ExecutionResult.testID ++ s.stages.flatMap Stage.owed).Perm
    (e.schedule.tests.map ScheduledTest.testID)

/-- The invariant of a run: the tests are accounted for unless there is trouble. -/
structure Execution.Inv (e : Execution) (s : ExecutorState) : Prop where
  backed : s.Backed
  account : s.Troubled ∨ e.Accounted s

/-- A move that owes and sends the same tests keeps the account. -/
theorem Execution.Accounted.of_effect {e : Execution} {s t : ExecutorState} {old new : Stage}
    {move : Move} {index : ℕ} (h : e.Accounted s) (hold : s.stages[index]? = some old)
    (hstages : t.stages = s.stages.set index new) (hbacked : old.Backed s)
    (heffect : Effect s old move new t) (hgave : s.GivesUp (.worker index move) → s.Recorded) :
    t.Troubled ∨ e.Accounted t := by
  have hlt : index < s.stages.length := (List.getElem?_eq_some_iff.mp hold).1
  have htrade := flatMap_set_perm new Stage.owed hold
  cases heffect with
  | quiet results _ owed =>
    rw [owed, List.perm_append_left_iff] at htrade
    refine Or.inr ?_
    rw [Execution.Accounted, results, hstages]
    exact (htrade.append_left _).trans h
  | failed _ _ unsent => exact Or.inl (Or.inr ⟨new, hstages ▸ List.mem_set hlt new, unsent⟩)
  | reported result results _ owed =>
    -- the result takes the place of the test that was owed
    rw [owed, List.cons_append] at htrade
    have hmoved := List.perm_middle.trans htrade
    rw [List.perm_append_left_iff] at hmoved
    refine Or.inr ?_
    rw [Execution.Accounted, results, hstages, List.map_append, List.append_assoc]
    exact (hmoved.append_left _).trans h
  | recorded text _ errors => exact Or.inl (Or.inl (Or.inl (errors ▸ by simp)))
  | stopped rest result results _ judged status =>
    subst judged
    exact Or.inl (Or.inl (Or.inr ⟨result, results ▸ hbacked rfl, status⟩))
  | gaveUp results errors cancelled _ stage =>
    have hrec : s.Recorded := by
      refine hgave ⟨cancelled, index, ?_⟩
      rcases stage with ⟨rfl, test, rest, rfl⟩ | ⟨rfl, test, rest, rfl⟩
      · exact Or.inl ⟨rfl, test, rest, hold⟩
      · exact Or.inr ⟨rfl, test, rest, hold⟩
    refine Or.inl (Or.inl ?_)
    rwa [ExecutorState.Recorded, results, errors]

/-- The step lemma: a step in which nobody gives up without a record keeps the
invariant. -/
theorem Execution.Inv.step {e : Execution} {s t : ExecutorState} {a : Action}
    (hstep : e.step s a = some t) (hgave : s.GivesUp a → s.Recorded) (h : e.Inv s) : e.Inv t := by
  rcases a with _ | ⟨index, move⟩
  · obtain rfl := Option.some.inj hstep
    exact ⟨h.backed, h.account⟩
  · obtain ⟨old, hold, hmove⟩ := step_worker hstep
    obtain ⟨new, hstages, heffect, hnew⟩ := move_effect hmove
    have hbacked := h.backed old (List.mem_of_getElem? hold)
    refine ⟨?_, ?_⟩
    · exact heffect.backed_mono hstages h.backed (hnew hbacked)
    · rcases h.account with htrouble | haccount
      · exact Or.inl (heffect.troubled_mono hold hstages htrouble)
      · exact haccount.of_effect hold hstages hbacked heffect hgave

/-- The workers of a valid schedule share its tests among them. -/
theorem byWorker_perm {schedule : Schedule} (rt : Runtime) (hvalid : schedule.validate = .ok ()) :
    ((List.range schedule.workers.toNat).flatMap (schedule.byWorker rt)).Perm schedule.tests := by
  have hrange : ∀ t ∈ schedule.tests, 0 ≤ t.worker ∧ t.worker < schedule.workers := by
    rw [Schedule.validate] at hvalid
    split_ifs at hvalid
    exact fun t ht =>
      ⟨((validateTests_eq_ok.mp hvalid).1 t ht).1, ((validateTests_eq_ok.mp hvalid).1 t ht).2.1⟩
  have hnodup : ((List.range schedule.workers.toNat).map ((↑) : ℕ → ℤ)).Nodup :=
    List.nodup_range.map Nat.cast_injective
  refine List.Perm.trans ?_
    (flatMap_filter_perm ScheduledTest.worker hnodup schedule.tests fun t ht => ?_)
  · rw [List.flatMap_map]
    exact List.Perm.flatMap_left _ fun worker _ => rt.sortSlice_perm ..
  · obtain ⟨hlow, hhigh⟩ := hrange t ht
    refine List.mem_map.mpr ⟨t.worker.toNat, List.mem_range.mpr ?_, Int.toNat_of_nonneg hlow⟩
    omega

/-- The goroutines start with the invariant: together they owe the schedule. -/
theorem Execution.Inv.init {e : Execution} {rt : Runtime} (hvalid : e.schedule.validate = .ok ()) :
    e.Inv (e.init rt) := by
  refine ⟨fun stage hstage => ?_, ?_⟩
  · obtain ⟨worker, -, rfl⟩ := List.mem_map.mp hstage
    trivial
  · refine Or.inr ?_
    rw [Execution.Accounted, Execution.init, List.map_nil, List.nil_append, List.flatMap_map]
    have howed := (byWorker_perm rt hvalid).map ScheduledTest.testID
    rwa [List.map_flatMap] at howed

/-! ## Cancellation from within -/

/-- Only fail-fast moves cancel: after an error, or on a result that is not `PASSED`. -/
theorem move_cancelled {e : Execution} {s t : ExecutorState} {index : ℕ} {old : Stage}
    {move : Move} (h : e.move s index old move = some t) :
    t.cancelled = s.cancelled ∨ (∃ rest, old = .cancelling rest) ∨
      ∃ rest result, old = .judging rest result none ∧ result.status ≠ .passed := by
  unfold Execution.move Execution.sendResult Execution.sendError ExecutorState.goto at h
  grind

/-- As long as the parent does not cancel, a cancelled context has its reason on a
channel. -/
structure ExecutorState.SelfCancelled (s : ExecutorState) : Prop where
  backed : s.Backed
  reason : s.cancelled = true → s.Recorded

theorem ExecutorState.SelfCancelled.step {e : Execution} {s t : ExecutorState} {a : Action}
    (hstep : e.step s a = some t) (ha : a ≠ .parentCancel) (h : s.SelfCancelled) :
    t.SelfCancelled := by
  rcases a with _ | ⟨index, move⟩
  · exact absurd rfl ha
  · obtain ⟨old, hold, hmove⟩ := step_worker hstep
    obtain ⟨new, hstages, heffect, hnew⟩ := move_effect hmove
    have hbacked := h.backed old (List.mem_of_getElem? hold)
    refine ⟨heffect.backed_mono hstages h.backed (hnew hbacked), fun hcancelled => ?_⟩
    refine heffect.recorded_mono ?_
    rcases move_cancelled hmove with hsame | ⟨rest, rfl⟩ | ⟨rest, result, rfl, hstatus⟩
    · exact h.reason (hsame ▸ hcancelled)
    · exact Or.inl hbacked
    · exact Or.inr ⟨result, hbacked rfl, hstatus⟩

/-- **Without a cancellation by the parent nobody gives up silently.** -/
theorem gaveUp_recorded_of_no_parentCancel {e : Execution} {rt : Runtime} {actions : List Action}
    (h : Action.parentCancel ∉ actions) :
    ∀ visit ∈ visits e.step (e.init rt) actions, visit.1.GivesUp visit.2 → visit.1.Recorded := by
  have hstart : (e.init rt).SelfCancelled := by
    refine ⟨fun stage hstage => ?_, fun hcancelled => nomatch hcancelled⟩
    obtain ⟨worker, -, rfl⟩ := List.mem_map.mp hstage
    trivial
  have hown : ∀ visit ∈ visits e.step (e.init rt) actions, visit.2 ≠ .parentCancel :=
    fun visit hvisit heq => h (heq ▸ mem_of_mem_visits hvisit)
  have hall := invariant_of_visits (I := ExecutorState.SelfCancelled)
    (fun hstep ha h => h.step hstep ha) hown hstart
  exact fun visit hvisit hgives => (hall visit hvisit).reason hgives.1

/-! ## No test is skipped silently -/

/-- **No silently skipped test.** If no goroutine gives up before an error or a failed
result is recorded, a nil error with only passed results means that every scheduled
test has exactly one of them. -/
theorem output_perm_of_gaveUp_recorded {e : Execution} {rt : Runtime} {actions : List Action}
    {s : ExecutorState} (hvalid : e.schedule.validate = .ok ())
    (hrun : runFrom e.step (e.init rt) actions = some s)
    (hgave : ∀ visit ∈ visits e.step (e.init rt) actions,
      visit.1.GivesUp visit.2 → visit.1.Recorded)
    (hfinished : s.Finished) (hnil : s.failure = none)
    (hpassed : ∀ result ∈ s.output rt, result.status = .passed) :
    ((s.output rt).map ExecutionResult.testID).Perm
      (e.schedule.tests.map ScheduledTest.testID) := by
  have hperm : (s.output rt).Perm s.results := rt.sortSlice_perm ..
  have hinv := invariant_of_run (I := e.Inv) (fun hstep hok h => h.step hstep hok) hrun hgave
    (Execution.Inv.init hvalid)
  have hclean : ¬ s.Troubled := by
    rintro ((herr | ⟨result, hmem, hstatus⟩) | ⟨stage, hmem, hunsent⟩)
    · rw [ExecutorState.failure, if_neg herr] at hnil
      cases hnil
    · exact hstatus (hpassed result (hperm.mem_iff.mpr hmem))
    · rw [hfinished stage hmem] at hunsent
      exact hunsent rfl
  have hnone : s.stages.flatMap Stage.owed = [] := by
    rw [List.flatMap_eq_nil_iff]
    intro stage hmem
    rw [hfinished stage hmem]
    rfl
  have haccount := hinv.account.resolve_left hclean
  rw [Execution.Accounted, hnone, List.append_nil] at haccount
  exact (hperm.map _).trans haccount

/-- Two workers: one is to run `a` and then `c`, the other `b`. -/
def Execution.pair (failFast hasSink : Bool) : Execution :=
  ⟨⟨"schedule", "run", 2, .balanced,
    [⟨"a", "a", 0, 0, 1, 1, 0, []⟩, ⟨"b", "b", 1, 0, 2, 2, 0, []⟩, ⟨"c", "c", 0, 1, 3, 2, 0, []⟩],
    0, 3, 0, 0⟩, failFast, hasSink, false⟩

/-- The identifiers that the executions of `a`, `b` and `c` get. -/
def Execution.ea : ExecutionID := ⟨"ea", by decide⟩

def Execution.eb : ExecutionID := ⟨"eb", by decide⟩

def Execution.ec : ExecutionID := ⟨"ec", by decide⟩

/-- A run in which the other worker starts first, and all tests pass. -/
def Execution.pairRun : List Action :=
  [.worker 0 .take, .worker 1 .take, .worker 0 .begin, .worker 1 .begin,
    .worker 1 (.start Execution.eb 0), .worker 0 (.start Execution.ea 1),
    .worker 0 (.finish false .success 5 none), .worker 0 .report, .worker 0 .judge,
    .worker 0 .take, .worker 0 .begin, .worker 0 (.start Execution.ec 6),
    .worker 1 (.finish false .success 7 none), .worker 1 .report, .worker 1 .judge,
    .worker 1 .take, .worker 0 (.finish false .success 9 none), .worker 0 .report,
    .worker 0 .judge, .worker 0 .take]

theorem output_perm_of_gaveUp_recorded_pair :
    ∃ s, runFrom (Execution.pair true false).step ((Execution.pair true false).init .reference)
        Execution.pairRun = some s ∧
      ((s.output .reference).map ExecutionResult.testID).Perm
        ((Execution.pair true false).schedule.tests.map ScheduledTest.testID) :=
  ⟨⟨[.done, .done], false,
      [⟨"ea", "run", "a", "a", 0, .passed, 1, 5, 0, false⟩,
        ⟨"eb", "run", "b", "b", 1, .passed, 0, 7, 0, false⟩,
        ⟨"ec", "run", "c", "c", 0, .passed, 6, 9, 0, false⟩], [], []⟩,
    by decide +kernel,
    output_perm_of_gaveUp_recorded (by decide +kernel)
      (show runFrom _ _ Execution.pairRun = _ by decide +kernel)
      (gaveUp_recorded_of_no_parentCancel (by decide +kernel)) (by decide +kernel)
      (by decide +kernel) (by decide +kernel)⟩

/-- One test on one worker. -/
def Execution.single : Execution :=
  ⟨⟨"schedule", "run", 1, .balanced, [⟨"a", "a", 0, 0, 1, 1, 0, []⟩], 0, 1, 0, 0⟩, false, false,
    false⟩

theorem Execution.single_id_ne : "e" ≠ "" := by decide

/-- **A cancelled run can look complete.** The parent is cancelled before the only
goroutine's first check: nothing has run, and `Execute` returns no result and a nil
error. -/
theorem not_output_perm_parentCancel :
    Execution.single.schedule.validate = .ok () ∧
      ∃ s, runFrom Execution.single.step (Execution.single.init .reference)
          [.parentCancel, .worker 0 .take] = some s ∧
        s.Finished ∧ s.failure = none ∧
        (∀ result ∈ s.output .reference, result.status = .passed) ∧
        ¬ ((s.output .reference).map ExecutionResult.testID).Perm
          (Execution.single.schedule.tests.map ScheduledTest.testID) :=
  ⟨by decide +kernel, ⟨[.done], true, [], [], []⟩, by decide +kernel, by decide +kernel,
    by decide +kernel, by decide +kernel, by decide +kernel⟩

end ConflictGraph.Go
