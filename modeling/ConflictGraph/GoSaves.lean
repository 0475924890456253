import ConflictGraph.GoSink

/-!
# What Execute saves

Every result that is sent to the channel goes to `SaveExecution` right after, once. So when all
goroutines have returned, what was saved is what was reported, and if there is no error every
call of the sink has succeeded.
-/

namespace ConflictGraph.Go

/-- A result in the hands of the goroutine is one of this run, unless it is zero. -/
def Stage.Own (runID : String) : Stage → Prop
  | .returned _ result _ => result.executionID ≠ "" → result.runID = runID
  | .saving _ result _ => result.runID = runID
  | _ => True

/-- The call of the sink in a step, with its answer. -/
def saveOf (visit : ExecutorState × Action) : Option (ExecutionResult × Option String) :=
  match visit.2 with
  | .worker index (.save answer) =>
    match visit.1.stages[index]? with
    | some (.saving _ result _) => some (result, answer)
    | _ => none
  | _ => none

/-- The calls of the sink in a run. -/
def Execution.saves (e : Execution) (rt : Runtime) (actions : List Action) :
    List (ExecutionResult × Option String) :=
  (visits e.step (e.init rt) actions).filterMap saveOf

/-- The calls of the sink, seen without their answers and without their contexts. -/
theorem map_fst_filterMap_saveOf (done : List (ExecutorState × Action)) :
    (done.filterMap saveOf).map Prod.fst = (done.filterMap handed?).map Prod.fst := by
  rw [List.map_filterMap, List.map_filterMap]
  refine List.filterMap_congr fun ⟨s, a⟩ _ => ?_
  rcases a with _ | ⟨index, move⟩
  · rfl
  cases move with
  | save answer =>
    simp only [saveOf, handed?]
    rcases s.stages[index]? with _ | stage
    · rfl
    · cases stage <;> rfl
  | _ => rfl

/-- What a move of a goroutine does about saving, when its stage is `old`. -/
inductive Saving (s : ExecutorState) (old : Stage) (move : Move) (t : ExecutorState) : Prop where
  /-- nothing is saved -/
  | quiet (errors : t.errors = [] → s.errors = []) (other : ∀ answer, move ≠ .save answer)
  /-- a result is saved -/
  | saved (rest : List ScheduledTest) (result : ExecutionResult) (err answer : Option String)
      (errors : t.errors = [] → s.errors = [] ∧ answer = none)
      (before : old = .saving rest result err) (called : move = .save answer)

/-- Every move of a goroutine is of one of these kinds. -/
theorem move_saving {e : Execution} {s t : ExecutorState} {index : ℕ} {old : Stage} {move : Move}
    (h : e.move s index old move = some t) :
    ∃ new, t.stages = s.stages.set index new ∧ Saving s old move t ∧
      (old.Own e.schedule.runID → new.Own e.schedule.runID) := by
  unfold Execution.move at h
  split at h
  · obtain rfl := Option.some.inj h
    exact ⟨.done, rfl, .quiet id nofun, fun _ => trivial⟩
  · split at h
    · obtain rfl := Option.some.inj h
      exact ⟨.done, rfl, .quiet id nofun, fun _ => trivial⟩
    · obtain rfl := Option.some.inj h
      exact ⟨_, rfl, .quiet id nofun, fun _ => trivial⟩
  · obtain rfl := Option.some.inj h
    exact ⟨_, rfl, .quiet id nofun, fun _ => trivial⟩
  · split at h
    · obtain rfl := Option.some.inj h
      exact ⟨.done, rfl, .quiet id nofun, fun _ => trivial⟩
    · cases h
  · split at h
    · obtain rfl := Option.some.inj h
      exact ⟨_, rfl, .quiet id nofun, fun _ => trivial⟩
    · obtain rfl := Option.some.inj h
      exact ⟨_, rfl, .quiet id nofun, fun _ => trivial⟩
  · obtain rfl := Option.some.inj h
    exact ⟨_, rfl, .quiet id nofun, fun _ hne => absurd rfl hne⟩
  · obtain rfl := Option.some.inj h
    exact ⟨_, rfl, .quiet id nofun, fun _ => trivial⟩
  · obtain rfl := Option.some.inj h
    exact ⟨_, rfl, .quiet id nofun, fun _ hne => absurd rfl hne⟩
  · obtain rfl := Option.some.inj h
    exact ⟨_, rfl, .quiet id nofun, fun _ _ => rfl⟩
  · rename_i rest result err
    split at h
    · obtain rfl := Option.some.inj h
      exact ⟨_, rfl, .quiet id nofun, fun _ => trivial⟩
    · rename_i hzero
      rcases hsend : e.sendResult s result with _ | sent
      · simp only [hsend, reduceCtorEq] at h
      · simp only [hsend, Option.some.injEq] at h
        obtain rfl := sendResult_eq_some hsend
        subst h
        refine ⟨_, rfl, .quiet id nofun, fun hold => ?_⟩
        split
        · exact hold hzero
        · trivial
  · rename_i rest result err answer
    rcases answer with _ | text
    · obtain rfl := Option.some.inj h
      exact ⟨_, rfl, .saved rest result err none (fun h => ⟨h, rfl⟩) rfl rfl, fun _ => trivial⟩
    · simp only at h
      split at h
      · cases h
      · rename_i sent hsend
        obtain rfl := sendError_eq_some hsend
        obtain rfl := Option.some.inj h
        exact ⟨_, rfl, .saved rest result err (some text)
          (fun h => absurd h (List.concat_ne_nil _ _)) rfl rfl, fun _ => trivial⟩
  · rename_i rest result err
    rcases err with _ | text
    · simp only at h
      split at h
      · obtain rfl := Option.some.inj h
        exact ⟨.done, rfl, .quiet id nofun, fun _ => trivial⟩
      · obtain rfl := Option.some.inj h
        exact ⟨.loop rest, rfl, .quiet id nofun, fun _ => trivial⟩
    · simp only at h
      split at h
      · cases h
      · rename_i sent hsend
        obtain rfl := sendError_eq_some hsend
        obtain rfl := Option.some.inj h
        refine ⟨_, rfl, .quiet (fun h => absurd h (List.concat_ne_nil _ _)) nofun, fun _ => ?_⟩
        split <;> trivial
  · obtain rfl := Option.some.inj h
    exact ⟨_, rfl, .quiet id nofun, fun _ => trivial⟩
  · cases h

/-- What the calls of the sink have in common. -/
structure Execution.SavesAll (e : Execution) (done : List (ExecutorState × Action))
    (s : ExecutorState) : Prop where
  answers : s.errors = [] → ∀ save ∈ done.filterMap saveOf, save.2 = none
  own : ∀ stage ∈ s.stages, stage.Own e.schedule.runID
  savesOwn : ∀ save ∈ done.filterMap saveOf, save.1.runID = e.schedule.runID

/-- **One more step.** -/
theorem Execution.SavesAll.step {e : Execution} {done : List (ExecutorState × Action)}
    {s t : ExecutorState} {a : Action} (hstep : e.step s a = some t) (h : e.SavesAll done s) :
    e.SavesAll (done ++ [(s, a)]) t := by
  have hquiet : saveOf (s, a) = none →
      (done ++ [(s, a)]).filterMap saveOf = done.filterMap saveOf := fun hnone => by
    rw [filterMap_concat, hnone, Option.toList_none, List.append_nil]
  rcases a with _ | ⟨index, move⟩
  · obtain rfl := Option.some.inj hstep
    exact ⟨hquiet rfl ▸ h.answers, h.own, hquiet rfl ▸ h.savesOwn⟩
  · obtain ⟨old, hold, hmove⟩ := step_worker hstep
    obtain ⟨new, hstages, hsaving, hown⟩ := move_saving hmove
    have holdOwn := h.own old (List.mem_of_getElem? hold)
    have hstagesOwn : ∀ stage ∈ t.stages, stage.Own e.schedule.runID := by
      rw [hstages]
      intro stage hstage
      rcases List.mem_or_eq_of_mem_set hstage with hkept | rfl
      · exact h.own stage hkept
      · exact hown holdOwn
    cases hsaving with
    | quiet errors other =>
      have hnone : saveOf (s, .worker index move) = none := by
        rw [saveOf]
        cases move with
        | save answer => exact absurd rfl (other answer)
        | _ => rfl
      have hsame := hquiet hnone
      exact ⟨fun hnil => hsame ▸ h.answers (errors hnil), hstagesOwn, hsame ▸ h.savesOwn⟩
    | saved rest result err answer errors before called =>
      subst before called
      have hsave : saveOf (s, .worker index (.save answer)) = some (result, answer) := by
        simp only [saveOf, hold]
      have hone : (done ++ [(s, Action.worker index (.save answer))]).filterMap saveOf =
          done.filterMap saveOf ++ [(result, answer)] := by
        rw [filterMap_concat, hsave, Option.toList_some]
      refine ⟨fun hnil => ?_, hstagesOwn, ?_⟩
      · obtain ⟨hbefore, hanswer⟩ := errors hnil
        rw [hone]
        exact List.forall_mem_append.mpr ⟨h.answers hbefore, List.forall_mem_singleton.mpr hanswer⟩
      · rw [hone]
        exact List.forall_mem_append.mpr ⟨h.savesOwn, List.forall_mem_singleton.mpr holdOwn⟩

section Run

variable {e : Execution} {rt : Runtime} {actions : List Action} {s : ExecutorState}

theorem savesAll_of_run (hrun : runFrom e.step (e.init rt) actions = some s) :
    e.SavesAll (visits e.step (e.init rt) actions) s := by
  refine @history_of_run _ _ e.step e.SavesAll (fun hstep h => h.step hstep) actions [] _ _ hrun
    ⟨fun _ _ h => absurd h List.not_mem_nil, fun stage hstage => ?_,
      fun _ h => absurd h List.not_mem_nil⟩
  obtain ⟨worker, -, rfl⟩ := List.mem_map.mp hstage
  trivial

/-- **What was saved is what is reported**, once `Execute` goes on. -/
theorem saves_perm_results (hrun : runFrom e.step (e.init rt) actions = some s)
    (hsink : e.hasSink = true) (hfinished : s.Finished) :
    ((e.saves rt actions).map Prod.fst).Perm s.results := by
  have hhanding : Handing (visits e.step (e.init rt) actions) s :=
    history_of_run (J := Handing) (Handing.step hsink) hrun (.init e rt)
  have hnone : s.stages.flatMap Stage.unhanded = [] := by
    rw [List.flatMap_eq_nil_iff]
    intro stage hstage
    rw [hfinished stage hstage]
    rfl
  rw [Handing, hnone, List.append_nil, ← map_fst_filterMap_saveOf] at hhanding
  exact hhanding.symm

/-- Without an error every call of the sink has succeeded. -/
theorem saves_succeed (hrun : runFrom e.step (e.init rt) actions = some s)
    (hnil : s.failure = none) : ∀ save ∈ e.saves rt actions, save.2 = none := by
  refine (savesAll_of_run hrun).answers ?_
  rw [ExecutorState.failure] at hnil
  split at hnil
  · assumption
  · cases hnil

/-- What is saved is of this run. -/
theorem runID_of_saves (hrun : runFrom e.step (e.init rt) actions = some s) :
    ∀ save ∈ e.saves rt actions, save.1.runID = e.schedule.runID :=
  (savesAll_of_run hrun).savesOwn

/-- **Without an error and with passed results only, every test of the schedule has one**,
unless the parent cancels. -/
theorem results_perm_schedule (hvalid : e.schedule.validate = .ok ())
    (hrun : runFrom e.step (e.init rt) actions = some s) (hparent : .parentCancel ∉ actions)
    (hfinished : s.Finished) (hnil : s.failure = none)
    (hpassed : ∀ result ∈ s.results, result.status = .passed) :
    (s.results.map ExecutionResult.testID).Perm (e.schedule.tests.map ScheduledTest.testID) := by
  have hinv := invariant_of_run (I := e.Inv) (fun hstep hok h => h.step hstep hok) hrun
    (gaveUp_recorded_of_no_parentCancel hparent) (Execution.Inv.init hvalid)
  have hclean : ¬ s.Troubled := by
    rintro ((herr | ⟨result, hmem, hstatus⟩) | ⟨stage, hmem, hunsent⟩)
    · rw [ExecutorState.failure, if_neg herr] at hnil
      cases hnil
    · exact hstatus (hpassed result hmem)
    · rw [hfinished stage hmem] at hunsent
      exact hunsent rfl
  have hnone : s.stages.flatMap Stage.owed = [] := by
    rw [List.flatMap_eq_nil_iff]
    intro stage hmem
    rw [hfinished stage hmem]
    rfl
  have haccount := hinv.account.resolve_left hclean
  rwa [Execution.Accounted, hnone, List.append_nil] at haccount

end Run

end ConflictGraph.Go
