import ConflictGraph.GoSaves
import ConflictGraph.RecentRuns

/-!
# A run that is called completed

The command of the control plane sends its calls to a database that others write, too. What
the database says of its run is what happened to it: once it is `COMPLETED`, its executions
there are the results that `runner.Execute` has returned, each once, and all of them passed
(`completed_run`).
-/

namespace ConflictGraph

/-! ## What has taken effect -/

namespace Sql

variable {t : Tables} {done : List Statement} {runID : String}

/-- What takes effect was sent. -/
theorem mem_effects {s : Statement} {xs : List Transaction} :
    ∀ {t : Tables}, s ∈ t.effects xs → ∃ p ∈ t.answers xs, s ∈ p.1.statements := by
  induction xs with
  | nil => exact fun h => absurd h List.not_mem_nil
  | cons x rest ih =>
    intro t h
    rw [Tables.effects, List.mem_append] at h
    rcases h with h | h
    · refine ⟨_, List.mem_cons_self, ?_⟩
      rw [Tables.effective] at h
      split at h
      · exact h
      · exact absurd h List.not_mem_nil
    · obtain ⟨p, hp, hs⟩ := ih h
      exact ⟨p, List.mem_cons_of_mem _ hp, hs⟩

/-- A transaction without an error has taken effect. -/
theorem effective_of_answer {x : Transaction} (h : (t.attempt x).2 = true) :
    t.effective x = x.statements := by
  rw [Tables.attempt] at h
  rw [Tables.effective]
  rcases hcommit : t.commit x.statements with violation | t'
  · rw [hcommit] at h
    exact absurd h Bool.false_ne_true
  · rw [hcommit] at h
    refine if_pos ⟨rfl, fun hfate => ?_⟩
    simp only [hfate, Bool.false_eq_true] at h

/-- The executions of a run that these statements write. -/
def executionWrites (runID : String) (statements : List Statement) : List ExecutionRow :=
  (statements.filterMap Statement.executionWrite).filter fun row => row.runID = runID

theorem executionWrites_append (runID : String) (l l' : List Statement) :
    executionWrites runID (l ++ l') = executionWrites runID l ++ executionWrites runID l' := by
  rw [executionWrites, List.filterMap_append, List.filter_append]
  rfl

/-- If only calls without an error write executions of a run, all that was sent has taken
effect. -/
theorem executionWrites_effects {xs : List Transaction} :
    ∀ {t : Tables}, (∀ p ∈ t.answers xs, p.2 = false → executionWrites runID p.1.statements = []) →
      executionWrites runID (t.effects xs) =
        (t.answers xs).flatMap fun p => executionWrites runID p.1.statements := by
  induction xs with
  | nil => exact fun _ => rfl
  | cons x rest ih =>
    intro t h
    rw [Tables.answers, List.forall_mem_cons] at h
    rw [Tables.effects, executionWrites_append, Tables.answers, List.flatMap_cons, ih h.2]
    refine congrArg (· ++ _) ?_
    cases hanswer : (t.attempt x).2 with
    | true => rw [effective_of_answer hanswer]
    | false =>
      have hnone := h.1 hanswer
      rw [hnone, Tables.effective]
      split
      · exact hnone
      · rfl

/-- The status of a run is that of its creation or of an update. -/
theorem status_after (xs : List Transaction) {row : RunRow}
    (h : (Tables.after {} xs).runs.get? runID = some row) :
    (∃ new, .insertRun new ∈ Tables.effects {} xs ∧ new.id = runID ∧ new.status = row.status) ∨
      ∃ f, .updateRun runID f ∈ Tables.effects {} xs ∧ f.status = row.status := by
  have hall : ∀ runID row, (Tables.after {} xs).runs.get? runID = some row →
      (∃ new, .insertRun new ∈ Tables.effects {} xs ∧ new.id = runID ∧ new.status = row.status) ∨
        ∃ f, .updateRun runID f ∈ Tables.effects {} xs ∧ f.status = row.status := by
    refine @after_induction (fun done t => ∀ runID row, t.runs.get? runID = some row →
      (∃ new, .insertRun new ∈ done ∧ new.id = runID ∧ new.status = row.status) ∨
        ∃ f, .updateRun runID f ∈ done ∧ f.status = row.status) ?_ xs [] {} ?_
    · intro done t s t' hstep h runID row hrow
      have hkept : t.runs.get? runID = some row →
          (∃ new, .insertRun new ∈ done ++ [s] ∧ new.id = runID ∧ new.status = row.status) ∨
            ∃ f, .updateRun runID f ∈ done ++ [s] ∧ f.status = row.status := by
        intro hold
        refine (h runID row hold).imp ?_ ?_
        · rintro ⟨new, hnew, hsame⟩
          exact ⟨new, List.mem_append_left _ hnew, hsame⟩
        · rintro ⟨f, hf, hsame⟩
          exact ⟨f, List.mem_append_left _ hf, hsame⟩
      have hlast : s ∈ done ++ [s] := List.mem_append_right _ (List.mem_singleton.mpr rfl)
      cases hstep with
      | @insertRun new hlegal hnew =>
        rw [OrderedDict.get?_insert] at hrow
        split at hrow
        · rename_i heq
          obtain rfl := Option.some.inj hrow
          exact .inl ⟨new, hlast, heq.symm, rfl⟩
        · exact hkept hrow
      | @updateRun updated f old hold hlegal =>
        rw [OrderedDict.get?_insert] at hrow
        split at hrow
        · rename_i heq
          obtain rfl := Option.some.inj hrow
          subst heq
          exact .inr ⟨f, hlast, rfl⟩
        · exact hkept hrow
      | _ => exact hkept hrow
    · exact fun _ _ h => absurd h (Option.some_ne_none _).symm
  exact hall runID row h

/-- **What plain inserts have written of a run is what is there of it.** -/
theorem executionsOf_perm (h : Consistent done t) (hlegal : Legal t)
    (hplain : ∀ row doNothing, .insertExecution row doNothing ∈ done → row.runID = runID →
      doNothing = false) :
    (executionsOf t runID).Perm (executionWrites runID done) := by
  have hfind : ∀ id, t.executions.get? id =
      ((done.filterMap Statement.executionWrite).filter fun row => row.id = id).head? := by
    intro id
    refine (h.executions id).trans ((@rowOf_merging _ (fun old _ => old) (fun _ _ _ => rfl)
      (fun _ => rfl) _).trans ?_)
    exact Option.map_id' ..
  have hids : t.executions.values.map ExecutionRow.id = t.executions.keys := by
    rw [OrderedDict.values, OrderedDict.keys, List.map_map]
    refine List.map_congr_left fun item hitem => ?_
    exact (hlegal.executions item.1 item.2 (OrderedDict.mem_items_iff.mp hitem)).1
  have hvalues : t.executions.values.Nodup :=
    List.Nodup.of_map ExecutionRow.id (hids ▸ t.executions.nodup)
  have hstatement : ∀ {s : Statement} {row : ExecutionRow}, s ∈ done →
      s.executionWrite = some row → row.runID = runID → s = .insertExecution row false := by
    intro s row hs hrow hrun
    cases s with
    | insertExecution other doNothing =>
      obtain rfl := Option.some.inj hrow
      rw [hplain _ _ hs hrun]
    | _ => cases hrow
  -- of two writes to this run, the second is not to the row of the first
  have hdistinct : (executionWrites runID done).Pairwise fun a b => a.id ≠ b.id := by
    rw [executionWrites, List.pairwise_filter, List.pairwise_filterMap]
    refine h.fresh.imp_of_mem fun {s s'} _ hs' hprecedes a ha b hb _ hrun => ?_
    rw [hstatement hs' hb (of_decide_eq_true hrun)] at hprecedes
    exact hprecedes a ha
  refine (List.perm_ext_iff_of_nodup (hvalues.filter _) (hdistinct.imp fun hne heq =>
    hne (congrArg _ heq))).mpr fun row => ?_
  rw [executionWrites, List.mem_filter, List.mem_filter]
  refine and_congr_left fun hrun => ⟨fun hrow => ?_, fun hrow => ?_⟩
  · obtain ⟨id, hid⟩ := OrderedDict.mem_values_iff.mp hrow
    rw [hfind] at hid
    exact List.mem_of_mem_filter (List.mem_of_mem_head? hid)
  · obtain ⟨s, hs, hwrite⟩ := List.mem_filterMap.mp hrow
    obtain rfl := hstatement hs hwrite (of_decide_eq_true hrun)
    obtain ⟨before, after, heq⟩ := List.append_of_mem hs
    have hfresh := h.fresh
    rw [heq] at hfresh
    have hnone : (before.filterMap Statement.executionWrite).filter
        (fun other => other.id = row.id) = [] := by
      refine List.filter_eq_nil_iff.mpr fun other hother hid => ?_
      obtain ⟨old, hold, hwritten⟩ := List.mem_filterMap.mp hother
      exact (List.pairwise_append.mp hfresh).2.2 old hold _ List.mem_cons_self other hwritten
        (of_decide_eq_true hid)
    refine OrderedDict.mem_values_iff.mpr ⟨row.id, ?_⟩
    have hwrites : done.filterMap Statement.executionWrite =
        before.filterMap Statement.executionWrite ++
          row :: after.filterMap Statement.executionWrite := by
      rw [heq]
      exact List.filterMap_append
    rw [hfind, hwrites, List.filter_append, hnone, List.nil_append]
    simp

end Sql

namespace Go

open Sql

/-! ## What the command sends -/

/-- What a client sends in a call, and whether it gets no error. -/
abbrev Sent : Type := List Statement × Bool

/-- The answer to a call of the store. -/
def Outcomes.answer (o : Outcomes) : DatabaseCall → Option String
  | .saveTests _ => o.saveTests
  | .createRun _ => o.createRun
  | .savePredictions _ _ => o.savePredictions
  | .saveSchedule _ => o.saveSchedule
  | .finishRun _ _ _ => o.finishRun

/-- The tracer is initialised, if one is needed. -/
def Outcomes.tracerReady (o : Outcomes) (settings : Config) : Bool :=
  settings.tracing.mode ≠ "ebpf" || o.newTracer.isNone

/-- A call of `SaveExecution`, with its answer. -/
structure SaveCall : Type where
  time : ℤ
  result : CapturedResult
  answer : Option String
  deriving DecidableEq

/-- What it sends. -/
def SaveCall.sent (call : SaveCall) : Sent :=
  (Postgres.saveExecution call.time call.result, call.answer.isNone)

/-- What a call of the store sends, at its time. -/
def Outcomes.sent (o : Outcomes) (time : DatabaseCall → ℤ) (clock : Prediction → ℤ)
    (call : DatabaseCall) : Sent :=
  (Postgres.statements (time call) clock call, (o.answer call).isNone)

/-- What `execute` sends; a schedule that is saved is executed next, if the tracer is ready. -/
def Outcomes.sends (o : Outcomes) (settings : Config) (time : DatabaseCall → ℤ)
    (clock : Prediction → ℤ) (saves : List SaveCall) : List Sent :=
  o.executeCommand.1.flatMap fun call =>
    o.sent time clock call ::
      match call with
      | .saveSchedule _ =>
        if o.saveSchedule = none ∧ o.tracerReady settings then saves.map SaveCall.sent else []
      | _ => []

/-- A statement writes a row of this run. -/
def isAbout (runID : String) : Statement → Bool
  | .upsertTest _ => false
  | .insertRun row => row.id = runID
  | .insertExecution row _ => row.runID = runID
  | .insertSchedule row => row.runID = runID
  | .insertPrediction row _ => row.runID = runID
  | .updateRun updated _ => updated = runID

/-- What was sent about this run. -/
def about (runID : String) (sent : List Sent) : List Sent :=
  sent.filter fun s => s.1.any (isAbout runID)

/-- What the clients of a database have sent. -/
def sentTo (xs : List Transaction) : List Sent :=
  (Tables.answers {} xs).map fun p => (p.1.statements, p.2)

/-! ## How a command completes its run -/

section Completed

variable {o : Outcomes} {runID message : String}

/-- A failed setup step completes no run. -/
theorem not_completed_failRun {id cause : String} :
    .finishRun runID .completed message ∉ (o.failRun id cause).1 := by
  intro h
  cases List.mem_singleton.mp h

/-- A plan that was executed completes the run if everything has passed. -/
theorem runSchedule_of_completed {id : String}
    (h : .finishRun runID .completed message ∈ (o.runSchedule id).1) :
    o.Succeeds ∧ (o.runSchedule id).1 = [.finishRun id .completed o.runVerdict.2] := by
  have hcall : DatabaseCall.finishRun runID .completed message =
      .finishRun id o.runVerdict.1 o.runVerdict.2 := List.mem_singleton.mp h
  obtain ⟨-, hstatus, -⟩ := DatabaseCall.finishRun.inj hcall
  refine ⟨runVerdict_eq_completed.mp hstatus.symm, ?_⟩
  rw [Outcomes.runSchedule, ← hstatus]

/-- The calls after `CreateRun`. -/
theorem executeRun_of_completed {settings : Config} {id : String} {predictions : List Prediction}
    (h : .finishRun runID .completed message ∈ (o.executeRun settings id predictions).1) :
    ∃ schedule, o.build = .ok schedule ∧ o.saveSchedule = none ∧
      o.tracerReady settings = true ∧ o.Succeeds ∧
        (o.executeRun settings id predictions).1 = [.savePredictions id predictions,
          .saveSchedule schedule, .finishRun id .completed o.runVerdict.2] := by
  have hafter : ∀ {call : DatabaseCall} {r : CommandResult},
      .finishRun runID .completed message ∈ (CommandResult.after call r).1 →
        (∀ id status message, call ≠ .finishRun id status message) →
          .finishRun runID .completed message ∈ r.1 := fun h hother =>
    (List.mem_cons.mp h).resolve_left fun heq => hother _ _ _ heq.symm
  rw [Outcomes.executeRun] at h ⊢
  revert h
  rcases o.scheduler with err | engine
  · exact fun h => absurd h not_completed_failRun
  rcases o.build with err | schedule
  · exact fun h => absurd h not_completed_failRun
  rcases o.savePredictions with _ | err
  swap
  · exact fun h => absurd (hafter h (by simp)) not_completed_failRun
  rcases o.saveSchedule with _ | err
  swap
  · exact fun h => absurd (hafter (hafter h (by simp)) (by simp)) not_completed_failRun
  intro h
  have hlast := hafter (hafter h (by simp)) (by simp)
  refine ⟨schedule, rfl, rfl, ?_⟩
  rw [Outcomes.tracerReady]
  by_cases hmode : settings.tracing.mode = "ebpf"
  · simp only [if_pos hmode] at hlast ⊢
    rcases htracer : o.newTracer with _ | err
    · rw [htracer] at hlast
      obtain ⟨hsucceeds, hcalls⟩ := runSchedule_of_completed hlast
      exact ⟨Bool.or_true _, hsucceeds, congrArg (fun calls => _ :: _ :: calls) hcalls⟩
    · rw [htracer] at hlast
      exact absurd hlast List.not_mem_nil
  · simp only [if_neg hmode] at hlast ⊢
    obtain ⟨hsucceeds, hcalls⟩ := runSchedule_of_completed hlast
    refine ⟨?_, hsucceeds, congrArg (fun calls => _ :: _ :: calls) hcalls⟩
    rw [Bool.or_eq_true, decide_eq_true_eq]
    exact .inl hmode

/-- **A command that completes a run** has done all the rest before. -/
theorem calls_of_completed (h : .finishRun runID .completed message ∈ o.executeCommand.1) :
    ∃ settings tests predictions schedule, o.load = .ok settings ∧ o.build = .ok schedule ∧
      o.saveSchedule = none ∧ o.tracerReady settings = true ∧ o.Succeeds ∧
        o.executeCommand.1 = [.saveTests tests, .createRun (o.newRun settings predictions),
          .savePredictions o.runID predictions, .saveSchedule schedule,
          .finishRun o.runID .completed o.runVerdict.2] := by
  rw [Outcomes.executeCommand] at h ⊢
  revert h
  rcases o.parse with _ | err
  swap
  · exact fun h => absurd h List.not_mem_nil
  rcases o.load with err | settings
  · exact fun h => absurd h List.not_mem_nil
  rcases o.openStore with _ | err
  swap
  · exact fun h => absurd h List.not_mem_nil
  rcases o.collect with err | tests
  · exact fun h => absurd h List.not_mem_nil
  rcases o.predictions with err | predictions
  · exact fun h => absurd h List.not_mem_nil
  rcases o.saveTests with _ | err
  swap
  · exact fun h => absurd ((List.mem_cons.mp h).resolve_left (by simp)) List.not_mem_nil
  rcases o.createRun with _ | err
  swap
  · exact fun h => absurd ((List.mem_cons.mp ((List.mem_cons.mp h).resolve_left
      (by simp))).resolve_left (by simp)) List.not_mem_nil
  intro h
  have hcreated := (List.mem_cons.mp h).resolve_left (by simp)
  have hlast := (List.mem_cons.mp hcreated).resolve_left (by simp)
  obtain ⟨schedule, hbuild, hschedule, hready, hsucceeds, hcalls⟩ := executeRun_of_completed hlast
  refine ⟨settings, tests, predictions, schedule, rfl, hbuild, hschedule, hready, hsucceeds, ?_⟩
  exact congrArg (fun calls => _ :: _ :: calls) hcalls

/-- No run is inserted after `CreateRun`. -/
theorem not_createRun_executeRun {settings : Config} {id : String}
    {predictions : List Prediction} {run : Run} :
    .createRun run ∉ (o.executeRun settings id predictions).1 := by
  have hfail : ∀ cause, DatabaseCall.createRun run ∉ (o.failRun id cause).1 := fun cause h => by
    cases List.mem_singleton.mp h
  have hafter : ∀ {call : DatabaseCall} {r : CommandResult}, (∀ run, call ≠ .createRun run) →
      DatabaseCall.createRun run ∉ r.1 → .createRun run ∉ (CommandResult.after call r).1 :=
    fun hother hrest h => (List.mem_cons.mp h).elim (fun heq => hother _ heq.symm) hrest
  rw [Outcomes.executeRun]
  rcases o.scheduler with err | engine
  · exact hfail _
  rcases o.build with err | schedule
  · exact hfail _
  refine hafter (by simp) ?_
  rcases o.savePredictions with _ | err
  swap
  · exact hfail _
  refine hafter (by simp) ?_
  rcases o.saveSchedule with _ | err
  swap
  · exact hfail _
  have hschedule : DatabaseCall.createRun run ∉ (o.runSchedule id).1 := fun h => by
    cases List.mem_singleton.mp h
  by_cases hmode : settings.tracing.mode = "ebpf"
  · simp only [if_pos hmode]
    rcases o.newTracer with _ | err
    · exact hschedule
    · exact List.not_mem_nil
  · simp only [if_neg hmode]
    exact hschedule

/-- A run is inserted as `RUNNING`. -/
theorem status_of_createRun {run : Run} (h : .createRun run ∈ o.executeCommand.1) :
    run.status = .running := by
  rw [Outcomes.executeCommand] at h
  revert h
  rcases o.parse with _ | err
  swap
  · exact fun h => absurd h List.not_mem_nil
  rcases o.load with err | settings
  · exact fun h => absurd h List.not_mem_nil
  rcases o.openStore with _ | err
  swap
  · exact fun h => absurd h List.not_mem_nil
  rcases o.collect with err | tests
  · exact fun h => absurd h List.not_mem_nil
  rcases o.predictions with err | predictions
  · exact fun h => absurd h List.not_mem_nil
  intro h
  have hnext := (List.mem_cons.mp h).resolve_left (by simp)
  revert hnext
  rcases o.saveTests with _ | err
  swap
  · exact fun h => absurd h List.not_mem_nil
  intro hnext
  rcases List.mem_cons.mp hnext with hcall | hrest
  · rw [DatabaseCall.createRun.inj hcall]
    rfl
  · revert hrest
    rcases o.createRun with _ | err
    · exact fun h => absurd h not_createRun_executeRun
    · exact fun h => absurd h List.not_mem_nil

end Completed

/-! ## What is sent about executions -/

section Sends

variable {o : Outcomes} {settings : Config} {time : DatabaseCall → ℤ} {clock : Prediction → ℤ}
  {saves : List SaveCall} {runID : String}

theorem executionWrites_statements (now : ℤ) (call : DatabaseCall) :
    executionWrites runID (Postgres.statements now clock call) = [] := by
  have hnone : ∀ {α : Type} (f : α → Statement) (l : List α),
      (∀ a, (f a).executionWrite = none) → executionWrites runID (l.map f) = [] := by
    intro α f l hf
    have hwrites : (l.map f).filterMap Statement.executionWrite = [] :=
      List.filterMap_eq_nil_iff.mpr (List.forall_mem_map.mpr fun a _ => hf a)
    rw [executionWrites, hwrites, List.filter_nil]
  cases call with
  | saveTests tests => exact hnone _ _ fun _ => rfl
  | savePredictions id predictions => exact hnone _ _ fun _ => rfl
  | _ => rfl

/-- Where nothing is about a run, no execution of it is written. -/
theorem executionWrites_eq_nil {statements : List Statement}
    (h : statements.any (isAbout runID) = false) : executionWrites runID statements = [] := by
  refine List.filter_eq_nil_iff.mpr fun row hrow hrun => ?_
  obtain ⟨s, hs, hwrite⟩ := List.mem_filterMap.mp hrow
  have hnot := List.any_eq_false.mp h s hs
  cases s with
  | insertExecution other doNothing =>
    obtain rfl := Option.some.inj hwrite
    exact hnot hrun
  | _ => cases hwrite

theorem flatMap_about (sent : List Sent) :
    ((about runID sent).flatMap fun s => executionWrites runID s.1) =
      sent.flatMap fun s => executionWrites runID s.1 := by
  induction sent with
  | nil => rfl
  | cons first rest ih =>
    rw [about, List.filter_cons, List.flatMap_cons, ← ih]
    split
    · rfl
    · rename_i hnot
      rw [executionWrites_eq_nil (Bool.eq_false_iff.mpr hnot)]
      rfl

/-- What is sent is a call of the command or of the executor. -/
theorem mem_sends {sent : Sent} (h : sent ∈ o.sends settings time clock saves) :
    (∃ call ∈ o.executeCommand.1, sent.1 = Postgres.statements (time call) clock call) ∨
      ∃ save ∈ saves, sent = save.sent := by
  obtain ⟨call, hcall, hsent⟩ := List.mem_flatMap.mp h
  rcases List.mem_cons.mp hsent with rfl | hsent
  · exact .inl ⟨call, hcall, rfl⟩
  · split at hsent
    · split at hsent
      · obtain ⟨save, hsave, rfl⟩ := List.mem_map.mp hsent
        exact .inr ⟨save, hsave, rfl⟩
      · exact absurd hsent List.not_mem_nil
    · exact absurd hsent List.not_mem_nil

/-- Only `FinishRun` updates a run. -/
theorem updateRun_mem_statements {now : ℤ} {call : DatabaseCall} {f : Finish}
    (h : .updateRun runID f ∈ Postgres.statements now clock call) :
    ∃ status message, call = .finishRun runID status message ∧ f.status = status.text := by
  cases call with
  | saveTests tests =>
    obtain ⟨test, -, heq⟩ := List.mem_map.mp h
    cases heq
  | createRun run => cases List.mem_singleton.mp h
  | savePredictions id predictions =>
    obtain ⟨p, -, heq⟩ := List.mem_map.mp h
    cases heq
  | saveSchedule schedule => cases List.mem_singleton.mp h
  | finishRun id status message =>
    obtain ⟨rfl, rfl⟩ := Statement.updateRun.inj (List.mem_singleton.mp h)
    exact ⟨status, message, rfl, rfl⟩

/-- An update comes from the command. -/
theorem finishRun_of_mem_sends {sent : Sent} {f : Finish}
    (h : sent ∈ o.sends settings time clock saves) (hupdate : .updateRun runID f ∈ sent.1) :
    ∃ status message, .finishRun runID status message ∈ o.executeCommand.1 ∧
      f.status = status.text := by
  rcases mem_sends h with ⟨call, hcall, hstatements⟩ | ⟨save, -, rfl⟩
  · rw [hstatements] at hupdate
    obtain ⟨status, message, rfl, hstatus⟩ := updateRun_mem_statements hupdate
    exact ⟨status, message, hcall, hstatus⟩
  · cases List.mem_singleton.mp hupdate

/-- So does the insertion of a run, which is `RUNNING` then. -/
theorem status_of_mem_sends {sent : Sent} {new : RunRow}
    (h : sent ∈ o.sends settings time clock saves) (hinsert : .insertRun new ∈ sent.1) :
    new.status = "RUNNING" := by
  rcases mem_sends h with ⟨call, hcall, hstatements⟩ | ⟨save, -, rfl⟩
  · rw [hstatements] at hinsert
    cases call with
    | saveTests tests =>
      obtain ⟨test, -, heq⟩ := List.mem_map.mp hinsert
      cases heq
    | createRun run =>
      obtain rfl := Statement.insertRun.inj (List.mem_singleton.mp hinsert)
      rw [Postgres.runRow, status_of_createRun hcall]
      rfl
    | savePredictions id predictions =>
      obtain ⟨p, -, heq⟩ := List.mem_map.mp hinsert
      cases heq
    | saveSchedule schedule => cases List.mem_singleton.mp hinsert
    | finishRun id status message => cases List.mem_singleton.mp hinsert
  · cases List.mem_singleton.mp hinsert

end Sends

section Run

variable {o : Outcomes} {settings : Config} {time : DatabaseCall → ℤ} {clock : Prediction → ℤ}
  {saves : List SaveCall}

/-- What a command that completes its run has sent, in order. -/
theorem sends_of_completed {message : String} (hload : o.load = .ok settings)
    (h : .finishRun o.runID .completed message ∈ o.executeCommand.1) :
    ∃ setup finish, o.sends settings time clock saves =
        setup ++ saves.map SaveCall.sent ++ [finish] ∧
      (∀ sent ∈ setup ++ [finish], executionWrites o.runID sent.1 = []) ∧
      (∀ sent ∈ setup, ∀ f, .updateRun o.runID f ∉ sent.1) ∧
        ∃ f, .updateRun o.runID f ∈ finish.1 := by
  obtain ⟨settings', tests, predictions, schedule, hload', -, hschedule, hready, -, hcalls⟩ :=
    calls_of_completed h
  obtain rfl := Except.ok.inj (hload'.symm.trans hload)
  have hsends : o.sends settings' time clock saves =
      ([.saveTests tests, .createRun (o.newRun settings' predictions),
        .savePredictions o.runID predictions, .saveSchedule schedule] : List DatabaseCall).map
          (o.sent time clock) ++ saves.map SaveCall.sent ++
        [o.sent time clock (.finishRun o.runID .completed o.runVerdict.2)] := by
    rw [Outcomes.sends, hcalls]
    simp only [List.flatMap_cons, List.flatMap_nil, hschedule, hready, and_self, if_true,
      List.map_cons, List.map_nil, List.append_nil, List.cons_append, List.nil_append]
  refine ⟨_, _, hsends, ?_, ?_, ⟨_, List.mem_singleton.mpr rfl⟩⟩
  · intro sent hsent
    rcases List.mem_append.mp hsent with hsetup | hfinish
    · obtain ⟨call, -, rfl⟩ := List.mem_map.mp hsetup
      exact executionWrites_statements _ call
    · simp only [List.mem_singleton.mp hfinish, Outcomes.sent]
      exact executionWrites_statements _ _
  · intro sent hsent f hupdate
    obtain ⟨call, hcall, rfl⟩ := List.mem_map.mp hsent
    obtain ⟨status, text, rfl, -⟩ := updateRun_mem_statements hupdate
    simp at hcall

/-- The executions of a run that its saves write. -/
theorem executionWrites_saves {runID : String} {saves : List SaveCall}
    (hown : ∀ save ∈ saves, save.result.runID = runID) :
    ((saves.map SaveCall.sent).flatMap fun sent => executionWrites runID sent.1) =
      saves.map fun save => Postgres.executionRow save.time save.result := by
  induction saves with
  | nil => rfl
  | cons save rest ih =>
    rw [List.forall_mem_cons] at hown
    have hone : executionWrites runID save.sent.1 =
        [Postgres.executionRow save.time save.result] :=
      List.filter_cons_of_pos (decide_eq_true hown.1)
    rw [List.map_cons, List.flatMap_cons, ih hown.2, hone]
    rfl

/-- Of all that a command sends that completes its run, its saves write the executions. -/
theorem executionWrites_sends {message : String} (hload : o.load = .ok settings)
    (h : .finishRun o.runID .completed message ∈ o.executeCommand.1)
    (hown : ∀ save ∈ saves, save.result.runID = o.runID) :
    ((o.sends settings time clock saves).flatMap fun sent => executionWrites o.runID sent.1) =
      saves.map fun save => Postgres.executionRow save.time save.result := by
  obtain ⟨setup, finish, hall, hnone, -, -⟩ :=
    @sends_of_completed o settings time clock saves message hload h
  have hempty : ∀ {sent : List Sent}, (∀ s ∈ sent, executionWrites o.runID s.1 = []) →
      (sent.flatMap fun s => executionWrites o.runID s.1) = [] := fun h =>
    List.flatMap_eq_nil_iff.mpr h
  rw [hall, List.flatMap_append, List.flatMap_append, executionWrites_saves hown,
    hempty fun s hs => hnone s (List.mem_append_left _ hs),
    hempty fun s hs => hnone s (List.mem_append_right _ hs), List.nil_append, List.append_nil]

section History

variable {xs : List Transaction} {message : String}
  (hhistory : about o.runID (sentTo xs) <+: about o.runID (o.sends settings time clock saves))

include hhistory

/-- What took effect about the run was sent by its command. -/
theorem exists_sent_of_effect {statement : Statement} (h : statement ∈ Tables.effects {} xs)
    (habout : isAbout o.runID statement = true) :
    ∃ sent ∈ about o.runID (sentTo xs),
      sent ∈ o.sends settings time clock saves ∧ statement ∈ sent.1 := by
  obtain ⟨p, hp, hmem⟩ := mem_effects h
  have hsent : (p.1.statements, p.2) ∈ about o.runID (sentTo xs) :=
    List.mem_filter.mpr ⟨List.mem_map_of_mem hp, List.any_eq_true.mpr ⟨statement, hmem, habout⟩⟩
  exact ⟨_, hsent, List.mem_of_mem_filter (hhistory.subset hsent), hmem⟩

/-- So it is the command that has completed the run. -/
theorem exists_finishRun_of_completed {row : RunRow}
    (hrow : (Tables.after {} xs).runs.get? o.runID = some row)
    (hcompleted : row.status = "COMPLETED") :
    (∃ last ∈ about o.runID (sentTo xs), ∃ f, .updateRun o.runID f ∈ last.1) ∧
      ∃ message, .finishRun o.runID .completed message ∈ o.executeCommand.1 := by
  obtain ⟨f, hupdate, hstatus⟩ : ∃ f, .updateRun o.runID f ∈ Tables.effects {} xs ∧
      f.status = row.status := by
    refine (status_after xs hrow).resolve_left ?_
    rintro ⟨new, hnew, hid, hstatus⟩
    obtain ⟨sent, -, hmem, hinsert⟩ := exists_sent_of_effect hhistory hnew (decide_eq_true hid)
    have hrunning := status_of_mem_sends hmem hinsert
    rw [hstatus, hcompleted] at hrunning
    exact absurd hrunning (by decide)
  obtain ⟨last, hlast, hmem, hlastUpdate⟩ :=
    exists_sent_of_effect hhistory hupdate (decide_eq_true rfl)
  refine ⟨⟨last, hlast, f, hlastUpdate⟩, ?_⟩
  obtain ⟨status, message, hcall, htext⟩ := finishRun_of_mem_sends hmem hlastUpdate
  rw [hstatus, hcompleted] at htext
  cases status with
  | completed => exact ⟨message, hcall⟩
  | running => exact absurd htext (by decide)
  | failed => exact absurd htext (by decide)

/-- All that the command sends about the run has arrived if its end has. -/
theorem about_sentTo_of_completed (hload : o.load = .ok settings)
    (hfinish : .finishRun o.runID .completed message ∈ o.executeCommand.1)
    (hlast : ∃ last ∈ about o.runID (sentTo xs), ∃ f, .updateRun o.runID f ∈ last.1) :
    about o.runID (sentTo xs) = about o.runID (o.sends settings time clock saves) := by
  obtain ⟨setup, finish, hall, -, hnoUpdate, g, hg⟩ :=
    @sends_of_completed o settings time clock saves message hload hfinish
  obtain ⟨last, hlast, f, hupdate⟩ := hlast
  have hend : about o.runID (o.sends settings time clock saves) =
      about o.runID (setup ++ saves.map SaveCall.sent) ++ [finish] := by
    rw [hall, about, List.filter_append]
    refine congrArg _ (List.filter_eq_self.mpr fun sent hsent => ?_)
    rw [List.mem_singleton.mp hsent]
    exact List.any_eq_true.mpr ⟨_, hg, decide_eq_true rfl⟩
  rw [hend] at hhistory ⊢
  refine (List.prefix_concat_iff.mp hhistory).resolve_right fun hbefore => ?_
  rcases List.mem_append.mp (List.mem_of_mem_filter (hbefore.subset hlast)) with hin | hin
  · exact hnoUpdate last hin f hupdate
  · obtain ⟨save, -, rfl⟩ := List.mem_map.mp hin
    cases List.mem_singleton.mp hupdate

/-- If no save of the run has failed, every execution of it that was sent has taken effect. -/
theorem executionWrites_effects_of_completed (hload : o.load = .ok settings)
    (hfinish : .finishRun o.runID .completed message ∈ o.executeCommand.1)
    (hanswer : ∀ save ∈ saves, save.answer = none) :
    executionWrites o.runID (Tables.effects {} xs) =
      (sentTo xs).flatMap fun sent => executionWrites o.runID sent.1 := by
  obtain ⟨setup, finish, hall, hnone, -, -⟩ :=
    @sends_of_completed o settings time clock saves message hload hfinish
  rw [executionWrites_effects, sentTo, List.flatMap_map]
  intro p hp hfalse
  by_cases habout : p.1.statements.any (isAbout o.runID) = true
  · have hmem : (p.1.statements, p.2) ∈ o.sends settings time clock saves :=
      List.mem_of_mem_filter (hhistory.subset
        (List.mem_filter.mpr ⟨List.mem_map_of_mem hp, habout⟩))
    rw [hall, List.append_assoc] at hmem
    rcases List.mem_append.mp hmem with hin | hin
    · exact hnone _ (List.mem_append_left _ hin)
    rcases List.mem_append.mp hin with hin | hin
    · -- a save has no error, so its answer is not that of `p`
      obtain ⟨save, hsave, heq⟩ := List.mem_map.mp hin
      have htrue : save.answer.isNone = p.2 := congrArg Prod.snd heq
      rw [hanswer save hsave, hfalse] at htrue
      cases htrue
    · exact hnone _ (List.mem_append_right _ hin)
  · exact executionWrites_eq_nil (Bool.eq_false_iff.mpr habout)

/-- The executions of the run are inserted plainly. -/
theorem insertsPlainly_of_history : ∀ row doNothing,
    .insertExecution row doNothing ∈ Tables.effects {} xs → row.runID = o.runID →
      doNothing = false := by
  intro row doNothing hmem hid
  obtain ⟨sent, -, hsends, hstatement⟩ :=
    exists_sent_of_effect hhistory hmem (decide_eq_true hid)
  rcases mem_sends hsends with ⟨call, -, hcall⟩ | ⟨save, -, rfl⟩
  · have hwritten : row ∈ executionWrites o.runID (Postgres.statements (time call) clock call) :=
      List.mem_filter.mpr ⟨List.mem_filterMap.mpr ⟨_, hcall ▸ hstatement, rfl⟩,
        decide_eq_true hid⟩
    rw [executionWrites_statements] at hwritten
    exact absurd hwritten List.not_mem_nil
  · exact (Statement.insertExecution.inj (List.mem_singleton.mp hstatement)).2

/-- What is there of a completed run are its saves. -/
theorem executionsOf_perm_saves (hload : o.load = .ok settings)
    (hanswer : ∀ save ∈ saves, save.answer = none)
    (hown : ∀ save ∈ saves, save.result.runID = o.runID)
    (hfinish : .finishRun o.runID .completed message ∈ o.executeCommand.1)
    (hlast : ∃ last ∈ about o.runID (sentTo xs), ∃ f, .updateRun o.runID f ∈ last.1) :
    (executionsOf (Tables.after {} xs) o.runID).Perm
      (saves.map fun save => Postgres.executionRow save.time save.result) := by
  have hrows : executionWrites o.runID (Tables.effects {} xs) =
      saves.map fun save => Postgres.executionRow save.time save.result := by
    rw [executionWrites_effects_of_completed hhistory hload hfinish hanswer, ← flatMap_about,
      about_sentTo_of_completed hhistory hload hfinish hlast, flatMap_about,
      executionWrites_sends hload hfinish hown]
  exact hrows ▸ executionsOf_perm (consistent_after xs) (legal_after xs)
    (insertsPlainly_of_history hhistory)

end History

/-- **Once the database says `COMPLETED`**, whatever else is written to it meanwhile: the
executions of the run there are the results that `runner.Execute` has returned, each once, all of
them passed, and if nobody interrupted the command, they are one for each test of the
schedule. -/
theorem completed_run {e : Execution} {rt : Runtime} {actions : List Action} {s : ExecutorState}
    (hload : o.load = .ok settings) (hrunID : e.schedule.runID = o.runID) (hsink : e.hasSink = true)
    (hvalid : e.schedule.validate = .ok ())
    (hrun : runFrom e.step (e.init rt) actions = some s) (hfinished : s.Finished)
    (hexecute : o.execute = (s.output rt, s.failure))
    (hsaves : saves.map (fun save => (save.result.toExecutionResult, save.answer)) =
      e.saves rt actions)
    {xs : List Transaction}
    (hhistory : about o.runID (sentTo xs) <+: about o.runID (o.sends settings time clock saves))
    {row : RunRow} (hrow : (Tables.after {} xs).runs.get? o.runID = some row)
    (hcompleted : row.status = "COMPLETED") :
    (executionsOf (Tables.after {} xs) o.runID).Perm
        (saves.map fun save => Postgres.executionRow save.time save.result) ∧
      ((executionsOf (Tables.after {} xs) o.runID).map ExecutionRow.testID).Perm
        ((s.output rt).map ExecutionResult.testID) ∧
      (∀ execution ∈ executionsOf (Tables.after {} xs) o.runID, execution.status = "PASSED") ∧
      (.parentCancel ∉ actions →
        ((executionsOf (Tables.after {} xs) o.runID).map ExecutionRow.testID).Perm
          (e.schedule.tests.map ScheduledTest.testID)) := by
  obtain ⟨hlast, message, hfinish⟩ := exists_finishRun_of_completed hhistory hrow hcompleted
  have hsucceeds : o.Succeeds := by
    obtain ⟨_, _, _, _, -, -, -, -, hsucceeds, -⟩ := calls_of_completed hfinish
    exact hsucceeds
  rw [Outcomes.Succeeds, hexecute] at hsucceeds
  obtain ⟨hnil, hpassed⟩ := hsucceeds
  have hinSaves : ∀ save ∈ saves,
      (save.result.toExecutionResult, save.answer) ∈ e.saves rt actions := fun save hsave =>
    hsaves ▸ List.mem_map_of_mem hsave
  have hperm := executionsOf_perm_saves hhistory hload
    (fun save hsave => saves_succeed hrun hnil _ (hinSaves save hsave))
    (fun save hsave => (runID_of_saves hrun _ (hinSaves save hsave)).trans hrunID) hfinish hlast
  have hresults : (saves.map fun save => save.result.toExecutionResult).Perm s.results := by
    have hfirst : (saves.map fun save => save.result.toExecutionResult) =
        (e.saves rt actions).map Prod.fst := by
      rw [← hsaves, List.map_map]
      rfl
    exact hfirst ▸ saves_perm_results hrun hsink hfinished
  have houtput : (s.output rt).Perm s.results := rt.sortSlice_perm ..
  have hids : ((executionsOf (Tables.after {} xs) o.runID).map ExecutionRow.testID).Perm
      (s.results.map ExecutionResult.testID) := by
    have htests := hresults.map ExecutionResult.testID
    rw [List.map_map] at htests
    refine (hperm.map _).trans (List.Perm.trans (List.Perm.of_eq ?_) htests)
    rw [List.map_map]
    rfl
  refine ⟨hperm, hids.trans (houtput.map _).symm, fun execution hexecution => ?_, fun hparent => ?_⟩
  · obtain ⟨save, hsave, rfl⟩ := List.mem_map.mp (hperm.mem_iff.mp hexecution)
    have hresult := hresults.mem_iff.mp (List.mem_map_of_mem hsave)
    change save.result.status.text = "PASSED"
    rw [hpassed _ (houtput.mem_iff.mpr hresult)]
    rfl
  · exact hids.trans (results_perm_schedule hvalid hrun hparent hfinished hnil fun result hresult =>
      hpassed result (houtput.mem_iff.mpr hresult))

end Run

/-! ## A run on two workers -/

/-- All tests pass, and each result is saved while the other worker goes on. -/
def Execution.committedRun : List Action :=
  [.worker 0 .take, .worker 1 .take, .worker 0 .begin, .worker 1 .begin,
    .worker 1 (.start Execution.eb 0), .worker 0 (.start Execution.ea 1),
    .worker 0 (.finish false .success 5 none), .worker 0 .report, .worker 0 (.save none),
    .worker 0 .judge, .worker 0 .take, .worker 0 .begin, .worker 0 (.start Execution.ec 6),
    .worker 1 (.finish false .success 7 none), .worker 1 .report, .worker 1 (.save none),
    .worker 1 .judge, .worker 1 .take, .worker 0 (.finish false .success 9 none),
    .worker 0 .report, .worker 0 (.save none), .worker 0 .judge, .worker 0 .take]

/-- The results, in the order of their reports. -/
def committedResults : List ExecutionResult :=
  [⟨"ea", "run", "a", "a", 0, .passed, 1, 5, 0, false⟩,
    ⟨"eb", "run", "b", "b", 1, .passed, 0, 7, 0, false⟩,
    ⟨"ec", "run", "c", "c", 0, .passed, 6, 9, 0, false⟩]

def committedState : ExecutorState :=
  ⟨[.done, .done], false, committedResults, [], committedResults⟩

/-- The command that runs them. -/
def Outcomes.committed : Outcomes :=
  { Outcomes.withTracer (.withMode "disabled") none with
    collect := .ok (["a", "b", "c"].map fun id => { id, nodeID := id })
    predictions := .ok []
    build := .ok (Execution.pair false true).schedule
    execute := (committedState.output .reference, none) }

/-- The calls of the sink. -/
def committedSaves : List SaveCall :=
  committedResults.map fun result => ⟨result.endedAt, { result with }, none⟩

def committedSends : List Sent :=
  Outcomes.committed.sends (.withMode "disabled") (fun _ => 1) (fun _ => 0) committedSaves

/-- All that it sends is committed; in between, another client writes about another run, and
fails to write about a third. -/
def committedHistory : List Transaction :=
  let committed := committedSends.map fun sent => (⟨sent.1, .acknowledged⟩ : Transaction)
  committed.take 4 ++ [creates 2 "other", saves 3 "e1" "other" "a" .failed,
    saves 3 "e2" "absent" "a" .passed] ++ committed.drop 4

/-- The row of its run. -/
def committedRow : RunRow :=
  { id := "run", status := "COMPLETED", schedulerPolicy := "balanced", workerCount := 2, seed := 42,
    sourceRevision := "unknown", traceMode := "disabled", modelVersion := some "duration-only",
    startedAt := 1, endedAt := some 1, predictionCount := some 0 }

/-- The tests of this run are there, and passed. -/
theorem completed_run_committed :
    (Tables.after {} committedHistory).runs.get? "run" = some committedRow ∧
      (executionsOf (Tables.after {} committedHistory) "run").Perm
        (committedSaves.map fun save => Postgres.executionRow save.time save.result) ∧
      ((executionsOf (Tables.after {} committedHistory) "run").map ExecutionRow.testID).Perm
        ((committedState.output .reference).map ExecutionResult.testID) ∧
      (∀ execution ∈ executionsOf (Tables.after {} committedHistory) "run",
        execution.status = "PASSED") ∧
      (.parentCancel ∉ Execution.committedRun →
        ((executionsOf (Tables.after {} committedHistory) "run").map ExecutionRow.testID).Perm
          ((Execution.pair false true).schedule.tests.map ScheduledTest.testID)) := by
  refine ⟨by decide +kernel, ?_⟩
  refine @completed_run Outcomes.committed (.withMode "disabled") (fun _ => 1) (fun _ => 0)
    committedSaves (.pair false true) .reference Execution.committedRun committedState rfl rfl rfl
    (by decide +kernel) (by decide +kernel) (by decide +kernel) rfl (by decide +kernel)
    committedHistory ⟨[], by decide +kernel⟩ committedRow (by decide +kernel)
    (by decide +kernel)

end Go

end ConflictGraph
