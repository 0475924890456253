import ConflictGraph.Outcome
import ConflictGraph.PostgresClients

/-!
# What the tables hold

After any transactions of any clients the rows are what the statements that took effect have
made of them (`Consistent.after`), and every row meets the constraints of its table. A test and a
prediction keep what the first write says of them, but for the columns that `DO UPDATE` names.
-/

namespace ConflictGraph.Sql

open Go (Violation PredictionRow)

/-! ## The writes of a statement -/

namespace Statement

/-- The test that is written. -/
def testWrite : Statement → Option TestRow
  | .upsertTest row => some row
  | _ => none

/-- The write to a run. -/
def runWrite : Statement → Option RunWrite
  | .insertRun row => some (.created row)
  | .updateRun runID f => some (.finished runID f)
  | _ => none

/-- The run that is inserted. -/
def newRun : Statement → Option RunRow
  | .insertRun row => some row
  | _ => none

/-- The execution that is written. -/
def executionWrite : Statement → Option ExecutionRow
  | .insertExecution row _ => some row
  | _ => none

/-- The prediction that is written. -/
def predictionWrite : Statement → Option PredictionRow
  | .insertPrediction row _ => some row
  | _ => none

end Statement

/-- The second statement is no plain `INSERT` at a key that the first writes to. -/
def Statement.Precedes (s : Statement) : Statement → Prop
  | .insertRun row => ∀ old, s.newRun = some old → old.id ≠ row.id
  | .insertExecution row false => ∀ old, s.executionWrite = some old → old.id ≠ row.id
  | .insertPrediction row false => ∀ old, s.predictionWrite = some old → old.pair ≠ row.pair
  | _ => True

/-- The rows are what these statements have made. -/
structure Consistent (done : List Statement) (t : Tables) : Prop where
  tests : testWrites.Written TestRow.id t.tests (done.filterMap Statement.testWrite)
  runs : runWrites.Written RunWrite.runID t.runs (done.filterMap Statement.runWrite)
  executions : (firstWrites ExecutionRow).Written ExecutionRow.id t.executions
    (done.filterMap Statement.executionWrite)
  predictions : predictionWrites.Written PredictionRow.pair t.predictions
    (done.filterMap Statement.predictionWrite)
  /-- a run that was inserted is there -/
  mem_runs : ∀ runID, runID ∈ t.runs.keys ↔
    ∃ s ∈ done, ∃ row, s.newRun = some row ∧ row.id = runID
  /-- what was inserted was not there -/
  fresh : done.Pairwise Statement.Precedes

/-! ## One statement -/

/-- What a statement that violates nothing does: the tables after it, with the guards it has
passed. -/
inductive Executed (t : Tables) : Statement → Tables → Prop where
  | upsertTest (row : TestRow) :
    Executed t (.upsertTest row) { t with tests := testWrites.apply t.tests row.id row }
  | insertRun {row : RunRow} (hlegal : row.status ∈ runStatuses ∧ 0 < row.workerCount)
      (hnew : row.id ∉ t.runs.keys) :
    Executed t (.insertRun row) { t with runs := t.runs.insert row.id row }
  | insertExecution {row : ExecutionRow} {doNothing : Bool} (hlegal : 0 ≤ row.durationSeconds)
      (hnew : row.id ∉ t.executions.keys)
      (hrefs : row.runID ∈ t.runs.keys ∧ row.testID ∈ t.tests.keys) :
    Executed t (.insertExecution row doNothing)
      { t with executions := t.executions.insert row.id row }
  | doNothing {row : ExecutionRow} (hold : row.id ∈ t.executions.keys) :
    Executed t (.insertExecution row true) t
  | insertSchedule {row : ScheduleRow} (hnew : row.id ∉ t.schedules.keys)
      (hone : row.runID ∉ t.schedules.values.map ScheduleRow.runID)
      (href : row.runID ∈ t.runs.keys) :
    Executed t (.insertSchedule row) { t with schedules := t.schedules.insert row.id row }
  | insertPrediction {row : PredictionRow} {doUpdate : Bool}
      (hnull : row.sharedResources ≠ none)
      (hlegal : (0 ≤ row.probability ∧ row.probability ≤ 1) ∧ row.testA < row.testB)
      (hnew : t.predictions.get? row.pair = none)
      (hrefs : row.runID ∈ t.runs.keys ∧ row.testA ∈ t.tests.keys ∧ row.testB ∈ t.tests.keys) :
    Executed t (.insertPrediction row doUpdate)
      { t with predictions := t.predictions.insert row.pair row }
  | updatePrediction {row old : PredictionRow} (hnull : row.sharedResources ≠ none)
      (hlegal : (0 ≤ row.probability ∧ row.probability ≤ 1) ∧ row.testA < row.testB)
      (hold : t.predictions.get? row.pair = some old) :
    Executed t (.insertPrediction row true)
      { t with predictions := t.predictions.insert row.pair (predictionUpdated old row) }
  | updateRun {runID : String} {f : Finish} {old : RunRow} (hold : t.runs.get? runID = some old)
      (hlegal : f.status ∈ runStatuses) :
    Executed t (.updateRun runID f) { t with runs := t.runs.insert runID (old.finish f) }
  | updateNothing {runID : String} {f : Finish} (hnone : t.runs.get? runID = none) :
    Executed t (.updateRun runID f) t

/-- **What a statement does.** -/
theorem executed_of_exec {t t' : Tables} {s : Statement} (h : t.exec s = .ok t') :
    Executed t s t' := by
  cases s with
  | upsertTest row =>
    obtain rfl := Except.ok.inj h
    exact .upsertTest row
  | insertRun row =>
    simp only [Tables.exec, Tables.insertRun] at h
    split_ifs at h with hlegal hold
    obtain rfl := Except.ok.inj h
    exact .insertRun hlegal hold
  | insertExecution row doNothing =>
    simp only [Tables.exec, Tables.insertExecution] at h
    split_ifs at h with hlegal hold hnothing hrefs
    · obtain rfl := Except.ok.inj h
      obtain rfl := hnothing
      exact .doNothing hold
    · obtain rfl := Except.ok.inj h
      exact .insertExecution (not_lt.mp hlegal) hold hrefs
  | insertSchedule row =>
    simp only [Tables.exec, Tables.insertSchedule] at h
    split_ifs at h with hold href
    obtain rfl := Except.ok.inj h
    obtain ⟨hnew, hone⟩ := not_or.mp hold
    exact .insertSchedule hnew hone href
  | insertPrediction row doUpdate =>
    simp only [Tables.exec, Tables.insertPrediction] at h
    rcases hold : t.predictions.get? row.pair with _ | old
    · simp only [hold] at h
      split_ifs at h with hnull hlegal hrefs
      obtain rfl := Except.ok.inj h
      exact .insertPrediction hnull hlegal hold hrefs
    · simp only [hold] at h
      split_ifs at h with hnull hlegal hupdate
      obtain rfl := Except.ok.inj h
      obtain rfl := hupdate
      exact .updatePrediction hnull hlegal hold
  | updateRun runID f =>
    simp only [Tables.exec, Tables.updateRun] at h
    split at h
    · rename_i hnone
      obtain rfl := Except.ok.inj h
      exact .updateNothing hnone
    · rename_i old hold
      split_ifs at h with hlegal
      obtain rfl := Except.ok.inj h
      exact .updateRun hold hlegal

namespace Consistent

variable {done : List Statement} {t t' : Tables}

theorem empty : Consistent [] {} :=
  ⟨.empty, .empty, .empty, .empty, fun _ => iff_of_false List.not_mem_nil (by simp), .nil⟩

/-- What has no row was not written. -/
theorem precedes_of_executed {s : Statement} (h : Consistent done t) (hstep : Executed t s t') :
    ∀ old ∈ done, old.Precedes s := by
  have hwritten : ∀ {κ ρ : Type} [DecidableEq κ] {merge : ρ → ρ → ρ} {key : ρ → κ}
      {d : OrderedDict κ ρ} {f : Statement → Option ρ},
      (merging merge).Written key d (done.filterMap f) → ∀ {k : κ}, d.get? k = none →
        ∀ old ∈ done, ∀ row, f old = some row → key row ≠ k := by
    intro κ ρ _ merge key d f hwritten k hnone old hold row hrow hkey
    have hsome := (hwritten.isSome_iff (fun _ _ => Option.some_ne_none _) k).mpr
      ⟨row, List.mem_filterMap.mpr ⟨old, hold, hrow⟩, hkey⟩
    rw [hnone] at hsome
    exact Bool.false_ne_true hsome
  intro old hold
  cases hstep with
  | insertRun hlegal hnew =>
    exact fun row hrow hid => hnew ((h.mem_runs _).mpr ⟨old, hold, row, hrow, hid⟩)
  | @insertExecution row doNothing hlegal hnew hrefs =>
    cases doNothing with
    | true => trivial
    | false => exact hwritten h.executions (OrderedDict.get?_eq_none hnew) old hold
  | @insertPrediction row doUpdate hnull hlegal hnew hrefs =>
    cases doUpdate with
    | true => trivial
    | false => exact hwritten h.predictions hnew old hold
  | _ => trivial

/-- **One more statement.** -/
theorem concat {s : Statement} (h : Consistent done t) (hstep : Executed t s t') :
    Consistent (done ++ [s]) t' := by
  have hfresh : (done ++ [s]).Pairwise Statement.Precedes :=
    List.pairwise_append.mpr ⟨h.fresh, List.pairwise_singleton .., fun old hold last hlast =>
      List.mem_singleton.mp hlast ▸ h.precedes_of_executed hstep old hold⟩
  have hkept : ∀ {ρ : Type} (f : Statement → Option ρ), f s = none →
      (done ++ [s]).filterMap f = done.filterMap f := fun f hnone => by
    rw [filterMap_concat, hnone, Option.toList_none, List.append_nil]
  have hlast : ∀ {ρ : Type} (f : Statement → Option ρ) {row : ρ}, f s = some row →
      (done ++ [s]).filterMap f = done.filterMap f ++ [row] := fun f row hrow => by
    rw [filterMap_concat, hrow, Option.toList_some]
  have hmem : ∀ runID, (∃ old ∈ done ++ [s], ∃ row, old.newRun = some row ∧ row.id = runID) ↔
      runID ∈ t.runs.keys ∨ ∃ row, s.newRun = some row ∧ row.id = runID := by
    intro runID
    rw [h.mem_runs]
    simp only [List.mem_append, List.mem_singleton, or_and_right, exists_or, exists_eq_left]
  have hsame : s.newRun = none → ∀ runID, runID ∈ t.runs.keys ↔
      ∃ old ∈ done ++ [s], ∃ row, old.newRun = some row ∧ row.id = runID := by
    intro hnone runID
    rw [hmem, or_iff_left fun ⟨row, hrow, _⟩ => by rw [hnone] at hrow; cases hrow]
  obtain ⟨htests, hruns, hexecutions, hpredictions, -, -⟩ := h
  cases hstep with
  | upsertTest row =>
    refine ⟨hlast Statement.testWrite rfl ▸ htests.apply row, ?_, ?_, ?_, hsame rfl, hfresh⟩
    all_goals rwa [hkept _ rfl]
  | @insertRun row hlegal hnew =>
    have hrun := hruns.insert (.created row) row
      (by rw [RunWrite.runID, OrderedDict.get?_eq_none hnew]; rfl)
    refine ⟨?_, hlast Statement.runWrite rfl ▸ hrun, ?_, ?_, fun runID => ?_, hfresh⟩
    · rwa [hkept _ rfl]
    · rwa [hkept _ rfl]
    · rwa [hkept _ rfl]
    · rw [hmem, OrderedDict.mem_keys_insert, or_comm]
      refine or_congr_right ⟨fun heq => ⟨row, rfl, heq.symm⟩, ?_⟩
      rintro ⟨_, hrow, rfl⟩
      rw [Option.some.inj hrow]
  | @insertExecution row doNothing hlegal hnew hrefs =>
    have hrow := hexecutions.insert row row (by rw [OrderedDict.get?_eq_none hnew]; rfl)
    refine ⟨?_, ?_, hlast Statement.executionWrite rfl ▸ hrow, ?_, hsame rfl, hfresh⟩
    all_goals rwa [hkept _ rfl]
  | @doNothing row hold =>
    obtain ⟨old, hrow⟩ := OrderedDict.mem_keys_iff.mp hold
    have hskip := hexecutions.skip row (by rw [hrow]; rfl)
    refine ⟨?_, ?_, hlast Statement.executionWrite rfl ▸ hskip, ?_, hsame rfl, hfresh⟩
    all_goals rwa [hkept _ rfl]
  | insertSchedule hnew hone href =>
    refine ⟨?_, ?_, ?_, ?_, hsame rfl, hfresh⟩
    all_goals rwa [hkept _ rfl]
  | @insertPrediction row doUpdate hnull hlegal hnew hrefs =>
    have hrow := hpredictions.insert row row (by rw [hnew]; rfl)
    refine ⟨?_, ?_, ?_, hlast Statement.predictionWrite rfl ▸ hrow, hsame rfl, hfresh⟩
    all_goals rwa [hkept _ rfl]
  | @updatePrediction row old hnull hlegal hold =>
    have hrow := hpredictions.insert row (predictionUpdated old row) (by rw [hold]; rfl)
    refine ⟨?_, ?_, ?_, hlast Statement.predictionWrite rfl ▸ hrow, hsame rfl, hfresh⟩
    all_goals rwa [hkept _ rfl]
  | @updateRun runID f old hold hlegal =>
    have hrow := hruns.insert (.finished runID f) (old.finish f)
      (by rw [RunWrite.runID, hold]; rfl)
    refine ⟨?_, hlast Statement.runWrite rfl ▸ hrow, ?_, ?_, fun other => ?_, hfresh⟩
    · rwa [hkept _ rfl]
    · rwa [hkept _ rfl]
    · rwa [hkept _ rfl]
    · rw [← hsame rfl]
      refine OrderedDict.mem_keys_insert.trans (or_iff_right_of_imp ?_)
      rintro rfl
      exact OrderedDict.mem_keys_iff.mpr ⟨old, hold⟩
  | @updateNothing runID f hmissing =>
    have hskip := hruns.skip (.finished runID f) (by rw [RunWrite.runID, hmissing]; rfl)
    refine ⟨?_, hlast Statement.runWrite rfl ▸ hskip, ?_, ?_, hsame rfl, hfresh⟩
    all_goals rwa [hkept _ rfl]

end Consistent

/-! ## Legal rows -/

/-- Every row is found under its key, meets the constraints of its table and refers to rows that
are there. -/
structure Legal (t : Tables) : Prop where
  runs : ∀ runID row, t.runs.get? runID = some row →
    row.id = runID ∧ row.status ∈ runStatuses ∧ 0 < row.workerCount
  executions : ∀ id row, t.executions.get? id = some row →
    row.id = id ∧ 0 ≤ row.durationSeconds ∧ row.runID ∈ t.runs.keys ∧ row.testID ∈ t.tests.keys
  schedules : ∀ row ∈ t.schedules.values, row.runID ∈ t.runs.keys
  oneSchedule : (t.schedules.values.map ScheduleRow.runID).Nodup
  predictions : ∀ pair row, t.predictions.get? pair = some row →
    row.pair = pair ∧ row.sharedResources ≠ none ∧ (0 ≤ row.probability ∧ row.probability ≤ 1) ∧
      row.testA < row.testB ∧
        row.runID ∈ t.runs.keys ∧ row.testA ∈ t.tests.keys ∧ row.testB ∈ t.tests.keys

namespace Legal

variable {t t' : Tables} {s : Statement}

theorem empty : Legal {} :=
  ⟨fun _ _ h => absurd h (Option.some_ne_none _).symm,
    fun _ _ h => absurd h (Option.some_ne_none _).symm, fun _ h => absurd h List.not_mem_nil,
    List.nodup_nil, fun _ _ h => absurd h (Option.some_ne_none _).symm⟩

/-- No key disappears. -/
theorem keys_mono (h : Executed t s t') :
    (∀ runID ∈ t.runs.keys, runID ∈ t'.runs.keys) ∧ ∀ id ∈ t.tests.keys, id ∈ t'.tests.keys := by
  cases h with
  | upsertTest row =>
    refine ⟨fun _ h => h, fun id hid => ?_⟩
    obtain ⟨old, hold⟩ := OrderedDict.mem_keys_iff.mp hid
    rw [OrderedDict.mem_keys_iff, RowWrite.get?_apply]
    split
    · exact ⟨_, rfl⟩
    · exact ⟨old, hold⟩
  | insertRun _ _ => exact ⟨fun _ h => OrderedDict.mem_keys_insert.mpr (.inr h), fun _ h => h⟩
  | updateRun _ _ => exact ⟨fun _ h => OrderedDict.mem_keys_insert.mpr (.inr h), fun _ h => h⟩
  | _ => exact ⟨fun _ h => h, fun _ h => h⟩

/-- **One more statement.** -/
theorem step (h : Legal t) (hstep : Executed t s t') : Legal t' := by
  obtain ⟨hrunKeys, htestKeys⟩ := keys_mono hstep
  -- rows that are left alone stay legal, since no key disappears
  have hexecutions : ∀ id row, t.executions.get? id = some row → row.id = id ∧
      0 ≤ row.durationSeconds ∧ row.runID ∈ t'.runs.keys ∧ row.testID ∈ t'.tests.keys := by
    intro id row hrow
    obtain ⟨hid, hduration, hrun, htest⟩ := h.executions id row hrow
    exact ⟨hid, hduration, hrunKeys _ hrun, htestKeys _ htest⟩
  have hschedules : ∀ row ∈ t.schedules.values, row.runID ∈ t'.runs.keys := fun row hrow =>
    hrunKeys _ (h.schedules row hrow)
  have hpredictions : ∀ pair row, t.predictions.get? pair = some row → row.pair = pair ∧
      row.sharedResources ≠ none ∧ (0 ≤ row.probability ∧ row.probability ≤ 1) ∧
        row.testA < row.testB ∧ row.runID ∈ t'.runs.keys ∧ row.testA ∈ t'.tests.keys ∧
          row.testB ∈ t'.tests.keys := by
    intro pair row hrow
    obtain ⟨hpair, hnull, hrange, hlt, hrun, hA, hB⟩ := h.predictions pair row hrow
    exact ⟨hpair, hnull, hrange, hlt, hrunKeys _ hrun, htestKeys _ hA, htestKeys _ hB⟩
  cases hstep with
  | upsertTest row => exact ⟨h.runs, hexecutions, hschedules, h.oneSchedule, hpredictions⟩
  | @insertRun row hlegal hnew =>
    refine ⟨fun runID found hfound => ?_, hexecutions, hschedules, h.oneSchedule, hpredictions⟩
    rw [OrderedDict.get?_insert] at hfound
    split at hfound
    · rename_i heq
      obtain rfl := Option.some.inj hfound
      exact ⟨heq.symm, hlegal⟩
    · exact h.runs runID found hfound
  | @insertExecution row doNothing hlegal hnew hrefs =>
    refine ⟨h.runs, fun id found hfound => ?_, hschedules, h.oneSchedule, hpredictions⟩
    rw [OrderedDict.get?_insert] at hfound
    split at hfound
    · rename_i heq
      obtain rfl := Option.some.inj hfound
      exact ⟨heq.symm, hlegal, hrefs⟩
    · exact hexecutions id found hfound
  | doNothing hold => exact h
  | @insertSchedule row hnew hone href =>
    have hvalues := OrderedDict.values_insert_new row hnew
    refine ⟨h.runs, hexecutions, ?_, ?_, hpredictions⟩
    · intro other hother
      rw [hvalues, List.mem_append, List.mem_singleton] at hother
      rcases hother with hother | rfl
      · exact hschedules other hother
      · exact href
    · rw [hvalues, List.map_append, List.map_singleton, ← List.concat_eq_append]
      exact h.oneSchedule.concat hone
  | @insertPrediction row doUpdate hnull hlegal hnew hrefs =>
    refine ⟨h.runs, hexecutions, hschedules, h.oneSchedule, fun pair found hfound => ?_⟩
    rw [OrderedDict.get?_insert] at hfound
    split at hfound
    · rename_i heq
      obtain rfl := Option.some.inj hfound
      exact ⟨heq.symm, hnull, hlegal.1, hlegal.2, hrefs⟩
    · exact hpredictions pair found hfound
  | @updatePrediction row old hnull hlegal hold =>
    refine ⟨h.runs, hexecutions, hschedules, h.oneSchedule, fun pair found hfound => ?_⟩
    rw [OrderedDict.get?_insert] at hfound
    split at hfound
    · rename_i heq
      obtain rfl := Option.some.inj hfound
      obtain ⟨hpair, hkept, -, hrest⟩ := hpredictions _ _ hold
      exact ⟨hpair.trans heq.symm, hkept, hlegal.1, hrest⟩
    · exact hpredictions pair found hfound
  | @updateRun runID f old hold hlegal =>
    refine ⟨fun other found hfound => ?_, hexecutions, hschedules, h.oneSchedule, hpredictions⟩
    rw [OrderedDict.get?_insert] at hfound
    split at hfound
    · rename_i heq
      obtain rfl := Option.some.inj hfound
      obtain ⟨hid, -, hworkers⟩ := h.runs _ _ hold
      exact ⟨hid.trans heq.symm, hlegal, hworkers⟩
    · exact h.runs other found hfound
  | updateNothing hnone => exact h

end Legal

/-! ## Transactions -/

section Transactions

variable {t : Tables} {done : List Statement}

/-- What every statement keeps is kept by a transaction that violates nothing. -/
theorem commit_induction {J : List Statement → Tables → Prop}
    (hstep : ∀ {done t s t'}, Executed t s t' → J done t → J (done ++ [s]) t')
    {statements : List Statement} :
    ∀ {done : List Statement} {t t' : Tables}, t.commit statements = .ok t' → J done t →
      J (done ++ statements) t' := by
  induction statements with
  | nil =>
    intro done t t' h hJ
    obtain rfl := Except.ok.inj h
    rwa [List.append_nil]
  | cons s rest ih =>
    intro done t t' h hJ
    rw [Tables.commit, List.foldlM_cons] at h
    obtain ⟨next, hnext, hrest⟩ := bind_eq_ok_iff.mp h
    rw [List.append_cons]
    exact ih hrest (hstep (executed_of_exec hnext) hJ)

/-- **The rule for histories**: what every statement keeps holds of the tables after any
transactions, with the statements that took effect. -/
theorem after_induction {J : List Statement → Tables → Prop}
    (hstep : ∀ {done t s t'}, Executed t s t' → J done t → J (done ++ [s]) t')
    {xs : List Transaction} :
    ∀ {done : List Statement} {t : Tables}, J done t → J (done ++ t.effects xs) (t.after xs) := by
  induction xs with
  | nil =>
    intro done t hJ
    rwa [Tables.effects, List.append_nil]
  | cons x rest ih =>
    intro done t hJ
    have hone : J (done ++ t.effective x) (t.attempt x).1 := by
      rw [Tables.effective, Tables.attempt]
      rcases hcommit : t.commit x.statements with violation | t'
      · rw [if_neg fun h => Bool.false_ne_true h.1, List.append_nil]
        exact hJ
      · have hdone := commit_induction hstep hcommit hJ
        cases x.fate with
        | acknowledged => exact hdone
        | unacknowledged => exact hdone
        | failed =>
          rw [if_neg fun h => h.2 rfl, List.append_nil]
          exact hJ
    rw [Tables.effects, ← List.append_assoc]
    exact ih hone

/-- **The tables after any transactions** hold what the statements that took effect have made. -/
theorem consistent_after (xs : List Transaction) :
    Consistent (Tables.effects {} xs) (Tables.after {} xs) :=
  @after_induction Consistent (fun hstep h => h.concat hstep) xs [] {} .empty

/-- **They are legal.** -/
theorem legal_after (xs : List Transaction) : Legal (Tables.after {} xs) :=
  @after_induction (fun _ t => Legal t) (fun hstep h => h.step hstep) xs [] {} .empty

end Transactions

/-! ## Calls of the Python package -/

section Calls

variable {t t' : Tables} {now : ℤ}

/-- After `upsert_tests` the tests are there. -/
theorem mem_keys_of_upsertTests {tests : List Py.TestIdentity} :
    ∀ {t t' : Tables}, t.commit (Py.PostgresStore.upsertTests now tests) = .ok t' →
      ∀ test ∈ tests, test.id ∈ t'.tests.keys := by
  induction tests with
  | nil => exact fun _ _ h => absurd h List.not_mem_nil
  | cons test rest ih =>
    intro t t' h
    rw [Py.PostgresStore.upsertTests, List.map_cons, Tables.commit, List.foldlM_cons] at h
    obtain ⟨next, hnext, hrest⟩ := bind_eq_ok_iff.mp h
    refine List.forall_mem_cons.mpr ⟨?_, ih hrest⟩
    have hsaved : test.id ∈ next.tests.keys := by
      obtain rfl := Except.ok.inj hnext
      rw [OrderedDict.mem_keys_iff, RowWrite.get?_apply]
      exact ⟨_, if_pos rfl⟩
    exact @commit_induction (fun _ t => test.id ∈ t.tests.keys)
      (fun hstep hid => (Legal.keys_mono hstep).2 _ hid) _ [] _ _ hrest hsaved

/-- **A result may be saved again**: `save_result` then changes nothing, and raises nothing. -/
theorem commit_saveResult_again {result : Py.StoredResult}
    (h : t.commit (Py.PostgresStore.saveResult now result) = .ok t') (later : ℤ) :
    t'.commit (Py.PostgresStore.saveResult later result) = .ok t' := by
  obtain ⟨next, hnext, hrest⟩ := bind_eq_ok_iff.mp h
  obtain rfl := Except.ok.inj hrest
  have hthere : 0 ≤ result.durationSeconds ∧ result.executionID ∈ next.executions.keys := by
    simp only [Tables.exec, Tables.insertExecution] at hnext
    split_ifs at hnext with hlegal hold hrefs
    · obtain rfl := Except.ok.inj hnext
      exact ⟨not_lt.mp hlegal, hold⟩
    · obtain rfl := Except.ok.inj hnext
      exact ⟨not_lt.mp hlegal, OrderedDict.mem_keys_insert.mpr (.inl rfl)⟩
  refine bind_eq_ok_iff.mpr ⟨next, ?_, rfl⟩
  exact (if_neg (not_lt.mpr hthere.1)).trans ((if_pos hthere.2).trans (if_pos rfl))

/-- **A run that is finalized** is completed exactly if no error is given, and ends now. -/
theorem status_of_finalizeRun (runID : String) (traceQuality : Option ℚ) (error : String) :
    ∃ t', t.commit (Py.PostgresStore.finalizeRun now runID traceQuality error) = .ok t' ∧
      ∀ row, t'.runs.get? runID = some row →
        row.endedAt = some now ∧ row.status ≠ "RUNNING" ∧
          (row.status = "COMPLETED" ↔ error = "") := by
  have hstatus : (if error = "" then "COMPLETED" else "FAILED") ∈ runStatuses := by
    split <;> simp [runStatuses]
  rcases hold : t.runs.get? runID with _ | old
  · refine ⟨t, bind_eq_ok_iff.mpr ⟨t, by simp only [Tables.exec, Tables.updateRun, hold], rfl⟩, ?_⟩
    exact fun row hrow => absurd (hold.symm.trans hrow) (Option.some_ne_none row).symm
  · have hcommit : t.commit (Py.PostgresStore.finalizeRun now runID traceQuality error) =
        .ok { t with runs := t.runs.insert runID (old.finish
          ⟨if error = "" then "COMPLETED" else "FAILED", error, traceQuality, now⟩) } := by
      refine bind_eq_ok_iff.mpr ⟨_, ?_, rfl⟩
      simp only [Tables.exec, Tables.updateRun, hold, if_pos hstatus]
    refine ⟨_, hcommit, fun row hrow => ?_⟩
    rw [OrderedDict.get?_insert, if_pos rfl] at hrow
    obtain rfl := Option.some.inj hrow
    refine ⟨rfl, ?_⟩
    simp only [RunRow.finish]
    split <;> rename_i herror
    · exact ⟨by decide, iff_of_true rfl herror⟩
    · exact ⟨by decide, iff_of_false (by decide) herror⟩

end Calls

/-! ## Rows and their writes -/

/-- What was written of a test. -/
def testWritesOf (done : List Statement) (id : String) : List TestRow :=
  (done.filterMap Statement.testWrite).filter fun row => row.id = id

/-- What was written of a pair in a run. -/
def predictionWritesOf (done : List Statement) (pair : String × String × String) :
    List PredictionRow :=
  (done.filterMap Statement.predictionWrite).filter fun row => row.pair = pair

/-- The updates of a run. -/
def Statement.finishOf (runID : String) : Statement → Option Finish
  | .updateRun updated f => if updated = runID then some f else none
  | _ => none

/-- What merging rows makes, if the last of two merges undoes the other and a row merged into
itself is the same. -/
theorem rowOf_merging {ρ : Type} {merge : ρ → ρ → ρ} (hlast : LastDecides merge)
    (hsame : ∀ row, merge row row = row) (writes : List ρ) :
    (merging merge).rowOf writes =
      writes.head?.map fun first => merge first (writes.getLast?.getD first) := by
  cases writes with
  | nil => rfl
  | cons first rest =>
    rw [foldl_merging hlast, List.head?_cons, Option.map_some, List.getLast?_cons,
      Option.getD_some]
    rcases hrest : rest.getLast? with _ | last
    · rw [Option.elim_none, Option.getD_none, hsame]
    · rw [Option.elim_some, Option.getD_some]

/-- **A test keeps what is first said of it**, of all clients, but for its node id and its
revision, which are those of its last save: durations that are saved later are lost. -/
theorem find_test_after (xs : List Transaction) (id : String) :
    (Tables.after {} xs).tests.get? id =
      (testWritesOf (Tables.effects {} xs) id).head?.map fun first =>
        first.updated ((testWritesOf (Tables.effects {} xs) id).getLast?.getD first) :=
  ((consistent_after xs).tests id).trans
    (@rowOf_merging _ TestRow.updated (fun _ _ _ => rfl) (fun _ => rfl) _)

/-- **A prediction keeps its resources and its time.** Of a pair in a run the other columns are
those of the last save; what the control plane saves is always the first. -/
theorem find_prediction_after (xs : List Transaction) :
    (∀ pair, (Tables.after {} xs).predictions.get? pair =
      (predictionWritesOf (Tables.effects {} xs) pair).head?.map fun first =>
        predictionUpdated first
          ((predictionWritesOf (Tables.effects {} xs) pair).getLast?.getD first)) ∧
      ∀ before row after,
        Tables.effects {} xs = before ++ .insertPrediction row false :: after →
          predictionWritesOf before row.pair = [] := by
  have h := consistent_after xs
  refine ⟨fun pair => (h.predictions pair).trans
    (@rowOf_merging _ predictionUpdated (fun _ _ _ => rfl) (fun _ => rfl) _),
    fun before row after heq => ?_⟩
  have hfresh := h.fresh
  rw [heq] at hfresh
  refine List.filter_eq_nil_iff.mpr fun old hold hpair => ?_
  obtain ⟨s, hs, hrow⟩ := List.mem_filterMap.mp hold
  exact (List.pairwise_append.mp hfresh).2.2 s hs _ List.mem_cons_self old hrow
    (of_decide_eq_true hpair)

section Runs

variable {runID : String}

/-- Updates of a run that is not there. -/
theorem foldl_runWrites_none :
    ∀ {done : List Statement}, (∀ s ∈ done, ∀ new, s.newRun = some new → new.id ≠ runID) →
      runWrites.rowOf ((done.filterMap Statement.runWrite).filter fun write =>
        write.runID = runID) = none := by
  intro done
  induction done using List.reverseRecOn with
  | nil => exact fun _ => rfl
  | append_singleton done s ih =>
    intro h
    have hbefore := ih fun old hold => h old (List.mem_append_left _ hold)
    rw [filterMap_concat, List.filter_append]
    have hlast := h s (List.mem_append_right _ (List.mem_singleton.mpr rfl))
    cases s with
    | insertRun row =>
      have hno : ([RunWrite.created row].filter fun write => write.runID = runID) = [] := by
        simp [RunWrite.runID, hlast row rfl]
      rw [Statement.runWrite, Option.toList_some, hno, List.append_nil, hbefore]
    | updateRun updated f =>
      by_cases heq : updated = runID
      · have hone : ([RunWrite.finished updated f].filter fun write => write.runID = runID) =
            [.finished updated f] := by simp [RunWrite.runID, heq]
        rw [Statement.runWrite, Option.toList_some, hone, RowWrite.rowOf_concat, hbefore]
        rfl
      · have hno : ([RunWrite.finished updated f].filter fun write => write.runID = runID) =
            [] := by simp [RunWrite.runID, heq]
        rw [Statement.runWrite, Option.toList_some, hno, List.append_nil, hbefore]
    | _ => exact (congrArg runWrites.rowOf (List.append_nil _)).trans hbefore

/-- Updates of a run that is there: the last one decides. -/
theorem foldl_runWrites_some {row : RunRow} :
    ∀ {done : List Statement}, (∀ s ∈ done, ∀ new, s.newRun = some new → new.id ≠ runID) →
      ((done.filterMap Statement.runWrite).filter fun write => write.runID = runID).foldl
          runWrites.run (some row) =
        some ((done.filterMap (Statement.finishOf runID)).getLast?.elim row row.finish) := by
  intro done
  induction done using List.reverseRecOn with
  | nil => exact fun _ => rfl
  | append_singleton done s ih =>
    intro h
    have hbefore := ih fun old hold => h old (List.mem_append_left _ hold)
    rw [filterMap_concat, filterMap_concat, List.filter_append, List.foldl_append, hbefore]
    have hlast := h s (List.mem_append_right _ (List.mem_singleton.mpr rfl))
    cases s with
    | insertRun new =>
      have hno : ([RunWrite.created new].filter fun write => write.runID = runID) = [] := by
        simp [RunWrite.runID, hlast new rfl]
      rw [Statement.runWrite, Option.toList_some, hno, List.foldl_nil]
      exact congrArg (fun fs => some (fs.getLast?.elim row row.finish)) (List.append_nil _).symm
    | updateRun updated f =>
      by_cases heq : updated = runID
      · have hone : ([RunWrite.finished updated f].filter fun write => write.runID = runID) =
            [.finished updated f] := by simp [RunWrite.runID, heq]
        rw [Statement.runWrite, Option.toList_some, hone, Statement.finishOf, if_pos heq,
          Option.toList_some, List.getLast?_concat, Option.elim_some, List.foldl_cons,
          List.foldl_nil]
        cases (done.filterMap (Statement.finishOf runID)).getLast? <;> rfl
      · have hno : ([RunWrite.finished updated f].filter fun write => write.runID = runID) =
            [] := by simp [RunWrite.runID, heq]
        rw [Statement.runWrite, Option.toList_some, hno, Statement.finishOf, if_neg heq,
          Option.toList_none, List.append_nil, List.foldl_nil]
    | _ =>
      exact congrArg (fun fs => some (fs.getLast?.elim row row.finish)) (List.append_nil _).symm

/-- **A run is what it was created as, and its last update after that.** It is created once, and
updates before that are lost. -/
theorem find_run_after (xs : List Transaction) :
    ((∀ s ∈ Tables.effects {} xs, ∀ new, s.newRun = some new → new.id ≠ runID) →
      (Tables.after {} xs).runs.get? runID = none) ∧
      ∀ before row after, Tables.effects {} xs = before ++ .insertRun row :: after →
        row.id = runID →
          (∀ s ∈ before ++ after, ∀ new, s.newRun = some new → new.id ≠ runID) ∧
            (Tables.after {} xs).runs.get? runID =
              some ((after.filterMap (Statement.finishOf runID)).getLast?.elim row row.finish) := by
  have h := consistent_after xs
  refine ⟨fun hnone => (h.runs runID).trans (foldl_runWrites_none hnone), ?_⟩
  rintro before row after heq rfl
  have hfresh := h.fresh
  rw [heq] at hfresh
  obtain ⟨-, hafter, hbefore⟩ := List.pairwise_append.mp hfresh
  have hnotBefore : ∀ s ∈ before, ∀ new, s.newRun = some new → new.id ≠ row.id :=
    fun s hs new hnew => hbefore s hs _ List.mem_cons_self new hnew
  have hnotAfter : ∀ s ∈ after, ∀ new, s.newRun = some new → new.id ≠ row.id := by
    intro s hs new hnew hid
    cases s with
    | insertRun other =>
      obtain rfl := Option.some.inj hnew
      exact List.rel_of_pairwise_cons hafter hs row rfl hid.symm
    | _ => cases hnew
  refine ⟨fun s hs => (List.mem_append.mp hs).elim (hnotBefore s) (hnotAfter s), ?_⟩
  have hwrites : (before ++ .insertRun row :: after).filterMap Statement.runWrite =
      before.filterMap Statement.runWrite ++ .created row :: after.filterMap Statement.runWrite :=
    List.filterMap_append
  have hown : ∀ writes : List RunWrite,
      (RunWrite.created row :: writes).filter (fun write => write.runID = row.id) =
        .created row :: writes.filter fun write => write.runID = row.id :=
    fun _ => List.filter_cons_of_pos (decide_eq_true rfl)
  rw [h.runs, heq, hwrites, List.filter_append, hown, RowWrite.rowOf, List.foldl_append,
    ← RowWrite.rowOf, foldl_runWrites_none hnotBefore, List.foldl_cons]
  exact foldl_runWrites_some hnotAfter

end Runs

end ConflictGraph.Sql
