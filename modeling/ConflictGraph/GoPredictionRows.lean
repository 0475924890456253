import ConflictGraph.GoArtifact

/-!
# The rows of the predictions table

`SavePredictions` inserts the predictions of a run in one transaction, and the table checks
every row. Of its constraints, the loader leaves one open: a prediction whose
`shared_resources` are missing or `null` has a nil slice, which is an SQL `NULL`, while the
column is `NOT NULL`. Its default does not help, since the statement names the column.
-/

namespace ConflictGraph.Go

open Py (Json Str)

/-! ## The table -/

/-- A row of `predictions`; `none` is `NULL`. -/
structure PredictionRow : Type where
  runID : String
  testA : String
  testB : String
  probability : ℚ
  cause : String
  modelVersion : String
  sharedResources : Option (List String)
  explanation : String
  predictedAt : ℤ
  deriving DecidableEq

/-- The columns of the `UNIQUE` constraint. -/
def PredictionRow.pair (row : PredictionRow) : String × String × String :=
  (row.runID, row.testA, row.testB)

/-- The tables that a prediction is about: the keys of `tests` and `runs`, and the rows of
`predictions`, which refer to a run. -/
structure Database : Type where
  tests : List String
  runs : List String
  predictions : List PredictionRow
  references : ∀ row ∈ predictions, row.runID ∈ runs

/-- The kinds of constraints of the table. -/
inductive Violation : Type where
  | notNull
  | check
  | unique
  | foreignKey
  deriving DecidableEq

namespace Database

variable (db : Database)

/-- `SaveTests`: a test that is there keeps its key. -/
def saveTests (tests : List Test) : Database :=
  { db with tests := tests.foldl (fun known test =>
      if test.id ∈ known then known else known ++ [test.id]) db.tests }

/-- `CreateRun`, unless the key is taken. -/
def createRun (runID : String) : Option Database :=
  if runID ∈ db.runs then none
  else some
    { db with
      runs := runID :: db.runs
      references := fun row hrow => List.mem_cons_of_mem _ (db.references row hrow) }

/-- The row meets the constraints of the table. -/
structure Accepts (row : PredictionRow) : Prop where
  notNull : row.sharedResources ≠ none
  probability : 0 ≤ row.probability ∧ row.probability ≤ 1
  ordered : row.testA < row.testB
  unique : row.pair ∉ db.predictions.map PredictionRow.pair
  testA : row.testA ∈ db.tests
  testB : row.testB ∈ db.tests
  run : row.runID ∈ db.runs

/-- The rows with one more, of a run that exists. -/
def add (row : PredictionRow) (h : row.runID ∈ db.runs) : Database :=
  { db with
    predictions := row :: db.predictions
    references := List.forall_mem_cons.mpr ⟨h, db.references⟩ }

/-- An `INSERT`. -/
def insert (row : PredictionRow) : Except Violation Database :=
  if row.sharedResources = none then .error .notNull
  else if ¬ ((0 ≤ row.probability ∧ row.probability ≤ 1) ∧ row.testA < row.testB) then
    .error .check
  else if row.pair ∈ db.predictions.map PredictionRow.pair then .error .unique
  else if h : (row.testA ∈ db.tests ∧ row.testB ∈ db.tests) ∧ row.runID ∈ db.runs then
    .ok (db.add row h.2)
  else .error .foreignKey

/-- The arguments of the `INSERT` of a prediction; `now` is what `time.Now` returns for it. -/
def predictionRow (runID : String) (now : Prediction → ℤ) (p : Prediction) : PredictionRow :=
  ⟨runID, p.testA, p.testB, p.probability, p.cause, p.modelVersion, p.sharedResources,
    p.explanation, p.predictedAt.getD (now p)⟩

/-- `SavePredictions`: the first row that is refused ends the transaction. -/
def savePredictions (runID : String) (now : Prediction → ℤ) (predictions : List Prediction) :
    Except Violation Database :=
  (predictions.map (predictionRow runID now)).foldlM insert db

variable {db}

/-! ## What is accepted -/

theorem insert_eq_ok_iff {row : PredictionRow} {db' : Database} :
    db.insert row = .ok db' ↔ ∃ h : db.Accepts row, db' = db.add row h.run := by
  rw [insert]
  split_ifs with hnull hcheck hunique hrefs
  · exact iff_of_false (by simp) fun ⟨h, _⟩ => h.notNull hnull
  · exact iff_of_false (by simp) fun ⟨h, _⟩ => h.unique hunique
  · refine ⟨fun h => ?_, ?_⟩
    · exact ⟨⟨hnull, hcheck.1, hcheck.2, hunique, hrefs.1.1, hrefs.1.2, hrefs.2⟩,
        (Except.ok.inj h).symm⟩
    · rintro ⟨-, rfl⟩
      rfl
  · exact iff_of_false (by simp) fun ⟨h, _⟩ => hrefs ⟨⟨h.testA, h.testB⟩, h.run⟩
  · exact iff_of_false (by simp) fun ⟨h, _⟩ => hcheck ⟨h.probability, h.ordered⟩

/-- Rows that are legal but for a `NULL`: what the loader and the caller promise. -/
structure Promised (runID : String) (row : PredictionRow) : Prop where
  runID_eq : row.runID = runID
  probability : 0 ≤ row.probability ∧ row.probability ≤ 1
  ordered : row.testA < row.testB
  testA : row.testA ∈ db.tests
  testB : row.testB ∈ db.tests

/-- **When a transaction succeeds**: rows of a run that are promised, and of distinct pairs, are
all accepted exactly if none has a `NULL`. -/
theorem insertAll_isOk_iff {runID : String} {rows : List PredictionRow} :
    ∀ {db : Database}, runID ∈ db.runs → (∀ row ∈ rows, db.Promised runID row) →
      (rows.map PredictionRow.pair).Nodup →
      (∀ row ∈ rows, row.pair ∉ db.predictions.map PredictionRow.pair) →
      ((∃ db', rows.foldlM insert db = .ok db') ↔ ∀ row ∈ rows, row.sharedResources ≠ none) := by
  induction rows with
  | nil => exact fun _ _ _ _ => iff_of_true ⟨_, rfl⟩ fun row hrow => absurd hrow List.not_mem_nil
  | cons row rest ih =>
    intro db hrun hpromised hnodup hnew
    rw [List.forall_mem_cons] at hpromised hnew ⊢
    rw [List.map_cons, List.nodup_cons] at hnodup
    rw [List.foldlM_cons]
    have hrow : row.sharedResources ≠ none → db.Accepts row := fun hnull =>
      ⟨hnull, hpromised.1.probability, hpromised.1.ordered, hnew.1, hpromised.1.testA,
        hpromised.1.testB, hpromised.1.runID_eq ▸ hrun⟩
    -- the rest goes into the tables with this row
    have hrest : ∀ h : db.Accepts row,
        ((∃ db', rest.foldlM insert (db.add row h.run) = .ok db') ↔
          ∀ row ∈ rest, row.sharedResources ≠ none) := by
      refine fun h => ih hrun (fun other hother => ?_) hnodup.2 fun other hother => ?_
      · obtain ⟨hid, hprob, hord, hA, hB⟩ := hpromised.2 other hother
        exact ⟨hid, hprob, hord, hA, hB⟩
      · rw [add, List.map_cons, List.mem_cons, not_or]
        exact ⟨fun heq => hnodup.1 (heq ▸ List.mem_map_of_mem hother), hnew.2 other hother⟩
    refine ⟨?_, ?_⟩
    · rintro ⟨db', hdb'⟩
      obtain ⟨next, hnext, hlast⟩ := bind_eq_ok_iff.mp hdb'
      obtain ⟨haccepts, rfl⟩ := insert_eq_ok_iff.mp hnext
      exact ⟨haccepts.notNull, (hrest haccepts).mp ⟨db', hlast⟩⟩
    · rintro ⟨hnull, hall⟩
      obtain ⟨db', hdb'⟩ := (hrest (hrow hnull)).mpr hall
      exact ⟨db', bind_eq_ok_iff.mpr ⟨_, insert_eq_ok_iff.mpr ⟨hrow hnull, rfl⟩, hdb'⟩⟩

theorem mem_saveTests {tests : List Test} {id : String} :
    ∀ {known : List String}, id ∈ tests.foldl (fun known test =>
      if test.id ∈ known then known else known ++ [test.id]) known ↔
        id ∈ known ∨ id ∈ tests.map Test.id := by
  induction tests with
  | nil => simp
  | cons test rest ih =>
    intro known
    rw [List.foldl_cons, ih, List.map_cons, List.mem_cons, ← or_assoc]
    refine or_congr_left ?_
    split
    · rename_i hknown
      exact (or_iff_left_of_imp fun heq => heq ▸ hknown).symm
    · rw [List.mem_append, List.mem_singleton]

end Database

/-! ## The rows of a run -/

section Rows

variable {parseTime : Str → Option (Option ℤ)} {artifact : Option Json} {tests : List Test}
  {predictions : List Prediction} {before db : Database} {runID : String}

/-- **When the predictions of a run are saved**: exactly if no pair of collected tests has a
prediction without shared resources as its first of the highest probability. -/
theorem savePredictions_isOk_iff
    (h : predictionsForTests parseTime artifact tests = .ok predictions)
    (hrun : (before.saveTests tests).createRun runID = some db) (now : Prediction → ℤ) :
    (∃ db', db.savePredictions runID now predictions = .ok db') ↔
      ∀ entries, entriesOf parseTime artifact = some entries →
        ∀ p, IsBest Prediction.key Prediction.probability entries p →
          p.testA ∈ tests.map Test.id → p.testB ∈ tests.map Test.id →
            p.sharedResources ≠ none := by
  obtain ⟨entries, hentries, hlegal, hnodup, hmem⟩ := predictionsForTests_eq_ok h
  rw [Database.createRun] at hrun
  split at hrun
  · cases hrun
  · rename_i hfresh
    obtain rfl := Option.some.inj hrun
    have hknown : ∀ id ∈ tests.map Test.id, id ∈ (before.saveTests tests).tests :=
      fun id hid => Database.mem_saveTests.mpr (.inr hid)
    rw [Database.savePredictions, Database.insertAll_isOk_iff List.mem_cons_self ?_ ?_ ?_]
    · rw [List.forall_mem_map]
      refine ⟨fun hall entries' hentries' p hbest hA hB => ?_, fun hall q hq => ?_⟩
      · obtain rfl := Option.some.inj (hentries.symm.trans hentries')
        have hrow := hall _ ((hmem _).mpr ⟨p, hbest, ⟨hA, hB⟩, rfl⟩)
        rwa [Database.predictionRow, Prediction.checked_sharedResources] at hrow
      · obtain ⟨p, hbest, ⟨hA, hB⟩, rfl⟩ := (hmem q).mp hq
        rw [Database.predictionRow, Prediction.checked_sharedResources]
        exact hall entries hentries p hbest hA hB
    · rw [List.forall_mem_map]
      intro q hq
      obtain ⟨p, hbest, hids, rfl⟩ := (hmem q).mp hq
      obtain ⟨hne, hprob⟩ := hlegal p hbest.mem
      obtain ⟨hA, hB⟩ := Prediction.checked_known.mpr hids
      refine ⟨rfl, ?_, ?_, hknown _ hA, hknown _ hB⟩
      · rwa [Database.predictionRow, Prediction.checked_probability]
      · change p.checked.testA < p.checked.testB
        rcases p.checked_tests with ⟨hA, hB, hle⟩ | ⟨hA, hB, hlt⟩
        · rw [hA, hB]
          exact lt_of_le_of_ne hle hne
        · rwa [hA, hB]
    · -- rows of one pair have one key
      refine List.Nodup.of_map (fun pair : String × String × String => pairKey pair.2.1 pair.2.2) ?_
      rw [List.map_map, List.map_map]
      exact hnodup
    · rw [List.forall_mem_map]
      intro q _ hmem'
      obtain ⟨other, hother, hpair⟩ := List.mem_map.mp hmem'
      have hid : other.runID = runID := congrArg Prod.fst hpair
      exact hfresh (hid ▸ before.references other hother)

end Rows

/-! ## An artifact that omits the resources -/

/-- An artifact with one prediction about `bothTests`, which has further members. -/
def onePrediction (members : List (Str × Json)) : Json :=
  artifactOf [predictionOf "test_000000000000000000000000" "test_ffffffffffffffffffffffff" (1 / 2)
    members]

/-- Two tests. -/
def bothTests : List Test :=
  [{ id := "test_000000000000000000000000", nodeID := "tests/test_a.py::test_a" },
    { id := "test_ffffffffffffffffffffffff", nodeID := "tests/test_b.py::test_b" }]

/-- A database without rows. -/
def emptyDatabase : Database := ⟨[], [], [], fun _ h => absurd h List.not_mem_nil⟩

/-- The database in which the run is saved. -/
def databaseOfRun : Database :=
  ⟨bothTests.map Test.id, ["run"], [], fun _ h => absurd h List.not_mem_nil⟩

/-- The case of an empty list of resources. -/
theorem savePredictions_isOk_iff_empty :
    (∃ db', databaseOfRun.savePredictions "run" (fun _ => 0)
      [{ testA := "test_000000000000000000000000", testB := "test_ffffffffffffffffffffffff"
         probability := 1 / 2, cause := "UNKNOWN", modelVersion := "unknown"
         sharedResources := some [] }] = .ok db') ↔
      ∀ entries, entriesOf (fun _ => none)
          (some (onePrediction [(Py.str "shared_resources", .array [])])) = some entries →
        ∀ p, IsBest Prediction.key Prediction.probability entries p →
          p.testA ∈ bothTests.map Test.id → p.testB ∈ bothTests.map Test.id →
            p.sharedResources ≠ none := by
  have hload : predictionsForTests (fun _ => none)
      (some (onePrediction [(Py.str "shared_resources", .array [])])) bothTests =
      .ok [{ testA := "test_000000000000000000000000", testB := "test_ffffffffffffffffffffffff"
             probability := 1 / 2, cause := "UNKNOWN", modelVersion := "unknown"
             sharedResources := some [] }] := by
    decide +kernel
  have hrun : (emptyDatabase.saveTests bothTests).createRun "run" = some databaseOfRun := rfl
  exact savePredictions_isOk_iff hload hrun _

/-- The artifact is loaded, and its row refused. -/
theorem not_saved_without_resources :
    ¬ ∀ predictions db, predictionsForTests (fun _ => none) (some (onePrediction [])) bothTests =
        .ok predictions → (emptyDatabase.saveTests bothTests).createRun "run" = some db →
      ∃ db', db.savePredictions "run" (fun _ => 0) predictions = .ok db' := by
  have hload : predictionsForTests (fun _ => none) (some (onePrediction [])) bothTests =
      .ok [{ testA := "test_000000000000000000000000", testB := "test_ffffffffffffffffffffffff"
             probability := 1 / 2, cause := "UNKNOWN", modelVersion := "unknown" }] := by
    decide +kernel
  intro h
  obtain ⟨db', hdb'⟩ := h _ _ hload rfl
  cases hdb'

end ConflictGraph.Go
