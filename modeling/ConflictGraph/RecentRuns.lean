import ConflictGraph.LeftJoin
import ConflictGraph.PostgresRuns

/-!
# The runs that are listed

Both stores list the latest runs, the Python package with what it counts of their executions.
No execution is left out or counted for two runs (`recentRuns_after`), and both list runs that
started at the same times, in the same order (`startedAt_recentRuns`).
-/

namespace ConflictGraph.Sql

/-! ## The queries -/

/-- A row of `recent_runs`. -/
structure RunSummary : Type where
  id : String
  status : String
  startedAt : ℤ
  endedAt : Option ℤ
  schedulerPolicy : String
  workerCount : ℤ
  traceMode : String
  traceQuality : Option ℚ
  tests : ℕ
  passed : ℕ
  failed : ℕ
  testSeconds : ℚ
  deriving DecidableEq

/-- `SELECT` of `recent_runs` for a run, over its executions. -/
def summaryOf (run : RunRow) (executions : List ExecutionRow) : RunSummary :=
  { id := run.id, status := run.status, startedAt := run.startedAt, endedAt := run.endedAt,
    schedulerPolicy := run.schedulerPolicy, workerCount := run.workerCount,
    traceMode := run.traceMode, traceQuality := run.traceQuality,
    tests := executions.length,
    passed := executions.countP fun e => e.status = "PASSED",
    failed := executions.countP fun e => e.status ≠ "PASSED",
    testSeconds := (executions.map ExecutionRow.durationSeconds).sum }

/-- `SELECT` of `recent_runs` in a group, which has rows of one run only. -/
def summarise : List (RunRow × Option ExecutionRow) → Option RunSummary
  | [] => none
  | (run, first) :: rest => some (summaryOf run (((run, first) :: rest).filterMap Prod.snd))

/-- `FROM runs r LEFT JOIN executions e ON e.run_id=r.id GROUP BY r.id`. -/
def runSummaries (t : Tables) : List RunSummary :=
  (groups (fun row => row.1.id)
    (leftJoin (fun run e => e.runID = run.id) t.runs.values t.executions.values)).filterMap
      summarise

/-- `max(1, min(limit, 500))`, in both stores. -/
def clampLimit (limit : ℤ) : ℕ := (max 1 (min limit 500)).toNat

/-- A result of `… ORDER BY started_at DESC LIMIT …`; rows of one time come in any order. -/
def IsLatest {ρ : Type} (startedAt : ρ → ℤ) (limit : ℤ) (rows result : List ρ) : Prop :=
  ∃ ordered : List ρ, ordered.Perm rows ∧ ordered.Pairwise (fun a b => startedAt b ≤ startedAt a) ∧
    result = ordered.take (clampLimit limit)

/-- A result of `recent_runs`. -/
def IsRecentRuns (t : Tables) (limit : ℤ) (result : List RunSummary) : Prop :=
  IsLatest RunSummary.startedAt limit (runSummaries t) result

/-- A run as `RecentRuns` scans it: `coalesce(model_version,'')`. -/
def scanned (run : RunRow) : RunRow := { run with modelVersion := some (run.modelVersion.getD "") }

/-- A result of `RecentRuns`. -/
def IsRecentRows (t : Tables) (limit : ℤ) (result : List RunRow) : Prop :=
  IsLatest RunRow.startedAt limit (t.runs.values.map scanned) result

/-! ## The latest rows -/

section Latest

variable {ρ : Type} {startedAt : ρ → ℤ} {limit : ℤ} {rows result : List ρ}

/-- No row that is left out is newer. -/
theorem IsLatest.exists_rest (h : IsLatest startedAt limit rows result) :
    ∃ rest, (result ++ rest).Perm rows ∧
      (∀ a ∈ result, ∀ b ∈ rest, startedAt b ≤ startedAt a) ∧
        result.length = min (clampLimit limit) rows.length := by
  obtain ⟨ordered, hperm, hordered, rfl⟩ := h
  refine ⟨ordered.drop (clampLimit limit), ?_, ?_, ?_⟩
  · rwa [List.take_append_drop]
  · rw [← List.take_append_drop (clampLimit limit) ordered] at hordered
    exact (List.pairwise_append.mp hordered).2.2
  · rw [List.length_take, hperm.length_eq]

/-- The times are those of any other such list, of rows with the same times. -/
theorem IsLatest.map_startedAt {ρ' : Type} {startedAt' : ρ' → ℤ} {rows' result' : List ρ'}
    (h : IsLatest startedAt limit rows result) (h' : IsLatest startedAt' limit rows' result')
    (hsame : (rows.map startedAt).Perm (rows'.map startedAt')) :
    result.map startedAt = result'.map startedAt' := by
  obtain ⟨ordered, hperm, hordered, rfl⟩ := h
  obtain ⟨ordered', hperm', hordered', rfl⟩ := h'
  have hsorted : ∀ {σ : Type} {f : σ → ℤ} {list : List σ},
      list.Pairwise (fun a b => f b ≤ f a) → (list.map f).Pairwise (· ≥ ·) := fun h =>
    List.pairwise_map.mpr h
  rw [List.map_take, List.map_take]
  refine congrArg _ (List.Perm.eq_of_pairwise (fun a b _ _ hab hba => le_antisymm hba hab)
    (hsorted hordered) (hsorted hordered') ?_)
  exact ((hperm.map _).trans hsame).trans (hperm'.map _).symm

end Latest

/-! ## What they list -/

/-- The executions of a run. -/
def executionsOf (t : Tables) (runID : String) : List ExecutionRow :=
  t.executions.values.filter fun e => e.runID = runID

variable {t : Tables}

theorem summarise_joined (run : RunRow) (executions : List ExecutionRow) :
    summarise (joined (fun (run : RunRow) e => e.runID = run.id) executions run) =
      some (summaryOf run (executions.filter fun e => e.runID = run.id)) := by
  have hcolumns := filterMap_joined (fun (run : RunRow) (e : ExecutionRow) => e.runID = run.id)
    executions run
  rcases hrows : joined (fun (run : RunRow) (e : ExecutionRow) => decide (e.runID = run.id))
    executions run with _ | ⟨⟨first, e⟩, rest⟩
  · exact absurd hrows (joined_ne_nil _ _ _)
  · have hfirst : first = run :=
      fst_eq_of_mem_joined (hrows ▸ List.mem_cons_self : (first, e) ∈ joined _ executions run)
    rw [hrows] at hcolumns
    rw [summarise, hcolumns, hfirst]

/-- The keys of the runs. -/
theorem Legal.map_id_runs (h : Legal t) : t.runs.values.map RunRow.id = t.runs.keys := by
  rw [OrderedDict.values, OrderedDict.keys, List.map_map]
  refine List.map_congr_left fun item hitem => ?_
  exact (h.runs item.1 item.2 (OrderedDict.mem_items_iff.mp hitem)).1

theorem Legal.nodup_runs (h : Legal t) : (t.runs.values.map RunRow.id).Nodup :=
  h.map_id_runs ▸ t.runs.nodup

/-- **One summary for each run**, of just its executions. -/
theorem runSummaries_perm (h : Legal t) :
    (runSummaries t).Perm
      (t.runs.values.map fun run => summaryOf run (executionsOf t run.id)) := by
  refine ((groups_leftJoin_perm h.nodup_runs).filterMap summarise).trans (List.Perm.of_eq ?_)
  rw [List.filterMap_map, ← List.filterMap_eq_map]
  exact List.filterMap_congr fun run _ => summarise_joined run _

/-- Passed and failed executions are all there are. -/
theorem tests_summaryOf (run : RunRow) (executions : List ExecutionRow) :
    (summaryOf run executions).tests =
      (summaryOf run executions).passed + (summaryOf run executions).failed := by
  simp only [summaryOf]
  rw [List.length_eq_countP_add_countP (fun e : ExecutionRow => e.status = "PASSED")]
  simp

/-- **Every execution is one of exactly one run.** -/
theorem sum_length_executionsOf (h : Legal t) :
    (t.runs.values.map fun run => (executionsOf t run.id).length).sum =
      t.executions.values.length := by
  have hknown : ∀ e ∈ t.executions.values, e.runID ∈ t.runs.values.map RunRow.id := by
    intro e he
    obtain ⟨id, hid⟩ := OrderedDict.mem_values_iff.mp he
    exact h.map_id_runs ▸ (h.executions id e hid).2.2.1
  have hids : ∀ {ids : List String}, ids.Nodup → ∀ executions : List ExecutionRow,
      (∀ e ∈ executions, e.runID ∈ ids) →
        (ids.map fun runID => (executions.filter fun e => e.runID = runID).length).sum =
          executions.length := by
    intro ids
    induction ids with
    | nil =>
      intro _ executions hall
      rw [List.eq_nil_iff_forall_not_mem.mpr fun e he => List.not_mem_nil (hall e he)]
      rfl
    | cons first rest ih =>
      intro hnodup executions hall
      rw [List.nodup_cons] at hnodup
      -- the executions of the other runs
      have hothers := ih hnodup.2 (executions.filter fun e => e.runID ≠ first) (by
        intro e he
        obtain ⟨he, hne⟩ := List.mem_filter.mp he
        exact (List.mem_cons.mp (hall e he)).resolve_left (of_decide_eq_true hne))
      have hsame : ∀ runID ∈ rest, (executions.filter fun e => e.runID ≠ first).filter
          (fun e => e.runID = runID) = executions.filter fun e => e.runID = runID := by
        intro runID hrunID
        rw [List.filter_filter]
        refine List.filter_congr fun e _ => ?_
        by_cases heq : e.runID = runID
        · have hne : e.runID ≠ first := fun h => hnodup.1 (h ▸ heq ▸ hrunID)
          rw [decide_eq_true heq, decide_eq_true hne]
          rfl
        · rw [decide_eq_false heq, Bool.false_and]
      have hrest : (rest.map fun runID => (executions.filter fun e => e.runID = runID).length) =
          rest.map fun runID => ((executions.filter fun e => e.runID ≠ first).filter
            fun e => e.runID = runID).length :=
        List.map_congr_left fun runID hrunID => congrArg _ (hsame runID hrunID).symm
      rw [List.map_cons, List.sum_cons, hrest, hothers, ← List.countP_eq_length_filter,
        ← List.countP_eq_length_filter,
        List.length_eq_countP_add_countP (fun e : ExecutionRow => e.runID = first)]
      simp
  have hmap := hids h.nodup_runs t.executions.values hknown
  rwa [List.map_map] at hmap

/-- **What the dashboard counts.** Of the latest runs, at most the limit, each is listed once, as
it is in its row, and with all its executions, the passed and the failed ones; if there are no
more runs than the limit, every execution is counted exactly once. -/
theorem recentRuns_after (xs : List Transaction) {limit : ℤ} {result : List RunSummary}
    (h : IsRecentRuns (Tables.after {} xs) limit result) :
    (result.map RunSummary.id).Nodup ∧
      result.length = min (clampLimit limit) (Tables.after {} xs).runs.keys.length ∧
      (∀ s ∈ result, s.tests = s.passed + s.failed ∧
        ∃ run, (Tables.after {} xs).runs.get? s.id = some run ∧
          s = summaryOf run (executionsOf (Tables.after {} xs) run.id)) ∧
      (∀ runID run, (Tables.after {} xs).runs.get? runID = some run →
        runID ∉ result.map RunSummary.id → ∀ s ∈ result, run.startedAt ≤ s.startedAt) ∧
      ((Tables.after {} xs).runs.keys.length ≤ clampLimit limit →
        (result.map RunSummary.tests).sum = (Tables.after {} xs).executions.values.length) := by
  have hlegal := legal_after xs
  generalize Tables.after {} xs = t at h hlegal ⊢
  obtain ⟨rest, hperm, hnewest, hlength⟩ := h.exists_rest
  have hall := hperm.trans (runSummaries_perm hlegal)
  have hvalues : t.runs.values.length = t.runs.keys.length := by
    rw [← hlegal.map_id_runs, List.length_map]
  have hids : ((result ++ rest).map RunSummary.id).Perm (t.runs.values.map RunRow.id) := by
    refine (hall.map _).trans (List.Perm.of_eq ?_)
    rw [List.map_map]
    rfl
  have hrow : ∀ s ∈ result ++ rest, ∃ run, t.runs.get? s.id = some run ∧
      s = summaryOf run (executionsOf t run.id) := by
    intro s hs
    obtain ⟨run, hrun, rfl⟩ := List.mem_map.mp (hall.mem_iff.mp hs)
    obtain ⟨runID, hget⟩ := OrderedDict.mem_values_iff.mp hrun
    obtain ⟨rfl, -⟩ := hlegal.runs runID run hget
    exact ⟨run, hget, rfl⟩
  refine ⟨?_, ?_, fun s hs => ⟨?_, hrow s (List.mem_append_left _ hs)⟩, ?_, fun hlimit => ?_⟩
  · have hnodup := hids.nodup_iff.mpr hlegal.nodup_runs
    rw [List.map_append] at hnodup
    exact hnodup.of_append_left
  · rw [hlength, (runSummaries_perm hlegal).length_eq, List.length_map, hvalues]
  · obtain ⟨run, -, rfl⟩ := hrow s (List.mem_append_left _ hs)
    exact tests_summaryOf run _
  · intro runID run hrun hout s hs
    have hlisted : summaryOf run (executionsOf t run.id) ∈ result ++ rest :=
      hall.mem_iff.mpr (List.mem_map_of_mem (OrderedDict.mem_values_iff.mpr ⟨runID, hrun⟩))
    obtain ⟨rfl, -⟩ := hlegal.runs runID run hrun
    rcases List.mem_append.mp hlisted with hin | hin
    · exact absurd (List.mem_map_of_mem hin) hout
    · exact hnewest s hs _ hin
  · have hrest : rest = [] := by
      have htotal := hall.length_eq
      rw [List.length_append, List.length_map, hvalues, hlength,
        (runSummaries_perm hlegal).length_eq, List.length_map, hvalues,
        Nat.min_eq_right hlimit] at htotal
      exact List.eq_nil_of_length_eq_zero (by omega)
    rw [hrest, List.append_nil] at hall
    rw [(hall.map RunSummary.tests).sum_eq, List.map_map]
    exact sum_length_executionsOf hlegal

/-- **Both stores list runs of the same times**, and if no two runs started at the same time, the
same runs. -/
theorem startedAt_recentRuns (xs : List Transaction) {limit : ℤ} {result : List RunSummary}
    {rows : List RunRow} (h : IsRecentRuns (Tables.after {} xs) limit result)
    (h' : IsRecentRows (Tables.after {} xs) limit rows) :
    result.map RunSummary.startedAt = rows.map RunRow.startedAt ∧
      (((Tables.after {} xs).runs.values.map RunRow.startedAt).Nodup →
        result.map RunSummary.id = rows.map RunRow.id) := by
  have hsummaries := runSummaries_perm (legal_after xs)
  obtain ⟨rest, hperm, -, -⟩ := h.exists_rest
  obtain ⟨rest', hperm', -, -⟩ := h'.exists_rest
  generalize Tables.after {} xs = t at h h' hsummaries hperm hperm' ⊢
  have htimes : result.map RunSummary.startedAt = rows.map RunRow.startedAt := by
    refine h.map_startedAt h' ((hsummaries.map _).trans ?_)
    rw [List.map_map, List.map_map]
    rfl
  refine ⟨htimes, fun hdistinct => ?_⟩
  -- a time tells the run
  have hid : ∀ run ∈ t.runs.values, ((t.runs.values.find? fun other =>
      other.startedAt = run.startedAt).map RunRow.id).getD "" = run.id := by
    intro run hrun
    rcases hfind : t.runs.values.find? fun other => other.startedAt = run.startedAt with _ | found
    · exact absurd (decide_eq_true rfl) (List.find?_eq_none.mp hfind run hrun)
    · have hsame := List.find?_some hfind
      have htime : found.startedAt = run.startedAt := of_decide_eq_true hsame
      rw [hfind, Option.map_some, Option.getD_some,
        List.inj_on_of_nodup_map hdistinct (List.mem_of_find?_eq_some hfind) hrun htime]
  have hresult : result.map RunSummary.id = (result.map RunSummary.startedAt).map fun time =>
      ((t.runs.values.find? fun other => other.startedAt = time).map RunRow.id).getD "" := by
    rw [List.map_map]
    refine List.map_congr_left fun summary hsummary => ?_
    obtain ⟨run, hrun, rfl⟩ := List.mem_map.mp
      ((hperm.trans hsummaries).mem_iff.mp (List.mem_append_left _ hsummary))
    exact (hid run hrun).symm
  have hrows : rows.map RunRow.id = (rows.map RunRow.startedAt).map fun time =>
      ((t.runs.values.find? fun other => other.startedAt = time).map RunRow.id).getD "" := by
    rw [List.map_map]
    refine List.map_congr_left fun row hrow => ?_
    obtain ⟨run, hrun, rfl⟩ := List.mem_map.mp
      (hperm'.mem_iff.mp (List.mem_append_left _ hrow))
    exact (hid run hrun).symm
  rw [hresult, hrows, htimes]

/-! ## Three runs -/

/-- The control plane creates a run. -/
def creates (time : ℤ) (runID : String) : Transaction :=
  ⟨Go.Postgres.createRun time ⟨runID, .running, .balanced, 1, 42, "unknown", "disabled",
    "duration-only", 2, 0⟩, .acknowledged⟩

/-- The control plane saves what came of a test, a second after it started. -/
def saves (time : ℤ) (executionID runID testID : String) (status : Go.ExecutionStatus) :
    Transaction :=
  ⟨Go.Postgres.saveExecution (time + 1)
    ⟨⟨executionID, runID, testID, testID, 0, status, time * 1000000000, (time + 1) * 1000000000, 0,
      false⟩, [], [], []⟩, .acknowledged⟩

/-- The Python package saves what came of a test. -/
def savesResult (time : ℤ) (executionID runID testID : String) (status : Py.ExecutionStatus) :
    Transaction :=
  ⟨Py.PostgresStore.saveResult (time + 1)
    { runID, testID, nodeID := testID, worker := 0, status, exitCode := 0, timedOut := false,
      executionID, startedAt := time, endedAt := time + 1, durationSeconds := 1, stdout := [],
      stderr := [] }, .acknowledged⟩

/-- Three runs: in the first a test passes; the second, of the other client, saves a failed test
twice and a passed one; and the third has only been created. -/
def threeRuns : List Transaction :=
  [⟨Py.PostgresStore.upsertTests 1
      [{ id := "a", nodeID := "t.py::a" }, { id := "b", nodeID := "t.py::b" }], .acknowledged⟩,
    creates 2 "r1", saves 3 "e1" "r1" "a" .passed,
    ⟨Go.Postgres.finishRun 5 "r1" .completed "" none, .acknowledged⟩,
    ⟨Py.PostgresStore.createRun 12 "r2" "safe" 2 42 "unknown" "replay", .acknowledged⟩,
    savesResult 13 "e2" "r2" "a" .failed, savesResult 13 "e2" "r2" "a" .failed,
    savesResult 14 "e3" "r2" "b" .passed,
    ⟨Py.PostgresStore.finalizeRun 16 "r2" (some 1) "one or more tests failed", .acknowledged⟩,
    creates 22 "r3"]

/-- What the dashboard shows of the runs. -/
def threeSummaries : List RunSummary :=
  [⟨"r3", "RUNNING", 22, none, "balanced", 1, "disabled", none, 0, 0, 0, 0⟩,
    ⟨"r2", "FAILED", 12, some 16, "safe", 2, "replay", some 1, 2, 1, 1, 2⟩,
    ⟨"r1", "COMPLETED", 2, some 5, "balanced", 1, "disabled", none, 1, 1, 0, 1⟩]

theorem threeSummaries_perm : threeSummaries.Perm (runSummaries (Tables.after {} threeRuns)) := by
  decide +kernel

theorem isRecentRuns_threeRuns :
    IsRecentRuns (Tables.after {} threeRuns) 2 (threeSummaries.take 2) :=
  ⟨threeSummaries, threeSummaries_perm, by decide, rfl⟩

/-- The two latest of three runs. -/
theorem recentRuns_after_threeRuns :
    ((threeSummaries.take 2).map RunSummary.id).Nodup ∧
      (threeSummaries.take 2).length =
        min (clampLimit 2) (Tables.after {} threeRuns).runs.keys.length ∧
      (∀ s ∈ threeSummaries.take 2, s.tests = s.passed + s.failed ∧
        ∃ run, (Tables.after {} threeRuns).runs.get? s.id = some run ∧
          s = summaryOf run (executionsOf (Tables.after {} threeRuns) run.id)) ∧
      (∀ runID run, (Tables.after {} threeRuns).runs.get? runID = some run →
        runID ∉ (threeSummaries.take 2).map RunSummary.id → ∀ s ∈ threeSummaries.take 2,
          run.startedAt ≤ s.startedAt) ∧
      ((Tables.after {} threeRuns).runs.keys.length ≤ clampLimit 2 →
        ((threeSummaries.take 2).map RunSummary.tests).sum =
          (Tables.after {} threeRuns).executions.values.length) :=
  recentRuns_after threeRuns isRecentRuns_threeRuns

/-- The rows of the runs. -/
def threeRows : List RunRow :=
  threeSummaries.map fun s =>
    { id := s.id, status := s.status, schedulerPolicy := s.schedulerPolicy,
      workerCount := s.workerCount, seed := 42, sourceRevision := "unknown",
      traceMode := s.traceMode, traceQuality := s.traceQuality,
      modelVersion := some (if s.id = "r2" then "" else "duration-only"),
      startedAt := s.startedAt, endedAt := s.endedAt,
      error := if s.failed = 0 then "" else "one or more tests failed",
      predictionCount := if s.id = "r2" then none else some 0 }

theorem threeRows_perm :
    threeRows.Perm ((Tables.after {} threeRuns).runs.values.map scanned) := by
  decide +kernel

/-- Both stores list the two latest of three runs. -/
theorem startedAt_recentRuns_threeRuns :
    (threeSummaries.take 2).map RunSummary.startedAt =
        (threeRows.take 2).map RunRow.startedAt ∧
      (((Tables.after {} threeRuns).runs.values.map RunRow.startedAt).Nodup →
        (threeSummaries.take 2).map RunSummary.id = (threeRows.take 2).map RunRow.id) :=
  startedAt_recentRuns threeRuns isRecentRuns_threeRuns
    ⟨threeRows, threeRows_perm, by decide, rfl⟩

end ConflictGraph.Sql
