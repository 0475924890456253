import ConflictGraph.GoBuffer
import ConflictGraph.GoExecuteOne
import ConflictGraph.GoText

/-!
# The output in a result

`executeOne` puts what its two buffers captured into the result, and for a test that did not pass
the line of it that says why. All of them go into text columns, so they should be texts if the
process wrote texts. But the buffers cut after a number of bytes, and so does the line: each cut may
fall within a character, and a result with one that does is no text (`storable_iff`).
-/

namespace ConflictGraph.Go

open Utf8

/-! ## The line that says why -/

/-- What the summary says of a process without output. -/
def noOutput : List UInt8 := encode "test process failed without output".toList

/-- The line speaks of a failure. -/
def isImportant (line : List UInt8) : Bool := mentions "failed" line || mentions "error" line

/-- One iteration of the loop of `failureSummary`, on `last` and `important`. -/
def summarizeLine (acc : List UInt8 × List UInt8) (token : List UInt8) :
    List UInt8 × List UInt8 :=
  let line := trimSpaceBytes token
  (if line ≠ [] then line else acc.1, if isImportant line then line else acc.2)

/-- `failureSummary`. -/
def failureSummary (stdout stderr : List UInt8) : List UInt8 :=
  let tokens := (scanLines 10 13 List.length (stdout ++ 10 :: stderr)).1
  let acc := tokens.foldl summarizeLine (noOutput, [])
  let last := if acc.2 ≠ [] then acc.2 else acc.1
  if 1000 < last.length then last.take 1000 else last

/-- `types.ExecutionResult` with the captured output. -/
structure CapturedResult : Type extends ExecutionResult where
  stdout : List UInt8 := []
  stderr : List UInt8 := []
  failureMessage : List UInt8 := []
  deriving DecidableEq

/-- `Executor.executeOne` with an adapter of this `OutputLimit`, of a process that writes these
slices to its two buffers. -/
def executeOneCaptured (outputLimit timeout : ℤ) (parent : ParentContext) (runID : String)
    (test : ScheduledTest) (executionID : ExecutionID) (called : ℤ)
    (stdoutWrites stderrWrites : List (List UInt8)) (launch : Launch) :
    CapturedResult × Option String :=
  let result := executeOne timeout parent runID test executionID called launch
  let stdout := captured outputLimit stdoutWrites
  let stderr := captured outputLimit stderrWrites
  match launch with
  | .running _ =>
    ({ result.1 with
        stdout := stdout, stderr := stderr,
        failureMessage :=
          if result.1.status ≠ .passed then failureSummary stdout stderr else [] }, result.2)
  | _ => ({ result.1 with }, result.2)

/-- What `SaveExecution` writes into text columns is text. -/
structure CapturedResult.Storable (r : CapturedResult) : Prop where
  stdout : IsText r.stdout
  stderr : IsText r.stderr
  failureMessage : IsText r.failureMessage

/-! ## The reported line -/

/-- The trimmed lines of an output, as far as they are read. -/
def outputLines (stdout stderr : List UInt8) : List (List UInt8) :=
  (scanLines 10 13 List.length (stdout ++ 10 :: stderr)).1.map trimSpaceBytes

/-- The last line that speaks of a failure, or else the last one that is not blank. -/
def reportedLine (lines : List (List UInt8)) : List UInt8 :=
  ((lines.filter isImportant).getLast?.or (lines.filter (· ≠ [])).getLast?).getD noOutput

theorem not_isImportant_nil : isImportant [] = false := by decide +kernel

/-- The loop finds the last line of each kind. -/
theorem foldl_summarizeLine (tokens : List (List UInt8)) : ∀ acc : List UInt8 × List UInt8,
    tokens.foldl summarizeLine acc =
      ((((tokens.map trimSpaceBytes).filter (· ≠ [])).getLast?).getD acc.1,
        (((tokens.map trimSpaceBytes).filter isImportant).getLast?).getD acc.2) := by
  induction tokens with
  | nil => exact fun _ => rfl
  | cons token rest ih =>
    intro acc
    rw [List.foldl_cons, ih, summarizeLine, List.map_cons, List.filter_cons, List.filter_cons]
    congr 1
    · by_cases h : trimSpaceBytes token = []
      · simp [h]
      · simp [h, List.getLast?_cons]
    · by_cases h : isImportant (trimSpaceBytes token) = true
      · simp [h, List.getLast?_cons]
      · simp [h]

/-- The summary is the start of the reported line. -/
theorem failureSummary_eq (stdout stderr : List UInt8) : failureSummary stdout stderr =
    (reportedLine (outputLines stdout stderr)).take 1000 := by
  have hcut : ∀ last : List UInt8,
      (if 1000 < last.length then last.take 1000 else last) = last.take 1000 := by
    intro last
    split
    · rfl
    · exact (List.take_of_length_le (by omega)).symm
  rw [failureSummary, foldl_summarizeLine, ← outputLines]
  simp only [hcut]
  congr 1
  rw [reportedLine]
  cases himportant : ((outputLines stdout stderr).filter isImportant).getLast? with
  | none => simp
  | some line =>
    have hline : isImportant line = true :=
      (List.mem_filter.mp (List.mem_of_getLast? himportant)).2
    have hne : line ≠ [] := by
      rintro rfl
      rw [not_isImportant_nil] at hline
      cases hline
    simp [hne]

/-! ## What can be stored -/

theorem isText_truncationMarker : IsText truncationMarker :=
  ⟨"\n...[output truncated by ConflictGraph]".toList, by decide +kernel⟩

theorem isText_noOutput : IsText noOutput :=
  ⟨_, rfl⟩

/-- A captured text is a text if it is cut between two characters. -/
theorem isText_captured_iff {values : List (List UInt8)} (h : IsText values.flatten) (limit : ℤ) :
    IsText (captured limit values) ↔
      CutsBetween (effectiveLimit limit).toNat values.flatten := by
  have hmarker : ∀ p [Decidable p], IsText (if p then truncationMarker else []) := by
    intro p _
    split
    · exact isText_truncationMarker
    · exact isText_nil
  rw [captured_eq, keptText, ← isText_take_iff_cutsBetween h]
  exact ⟨(hmarker _).of_append_right, fun htake => htake.append (hmarker _)⟩

/-- The reported line of texts is a text. -/
theorem isText_reportedLine {stdout stderr : List UInt8} (hstdout : IsText stdout)
    (hstderr : IsText stderr) : IsText (reportedLine (outputLines stdout stderr)) := by
  have hline : ∀ line ∈ outputLines stdout stderr, IsText line := by
    intro line hmem
    have hnewline : IsText [10] := ⟨['\n'], by decide⟩
    obtain ⟨text, htext⟩ : IsText (stdout ++ 10 :: stderr) :=
      hstdout.append (hnewline.append hstderr)
    rw [outputLines, htext, scanLines_encode, List.map_map] at hmem
    obtain ⟨token, -, rfl⟩ := List.mem_map.mp hmem
    exact ⟨trimSpace token, trimSpaceBytes_encode token⟩
  have hlast : ∀ p : List UInt8 → Bool, ∀ line ∈ ((outputLines stdout stderr).filter p).getLast?,
      IsText line := fun p line hmem =>
    hline line (List.mem_filter.mp (List.mem_of_getLast? hmem)).1
  rw [reportedLine]
  cases himportant : ((outputLines stdout stderr).filter isImportant).getLast? with
  | some line => exact hlast _ line himportant
  | none =>
    cases hnonempty : ((outputLines stdout stderr).filter (· ≠ [])).getLast? with
    | some line => exact hlast _ line hnonempty
    | none => exact isText_noOutput

/-- The test passes: its context has not ended when it is looked at, and its process exits with
success. -/
def Passes (ctx : TimeoutContext) (p : ProcessRun) : Prop :=
  p.decisionAt ctx < ctx.ends.1 ∧ p.exitCode = 0

variable {outputLimit timeout called : ℤ} {parent : ParentContext} {runID : String}
  {test : ScheduledTest} {executionID : ExecutionID} {stdoutWrites stderrWrites : List (List UInt8)}

theorem executeOne_status_eq_passed_iff (p : ProcessRun) :
    (executeOne timeout parent runID test executionID called (.running p)).1.status = .passed ↔
      Passes (testContext timeout called parent) p := by
  have hstatus : (executeOne timeout parent runID test executionID called (.running p)).1.status =
      (if (testContext timeout called parent).ends.1 ≤
          p.decisionAt (testContext timeout called parent)
        then (testContext timeout called parent).ends.2.verdict else ownExit p.exitCode).1 := by
    rw [← verdict_eq]
    rfl
  rw [hstatus, Passes, ← not_le]
  by_cases hended : (testContext timeout called parent).ends.1 ≤
      p.decisionAt (testContext timeout called parent)
  · rw [if_pos hended]
    refine iff_of_false ?_ fun h => h.1 hended
    cases (testContext timeout called parent).ends.2 <;> decide
  · rw [if_neg hended, and_iff_right hended, ownExit]
    split
    · exact iff_of_true rfl ‹_›
    · exact iff_of_false (fun h => by cases h) ‹_›

theorem failureMessage_running (p : ProcessRun) :
    (executeOneCaptured outputLimit timeout parent runID test executionID called stdoutWrites
        stderrWrites (.running p)).1.failureMessage =
      if (executeOne timeout parent runID test executionID called (.running p)).1.status ≠ .passed
        then failureSummary (captured outputLimit stdoutWrites) (captured outputLimit stderrWrites)
        else [] :=
  rfl

/-- **A result can be stored exactly if no cut falls within a character**: those at the limit of
each stream, and, if the test did not pass, the one in the reported line of what they keep. -/
theorem storable_iff (hstdout : IsText stdoutWrites.flatten) (hstderr : IsText stderrWrites.flatten)
    (p : ProcessRun) :
    (executeOneCaptured outputLimit timeout parent runID test executionID called stdoutWrites
        stderrWrites (.running p)).1.Storable ↔
      CutsBetween (effectiveLimit outputLimit).toNat stdoutWrites.flatten ∧
        CutsBetween (effectiveLimit outputLimit).toNat stderrWrites.flatten ∧
        (¬ Passes (testContext timeout called parent) p → CutsBetween 1000 (reportedLine
          (outputLines (keptText outputLimit stdoutWrites)
            (keptText outputLimit stderrWrites)))) := by
  have hsummary : IsText (captured outputLimit stdoutWrites) →
      IsText (captured outputLimit stderrWrites) →
      (IsText (failureSummary (captured outputLimit stdoutWrites)
        (captured outputLimit stderrWrites)) ↔ CutsBetween 1000 (reportedLine (outputLines
          (keptText outputLimit stdoutWrites) (keptText outputLimit stderrWrites)))) := by
    intro hout herr
    rw [failureSummary_eq, isText_take_iff_cutsBetween (isText_reportedLine hout herr),
      captured_eq, captured_eq]
  have hpasses : (executeOne timeout parent runID test executionID called (.running p)).1.status =
      .passed ↔ Passes (testContext timeout called parent) p := executeOne_status_eq_passed_iff p
  rw [← isText_captured_iff hstdout, ← isText_captured_iff hstderr, ← hpasses]
  refine ⟨fun h => ⟨h.stdout, h.stderr, fun hstatus => (hsummary h.stdout h.stderr).mp ?_⟩,
    fun h => ⟨h.1, h.2.1, ?_⟩⟩
  · have hmessage := h.failureMessage
    rwa [failureMessage_running, if_pos hstatus] at hmessage
  · rw [failureMessage_running]
    split
    · exact (hsummary h.1 h.2.1).mpr (h.2.2 ‹_›)
    · exact isText_nil

/-- A process that fails at once. -/
def failsAtOnce : ProcessRun := { slowCleanup with exitCode := 1, cleanup := 0 }

/-- "hé" within a limit of three bytes. -/
theorem storable_iff_fits :
    (executeOneCaptured 3 2000000000 ⟨none, false⟩ "run" ⟨"a", "t.py::a", 0, 0, 1, 1, 0, []⟩
        ⟨"x", by decide⟩ 0 [[104, 0xC3], [0xA9]] [] (.running failsAtOnce)).1.Storable ↔
      CutsBetween (effectiveLimit 3).toNat [[104, 0xC3], [0xA9]].flatten ∧
        CutsBetween (effectiveLimit 3).toNat ([] : List (List UInt8)).flatten ∧
        (¬ Passes (testContext 2000000000 0 ⟨none, false⟩) failsAtOnce →
          CutsBetween 1000 (reportedLine
            (outputLines (keptText 3 [[104, 0xC3], [0xA9]]) (keptText 3 [])))) :=
  have hempty : IsText ([] : List (List UInt8)).flatten := isText_nil
  storable_iff ⟨['h', 'é'], by decide +kernel⟩ hempty failsAtOnce

/-- The same text within a limit of two bytes is cut within the `é`, and is no text. -/
theorem not_storable_cut : IsText [[104, 0xC3], [0xA9]].flatten ∧
    ¬ (executeOneCaptured 2 2000000000 ⟨none, false⟩ "run" ⟨"a", "t.py::a", 0, 0, 1, 1, 0, []⟩
        ⟨"x", by decide⟩ 0 [[104, 0xC3], [0xA9]] [] (.running failsAtOnce)).1.Storable := by
  refine ⟨⟨['h', 'é'], by decide +kernel⟩, fun h => ?_⟩
  exact absurd h.stdout.not_mem (by decide +kernel)

end ConflictGraph.Go
