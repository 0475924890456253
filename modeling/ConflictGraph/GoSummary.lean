import ConflictGraph.GoOutput

/-!
# The summary of a failure

`failureSummary` should report the last line of the output that speaks of a failure, or else
the last line that is not blank. It reads the lines with a scanner, and a scanner stops at a
line that does not fit into its buffer; what `Err` then says is not asked for. So the
lines from the first one that is too long are lost, and the summary is right exactly when
none of them should have been reported, up to what the summary keeps of a line
(`summarizes_iff`).
-/

namespace ConflictGraph.Go

/-! ## The line to report -/

/-- The line is the one to report of these: the last one that speaks of a failure, or else
the last one that is not blank, or else the default. -/
inductive Reported (lines : List (List UInt8)) : List UInt8 → Prop
  | important {before after : List (List UInt8)} {line : List UInt8}
      (heq : lines = before ++ line :: after) (hline : isImportant line = true)
      (hlast : ∀ next ∈ after, ¬ isImportant next = true) : Reported lines line
  | nonblank {before after : List (List UInt8)} {line : List UInt8}
      (hnone : ∀ line ∈ lines, ¬ isImportant line = true)
      (heq : lines = before ++ line :: after) (hline : line ≠ [])
      (hlast : ∀ next ∈ after, next = []) : Reported lines line
  | nothing (hblank : ∀ line ∈ lines, line = []) : Reported lines noOutput

/-- The last element of a kind has none of that kind after it. -/
theorem getLast?_filter_eq_some_iff {α : Type*} {p : α → Bool} {l : List α} {a : α} :
    (l.filter p).getLast? = some a ↔
      ∃ before after, l = before ++ a :: after ∧ p a = true ∧ ∀ b ∈ after, ¬ p b = true := by
  rw [List.getLast?_filter, List.find?_eq_some_iff_append]
  refine ⟨?_, ?_⟩
  · rintro ⟨ha, after, before, heq, hafter⟩
    refine ⟨before.reverse, after.reverse, ?_, ha, by simpa using hafter⟩
    rw [← l.reverse_reverse, heq]
    simp
  · rintro ⟨before, after, rfl, ha, hafter⟩
    exact ⟨ha, after.reverse, before.reverse, by simp, by simpa using hafter⟩

theorem isImportant_ne_nil {line : List UInt8} (h : isImportant line = true) : line ≠ [] := by
  rintro rfl
  rw [not_isImportant_nil] at h
  cases h

/-- There is one line to report. -/
theorem reported_iff {lines : List (List UInt8)} {line : List UInt8} :
    Reported lines line ↔ line = reportedLine lines := by
  have hlast : ∀ {line}, Reported lines line → line = reportedLine lines := by
    intro line h
    cases h with
    | important heq hline hlast =>
      rw [reportedLine, getLast?_filter_eq_some_iff.mpr ⟨_, _, heq, hline, hlast⟩]
      rfl
    | nonblank hnone heq hline hlast =>
      have hfilter : (lines.filter (· ≠ [])).getLast? = some line :=
        getLast?_filter_eq_some_iff.mpr ⟨_, _, heq, by simpa using hline, by simpa using hlast⟩
      rw [reportedLine, List.filter_eq_nil_iff.mpr hnone, hfilter]
      rfl
    | nothing hblank =>
      have himportant : lines.filter isImportant = [] :=
        List.filter_eq_nil_iff.mpr fun line hmem himp => isImportant_ne_nil himp (hblank line hmem)
      have hnonblank : lines.filter (· ≠ []) = [] :=
        List.filter_eq_nil_iff.mpr fun line hmem => by simpa using hblank line hmem
      rw [reportedLine, himportant, hnonblank]
      rfl
  refine ⟨hlast, ?_⟩
  rintro rfl
  rw [reportedLine]
  cases himportant : (lines.filter isImportant).getLast? with
  | some line =>
    obtain ⟨before, after, heq, hline, hafter⟩ := getLast?_filter_eq_some_iff.mp himportant
    exact .important heq hline hafter
  | none =>
    rw [List.getLast?_eq_none_iff, List.filter_eq_nil_iff] at himportant
    cases hnonblank : (lines.filter (· ≠ [])).getLast? with
    | some line =>
      obtain ⟨before, after, heq, hline, hafter⟩ := getLast?_filter_eq_some_iff.mp hnonblank
      exact .nonblank himportant heq (by simpa using hline) (by simpa using hafter)
    | none =>
      rw [List.getLast?_eq_none_iff, List.filter_eq_nil_iff] at hnonblank
      exact .nothing (by simpa using hnonblank)

/-! ## The lines that are lost -/

/-- All the trimmed lines of the output, of any length. -/
def allLines (stdout stderr : List UInt8) : List (List UInt8) :=
  (rawLines 10 (stdout ++ 10 :: stderr)).map fun line => trimSpaceBytes (dropCR 13 line)

/-- The trimmed lines from the first one that does not fit into the scanner's buffer. -/
def lostLines (stdout stderr : List UInt8) : List (List UInt8) :=
  ((rawLines 10 (stdout ++ 10 :: stderr)).dropWhile fun line =>
    line.length < maxScanTokenSize).map fun line => trimSpaceBytes (dropCR 13 line)

theorem outputLines_append_lostLines (stdout stderr : List UInt8) :
    outputLines stdout stderr ++ lostLines stdout stderr = allLines stdout stderr := by
  rw [outputLines, scanLines, lostLines, allLines, List.map_map]
  exact (List.map_append ..).symm.trans
    (congrArg (List.map _) (List.takeWhile_append_dropWhile ..))

/-- Nothing is lost of an output with short lines. -/
theorem lostLines_eq_nil {stdout stderr : List UInt8}
    (h : ∀ line ∈ rawLines 10 (stdout ++ 10 :: stderr), line.length < maxScanTokenSize) :
    lostLines stdout stderr = [] := by
  rw [lostLines, List.map_eq_nil_iff, List.dropWhile_eq_nil_iff]
  simpa using h

/-- The line of the lost ones that should be reported instead of the line reported of those
that are read: the last one that speaks of a failure, or else, if none that is read does, the
last one that is not blank. -/
def superseding (read lost : List (List UInt8)) : Option (List UInt8) :=
  (lost.filter isImportant).getLast?.or
    (if read.any isImportant then none else (lost.filter (· ≠ [])).getLast?)

theorem reportedLine_append (read lost : List (List UInt8)) :
    reportedLine (read ++ lost) = (superseding read lost).getD (reportedLine read) := by
  rw [reportedLine, List.filter_append, List.filter_append, List.getLast?_append,
    List.getLast?_append, superseding]
  cases hlost : (lost.filter isImportant).getLast? with
  | some line => rfl
  | none =>
    cases hread : (read.filter isImportant).getLast? with
    | some line =>
      -- a failure that was read stands against any line that is merely not blank
      obtain ⟨hmem, hline⟩ := List.mem_filter.mp (List.mem_of_getLast? hread)
      rw [if_pos (List.any_eq_true.mpr ⟨line, hmem, hline⟩), reportedLine, hread]
      rfl
    | none =>
      have hany : ¬ read.any isImportant = true := by
        rw [List.getLast?_eq_none_iff, List.filter_eq_nil_iff] at hread
        simpa using hread
      rw [if_neg hany, reportedLine, hread]
      cases (lost.filter (· ≠ [])).getLast? with
      | some line => rfl
      | none => rfl

/-! ## When the summary is right -/

/-- The summary is the start of the line to report of all the lines. -/
def Summarizes (stdout stderr : List UInt8) : Prop :=
  ∀ line, Reported (allLines stdout stderr) line →
    failureSummary stdout stderr = line.take 1000

/-- No line that is lost should be reported, unless it starts as the line that is reported
of those that are read. -/
def LosesNothing (stdout stderr : List UInt8) : Prop :=
  ∀ line ∈ superseding (outputLines stdout stderr) (lostLines stdout stderr),
    line.take 1000 = (reportedLine (outputLines stdout stderr)).take 1000

/-- **The summary is the last line that speaks of a failure, or else the last line, exactly
if the scanner loses no line that should be reported.** -/
theorem summarizes_iff (stdout stderr : List UInt8) :
    Summarizes stdout stderr ↔ LosesNothing stdout stderr := by
  have hreported : Summarizes stdout stderr ↔ (reportedLine (outputLines stdout stderr)).take 1000 =
      ((superseding (outputLines stdout stderr) (lostLines stdout stderr)).getD
        (reportedLine (outputLines stdout stderr))).take 1000 := by
    rw [← reportedLine_append, outputLines_append_lostLines, ← failureSummary_eq]
    refine ⟨fun h => h _ (reported_iff.mpr rfl), fun h line hline => ?_⟩
    rw [h, reported_iff.mp hline]
  rw [hreported, LosesNothing]
  cases superseding (outputLines stdout stderr) (lostLines stdout stderr) with
  | none => simp
  | some line => simp [eq_comm]

/-- So it is when every line is short. -/
theorem losesNothing_of_short {stdout stderr : List UInt8}
    (h : ∀ line ∈ rawLines 10 (stdout ++ 10 :: stderr), line.length < maxScanTokenSize) :
    LosesNothing stdout stderr := by
  rw [LosesNothing, lostLines_eq_nil h]
  simp [superseding]

/-- A line of 65,536 bytes, and a failure after it. -/
def longFirstLine : List UInt8 :=
  List.replicate maxScanTokenSize 120 ++ 10 :: Utf8.encode "FAILED a".toList

theorem rawLines_longFirstLine : rawLines 10 (longFirstLine ++ [10]) =
    [List.replicate maxScanTokenSize 120, Utf8.encode "FAILED a".toList] := by
  have hlong : (10 : UInt8) ∉ List.replicate maxScanTokenSize (120 : UInt8) := by
    intro h
    exact absurd (List.eq_of_mem_replicate h) (by decide)
  rw [longFirstLine, List.append_assoc, List.cons_append, rawLines_append_cons hlong,
    rawLines_append_cons (by decide +kernel)]
  rfl

theorem outputLines_longFirstLine : outputLines longFirstLine [] = [] := by
  rw [outputLines, scanLines, rawLines_longFirstLine, List.takeWhile_cons_of_neg]
  · rfl
  · simp

/-- The failure is not reported, and no other line either. -/
theorem not_summarizes_longFirstLine : failureSummary longFirstLine [] = noOutput ∧
    ¬ Summarizes longFirstLine [] := by
  have hsummary : failureSummary longFirstLine [] = noOutput := by
    rw [failureSummary_eq, outputLines_longFirstLine]
    decide +kernel
  refine ⟨hsummary, fun h => ?_⟩
  have hlines : allLines longFirstLine [] =
      [trimSpaceBytes (dropCR 13 (List.replicate maxScanTokenSize 120))] ++
        Utf8.encode "FAILED a".toList :: [] := by
    rw [allLines, rawLines_longFirstLine, List.map_cons, List.map_cons]
    rfl
  have hreported := h _ (.important hlines (by decide +kernel) (List.forall_mem_nil _))
  rw [hsummary] at hreported
  exact absurd hreported (by decide +kernel)

end ConflictGraph.Go
