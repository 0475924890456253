import Mathlib.Data.List.Defs

/-!
# Texts of lines

A text that is written as lines, each followed by a line feed, and read as its lines without
the empty ones. The lines come back if none of them is empty or has a boundary in it
(`nonEmptyLines_linesText`), so they are determined by their text.
-/

namespace ConflictGraph

universe u

variable {α : Type u}

/-- `newline.join(lines) + newline`. -/
def linesText (newline : α) (lines : List (List α)) : List α :=
  List.intercalate [newline] lines ++ [newline]

/-- `[line for line in text.splitlines() if line]`. -/
def nonEmptyLines (isBoundary : α → Bool) (text : List α) : List (List α) :=
  (text.splitOnP isBoundary).filter fun line => !line.isEmpty

/-- The line has something in it, and ends nowhere within. -/
structure IsLine (isBoundary : α → Bool) (line : List α) : Prop where
  ne_nil : line ≠ []
  unbroken : ∀ c ∈ line, isBoundary c = false

variable {isBoundary : α → Bool} {newline : α} {line rest : List α} {lines lines' : List (List α)}

theorem IsLine.nonEmptyLines_append (h : IsLine isBoundary line)
    (hnewline : isBoundary newline = true) :
    nonEmptyLines isBoundary (line ++ newline :: rest) = line :: nonEmptyLines isBoundary rest := by
  rw [nonEmptyLines, List.splitOnP_append_cons_of_forall_mem h.unbroken _ hnewline,
    List.filter_cons_of_pos (by simpa using h.ne_nil), nonEmptyLines]

theorem linesText_cons (hlines : lines ≠ []) :
    linesText newline (line :: lines) = line ++ newline :: linesText newline lines := by
  obtain ⟨next, others, rfl⟩ := List.exists_cons_of_ne_nil hlines
  simp [linesText, List.intercalate]

/-- **The lines are read back.** -/
theorem nonEmptyLines_linesText (hnewline : isBoundary newline = true)
    (h : ∀ line ∈ lines, IsLine isBoundary line) :
    nonEmptyLines isBoundary (linesText newline lines) = lines := by
  have hempty : nonEmptyLines isBoundary ([] : List α) = [] := by simp [nonEmptyLines]
  induction lines with
  | nil =>
    have hsplit := List.splitOnP_append_cons_of_forall_mem (List.forall_mem_nil _) newline
      hnewline ([] : List α)
    rw [linesText, nonEmptyLines]
    refine (congrArg (List.filter _) hsplit).trans ?_
    simp
  | cons line rest ih =>
    rw [List.forall_mem_cons] at h
    by_cases hrest : rest = []
    · rw [hrest, linesText, List.intercalate_singleton, h.1.nonEmptyLines_append hnewline, hempty]
    · rw [linesText_cons hrest, h.1.nonEmptyLines_append hnewline, ih h.2]

theorem eq_of_linesText_eq (hnewline : isBoundary newline = true)
    (h : ∀ line ∈ lines, IsLine isBoundary line) (h' : ∀ line ∈ lines', IsLine isBoundary line)
    (heq : linesText newline lines = linesText newline lines') : lines = lines' := by
  rw [← nonEmptyLines_linesText hnewline h, heq, nonEmptyLines_linesText hnewline h']

end ConflictGraph
