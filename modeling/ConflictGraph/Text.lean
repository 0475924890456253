import Mathlib.Data.Rat.Floor

/-!
# Numbers as text

The one number format that the messages of the schedulers use.
-/

namespace ConflictGraph

/-- A non-negative number with one decimal, ties to even. -/
def formatFixed1 (q : ℚ) : String :=
  let scaled := q * 10
  let down := scaled.floor
  let rest := scaled - down
  let tenths := if 1 / 2 < rest ∨ (rest = 1 / 2 ∧ down % 2 = 1) then down + 1 else down
  toString (tenths / 10) ++ "." ++ toString (tenths % 10)

example : formatFixed1 (993 / 10) = "99.3" := by decide +kernel

end ConflictGraph
