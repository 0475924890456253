import Mathlib.Algebra.Order.Ring.Rat
import Mathlib.Data.String.Basic

/-!
# The Python package's data model

The records of `types.py` that the scheduler and the tracer exchange. Floats are
exact rationals. A dataclass whose `__post_init__` repairs its fields is a structure
that carries the repaired fields' properties.
-/

namespace ConflictGraph.Py

/-! ## Exceptions -/

/-- The classes of the exceptions that the modelled functions can raise. -/
inductive ExceptionType : Type where
  | valueError
  /-- a kind of `ValueError` -/
  | jsonDecodeError
  | keyError
  | typeError
  | attributeError
  | indexError
  | overflowError
  | recursionError
  deriving DecidableEq, Repr

structure Exception : Type where
  type : ExceptionType
  message : String
  deriving DecidableEq, Repr

/-! ## Tests and predictions -/

inductive RiskPolicy : Type where
  | aggressive
  | balanced
  | safe
  deriving DecidableEq, Repr

inductive ConflictCause : Type where
  | fileCollision
  | portCollision
  | fileLock
  | databaseLock
  | unixSocketCollision
  | sharedState
  | resourceContention
  | unknown
  deriving DecidableEq, Repr

structure TestIdentity : Type where
  id : String
  nodeID : String
  repository : String := "local"
  suite : String := "pytest"
  framework : String := "pytest"
  testFile : String := ""
  testClass : String := ""
  testFunction : String := ""
  parameters : String := ""
  sourceRevision : String := "unknown"
  deriving DecidableEq

structure TestStats : Type where
  durationEMA : ℚ := 1
  durationMedian : ℚ := 1
  failureRate : ℚ := 0
  executions : ℤ := 0
  processCount : ℤ := 1
  resourceCount : ℤ := 0
  writeRatio : ℚ := 0
  deriving DecidableEq

/-- `stable_pair`. -/
def stablePair (a b : String) : String × String := if a ≤ b then (a, b) else (b, a)

theorem stablePair_comm (a b : String) : stablePair a b = stablePair b a := by
  rw [stablePair, stablePair]
  rcases lt_trichotomy a b with h | rfl | h
  · rw [if_pos h.le, if_neg (not_le.mpr h)]
  · rfl
  · rw [if_neg (not_le.mpr h), if_pos h.le]

/-- A prediction after `__post_init__`: its tests are in order and its probability is
one. -/
structure PairPrediction : Type where
  testA : String
  testB : String
  probability : ℚ
  cause : ConflictCause := .unknown
  modelVersion : String := "heuristic"
  sharedResources : List String := []
  explanation : String := ""
  ordered : testA ≤ testB
  probability_nonneg : 0 ≤ probability
  probability_le_one : probability ≤ 1
  deriving DecidableEq

/-- `PairPrediction(test_a, test_b, probability, explanation=explanation)`:
`__post_init__` orders the tests and clamps the probability. -/
def PairPrediction.new (testA testB : String) (probability : ℚ) (explanation : String) :
    PairPrediction :=
  if h : testB < testA then
    { testA := testB, testB := testA, probability := max 0 (min 1 probability),
      explanation := explanation, ordered := h.le, probability_nonneg := le_max_left _ _,
      probability_le_one := max_le zero_le_one (min_le_left _ _) }
  else
    { testA := testA, testB := testB, probability := max 0 (min 1 probability),
      explanation := explanation, ordered := not_lt.mp h, probability_nonneg := le_max_left _ _,
      probability_le_one := max_le zero_le_one (min_le_left _ _) }

/-- `PairPrediction.key`. -/
def PairPrediction.key (p : PairPrediction) : String × String := (p.testA, p.testB)

/-! ## Schedules -/

structure ScheduledTest : Type where
  testID : String
  nodeID : String
  worker : ℤ
  estimatedStart : ℚ
  estimatedEnd : ℚ
  estimatedDuration : ℚ
  riskCost : ℚ := 0
  reasons : List String := []
  deriving DecidableEq

structure Schedule : Type where
  id : String
  runID : String
  workers : ℤ
  policy : RiskPolicy
  tests : List ScheduledTest
  schedulerLatencyMS : ℚ
  expectedMakespan : ℚ
  expectedRisk : ℚ
  seed : ℤ
  deriving DecidableEq

end ConflictGraph.Py
