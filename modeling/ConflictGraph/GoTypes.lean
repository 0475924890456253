import Mathlib.Data.String.Basic
import ConflictGraph.PartialMap
import ConflictGraph.Text

/-!
# The control plane's data model

The records that the Go packages exchange, with the checks they run on them.
Floating-point fields are exact rationals. An `error` is its text; a call that
can also stop the process says so through `Failure`.
-/

namespace ConflictGraph.Go

/-- How a call that yields no value ends. -/
inductive Failure : Type where
  /-- it returned an `error` with this text -/
  | error : String → Failure
  /-- it stopped with a run-time panic -/
  | panic : String → Failure
  deriving DecidableEq, Repr

/-! ## Policies and statuses -/

/-- `RiskPolicy` is a string in the source; `unknown` carries any other text. -/
inductive RiskPolicy : Type where
  | aggressive
  | balanced
  | safe
  /-- a text that names no policy -/
  | unknown : String → RiskPolicy
  deriving DecidableEq, Repr

/-- The text of a policy. -/
def RiskPolicy.text : RiskPolicy → String
  | .aggressive => "aggressive"
  | .balanced => "balanced"
  | .safe => "safe"
  | .unknown text => text

/-- `RiskPolicy.Valid`. -/
def RiskPolicy.valid : RiskPolicy → Bool
  | .unknown _ => false
  | _ => true

inductive ExecutionStatus : Type where
  | pending
  | running
  | passed
  | failed
  | timedOut
  | cancelled
  | infraError
  deriving DecidableEq, Repr

/-! ## Tests and predictions -/

structure Test : Type where
  id : String
  nodeID : String
  repository : String := "local"
  suite : String := "pytest"
  framework : String := "pytest"
  file : String := ""
  class_ : String := ""
  function : String := ""
  parameters : String := ""
  sourceRevision : String := "unknown"
  durationEMA : ℚ := 1
  durationMedian : ℚ := 1
  failureRate : ℚ := 0
  executionCount : ℤ := 0
  deriving DecidableEq

/-- `Test.Validate`. -/
def Test.validate (t : Test) : Except String Unit :=
  if t.id = "" ∨ t.nodeID = "" then .error "test ID and node ID are required"
  else if t.durationEMA < 0 ∨ t.durationMedian < 0 then
    .error "test durations cannot be negative"
  else if t.failureRate < 0 ∨ 1 < t.failureRate then
    .error "test failure rate must be in [0,1]"
  else .ok ()

/-- A test accepted by `Test.Validate` has a non-negative duration. -/
theorem Test.durationEMA_nonneg {t : Test} (h : t.validate = .ok ()) : 0 ≤ t.durationEMA := by
  unfold Test.validate at h
  split at h
  · cases h
  · split at h
    · cases h
    · rename_i hneg
      exact not_lt.mp fun hlt => hneg (Or.inl hlt)

structure Prediction : Type where
  testA : String
  testB : String
  probability : ℚ
  cause : String := ""
  modelVersion : String := ""
  /-- `none` is the nil slice -/
  sharedResources : Option (List String) := none
  explanation : String := ""
  /-- `none` is the zero time -/
  predictedAt : Option ℤ := none
  deriving DecidableEq

/-- The swap inside `Prediction.Normalize`: the smaller test ID first. -/
def Prediction.ordered (p : Prediction) : Prediction :=
  if p.testB < p.testA then { p with testA := p.testB, testB := p.testA } else p

/-- `Prediction.Normalize`: the two test IDs in order, or what is wrong. -/
def Prediction.normalize (p : Prediction) : Except String Prediction :=
  if p.testA = "" ∨ p.testB = "" ∨ p.testA = p.testB then
    .error "prediction requires two distinct test IDs"
  else if p.ordered.probability < 0 ∨ 1 < p.ordered.probability then
    .error "prediction probability must be in [0,1]"
  else .ok p.ordered

@[simp] theorem Prediction.ordered_probability (p : Prediction) :
    p.ordered.probability = p.probability := by
  unfold Prediction.ordered
  split <;> rfl

/-- A normalised prediction keeps its probability, which is one. -/
theorem Prediction.normalize_probability {p q : Prediction} (h : p.normalize = .ok q) :
    q.probability = p.probability ∧ 0 ≤ q.probability ∧ q.probability ≤ 1 := by
  unfold Prediction.normalize at h
  split at h
  · cases h
  · split at h
    · cases h
    · rename_i hrange
      obtain rfl := Except.ok.inj h
      rw [not_or, not_lt, not_lt] at hrange
      exact ⟨p.ordered_probability, hrange⟩

/-- `PairKey`: one key for a pair, whichever way round it is given. -/
def pairKey (a b : String) : String :=
  if b < a then b ++ "\x00" ++ a else a ++ "\x00" ++ b

theorem pairKey_comm (a b : String) : pairKey a b = pairKey b a := by
  unfold pairKey
  rcases lt_trichotomy a b with h | rfl | h
  · rw [if_neg (lt_asymm h), if_pos h]
  · rfl
  · rw [if_pos h, if_neg (lt_asymm h)]

/-! ## Schedules -/

structure ScheduledTest : Type where
  testID : String
  nodeID : String
  worker : ℤ
  estimatedStart : ℚ
  estimatedEnd : ℚ
  estimatedDuration : ℚ
  riskCost : ℚ := 0
  reasons : List String := []
  deriving DecidableEq

structure Schedule : Type where
  id : String
  runID : String
  workers : ℤ
  policy : RiskPolicy
  tests : List ScheduledTest
  schedulerLatencyMS : ℚ
  expectedMakespan : ℚ
  expectedRisk : ℚ
  seed : ℤ
  deriving DecidableEq

/-- The loop of `Schedule.Validate` over the tests not looked at yet, with the
test IDs already seen. -/
def validateTests (workers : ℤ) : List String → List ScheduledTest → Except String Unit
  | _, [] => .ok ()
  | seen, test :: rest =>
    if test.worker < 0 ∨ workers ≤ test.worker then
      .error s!"worker {test.worker} out of range"
    else if test.estimatedStart < 0 ∨ test.estimatedEnd < test.estimatedStart then
      .error s!"invalid timing for {test.testID}"
    else if test.testID ∈ seen then
      .error s!"test {test.testID} scheduled more than once"
    else validateTests workers (test.testID :: seen) rest

/-- `Schedule.Validate`. -/
def Schedule.validate (s : Schedule) : Except String Unit :=
  if s.id = "" ∨ s.runID = "" then .error "schedule and run IDs are required"
  else if s.workers ≤ 0 then .error "worker count must be positive"
  else if s.policy.valid = false then
    .error ("invalid risk policy " ++ s.policy.text.quote)
  else validateTests s.workers [] s.tests

/-- What `Schedule.Validate` accepts about the tests, as one statement. -/
theorem validateTests_eq_ok {workers : ℤ} {tests : List ScheduledTest} :
    ∀ {seen : List String}, validateTests workers seen tests = .ok () ↔
      (∀ t ∈ tests, 0 ≤ t.worker ∧ t.worker < workers ∧ 0 ≤ t.estimatedStart ∧
        t.estimatedStart ≤ t.estimatedEnd ∧ t.testID ∉ seen) ∧
      (tests.map ScheduledTest.testID).Nodup := by
  induction tests with
  | nil => simp [validateTests]
  | cons test rest ih =>
    intro seen
    rw [validateTests, List.forall_mem_cons, List.map_cons, List.nodup_cons]
    split_ifs with hworker htiming hseen
    · refine iff_of_false (by simp) fun h => ?_
      rcases hworker with hw | hw
      · exact absurd h.1.1.1 (not_le.mpr hw)
      · exact absurd h.1.1.2.1 (not_lt.mpr hw)
    · refine iff_of_false (by simp) fun h => ?_
      rcases htiming with ht | ht
      · exact absurd h.1.1.2.2.1 (not_le.mpr ht)
      · exact absurd h.1.1.2.2.2.1 (not_le.mpr ht)
    · exact iff_of_false (by simp) fun h => h.1.1.2.2.2.2 hseen
    · rw [ih]
      simp only [not_or, not_lt, not_le] at hworker htiming
      refine ⟨?_, ?_⟩
      · rintro ⟨hall, hnodup⟩
        refine ⟨⟨⟨hworker.1, hworker.2, htiming.1, htiming.2, hseen⟩, fun t ht => ?_⟩, ?_, hnodup⟩
        · obtain ⟨h₁, h₂, h₃, h₄, h₅⟩ := hall t ht
          exact ⟨h₁, h₂, h₃, h₄, fun hmem => h₅ (List.mem_cons_of_mem _ hmem)⟩
        · intro hmem
          obtain ⟨t, ht, hid⟩ := List.mem_map.mp hmem
          exact (hall t ht).2.2.2.2 (hid ▸ List.mem_cons_self)
      · rintro ⟨⟨-, hall⟩, hnotin, hnodup⟩
        refine ⟨fun t ht => ?_, hnodup⟩
        obtain ⟨h₁, h₂, h₃, h₄, h₅⟩ := hall t ht
        refine ⟨h₁, h₂, h₃, h₄, fun hmem => ?_⟩
        rcases List.mem_cons.mp hmem with hid | hmem
        · exact hnotin (List.mem_map.mpr ⟨t, ht, hid⟩)
        · exact h₅ hmem

end ConflictGraph.Go
