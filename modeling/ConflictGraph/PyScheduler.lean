import Mathlib.Data.List.MinMax
import Mathlib.Data.List.Sort
import Mathlib.Data.Prod.Lex
import ConflictGraph.Lanes
import ConflictGraph.PartialMap
import ConflictGraph.PyTypes
import ConflictGraph.Rounding
import ConflictGraph.Text

/-!
# The Python scheduler

`ConflictScheduler.static_schedule` and the methods it calls, as `scheduler.py`
computes them. It is a sibling of the Go scheduler, and differs from it in its guard:
where the risk of the chosen test reaches the hard threshold, it first looks for
another candidate that is safe, and else waits for the earliest end of *any* test
that runs. It also skips finished tests by binary search.

What the interpreter contributes, the draws of `random`, the rounding of its floats, the
identifiers and the clock, are the fields of `Runtime`. As for the Go scheduler, each
operation on chances is rounded, and instants and objectives are exact.
-/

namespace ConflictGraph.Py

/-! ## Parameters and the risk index -/

structure PolicyParameters : Type where
  riskWeight : ℚ
  hardThreshold : ℚ
  utilizationBias : ℚ
  lookahead : ℕ
  deriving DecidableEq

/-- `POLICIES`. -/
def policies : RiskPolicy → PolicyParameters
  | .aggressive => ⟨55 / 100, 985 / 1000, 3 / 2, 8⟩
  | .balanced => ⟨2, 90 / 100, 1, 16⟩
  | .safe => ⟨15 / 2, 68 / 100, 1 / 2, 32⟩

structure RiskIndex : Type where
  risks : PartialMap (String × String) PairPrediction

/-- `RiskIndex.__init__`: the last prediction of a pair counts. -/
def RiskIndex.new (predictions : List PairPrediction) : RiskIndex :=
  ⟨predictions.foldl (fun risks item => risks.insert item.key item) PartialMap.empty⟩

/-- `RiskIndex.probability`. -/
def RiskIndex.probability (risk : RiskIndex) (left right : String) : ℚ :=
  if left = right then 1
  else
    match risk.risks (stablePair left right) with
    | some prediction => prediction.probability
    | none => 0

/-- `RiskIndex.prediction`. -/
def RiskIndex.prediction (risk : RiskIndex) (left right : String) : Option PairPrediction :=
  risk.risks (stablePair left right)

/-! ## Placement risk -/

/-- The binary search of `_placement_risk` for the first test that ends after `start`,
between `low` and `high`. Every step narrows the range. -/
def searchFrom (lane : List ScheduledTest) (start : ℚ) : ℕ → ℕ → ℕ → ℕ
  | 0, low, _ => low
  | fuel + 1, low, high =>
    if low < high then
      let middle := (low + high) / 2
      match lane[middle]? with
      | none => low
      | some item =>
        if item.estimatedEnd ≤ start then searchFrom lane start fuel (middle + 1) high
        else searchFrom lane start fuel low middle
    else low

/-- The loop over `lane[low:]`, which stops at the first test that starts at or after
`stop`. -/
def scanLane (rounding : Rounding) (testID : String) (start stop : ℚ) (risk : RiskIndex) :
    ℚ × List String → List ScheduledTest → ℚ × List String
  | acc, [] => acc
  | acc, other :: rest =>
    if stop ≤ other.estimatedStart then acc
    else
      let shared := overlap start stop other.estimatedStart other.estimatedEnd
      if shared ≤ 0 then scanLane rounding testID start stop risk acc rest
      else
        let probability := risk.probability testID other.testID
        let exposure := min 1
          (rounding.round (shared / max (1 / 1000) (min (stop - start) other.estimatedDuration)))
        let reasons :=
          if 1 / 4 ≤ probability then
            let explanation :=
              match risk.prediction testID other.testID with
              | some prediction => prediction.explanation
              | none => "predicted shared-resource risk"
            acc.2 ++ [other.nodeID ++ ": " ++ formatFixed1 (probability * 100) ++ "% (" ++
              explanation ++ ")"]
          else acc.2
        let safe :=
          rounding.round (acc.1 * rounding.complement (rounding.round (probability * exposure)))
        scanLane rounding testID start stop risk (safe, reasons) rest

/-- `_placement_risk`. -/
def placementRisk (rounding : Rounding) (testID : String) (start stop : ℚ)
    (lanes : List (List ScheduledTest)) (risk : RiskIndex) (worker : ℕ) : ℚ × List String :=
  let acc := (lanes.eraseIdx worker).foldl
    (fun acc lane => scanLane rounding testID start stop risk acc
      (lane.drop (searchFrom lane start lane.length 0 lane.length)))
    (1, [])
  (rounding.complement acc.1, acc.2)

/-- `_overlapping_at`: the tests of other lanes that run at an instant. -/
def overlappingAt (lanes : List (List ScheduledTest)) (instant : ℚ) (excluded : ℕ) :
    List ScheduledTest :=
  (others lanes excluded).filter fun item =>
    item.estimatedStart ≤ instant ∧ instant < item.estimatedEnd

/-! ## Objective and refinement -/

/-- The inner loop of `_schedule_risk`. -/
def scheduleRiskAgainst (left : ScheduledTest) (risk : RiskIndex) (total : ℚ)
    (right : ScheduledTest) : ℚ :=
  if left.worker = right.worker then total
  else
    let shared := overlap left.estimatedStart left.estimatedEnd right.estimatedStart
      right.estimatedEnd
    if shared = 0 then total
    else total + risk.probability left.testID right.testID * shared

/-- The outer loop of `_schedule_risk`, with the running total. -/
def scheduleRiskFrom (risk : RiskIndex) : ℚ → List ScheduledTest → ℚ
  | total, [] => total
  | total, left :: rest =>
    scheduleRiskFrom risk (rest.foldl (scheduleRiskAgainst left risk) total) rest

/-- `_schedule_risk`. -/
def scheduleRisk (tests : List ScheduledTest) (risk : RiskIndex) : ℚ :=
  scheduleRiskFrom risk 0 tests

/-- `max((item.estimated_end for item in tests), default=0.0)`. -/
def makespan (tests : List ScheduledTest) : ℚ :=
  ((tests.map ScheduledTest.estimatedEnd).max?).getD 0

/-- `_objective`. -/
def objective (tests : List ScheduledTest) (risk : RiskIndex) (weight : ℚ) : ℚ :=
  makespan tests + weight * scheduleRisk tests risk

/-- The loop of `_reflow_lane`. -/
def reflowFrom (worker : ℤ) : ℚ → List ScheduledTest → List ScheduledTest
  | _, [] => []
  | cursor, item :: rest =>
    { item with worker := worker, estimatedStart := cursor,
                estimatedEnd := cursor + item.estimatedDuration } ::
      reflowFrom worker (cursor + item.estimatedDuration) rest

/-- `_reflow_lane`. -/
def reflowLane (lane : List ScheduledTest) (worker : ℕ) : List ScheduledTest :=
  reflowFrom worker 0 lane

/-- `lane[i], lane[i + 1] = lane[i + 1], lane[i]`. -/
def swapAdjacent : ℕ → List ScheduledTest → List ScheduledTest
  | 0, a :: b :: rest => b :: a :: rest
  | i + 1, a :: rest => a :: swapAdjacent i rest
  | _, lane => lane

/-- Swap two neighbours of one lane and reflow that lane. -/
def swapAndReflow (lanes : List (List ScheduledTest)) (worker i : ℕ) :
    List (List ScheduledTest) :=
  lanes.modify worker fun lane => reflowLane (swapAdjacent i lane) worker

/-- The variables of `_refine`. -/
structure RefineState : Type where
  lanes : List (List ScheduledTest)
  baseline : ℚ
  changed : Bool
  deriving DecidableEq

/-- The body of `_refine`: try one swap, keep it or take it back. -/
def trySwap (risk : RiskIndex) (weight : ℚ) (worker : ℕ) (s : RefineState) (i : ℕ) :
    RefineState :=
  let swapped := swapAndReflow s.lanes worker i
  let candidate := objective swapped.flatten risk weight
  if candidate + 1 / 1000000000 < s.baseline then ⟨swapped, candidate, true⟩
  else ⟨swapAndReflow swapped worker i, s.baseline, s.changed⟩

/-- The loop of `_refine` over the neighbours of one lane. -/
def refineLane (risk : RiskIndex) (weight : ℚ) (s : RefineState) (worker : ℕ) : RefineState :=
  match s.lanes[worker]? with
  | none => s
  | some lane => (List.range (lane.length - 1)).foldl (trySwap risk weight worker) s

/-- One round of `_refine`, and whether it changed anything. -/
def refineRound (lanes : List (List ScheduledTest)) (risk : RiskIndex) (weight : ℚ) :
    List (List ScheduledTest) × Bool :=
  let s := (List.range lanes.length).foldl (refineLane risk weight)
    ⟨lanes, objective lanes.flatten risk weight, false⟩
  (s.lanes, s.changed)

/-- The rounds of `_refine`, which stop early when nothing changed. -/
def refineRounds (risk : RiskIndex) (weight : ℚ) :
    ℕ → List (List ScheduledTest) → List (List ScheduledTest)
  | 0, lanes => lanes
  | rounds + 1, lanes =>
    if (refineRound lanes risk weight).2 then
      refineRounds risk weight rounds (refineRound lanes risk weight).1
    else (refineRound lanes risk weight).1

/-! ## The scheduler -/

structure ConflictScheduler : Type where
  workers : ℤ
  policy : RiskPolicy
  seed : ℤ
  params : PolicyParameters
  refinementRounds : ℤ
  deriving DecidableEq

/-- `ConflictScheduler.__init__`. -/
def ConflictScheduler.new (workers : ℤ) (policy : RiskPolicy) (seed : ℤ)
    (riskWeight hardThreshold : Option ℚ) (refinementRounds : ℤ) :
    Except Exception ConflictScheduler :=
  if workers ≤ 0 then .error ⟨.valueError, "workers must be positive"⟩
  else
    let base := policies policy
    .ok ⟨workers, policy, seed,
      ⟨riskWeight.getD base.riskWeight, hardThreshold.getD base.hardThreshold,
        base.utilizationBias, base.lookahead⟩,
      refinementRounds⟩

/-- What the interpreter contributes to one call of `static_schedule`. -/
structure Runtime : Type where
  /-- the draws of `randomizer.random()` -/
  random : ℕ → ℚ
  /-- how an operation on floats is rounded -/
  rounding : Rounding
  /-- `str(uuid.uuid4())` for the schedule -/
  scheduleUUID : String
  /-- `str(uuid.uuid4())` for the run -/
  runUUID : String
  /-- `elapsed_ms` -/
  elapsedMS : ℚ

/-- `min(iterable, key=key)`: the first element with the least key. -/
def minBy {α κ : Type} [LinearOrder κ] (key : α → κ) (items : List α) : Except Exception α :=
  match items.argmin key with
  | none => .error ⟨.valueError, "min() arg is an empty sequence"⟩
  | some item => .ok item

/-- What stays fixed while `static_schedule` places tests. -/
structure Context : Type where
  params : PolicyParameters
  risk : RiskIndex
  rounding : Rounding
  /-- `durations` -/
  durations : String → ℚ
  /-- `by_id` -/
  byID : PartialMap String TestIdentity

/-- `_placement_risk` of a test at `start`, the probability alone. -/
def Context.riskAt (ctx : Context) (lanes : List (List ScheduledTest)) (worker : ℕ) (start : ℚ)
    (testID : String) : ℚ :=
  (placementRisk ctx.rounding testID start (start + ctx.durations testID) lanes ctx.risk worker).1

/-- `_placement_cost`. -/
def Context.placementCost (ctx : Context) (lanes : List (List ScheduledTest)) (worker : ℕ)
    (start : ℚ) (testID : String) : ℚ :=
  let duration := ctx.durations testID
  let probability := ctx.riskAt lanes worker start testID
  start - ctx.params.utilizationBias * duration + ctx.params.riskWeight * probability * duration

/-- The safe candidates of the guard. -/
def Context.safeCandidates (ctx : Context) (lanes : List (List ScheduledTest)) (worker : ℕ)
    (start : ℚ) (candidates : List String) : List String :=
  candidates.filter fun candidate =>
    ctx.riskAt lanes worker start candidate < ctx.params.hardThreshold

/-- The test that a round places and when it starts: the cheapest candidate at `start`,
unless the guard takes a safe one or waits. -/
def Context.choose (ctx : Context) (lanes : List (List ScheduledTest)) (worker : ℕ) (start : ℚ)
    (candidates : List String) : Except Exception (String × ℚ) :=
  match minBy (ctx.placementCost lanes worker start) candidates with
  | .error e => .error e
  | .ok chosen =>
    let running := overlappingAt lanes start worker
    if ctx.params.hardThreshold ≤ ctx.riskAt lanes worker start chosen ∧ running ≠ [] then
      let safe := ctx.safeCandidates lanes worker start candidates
      if safe ≠ [] then
        match minBy (ctx.placementCost lanes worker start) safe with
        | .error e => .error e
        | .ok chosen => .ok (chosen, start)
      else
        match (running.map ScheduledTest.estimatedEnd).min? with
        | none => .error ⟨.valueError, "min() arg is an empty sequence"⟩
        | some nextEnd => .ok (chosen, max start nextEnd)
    else .ok (chosen, start)

/-- The scheduled test that a round appends. -/
def Context.scheduled (ctx : Context) (lanes : List (List ScheduledTest)) (worker : ℕ)
    (chosen : String) (start : ℚ) : ScheduledTest :=
  let duration := ctx.durations chosen
  let risk := placementRisk ctx.rounding chosen start (start + duration) lanes ctx.risk worker
  { testID := chosen,
    nodeID := match ctx.byID chosen with
      | some test => test.nodeID
      | none => "",
    worker := worker, estimatedStart := start, estimatedEnd := start + duration,
    estimatedDuration := duration, riskCost := risk.1, reasons := risk.2 }

/-- The loop variables of the placement loop. -/
structure Placement : Type where
  lanes : List (List ScheduledTest)
  laneEnds : List ℚ
  remaining : List String

/-- `lane_ends[i]`. -/
def Placement.laneEnd (p : Placement) (i : ℕ) : ℚ := p.laneEnds.getD i 0

/-- `min(range(self.workers), key=lambda index: (lane_ends[index], index))`. -/
def Placement.worker (p : Placement) : Except Exception ℕ :=
  minBy (fun i => toLex (p.laneEnd i, i)) (List.range p.lanes.length)

/-- One round of the placement loop. -/
def Context.place (ctx : Context) (p : Placement) : Except Exception Placement :=
  match p.worker with
  | .error e => .error e
  | .ok worker =>
    match ctx.choose p.lanes worker (p.laneEnd worker)
        (p.remaining.take ctx.params.lookahead) with
    | .error e => .error e
    | .ok (chosen, start) =>
      let scheduled := ctx.scheduled p.lanes worker chosen start
      .ok ⟨push p.lanes worker scheduled, p.laneEnds.set worker scheduled.estimatedEnd,
        p.remaining.erase chosen⟩

/-- The placement loop. Every round removes a test, so `fuel` rounds suffice when
`fuel` bounds what remains. -/
def Context.placeAll (ctx : Context) : ℕ → Placement → Except Exception Placement
  | 0, p => .ok p
  | fuel + 1, p =>
    if p.remaining = [] then .ok p
    else
      match ctx.place p with
      | .error e => .error e
      | .ok next => ctx.placeAll fuel next

/-- The loop variables with which the rounds of the placement loop start. -/
def Context.trace (ctx : Context) : ℕ → Placement → List Placement
  | 0, _ => []
  | fuel + 1, p =>
    if p.remaining = [] then []
    else
      match ctx.place p with
      | .error _ => [p]
      | .ok next => p :: ctx.trace fuel next

/-! ## static_schedule -/

/-- `max(0.001, stats.get(id, TestStats()).duration_ema)`. -/
def durationOf (stats : PartialMap String TestStats) (id : String) : ℚ :=
  max (1 / 1000) ((stats id).getD {}).durationEMA

theorem durationOf_pos (stats : PartialMap String TestStats) (id : String) :
    0 < durationOf stats id :=
  lt_max_of_lt_left (by norm_num)

/-- `{test.id: randomizer.random() for test in tests}`. -/
def drawTies (random : ℕ → ℚ) : ℕ → List TestIdentity → PartialMap String ℚ →
    PartialMap String ℚ
  | _, [], tie => tie
  | n, test :: rest, tie => drawTies random (n + 1) rest (tie.insert test.id (random n))

/-- `{test.id: test for test in tests}`. -/
def indexByID (tests : List TestIdentity) : PartialMap String TestIdentity :=
  tests.foldl (fun byID test => byID.insert test.id test) PartialMap.empty

/-- The test IDs in the order in which they are considered: longest first, then by
draw, then by ID. -/
def orderRemaining (durations : String → ℚ) (tie : PartialMap String ℚ)
    (tests : List TestIdentity) : List String :=
  ((tests.map TestIdentity.id).eraseDups).insertionSort fun a b =>
    toLex (-durations a, toLex ((tie a).getD 0, a)) ≤
      toLex (-durations b, toLex ((tie b).getD 0, b))

/-- What the placement loop of `static_schedule` starts with. -/
def ConflictScheduler.start (s : ConflictScheduler) (rt : Runtime) (tests : List TestIdentity)
    (stats : PartialMap String TestStats) (predictions : List PairPrediction) :
    Context × Placement :=
  let durations := durationOf stats
  let remaining := orderRemaining durations (drawTies rt.random 0 tests PartialMap.empty) tests
  (⟨s.params, RiskIndex.new predictions, rt.rounding, durations, indexByID tests⟩,
    ⟨List.replicate s.workers.toNat [], List.replicate s.workers.toNat 0, remaining⟩)

/-- The call of `_refine` in `static_schedule`. -/
def ConflictScheduler.refineLanes (s : ConflictScheduler) (risk : RiskIndex)
    (tests : List TestIdentity) (lanes : List (List ScheduledTest)) :
    List (List ScheduledTest) :=
  if tests.length ≤ 64 then refineRounds risk s.params.riskWeight s.refinementRounds.toNat lanes
  else lanes

/-- The key that orders the flattened plan. -/
def scheduleKey (item : ScheduledTest) : ℚ ×ₗ ℤ ×ₗ String :=
  toLex (item.estimatedStart, toLex (item.worker, item.testID))

/-- `ConflictScheduler.static_schedule`. -/
def ConflictScheduler.staticSchedule (s : ConflictScheduler) (rt : Runtime)
    (tests : List TestIdentity) (stats : PartialMap String TestStats)
    (predictions : List PairPrediction) (runID : Option String) : Except Exception Schedule :=
  let (ctx, p) := s.start rt tests stats predictions
  match ctx.placeAll p.remaining.length p with
  | .error e => .error e
  | .ok placed =>
    let lanes := s.refineLanes ctx.risk tests placed.lanes
    let flattened := lanes.flatten.insertionSort fun a b => scheduleKey a ≤ scheduleKey b
    .ok
      { id := rt.scheduleUUID,
        runID := match runID with
          | none => rt.runUUID
          | some text => if text = "" then rt.runUUID else text,
        workers := s.workers, policy := s.policy, tests := flattened,
        schedulerLatencyMS := rt.elapsedMS, expectedMakespan := makespan flattened,
        expectedRisk := scheduleRisk flattened ctx.risk, seed := s.seed }

end ConflictGraph.Py
