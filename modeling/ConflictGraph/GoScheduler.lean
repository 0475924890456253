import Mathlib.Data.List.Sort
import Mathlib.Order.WithBot
import ConflictGraph.Interval
import ConflictGraph.Rounding
import ConflictGraph.GoTypes

/-!
# The Go scheduler

`Scheduler.Build` and the functions it calls, as `scheduler.go` computes them.
`Build` places every test on a lane by list scheduling under conflict costs,
delays a placement whose risk reaches the hard threshold, refines small plans by
adjacent swaps, and flattens the lanes into a schedule.

The source leaves three things to the Go runtime: the order in which a map is
iterated, which of the sorted permutations `sort.Slice` returns, and the draws of
`math/rand`. They are the fields of `Runtime`, with what the language promises
about them, and every theorem quantifies over them. So is the rounding of `float64`,
which decides whether the risk of a placement reaches a threshold: each operation on
chances is rounded. Instants and objectives, which are only added and compared, stay
exact.
-/

namespace ConflictGraph.Go

/-! ## Parameters and the risk index -/

structure Parameters : Type where
  riskWeight : ℚ
  hardThreshold : ℚ
  utilizationBias : ℚ
  lookahead : ℕ
  refinementRounds : ℕ
  deriving DecidableEq

/-- `ParametersFor`. -/
def parametersFor : RiskPolicy → Parameters
  | .aggressive => ⟨55 / 100, 985 / 1000, 3 / 2, 8, 2⟩
  | .safe => ⟨15 / 2, 68 / 100, 1 / 2, 32, 6⟩
  | _ => ⟨2, 90 / 100, 1, 16, 4⟩

structure RiskIndex : Type where
  predictions : PartialMap String Prediction

/-- One iteration of the loop in `NewRiskIndex`: a prediction replaces the one
stored for its pair only if its probability is larger. -/
def RiskIndex.add (index : RiskIndex) (prediction : Prediction) : RiskIndex :=
  let key := pairKey prediction.testA prediction.testB
  match index.predictions key with
  | none => ⟨index.predictions.insert key prediction⟩
  | some current =>
    if current.probability < prediction.probability then
      ⟨index.predictions.insert key prediction⟩
    else index

/-- The loop of `NewRiskIndex` over the predictions not looked at yet. -/
def addPredictions : RiskIndex → List Prediction → Except String RiskIndex
  | index, [] => .ok index
  | index, prediction :: rest =>
    match prediction.normalize with
    | .error text => .error text
    | .ok normalized => addPredictions (index.add normalized) rest

/-- `NewRiskIndex`. -/
def newRiskIndex (predictions : List Prediction) : Except String RiskIndex :=
  addPredictions ⟨PartialMap.empty⟩ predictions

/-- `RiskIndex.Probability`. -/
def RiskIndex.probability (risk : RiskIndex) (a b : String) : ℚ :=
  if a = b then 1
  else
    match risk.predictions (pairKey a b) with
    | none => 0
    | some prediction => prediction.probability

/-! ## Lanes -/

/-- The tests of one worker in order, and the instant the worker becomes free. -/
structure Lane : Type where
  tests : List ScheduledTest
  endAt : ℚ
  deriving DecidableEq

/-- The tests on the lanes of the other workers, lane by lane: what the nested
loops of `placementRisk` and `earliestConflictingEnd` range over. -/
def otherTests (lanes : List Lane) (worker : ℕ) : List ScheduledTest :=
  (lanes.eraseIdx worker).flatMap Lane.tests

/-- `lanes[i].end`, zero outside the slice. -/
def laneEnd (lanes : List Lane) (i : ℕ) : ℚ :=
  match lanes[i]? with
  | none => 0
  | some lane => lane.endAt

/-- `earliestLane`. -/
def earliestLane (lanes : List Lane) : ℕ :=
  (List.range' 1 (lanes.length - 1)).foldl
    (fun best i => if laneEnd lanes i < laneEnd lanes best then i else best) 0

/-! ## Placement risk -/

/-- One iteration of `placementRisk` for a test of another lane. -/
def placementRiskStep (rounding : Rounding) (testID : String) (start stop : ℚ) (risk : RiskIndex)
    (acc : ℚ × List String) (other : ScheduledTest) : ℚ × List String :=
  let shared := overlap start stop other.estimatedStart other.estimatedEnd
  if shared = 0 then acc
  else
    let probability := risk.probability testID other.testID
    let exposure := min 1
      (rounding.round (shared / max (1 / 1000) (min (stop - start) other.estimatedDuration)))
    let reasons :=
      if 1 / 4 ≤ probability then
        acc.2 ++ [other.nodeID ++ ": " ++ formatFixed1 (probability * 100) ++ "% conflict risk"]
      else acc.2
    (rounding.round (acc.1 * rounding.complement (rounding.round (probability * exposure))),
      reasons)

/-- `placementRisk`: the aggregated risk of running a test during `[start, stop)`
beside the tests of the other lanes, and the reasons for it. -/
def placementRisk (rounding : Rounding) (testID : String) (start stop : ℚ) (lanes : List Lane)
    (worker : ℕ) (risk : RiskIndex) : ℚ × List String :=
  let acc :=
    (otherTests lanes worker).foldl (placementRiskStep rounding testID start stop risk) (1, [])
  (rounding.complement acc.1, acc.2)

/-- The tests that make `earliestConflictingEnd` report an end: those of other
lanes that run at `now` and whose risk reaches the threshold. -/
def runningConflicts (testID : String) (now : ℚ) (lanes : List Lane) (worker : ℕ)
    (risk : RiskIndex) (threshold : ℚ) : List ScheduledTest :=
  (otherTests lanes worker).filter fun other =>
    other.estimatedStart ≤ now ∧ now < other.estimatedEnd ∧
      threshold ≤ risk.probability testID other.testID

/-- `earliestConflictingEnd`: `none` when nothing was found. -/
def earliestConflictingEnd (testID : String) (now : ℚ) (lanes : List Lane) (worker : ℕ)
    (risk : RiskIndex) (threshold : ℚ) : Option ℚ :=
  (runningConflicts testID now lanes worker risk threshold).foldl
    (fun best other =>
      match best with
      | none => some other.estimatedEnd
      | some e => some (min e other.estimatedEnd))
    none

/-! ## Objective and refinement -/

/-- The inner loop of `scheduleRisk`: the pairs of one test with the later ones. -/
def scheduleRiskAgainst (left : ScheduledTest) (risk : RiskIndex) (total : ℚ)
    (right : ScheduledTest) : ℚ :=
  if left.worker = right.worker then total
  else
    total + overlap left.estimatedStart left.estimatedEnd right.estimatedStart
      right.estimatedEnd * risk.probability left.testID right.testID

/-- The outer loop of `scheduleRisk`, with the running total. -/
def scheduleRiskFrom (risk : RiskIndex) : ℚ → List ScheduledTest → ℚ
  | total, [] => total
  | total, left :: rest =>
    scheduleRiskFrom risk (rest.foldl (scheduleRiskAgainst left risk) total) rest

/-- `scheduleRisk`. -/
def scheduleRisk (tests : List ScheduledTest) (risk : RiskIndex) : ℚ :=
  scheduleRiskFrom risk 0 tests

/-- The makespan loop that `objective` and `Build` share. -/
def makespan (lanes : List Lane) : ℚ := lanes.foldl (fun span lane => max span lane.endAt) 0

/-- `objective`. -/
def objective (lanes : List Lane) (risk : RiskIndex) (weight : ℚ) : ℚ :=
  makespan lanes + weight * scheduleRisk (lanes.flatMap Lane.tests) risk

/-- The loop of `reflow`: tests back to back from the cursor on. -/
def reflowFrom (worker : ℤ) : ℚ → List ScheduledTest → List ScheduledTest × ℚ
  | cursor, [] => ([], cursor)
  | cursor, test :: rest =>
    let next := cursor + test.estimatedDuration
    let (tests, stop) := reflowFrom worker next rest
    ({ test with worker := worker, estimatedStart := cursor, estimatedEnd := next } :: tests, stop)

/-- `reflow`. -/
def reflow (target : Lane) (worker : ℕ) : Lane :=
  let (tests, stop) := reflowFrom worker 0 target.tests
  ⟨tests, stop⟩

/-- `tests[i], tests[i+1] = tests[i+1], tests[i]`. -/
def swapAdjacent : ℕ → List ScheduledTest → List ScheduledTest
  | 0, a :: b :: rest => b :: a :: rest
  | i + 1, a :: rest => a :: swapAdjacent i rest
  | _, tests => tests

/-- Swap two neighbours of one lane and reflow that lane. -/
def swapAndReflow (lanes : List Lane) (worker i : ℕ) : List Lane :=
  lanes.modify worker fun lane => reflow { lane with tests := swapAdjacent i lane.tests } worker

/-- The variables of `refine`. -/
structure RefineState : Type where
  lanes : List Lane
  baseline : ℚ
  changed : Bool
  deriving DecidableEq

/-- The body of `refine`: try one swap, keep it or take it back. -/
def trySwap (risk : RiskIndex) (weight : ℚ) (worker : ℕ) (s : RefineState) (i : ℕ) :
    RefineState :=
  let swapped := swapAndReflow s.lanes worker i
  let candidate := objective swapped risk weight
  if candidate + 1 / 1000000000 < s.baseline then ⟨swapped, candidate, true⟩
  else ⟨swapAndReflow swapped worker i, s.baseline, s.changed⟩

/-- The inner loop of `refine`, over the neighbours of one lane. -/
def refineLane (risk : RiskIndex) (weight : ℚ) (s : RefineState) (worker : ℕ) : RefineState :=
  match s.lanes[worker]? with
  | none => s
  | some lane => (List.range (lane.tests.length - 1)).foldl (trySwap risk weight worker) s

/-- `refine`: one round of swaps, and whether it changed anything. -/
def refine (lanes : List Lane) (risk : RiskIndex) (weight : ℚ) : List Lane × Bool :=
  let s := (List.range lanes.length).foldl (refineLane risk weight)
    ⟨lanes, objective lanes risk weight, false⟩
  (s.lanes, s.changed)

/-- The rounds of refinement in `Build`, which stop early when nothing changed. -/
def refineRounds (risk : RiskIndex) (weight : ℚ) : ℕ → List Lane → List Lane
  | 0, lanes => lanes
  | rounds + 1, lanes =>
    if (refine lanes risk weight).2 then
      refineRounds risk weight rounds (refine lanes risk weight).1
    else (refine lanes risk weight).1

/-! ## What the Go runtime contributes -/

/-- `less` orders its arguments the way `sort.Slice` requires. -/
structure StrictOrder {α : Type} (less : α → α → Bool) : Prop where
  irrefl : ∀ a, less a a = false
  trans : ∀ a b c, less a b → less b c → less a c
  /-- incomparability is transitive -/
  incomparable : ∀ a b c, less a b = false → less b c = false → less a c = false

/-- The choices that the source leaves to the Go runtime in one call of `Build`. -/
structure Runtime : Type 1 where
  /-- `sort.Slice` -/
  sortSlice : {α : Type} → (α → α → Bool) → List α → List α
  /-- sorting rearranges -/
  sortSlice_perm : ∀ {α : Type} (less : α → α → Bool) (xs : List α), (sortSlice less xs).Perm xs
  /-- nothing in the result belongs before something that precedes it -/
  sortSlice_sorted : ∀ {α : Type} {less : α → α → Bool}, StrictOrder less → ∀ xs : List α,
    (sortSlice less xs).Pairwise fun a b => less b a = false
  /-- the order in which `remaining` is iterated in each round -/
  mapOrder : ℕ → List Test → List Test
  /-- iteration visits every entry once -/
  mapOrder_perm : ∀ n tests, (mapOrder n tests).Perm tests
  /-- the draws of `randomizer.Float64()` -/
  float64 : ℕ → ℚ
  /-- how an operation on `float64` is rounded -/
  rounding : Rounding
  /-- `uuid.NewString()` for the run -/
  runUUID : String
  runUUID_ne : runUUID ≠ ""
  /-- `uuid.NewString()` for the schedule -/
  scheduleUUID : String
  scheduleUUID_ne : scheduleUUID ≠ ""
  /-- the measured latency -/
  latencyMS : ℚ

/-- Insertion sort is a `sort.Slice`. -/
theorem insertionSort_sorted {α : Type} {less : α → α → Bool} (hless : StrictOrder less)
    (xs : List α) :
    (xs.insertionSort fun a b => less b a = false).Pairwise fun a b => less b a = false := by
  have htotal : Std.Total fun a b : α => less b a = false := ⟨fun a b => by
    by_contra h
    rw [not_or, Bool.not_eq_false, Bool.not_eq_false] at h
    have hself := hless.trans a b a h.2 h.1
    rw [hless.irrefl a] at hself
    cases hself⟩
  have htrans : IsTrans α fun a b => less b a = false :=
    ⟨fun a b c hab hbc => hless.incomparable c b a hbc hab⟩
  exact List.pairwise_insertionSort _ xs

/-- One runtime among the many the language permits: it sorts by insertion, visits
maps in insertion order, draws `1/2, 1/3, …`, and computes exactly. -/
def Runtime.reference : Runtime where
  sortSlice less xs := xs.insertionSort fun a b => less b a = false
  sortSlice_perm _ _ := List.perm_insertionSort ..
  sortSlice_sorted hless xs := insertionSort_sorted hless xs
  mapOrder _ tests := tests
  mapOrder_perm _ _ := List.Perm.refl _
  float64 n := 1 / (n + 2)
  rounding := .exact
  runUUID := "run"
  runUUID_ne := by decide
  scheduleUUID := "schedule"
  scheduleUUID_ne := by decide
  latencyMS := 0

/-! ## Placement -/

structure Scheduler : Type where
  workers : ℤ
  policy : RiskPolicy
  seed : ℤ
  parameters : Parameters
  deriving DecidableEq

/-- `New`. -/
def Scheduler.new (workers : ℤ) (policy : RiskPolicy) (seed : ℤ) : Except String Scheduler :=
  if workers ≤ 0 then .error "worker count must be positive"
  else if policy.valid = false then .error ("invalid risk policy " ++ policy.text.quote)
  else .ok ⟨workers, policy, seed, parametersFor policy⟩

/-- What stays fixed while `Build` places tests. -/
structure Context : Type 1 where
  parameters : Parameters
  risk : RiskIndex
  tie : PartialMap String ℚ
  runtime : Runtime

/-- `tie[id]`. -/
def Context.tieOf (ctx : Context) (id : String) : ℚ := (ctx.tie id).getD 0

/-- The comparison that sorts the candidates: longest first, ties by draw. -/
def Context.candidateLess (ctx : Context) (a b : Test) : Bool :=
  if a.durationEMA = b.durationEMA then ctx.tieOf a.id < ctx.tieOf b.id
  else b.durationEMA < a.durationEMA

/-- The candidates of one round: `remaining` in some order, sorted, cut. -/
def Context.candidates (ctx : Context) (round : ℕ) (remaining : List Test) : List Test :=
  let candidates :=
    ctx.runtime.sortSlice ctx.candidateLess (ctx.runtime.mapOrder round remaining)
  if ctx.parameters.lookahead < candidates.length then
    candidates.take ctx.parameters.lookahead
  else candidates

/-- `placementRisk` of a test from `start` on. -/
def Context.riskAt (ctx : Context) (lanes : List Lane) (worker : ℕ) (start : ℚ) (test : Test) :
    ℚ × List String :=
  placementRisk ctx.runtime.rounding test.id start (start + test.durationEMA) lanes worker ctx.risk

/-- The cost of placing a candidate at `start`. -/
def Context.cost (ctx : Context) (lanes : List Lane) (worker : ℕ) (start : ℚ) (candidate : Test) :
    ℚ :=
  let probability := (ctx.riskAt lanes worker start candidate).1
  let cost := start - ctx.parameters.utilizationBias * candidate.durationEMA +
    ctx.parameters.riskWeight * probability * candidate.durationEMA
  if ctx.parameters.hardThreshold ≤ probability then cost + 1000 else cost

/-- The loop that picks the first candidate of least cost; `⊤` is `math.Inf(1)`. -/
def pickBest (cost : Test → ℚ) (first : Test) (candidates : List Test) : Test :=
  (candidates.foldl
    (fun (best : Test × WithTop ℚ) candidate =>
      if (cost candidate : WithTop ℚ) < best.2 then (candidate, (cost candidate : WithTop ℚ))
      else best)
    (first, (⊤ : WithTop ℚ))).1

/-- Where a placement starts: at the end of the worker's lane, or, if the risk
there reaches the hard threshold, at the earliest end of a conflicting test. -/
def Context.startFor (ctx : Context) (lanes : List Lane) (worker : ℕ) (start : ℚ) (best : Test) :
    ℚ :=
  if ctx.parameters.hardThreshold ≤ (ctx.riskAt lanes worker start best).1 then
    match earliestConflictingEnd best.id start lanes worker ctx.risk
        ctx.parameters.hardThreshold with
    | none => start
    | some next => next
  else start

/-- The scheduled test that a placement appends. -/
def Context.scheduled (ctx : Context) (lanes : List Lane) (worker : ℕ) (start : ℚ) (best : Test) :
    ScheduledTest :=
  let begin := ctx.startFor lanes worker start best
  let risk := ctx.riskAt lanes worker begin best
  { testID := best.id, nodeID := best.nodeID, worker := worker,
    estimatedStart := begin, estimatedEnd := begin + best.durationEMA,
    estimatedDuration := best.durationEMA, riskCost := risk.1, reasons := risk.2 }

/-- The loop variables of the placement loop. -/
structure Placement : Type where
  lanes : List Lane
  remaining : List Test

/-- Append a scheduled test to a worker's lane. -/
def appendTo (lanes : List Lane) (worker : ℕ) (test : ScheduledTest) : List Lane :=
  lanes.modify worker fun lane => ⟨lane.tests ++ [test], test.estimatedEnd⟩

/-- The test that the round places: the cheapest candidate for the worker that is
free first. -/
def Context.chosen (ctx : Context) (round : ℕ) (p : Placement) : Option Test :=
  match ctx.candidates round p.remaining with
  | [] => none
  | first :: rest =>
    let worker := earliestLane p.lanes
    some (pickBest (ctx.cost p.lanes worker (laneEnd p.lanes worker)) first (first :: rest))

/-- One round of the placement loop. -/
def Context.place (ctx : Context) (round : ℕ) (p : Placement) : Except Failure Placement :=
  let worker := earliestLane p.lanes
  match p.lanes[worker]? with
  | none => .error (.panic "index out of range")
  | some lane =>
    match ctx.chosen round p with
    | none => .error (.panic "index out of range")
    | some best =>
      .ok ⟨appendTo p.lanes worker (ctx.scheduled p.lanes worker lane.endAt best),
        p.remaining.filter fun test => test.id ≠ best.id⟩

/-- The placement loop. Every round removes a test, so `fuel` rounds suffice when
`fuel` bounds what remains. -/
def Context.placeAll (ctx : Context) : ℕ → ℕ → Placement → Except Failure Placement
  | 0, _, p => .ok p
  | fuel + 1, round, p =>
    if p.remaining = [] then .ok p
    else
      match ctx.place round p with
      | .error failure => .error failure
      | .ok next => ctx.placeAll fuel (round + 1) next

/-- The rounds of the placement loop, each with the loop variables it starts from. -/
def Context.trace (ctx : Context) : ℕ → ℕ → Placement → List (ℕ × Placement)
  | 0, _, _ => []
  | fuel + 1, round, p =>
    if p.remaining = [] then []
    else
      match ctx.place round p with
      | .error _ => [(round, p)]
      | .ok next => (round, p) :: ctx.trace fuel (round + 1) next

/-! ## Build -/

/-- `if test.DurationEMA <= 0 { test.DurationEMA = 1 }`. -/
def Test.withDefaultDuration (t : Test) : Test :=
  if t.durationEMA ≤ 0 then { t with durationEMA := 1 } else t

/-- The first loop of `Build`: check the tests, give a default duration, draw ties. -/
def intake (draw : ℕ → ℚ) :
    ℕ → List Test → List Test → PartialMap String ℚ →
      Except String (List Test × PartialMap String ℚ)
  | _, [], remaining, tie => .ok (remaining, tie)
  | n, test :: rest, remaining, tie =>
    match test.validate with
    | .error text => .error s!"invalid test {test.id}: {text}"
    | .ok () =>
      if remaining.any fun other => other.id = test.id then
        .error s!"duplicate test ID {test.id}"
      else
        intake draw (n + 1) rest (remaining ++ [test.withDefaultDuration])
          (tie.insert test.id (draw n))

/-- The comparison that orders the flattened plan. -/
def startLess (a b : ScheduledTest) : Bool :=
  if a.estimatedStart = b.estimatedStart then a.worker < b.worker
  else a.estimatedStart < b.estimatedStart

/-- The lanes after the placement loop of `Build`. -/
def Scheduler.place (s : Scheduler) (rt : Runtime) (risk : RiskIndex) (tests : List Test) :
    Except Failure (List Lane) :=
  match intake rt.float64 0 tests [] PartialMap.empty with
  | .error text => .error (.error text)
  | .ok (remaining, tie) =>
    if s.workers < 0 then .error (.panic "makeslice: len out of range")
    else
      let lanes := List.replicate s.workers.toNat (Lane.mk [] 0)
      match (Context.mk s.parameters risk tie rt).placeAll remaining.length 0 ⟨lanes, remaining⟩
      with
      | .error failure => .error failure
      | .ok p => .ok p.lanes

/-- The refinement phase of `Build`. -/
def Scheduler.refineLanes (s : Scheduler) (risk : RiskIndex) (tests : List Test)
    (lanes : List Lane) : List Lane :=
  if tests.length ≤ 64 then
    refineRounds risk s.parameters.riskWeight s.parameters.refinementRounds lanes
  else lanes

/-- The schedule that `Build` makes of its lanes. -/
def Scheduler.result (s : Scheduler) (rt : Runtime) (runID : String) (risk : RiskIndex)
    (lanes : List Lane) : Schedule :=
  let flattened := rt.sortSlice startLess (lanes.flatMap Lane.tests)
  { id := rt.scheduleUUID, runID := if runID = "" then rt.runUUID else runID,
    workers := s.workers, policy := s.policy, tests := flattened,
    schedulerLatencyMS := rt.latencyMS, expectedMakespan := makespan lanes,
    expectedRisk := scheduleRisk flattened risk, seed := s.seed }

/-- `Scheduler.Build`. -/
def Scheduler.build (s : Scheduler) (rt : Runtime) (runID : String) (tests : List Test)
    (predictions : List Prediction) : Except Failure Schedule :=
  match newRiskIndex predictions with
  | .error text => .error (.error text)
  | .ok risk =>
    match s.place rt risk tests with
    | .error failure => .error failure
    | .ok placed =>
      let result := s.result rt runID risk (s.refineLanes risk tests placed)
      match result.validate with
      | .error text => .error (.error text)
      | .ok () => .ok result

end ConflictGraph.Go
