import Mathlib.Algebra.BigOperators.Group.Finset.Basic
import Mathlib.Data.Finset.Sort
import Mathlib.Data.List.Lex
import Mathlib.Order.Defs.LinearOrder
import ConflictGraph.PartialMap
import ConflictGraph.PyTracing
import ConflictGraph.PyTypes

/-!
# The test-resource graph

`TestResourceGraph` of `graph.py`: `from_events` aggregates the events of a trace by test and
resource, and `pair_features` compares what two tests did to the resources they share. A
`dict` is its lookup function, a `defaultdict(set)` a function to finite sets.
-/

namespace ConflictGraph.Py

/-! ## Identities -/

/-- The value of a member. -/
def ResourceType.value : ResourceType → Str
  | .file => str "FILE"
  | .directory => str "DIRECTORY"
  | .tcpEndpoint => str "TCP_ENDPOINT"
  | .udpEndpoint => str "UDP_ENDPOINT"
  | .unixSocket => str "UNIX_SOCKET"
  | .fileLock => str "FILE_LOCK"
  | .process => str "PROCESS"
  | .redisKey => str "REDIS_KEY"
  | .databaseResource => str "DATABASE_RESOURCE"
  | .otherLogicalResource => str "OTHER_LOGICAL_RESOURCE"

structure ResourceIdentity : Type where
  id : Str
  type : ResourceType
  identifier : Str
  redacted : Bool := false
  deriving DecidableEq

/-- `ResourceIdentity.create` of an identifier that can be encoded; `sha256` is
`hashlib.sha256(text.encode()).hexdigest()`. -/
def ResourceIdentity.of (sha256 : Str → Str) (kind : ResourceType) (identifier : Str) :
    ResourceIdentity :=
  ⟨str "res_" ++ (sha256 (kind.value ++ 0 :: identifier)).take 24, kind, identifier, false⟩

/-- `ResourceIdentity.create`, which raises a `UnicodeEncodeError` on a surrogate. -/
def ResourceIdentity.create (sha256 : Str → Str) (kind : ResourceType) (identifier : Str) :
    Except ExceptionType ResourceIdentity :=
  if Str.encodable identifier then .ok (.of sha256 kind identifier) else .error .valueError

/-- A `TestIdentity`, with the texts of a trace. -/
structure TestNode : Type where
  id : Str
  nodeID : Str
  repository : Str := str "local"
  suite : Str := str "pytest"
  framework : Str := str "pytest"
  testFile : Str := []
  testClass : Str := []
  testFunction : Str := []
  parameters : Str := []
  sourceRevision : Str := str "unknown"
  deriving DecidableEq

/-! ## Edges -/

/-- `is_mutating`. -/
def isMutating (operation : Operation) (mode : AccessMode) : Bool :=
  operation ∈ [Operation.write, .create, .delete, .rename, .bind, .lock] ||
    mode ∈ [AccessMode.write, .exclusive]

structure AccessAggregate : Type where
  testID : Str
  resource : ResourceIdentity
  /-- a `Counter` -/
  counts : Operation → ℕ := fun _ => 0
  modes : Finset AccessMode := ∅
  firstNS : ℤ := 0
  lastNS : ℤ := 0
  sources : Finset EventSource := ∅
  executionIDs : Finset Str := ∅

/-- The new `first_ns`: zero stands for "not set". -/
def earlier (first timestamp : ℤ) : ℤ := if first = 0 then timestamp else min first timestamp

/-- `AccessAggregate.observe`. -/
def AccessAggregate.observe (a : AccessAggregate) (event : TraceEvent) : AccessAggregate :=
  { a with
    counts := fun operation =>
      a.counts operation + if event.operation = operation then 1 else 0
    modes := insert event.accessMode a.modes
    firstNS := earlier a.firstNS event.timestampNS
    lastNS := max a.lastNS event.timestampNS
    sources := insert event.source a.sources
    executionIDs := insert event.executionID a.executionIDs }

/-- The operations, in the order of the enumeration. -/
def Operation.all : List Operation := Operation.values.map Prod.snd

/-- `set(counts)`. -/
def AccessAggregate.operations (a : AccessAggregate) : List Operation :=
  Operation.all.filter fun operation => a.counts operation ≠ 0

/-- `AccessAggregate.total`. -/
def AccessAggregate.total (a : AccessAggregate) : ℕ := (Operation.all.map a.counts).sum

/-- `AccessAggregate.mutating`. -/
def AccessAggregate.mutating (a : AccessAggregate) : Bool :=
  a.operations.any fun operation => decide (∃ mode ∈ a.modes, isMutating operation mode = true)

/-! ## The graph -/

@[ext]
structure TestResourceGraph : Type where
  tests : PartialMap Str TestNode
  resources : PartialMap Str ResourceIdentity
  edges : PartialMap (Str × Str) AccessAggregate
  testResources : Str → Finset Str
  resourceTests : Str → Finset Str
  testStats : Str → TestStats
  pairHistory : PartialMap (Str × Str) (ℤ × ℤ)

namespace TestResourceGraph

/-- The graph after `add_test` of the given tests, without statistics. -/
def ofTests (tests : List TestNode) : TestResourceGraph :=
  ⟨tests.foldl (fun known test => known.insert test.id test) PartialMap.empty, PartialMap.empty,
    PartialMap.empty, fun _ => ∅, fun _ => ∅, fun _ => {}, PartialMap.empty⟩

/-- What `add_event` does once it has the resource. -/
def record (g : TestResourceGraph) (resource : ResourceIdentity) (event : TraceEvent) :
    TestResourceGraph :=
  let key := (event.testID, resource.id)
  let aggregate := (g.edges key).getD { testID := event.testID, resource := resource }
  { g with
    tests := if (g.tests event.testID).isSome then g.tests
      else g.tests.insert event.testID { id := event.testID, nodeID := event.testID }
    resources := g.resources.insert resource.id resource
    edges := g.edges.insert key (aggregate.observe event)
    testResources := Function.update g.testResources event.testID
      (insert resource.id (g.testResources event.testID))
    resourceTests := Function.update g.resourceTests resource.id
      (insert event.testID (g.resourceTests resource.id)) }

/-- `add_event`. -/
def addEvent (sha256 : Str → Str) (g : TestResourceGraph) (event : TraceEvent) :
    Except ExceptionType TestResourceGraph :=
  (ResourceIdentity.create sha256 event.resourceType event.resourceIdentifier).map fun resource =>
    g.record resource event

/-- What the edge of a test and one of its resources contributes to a sum. -/
def edgeSum (g : TestResourceGraph) (testID : Str) (value : AccessAggregate → ℕ) : ℕ :=
  ∑ resourceID ∈ g.testResources testID,
    match g.edges (testID, resourceID) with
    | some edge => value edge
    -- not reached: a resource of a test has its edge
    | none => 0

/-- `_refresh_stats`. -/
def refreshStats (g : TestResourceGraph) : TestResourceGraph :=
  { g with
    testStats := fun testID =>
      if g.testResources testID = ∅ then g.testStats testID
      else
        let total := g.edgeSum testID AccessAggregate.total
        let mutating := g.edgeSum testID fun edge => if edge.mutating then edge.total else 0
        { g.testStats testID with
          resourceCount := (g.testResources testID).card
          writeRatio := if total = 0 then 0 else mutating / total } }

/-- `from_events`. -/
def fromEvents (sha256 : Str → Str) (tests : List TestNode) (events : List TraceEvent) :
    Except ExceptionType TestResourceGraph :=
  (events.foldlM (addEvent sha256) (ofTests tests)).map refreshStats

end TestResourceGraph

/-! ## Pairs -/

/-- The value of a member. -/
def Operation.value (operation : Operation) : Str :=
  match Operation.values.find? fun entry => entry.2 = operation with
  | some entry => str entry.1
  | none => []

/-- One resource that two tests share. -/
structure SharedResource : Type where
  left : AccessAggregate
  right : AccessAggregate
  resource : ResourceIdentity
  /-- how many tests use it -/
  users : ℕ

namespace SharedResource

variable (s : SharedResource)

/-- Both tests did the operation. -/
def both (operation : Operation) : Bool :=
  operation ∈ s.left.operations && operation ∈ s.right.operations

/-- The first did one thing and the second read, or the other way round. -/
def againstRead (left right : Bool) : Bool :=
  (left && Operation.read ∈ s.right.operations) || (right && Operation.read ∈ s.left.operations)

/-- `rarity`. -/
def rarity : ℚ := 1 / max 1 s.users

/-- The share of the common envelope in which both tests use the resource. -/
def overlap : ℚ :=
  let start := max s.left.firstNS s.right.firstNS
  let stop := min s.left.lastNS s.right.lastNS
  let envelope := max s.left.lastNS s.right.lastNS - min s.left.firstNS s.right.firstNS
  if envelope = 0 then 0 else (max 0 (stop - start) : ℤ) / envelope

/-- `resource.type == DATABASE_RESOURCE or resource.identifier.endswith(...)`. -/
def isDatabase : Bool :=
  s.resource.type = .databaseResource ||
    [str ".db", str ".sqlite", str ".sqlite3"].any fun finish =>
      Str.endsWith s.resource.identifier finish

end SharedResource

/-- An entry of `PairFeatures.evidence`. -/
structure Evidence : Type where
  resourceID : Str
  resource : Str
  type : ResourceType
  operationsA : List Str
  operationsB : List Str
  rarity : ℚ
  deriving DecidableEq

structure PairFeatures : Type where
  testA : Str
  testB : Str
  sharedResources : ℕ
  sharedFiles : ℕ
  sharedWrites : ℕ
  readWrite : ℕ
  writeWrite : ℕ
  createCreate : ℕ
  deleteRead : ℕ
  sharedBind : ℕ
  sharedLocks : ℕ
  sharedRedisWrites : ℕ
  sharedUnixSockets : ℕ
  sharedDatabases : ℕ
  resourceJaccard : ℚ
  minimumRarity : ℚ
  meanRarity : ℚ
  durationA : ℚ
  durationB : ℚ
  failureRateA : ℚ
  failureRateB : ℚ
  historicalConcurrency : ℤ
  historicalCofailures : ℤ
  temporalOverlap : ℚ
  evidence : List Evidence
  deriving DecidableEq

/-- `PairFeatures.vector`. -/
def PairFeatures.vector (f : PairFeatures) : List ℚ :=
  [f.sharedResources, f.sharedFiles, f.sharedWrites, f.readWrite, f.writeWrite, f.createCreate,
    f.deleteRead, f.sharedBind, f.sharedLocks, f.sharedRedisWrites, f.sharedUnixSockets,
    f.sharedDatabases, f.resourceJaccard, f.minimumRarity, f.meanRarity, f.durationA, f.durationB,
    f.failureRateA, f.failureRateB, f.historicalConcurrency, f.historicalCofailures,
    f.temporalOverlap]

/-- `sorted` of a set of strings. However the set lists them, the result is the same. -/
def sortedIDs (ids : Finset Str) : List Str :=
  Quot.liftOn ids.val (·.insertionSort (· ≤ ·)) fun _ _ h =>
    ((List.perm_insertionSort _ _).trans
        (h.trans (List.perm_insertionSort _ _).symm)).eq_of_pairwise'
      (List.pairwise_insertionSort _ _) (List.pairwise_insertionSort _ _)

/-- It is how Mathlib sorts a set. -/
theorem sortedIDs_eq_sort (ids : Finset Str) : sortedIDs ids = ids.sort (· ≤ ·) := by
  obtain ⟨⟨ids⟩, hnodup⟩ := ids
  exact (List.mergeSort_eq_insertionSort (· ≤ ·) ids).symm

theorem mem_sortedIDs {ids : Finset Str} {id : Str} : id ∈ sortedIDs ids ↔ id ∈ ids := by
  rw [sortedIDs_eq_sort, Finset.mem_sort]

theorem sortedIDs_pairwise (ids : Finset Str) : (sortedIDs ids).Pairwise (· < ·) := by
  rw [sortedIDs_eq_sort]
  exact (Finset.sortedLT_sort ids).pairwise

theorem nodup_sortedIDs (ids : Finset Str) : (sortedIDs ids).Nodup :=
  (sortedIDs_pairwise ids).imp fun h => h.ne

theorem length_sortedIDs (ids : Finset Str) : (sortedIDs ids).length = ids.card := by
  rw [sortedIDs_eq_sort, Finset.length_sort]

/-- `sorted(op.value for op in operations)`. -/
def sortedValues (operations : List Operation) : List Str :=
  (operations.map Operation.value).insertionSort (· ≤ ·)

/-- The mean of a list, zero when it is empty. -/
def meanOrZero (values : List ℚ) : ℚ := if values = [] then 0 else values.sum / values.length

namespace TestResourceGraph

/-- The lookups of `pair_features` for one shared resource. -/
def shared (g : TestResourceGraph) (testA testB resourceID : Str) :
    Except ExceptionType SharedResource :=
  match g.edges (testA, resourceID), g.edges (testB, resourceID), g.resources resourceID with
  | some left, some right, some resource =>
    .ok ⟨left, right, resource, (g.resourceTests resourceID).card⟩
  | _, _, _ => .error .keyError

/-- `pair_features`. -/
def pairFeatures (g : TestResourceGraph) (testA testB : Str) :
    Except ExceptionType PairFeatures := do
  let (a, b) := if testA ≤ testB then (testA, testB) else (testB, testA)
  let left := g.testResources a
  let right := g.testResources b
  let shared ← (sortedIDs (left ∩ right)).mapM (g.shared a b)
  let statsA := g.testStats a
  let statsB := g.testStats b
  let history := (g.pairHistory (a, b)).getD (0, 0)
  return {
    testA := a
    testB := b
    sharedResources := shared.length
    sharedFiles := shared.countP fun s => s.resource.type ∈ [ResourceType.file, .directory]
    sharedWrites := shared.countP fun s => s.left.mutating || s.right.mutating
    readWrite := shared.countP fun s => s.againstRead s.left.mutating s.right.mutating
    writeWrite := shared.countP fun s => s.left.mutating && s.right.mutating
    createCreate := shared.countP fun s => s.both .create
    deleteRead := shared.countP fun s =>
      s.againstRead (.delete ∈ s.left.operations) (.delete ∈ s.right.operations)
    sharedBind := shared.countP fun s => s.both .bind
    sharedLocks := shared.countP fun s => s.both .lock
    sharedRedisWrites := shared.countP fun s =>
      s.resource.type = .redisKey && s.left.mutating && s.right.mutating
    sharedUnixSockets := shared.countP fun s => s.resource.type = .unixSocket
    sharedDatabases := shared.countP SharedResource.isDatabase
    resourceJaccard :=
      if left ∪ right = ∅ then 0 else (shared.length : ℚ) / (left ∪ right).card
    minimumRarity := ((shared.map SharedResource.rarity).min?).getD 0
    meanRarity := meanOrZero (shared.map SharedResource.rarity)
    durationA := statsA.durationEMA
    durationB := statsB.durationEMA
    failureRateA := statsA.failureRate
    failureRateB := statsB.failureRate
    historicalConcurrency := history.1
    historicalCofailures := history.2
    temporalOverlap := meanOrZero (shared.map SharedResource.overlap)
    evidence := shared.map fun s =>
      ⟨s.resource.id, s.resource.identifier, s.resource.type, sortedValues s.left.operations,
        sortedValues s.right.operations, s.rarity⟩ }

end TestResourceGraph

end ConflictGraph.Py
