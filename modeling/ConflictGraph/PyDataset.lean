import Mathlib.Data.List.Dedup
import ConflictGraph.PyArtifact
import ConflictGraph.PyCandidates
import ConflictGraph.PyQuality

/-!
# Datasets of labelled pairs

`dataset.py`: `DatasetBuilder.build` turns the candidate pairs of a graph and the labels of
known conflicts into examples, and `pair_disjoint_split` deals the examples out to three
buckets, by groups. What the interpreter contributes, the digests, the clock and the draws
of `random`, are the fields of `DatasetRuntime`.
-/

namespace ConflictGraph.Py

/-! ## Examples and labels -/

/-- `stable_pair` of texts of a trace. -/
def stableTexts (a b : Str) : Str × Str := if a ≤ b then (a, b) else (b, a)

/-- The value of a member. -/
def ConflictCause.value (cause : ConflictCause) : Str :=
  ((ConflictCause.values.find? fun entry => entry.2 = cause).map fun entry => str entry.1).getD []

structure ConflictLabel : Type where
  testA : Str
  testB : Str
  conflict : Bool
  cause : ConflictCause := .unknown
  confidence : ℚ := 1
  source : Str := str "ground_truth"
  deriving DecidableEq

/-- `ConflictLabel.key`. -/
def ConflictLabel.key (label : ConflictLabel) : Str × Str := stableTexts label.testA label.testB

structure PairExample : Type where
  testA : Str
  testB : Str
  features : List ℚ
  /-- `int(conflict)`, so zero or one -/
  label : Bool
  confidence : ℚ
  cause : Str
  splitGroup : Str
  resources : List Str
  deriving DecidableEq

/-- `(item.test_a, item.test_b)`. -/
def PairExample.pair (e : PairExample) : Str × Str := (e.testA, e.testB)

structure DatasetMetadata : Type where
  schemaVersion : Str
  createdAt : Str
  seed : ℤ
  sourceRuns : List Str
  testCount : ℤ
  resourceCount : ℤ
  exampleCount : ℤ
  positiveExamples : ℤ
  negativeExamples : ℤ
  featureNames : List Str
  traceQuality : ℚ
  contentHash : Str := []
  deriving DecidableEq

structure Dataset : Type where
  examples : List PairExample
  metadata : DatasetMetadata
  deriving DecidableEq

structure DatasetRuntime : Type where
  /-- `hashlib.sha256(text.encode()).hexdigest()` -/
  sha256 : Str → Str
  /-- `datetime.now(timezone.utc).isoformat()` -/
  now : Str
  /-- `random.Random(seed).sample(population, k)` -/
  sample : ℤ → List PairExample → ℕ → List PairExample
  /-- `random.Random(seed).shuffle` -/
  shuffle : ℤ → List Str → List Str

/-- A runtime whose draws change nothing. -/
def DatasetRuntime.still : DatasetRuntime := ⟨id, [], fun _ xs k => xs.take k, fun _ xs => xs⟩

/-- `SCHEMA_VERSION`. -/
def schemaVersion : Str := str "pair-features-v1"

/-! ## Features -/

/-- `PairFeatures.FEATURE_NAMES`. -/
def PairFeatures.featureNames : List Str :=
  ["shared_resources", "shared_files", "shared_writes", "read_write", "write_write",
    "create_create", "delete_read", "shared_bind", "shared_locks", "shared_redis_writes",
    "shared_unix_sockets", "shared_databases", "resource_jaccard", "minimum_rarity",
    "mean_rarity", "duration_a", "duration_b", "failure_rate_a", "failure_rate_b",
    "historical_concurrency", "historical_cofailures", "temporal_overlap"].map str

/-- Every feature has a name. -/
theorem PairFeatures.length_vector (f : PairFeatures) :
    f.vector.length = PairFeatures.featureNames.length := rfl

/-! ## Building -/

/-- `value < 0`. -/
def Float64.isNegative : Float64 → Bool
  | .nan => false
  | .inf negative => negative
  | .finite q => q < 0

/-- `count * value` for the length of a list. -/
def Float64.times (count : ℕ) : Float64 → Float64
  | .nan => .nan
  | .inf negative => if count = 0 then .nan else .inf negative
  | .finite q => .ofRat (count * q)

/-- The negatives that `negative_ratio` leaves are at most so many times the positives. -/
structure DatasetBuilder : Type where
  seed : ℤ := 42
  negativeRatio : Option Float64 := some (.finite 4)
  nonneg : ∀ ratio ∈ negativeRatio, ratio.isNegative = false

namespace DatasetBuilder

/-- `__init__`. -/
def new (seed : ℤ) (negativeRatio : Option Float64) : Except Exception DatasetBuilder :=
  if h : ∀ ratio ∈ negativeRatio, ratio.isNegative = false then .ok ⟨seed, negativeRatio, h⟩
  else .error ⟨.valueError, "negative_ratio must be non-negative or None"⟩

/-- `label_index`: the last label of a pair counts. -/
def labelIndex (labels : List ConflictLabel) : PartialMap (Str × Str) ConflictLabel :=
  labels.foldl (fun index label => index.insert label.key label) PartialMap.empty

/-- `sorted(candidates | set(label_index))`. -/
def pairsOf (candidates : List (Str × Str)) (labels : List ConflictLabel) : List (Str × Str) :=
  (candidates ++ labels.map ConflictLabel.key).dedup.insertionSort pairLE

/-- The example of a pair. Its group is a digest, which `encode` raises for where a text has
a surrogate. -/
def exampleOf (runtime : DatasetRuntime) (g : TestResourceGraph) (labels : List ConflictLabel)
    (pair : Str × Str) : Except ExceptionType PairExample := do
  let features ← g.pairFeatures pair.1 pair.2
  let label := labelIndex labels pair
  let text := pair.1 ++ 0 :: pair.2
  if Str.encodable text then
    return {
      testA := pair.1
      testB := pair.2
      features := features.vector
      label := label.any ConflictLabel.conflict
      confidence := (label.map ConflictLabel.confidence).getD (65 / 100)
      cause := ((label.map ConflictLabel.cause).getD .unknown).value
      splitGroup := (runtime.sha256 text).take 16
      resources := features.evidence.map Evidence.resource }
  else .error .valueError

variable (builder : DatasetBuilder)

/-- `limit`. What is no finite number cannot be made an `int`. -/
def limit (ratio : Float64) (positives negatives : ℕ) : Except ExceptionType ℕ :=
  match ratio.times positives with
  | .nan => .error .valueError
  | .inf _ => .error .overflowError
  | .finite product => .ok ⌊max product (min negatives 32 : ℕ)⌋.toNat

/-- The negatives that stay. -/
def sampled (runtime : DatasetRuntime) (positives negatives : List PairExample) :
    Except ExceptionType (List PairExample) :=
  builder.negativeRatio.elim (.ok negatives) fun ratio =>
    (limit ratio positives.length negatives.length).map fun limit =>
      if limit < negatives.length then runtime.sample builder.seed negatives limit else negatives

/-- `sorted(examples, key=lambda item: (item.test_a, item.test_b))`. -/
def sortedExamples (examples : List PairExample) : List PairExample :=
  examples.insertionSort fun x y => pairLE x.pair y.pair

/-- `build`. The graph does not keep the keys of its tests, so their number comes with it. -/
def build (runtime : DatasetRuntime) (k : KeyedGraph) (testCount : ℕ)
    (labels : List ConflictLabel) (sourceRuns : List Str := [])
    (traceQuality : Option TraceQuality := none) : Except ExceptionType Dataset := do
  let candidates ← k.candidatePairs true
  let found ← (pairsOf candidates labels).mapM (exampleOf runtime k.graph labels)
  let positives := found.filter PairExample.label
  let negatives ← builder.sampled runtime positives (found.filter fun e => !e.label)
  let examples := sortedExamples (positives ++ negatives)
  return ⟨examples, {
    schemaVersion := schemaVersion
    createdAt := runtime.now
    seed := builder.seed
    sourceRuns := sourceRuns
    testCount := testCount
    resourceCount := k.resourceIDs.length
    exampleCount := examples.length
    positiveExamples := positives.length
    negativeExamples := negatives.length
    featureNames := PairFeatures.featureNames
    traceQuality := (traceQuality.map TraceQuality.score).getD 1 }⟩

end DatasetBuilder

end ConflictGraph.Py
