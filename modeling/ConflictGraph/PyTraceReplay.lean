import ConflictGraph.PyArtifact
import ConflictGraph.PyGraphOrder
import ConflictGraph.PyIndented
import ConflictGraph.PyPairPredictions

/-!
# From a trace to the risks of a plan

`trace replay` of the command line builds the graph of a trace, predicts the risk of every
pair that shares a resource, with a model if there is one, and writes all of it to a file;
`plan` and `run` load the predictions from there. Of every pair there is one prediction
(`keys_predict`), and the index that a plan is made with answers with it, whatever the
tests are (`probability_replayed`).
-/

namespace ConflictGraph.Py

/-! ## The graph as a document -/

/-- The keys of a dictionary to which these were added. -/
def keysInOrder {α : Type} [DecidableEq α] (added : List α) : List α := added.foldl emit []

/-- `vars(test)`. -/
def TestNode.vars (test : TestNode) : Json := .object
  [(str "id", .string test.id), (str "node_id", .string test.nodeID),
    (str "repository", .string test.repository), (str "suite", .string test.suite),
    (str "framework", .string test.framework), (str "test_file", .string test.testFile),
    (str "test_class", .string test.testClass), (str "test_function", .string test.testFunction),
    (str "parameters", .string test.parameters),
    (str "source_revision", .string test.sourceRevision)]

/-- A resource in `to_dict`. -/
def ResourceIdentity.toDict (resource : ResourceIdentity) : Json := .object
  [(str "id", .string resource.id), (str "type", .string resource.type.value),
    (str "identifier", .string resource.identifier)]

/-- `sorted(mode.value for mode in edge.modes)`. -/
def AccessAggregate.modeValues (edge : AccessAggregate) : List Str :=
  ((AccessMode.values.filter fun entry => entry.2 ∈ edge.modes).map fun entry =>
    str entry.1).insertionSort (· ≤ ·)

/-- An edge in `to_dict`. -/
def AccessAggregate.toDict (edge : AccessAggregate) (key : Str × Str) : Json := .object
  [(str "test_id", .string key.1), (str "resource_id", .string key.2),
    (str "counts", .object (edge.operations.map fun operation =>
      (operation.value, .int (edge.counts operation)))),
    (str "modes", .array (edge.modeValues.map Json.string)), (str "first_ns", .int edge.firstNS),
    (str "last_ns", .int edge.lastNS)]

namespace KeyedGraph

variable (sha256 : Str → Str)

/-- `add_event`. -/
def addEvent (k : KeyedGraph) (event : TraceEvent) : Except ExceptionType KeyedGraph :=
  (ResourceIdentity.create sha256 event.resourceType event.resourceIdentifier).map fun resource =>
    { k with
      graph := k.graph.record resource event
      resourceIDs := emit k.resourceIDs resource.id }

/-- `from_events`. -/
def fromEvents (events : List TraceEvent) : Except ExceptionType KeyedGraph :=
  (events.foldlM (addEvent sha256) empty).map fun k => { k with graph := k.graph.refreshStats }

/-- The tests in `to_dict`, in the order in which the events name them. -/
def testDicts (k : KeyedGraph) (events : List TraceEvent) : List Json :=
  (keysInOrder (events.map TraceEvent.testID)).filterMap fun id =>
    (k.graph.tests id).map TestNode.vars

/-- The resources in `to_dict`. -/
def resourceDicts (k : KeyedGraph) : List Json :=
  k.resourceIDs.filterMap fun id => (k.graph.resources id).map ResourceIdentity.toDict

/-- The edges in `to_dict`, in the order in which the events add them. -/
def edgeDicts (k : KeyedGraph) (events : List TraceEvent) : List Json :=
  (keysInOrder (events.map fun event => (event.testID, (event.resource sha256).id))).filterMap
    fun key => (k.graph.edges key).map fun edge => edge.toDict key

/-- `to_dict`, of the graph of these events. -/
def toDict (k : KeyedGraph) (events : List TraceEvent) : List (Str × Json) :=
  [(str "tests", .array (k.testDicts events)), (str "resources", .array k.resourceDicts),
    (str "edges", .array (k.edgeDicts sha256 events))]

end KeyedGraph

/-- `asdict` of a quality. -/
def TraceQuality.asdict (quality : TraceQuality) : Json := .object
  [(str "captured", .int quality.captured), (str "processed", .int quality.processed),
    (str "dropped", .int quality.dropped), (str "unattributed", .int quality.unattributed),
    (str "parse_failures", .int quality.parseFailures)]

/-! ## The command -/

/-- The settings of `trace replay`, and what it runs on. -/
structure TraceReplay : Type where
  interpreter : Interpreter
  policy : NormalizationPolicy := {}
  /-- `tracing.minimum_quality` -/
  minimumQuality : ℚ := 8 / 10
  /-- with `model.default_no_edge_risk` -/
  predictor : HeuristicPredictor := {}
  seed : ℤ := 42
  runtime : DatasetRuntime
  /-- `predict_artifact`, if there is a model: the probabilities and the version, or `none` for an
  `ArtifactError` or an `ImportError` -/
  model : Option (KeyedGraph → Dataset → Option (List Float64 × Str)) := none
  /-- the double that a probability is computed as -/
  double : ℚ → Float64
  /-- `predicted_at.isoformat()` -/
  predictedAt : Prediction → Str

/-- What ends the command before it writes anything. -/
inductive ReplayError : Type where
  | raised (e : ExceptionType)
  | quality (e : TraceQualityError)
  deriving DecidableEq

/-- The predictions, and the document with them. -/
structure Replayed : Type where
  predictions : List Prediction
  document : List (Str × Json)

namespace TraceReplay

variable (c : TraceReplay)

/-- The members of `asdict` of a prediction. -/
def members (p : Prediction) : List (Str × Json) :=
  [(str "test_a", .string p.testA), (str "test_b", .string p.testB),
    (str "probability", .float (c.double p.probability)), (str "cause", .string p.cause.value),
    (str "model_version", .string p.modelVersion),
    (str "shared_resources", .array (p.sharedResources.map Json.string)),
    (str "explanation", .string p.explanation), (str "predicted_at", .string (c.predictedAt p))]

/-- `asdict` of a prediction. -/
def asdict (p : Prediction) : Json := .object (c.members p)

/-- The predictions, and whether they are those of the model. -/
def predict (k : KeyedGraph) (testCount : ℕ) : Except ExceptionType (List Prediction × Bool) := do
  let heuristic ← c.predictor.predictGraph k true
  match c.model with
  | none => return (heuristic, false)
  | some predictArtifact =>
    let dataset ← DatasetBuilder.build ⟨c.seed, none, nofun⟩ c.runtime k testCount []
    match predictArtifact k dataset with
    | none => return (heuristic, false)
    | some (probabilities, version) =>
      match pairPredictions dataset probabilities heuristic version with
      | .ok predictions => return (predictions, true)
      | .error _ => return (heuristic, false)

/-- `value`. -/
def document (k : KeyedGraph) (events : List TraceEvent) (predictions : List Prediction)
    (modelUsed : Bool) (quality : TraceQuality) : List (Str × Json) :=
  k.toDict c.runtime.sha256 events ++
    [(str "predictions", .array (predictions.map c.asdict)),
      (str "prediction_mode", .string (str (if modelUsed then "model" else "heuristic"))),
      (str "trace_quality", quality.asdict)]

/-- `trace_replay`, from the events of a trace that is good enough up to `dump_json`. -/
def replay (events : List TraceEvent) (quality : TraceQuality) :
    Except ExceptionType Replayed := do
  let k ← KeyedGraph.fromEvents c.runtime.sha256 events
  let testCount := (keysInOrder (events.map TraceEvent.testID)).length
  let (predictions, modelUsed) ← c.predict k testCount
  return ⟨predictions, c.document k events predictions modelUsed quality⟩

/-- `trace_replay`, up to `dump_json`. -/
def run (lines : List Str) : Except ReplayError Replayed := do
  let (events, quality) ← (readEvents c.interpreter c.policy lines).mapError .raised
  (requireQuality quality c.minimumQuality).mapError .quality
  (c.replay events quality).mapError .raised

/-- The risk that was predicted for two tests, zero if nothing was. -/
def predictedRisk (predictions : List Prediction) (a b : Str) : ℚ :=
  ((predictions.find? fun p => p.key = stableTexts a b).map fun p =>
    (c.double p.probability).clamp).getD 0

end TraceReplay

/-! ## The graph that is replayed -/

namespace KeyedGraph

variable {sha256 : Str → Str} {events : List TraceEvent} {k : KeyedGraph}

/-- A call that does not raise is a call of `apply`. -/
theorem addEvent_eq_ok {k' : KeyedGraph} {event : TraceEvent}
    (h : k.addEvent sha256 event = .ok k') :
    k' = k.apply sha256 (.addEvent event) ∧ Str.encodable event.resourceIdentifier = true := by
  obtain ⟨resource, hresource, rfl⟩ := eq_ok_of_map_eq_ok h
  refine ⟨?_, ?_⟩
  · rw [apply, hresource]
    by_cases hmem : resource.id ∈ k.resourceIDs
    · simp only [emit, if_pos hmem]
    · simp only [emit, if_neg hmem]
  rw [ResourceIdentity.create] at hresource
  split at hresource
  · assumption
  · cases hresource

theorem foldlM_addEvent_eq_ok :
    ∀ {k k' : KeyedGraph}, events.foldlM (addEvent sha256) k = .ok k' →
      k' = (events.map GraphCall.addEvent).foldl (apply sha256) k ∧
        ∀ event ∈ events, Str.encodable event.resourceIdentifier = true := by
  induction events with
  | nil => exact fun h => ⟨(Except.ok.inj h).symm, List.forall_mem_nil _⟩
  | cons event rest ih =>
    intro k k' h
    rw [List.foldlM_cons] at h
    obtain ⟨next, hnext, hrest⟩ := bind_eq_ok_iff.mp h
    obtain ⟨rfl, hencodable⟩ := addEvent_eq_ok hnext
    obtain ⟨rfl, hall⟩ := ih hrest
    exact ⟨rfl, List.forall_mem_cons.mpr ⟨hencodable, hall⟩⟩

/-- The graph is one that was built, with its statistics. -/
theorem fromEvents_eq_ok (h : fromEvents sha256 events = .ok k) :
    k.Keyed ∧ k.historyPairs = [] ∧
      ∀ testID id, id ∈ k.graph.testResources testID ↔
        ∃ event ∈ events, event.testID = testID ∧ (event.resource sha256).id = id := by
  obtain ⟨raw, hraw, rfl⟩ := eq_ok_of_map_eq_ok h
  obtain ⟨rfl, hencodable⟩ := foldlM_addEvent_eq_ok hraw
  have hbuilt := built_build sha256 (events.map GraphCall.addEvent)
  refine ⟨⟨hbuilt.linked.of_eq rfl rfl rfl rfl, hbuilt.mem_resourceIDs⟩, hbuilt.historyPairs,
    fun testID id => ?_⟩
  refine (mem_testResources_build sha256 _ testID id).trans ?_
  simp only [List.mem_map, exists_exists_and_eq_and]
  refine exists_congr fun event => and_congr_right fun hevent => ?_
  rw [GraphCall.accesses, hencodable event hevent, Bool.true_and, Bool.and_eq_true,
    decide_eq_true_eq, decide_eq_true_eq]
  rfl

end KeyedGraph

namespace TraceReplay

variable {c : TraceReplay} {k : KeyedGraph} {testCount : ℕ} {predictions : List Prediction}
  {modelUsed : Bool}

/-- The model gives one prediction to each candidate. -/
theorem keys_pairPredictions {candidates : List (Str × Str)} {dataset : Dataset}
    {probabilities : List Float64} {heuristic : List Prediction} {version : Str}
    (hstable : ∀ pair ∈ candidates, pair.1 ≤ pair.2) (hnodup : candidates.Nodup)
    (hkeys : heuristic.map Prediction.key = candidates)
    (hperm : (dataset.examples.map PairExample.pair).Perm candidates)
    (h : pairPredictions dataset probabilities heuristic version = .ok predictions) :
    (predictions.map Prediction.key).Nodup ∧
      ∀ pair, pair ∈ predictions.map Prediction.key ↔ pair ∈ candidates := by
  rw [pairPredictions] at h
  split at h
  · cases h
  · rename_i hlength
    obtain rfl := Except.ok.inj h
    have hmatched := @matched_of_perm _ _ _ _ version hstable hnodup hkeys hperm
      (not_not.mp hlength)
    exact ⟨hmatched.eachOnce.imp fun hpair => Ne.symm hpair.1, hmatched.mem_iff⟩

/-- **Of every candidate there is one prediction**, also if the model predicts. -/
theorem keys_predict (hkeyed : k.Keyed) (hhistory : k.historyPairs = [])
    (h : c.predict k testCount = .ok (predictions, modelUsed)) :
    (predictions.map Prediction.key).Nodup ∧ ∃ candidates, k.candidatePairs true = .ok candidates ∧
      ∀ pair, pair ∈ predictions.map Prediction.key ↔ pair ∈ candidates := by
  obtain ⟨candidates, hcandidates, hmem⟩ := hkeyed.candidatePairs_eq true
  have hnodup : candidates.Nodup :=
    KeyedGraph.nodup_candidatePairs (hhistory ▸ List.nodup_nil) hcandidates
  have hstable : ∀ pair ∈ candidates, pair.1 ≤ pair.2 := by
    rintro ⟨a, b⟩ hpair
    rcases (hmem a b).mp hpair with ⟨hlt, -⟩ | hpast
    · exact hlt.le
    · exact absurd (hhistory ▸ hpast) List.not_mem_nil
  obtain ⟨heuristic, hheuristic, hkeys⟩ :=
    c.predictor.predictGraph_keys hkeyed.linked hcandidates hstable
  have hplain : (heuristic.map Prediction.key).Nodup ∧ ∃ candidates,
      k.candidatePairs true = .ok candidates ∧
        ∀ pair, pair ∈ heuristic.map Prediction.key ↔ pair ∈ candidates :=
    ⟨hkeys ▸ hnodup, candidates, hcandidates, fun pair => hkeys ▸ Iff.rfl⟩
  obtain ⟨found, hfound, h⟩ := bind_eq_ok_iff.mp h
  obtain rfl := Except.ok.inj (hheuristic.symm.trans hfound)
  split at h
  · obtain ⟨rfl, -⟩ := Prod.mk.inj (Except.ok.inj h)
    exact hplain
  · obtain ⟨dataset, hdataset, h⟩ := bind_eq_ok_iff.mp h
    split at h
    · obtain ⟨rfl, -⟩ := Prod.mk.inj (Except.ok.inj h)
      exact hplain
    · split at h
      · rename_i hpairs
        obtain ⟨rfl, -⟩ := Prod.mk.inj (Except.ok.inj h)
        have hperm := DatasetBuilder.perm_candidates rfl hcandidates hnodup hdataset
        obtain ⟨honce, hall⟩ := keys_pairPredictions hstable hnodup hkeys hperm hpairs
        exact ⟨honce, candidates, hcandidates, hall⟩
      · obtain ⟨rfl, -⟩ := Prod.mk.inj (Except.ok.inj h)
        exact hplain

end TraceReplay

/-! ## The file that is loaded -/

theorem sortedItems_eq_map (items : List Json) : sortedItems items = items.map sorted := by
  induction items with
  | nil => rfl
  | cons item rest ih => rw [sortedItems, ih, List.map_cons]

theorem sortedItems_strings (texts : List Str) :
    sortedItems (texts.map Json.string) = texts.map Json.string := by
  rw [sortedItems_eq_map, List.map_map]
  rfl

theorem textsOf_strings (texts : List Str) :
    textsOf (.array (texts.map Json.string)) = .ok texts := by
  rw [textsOf]
  induction texts with
  | nil => rfl
  | cons text rest ih =>
    rw [List.map_cons, List.mapM_cons, ih]
    rfl

namespace TraceReplay

variable (c : TraceReplay) (p : Prediction)

/-- What `_graph_predictions` reads of a prediction. -/
def entry : Entry :=
  ⟨p.testA, p.testB, c.double p.probability, p.cause, p.modelVersion, p.sharedResources,
    p.explanation⟩

theorem sorted_asdict : sorted (c.asdict p) = .object (sortMembers (c.members p)) := by
  rw [asdict, sorted, members]
  simp only [sortedMembers, sorted, sortedItems_strings]

/-- **`_graph_predictions` undoes `asdict`.** -/
theorem entryOf_sorted (interpreter : Interpreter) (floatOfText : Str → Option Float64) :
    entryOf interpreter floatOfText (sorted (c.asdict p)) = .ok (c.entry p) := by
  have hrequired : ∀ (key : String) {value : Json}, Json.lookup (c.members p) key = some value →
      required (sortMembers (c.members p)) key = .ok value := by
    intro key value hvalue
    rw [required, lookup_sortMembers, hvalue]
  have hoptional : ∀ (key : String) {value default : Json},
      Json.lookup (c.members p) key = some value →
        optional (sortMembers (c.members p)) key default = value := by
    intro key value default hvalue
    rw [optional, lookup_sortMembers, hvalue, Option.getD_some]
  have hcause : memberOf interpreter ConflictCause.values (.string p.cause.value) =
      .ok p.cause := by
    cases p.cause <;> rfl
  rw [sorted_asdict, entryOf, hoptional "shared_resources" rfl, hrequired "test_a" rfl,
    hrequired "test_b" rfl, hrequired "probability" rfl, hoptional "cause" rfl,
    hoptional "model_version" rfl, hoptional "explanation" rfl, textsOf_strings]
  have hok : ∀ {α β : Type} (a : α) (f : α → Except ExceptionType β), (Except.ok a >>= f) = f a :=
    fun _ _ => rfl
  simp only [hok, strOf, textOf, floatOf, hcause]
  rfl

/-- **The predictions of the document** are those that were made. -/
theorem graphPredictions_document (interpreter : Interpreter)
    (floatOfText : Str → Option Float64) (k : KeyedGraph) (events : List TraceEvent)
    (predictions : List Prediction) (modelUsed : Bool) (quality : TraceQuality) :
    graphPredictions interpreter floatOfText (some (sorted (.object
      (c.document k events predictions modelUsed quality)))) = .ok (predictions.map c.entry) := by
  have hentries : ((predictions.map c.asdict).map sorted).mapM
      (entryOf interpreter floatOfText) = .ok (predictions.map c.entry) := by
    induction predictions with
    | nil => rfl
    | cons p rest ih =>
      rw [List.map_cons, List.map_cons, List.mapM_cons, c.entryOf_sorted, ih]
      rfl
  have hlookup : optional (sortMembers (sortedMembers
      (c.document k events predictions modelUsed quality))) "predictions" (.array []) =
        .array ((predictions.map c.asdict).map sorted) := by
    rw [optional, lookup_sortMembers, ← sortedItems_eq_map]
    rfl
  rw [sorted, graphPredictions, hlookup]
  simp only [hentries]

variable {c}

variable {events : List TraceEvent} {quality : TraceQuality} {r : Replayed}

/-- A run replays the events of its trace. -/
theorem run_eq_ok {lines : List Str} (h : c.run lines = .ok r) :
    ∃ events quality, readEvents c.interpreter c.policy lines = .ok (events, quality) ∧
      requireQuality quality c.minimumQuality = .ok () ∧ c.replay events quality = .ok r := by
  have hok : ∀ {ε ε' α : Type} {f : ε → ε'} {r : Except ε α} {a : α},
      r.mapError f = .ok a → r = .ok a := by
    intro ε ε' α f r a h
    cases r with
    | error e => cases h
    | ok b => exact congrArg Except.ok (Except.ok.inj h)
  obtain ⟨⟨events, quality⟩, hevents, h⟩ := bind_eq_ok_iff.mp h
  obtain ⟨_, hquality, h⟩ := bind_eq_ok_iff.mp h
  exact ⟨events, quality, hok hevents, hok hquality, hok h⟩

/-- What a replay is made of. -/
theorem replay_eq_ok (h : c.replay events quality = .ok r) :
    ∃ k testCount modelUsed, KeyedGraph.fromEvents c.runtime.sha256 events = .ok k ∧
      c.predict k testCount = .ok (r.predictions, modelUsed) ∧
      r.document = c.document k events r.predictions modelUsed quality := by
  obtain ⟨k, hk, h⟩ := bind_eq_ok_iff.mp h
  obtain ⟨⟨predictions, modelUsed⟩, hpredict, h⟩ := bind_eq_ok_iff.mp h
  obtain rfl := Except.ok.inj h
  exact ⟨k, _, modelUsed, hk, hpredict, rfl⟩

/-! ## The index of a plan -/

variable {predictions : List Prediction}

/-- An entry names two tests if it is that of their pair. -/
theorem names_entry_iff {p : Prediction} {a b : String} :
    (c.entry p).Names a b ↔ p.key = stableTexts (str a) (str b) := by
  have hordered := p.ordered
  rw [Entry.Names, entry, Prediction.key, stableTexts]
  dsimp only
  by_cases hle : str a ≤ str b
  · rw [if_pos hle, Prod.mk.injEq]
    refine ⟨?_, .inl⟩
    rintro (h | ⟨hA, hB⟩)
    · exact h
    · -- the other way round only if the two are one
      rw [hA, hB] at hordered ⊢
      exact ⟨le_antisymm hordered hle, le_antisymm hle hordered⟩
  · rw [if_neg hle, Prod.mk.injEq]
    refine ⟨?_, .inr⟩
    rintro (⟨hA, hB⟩ | h)
    · rw [hA, hB] at hordered
      exact absurd hordered hle
    · exact h

/-- Of distinct keys one is that of the pair, if any. -/
theorem filter_key_eq {pair : Str × Str} (h : (predictions.map Prediction.key).Nodup) :
    predictions.filter (fun p => p.key = pair) =
      (predictions.find? fun p => p.key = pair).toList := by
  induction predictions with
  | nil => rfl
  | cons p rest ih =>
    rw [List.map_cons, List.nodup_cons] at h
    by_cases hkey : p.key = pair
    · have hnone : rest.filter (fun p => p.key = pair) = [] := by
        refine List.filter_eq_nil_iff.mpr fun q hq hother => h.1 ?_
        rw [hkey, ← of_decide_eq_true hother]
        exact List.mem_map_of_mem hq
      simp [hkey, hnone]
    · simp [hkey, ih h.2]

/-- The last entry for two tests is the only one. -/
theorem lastProbability_entries (h : (predictions.map Prediction.key).Nodup) (a b : String) :
    lastProbability (predictions.map c.entry) a b =
      c.predictedRisk predictions (str a) (str b) := by
  have hfilter : (predictions.map c.entry).filter (fun entry => entry.Names a b) =
      (predictions.find? fun p => p.key = stableTexts (str a) (str b)).toList.map c.entry := by
    rw [← filter_key_eq h, List.filter_map]
    exact congrArg _ (List.filter_congr fun p _ => decide_eq_decide.mpr names_entry_iff)
  rw [lastProbability, hfilter, predictedRisk]
  cases predictions.find? fun p => p.key = stableTexts (str a) (str b) with
  | none => rfl
  | some p => rfl

/-- **A plan is made with the risks that were predicted.** Whatever the trace and the model are,
the file of a replay is loaded, and the index over the predictions in it answers for any two
collected tests with what was predicted for them. -/
theorem probability_replayed {lines : List Str} (h : c.run lines = .ok r)
    (hcarried : Carried c.interpreter c.interpreter.loadsDepth (.object r.document))
    {text : Str} (htext : artifactText c.interpreter (.object r.document) = some text)
    (floatOfText : Str → Option Float64) (tests : List TestIdentity) :
    ∃ members predictions, load c.interpreter (some text) = .ok (some members) ∧
      predictionsForTests c.interpreter floatOfText (some (.object members)) tests =
        .ok predictions ∧
      ∀ a ∈ tests.map TestIdentity.id, ∀ b ∈ tests.map TestIdentity.id, a ≠ b →
        (RiskIndex.new predictions).probability a b =
          c.predictedRisk r.predictions (str a) (str b) := by
  obtain ⟨events, quality, -, -, hreplay⟩ := run_eq_ok h
  obtain ⟨k, testCount, modelUsed, hk, hpredict, hdocument⟩ := replay_eq_ok hreplay
  obtain ⟨hkeyed, hhistory, -⟩ := KeyedGraph.fromEvents_eq_ok hk
  obtain ⟨hnodup, -⟩ := keys_predict hkeyed hhistory hpredict
  have hread := c.graphPredictions_document c.interpreter floatOfText k events r.predictions
    modelUsed quality
  rw [← hdocument, sorted] at hread
  have hpredictions : predictionsForTests c.interpreter floatOfText
      (some (.object (sortMembers (sortedMembers r.document)))) tests =
        .ok ((r.predictions.map c.entry).filterMap
          (Entry.prediction (tests.map TestIdentity.id))) := by
    rw [predictionsForTests, hread]
    rfl
  refine ⟨_, _, ?_, hpredictions, fun a ha b hb hne => ?_⟩
  · rw [load, loads_artifactText hcarried htext, sorted]
  · rw [probability_new_filterMap ha hb hne]
    exact lastProbability_entries hnodup a b

/-! ## Three tests at one file -/

/-- The numbers that are predicted for two writers of a file, and for a writer and a reader. -/
def sharedNumbers : List (Float64 × Str) :=
  [(.ofRat (41009 / 50000), str "0.82018"), (.ofRat (13007 / 20000), str "0.65035")]

/-- A replay with the heuristic predictor. -/
def heuristicReplay : TraceReplay where
  interpreter := numberInterpreter sharedNumbers
  runtime := { DatasetRuntime.still with sha256 := sha256OfTmpX }
  double := .ofRat
  predictedAt := fun _ => str "2026-01-01T00:00:00+00:00"

theorem str_testID (digit : Char) :
    str (testID digit) = str "test_" ++ List.replicate 24 digit.toNat := by
  have hdigits : str (String.ofList (List.replicate 24 digit)) = List.replicate 24 digit.toNat := by
    rw [str, String.toList_ofList, List.map_replicate]
  rw [testID, str_append, hdigits]

/-- Two of three tests write `/tmp/x`, and the third reads it. -/
def sharedEvents : List TraceEvent :=
  [{ readAt 5 with testID := str (testID '0'), operation := .write, accessMode := .write },
    { readAt 6 with testID := str (testID '1'), operation := .write, accessMode := .write },
    { readAt 7 with testID := str (testID '2') }]

/-- The lines of this trace. -/
def sharedLines : List Str :=
  sharedEvents.map fun event => (event.dumps heuristicReplay.interpreter).getD []

/-- The three tests, as they are collected. -/
def sharingTests : List TestIdentity :=
  ['0', '1', '2'].map fun digit => { id := testID digit, nodeID := testID digit }

/-- The file of this replay is loaded, and a plan is made with one probability for the two writers,
and with another for a writer and the reader. -/
theorem probability_replayed_shared : ∃ r, heuristicReplay.run sharedLines = .ok r ∧
    ∃ text, artifactText heuristicReplay.interpreter (.object r.document) = some text ∧
    ∃ members predictions,
      load heuristicReplay.interpreter (some text) = .ok (some members) ∧
      predictionsForTests heuristicReplay.interpreter (fun _ => none) (some (.object members))
        sharingTests = .ok predictions ∧
      (RiskIndex.new predictions).probability (testID '0') (testID '1') =
        (Float64.ofRat (41009 / 50000)).clamp ∧
      (RiskIndex.new predictions).probability (testID '2') (testID '0') =
        (Float64.ofRat (13007 / 20000)).clamp := by
  have hreplayed : (heuristicReplay.run sharedLines).map (fun r =>
      (isPlain (sharedNumbers.map Prod.fst) 900 (.object r.document),
        (artifactText heuristicReplay.interpreter (.object r.document)).isSome,
        heuristicReplay.predictedRisk r.predictions (str (testID '0')) (str (testID '1')),
        heuristicReplay.predictedRisk r.predictions (str (testID '2')) (str (testID '0')))) =
      .ok (true, true, (Float64.ofRat (41009 / 50000)).clamp,
        (Float64.ofRat (13007 / 20000)).clamp) := by
    simp only [sharedLines, sharedEvents, str_testID]
    decide +kernel
  obtain ⟨r, hr, hvalues⟩ := eq_ok_of_map_eq_ok hreplayed
  simp only [Prod.mk.injEq] at hvalues
  obtain ⟨hplain, hwritten, hwriters, hreader⟩ := hvalues
  obtain ⟨text, htext⟩ := Option.isSome_iff_exists.mp hwritten
  have hcarried : Carried heuristicReplay.interpreter heuristicReplay.interpreter.loadsDepth
      (.object r.document) :=
    carried_of_isPlain (fun x _ => carried_numbers (by decide +kernel) x) hplain
  obtain ⟨members, predictions, hload, hpredictions, hprobability⟩ :=
    probability_replayed hr hcarried htext (fun _ => none) sharingTests
  refine ⟨r, hr, text, htext, members, predictions, hload, hpredictions, ?_, ?_⟩
  · rw [← hwriters]
    exact hprobability _ (by decide +kernel) _ (by decide +kernel) (by decide +kernel)
  · rw [← hreader]
    exact hprobability _ (by decide +kernel) _ (by decide +kernel) (by decide +kernel)

end TraceReplay

end ConflictGraph.Py
