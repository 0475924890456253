import ConflictGraph.PyScheduler
import ConflictGraph.PyTracing

/-!
# Predictions of a graph artifact

`_graph_predictions` reads the predictions of the artifact that a replay wrote, and
`_predictions_for_tests` drops those of unknown tests. `RiskIndex` keeps the last prediction
of a pair, and no step before it looks for repetitions: what it answers for two known tests is
the probability of the last entry that names them (`probability_new_filterMap`).
-/

namespace ConflictGraph.Py

/-! ## Entries -/

/-- The values of `ConflictCause`. -/
def ConflictCause.values : List (String × ConflictCause) :=
  [("FILE_COLLISION", .fileCollision), ("PORT_COLLISION", .portCollision),
    ("FILE_LOCK", .fileLock), ("DATABASE_LOCK", .databaseLock),
    ("UNIX_SOCKET_COLLISION", .unixSocketCollision), ("SHARED_STATE", .sharedState),
    ("RESOURCE_CONTENTION", .resourceContention), ("UNKNOWN", .unknown)]

/-- The arguments that `_graph_predictions` gives to `PairPrediction`. -/
structure Entry : Type where
  testA : Str
  testB : Str
  probability : Float64
  cause : ConflictCause
  modelVersion : Str
  sharedResources : List Str
  explanation : Str
  deriving DecidableEq

/-- `max(0.0, min(1.0, value))`, whose `min` is one if the value is not a number. -/
def Float64.clamp : Float64 → ℚ
  | .nan => 1
  | .inf negative => if negative then 0 else 1
  | .finite q => max 0 (min 1 q)

theorem Float64.clamp_nonneg (value : Float64) : 0 ≤ value.clamp := by
  cases value with
  | nan => exact zero_le_one
  | inf negative => cases negative <;> simp [clamp]
  | finite q => exact le_max_left _ _

/-- The failures of `_graph_predictions`. -/
inductive GraphError : Type where
  /-- `StorageError`: the artifact must contain a JSON object -/
  | storage
  /-- `ArtifactError`: the predictions must be a list -/
  | predictions
  /-- `ArtifactError` of an invalid prediction, from an exception of this class -/
  | invalid (e : ExceptionType)
  /-- an exception that is not caught -/
  | uncaught (e : ExceptionType)
  deriving DecidableEq

section Entries

-- `float` of a text; `none` is its `ValueError`
variable (interpreter : Interpreter) (floatOfText : Str → Option Float64)

/-- `float(value)`. -/
def floatOf : Json → Except ExceptionType Float64
  | .int n =>
    match Float64.ofRat n with
    | .inf _ => .error .overflowError
    | value => .ok value
  | .bool b => .ok (.finite (if b then 1 else 0))
  | .float value => .ok value
  | .string s =>
    match floatOfText s with
    | some value => .ok value
    | none => .error .valueError
  | .null => .error .typeError
  | .array _ => .error .typeError
  | .object _ => .error .typeError

/-- A list of strings. -/
def textsOf : Json → Except ExceptionType (List Str)
  | .array items => items.mapM fun item =>
    match item with
    | .string s => .ok s
    | _ => .error .typeError
  | _ => .error .typeError

/-- One prediction. -/
def entryOf : Json → Except ExceptionType Entry
  | .object members => do
    let sharedResources ← textsOf (optional members "shared_resources" (.array []))
    let testA ← strOf interpreter (← required members "test_a")
    let testB ← strOf interpreter (← required members "test_b")
    let probability ← floatOf floatOfText (← required members "probability")
    let cause ← strOf interpreter (optional members "cause" (.string (str "UNKNOWN")))
    let cause ← memberOf interpreter ConflictCause.values (.string cause)
    let modelVersion ← strOf interpreter (optional members "model_version"
      (.string (str "unknown")))
    let explanation ← strOf interpreter (optional members "explanation" (.string []))
    return ⟨testA, testB, probability, cause, modelVersion, sharedResources, explanation⟩
  | _ => .error .typeError

/-- `_graph_predictions`; `none` is a missing artifact. -/
def graphPredictions : Option Json → Except GraphError (List Entry)
  | none => .ok []
  | some (.object members) =>
    match optional members "predictions" (.array []) with
    | .array items =>
      match items.mapM (entryOf interpreter floatOfText) with
      | .ok entries => .ok entries
      | .error e => .error (if caught e then .invalid e else .uncaught e)
    | _ => .error .predictions
  | some _ => .error .storage

/-- The Lean string of a text, which has no lone surrogates. -/
def textOfStr (s : Str) : String := String.ofList (s.map Char.ofNat)

/-- The `PairPrediction` of an entry, if its tests are known. The tests of others can be texts
that a `String` cannot hold. -/
def Entry.prediction (known : List String) (entry : Entry) : Option PairPrediction := do
  let testA ← known.find? fun id => str id = entry.testA
  let testB ← known.find? fun id => str id = entry.testB
  return { PairPrediction.new testA testB entry.probability.clamp (textOfStr entry.explanation) with
    cause := entry.cause
    modelVersion := textOfStr entry.modelVersion
    sharedResources := entry.sharedResources.map textOfStr }

/-- `_predictions_for_tests`. -/
def predictionsForTests (artifact : Option Json) (tests : List TestIdentity) :
    Except GraphError (List PairPrediction) :=
  (graphPredictions interpreter floatOfText artifact).map fun entries =>
    entries.filterMap (Entry.prediction (tests.map TestIdentity.id))

end Entries

/-! ## What the index answers -/

theorem str_injective : Function.Injective str := by
  intro s t h
  have hlist : s.toList = t.toList :=
    List.map_injective_iff.mpr (fun c d hcd => Char.toNat_inj.mp hcd) h
  exact String.toList_inj.mp hlist

/-- The entry names the two tests. -/
def Entry.Names (entry : Entry) (a b : String) : Prop :=
  (entry.testA = str a ∧ entry.testB = str b) ∨ (entry.testA = str b ∧ entry.testB = str a)

instance (entry : Entry) (a b : String) : Decidable (entry.Names a b) :=
  inferInstanceAs (Decidable (_ ∨ _))

/-- The probability of the last entry that names the two tests, zero if none does. -/
def lastProbability (entries : List Entry) (a b : String) : ℚ :=
  match (entries.filter fun entry => entry.Names a b).getLast? with
  | some entry => entry.probability.clamp
  | none => 0

theorem lastProbability_nonneg (entries : List Entry) (a b : String) :
    0 ≤ lastProbability entries a b := by
  rw [lastProbability]
  split
  · exact Float64.clamp_nonneg _
  · exact le_refl 0

theorem lastProbability_concat (entries : List Entry) (entry : Entry) (a b : String) :
    lastProbability (entries ++ [entry]) a b =
      if entry.Names a b then entry.probability.clamp else lastProbability entries a b := by
  rw [lastProbability, List.filter_append]
  by_cases hnames : entry.Names a b
  · have hown : [entry].filter (fun entry => entry.Names a b) = [entry] := by simp [hnames]
    rw [if_pos hnames, hown, List.getLast?_concat]
  · have hother : [entry].filter (fun entry => entry.Names a b) = [] := by simp [hnames]
    rw [if_neg hnames, hother, List.append_nil, lastProbability]

/-- Two stable pairs are the same if their tests are. -/
theorem stablePair_eq_iff {a b c d : String} :
    stablePair a b = stablePair c d ↔ (a = c ∧ b = d) ∨ (a = d ∧ b = c) := by
  refine ⟨fun h => ?_, ?_⟩
  · rw [stablePair, stablePair] at h
    split at h <;> split at h <;> obtain ⟨rfl, rfl⟩ := Prod.mk.inj h
    · exact .inl ⟨rfl, rfl⟩
    · exact .inr ⟨rfl, rfl⟩
    · exact .inr ⟨rfl, rfl⟩
    · exact .inl ⟨rfl, rfl⟩
  · rintro (⟨rfl, rfl⟩ | ⟨rfl, rfl⟩)
    · rfl
    · exact stablePair_comm ..

namespace PairPrediction

theorem key_new (testA testB : String) (probability : ℚ) (explanation : String) :
    (new testA testB probability explanation).key = stablePair testA testB := by
  rw [new, stablePair]
  split
  · rename_i hlt
    rw [if_neg (not_le.mpr hlt)]
    rfl
  · rename_i hle
    rw [if_pos (not_lt.mp hle)]
    rfl

theorem probability_new (testA testB : String) (probability : ℚ) (explanation : String) :
    (new testA testB probability explanation).probability = max 0 (min 1 probability) := by
  rw [new]
  split <;> rfl

end PairPrediction

/-- The known test of a text. -/
theorem find?_known {known : List String} {text : Str} {id : String} :
    known.find? (fun id => str id = text) = some id ↔ id ∈ known ∧ str id = text := by
  refine ⟨fun h => ?_, ?_⟩
  · exact ⟨List.mem_of_find?_eq_some h, by simpa using List.find?_some h⟩
  · rintro ⟨hid, rfl⟩
    cases hfind : known.find? fun id' => str id' = str id with
    | none => exact absurd (decide_eq_true rfl) (List.find?_eq_none.mp hfind id hid)
    | some id' =>
      have heq : str id' = str id := by simpa using List.find?_some hfind
      rw [str_injective heq]

theorem Float64.clamp_le_one (value : Float64) : value.clamp ≤ 1 := by
  cases value with
  | nan => exact le_refl 1
  | inf negative => cases negative <;> simp [clamp]
  | finite q => exact max_le zero_le_one (min_le_left _ _)

/-- What becomes of an entry. -/
theorem prediction_eq_some {known : List String} {entry : Entry} {p : PairPrediction}
    (h : entry.prediction known = some p) :
    ∃ testA testB, str testA = entry.testA ∧ str testB = entry.testB ∧
      p.key = stablePair testA testB ∧ p.probability = entry.probability.clamp := by
  obtain ⟨testA, hA, h⟩ := Option.bind_eq_some_iff.mp h
  obtain ⟨testB, hB, h⟩ := Option.bind_eq_some_iff.mp h
  obtain rfl := Option.some.inj h
  have hfoundA : str testA = entry.testA := by simpa using List.find?_some hA
  have hfoundB : str testB = entry.testB := by simpa using List.find?_some hB
  refine ⟨testA, testB, hfoundA, hfoundB, PairPrediction.key_new .., ?_⟩
  refine (PairPrediction.probability_new ..).trans ?_
  rw [min_eq_right (Float64.clamp_le_one _), max_eq_right (Float64.clamp_nonneg _)]

/-- An entry that names two known tests is kept. -/
theorem exists_prediction {known : List String} {a b : String} (ha : a ∈ known) (hb : b ∈ known)
    {entry : Entry} (h : entry.Names a b) : ∃ p, entry.prediction known = some p := by
  rcases h with ⟨hA, hB⟩ | ⟨hA, hB⟩
  · rw [Entry.prediction, find?_known.mpr ⟨ha, hA.symm⟩, find?_known.mpr ⟨hb, hB.symm⟩]
    exact ⟨_, rfl⟩
  · rw [Entry.prediction, find?_known.mpr ⟨hb, hA.symm⟩, find?_known.mpr ⟨ha, hB.symm⟩]
    exact ⟨_, rfl⟩

/-- The last prediction of a pair decides. -/
theorem probability_new_concat {predictions : List PairPrediction} {p : PairPrediction}
    {a b : String} (hne : a ≠ b) :
    (RiskIndex.new (predictions ++ [p])).probability a b =
      if p.key = stablePair a b then p.probability
      else (RiskIndex.new predictions).probability a b := by
  rw [RiskIndex.probability, RiskIndex.probability, if_neg hne, if_neg hne, RiskIndex.new,
    List.foldl_append]
  simp only [List.foldl_cons, List.foldl_nil, PartialMap.insert_apply]
  by_cases hkey : p.key = stablePair a b
  · rw [if_pos hkey, if_pos hkey.symm]
  · rw [if_neg hkey, if_neg (Ne.symm hkey), RiskIndex.new]

/-- **The Python index answers with the last probability** that the entries give to a pair. -/
theorem probability_new_filterMap {known : List String} {a b : String} (ha : a ∈ known)
    (hb : b ∈ known) (hne : a ≠ b) (entries : List Entry) :
    (RiskIndex.new (entries.filterMap (Entry.prediction known))).probability a b =
      lastProbability entries a b := by
  induction entries using List.reverseRecOn with
  | nil => exact if_neg hne
  | append_singleton entries entry ih =>
    rw [List.filterMap_append, lastProbability_concat]
    cases hprediction : entry.prediction known with
    | none =>
      have hnames : ¬ entry.Names a b := by
        intro h
        obtain ⟨p, hp⟩ := exists_prediction ha hb h
        rw [hp] at hprediction
        cases hprediction
      have hnil : [entry].filterMap (Entry.prediction known) = [] := by simp [hprediction]
      rw [if_neg hnames, hnil, List.append_nil, ih]
    | some p =>
      obtain ⟨testA, testB, hA, hB, hkey, hprobability⟩ := prediction_eq_some hprediction
      have hown : [entry].filterMap (Entry.prediction known) = [p] := by simp [hprediction]
      have hnames : p.key = stablePair a b ↔ entry.Names a b := by
        rw [hkey, stablePair_eq_iff, Entry.Names, ← hA, ← hB, str_injective.eq_iff,
          str_injective.eq_iff, str_injective.eq_iff, str_injective.eq_iff]
      rw [hown, probability_new_concat hne, ih, hprobability]
      exact if_congr hnames rfl rfl

/-- The identifier of a test that is collected, with one digit all over. -/
def testID (digit : Char) : String := "test_" ++ String.ofList (List.replicate 24 digit)

end ConflictGraph.Py
