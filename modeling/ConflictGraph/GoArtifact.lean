import Mathlib.Data.List.Sort
import ConflictGraph.BestByKey
import ConflictGraph.GoRisk
import ConflictGraph.PyJson

/-!
# Predictions of a graph artifact

`LoadPredictions` decodes the artifact with `encoding/json`, checks and completes every
prediction, and keeps the most probable one of every pair; `predictionsForTests` drops those
of unknown tests. The decoder reads the members of an object in their order, matches names
without regard to case, leaves a field alone on `null`, and decodes an array into the slice
that is there. A document is the tree that the Python side reads too; the `NaN` and `Infinity`
of that dialect are syntax errors here, and do not occur.
-/

namespace ConflictGraph.Go

open Py (Json Str)

/-! ## Decoding -/

/-- A slice, with what its array holds beyond its length. -/
structure Slice (α : Type) : Type where
  items : List α := []
  beyond : List α := []

/-- The Go string of a text: a lone surrogate is `U+FFFD`. -/
def stringOf (s : Str) : String :=
  String.ofList (s.map fun c => if 0xD800 ≤ c ∧ c ≤ 0xDFFF then Char.ofNat 0xFFFD else Char.ofNat c)

/-- Decode into a `string`. -/
def decodeString (old : String) : Json → Option String
  | .null => some old
  | .string s => some (stringOf s)
  | _ => none

/-- Decode into a `float64`. -/
def decodeFloat (old : ℚ) : Json → Option ℚ
  | .null => some old
  | .int n =>
    match Py.Float64.ofRat n with
    | .finite q => some q
    | _ => none
  | .float (.finite q) => some q
  | _ => none

/-- Decode the elements of an array: into those of the slice that are there, and beyond its
length into what its array holds. -/
def decodeElements {α : Type} (decode : α → Json → Option α) (zero : α) :
    List α → List Json → Option (List α)
  | _, [] => some []
  | old, doc :: docs => do
    let item ← decode (old.head?.getD zero) doc
    return item :: (← decodeElements decode zero old.tail docs)

/-- Decode into a slice; `none` is the nil slice. -/
def decodeSlice {α : Type} (decode : α → Json → Option α) (zero : α) (old : Option (Slice α)) :
    Json → Option (Option (Slice α))
  | .null => some none
  | .array [] => some (some {})
  | .array docs => do
    let array := match old with
      | some slice => slice.items ++ slice.beyond
      | none => []
    let items ← decodeElements decode zero array docs
    return some ⟨items, array.drop items.length⟩
  | _ => none

/-- A `Prediction` while it is decoded. -/
structure PredictionSlot : Type where
  testA : String := ""
  testB : String := ""
  probability : ℚ := 0
  cause : String := ""
  modelVersion : String := ""
  sharedResources : Option (Slice String) := none
  explanation : String := ""
  predictedAt : Option ℤ := none

/-- The prediction that was decoded. -/
def PredictionSlot.prediction (slot : PredictionSlot) : Prediction :=
  ⟨slot.testA, slot.testB, slot.probability, slot.cause, slot.modelVersion,
    slot.sharedResources.map Slice.items, slot.explanation, slot.predictedAt⟩

/-- A member's name is that of a field, up to the case of its letters; `U+017F` is a small s,
and `U+212A` a capital K. -/
def nameIs (name : Str) (field : String) : Bool :=
  (name.map fun c =>
    if 65 ≤ c ∧ c ≤ 90 then c + 32 else if c = 0x17F then 115 else if c = 0x212A then 107 else c) =
      Py.str field

section Artifact

-- `Time.UnmarshalJSON` of a string; the zero time is `none`
variable (parseTime : Str → Option (Option ℤ))

/-- Decode into a `time.Time`. -/
def decodeTime (old : Option ℤ) : Json → Option (Option ℤ)
  | .null => some old
  | .string s => parseTime s
  | _ => none

/-- Decode a member of an object into the field of its name. -/
def decodeField (slot : PredictionSlot) (member : Str × Json) : Option PredictionSlot :=
  let (name, value) := member
  if nameIs name "test_a" then
    (decodeString slot.testA value).map fun testA => { slot with testA }
  else if nameIs name "test_b" then
    (decodeString slot.testB value).map fun testB => { slot with testB }
  else if nameIs name "probability" then
    (decodeFloat slot.probability value).map fun probability => { slot with probability }
  else if nameIs name "cause" then
    (decodeString slot.cause value).map fun cause => { slot with cause }
  else if nameIs name "model_version" then
    (decodeString slot.modelVersion value).map fun modelVersion => { slot with modelVersion }
  else if nameIs name "shared_resources" then
    (decodeSlice decodeString "" slot.sharedResources value).map fun sharedResources =>
      { slot with sharedResources }
  else if nameIs name "explanation" then
    (decodeString slot.explanation value).map fun explanation => { slot with explanation }
  else if nameIs name "predicted_at" then
    (decodeTime parseTime slot.predictedAt value).map fun predictedAt => { slot with predictedAt }
  else some slot

/-- Decode into a `Prediction`. -/
def decodePrediction (old : PredictionSlot) : Json → Option PredictionSlot
  | .null => some old
  | .object members => members.foldlM (decodeField parseTime) old
  | _ => none

/-- The `Predictions` of a `graphArtifact`; `none` is the error of `json.Unmarshal`. -/
def decodeArtifact : Json → Option (List Prediction)
  | .null => some []
  | .object members =>
    (members.foldlM (fun slice member =>
      if nameIs member.1 "predictions" then
        decodeSlice (decodePrediction parseTime) {} slice member.2
      else some slice) none).map fun slice =>
        match slice with
        | some slice => slice.items.map PredictionSlot.prediction
        | none => []
  | _ => none

/-! ## Loading -/

/-- The errors of `LoadPredictions` on content that can be read. -/
inductive LoadError : Type where
  /-- `parse prediction artifact`, with what `encoding/json` says -/
  | parse
  /-- `invalid prediction` of an index, with what is wrong -/
  | invalid (index : ℕ) (reason : String)
  deriving DecidableEq

/-- The defaults of the texts that the scheduler and the database need. -/
def Prediction.complete (p : Prediction) : Prediction :=
  { p with
    cause := if p.cause = "" then "UNKNOWN" else p.cause
    modelVersion := if p.modelVersion = "" then "unknown" else p.modelVersion }

/-- `PairKey` of a prediction's tests. -/
def Prediction.key (p : Prediction) : String := pairKey p.testA p.testB

/-- The loop of `LoadPredictions` over the predictions from an index on, up to the map. -/
def checkPredictions : ℕ → List Prediction → Except LoadError (List Prediction)
  | _, [] => .ok []
  | index, p :: rest =>
    match p.normalize with
    | .error reason => .error (.invalid index reason)
    | .ok p => (checkPredictions (index + 1) rest).map fun rest => p.complete :: rest

/-- The order of the result. -/
def Prediction.atMost (p q : Prediction) : Prop :=
  p.testA < q.testA ∨ (p.testA = q.testA ∧ p.testB ≤ q.testB)

instance : DecidableRel Prediction.atMost := fun _ _ => inferInstanceAs (Decidable (_ ∨ _))

/-- The most probable prediction of every pair, in order. The order in which the map is
iterated over is lost in the sort. -/
def deduplicate (predictions : List Prediction) : List Prediction :=
  (bestByKey Prediction.key Prediction.probability predictions).insertionSort Prediction.atMost

/-- `LoadPredictions`; `none` is a missing artifact. -/
def loadPredictions : Option Json → Except LoadError (List Prediction)
  | none => .ok []
  | some document =>
    match decodeArtifact parseTime document with
    | none => .error .parse
    | some predictions => (checkPredictions 0 predictions).map deduplicate

/-- `predictionsForTests`. -/
def predictionsForTests (artifact : Option Json) (tests : List Test) :
    Except LoadError (List Prediction) :=
  (loadPredictions parseTime artifact).map fun predictions =>
    predictions.filter fun p => p.testA ∈ tests.map Test.id ∧ p.testB ∈ tests.map Test.id

/-- The predictions that an artifact has. -/
def entriesOf : Option Json → Option (List Prediction)
  | none => some []
  | some document => decodeArtifact parseTime document

end Artifact

/-! ## What is loaded -/

/-- What the loop of `LoadPredictions` makes of a prediction. -/
def Prediction.checked (p : Prediction) : Prediction := p.ordered.complete

namespace Prediction

theorem ordered_of_normalize {p q : Prediction} (h : p.normalize = .ok q) : q = p.ordered := by
  unfold normalize at h
  split at h
  · cases h
  · split at h
    · cases h
    · exact (Except.ok.inj h).symm

theorem testA_ne_testB_of_normalize {p q : Prediction} (h : p.normalize = .ok q) :
    p.testA ≠ p.testB := by
  unfold normalize at h
  split at h
  · cases h
  · rename_i hids
    exact fun heq => hids (.inr (.inr heq))

@[simp] theorem checked_probability (p : Prediction) : p.checked.probability = p.probability :=
  p.ordered_probability

@[simp] theorem checked_sharedResources (p : Prediction) :
    p.checked.sharedResources = p.sharedResources := by
  rw [checked, ordered]
  split <;> rfl

@[simp] theorem checked_key (p : Prediction) : p.checked.key = p.key := by
  rw [checked, ordered]
  split
  · exact pairKey_comm ..
  · rfl

/-- The tests of a checked prediction are those of the prediction, the smaller one first. -/
theorem checked_tests (p : Prediction) :
    (p.checked.testA = p.testA ∧ p.checked.testB = p.testB ∧ p.testA ≤ p.testB) ∨
      (p.checked.testA = p.testB ∧ p.checked.testB = p.testA ∧ p.testB < p.testA) := by
  rw [checked, ordered]
  split
  · rename_i hlt
    exact .inr ⟨rfl, rfl, hlt⟩
  · rename_i hle
    exact .inl ⟨rfl, rfl, not_lt.mp hle⟩

/-- The tests of a checked prediction are known if those of the prediction are. -/
theorem checked_known {p : Prediction} {known : String → Prop} :
    known p.checked.testA ∧ known p.checked.testB ↔ known p.testA ∧ known p.testB := by
  rcases p.checked_tests with ⟨hA, hB, -⟩ | ⟨hA, hB, -⟩
  · rw [hA, hB]
  · rw [hA, hB, and_comm]

end Prediction

/-- What `LoadPredictions` makes of a prediction, `NewRiskIndex` accepts as it is. -/
theorem Prediction.normalize_checked {p q : Prediction} (h : p.normalize = .ok q) :
    p.checked.normalize = .ok p.checked := by
  have hids : ¬ (p.testA = "" ∨ p.testB = "" ∨ p.testA = p.testB) := by
    intro hbad
    rw [normalize, if_pos hbad] at h
    cases h
  have hrange := (normalize_probability h).2
  rw [(normalize_probability h).1] at hrange
  have hordered : p.checked.ordered = p.checked := by
    rw [ordered]
    rcases p.checked_tests with ⟨hA, hB, hle⟩ | ⟨hA, hB, hlt⟩
    · rw [hA, hB, if_neg (not_lt.mpr hle)]
    · rw [hA, hB, if_neg (lt_asymm hlt)]
  have hids' : ¬ (p.checked.testA = "" ∨ p.checked.testB = "" ∨
      p.checked.testA = p.checked.testB) := by
    rcases p.checked_tests with ⟨hA, hB, -⟩ | ⟨hA, hB, -⟩ <;> rw [hA, hB]
    · exact hids
    · rintro (hbad | hbad | hbad)
      · exact hids (.inr (.inl hbad))
      · exact hids (.inl hbad)
      · exact hids (.inr (.inr hbad.symm))
  rw [normalize, if_neg hids', hordered, checked_probability,
    if_neg (not_or.mpr ⟨not_lt.mpr hrange.1, not_lt.mpr hrange.2⟩)]

theorem checkPredictions_eq_ok {entries checked : List Prediction} :
    ∀ {index}, checkPredictions index entries = .ok checked →
      checked = entries.map Prediction.checked ∧ ∀ p ∈ entries, ∃ q, p.normalize = .ok q := by
  induction entries generalizing checked with
  | nil =>
    intro index h
    exact ⟨(Except.ok.inj h).symm, fun p hp => absurd hp List.not_mem_nil⟩
  | cons p rest ih =>
    intro index h
    rw [checkPredictions] at h
    cases hnorm : p.normalize with
    | error reason =>
      rw [hnorm] at h
      cases h
    | ok q =>
      rw [hnorm] at h
      obtain ⟨rest', hrest, rfl⟩ := eq_ok_of_map_eq_ok h
      obtain ⟨rfl, hall⟩ := ih hrest
      refine ⟨?_, List.forall_mem_cons.mpr ⟨⟨q, hnorm⟩, hall⟩⟩
      rw [Prediction.ordered_of_normalize hnorm]
      rfl

section Loaded

variable {parseTime : Str → Option (Option ℤ)} {artifact : Option Json} {tests : List Test}
  {predictions : List Prediction}

/-- What `LoadPredictions` returns: the checked entries, deduplicated and sorted. -/
theorem loadPredictions_eq_ok {loaded : List Prediction}
    (h : loadPredictions parseTime artifact = .ok loaded) :
    ∃ entries, entriesOf parseTime artifact = some entries ∧
      (∀ p ∈ entries, ∃ q, p.normalize = .ok q) ∧
      loaded = deduplicate (entries.map Prediction.checked) := by
  cases artifact with
  | none =>
    obtain rfl := Except.ok.inj h
    exact ⟨[], rfl, fun p hp => absurd hp List.not_mem_nil, rfl⟩
  | some document =>
    rw [loadPredictions] at h
    cases hdecode : decodeArtifact parseTime document with
    | none =>
      rw [hdecode] at h
      cases h
    | some entries =>
      rw [hdecode] at h
      obtain ⟨checked, hchecked, rfl⟩ := eq_ok_of_map_eq_ok h
      obtain ⟨rfl, hall⟩ := checkPredictions_eq_ok hchecked
      exact ⟨entries, hdecode, hall, rfl⟩

/-- No key is loaded twice. -/
theorem nodup_deduplicate (predictions : List Prediction) :
    ((deduplicate predictions).map Prediction.key).Nodup := by
  have hperm := List.perm_insertionSort Prediction.atMost
    (bestByKey Prediction.key Prediction.probability predictions)
  exact ((hperm.map Prediction.key).nodup_iff).mpr (nodup_bestByKey _)

/-- **What `predictionsForTests` returns**: of the predictions of every pair the first of the
highest probability, if its tests are known; all of them are checked. -/
theorem predictionsForTests_eq_ok
    (h : predictionsForTests parseTime artifact tests = .ok predictions) :
    ∃ entries, entriesOf parseTime artifact = some entries ∧
      (∀ p ∈ entries, p.testA ≠ p.testB ∧ 0 ≤ p.probability ∧ p.probability ≤ 1) ∧
      (predictions.map Prediction.key).Nodup ∧
      ∀ q, q ∈ predictions ↔ ∃ p, IsBest Prediction.key Prediction.probability entries p ∧
        (p.testA ∈ tests.map Test.id ∧ p.testB ∈ tests.map Test.id) ∧ p.checked = q := by
  obtain ⟨loaded, hload, rfl⟩ := eq_ok_of_map_eq_ok h
  obtain ⟨entries, hentries, hall, rfl⟩ := loadPredictions_eq_ok hload
  refine ⟨entries, hentries, fun p hp => ?_, (nodup_deduplicate _).sublist
    (List.filter_sublist.map _), fun q => ?_⟩
  · obtain ⟨q, hq⟩ := hall p hp
    have hprob := Prediction.normalize_probability hq
    rw [hprob.1] at hprob
    exact ⟨Prediction.testA_ne_testB_of_normalize hq, hprob.2⟩
  · rw [List.mem_filter, deduplicate, List.mem_insertionSort, mem_bestByKey,
      isBest_map_iff Prediction.checked_key Prediction.checked_probability, decide_eq_true_eq]
    refine ⟨?_, ?_⟩
    · rintro ⟨⟨p, hp, rfl⟩, hknown⟩
      exact ⟨p, hp, Prediction.checked_known.mp hknown, rfl⟩
    · rintro ⟨p, hp, hknown, rfl⟩
      exact ⟨⟨p, hp, rfl⟩, Prediction.checked_known.mpr hknown⟩

end Loaded

/-- An artifact with the given predictions. -/
def artifactOf (predictions : List Json) : Json :=
  .object [(Py.str "tests", .array []), (Py.str "predictions", .array predictions)]

/-- A prediction about two tests, with further members. -/
def predictionOf (testA testB : String) (probability : ℚ) (members : List (Str × Json)) : Json :=
  .object ([(Py.str "test_a", .string (Py.str testA)), (Py.str "test_b", .string (Py.str testB)),
    (Py.str "probability", .float (.finite probability))] ++ members)

example :
    loadPredictions (fun _ => none) (some (artifactOf [predictionOf "b" "a" (2 / 5) [],
      predictionOf "a" "b" (4 / 5) [(Py.str "model_version", .string (Py.str "v1"))]])) =
    .ok [{ testA := "a", testB := "b", probability := 4 / 5, cause := "UNKNOWN"
           modelVersion := "v1" }] := by
  decide +kernel

end ConflictGraph.Go
