import ConflictGraph.PyDataset
import ConflictGraph.PyEvent

/-!
# Rows of dataset files

`PairExample` and `DatasetMetadata` as dictionaries. A dictionary that is equal to that of a
row makes an equal row, in whatever order its keys are (`ExampleRow.exists_ofJson`).
-/

namespace ConflictGraph.Py

/-! ## JSON -/

/-- `v == w`: the order of the keys of a dictionary does not matter. -/
def Json.Same (v w : Json) : Prop := sorted v = sorted w

/-- `bool(value)`. -/
def Json.truthy : Json → Bool
  | .null => false
  | .bool b => b
  | .int n => n ≠ 0
  | .float value => value ≠ .finite 0
  | .string s => s ≠ []
  | .array items => !items.isEmpty
  | .object members => !members.isEmpty

/-- The items of a dictionary. -/
def Json.members? : Json → Option (List (Str × Json))
  | .object members => some members
  | .null => none
  | .bool _ => none
  | .int _ => none
  | .float _ => none
  | .string _ => none
  | .array _ => none

/-- The text that a value is. -/
def Json.string? : Json → Option Str
  | .string s => some s
  | .null => none
  | .bool _ => none
  | .int _ => none
  | .float _ => none
  | .array _ => none
  | .object _ => none

/-! ## Rows -/

/-- A `PairExample`, whose fields are not checked. -/
structure ExampleRow : Type where
  testA : Json
  testB : Json
  features : Json
  label : Json
  confidence : Json
  cause : Json
  splitGroup : Json
  resources : Json

namespace ExampleRow

/-- The items of `asdict`. -/
def members (e : ExampleRow) : List (Str × Json) :=
  [(str "test_a", e.testA), (str "test_b", e.testB), (str "features", e.features),
    (str "label", e.label), (str "confidence", e.confidence), (str "cause", e.cause),
    (str "split_group", e.splitGroup), (str "resources", e.resources)]

/-- `asdict`. -/
def asdict (e : ExampleRow) : Json := .object e.members

/-- The parameters of `PairExample`. -/
def names : List Str :=
  ["test_a", "test_b", "features", "label", "confidence", "cause", "split_group",
    "resources"].map str

/-- `PairExample(**value)`; `none` is its `TypeError`. -/
def ofJson (value : Json) : Option ExampleRow := do
  let members ← value.members?
  if members.all fun member => names.contains member.1 then
    return {
      testA := ← Json.lookup members "test_a"
      testB := ← Json.lookup members "test_b"
      features := ← Json.lookup members "features"
      label := ← Json.lookup members "label"
      confidence := ← Json.lookup members "confidence"
      cause := ← Json.lookup members "cause"
      splitGroup := ← Json.lookup members "split_group"
      resources := ← Json.lookup members "resources" }
  else none

end ExampleRow

/-- A `DatasetMetadata`, whose fields are not checked. -/
structure MetadataRow : Type where
  schemaVersion : Json
  createdAt : Json
  seed : Json
  sourceRuns : Json
  testCount : Json
  resourceCount : Json
  exampleCount : Json
  positiveExamples : Json
  negativeExamples : Json
  featureNames : Json
  traceQuality : Json
  contentHash : Json := .string []

namespace MetadataRow

/-- The items of `asdict`. -/
def members (m : MetadataRow) : List (Str × Json) :=
  [(str "schema_version", m.schemaVersion), (str "created_at", m.createdAt),
    (str "seed", m.seed), (str "source_runs", m.sourceRuns), (str "test_count", m.testCount),
    (str "resource_count", m.resourceCount), (str "example_count", m.exampleCount),
    (str "positive_examples", m.positiveExamples),
    (str "negative_examples", m.negativeExamples), (str "feature_names", m.featureNames),
    (str "trace_quality", m.traceQuality), (str "content_hash", m.contentHash)]

/-- `asdict`. -/
def asdict (m : MetadataRow) : Json := .object m.members

/-- The parameters of `DatasetMetadata`. -/
def names : List Str :=
  ["schema_version", "created_at", "seed", "source_runs", "test_count", "resource_count",
    "example_count", "positive_examples", "negative_examples", "feature_names",
    "trace_quality", "content_hash"].map str

/-- `DatasetMetadata(**metadata_raw)`; `none` is its `TypeError`. -/
def ofMembers (members : List (Str × Json)) : Option MetadataRow := do
  if members.all fun member => names.contains member.1 then
    return {
      schemaVersion := ← Json.lookup members "schema_version"
      createdAt := ← Json.lookup members "created_at"
      seed := ← Json.lookup members "seed"
      sourceRuns := ← Json.lookup members "source_runs"
      testCount := ← Json.lookup members "test_count"
      resourceCount := ← Json.lookup members "resource_count"
      exampleCount := ← Json.lookup members "example_count"
      positiveExamples := ← Json.lookup members "positive_examples"
      negativeExamples := ← Json.lookup members "negative_examples"
      featureNames := ← Json.lookup members "feature_names"
      traceQuality := ← Json.lookup members "trace_quality"
      contentHash := (Json.lookup members "content_hash").getD (.string []) }
  else none

end MetadataRow

/-- A `Dataset`. -/
structure DatasetRows : Type where
  examples : List ExampleRow
  metadata : MetadataRow

/-! ## What sorting leaves -/

theorem lookup_sortedMembers (members : List (Str × Json)) (key : Str) :
    (sortedMembers members).reverse.lookup key =
      (members.reverse.lookup key).map sorted := by
  induction members with
  | nil => rfl
  | cons member rest ih =>
    obtain ⟨name, value⟩ := member
    rw [sortedMembers, List.reverse_cons, List.reverse_cons, List.lookup_append,
      List.lookup_append, ih]
    -- of equal keys the last one counts, on both sides
    by_cases hkey : key = name
    · rw [hkey]
      cases rest.reverse.lookup name <;> simp
    · rw [lookup_cons_of_ne hkey, lookup_cons_of_ne hkey]
      cases rest.reverse.lookup key <;> simp

/-- What is looked up in dictionaries that are equal is equal. -/
theorem Json.Same.lookup {members members' : List (Str × Json)}
    (h : Json.Same (.object members) (.object members')) (key : Str) :
    (members.reverse.lookup key).map sorted = (members'.reverse.lookup key).map sorted := by
  have hsorted : sortMembers (sortedMembers members) = sortMembers (sortedMembers members') :=
    Json.object.inj h
  have hlast : ∀ value, (key, value) ∈ lastMembers (sortedMembers members) ↔
      (key, value) ∈ lastMembers (sortedMembers members') := by
    intro value
    rw [← (perm_sortMembers _).mem_iff, hsorted, (perm_sortMembers _).mem_iff]
  rw [← lookup_sortedMembers, ← lookup_sortedMembers]
  refine Option.ext fun value => ?_
  rw [← mem_lastMembers, ← mem_lastMembers, hlast]

/-- A value that is equal to a dictionary is one. -/
theorem Json.Same.exists_members {value : Json} {members : List (Str × Json)}
    (h : Json.Same value (.object members)) : ∃ members', value = .object members' := by
  cases value with
  | object members' => exact ⟨members', rfl⟩
  | null => cases h
  | bool b => cases h
  | int n => cases h
  | float x => cases h
  | string s => cases h
  | array items => cases h

/-- A value that is equal to a text is the text. -/
theorem Json.Same.eq_string {value : Json} {s : Str} (h : Json.Same value (.string s)) :
    value = .string s := by
  cases value with
  | string t => exact h
  | null => cases h
  | bool b => cases h
  | int n => cases h
  | float x => cases h
  | object members => cases h
  | array items => cases h

theorem Json.Same.exists_lookup {members members' : List (Str × Json)}
    (h : Json.Same (.object members') (.object members)) (key : String) {value : Json}
    (hvalue : Json.lookup members key = some value) :
    ∃ value', Json.lookup members' key = some value' ∧ Json.Same value' value := by
  have hlookup := h.lookup (str key)
  rw [Json.lookup] at hvalue
  rw [hvalue] at hlookup
  exact Option.map_eq_some_iff.mp hlookup

theorem Json.Same.exists_key {members members' : List (Str × Json)}
    (h : Json.Same (.object members') (.object members)) {member : Str × Json}
    (hmember : member ∈ members') : ∃ other ∈ members, other.1 = member.1 := by
  have hfound : (members'.reverse.lookup member.1).isSome = true :=
    List.lookup_isSome_iff.mpr ⟨member, List.mem_reverse.mpr hmember, BEq.refl _⟩
  have hfound' : (members.reverse.lookup member.1).isSome = true := by
    rw [← Option.isSome_map (f := sorted), ← h.lookup, Option.isSome_map, hfound]
  obtain ⟨other, hother, hkey⟩ := List.lookup_isSome_iff.mp hfound'
  exact ⟨other, List.mem_reverse.mp hother, (eq_of_beq hkey).symm⟩

/-- The keys of a dictionary that is equal to another are its keys. -/
theorem Json.Same.all_names {members members' : List (Str × Json)}
    (h : Json.Same (.object members') (.object members)) {names : List Str}
    (hnames : members.map Prod.fst = names) :
    (members'.all fun member => names.contains member.1) = true := by
  refine List.all_eq_true.mpr fun member hmember => List.contains_iff_mem.mpr ?_
  obtain ⟨other, hother, hkey⟩ := h.exists_key hmember
  rw [← hkey, ← hnames]
  exact List.mem_map_of_mem hother

/-- **A row is made of a dictionary** that is equal to that of a row, and is equal to it. -/
theorem ExampleRow.exists_ofJson {value : Json} {e : ExampleRow}
    (h : Json.Same value e.asdict) :
    ∃ e', ofJson value = some e' ∧ Json.Same e'.asdict e.asdict := by
  obtain ⟨members, rfl⟩ := Json.Same.exists_members h
  obtain ⟨testA, htestA, testASame⟩ :=
    Json.Same.exists_lookup h "test_a" rfl
  obtain ⟨testB, htestB, testBSame⟩ :=
    Json.Same.exists_lookup h "test_b" rfl
  obtain ⟨features, hfeatures, featuresSame⟩ :=
    Json.Same.exists_lookup h "features" rfl
  obtain ⟨label, hlabel, labelSame⟩ :=
    Json.Same.exists_lookup h "label" rfl
  obtain ⟨confidence, hconfidence, confidenceSame⟩ :=
    Json.Same.exists_lookup h "confidence" rfl
  obtain ⟨cause, hcause, causeSame⟩ :=
    Json.Same.exists_lookup h "cause" rfl
  obtain ⟨group, hgroup, groupSame⟩ :=
    Json.Same.exists_lookup h "split_group" rfl
  obtain ⟨resources, hresources, resourcesSame⟩ :=
    Json.Same.exists_lookup h "resources" rfl
  refine ⟨⟨testA, testB, features, label, confidence, cause, group, resources⟩, ?_, ?_⟩
  · refine (if_pos (Json.Same.all_names h rfl)).trans ?_
    rw [htestA, htestB, hfeatures, hlabel, hconfidence, hcause, hgroup, hresources]
    rfl
  · rw [Json.Same] at *
    simp only [asdict, ExampleRow.members, sorted, sortedMembers, testASame, testBSame,
      featuresSame, labelSame, confidenceSame, causeSame, groupSame, resourcesSame]

/-- So are the metadata. -/
theorem MetadataRow.exists_ofMembers {members : List (Str × Json)} {m : MetadataRow}
    (h : Json.Same (.object members) m.asdict) :
    ∃ m', ofMembers members = some m' ∧ Json.Same m'.asdict m.asdict ∧
      Json.Same m'.contentHash m.contentHash := by
  obtain ⟨version, hversion, versionSame⟩ :=
    Json.Same.exists_lookup h "schema_version" rfl
  obtain ⟨created, hcreated, createdSame⟩ :=
    Json.Same.exists_lookup h "created_at" rfl
  obtain ⟨seed, hseed, seedSame⟩ :=
    Json.Same.exists_lookup h "seed" rfl
  obtain ⟨runs, hruns, runsSame⟩ :=
    Json.Same.exists_lookup h "source_runs" rfl
  obtain ⟨tests, htests, testsSame⟩ :=
    Json.Same.exists_lookup h "test_count" rfl
  obtain ⟨found, hfound, foundSame⟩ :=
    Json.Same.exists_lookup h "resource_count" rfl
  obtain ⟨examples, hexamples, examplesSame⟩ :=
    Json.Same.exists_lookup h "example_count" rfl
  obtain ⟨positive, hpositive, positiveSame⟩ :=
    Json.Same.exists_lookup h "positive_examples" rfl
  obtain ⟨negative, hnegative, negativeSame⟩ :=
    Json.Same.exists_lookup h "negative_examples" rfl
  obtain ⟨features, hfeatures, featuresSame⟩ :=
    Json.Same.exists_lookup h "feature_names" rfl
  obtain ⟨quality, hquality, qualitySame⟩ :=
    Json.Same.exists_lookup h "trace_quality" rfl
  obtain ⟨hash, hhash, hashSame⟩ :=
    Json.Same.exists_lookup h "content_hash" rfl
  refine ⟨⟨version, created, seed, runs, tests, found, examples, positive, negative, features,
    quality, hash⟩, ?_, ?_, hashSame⟩
  · refine (if_pos (Json.Same.all_names h rfl)).trans ?_
    rw [hversion, hcreated, hseed, hruns, htests, hfound, hexamples, hpositive, hnegative,
      hfeatures, hquality, hhash]
    rfl
  · rw [Json.Same] at *
    simp only [asdict, MetadataRow.members, sorted, sortedMembers, versionSame, createdSame,
      seedSame, runsSame, testsSame, foundSame, examplesSame, positiveSame, negativeSame,
      featuresSame, qualitySame, hashSame]

end ConflictGraph.Py
