import ConflictGraph.Lines
import ConflictGraph.Loop
import ConflictGraph.PyArtifactFile
import ConflictGraph.PyDatasetRows

/-!
# Dataset files

`Dataset.save` writes a line of JSON for each example, and metadata with the digest of these
lines. `Dataset.load` parses both, and takes the digest again of what it has parsed: if the
lines have been replaced by others that stand for other values, it raises (`load_saved`). It
also raises for a schema that is not its own, and what `json.loads` raises besides a
`JSONDecodeError` it does not catch. Where `polars` can be imported, `save` makes a copy for
other tools as well, and raises if a row does not have a number for each feature.
-/

namespace ConflictGraph.Py

/-! ## JSON -/

/-- What `json.loads` raises. -/
inductive LoadsError : Type where
  /-- `json.JSONDecodeError` -/
  | decodeError
  | other (type : ExceptionType)
  deriving DecidableEq

/-- What the dataset files rely on of `json`. -/
structure JsonCodec : Type where
  /-- `json.dumps(value)` -/
  dumps : Json → Except ExceptionType Str
  /-- `json.dumps(value, indent=2)` -/
  dumpsIndented : Json → Except ExceptionType Str
  loads : Str → Except LoadsError Json

/-- The characters at which `str.splitlines` ends a line. -/
def breaksLine (c : ℕ) : Bool := c ∈ [10, 11, 12, 13, 28, 29, 30, 0x85, 0x2028, 0x2029]

/-! ## The copy for other tools -/

/-- What iterating over a value yields; `none` is the `TypeError` of a value that is not
iterable. -/
def Json.iterate : Json → Option (List Json)
  | .array items => some items
  | .string s => some (s.map fun c => .string [c])
  | .object members => some ((members.map Prod.fst).eraseDups.map .string)
  | .null => none
  | .bool _ => none
  | .int _ => none
  | .float _ => none

/-- `dict(zip(PairFeatures.FEATURE_NAMES, item.features, strict=True))`. -/
def ExampleRow.namedFeatures (e : ExampleRow) : Except ExceptionType (List (Str × Json)) :=
  match e.features.iterate with
  | none => .error .typeError
  | some items =>
    if PairFeatures.featureNames.length = items.length then
      .ok (PairFeatures.featureNames.zip items)
    else .error .valueError

/-- A row of the copy. -/
def ExampleRow.flattened (e : ExampleRow) : Except ExceptionType (List (Str × Json)) :=
  e.namedFeatures.map fun features =>
    [(str "test_a", e.testA), (str "test_b", e.testB), (str "label", e.label),
      (str "confidence", e.confidence), (str "cause", e.cause),
      (str "split_group", e.splitGroup), (str "resources", e.resources)] ++ features

/-- `pl.DataFrame(rows).write_parquet(…)`: what it raises, an `ImportError` apart, which `save`
passes over. -/
abbrev Polars : Type := List (List (Str × Json)) → Option ExceptionType

/-- The copy that `Dataset.save` makes where `polars` can be imported. -/
def copyRows (polars : Option Polars) (examples : List ExampleRow) : Except ExceptionType Unit :=
  match polars with
  | none => .ok ()
  | some writeParquet => do
    let flattened ← examples.mapM ExampleRow.flattened
    (writeParquet flattened).elim (.ok ()) .error

/-- The row has a number for each feature. -/
def ExampleRow.HasFeatures (e : ExampleRow) : Prop :=
  ∃ items, e.features = .array items ∧ items.length = PairFeatures.featureNames.length

/-- The features of a pair are as many as a row must have. -/
theorem PairFeatures.hasFeatures {e : ExampleRow} (f : PairFeatures)
    (h : e.features = .array (f.vector.map fun value => .float (.finite value))) :
    e.HasFeatures :=
  ⟨_, h, by rw [List.length_map, f.length_vector]⟩

/-- A row with all its features can be copied. -/
theorem ExampleRow.HasFeatures.exists_flattened {e : ExampleRow} (h : e.HasFeatures) :
    ∃ row, e.flattened = .ok row := by
  obtain ⟨items, hitems, hlength⟩ := h
  rw [flattened, namedFeatures, hitems]
  exact ⟨_, congrArg (Except.map _) (if_pos hlength.symm)⟩

/-- The copy of rows with all their features fails only if `polars` fails. -/
theorem copyRows_eq_ok {polars : Option Polars} {examples : List ExampleRow}
    (hfeatures : polars.isSome → ∀ e ∈ examples, e.HasFeatures)
    (hwrites : ∀ writeParquet ∈ polars, ∀ rows, examples.mapM ExampleRow.flattened = .ok rows →
      writeParquet rows = none) : copyRows polars examples = .ok () := by
  rcases polars with _ | writeParquet
  · rfl
  · obtain ⟨rows, hrows⟩ := exists_mapM_eq_ok_iff.mpr fun e he =>
      (hfeatures rfl e he).exists_flattened
    rw [copyRows, hrows]
    exact congrArg (Option.elim · _ _) (hwrites writeParquet rfl rows hrows)

/-! ## Files -/

/-- The files of a directory, which may be missing. -/
structure DatasetFiles : Type where
  /-- `metadata.json` -/
  metadata : Option Str
  /-- `examples.jsonl` -/
  examples : Option Str

/-- The failures of `Dataset.load`. -/
inductive LoadError : Type where
  /-- `ArtifactError`: a file is missing or is not JSON -/
  | invalid
  /-- `ArtifactError`: the schema is another one -/
  | unsupportedSchema
  /-- `ArtifactError`: the digest is another one -/
  | hashMismatch
  /-- `ArtifactError`: a row has other fields -/
  | rowMismatch
  /-- an exception that is not caught -/
  | uncaught (type : ExceptionType)
  deriving DecidableEq

/-- The failure is an `ArtifactError`. -/
def LoadError.IsArtifactError (e : LoadError) : Prop := ∀ type, e ≠ .uncaught type

namespace JsonCodec

variable (codec : JsonCodec) (sha256 : Str → Str)

/-- `json.dumps(value, sort_keys=True)`. -/
def dumpsSorted (value : Json) : Except ExceptionType Str := codec.dumps (sorted value)

/-- `payload`. -/
def payload (values : List Json) : Except ExceptionType Str :=
  (values.mapM codec.dumpsSorted).map (linesText 10)

/-- `Dataset.save`: the files that `load` reads, and the dataset, whose metadata it changes.
They are on disk when the copy is made, so a `save` that raises there has written them. -/
def save (polars : Option Polars) (d : DatasetRows) :
    Except ExceptionType (DatasetFiles × DatasetRows) := do
  let payload ← codec.payload (d.examples.map ExampleRow.asdict)
  let metadata := { d.metadata with contentHash := .string (sha256 payload) }
  let text ← codec.dumpsIndented (sorted metadata.asdict)
  copyRows polars d.examples
  return (⟨some (text ++ [10]), some payload⟩, { d with metadata := metadata })

/-- What `load` makes of an exception of `json.loads`. -/
def caught : LoadsError → LoadError
  | .decodeError => .invalid
  | .other type => .uncaught type

/-- The values of the lines of `examples.jsonl`. -/
def readLines (text : Str) : Except LoadsError (List Json) :=
  (nonEmptyLines breaksLine text).mapM codec.loads

/-- `PairExample(**value)`, with the exception that `load` makes of a `TypeError`. -/
def rowOf (value : Json) : Except LoadError ExampleRow :=
  (ExampleRow.ofJson value).elim (.error .rowMismatch) .ok

/-- The checks of `load`, and what it makes of what was read. -/
def check (metadataRaw : List (Str × Json)) (examplesRaw : List Json) :
    Except LoadError DatasetRows :=
  if (Json.lookup metadataRaw "schema_version").bind Json.string? ≠ some schemaVersion then
    .error .unsupportedSchema
  else
    (MetadataRow.ofMembers metadataRaw).elim (.error (.uncaught .typeError)) fun metadata => do
      let payload ← (codec.payload examplesRaw).mapError .uncaught
      if metadata.contentHash.truthy ∧ metadata.contentHash.string? ≠ some (sha256 payload) then
        .error .hashMismatch
      else
        (examplesRaw.mapM rowOf).map fun examples => ⟨examples, metadata⟩

/-- `Dataset.load`. -/
def load (files : DatasetFiles) : Except LoadError DatasetRows :=
  files.metadata.elim (.error .invalid) fun metadataText => do
    let metadataRaw ← (codec.loads metadataText).mapError caught
    files.examples.elim (.error .invalid) fun text => do
      let examplesRaw ← (codec.readLines text).mapError caught
      metadataRaw.members?.elim (.error (.uncaught .attributeError)) fun members =>
        codec.check sha256 members examplesRaw

end JsonCodec

/-! ## Lines of JSON -/

namespace JsonCodec

variable {codec : JsonCodec} {sha256 : Str → Str}

/-- The line is the text of the value, and is read as an equal one. -/
structure Writes (codec : JsonCodec) (value : Json) (line : Str) : Prop where
  dumps : codec.dumpsSorted value = .ok line
  isLine : IsLine breaksLine line
  loads : ∃ found, codec.loads line = .ok found ∧ Json.Same found value

/-- JSON carries the value, on one line. -/
def Carries (codec : JsonCodec) (value : Json) : Prop := ∃ line, codec.Writes value line

theorem exists_writes {values : List Json} (h : ∀ value ∈ values, codec.Carries value) :
    ∃ lines, List.Forall₂ codec.Writes values lines := by
  induction values with
  | nil => exact ⟨[], .nil⟩
  | cons value rest ih =>
    rw [List.forall_mem_cons] at h
    obtain ⟨line, hline⟩ := h.1
    obtain ⟨lines, hlines⟩ := ih h.2
    exact ⟨line :: lines, .cons hline hlines⟩

/-- The order of the keys is nothing to what is written. -/
theorem dumpsSorted_congr {value value' : Json} (h : Json.Same value value') :
    codec.dumpsSorted value = codec.dumpsSorted value' :=
  congrArg codec.dumps h

theorem payload_congr {values values' : List Json} (h : List.Forall₂ Json.Same values values') :
    codec.payload values = codec.payload values' := by
  have hall : values.mapM codec.dumpsSorted = values'.mapM codec.dumpsSorted := by
    induction h with
    | nil => rfl
    | cons hsame _ ih => rw [List.mapM_cons, List.mapM_cons, dumpsSorted_congr hsame, ih]
  rw [payload, payload, hall]

section Written

variable {values : List Json} {lines : List Str} (h : List.Forall₂ codec.Writes values lines)

include h

/-- The payload are the lines of the rows. -/
theorem payload_eq_of_writes : codec.payload values = .ok (linesText 10 lines) := by
  rw [payload, mapM_eq_ok_of_forall₂ (h.imp fun _ _ hline => hline.dumps)]
  rfl

theorem isLine_of_writes : ∀ line ∈ lines, IsLine breaksLine line := by
  induction h with
  | nil => exact List.forall_mem_nil _
  | cons hline _ ih => exact List.forall_mem_cons.mpr ⟨hline.isLine, ih⟩

/-- The lines are read as values that are equal to those that were written. -/
theorem readLines_of_writes : ∃ found, codec.readLines (linesText 10 lines) = .ok found ∧
    List.Forall₂ Json.Same found values := by
  rw [readLines, nonEmptyLines_linesText (by decide) (isLine_of_writes h)]
  induction h with
  | nil => exact ⟨[], rfl, .nil⟩
  | cons hline _ ih =>
    obtain ⟨found, hfound, hsame⟩ := ih
    obtain ⟨value, hvalue, hvalueSame⟩ := hline.loads
    refine ⟨value :: found, ?_, .cons hvalueSame hsame⟩
    rw [List.mapM_cons, hvalue, hfound]
    rfl

end Written

/-- The same lines stand for equal values. -/
theorem same_of_writes {values values' : List Json} {lines : List Str}
    (h : List.Forall₂ codec.Writes values lines) (h' : List.Forall₂ codec.Writes values' lines) :
    List.Forall₂ Json.Same values values' := by
  induction h generalizing values' with
  | nil =>
    cases h'
    exact .nil
  | cons hline _ ih =>
    cases h' with
    | cons hline' hrest =>
      obtain ⟨found, hfound, hsame⟩ := hline.loads
      obtain ⟨found', hfound', hsame'⟩ := hline'.loads
      obtain rfl := Except.ok.inj (hfound.symm.trans hfound')
      exact .cons (hsame.symm.trans hsame') (ih hrest)

/-! ## Loading -/

/-- The dictionaries of equal rows are made equal rows. -/
theorem mapM_rowOf {values : List Json} {rows : List ExampleRow}
    (h : List.Forall₂ Json.Same values (rows.map ExampleRow.asdict)) :
    ∃ rows', values.mapM rowOf = .ok rows' ∧
      List.Forall₂ (fun e' e => Json.Same e'.asdict e.asdict) rows' rows := by
  induction rows generalizing values with
  | nil =>
    cases h
    exact ⟨[], rfl, .nil⟩
  | cons e rest ih =>
    rcases h with _ | ⟨hsame, hrest⟩
    obtain ⟨e', he', hsame'⟩ := ExampleRow.exists_ofJson hsame
    obtain ⟨rows', hrows', hall⟩ := ih hrest
    refine ⟨e' :: rows', ?_, .cons hsame' hall⟩
    rw [List.mapM_cons, rowOf, he', hrows']
    rfl

/-- Another schema is refused before anything else is looked at. -/
theorem check_eq_unsupportedSchema {members : List (Str × Json)} {values : List Json}
    (h : (Json.lookup members "schema_version").bind Json.string? ≠ some schemaVersion) :
    codec.check sha256 members values = .error .unsupportedSchema :=
  if_pos h

/-- What the checks come to for the metadata of a dataset of this schema. -/
theorem check_eq (sha256 : Str → Str) {members : List (Str × Json)} {m : MetadataRow}
    {digest payload : Str} {values : List Json} (hmetadata : Json.Same (.object members) m.asdict)
    (hversion : m.schemaVersion = .string schemaVersion)
    (hhash : m.contentHash = .string digest) (hpayload : codec.payload values = .ok payload) :
    ∃ m', Json.Same m'.asdict m.asdict ∧ codec.check sha256 members values =
      if digest ≠ [] ∧ digest ≠ sha256 payload then .error .hashMismatch
      else (values.mapM rowOf).map fun examples => ⟨examples, m'⟩ := by
  obtain ⟨version, hlookup, hsame⟩ := Json.Same.exists_lookup hmetadata "schema_version" rfl
  rw [hversion] at hsame
  obtain rfl := hsame.eq_string
  obtain ⟨m', hm', hsame', hdigest⟩ := MetadataRow.exists_ofMembers hmetadata
  rw [hhash] at hdigest
  refine ⟨m', hsame', ?_⟩
  rw [check, hlookup, hm', hpayload, if_neg (by simp [Json.string?]), Option.elim_some]
  dsimp only [Except.mapError, bind, Except.bind]
  rw [hdigest.eq_string]
  simp [Json.truthy, Json.string?]

end JsonCodec

/-- The two datasets are equal. -/
structure DatasetRows.Same (d d' : DatasetRows) : Prop where
  examples : List.Forall₂ (fun e e' => Json.Same e.asdict e'.asdict) d.examples d'.examples
  metadata : Json.Same d.metadata.asdict d'.metadata.asdict

namespace JsonCodec

variable {codec : JsonCodec} {sha256 : Str → Str}

/-- JSON carries the values of a line, if there are any, and nothing but a `JSONDecodeError`
comes of it otherwise. -/
structure Parses (codec : JsonCodec) (line : Str) : Prop where
  carries : ∀ value, codec.loads line = .ok value → codec.Carries value
  decodeError : ∀ e, codec.loads line = .error e → e = .decodeError

section Save

variable {polars : Option Polars} {d : DatasetRows} {payload text : Str}
  (hpayload : codec.payload (d.examples.map ExampleRow.asdict) = .ok payload)
  (htext : codec.dumpsIndented (sorted
    { d.metadata with contentHash := .string (sha256 payload) }.asdict) = .ok text)

include hpayload htext

/-- What `save` writes and returns, where the copy succeeds. -/
theorem save_eq_ok (hcopy : copyRows polars d.examples = .ok ()) :
    codec.save sha256 polars d = .ok (⟨some (text ++ [10]), some payload⟩,
      { d with metadata := { d.metadata with contentHash := .string (sha256 payload) } }) := by
  rw [save, hpayload]
  dsimp only [bind, Except.bind]
  rw [htext]
  dsimp only
  rw [hcopy]
  rfl

/-- What the copy raises, `save` raises. -/
theorem save_eq_error {e : ExceptionType} (hcopy : copyRows polars d.examples = .error e) :
    codec.save sha256 polars d = .error e := by
  rw [save, hpayload]
  dsimp only [bind, Except.bind]
  rw [htext]
  dsimp only
  rw [hcopy]

end Save

/-- What loading comes to when the metadata are a dictionary. -/
theorem load_eq {metadataText examples : Str} {members : List (Str × Json)}
    (h : codec.loads metadataText = .ok (.object members)) :
    codec.load sha256 ⟨some metadataText, some examples⟩ =
      ((codec.readLines examples).mapError caught).bind fun values =>
        codec.check sha256 members values := by
  rw [load, Option.elim_some, h]
  rfl

/-- What was written parses. -/
theorem Writes.parses {value : Json} {line : Str} (h : codec.Writes value line) :
    codec.Parses line := by
  obtain ⟨found, hfound, hsame⟩ := h.loads
  refine ⟨fun value' hvalue' => ?_, fun e he => ?_⟩
  · obtain rfl := Except.ok.inj (hfound.symm.trans hvalue')
    exact ⟨line, (dumpsSorted_congr hsame).trans h.dumps, h.isLine, found, hfound, Eq.refl _⟩
  · rw [hfound] at he
    cases he

/-- The metadata have a text, which is read as equal metadata. -/
def CarriesMetadata (codec : JsonCodec) (m : MetadataRow) : Prop :=
  ∃ text, codec.dumpsIndented (sorted m.asdict) = .ok text ∧
    ∃ found, codec.loads (text ++ [10]) = .ok found ∧ Json.Same found m.asdict

/-- **Dataset files round-trip and reveal tampering.** What `save` has written of a dataset of
this schema `load` reads as an equal one, where `polars` is missing, or all rows have their
features and it writes them; and if the examples are replaced by lines that stand for other
values, or for none, `load` raises an `ArtifactError`. -/
theorem load_saved (hinjective : Function.Injective sha256) (hdigest : ∀ s, sha256 s ≠ [])
    {polars : Option Polars} {d : DatasetRows}
    (hversion : d.metadata.schemaVersion = .string schemaVersion)
    (hrows : ∀ e ∈ d.examples, codec.Carries e.asdict)
    (hmetadata : ∀ payload, codec.payload (d.examples.map ExampleRow.asdict) = .ok payload →
      codec.CarriesMetadata { d.metadata with contentHash := .string (sha256 payload) })
    (hfeatures : polars.isSome → ∀ e ∈ d.examples, e.HasFeatures)
    (hwrites : ∀ writeParquet ∈ polars, ∀ rows,
      d.examples.mapM ExampleRow.flattened = .ok rows → writeParquet rows = none) :
    ∃ files saved, codec.save sha256 polars d = .ok (files, saved) ∧
      saved.examples = d.examples ∧
      (∃ loaded, codec.load sha256 files = .ok loaded ∧ loaded.Same saved) ∧
      ∀ text, (∀ line ∈ nonEmptyLines breaksLine text, codec.Parses line) →
        (¬ ∃ values, codec.readLines text = .ok values ∧
          List.Forall₂ Json.Same values (d.examples.map ExampleRow.asdict)) →
        ∃ e, codec.load sha256 { files with examples := some text } = .error e ∧
          e.IsArtifactError := by
  obtain ⟨lines, hlines⟩ := exists_writes (List.forall_mem_map.mpr hrows)
  have hpayload := payload_eq_of_writes hlines
  obtain ⟨text, htext, found, hfound, hsame⟩ := hmetadata _ hpayload
  obtain ⟨members, rfl⟩ := hsame.exists_members
  refine ⟨_, _, save_eq_ok hpayload htext (copyRows_eq_ok hfeatures hwrites), rfl, ?_,
    fun other hparses hdiffers => ?_⟩
  -- what the lines are read as is dumped to the same lines, and has the same digest
  · obtain ⟨values, hvalues, hall⟩ := readLines_of_writes hlines
    obtain ⟨m', hm', hcheck⟩ := check_eq sha256 hsame hversion rfl
      ((payload_congr hall).trans hpayload)
    obtain ⟨rows, hrowsOk, hrowsSame⟩ := mapM_rowOf hall
    refine ⟨⟨rows, m'⟩, ?_, hrowsSame, hm'⟩
    rw [load_eq hfound, hvalues]
    refine hcheck.trans ?_
    rw [if_neg (by simp), hrowsOk]
    rfl
  · rw [load_eq hfound]
    rcases hread : codec.readLines other with e | values
    -- a line that is no JSON is found out before the digest is taken
    · obtain ⟨line, hline, hfail⟩ := exists_of_mapM_eq_error hread
      obtain rfl := (hparses line hline).decodeError e hfail
      exact ⟨.invalid, rfl, fun type h => by cases h⟩
    · have hcarries : ∀ value ∈ values, codec.Carries value := by
        intro value hvalue
        obtain ⟨line, hline, hvalue⟩ := exists_of_mem_mapM hread value hvalue
        exact (hparses line hline).carries value hvalue
      obtain ⟨lines', hlines'⟩ := exists_writes hcarries
      obtain ⟨m', -, hcheck⟩ := check_eq sha256 hsame hversion rfl
        (payload_eq_of_writes hlines')
      -- equal digests are digests of the same lines, which stand for equal values
      have hdigests : sha256 (linesText 10 lines) ≠ sha256 (linesText 10 lines') := by
        intro heq
        have hequal := eq_of_linesText_eq (by decide) (isLine_of_writes hlines)
          (isLine_of_writes hlines') (hinjective heq)
        rw [← hequal] at hlines'
        exact hdiffers ⟨values, hread, same_of_writes hlines' hlines⟩
      rw [if_pos ⟨hdigest _, hdigests⟩] at hcheck
      exact ⟨.hashMismatch, hcheck, fun type h => by cases h⟩

end JsonCodec

/-! ## A dataset of one row -/

/-- The features of two tests that write one file. -/
def oneFile : PairFeatures where
  testA := str "a"
  testB := str "b"
  sharedResources := 1
  sharedFiles := 1
  sharedWrites := 1
  readWrite := 0
  writeWrite := 1
  createCreate := 0
  deleteRead := 0
  sharedBind := 0
  sharedLocks := 0
  sharedRedisWrites := 0
  sharedUnixSockets := 0
  sharedDatabases := 0
  resourceJaccard := 1
  minimumRarity := 1 / 2
  meanRarity := 1 / 2
  durationA := 1
  durationB := 1
  failureRateA := 0
  failureRateB := 0
  historicalConcurrency := 0
  historicalCofailures := 0
  temporalOverlap := 0
  evidence := []

/-- The row of the pair. -/
def oneRow : ExampleRow where
  testA := .string (str "a")
  testB := .string (str "b")
  features := .array (oneFile.vector.map fun value => .float (.finite value))
  label := .int 1
  confidence := .float (.finite 1)
  cause := .string (str "FILE_COLLISION")
  splitGroup := .string (str "g")
  resources := .array [.string (str "file:/tmp/x")]

/-- The line of the row. -/
def oneRowLine : Str :=
  str "\x7b\"cause\": \"FILE_COLLISION\", \"confidence\": 1.0, \"features\": [1.0, 1.0, 1.0, " ++
    str "0.0, 1.0, 0.0, 0.0, 0.0, 0.0, 0.0, 0.0, 0.0, 1.0, 0.5, 0.5, 1.0, 1.0, 0.0, 0.0, 0.0, " ++
    str "0.0, 0.0], \"label\": 1, \"resources\": [\"file:/tmp/x\"], \"split_group\": \"g\", " ++
    str "\"test_a\": \"a\", \"test_b\": \"b\"\x7d"

/-- The metadata of a dataset of the row, with a digest. -/
def oneRowMetadata (version : Str) (digest : Str) : MetadataRow where
  schemaVersion := .string version
  createdAt := .string (str "2026-01-01T00:00:00+00:00")
  seed := .int 42
  sourceRuns := .array [.string (str "r")]
  testCount := .int 2
  resourceCount := .int 1
  exampleCount := .int 1
  positiveExamples := .int 1
  negativeExamples := .int 0
  featureNames := .array (PairFeatures.featureNames.map .string)
  traceQuality := .float (.finite 1)
  contentHash := .string digest

/-- The digest of the line, and something else for every other text. -/
def oneRowDigest (s : Str) : Str :=
  if s = linesText 10 [oneRowLine] then
    str "d0615eefd226d73b7f0c258416f2d63984bb40ccffcdcdb7cbdfb6995896abda"
  else 0 :: s

/-- The metadata with the digest of the line. -/
def oneRowSaved (version : Str) : MetadataRow :=
  oneRowMetadata version (oneRowDigest (linesText 10 [oneRowLine]))

/-- An interpreter that writes three numbers. -/
def rowInterpreter : Interpreter :=
  { asciiInterpreter with
    repr := fun
      | .float (.finite value) =>
        some (str (if value = 0 then "0.0" else if value = 1 then "1.0" else "0.5"))
      | _ => some [] }

/-- The text of the metadata. -/
def oneRowText (version : Str) : Str :=
  (artifactText rowInterpreter (oneRowSaved version).asdict).getD []

/-- An integer of a digit more than `int` takes. -/
def tooManyDigits : Str := List.replicate 4301 49

/-- `json.loads` of the texts that are read below. -/
def oneRowLoads (version text : Str) : Except LoadsError Json :=
  if text = oneRowLine then .ok oneRow.asdict
  else if text = oneRowText version then .ok (oneRowSaved version).asdict
  else if text = str "\x7b\x7d" then .ok (.object [])
  else if text = tooManyDigits then .error (.other .valueError)
  else .error .decodeError

/-- What `json.dumps` returns or raises. -/
def written (text : Option Str) : Except ExceptionType Str := text.elim (.error .valueError) .ok

/-- The JSON of the interpreter. -/
def oneRowCodec (version : Str) : JsonCodec where
  dumps value := written (encode rowInterpreter value)
  dumpsIndented value := written (encodeIndented rowInterpreter 0 value)
  loads := oneRowLoads version

/-- A `polars` that writes every table. -/
def anyTable : Polars := fun _ => none

theorem oneRowCodec_writes {version : Str} {value : Json} {line : Str}
    (hencode : encode rowInterpreter (sorted value) = some line) (hline : IsLine breaksLine line)
    (hloads : oneRowLoads version line = .ok value) :
    (oneRowCodec version).Writes value line :=
  ⟨congrArg written hencode, hline, value, hloads, Eq.refl _⟩

theorem oneRow_writes (version : Str) : (oneRowCodec version).Writes oneRow.asdict oneRowLine :=
  oneRowCodec_writes (by decide +kernel) ⟨by decide +kernel, by decide +kernel⟩ (if_pos rfl)

theorem tooManyDigits_ne {s : Str} (h : s.head? ≠ some 49) : tooManyDigits ≠ s := by
  rintro rfl
  rw [tooManyDigits, List.head?_replicate] at h
  exact h (if_neg (by decide))

theorem injective_oneRowDigest : Function.Injective oneRowDigest := by
  intro s t h
  rw [oneRowDigest, oneRowDigest] at h
  split at h
  · rename_i hs
    split at h
    · rename_i ht
      exact hs.trans ht.symm
    · exact absurd (List.cons.inj h).1 (by decide +kernel)
  · split at h
    · exact absurd (List.cons.inj h).1 (by decide +kernel)
    · exact (List.cons.inj h).2

theorem oneRowDigest_ne_nil (s : Str) : oneRowDigest s ≠ [] := by
  rw [oneRowDigest]
  split
  · decide +kernel
  · exact List.cons_ne_nil _ _

theorem exists_encodeIndentedMembers {interpreter : Interpreter} {level : ℕ}
    {members : List (Str × Json)}
    (h : ∀ member ∈ members, ∃ text, encodeIndented interpreter (level + 1) member.2 = some text) :
    ∃ texts, encodeIndentedMembers interpreter level members = some texts := by
  induction members with
  | nil => exact ⟨[], rfl⟩
  | cons member rest ih =>
    rw [List.forall_mem_cons] at h
    obtain ⟨text, htext⟩ := h.1
    obtain ⟨texts, htexts⟩ := ih h.2
    refine ⟨(encodeString member.1 ++ 58 :: 32 :: text) :: texts, ?_⟩
    rw [encodeIndentedMembers, htext, htexts]
    rfl

/-- The metadata have a text, whatever their schema and their digest. -/
theorem exists_indented_oneRow (version digest : Str) : ∃ text,
    encodeIndented rowInterpreter 0 (sorted (oneRowMetadata version digest).asdict) =
      some text := by
  have hvalues : ∀ member ∈ sortedMembers (oneRowMetadata version digest).members,
      ∃ text, encodeIndented rowInterpreter 1 member.2 = some text := by
    simp only [MetadataRow.members, oneRowMetadata, sortedMembers, sorted,
      sortedItems, List.forall_mem_cons, List.not_mem_nil, false_implies, implies_true, and_true]
    exact ⟨⟨_, rfl⟩, ⟨_, rfl⟩, ⟨_, rfl⟩, ⟨_, rfl⟩, ⟨_, rfl⟩, ⟨_, rfl⟩, ⟨_, rfl⟩, ⟨_, rfl⟩,
      ⟨_, rfl⟩, ⟨_, rfl⟩, ⟨_, rfl⟩, ⟨_, rfl⟩⟩
  obtain ⟨texts, htexts⟩ := @exists_encodeIndentedMembers rowInterpreter 0 _ fun member hmember =>
    hvalues member (mem_of_mem_sortMembers hmember)
  refine ⟨123 :: (onLines 0 texts ++ [125]), ?_⟩
  rw [MetadataRow.asdict, sorted, encodeIndented, htexts]
  rfl

section Saved

variable {version text : Str} (h : encodeIndented rowInterpreter 0
  (sorted (oneRowSaved version).asdict) = some text)

include h

theorem oneRowText_eq : oneRowText version = text ++ [10] := by
  rw [oneRowText, artifactText, h]
  rfl

theorem loads_oneRowText :
    (oneRowCodec version).loads (text ++ [10]) = .ok (oneRowSaved version).asdict := by
  have hbreaks : text ++ [10] ≠ oneRowLine := by
    intro heq
    have hmem : 10 ∈ oneRowLine := heq ▸ List.mem_append_right _ List.mem_cons_self
    exact absurd ((oneRow_writes version).isLine.unbroken 10 hmem) (by decide)
  exact (if_neg hbreaks).trans (if_pos (oneRowText_eq h).symm)

theorem save_oneRow : (oneRowCodec version).save oneRowDigest none
    ⟨[oneRow], oneRowMetadata version []⟩ =
      .ok (⟨some (text ++ [10]), some (linesText 10 [oneRowLine])⟩,
        ⟨[oneRow], oneRowSaved version⟩) :=
  JsonCodec.save_eq_ok (JsonCodec.payload_eq_of_writes (.cons (oneRow_writes version) .nil))
    (congrArg written h) rfl

end Saved

/-- A row and its metadata are read back, the copy being made, and an empty dictionary after the
row is found out. -/
theorem load_saved_of_oneRow :
    ∃ files saved, (oneRowCodec schemaVersion).save oneRowDigest (some anyTable)
        ⟨[oneRow], oneRowMetadata schemaVersion []⟩ = .ok (files, saved) ∧
      saved.examples = [oneRow] ∧
      (∃ loaded, (oneRowCodec schemaVersion).load oneRowDigest files = .ok loaded ∧
        loaded.Same saved) ∧
      ∃ e, (oneRowCodec schemaVersion).load oneRowDigest { files with
        examples := some (linesText 10 [oneRowLine, str "\x7b\x7d"]) } = .error e ∧
        e.IsArtifactError := by
  have hwrites := oneRow_writes schemaVersion
  have hempty : (oneRowCodec schemaVersion).Writes (.object []) (str "\x7b\x7d") := by
    refine oneRowCodec_writes (by decide +kernel) ⟨by decide, by decide⟩ ?_
    rw [oneRowLoads, if_neg (by decide +kernel), if_neg (by decide +kernel), if_pos rfl]
  have hpayload := JsonCodec.payload_eq_of_writes (.cons hwrites .nil)
  obtain ⟨text, htext⟩ := exists_indented_oneRow schemaVersion
    (oneRowDigest (linesText 10 [oneRowLine]))
  have hmetadata : (oneRowCodec schemaVersion).CarriesMetadata (oneRowSaved schemaVersion) :=
    ⟨text, congrArg written htext, _, loads_oneRowText htext, Eq.refl _⟩
  obtain ⟨files, saved, hsave, hexamples, hload, htampered⟩ :=
    JsonCodec.load_saved (d := ⟨[oneRow], oneRowMetadata schemaVersion []⟩)
      injective_oneRowDigest oneRowDigest_ne_nil rfl
      (List.forall_mem_singleton.mpr ⟨oneRowLine, hwrites⟩)
      (fun payload h => Except.ok.inj (hpayload.symm.trans h) ▸ hmetadata)
      (fun _ => List.forall_mem_singleton.mpr (oneFile.hasFeatures rfl))
      (fun writeParquet (h : some anyTable = some writeParquet) rows _ => by
        rw [← Option.some.inj h, anyTable])
  have hlines : List.Forall₂ (oneRowCodec schemaVersion).Writes [oneRow.asdict, .object []]
      [oneRowLine, str "\x7b\x7d"] := .cons hwrites (.cons hempty .nil)
  refine ⟨files, saved, hsave, hexamples, hload, htampered _ (fun line hline => ?_) ?_⟩
  · rw [nonEmptyLines_linesText (by decide) (JsonCodec.isLine_of_writes hlines)] at hline
    obtain rfl | hline := List.mem_cons.mp hline
    · exact hwrites.parses
    · exact List.mem_singleton.mp hline ▸ hempty.parses
  · rintro ⟨values, hvalues, hsame⟩
    obtain ⟨found, hfound, hall⟩ := JsonCodec.readLines_of_writes hlines
    obtain rfl := Except.ok.inj (hvalues.symm.trans hfound)
    exact absurd (hsame.length_eq.symm.trans hall.length_eq) (by simp)

/-- The row without its features, and its line. -/
def bareRow : ExampleRow := { oneRow with features := .array [] }

def bareRowLine : Str :=
  str "\x7b\"cause\": \"FILE_COLLISION\", \"confidence\": 1.0, \"features\": [], \"label\": 1, " ++
    str "\"resources\": [\"file:/tmp/x\"], \"split_group\": \"g\", \"test_a\": \"a\", " ++
    str "\"test_b\": \"b\"\x7d"

/-- It can be written, but not copied. -/
theorem save_bareRow : (oneRowCodec schemaVersion).save oneRowDigest (some anyTable)
    ⟨[bareRow], oneRowMetadata schemaVersion []⟩ = .error .valueError := by
  have hline : (oneRowCodec schemaVersion).dumpsSorted bareRow.asdict = .ok bareRowLine :=
    congrArg written (by decide +kernel :
      encode rowInterpreter (sorted bareRow.asdict) = some bareRowLine)
  have hpayload : (oneRowCodec schemaVersion).payload [bareRow.asdict] =
      .ok (linesText 10 [bareRowLine]) := by
    rw [JsonCodec.payload, List.mapM_cons, hline]
    rfl
  obtain ⟨text, htext⟩ := exists_indented_oneRow schemaVersion
    (oneRowDigest (linesText 10 [bareRowLine]))
  exact JsonCodec.save_eq_error hpayload (congrArg written htext) rfl

/-- The metadata of another schema are written but not read, an integer of too many digits in the
place of a row raises another exception, and with `polars` a row without features is not saved. -/
theorem not_load_saved :
    (∃ files saved, (oneRowCodec (str "other")).save oneRowDigest none
        ⟨[oneRow], oneRowMetadata (str "other") []⟩ = .ok (files, saved) ∧
      (oneRowCodec (str "other")).load oneRowDigest files = .error .unsupportedSchema) ∧
    (∃ files saved, (oneRowCodec schemaVersion).save oneRowDigest none
        ⟨[oneRow], oneRowMetadata schemaVersion []⟩ = .ok (files, saved) ∧
      (oneRowCodec schemaVersion).load oneRowDigest
        { files with examples := some (linesText 10 [tooManyDigits]) } =
          .error (.uncaught .valueError)) ∧
    (oneRowCodec schemaVersion).save oneRowDigest (some anyTable)
      ⟨[bareRow], oneRowMetadata schemaVersion []⟩ = .error .valueError := by
  obtain ⟨other, hother⟩ := exists_indented_oneRow (str "other")
    (oneRowDigest (linesText 10 [oneRowLine]))
  obtain ⟨text, htext⟩ := exists_indented_oneRow schemaVersion
    (oneRowDigest (linesText 10 [oneRowLine]))
  refine ⟨⟨_, _, save_oneRow hother, ?_⟩, ⟨_, _, save_oneRow htext, ?_⟩, save_bareRow⟩
  · obtain ⟨found, hfound, -⟩ := JsonCodec.readLines_of_writes
      (.cons (oneRow_writes (str "other")) .nil)
    rw [JsonCodec.load_eq (loads_oneRowText hother), hfound]
    have hversion : (some (str "other") : Option Str) ≠ some schemaVersion := by decide
    exact JsonCodec.check_eq_unsupportedSchema hversion
  · have hline : IsLine breaksLine tooManyDigits := by
      refine ⟨tooManyDigits_ne (by decide), fun c hc => ?_⟩
      rw [List.eq_of_mem_replicate hc]
      decide
    have hloads : oneRowLoads schemaVersion tooManyDigits = .error (.other .valueError) := by
      rw [oneRowLoads, if_neg (tooManyDigits_ne (by decide)),
        if_neg (tooManyDigits_ne (by decide +kernel)), if_neg (tooManyDigits_ne (by decide)),
        if_pos rfl]
    have hread : (oneRowCodec schemaVersion).readLines (linesText 10 [tooManyDigits]) =
        .error (.other .valueError) := by
      rw [JsonCodec.readLines, nonEmptyLines_linesText (by decide)
        (List.forall_mem_singleton.mpr hline), List.mapM_cons]
      exact congrArg (Except.bind · _) hloads
    rw [JsonCodec.load_eq (loads_oneRowText htext), hread]
    rfl

end ConflictGraph.Py
