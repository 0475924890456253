import ConflictGraph.PyTorn
import ConflictGraph.PyTraceReplay

/-!
# Model artifacts

`GNNTrainer.save` writes the weights of a model, then the metadata with their digest, then the
history, each in place. A save that is killed leaves what it has written so far, among files of
older saves. `predict_artifact` reads the metadata and the weights, and compares the digest. So
it never puts the metadata of one training to the weights of another, wherever saves were killed
(`predictArtifact_of_saves`).
-/

namespace ConflictGraph.Py

open Str

/-! ## Metadata -/

/-- `MODEL_SCHEMA_VERSION`. -/
def modelSchemaVersion : Str := str "conflict-model-v1"

/-- `TrainingConfig`. -/
structure TrainingConfig : Type where
  seed : ℤ := 42
  hiddenDim : ℤ := 64
  embeddingDim : ℤ := 48
  gnnLayers : ℤ := 2
  learningRate : Float64 := .ofRat (1 / 100)
  weightDecay : Float64 := .ofRat (1 / 10000)
  dropout : Float64 := .ofRat (1 / 5)
  epochs : ℤ := 100
  patience : ℤ := 15
  batchSize : ℤ := 256
  classWeight : Option Float64 := none
  calibration : Str := str "temperature"

/-- `asdict` of a configuration. -/
def TrainingConfig.asdict (c : TrainingConfig) : Json := .object
  [(str "seed", .int c.seed), (str "hidden_dim", .int c.hiddenDim),
    (str "embedding_dim", .int c.embeddingDim), (str "gnn_layers", .int c.gnnLayers),
    (str "learning_rate", .float c.learningRate), (str "weight_decay", .float c.weightDecay),
    (str "dropout", .float c.dropout), (str "epochs", .int c.epochs),
    (str "patience", .int c.patience), (str "batch_size", .int c.batchSize),
    (str "class_weight", (c.classWeight.map Json.float).getD .null),
    (str "calibration", .string c.calibration)]

/-- An `ArtifactMetadata`, whose fields are not checked. -/
structure ArtifactMetadata : Type where
  schemaVersion : Json
  modelType : Json
  version : Json
  createdAt : Json
  featureSchema : Json
  datasetHash : Json
  seed : Json
  codeRevision : Json
  trainingConfig : Json
  validationMetrics : Json
  testMetrics : Json
  calibration : Json
  featureNormalization : Json
  environment : Json
  checksum : Json := .string []

namespace ArtifactMetadata

/-- The items of `asdict`. -/
def members (m : ArtifactMetadata) : List (Str × Json) :=
  [(str "schema_version", m.schemaVersion), (str "model_type", m.modelType),
    (str "version", m.version), (str "created_at", m.createdAt),
    (str "feature_schema", m.featureSchema), (str "dataset_hash", m.datasetHash),
    (str "seed", m.seed), (str "code_revision", m.codeRevision),
    (str "training_config", m.trainingConfig), (str "validation_metrics", m.validationMetrics),
    (str "test_metrics", m.testMetrics), (str "calibration", m.calibration),
    (str "feature_normalization", m.featureNormalization), (str "environment", m.environment),
    (str "checksum", m.checksum)]

/-- The parameters of `ArtifactMetadata`. -/
def names : List Str :=
  ["schema_version", "model_type", "version", "created_at", "feature_schema", "dataset_hash",
    "seed", "code_revision", "training_config", "validation_metrics", "test_metrics",
    "calibration", "feature_normalization", "environment", "checksum"].map str

/-- `ArtifactMetadata(**members)`; `none` is its `TypeError`. -/
def ofMembers (members : List (Str × Json)) : Option ArtifactMetadata := do
  if members.all fun member => names.contains member.1 then
    return {
      schemaVersion := ← Json.lookup members "schema_version"
      modelType := ← Json.lookup members "model_type"
      version := ← Json.lookup members "version"
      createdAt := ← Json.lookup members "created_at"
      featureSchema := ← Json.lookup members "feature_schema"
      datasetHash := ← Json.lookup members "dataset_hash"
      seed := ← Json.lookup members "seed"
      codeRevision := ← Json.lookup members "code_revision"
      trainingConfig := ← Json.lookup members "training_config"
      validationMetrics := ← Json.lookup members "validation_metrics"
      testMetrics := ← Json.lookup members "test_metrics"
      calibration := ← Json.lookup members "calibration"
      featureNormalization := ← Json.lookup members "feature_normalization"
      environment := ← Json.lookup members "environment"
      checksum := (Json.lookup members "checksum").getD (.string []) }
  else none

/-- The metadata with the members of every dictionary in it sorted, as a file has them. -/
def sorted (m : ArtifactMetadata) : ArtifactMetadata where
  schemaVersion := Py.sorted m.schemaVersion
  modelType := Py.sorted m.modelType
  version := Py.sorted m.version
  createdAt := Py.sorted m.createdAt
  featureSchema := Py.sorted m.featureSchema
  datasetHash := Py.sorted m.datasetHash
  seed := Py.sorted m.seed
  codeRevision := Py.sorted m.codeRevision
  trainingConfig := Py.sorted m.trainingConfig
  validationMetrics := Py.sorted m.validationMetrics
  testMetrics := Py.sorted m.testMetrics
  calibration := Py.sorted m.calibration
  featureNormalization := Py.sorted m.featureNormalization
  environment := Py.sorted m.environment
  checksum := Py.sorted m.checksum

/-- **What is written of metadata is read back.** -/
theorem ofMembers_sorted (m : ArtifactMetadata) :
    ofMembers (sortMembers (sortedMembers m.members)) = some m.sorted := by
  have hall : (sortMembers (sortedMembers m.members)).all
      (fun member => names.contains member.1) = true := by
    refine List.all_eq_true.mpr fun member hmember => ?_
    have hname : member.1 ∈ m.members.map Prod.fst := by
      have hmem := List.mem_map_of_mem (f := Prod.fst) (mem_of_mem_sortMembers hmember)
      simpa [members, sortedMembers] using hmem
    exact List.contains_iff_mem.mpr hname
  rw [ofMembers, if_pos hall]
  simp only [lookup_sortMembers]
  rfl

end ArtifactMetadata

/-! ## Saving -/

/-- What `GNNTrainer.save` saves, with what the host contributes. -/
structure TrainedModel : Type where
  /-- the bytes that `torch.save` writes of the state, in these chunks -/
  weights : List Str
  config : TrainingConfig
  temperature : Float64
  featureMean : List Float64
  featureScale : List Float64
  /-- `dataset.metadata.content_hash` -/
  datasetHash : Str
  validation : Json
  test : Json
  trainingHistory : Json
  /-- the instant, in the format of a version -/
  stamp : Str
  createdAt : Str
  codeRevision : Str
  environment : Json

namespace TrainedModel

variable (m : TrainedModel)

/-- The contents of `model.pt`. -/
def bytes : Str := m.weights.flatten

/-- The metadata with the digest of the weights. -/
def metadata (sha256 : Str → Str) : ArtifactMetadata where
  schemaVersion := .string modelSchemaVersion
  modelType := .string (str "hybrid-graphsage")
  version := .string (m.stamp ++ 45 :: (sha256 m.bytes).take 8)
  createdAt := .string m.createdAt
  featureSchema := .array (PairFeatures.featureNames.map Json.string)
  datasetHash := .string m.datasetHash
  seed := .int m.config.seed
  codeRevision := .string m.codeRevision
  trainingConfig := m.config.asdict
  validationMetrics := m.validation
  testMetrics := m.test
  calibration := .object
    [(str "method", .string (str "temperature")), (str "temperature", .float m.temperature)]
  featureNormalization := .object
    [(str "mean", .array (m.featureMean.map Json.float)),
      (str "scale", .array (m.featureScale.map Json.float))]
  environment := m.environment
  checksum := .string (sha256 m.bytes)

end TrainedModel

/-- The files of an artifact. -/
inductive ArtifactPath : Type where
  | weights
  | metadata
  | history
  deriving DecidableEq

/-- A call of `save`: what is saved, in which chunks the documents are written, and after how
many file operations it is killed, if it has as many. The digest is computed between the first
file and the second, of what the first has then, which is all the weights. -/
structure SaveRun : Type where
  model : TrainedModel
  metadataChunks : List Str
  historyChunks : List Str
  operations : ℕ

/-- The file operations of `save`. -/
def SaveRun.steps (r : SaveRun) : List (FileStep ArtifactPath ℕ) :=
  writeInPlace .weights r.model.weights ++ writeInPlace .metadata r.metadataChunks ++
    writeInPlace .history r.historyChunks

/-- The files after some operations. -/
def applyAll (files : PartialMap ArtifactPath Str) (ops : List (FileStep ArtifactPath ℕ)) :
    PartialMap ArtifactPath Str :=
  ops.foldl (fun files op => op.apply files) files

/-- The files that a save leaves. -/
def SaveRun.apply (files : PartialMap ArtifactPath Str) (r : SaveRun) :
    PartialMap ArtifactPath Str :=
  applyAll files (r.steps.take r.operations)

/-- The files that saves leave in an empty directory. -/
def filesAfter (runs : List SaveRun) : PartialMap ArtifactPath Str :=
  runs.foldl SaveRun.apply PartialMap.empty

/-- The chunks of the metadata are those of its text, and JSON carries it. -/
def SaveRun.Writes (interpreter : Interpreter) (sha256 : Str → Str) (r : SaveRun) : Prop :=
  Carried interpreter interpreter.loadsDepth (.object (r.model.metadata sha256).members) ∧
    artifactText interpreter (.object (r.model.metadata sha256).members) =
      some r.metadataChunks.flatten

/-! ## Predicting -/

/-- What `predict_artifact` raises. -/
inductive PredictError : Type where
  /-- `ArtifactError` -/
  | artifact
  /-- an exception that it does not catch -/
  | raised (e : ExceptionType)
  deriving DecidableEq

/-- The third-party part of a prediction. -/
structure Torch (μ α ρ β : Type) : Type where
  /-- the network of a `TrainingConfig(**config)`, with the state that `torch.load` reads of these
  bytes -/
  loadModel : Json → Str → Except PredictError μ
  /-- the outputs of the network for these rows, with the mean and the scale of the features -/
  forward : μ → Json → Json → α → Except ExceptionType ρ
  /-- `TemperatureScaler(float(temperature)).transform` -/
  calibrate : Json → ρ → Except ExceptionType β

/-- `value[key]`. -/
def Json.item (value : Json) (key : String) : Except ExceptionType Json :=
  match value with
  | .object members => required members key
  | _ => .error .typeError

section Predict

variable {μ α ρ β : Type} (interpreter : Interpreter) (sha256 : Str → Str) (torch : Torch μ α ρ β)

/-- The metadata of an artifact, and its weights, as far as `predict_artifact` checks them. -/
def readArtifact (files : PartialMap ArtifactPath Str) :
    Except PredictError (ArtifactMetadata × Str) :=
  match files .metadata with
  | none => .error .artifact
  | some text =>
    match loads interpreter.loadsDepth text with
    | .error .jsonDecodeError => .error .artifact
    | .error e => .error (.raised e)
    | .ok value =>
      match value.members?.bind ArtifactMetadata.ofMembers with
      | none => .error .artifact
      | some metadata =>
        match files .weights with
        | none => .error .artifact
        | some weights =>
          if metadata.schemaVersion.string? ≠ some modelSchemaVersion then .error .artifact
          else if metadata.checksum.string? ≠ some (sha256 weights) then .error .artifact
          else if (textsOf metadata.featureSchema).toOption ≠ some PairFeatures.featureNames then
            .error .artifact
          else .ok (metadata, weights)

/-- The probabilities that a model predicts. -/
def Torch.infer (metadata : ArtifactMetadata) (weights : Str) (rows : α) :
    Except PredictError β := do
  let model ← torch.loadModel metadata.trainingConfig weights
  let mean ← (metadata.featureNormalization.item "mean").mapError .raised
  let scale ← (metadata.featureNormalization.item "scale").mapError .raised
  let raw ← (torch.forward model mean scale rows).mapError .raised
  let temperature ← (metadata.calibration.item "temperature").mapError .raised
  (torch.calibrate temperature raw).mapError .raised

/-- `predict_artifact`. -/
def predictArtifact (files : PartialMap ArtifactPath Str) (rows : α) :
    Except PredictError (β × ArtifactMetadata) := do
  let (metadata, weights) ← readArtifact interpreter sha256 files
  let probabilities ← torch.infer metadata weights rows
  return (probabilities, metadata)

/-- What a training predicts: its network with its weights and its normalization, calibrated with
its temperature. -/
def TrainedModel.predict (m : TrainedModel) (rows : α) : Except PredictError β := do
  let model ← torch.loadModel (sorted m.config.asdict) m.bytes
  let raw ← (torch.forward model (.array (m.featureMean.map Json.float))
    (.array (m.featureScale.map Json.float)) rows).mapError .raised
  (torch.calibrate (.float m.temperature) raw).mapError .raised

end Predict

/-! ## What saves leave -/

section Files

variable {files : PartialMap ArtifactPath Str} {path other : ArtifactPath} {chunks : List Str}

theorem applyAll_append (ops ops' : List (FileStep ArtifactPath ℕ)) :
    applyAll files (ops ++ ops') = applyAll (applyAll files ops) ops' :=
  List.foldl_append ..

/-- Chunks are appended to what a file has. -/
theorem applyAll_appends {contents : Str} (h : files path = some contents) (chunks : List Str) :
    applyAll files (chunks.map (.append path)) path = some (contents ++ chunks.flatten) ∧
      ∀ other ≠ path, applyAll files (chunks.map (.append path)) other = files other := by
  induction chunks generalizing files contents with
  | nil => exact ⟨by simp [applyAll, h], fun _ _ => rfl⟩
  | cons chunk rest ih =>
    have hnext : (FileStep.append path chunk).apply files path = some (contents ++ chunk) := by
      rw [FileStep.apply, h]
      exact PartialMap.insert_self ..
    obtain ⟨hpath, hothers⟩ := ih hnext
    refine ⟨?_, fun other hother => ?_⟩
    · rw [List.flatten_cons, ← List.append_assoc]
      exact hpath
    · exact (hothers other hother).trans ((FileStep.apply_of_ne hother).2 chunk)

/-- **A file that is written in place** has its old contents before the first operation, and then
the chunks that were appended; the others are as they were. -/
theorem applyAll_writeInPlace (files : PartialMap ArtifactPath Str) (path : ArtifactPath)
    (chunks : List Str) (n : ℕ) :
    (n = 0 ∧ applyAll files ((writeInPlace path chunks).take n) path = files path ∨
      applyAll files ((writeInPlace path chunks).take n) path =
        some (chunks.take (n - 1)).flatten) ∧
    ∀ other ≠ path, applyAll files ((writeInPlace path chunks).take n) other = files other := by
  rcases n with _ | n
  · exact ⟨.inl ⟨rfl, rfl⟩, fun _ _ => rfl⟩
  · have hempty : (FileStep.truncate path : FileStep ArtifactPath ℕ).apply files path = some [] :=
      PartialMap.insert_self ..
    have htake : (writeInPlace path chunks).take (n + 1) =
        .truncate path :: (chunks.take n).map (.append path) := by
      rw [writeInPlace, List.take_succ_cons, List.map_take]
    rw [htake]
    obtain ⟨hpath, hothers⟩ := applyAll_appends hempty (chunks.take n)
    exact ⟨.inr hpath, fun other hother =>
      (hothers other hother).trans (FileStep.apply_of_ne hother).1⟩

/-- A file is as it was, or has a beginning of what a save writes to it. -/
def WrittenPart (before contents : Option Str) (whole : Str) : Prop :=
  contents = before ∨ ∃ p, contents = some p ∧ p <+: whole

theorem writtenPart_writeInPlace (files : PartialMap ArtifactPath Str) (path : ArtifactPath)
    (chunks : List Str) (n : ℕ) :
    WrittenPart (files path) (applyAll files ((writeInPlace path chunks).take n) path)
      chunks.flatten := by
  rcases (applyAll_writeInPlace files path chunks n).1 with ⟨-, hsame⟩ | hpart
  · exact .inl hsame
  · exact .inr ⟨_, hpart, ((List.take_prefix _ chunks).flatten)⟩

/-- The operations that a save gets to, file by file. -/
theorem SaveRun.take_steps (r : SaveRun) (n : ℕ) : ∃ n' n'',
    r.steps.take n = (writeInPlace .weights r.model.weights).take n ++
      (writeInPlace .metadata r.metadataChunks).take n' ++
        (writeInPlace .history r.historyChunks).take n'' := by
  rw [steps, List.take_append, List.take_append]
  exact ⟨_, _, rfl⟩

/-- **What a save leaves** of the weights and of the metadata. -/
theorem SaveRun.writtenPart_apply (files : PartialMap ArtifactPath Str) (r : SaveRun) :
    WrittenPart (files .weights) (r.apply files .weights) r.model.bytes ∧
      WrittenPart (files .metadata) (r.apply files .metadata) r.metadataChunks.flatten := by
  obtain ⟨n', n'', hsteps⟩ := r.take_steps r.operations
  rw [apply, hsteps, applyAll_append, applyAll_append]
  generalize hfirst : applyAll files ((writeInPlace .weights r.model.weights).take r.operations) =
    first
  generalize hsecond : applyAll first ((writeInPlace .metadata r.metadataChunks).take n') = second
  have hhistory := (applyAll_writeInPlace second .history r.historyChunks n'').2
  have hmetadata := (applyAll_writeInPlace first .metadata r.metadataChunks n').2
  have hweights := (applyAll_writeInPlace files .weights r.model.weights r.operations).2
  rw [hfirst] at hweights
  rw [hsecond] at hmetadata
  rw [hhistory .weights (by decide), hhistory .metadata (by decide), hmetadata .weights (by decide),
    ← hweights .metadata (by decide), ← hfirst, ← hsecond, ← hfirst]
  exact ⟨writtenPart_writeInPlace .., writtenPart_writeInPlace ..⟩

/-- A save that is not killed leaves all of both. -/
theorem SaveRun.apply_of_complete (files : PartialMap ArtifactPath Str) {r : SaveRun}
    (h : r.steps.length ≤ r.operations) : r.apply files .weights = some r.model.bytes ∧
      r.apply files .metadata = some r.metadataChunks.flatten := by
  have hall : ∀ (files : PartialMap ArtifactPath Str) (path : ArtifactPath) (chunks : List Str),
      applyAll files (writeInPlace path chunks) path = some chunks.flatten ∧
        ∀ other ≠ path, applyAll files (writeInPlace path chunks) other = files other := by
    intro files path chunks
    obtain ⟨hpath, hothers⟩ := applyAll_writeInPlace files path chunks (chunks.length + 1)
    have htake : (writeInPlace path chunks).take (chunks.length + 1) = writeInPlace path chunks :=
      List.take_of_length_le (by simp [writeInPlace])
    rw [htake] at hpath hothers
    refine ⟨(hpath.resolve_left fun h => absurd h.1 (Nat.succ_ne_zero _)).trans ?_, hothers⟩
    rw [Nat.add_sub_cancel, List.take_length]
  rw [apply, List.take_of_length_le h, steps, applyAll_append, applyAll_append]
  rw [(hall _ .history _).2 .weights (by decide), (hall _ .history _).2 .metadata (by decide),
    (hall _ .metadata _).2 .weights (by decide)]
  exact ⟨(hall _ .weights _).1, (hall _ .metadata _).1⟩

/-- The weights that are there, and the metadata, are beginnings of what a save writes. -/
theorem writtenPart_filesAfter (runs : List SaveRun) :
    (∀ contents, filesAfter runs .weights = some contents →
      ∃ r ∈ runs, contents <+: r.model.bytes) ∧
    ∀ contents, filesAfter runs .metadata = some contents →
      ∃ r ∈ runs, contents <+: r.metadataChunks.flatten := by
  induction runs using List.reverseRecOn with
  | nil =>
    have hnone : ∀ path contents, filesAfter [] path ≠ some contents := fun path contents h => by
      cases h
    exact ⟨fun contents h => absurd h (hnone _ _), fun contents h => absurd h (hnone _ _)⟩
  | append_singleton before r ih =>
    have hstep : filesAfter (before ++ [r]) = r.apply (filesAfter before) := by
      rw [filesAfter, List.foldl_append]
      rfl
    rw [hstep]
    obtain ⟨hweights, hmetadata⟩ := r.writtenPart_apply (filesAfter before)
    have hlast : r ∈ before ++ [r] := List.mem_append_right _ List.mem_cons_self
    refine ⟨fun contents h => ?_, fun contents h => ?_⟩
    · rcases hweights with hsame | ⟨p, hp, hpart⟩
      · obtain ⟨r', hr', hpart⟩ := ih.1 contents (hsame ▸ h)
        exact ⟨r', List.mem_append_left _ hr', hpart⟩
      · obtain rfl := Option.some.inj (hp.symm.trans h)
        exact ⟨r, hlast, hpart⟩
    · rcases hmetadata with hsame | ⟨p, hp, hpart⟩
      · obtain ⟨r', hr', hpart⟩ := ih.2 contents (hsame ▸ h)
        exact ⟨r', List.mem_append_left _ hr', hpart⟩
      · obtain rfl := Option.some.inj (hp.symm.trans h)
        exact ⟨r, hlast, hpart⟩

end Files

/-! ## Predictions of one training -/

section Training

variable {μ α ρ β : Type} {interpreter : Interpreter} {sha256 : Str → Str}
  {torch : Torch μ α ρ β} {m : TrainedModel} {files : PartialMap ArtifactPath Str}
  {text weights : Str}

theorem sorted_floats (values : List Float64) :
    sorted (.array (values.map Json.float)) = .array (values.map Json.float) := by
  rw [sorted, sortedItems_eq_map, List.map_map]
  rfl

/-- What is checked of the metadata of a training, and of weights. -/
theorem readArtifact_eq (hmetadata : files .metadata = some text)
    (hloads : loads interpreter.loadsDepth text =
      .ok (.object (sortMembers (sortedMembers (m.metadata sha256).members))))
    (hweights : files .weights = some weights) :
    readArtifact interpreter sha256 files =
      if sha256 m.bytes = sha256 weights then .ok ((m.metadata sha256).sorted, weights)
      else .error .artifact := by
  have hschema : (m.metadata sha256).sorted.schemaVersion.string? = some modelSchemaVersion := rfl
  have hchecksum : (m.metadata sha256).sorted.checksum.string? = some (sha256 m.bytes) := rfl
  have hfeatures : (textsOf (m.metadata sha256).sorted.featureSchema).toOption =
      some PairFeatures.featureNames := by
    have hsame : (m.metadata sha256).sorted.featureSchema =
        .array (PairFeatures.featureNames.map Json.string) :=
      congrArg Json.array (sortedItems_strings _)
    rw [hsame, textsOf_strings]
    rfl
  simp only [readArtifact, hmetadata, hloads, Json.members?, Option.bind_some,
    ArtifactMetadata.ofMembers_sorted, hweights, hschema, hchecksum, hfeatures, ne_eq,
    not_true_eq_false, if_false, Option.some.injEq]
  split <;> simp_all

/-- The metadata of a training has what is to be done with its weights. -/
theorem infer_metadata (rows : α) :
    torch.infer (m.metadata sha256).sorted m.bytes rows = m.predict torch rows := by
  have hmean : (m.metadata sha256).sorted.featureNormalization.item "mean" =
      .ok (.array (m.featureMean.map Json.float)) := by
    rw [← sorted_floats]
    simp only [ArtifactMetadata.sorted, TrainedModel.metadata, sorted, Json.item, required,
      lookup_sortMembers]
    rfl
  have hscale : (m.metadata sha256).sorted.featureNormalization.item "scale" =
      .ok (.array (m.featureScale.map Json.float)) := by
    rw [← sorted_floats]
    simp only [ArtifactMetadata.sorted, TrainedModel.metadata, sorted, Json.item, required,
      lookup_sortMembers]
    rfl
  have htemperature : (m.metadata sha256).sorted.calibration.item "temperature" =
      .ok (.float m.temperature) := by
    simp only [ArtifactMetadata.sorted, TrainedModel.metadata, sorted, Json.item, required,
      lookup_sortMembers]
    rfl
  rw [Torch.infer, TrainedModel.predict, hmean, hscale, htemperature]
  rfl

/-- **A prediction is one of one training**, wherever saves were killed: what `predict_artifact`
returns is what one of the models predicts that were saved, with its metadata; otherwise it raises
`ArtifactError`. If the last save was not killed, it is that model. -/
theorem predictArtifact_of_saves {runs : List SaveRun} (torch : Torch μ α ρ β)
    (hshort : interpreter.ShortFloats)
    (hwrites : ∀ r ∈ runs, r.Writes interpreter sha256)
    (hdigest : ∀ r ∈ runs, ∀ r' ∈ runs, ∀ p, p <+: r'.model.bytes →
      sha256 p = sha256 r.model.bytes → p = r.model.bytes) (rows : α) :
    (predictArtifact interpreter sha256 torch (filesAfter runs) rows = .error .artifact ∨
      ∃ r ∈ runs, predictArtifact interpreter sha256 torch (filesAfter runs) rows =
        (r.model.predict torch rows).map fun p => (p, (r.model.metadata sha256).sorted)) ∧
    ∀ r ∈ runs.getLast?, r.steps.length ≤ r.operations →
      predictArtifact interpreter sha256 torch (filesAfter runs) rows =
        (r.model.predict torch rows).map fun p => (p, (r.model.metadata sha256).sorted) := by
  have hpredict : ∀ {m : TrainedModel}, readArtifact interpreter sha256 (filesAfter runs) =
      .ok ((m.metadata sha256).sorted, m.bytes) →
        predictArtifact interpreter sha256 torch (filesAfter runs) rows =
          (m.predict torch rows).map fun p => (p, (m.metadata sha256).sorted) := by
    intro m hread
    rw [predictArtifact, hread, ← @infer_metadata _ _ _ _ sha256]
    change (torch.infer (m.metadata sha256).sorted m.bytes rows >>= _) = _
    rcases torch.infer (m.metadata sha256).sorted m.bytes rows with e | p <;> rfl
  refine ⟨?_, fun r hr hcomplete => ?_⟩
  · obtain ⟨hweightsPart, hmetadataPart⟩ := writtenPart_filesAfter runs
    have hartifact : readArtifact interpreter sha256 (filesAfter runs) = .error .artifact →
        predictArtifact interpreter sha256 torch (filesAfter runs) rows = .error .artifact :=
      fun hread => by
        rw [predictArtifact, hread]
        rfl
    rcases hmetadata : filesAfter runs .metadata with _ | text
    · exact .inl (hartifact (by simp only [readArtifact, hmetadata]))
    obtain ⟨r, hr, hpart⟩ := hmetadataPart text hmetadata
    obtain ⟨hcarried, htext⟩ := hwrites r hr
    rcases loads_beginning hshort hcarried htext hpart with hloads | hloads
    · exact .inl (hartifact (by simp only [readArtifact, hmetadata, hloads]))
    rcases hweights : filesAfter runs .weights with _ | weights
    · refine .inl (hartifact ?_)
      simp only [readArtifact, hmetadata, hloads, Json.members?, Option.bind_some,
        ArtifactMetadata.ofMembers_sorted, hweights]
    have hread := readArtifact_eq hmetadata hloads hweights
    split at hread
    · rename_i hsame
      obtain ⟨r', hr', hbeginning⟩ := hweightsPart weights hweights
      obtain rfl := hdigest r hr r' hr' weights hbeginning hsame.symm
      exact .inr ⟨r, hr, hpredict hread⟩
    · exact .inl (hartifact hread)
  · obtain ⟨before, rfl⟩ : ∃ before, runs = before ++ [r] :=
      List.getLast?_eq_some_iff.mp hr
    obtain ⟨hcarried, htext⟩ := hwrites r (List.mem_append_right _ List.mem_cons_self)
    have hstep : filesAfter (before ++ [r]) = r.apply (filesAfter before) := by
      rw [filesAfter, List.foldl_append]
      rfl
    obtain ⟨hweights, hmetadata⟩ := SaveRun.apply_of_complete (filesAfter before) hcomplete
    rw [← hstep] at hweights hmetadata
    have hloads := loads_artifactText hcarried htext
    rw [sorted] at hloads
    exact hpredict ((readArtifact_eq hmetadata hloads hweights).trans (if_pos rfl))

end Training

/-! ## A save that is killed between the weights and the metadata -/

/-- `repr` of the numbers of a configuration that is not set, and of the models below. -/
def configuredNumbers : List (Float64 × Str) :=
  [(.ofRat (1 / 100), str "0.01"), (.ofRat (1 / 10000), str "0.0001"), (.ofRat (1 / 5), str "0.2"),
    (.ofRat 0, str "0.0"), (.ofRat 1, str "1.0"), (.ofRat 2, str "2.0")]

/-- A model that is not trained. -/
def untrainedModel : TrainedModel where
  weights := [[80, 75], [3, 4]]
  config := {}
  temperature := .ofRat 1
  featureMean := PairFeatures.featureNames.map fun _ => .ofRat 0
  featureScale := PairFeatures.featureNames.map fun _ => .ofRat 1
  datasetHash := []
  validation := .object []
  test := .object []
  trainingHistory := .array []
  stamp := str "20260101T000000Z"
  createdAt := str "2026-01-01T00:00:00+00:00"
  codeRevision := str "unknown"
  environment := .object []

/-- The model after a training, with another temperature. -/
def trainedModel : TrainedModel :=
  { untrainedModel with
    weights := [[80, 75], [5, 6]]
    config := { epochs := 200 }
    temperature := .ofRat 2
    stamp := str "20260102T000000Z"
    createdAt := str "2026-01-02T00:00:00+00:00" }

/-- The digests of the two files of weights, and something else for every other text. -/
def weightsDigest (s : Str) : Str :=
  if s = untrainedModel.bytes then
    str "8dcc7e601606217f3b754766511182a916b17e9a26a94c9d887104eba92e9bb2"
  else if s = trainedModel.bytes then
    str "6a3db24b8bc57d2ccdc198b2d7858ec657f34a7b2c9153bc04ca82d73170876d"
  else 0 :: s

/-- The save of a model, which is killed after some operations. -/
def saveOf (m : TrainedModel) (operations : ℕ) : SaveRun :=
  ⟨m, [(artifactText (numberInterpreter configuredNumbers)
    (.object (m.metadata weightsDigest).members)).getD []], [str "[]\n"], operations⟩

/-- The untrained model is saved, and a save of the trained one is killed after the weights. -/
def interruptedRuns : List SaveRun := [saveOf untrainedModel 100, saveOf trainedModel 3]

theorem saveOf_writes {m : TrainedModel} (hm : m ∈ [untrainedModel, trainedModel])
    (operations : ℕ) :
    (saveOf m operations).Writes (numberInterpreter configuredNumbers) weightsDigest := by
  have hplain : isPlain (configuredNumbers.map Prod.fst) 900
      (.object (m.metadata weightsDigest).members) = true := by
    revert m
    simp only [List.forall_mem_cons]
    exact ⟨by decide +kernel, by decide +kernel, List.forall_mem_nil _⟩
  have hwritten : (artifactText (numberInterpreter configuredNumbers)
      (.object (m.metadata weightsDigest).members)).isSome = true := by
    revert m
    simp only [List.forall_mem_cons]
    exact ⟨fun _ => by decide +kernel, fun _ => by decide +kernel, List.forall_mem_nil _⟩
  obtain ⟨text, htext⟩ := Option.isSome_iff_exists.mp hwritten
  refine ⟨carried_of_isPlain (fun x _ => carried_numbers (by decide +kernel) x) hplain, ?_⟩
  simp only [saveOf, htext, Option.getD_some, List.flatten_singleton]

/-- No other text has the digest of one of these weights. -/
theorem eq_bytes_of_weightsDigest {m : TrainedModel} (hm : m ∈ [untrainedModel, trainedModel])
    {p : Str} (h : weightsDigest p = weightsDigest m.bytes) : p = m.bytes := by
  have huntrained : weightsDigest untrainedModel.bytes =
      str "8dcc7e601606217f3b754766511182a916b17e9a26a94c9d887104eba92e9bb2" := if_pos rfl
  have htrained : weightsDigest trainedModel.bytes =
      str "6a3db24b8bc57d2ccdc198b2d7858ec657f34a7b2c9153bc04ca82d73170876d" := rfl
  by_contra hne
  rcases List.mem_pair.mp hm with rfl | rfl
  · rw [huntrained, weightsDigest, if_neg hne] at h
    split at h <;> exact absurd (List.cons.inj h).1 (by decide)
  · rw [htrained, weightsDigest] at h
    split at h <;> exact absurd (List.cons.inj h).1 (by decide)

/-- A network is the factor that its weights say, and a temperature divides. -/
def factorTorch : Torch ℚ (List ℚ) (List ℚ) (List ℚ) where
  loadModel _ bytes :=
    if bytes = untrainedModel.bytes then .ok 1
    else if bytes = trainedModel.bytes then .ok (1 / 2)
    else .error .artifact
  forward factor _ _ rows := .ok (rows.map (factor * ·))
  calibrate temperature raw :=
    match temperature with
    | .float (.finite t) => .ok (raw.map (· / t))
    | _ => .error .typeError

/-- The new weights do not go with the old metadata; after a save that is not killed, the trained
model predicts. -/
theorem predictArtifact_of_saves_interrupted :
    predictArtifact (numberInterpreter configuredNumbers) weightsDigest factorTorch
        (filesAfter interruptedRuns) [1 / 2, 1] = .error .artifact ∧
      predictArtifact (numberInterpreter configuredNumbers) weightsDigest factorTorch
        (filesAfter (interruptedRuns ++ [saveOf trainedModel 100])) [1 / 2, 1] =
          .ok ([1 / 8, 1 / 4], (trainedModel.metadata weightsDigest).sorted) := by
  have hshort : (numberInterpreter configuredNumbers).ShortFloats := by
    intro x text htext
    obtain ⟨number, hfound, rfl⟩ := Option.map_eq_some_iff.mp htext
    have hall : ∀ number ∈ configuredNumbers, number.2.length ≤ maxStrDigits := by decide +kernel
    exact hall number (List.mem_of_find?_eq_some hfound)
  have hmodel : ∀ r ∈ interruptedRuns ++ [saveOf trainedModel 100],
      r.Writes (numberInterpreter configuredNumbers) weightsDigest ∧
        r.model ∈ [untrainedModel, trainedModel] := by
    simp only [interruptedRuns, List.cons_append, List.nil_append, List.forall_mem_cons]
    exact ⟨⟨saveOf_writes (by simp) 100, by simp [saveOf]⟩,
      ⟨saveOf_writes (by simp) 3, by simp [saveOf]⟩,
      ⟨saveOf_writes (by simp) 100, by simp [saveOf]⟩, List.forall_mem_nil _⟩
  refine ⟨?_, ?_⟩
  · have hsaves := @predictArtifact_of_saves _ _ _ _ (numberInterpreter configuredNumbers)
      weightsDigest interruptedRuns factorTorch hshort
      (fun r hr => (hmodel r (List.mem_append_left _ hr)).1)
      (fun r hr _ _ p _ h =>
        eq_bytes_of_weightsDigest (hmodel r (List.mem_append_left _ hr)).2 h) [1 / 2, 1]
    refine hsaves.1.resolve_right ?_
    rintro ⟨r, hr, heq⟩
    have hraises : (predictArtifact (numberInterpreter configuredNumbers) weightsDigest
        factorTorch (filesAfter interruptedRuns) [1 / 2, 1]).toBool = false := by decide +kernel
    have hpredicts : ∀ m ∈ [untrainedModel, trainedModel],
        (m.predict factorTorch [1 / 2, 1]).toBool = true := by decide +kernel
    have hpredicts := hpredicts r.model (hmodel r (List.mem_append_left _ hr)).2
    rw [heq] at hraises
    rcases hout : r.model.predict factorTorch [1 / 2, 1] with e | out
    · rw [hout] at hpredicts
      cases hpredicts
    · rw [hout] at hraises
      cases hraises
  · have hsaves := @predictArtifact_of_saves _ _ _ _ (numberInterpreter configuredNumbers)
      weightsDigest (interruptedRuns ++ [saveOf trainedModel 100]) factorTorch hshort
      (fun r hr => (hmodel r hr).1)
      (fun r hr _ _ p _ h => eq_bytes_of_weightsDigest (hmodel r hr).2 h) [1 / 2, 1]
    refine (hsaves.2 (saveOf trainedModel 100) rfl (by decide)).trans ?_
    have hpredict : trainedModel.predict factorTorch [1 / 2, 1] = .ok [1 / 8, 1 / 4] := by
      decide +kernel
    exact congrArg (Except.map _) hpredict

end ConflictGraph.Py
