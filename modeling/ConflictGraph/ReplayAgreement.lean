import ConflictGraph.GoPairRisk
import ConflictGraph.PyTraceReplay

/-!
# Both planners on a replayed trace

The control plane loads the file that `trace replay` wrote, too. It refuses a prediction of an
unnamed test, or of a test with itself, and with it the whole file. An event without a test
stays in the trace, and tests that differ in surrogates only have one name in Go; so the file is
loaded exactly if no two tests that meet at a resource are of this kind, and then both planners
see the risks that were predicted (`predictionsForTests_replayed`).
-/

namespace ConflictGraph.Go

open Py (Json Str TraceEvent TraceReplay Replayed)

/-! ## Texts -/

/-- A text without characters that stand for others. -/
def IsFaithful (id : String) : Prop := ∀ c ∈ id.toList, c ≠ '\x00' ∧ c ≠ Char.ofNat 0xFFFD

theorem IsStableID.isFaithful {id : String} (h : IsStableID id) : IsFaithful id := by
  obtain ⟨digits, ⟨-, hdigits⟩, hid⟩ := h
  intro c hc
  rw [hid, List.mem_append] at hc
  have hascii : ("test_".toList ++ "0123456789abcdef".toList).all
      (fun c => 0 < c.toNat && c.toNat < 128) = true := by decide +kernel
  have hall : ∀ c ∈ "test_".toList ++ "0123456789abcdef".toList,
      c ≠ '\x00' ∧ c ≠ Char.ofNat 0xFFFD := by
    intro c hc
    obtain ⟨hpos, hlt⟩ := (Bool.and_eq_true ..).mp (List.all_eq_true.mp hascii c hc)
    refine ⟨?_, ?_⟩
    · rintro rfl
      exact absurd (of_decide_eq_true hpos) (by decide)
    · rintro rfl
      exact absurd (of_decide_eq_true hlt) (by decide)
  rcases hc with hc | hc
  · exact hall c (List.mem_append_left _ hc)
  · exact hall c (List.mem_append_right _ (hdigits c hc))

/-- What Go makes of a code point. -/
def charOf (c : ℕ) : Char :=
  if 0xD800 ≤ c ∧ c ≤ 0xDFFF then Char.ofNat 0xFFFD else Char.ofNat c

/-- A character stands for itself only. -/
theorem charOf_eq_iff {c : ℕ} {d : Char} (hd : d ≠ '\x00' ∧ d ≠ Char.ofNat 0xFFFD) :
    charOf c = d ↔ c = d.toNat := by
  rw [charOf]
  refine ⟨fun h => ?_, ?_⟩
  · split at h
    · exact absurd h.symm hd.2
    · by_cases hvalid : c.isValidChar
      · rw [← h, Char.ofNat, dif_pos hvalid]
        rfl
      · rw [Char.ofNat, dif_neg hvalid] at h
        exact absurd h.symm hd.1
  · rintro rfl
    have hvalid := d.valid
    rw [if_neg, Char.ofNat_toNat]
    change d.toNat < _ ∨ _ < d.toNat ∧ d.toNat < _ at hvalid
    omega

theorem map_charOf_eq_iff {chars : List Char}
    (h : ∀ d ∈ chars, d ≠ '\x00' ∧ d ≠ Char.ofNat 0xFFFD) {s : Str} :
    s.map charOf = chars ↔ s = chars.map Char.toNat := by
  induction chars generalizing s with
  | nil => simp
  | cons d rest ih =>
    rw [List.forall_mem_cons] at h
    cases s with
    | nil => simp
    | cons c s => simp [charOf_eq_iff h.1, ih h.2]

/-- A faithful text is decoded from nothing but itself. -/
theorem stringOf_eq_iff {s : Str} {id : String} (h : IsFaithful id) :
    stringOf s = id ↔ s = Py.str id := by
  have hlist : stringOf s = String.ofList (s.map charOf) := by
    rw [stringOf]
    refine congrArg _ (List.map_congr_left fun c _ => ?_)
    rw [charOf]
  rw [hlist, ← String.toList_inj, String.toList_ofList, map_charOf_eq_iff h]
  rfl

theorem stringOf_eq_empty {s : Str} : stringOf s = "" ↔ s = [] :=
  stringOf_eq_iff fun _ hc => absurd hc List.not_mem_nil

/-! ## The document in Go -/

section Decode

variable {c : TraceReplay} {parseTime : Str → Option (Option ℤ)}

open Py (sorted sortMembers sortedMembers)

theorem sortMembers_members (p : Py.Prediction) : sortMembers (c.members p) =
    [(Py.str "cause", .string p.cause.value), (Py.str "explanation", .string p.explanation),
      (Py.str "model_version", .string p.modelVersion),
      (Py.str "predicted_at", .string (c.predictedAt p)),
      (Py.str "probability", .float (c.double p.probability)),
      (Py.str "shared_resources", .array (p.sharedResources.map Json.string)),
      (Py.str "test_a", .string p.testA), (Py.str "test_b", .string p.testB)] := by
  rw [sortMembers]
  rfl

theorem decodeElements_new {α : Type} {decode : α → Json → Option α} {zero : α}
    {docs : List Json} {items : List α} (h : List.Forall₂ (fun doc item =>
      decode zero doc = some item) docs items) :
    decodeElements decode zero [] docs = some items := by
  induction h with
  | nil => rfl
  | cons hhead _ ih =>
    rw [decodeElements, List.head?_nil, Option.getD_none, hhead, List.tail_nil, ih]
    rfl

/-- A fresh slice holds what its elements are decoded to, and nothing beyond. -/
theorem decodeSlice_new {α : Type} {decode : α → Json → Option α} {zero : α}
    {docs : List Json} {items : List α} (h : List.Forall₂ (fun doc item =>
      decode zero doc = some item) docs items) :
    decodeSlice decode zero none (.array docs) = some (some ⟨items, []⟩) := by
  cases docs with
  | nil =>
    cases h
    rfl
  | cons doc docs =>
    have hitems := decodeElements_new h
    rw [decodeSlice.eq_def]
    simp [hitems]

/-- What Go decodes of a prediction, of which this is the probability and the instant. -/
def decoded (p : Py.Prediction) (q : ℚ) (predictedAt : Option ℤ) : PredictionSlot :=
  { testA := stringOf p.testA, testB := stringOf p.testB, probability := q,
    cause := stringOf p.cause.value, modelVersion := stringOf p.modelVersion,
    sharedResources := some ⟨p.sharedResources.map stringOf, []⟩,
    explanation := stringOf p.explanation, predictedAt := predictedAt }

/-- Go decodes what Python writes of a prediction. -/
theorem decodePrediction_sorted {p : Py.Prediction} {q : ℚ} {predictedAt : Option ℤ}
    (hq : c.double p.probability = .finite q)
    (htime : parseTime (c.predictedAt p) = some predictedAt) :
    decodePrediction parseTime {} (sorted (c.asdict p)) = some (decoded p q predictedAt) := by
  have hresources : decodeSlice decodeString "" none
      (.array (p.sharedResources.map Json.string)) =
        some (some ⟨p.sharedResources.map stringOf, []⟩) := by
    refine decodeSlice_new ?_
    rw [List.forall₂_map_left_iff, List.forall₂_map_right_iff]
    exact List.forall₂_same.mpr fun _ _ => rfl
  -- the fields by their names, in the order of the sorted document
  have hcause : ∀ (slot : PredictionSlot) value,
      decodeField parseTime slot (Py.str "cause", value) =
        (decodeString slot.cause value).map fun cause => { slot with cause } := fun _ _ => rfl
  have hexplanation : ∀ (slot : PredictionSlot) value,
      decodeField parseTime slot (Py.str "explanation", value) =
        (decodeString slot.explanation value).map fun explanation =>
          { slot with explanation } := fun _ _ => rfl
  have hversion : ∀ (slot : PredictionSlot) value,
      decodeField parseTime slot (Py.str "model_version", value) =
        (decodeString slot.modelVersion value).map fun modelVersion =>
          { slot with modelVersion } := fun _ _ => rfl
  have hinstant : ∀ (slot : PredictionSlot) value,
      decodeField parseTime slot (Py.str "predicted_at", value) =
        (decodeTime parseTime slot.predictedAt value).map fun predictedAt =>
          { slot with predictedAt } := fun _ _ => rfl
  have hprobability : ∀ (slot : PredictionSlot) value,
      decodeField parseTime slot (Py.str "probability", value) =
        (decodeFloat slot.probability value).map fun probability =>
          { slot with probability } := fun _ _ => rfl
  have hshared : ∀ (slot : PredictionSlot) value,
      decodeField parseTime slot (Py.str "shared_resources", value) =
        (decodeSlice decodeString "" slot.sharedResources value).map fun sharedResources =>
          { slot with sharedResources } := fun _ _ => rfl
  have htestA : ∀ (slot : PredictionSlot) value,
      decodeField parseTime slot (Py.str "test_a", value) =
        (decodeString slot.testA value).map fun testA => { slot with testA } := fun _ _ => rfl
  have htestB : ∀ (slot : PredictionSlot) value,
      decodeField parseTime slot (Py.str "test_b", value) =
        (decodeString slot.testB value).map fun testB => { slot with testB } := fun _ _ => rfl
  rw [c.sorted_asdict, sortMembers_members, decodePrediction]
  simp only [List.foldlM_cons, List.foldlM_nil, hcause, hexplanation, hversion, hinstant,
    hprobability, hshared, htestA, htestB, decodeString, decodeFloat, decodeTime, hq, htime,
    hresources, Option.map_some, Option.bind_eq_bind, Option.bind_some]
  rfl

/-- The members of the document, sorted. -/
theorem sortMembers_document (k : Py.KeyedGraph) (events : List TraceEvent)
    (predictions : List Py.Prediction) (modelUsed : Bool) (quality : Py.TraceQuality) :
    sortMembers (sortedMembers (c.document k events predictions modelUsed quality)) =
      [(Py.str "edges", sorted (.array (k.edgeDicts c.runtime.sha256 events))),
        (Py.str "prediction_mode",
          .string (Py.str (if modelUsed then "model" else "heuristic"))),
        (Py.str "predictions", .array ((predictions.map c.asdict).map sorted)),
        (Py.str "resources", sorted (.array k.resourceDicts)),
        (Py.str "tests", sorted (.array (k.testDicts events))),
        (Py.str "trace_quality", sorted quality.asdict)] := by
  rw [sortMembers, ← Py.sortedItems_eq_map]
  rfl

/-- What the control plane decodes of a prediction. -/
def goPrediction (c : TraceReplay) (parseTime : Str → Option (Option ℤ)) (p : Py.Prediction) :
    Prediction :=
  (decoded p (c.double p.probability).clamp
    ((parseTime (c.predictedAt p)).getD none)).prediction

/-- The predictions that the control plane can decode: finite numbers and instants. -/
def Decodable (c : TraceReplay) (parseTime : Str → Option (Option ℤ)) (p : Py.Prediction) :
    Prop :=
  (∃ q, c.double p.probability = .finite q ∧ 0 ≤ q ∧ q ≤ 1) ∧
    ∃ instant, parseTime (c.predictedAt p) = some instant

theorem Decodable.decodePrediction {p : Py.Prediction} (h : Decodable c parseTime p) :
    Go.decodePrediction parseTime {} (sorted (c.asdict p)) =
      some (decoded p (c.double p.probability).clamp
        ((parseTime (c.predictedAt p)).getD none)) := by
  obtain ⟨⟨q, hq, hnonneg, hle⟩, instant, hinstant⟩ := h
  rw [decodePrediction_sorted hq hinstant, hq, hinstant, Py.Float64.clamp, min_eq_right hle,
    max_eq_right hnonneg, Option.getD_some]

/-- **The predictions that the control plane finds** are those of the replay. -/
theorem entriesOf_document (k : Py.KeyedGraph) (events : List TraceEvent)
    {predictions : List Py.Prediction} (modelUsed : Bool) (quality : Py.TraceQuality)
    (h : ∀ p ∈ predictions, Decodable c parseTime p) :
    entriesOf parseTime (some (sorted (.object
      (c.document k events predictions modelUsed quality)))) =
        some (predictions.map (goPrediction c parseTime)) := by
  have hslice : decodeSlice (decodePrediction parseTime) {} none
      (.array ((predictions.map c.asdict).map sorted)) =
        some (some ⟨predictions.map fun p => decoded p (c.double p.probability).clamp
          ((parseTime (c.predictedAt p)).getD none), []⟩) := by
    refine decodeSlice_new ?_
    rw [List.map_map, List.forall₂_map_left_iff, List.forall₂_map_right_iff]
    exact List.forall₂_same.mpr fun p hp => (h p hp).decodePrediction
  have hother : ∀ {name : String} (value : Json) (slice : Option (Slice PredictionSlot)),
      nameIs (Py.str name) "predictions" = false →
        (if nameIs (Py.str name) "predictions" = true then
          decodeSlice (decodePrediction parseTime) {} slice value else some slice) =
            some slice := fun _ _ h => if_neg (h ▸ Bool.false_ne_true)
  have hname : nameIs (Py.str "predictions") "predictions" = true := by decide
  rw [sorted, sortMembers_document, entriesOf, decodeArtifact]
  simp only [List.foldlM_cons, List.foldlM_nil, hname, if_true, hslice, Option.bind_eq_bind,
    Option.bind_some, hother _ _ (show nameIs (Py.str "edges") "predictions" = false by decide),
    hother _ _ (show nameIs (Py.str "prediction_mode") "predictions" = false by decide),
    hother _ _ (show nameIs (Py.str "resources") "predictions" = false by decide),
    hother _ _ (show nameIs (Py.str "tests") "predictions" = false by decide),
    hother _ _ (show nameIs (Py.str "trace_quality") "predictions" = false by decide)]
  exact congrArg some (List.map_map ..)

end Decode

/-! ## Is the file loaded? -/

theorem exists_checkPredictions {entries : List Prediction}
    (h : ∀ p ∈ entries, ∃ q, p.normalize = .ok q) :
    ∀ index, ∃ checked, checkPredictions index entries = .ok checked := by
  induction entries with
  | nil => exact fun _ => ⟨_, rfl⟩
  | cons p rest ih =>
    rw [List.forall_mem_cons] at h
    obtain ⟨⟨q, hq⟩, hrest⟩ := h
    intro index
    obtain ⟨checked, hchecked⟩ := ih hrest (index + 1)
    rw [checkPredictions, hq]
    exact ⟨_, congrArg (Except.map _) hchecked⟩

/-- What can be decoded is loaded if every prediction is about two named tests. -/
theorem exists_predictionsForTests_iff {parseTime : Str → Option (Option ℤ)}
    {artifact : Option Json} {entries : List Prediction}
    (hentries : entriesOf parseTime artifact = some entries) (tests : List Test) :
    (∃ predictions, predictionsForTests parseTime artifact tests = .ok predictions) ↔
      ∀ p ∈ entries, ∃ q, p.normalize = .ok q := by
  refine ⟨?_, fun h => ?_⟩
  · rintro ⟨predictions, hpredictions⟩
    obtain ⟨loaded, hload, -⟩ := eq_ok_of_map_eq_ok hpredictions
    obtain ⟨entries', hentries', hall, -⟩ := loadPredictions_eq_ok hload
    obtain rfl := Option.some.inj (hentries'.symm.trans hentries)
    exact hall
  · cases artifact with
    | none => exact ⟨_, rfl⟩
    | some document =>
      obtain ⟨checked, hchecked⟩ := exists_checkPredictions h 0
      have hdecode : decodeArtifact parseTime document = some entries := hentries
      rw [predictionsForTests, loadPredictions, hdecode]
      simp only [hchecked]
      exact ⟨_, rfl⟩

/-- What is loaded makes an index. -/
theorem exists_newRiskIndex {parseTime : Str → Option (Option ℤ)} {artifact : Option Json}
    {tests : List Test} {predictions : List Prediction}
    (h : predictionsForTests parseTime artifact tests = .ok predictions) :
    ∃ risk, newRiskIndex predictions = .ok risk := by
  obtain ⟨loaded, hload, rfl⟩ := eq_ok_of_map_eq_ok h
  obtain ⟨entries, -, hall, rfl⟩ := loadPredictions_eq_ok hload
  refine exists_addPredictions (fun q hq => ?_) ⟨PartialMap.empty⟩
  have hbest := List.mem_of_mem_filter hq
  rw [deduplicate, List.mem_insertionSort, mem_bestByKey] at hbest
  obtain ⟨p, hp, rfl⟩ := List.mem_map.mp hbest.mem
  obtain ⟨r, hr⟩ := hall p hp
  exact ⟨_, Prediction.normalize_checked hr⟩

/-- Two tests access one resource in the trace. -/
def Meet (sha256 : Str → Str) (events : List TraceEvent) (a b : Str) : Prop :=
  ∃ event ∈ events, ∃ event' ∈ events, event.testID = a ∧ event'.testID = b ∧
    (event.resource sha256).id = (event'.resource sha256).id

/-- Go has two different names for the two tests. -/
def Distinguished (a b : Str) : Prop := a ≠ [] ∧ b ≠ [] ∧ stringOf a ≠ stringOf b

section Replayed

variable {c : TraceReplay} {parseTime : Str → Option (Option ℤ)} {r : Replayed}
  {events : List TraceEvent} {quality : Py.TraceQuality}

/-- It is accepted if its tests can be told apart. -/
theorem normalize_goPrediction_iff {p : Py.Prediction} :
    (∃ q, (goPrediction c parseTime p).normalize = .ok q) ↔ Distinguished p.testA p.testB := by
  have hnames : (goPrediction c parseTime p).testA = stringOf p.testA ∧
      (goPrediction c parseTime p).testB = stringOf p.testB := ⟨rfl, rfl⟩
  have hrange : ¬ ((goPrediction c parseTime p).ordered.probability < 0 ∨
      1 < (goPrediction c parseTime p).ordered.probability) := by
    rw [Prediction.ordered_probability, not_or, not_lt, not_lt]
    exact ⟨Py.Float64.clamp_nonneg _, Py.Float64.clamp_le_one _⟩
  have hdistinguished : Distinguished p.testA p.testB ↔ ¬ (stringOf p.testA = "" ∨
      stringOf p.testB = "" ∨ stringOf p.testA = stringOf p.testB) := by
    rw [stringOf_eq_empty, stringOf_eq_empty, not_or, not_or]
    rfl
  rw [Prediction.normalize, hnames.1, hnames.2, if_neg hrange, hdistinguished]
  split
  · refine iff_of_false ?_ (not_not.mpr ‹_›)
    rintro ⟨q, hq⟩
    cases hq
  · exact iff_of_true ⟨_, rfl⟩ ‹_›

/-- The pairs that a replay predicts for are those that meet. -/
theorem mem_keys_replayed (h : c.replay events quality = .ok r) :
    (r.predictions.map Py.Prediction.key).Nodup ∧
      ∀ a b, (a, b) ∈ r.predictions.map Py.Prediction.key ↔
        a < b ∧ Meet c.runtime.sha256 events a b := by
  obtain ⟨k, testCount, modelUsed, hk, hpredict, -⟩ := TraceReplay.replay_eq_ok h
  obtain ⟨hkeyed, hhistory, haccess⟩ := Py.KeyedGraph.fromEvents_eq_ok hk
  obtain ⟨hnodup, candidates, hcandidates, hkeys⟩ :=
    TraceReplay.keys_predict hkeyed hhistory hpredict
  obtain ⟨candidates', hcandidates', hmem⟩ := hkeyed.candidatePairs_eq true
  obtain rfl := Except.ok.inj (hcandidates'.symm.trans hcandidates)
  refine ⟨hnodup, fun a b => ?_⟩
  rw [hkeys, hmem, hhistory, or_iff_left List.not_mem_nil]
  refine and_congr_right fun _ => ?_
  simp only [haccess, true_or, and_true]
  refine ⟨?_, ?_⟩
  · rintro ⟨id, ⟨event, hevent, ha, hid⟩, event', hevent', hb, hid'⟩
    exact ⟨event, hevent, event', hevent', ha, hb, hid.trans hid'.symm⟩
  · rintro ⟨event, hevent, event', hevent', ha, hb, hid⟩
    exact ⟨_, ⟨event, hevent, ha, rfl⟩, event', hevent', hb, hid.symm⟩

/-- What is predicted for two tests is the largest probability, since there is no other. -/
theorem isLargest_predictedRisk {predictions : List Py.Prediction}
    (h : (predictions.map Py.Prediction.key).Nodup) {a b : String} (ha : IsFaithful a)
    (hb : IsFaithful b) :
    IsLargest (predictions.map (goPrediction c parseTime)) a b
      (c.predictedRisk predictions (Py.str a) (Py.str b)) := by
  have hnames : ∀ p : Py.Prediction, (goPrediction c parseTime p).Names a b ↔
      p.key = Py.stableTexts (Py.str a) (Py.str b) := by
    intro p
    rw [← TraceReplay.names_entry_iff (c := c)]
    exact or_congr (and_congr (stringOf_eq_iff ha) (stringOf_eq_iff hb))
      (and_congr (stringOf_eq_iff hb) (stringOf_eq_iff ha))
  have hall : ∀ p ∈ predictions, (goPrediction c parseTime p).Names a b →
      p ∈ (predictions.find? fun p =>
        p.key = Py.stableTexts (Py.str a) (Py.str b)).toList := by
    intro p hp hpair
    rw [← TraceReplay.filter_key_eq h]
    exact List.mem_filter.mpr ⟨hp, decide_eq_true ((hnames p).mp hpair)⟩
  rw [TraceReplay.predictedRisk]
  cases hfind : predictions.find? fun p =>
      p.key = Py.stableTexts (Py.str a) (Py.str b) with
  | none =>
    refine ⟨fun q hq hpair => ?_, .inl rfl⟩
    obtain ⟨p, hp, rfl⟩ := List.mem_map.mp hq
    have hmem := hall p hp hpair
    rw [hfind] at hmem
    exact absurd hmem List.not_mem_nil
  | some found =>
    have hfound : found.key = Py.stableTexts (Py.str a) (Py.str b) := by
      simpa using List.find?_some hfind
    refine ⟨fun q hq hpair => ?_, .inr ⟨goPrediction c parseTime found, List.mem_map_of_mem
      (List.mem_of_find?_eq_some hfind), (hnames found).mpr hfound, rfl⟩⟩
    obtain ⟨p, hp, rfl⟩ := List.mem_map.mp hq
    have hmem := hall p hp hpair
    rw [hfind] at hmem
    obtain rfl : p = found := List.mem_singleton.mp hmem
    exact le_refl _

/-- **When the control plane loads what a replay wrote**, and what it sees then. Every prediction
that can be decoded is about two tests that meet in the trace. The file is loaded exactly if Go
has different names for any two of these; then the index of the control plane answers for any
two collected tests with what was predicted for them. -/
theorem predictionsForTests_replayed (h : c.replay events quality = .ok r)
    (hcarried : Py.Carried c.interpreter c.interpreter.loadsDepth (.object r.document))
    {text : Str} (htext : Py.artifactText c.interpreter (.object r.document) = some text)
    (hdecodable : ∀ p ∈ r.predictions, Decodable c parseTime p) (tests : List Test)
    (hids : ∀ t ∈ tests, IsStableID t.id) :
    ∃ document, Py.loads c.interpreter.loadsDepth text = .ok document ∧
      ((∃ predictions, predictionsForTests parseTime (some document) tests = .ok predictions) ↔
        ∀ a b, a < b → Meet c.runtime.sha256 events a b → Distinguished a b) ∧
      ∀ predictions, predictionsForTests parseTime (some document) tests = .ok predictions →
        ∃ risk, newRiskIndex predictions = .ok risk ∧
          ∀ a ∈ tests.map Test.id, ∀ b ∈ tests.map Test.id, a ≠ b →
            risk.probability a b = c.predictedRisk r.predictions (Py.str a) (Py.str b) := by
  obtain ⟨hnodup, hkeys⟩ := mem_keys_replayed h
  obtain ⟨k, testCount, modelUsed, -, -, hdocument⟩ := TraceReplay.replay_eq_ok h
  have hentries := entriesOf_document k events modelUsed quality hdecodable
  rw [← hdocument] at hentries
  have hfaithful : ∀ id ∈ tests.map Test.id, IsFaithful id :=
    List.forall_mem_map.mpr fun t ht => (hids t ht).isFaithful
  refine ⟨_, Py.loads_artifactText hcarried htext, ?_, fun predictions hpredictions => ?_⟩
  · rw [exists_predictionsForTests_iff hentries, List.forall_mem_map]
    refine ⟨fun hall a b hlt hmeet => ?_, fun hall p hp => ?_⟩
    · obtain ⟨p, hp, hkey⟩ := List.mem_map.mp ((hkeys a b).mpr ⟨hlt, hmeet⟩)
      obtain ⟨rfl, rfl⟩ := Prod.mk.inj hkey
      exact normalize_goPrediction_iff.mp (hall p hp)
    · obtain ⟨hlt, hmeet⟩ := (hkeys p.testA p.testB).mp (List.mem_map_of_mem hp)
      exact normalize_goPrediction_iff.mpr (hall _ _ hlt hmeet)
  · obtain ⟨risk, hrisk⟩ := exists_newRiskIndex hpredictions
    refine ⟨risk, hrisk, fun a ha b hb hne => ?_⟩
    have hgo := isLargest_probability hpredictions hrisk hids hentries ha hb hne
    have hpredicted := @isLargest_predictedRisk c parseTime _ hnodup _ _ (hfaithful a ha)
      (hfaithful b hb)
    exact hgo.eq hpredicted (probability_nonneg_of_loaded hpredictions hentries hgo)
      (probability_nonneg_of_loaded hpredictions hentries hpredicted)

end Replayed

/-! ## Three tests at one file -/

/-- The three tests, as Go collects them. -/
def sharingTests : List Test :=
  ['0', '1', '2'].map fun digit => { id := Py.testID digit, nodeID := "tests/test_a.py::test" }

/-- The instant of the predictions. -/
def parseReplayTime (text : Str) : Option (Option ℤ) :=
  if text = Py.str "2026-01-01T00:00:00+00:00" then some (some 1767225600000000000) else none

theorem stringOf_testID {digit : Char} (h : digit ∈ "0123456789abcdef".toList) :
    stringOf (Py.str (Py.testID digit)) = Py.testID digit :=
  (stringOf_eq_iff (isStableID_testID h).isFaithful).mpr rfl

theorem distinguished_of_meet {a b : Str} (hlt : a < b)
    (h : Meet Py.sha256OfTmpX TraceReplay.sharedEvents a b) : Distinguished a b := by
  obtain ⟨event, hevent, event', hevent', rfl, rfl, -⟩ := h
  have hall : ∀ event ∈ TraceReplay.sharedEvents, ∃ digit ∈ "0123456789abcdef".toList,
      event.testID = Py.str (Py.testID digit) := by
    simp only [TraceReplay.sharedEvents, List.forall_mem_cons]
    exact ⟨⟨'0', by decide, rfl⟩, ⟨'1', by decide, rfl⟩, ⟨'2', by decide, rfl⟩,
      List.forall_mem_nil _⟩
  have hne : ∀ digit, Py.str (Py.testID digit) ≠ [] := fun digit => by
    rw [TraceReplay.str_testID]
    exact List.append_ne_nil_of_left_ne_nil (by decide) _
  obtain ⟨digit, hdigit, htest⟩ := hall event hevent
  obtain ⟨digit', hdigit', htest'⟩ := hall event' hevent'
  rw [htest, htest'] at hlt ⊢
  refine ⟨hne digit, hne digit', ?_⟩
  rw [stringOf_testID hdigit, stringOf_testID hdigit']
  exact fun h => hlt.ne (congrArg Py.str h)

/-- The control plane loads the file of this replay, and its index answers with one probability for
the two writers, and with another for a writer and the reader. -/
theorem predictionsForTests_replayed_shared :
    ∃ r text document predictions risk,
      TraceReplay.heuristicReplay.replay TraceReplay.sharedEvents ⟨3, 3, 0, 0, 0⟩ = .ok r ∧
      Py.artifactText TraceReplay.heuristicReplay.interpreter (.object r.document) = some text ∧
      Py.loads TraceReplay.heuristicReplay.interpreter.loadsDepth text = .ok document ∧
      predictionsForTests parseReplayTime (some document) sharingTests = .ok predictions ∧
      newRiskIndex predictions = .ok risk ∧
      risk.probability (Py.testID '0') (Py.testID '1') =
        (Py.Float64.ofRat (41009 / 50000)).clamp ∧
      risk.probability (Py.testID '2') (Py.testID '0') =
        (Py.Float64.ofRat (13007 / 20000)).clamp := by
  have hreplayed : (TraceReplay.heuristicReplay.replay TraceReplay.sharedEvents
      ⟨3, 3, 0, 0, 0⟩).map (fun r =>
        (Py.isPlain (TraceReplay.sharedNumbers.map Prod.fst) 900 (.object r.document),
          (Py.artifactText TraceReplay.heuristicReplay.interpreter (.object r.document)).isSome,
          r.predictions.all (fun p => p.probability = 41009 / 50000 ∨ p.probability = 13007 / 20000),
          TraceReplay.heuristicReplay.predictedRisk r.predictions (Py.str (Py.testID '0'))
            (Py.str (Py.testID '1')),
          TraceReplay.heuristicReplay.predictedRisk r.predictions (Py.str (Py.testID '2'))
            (Py.str (Py.testID '0')))) =
      .ok (true, true, true, (Py.Float64.ofRat (41009 / 50000)).clamp,
        (Py.Float64.ofRat (13007 / 20000)).clamp) := by
    simp only [TraceReplay.sharedEvents, TraceReplay.str_testID]
    decide +kernel
  obtain ⟨r, hr, hvalues⟩ := eq_ok_of_map_eq_ok hreplayed
  simp only [Prod.mk.injEq] at hvalues
  obtain ⟨hplain, hwritten, hnumbers, hwriters, hreader⟩ := hvalues
  obtain ⟨text, htext⟩ := Option.isSome_iff_exists.mp hwritten
  have hcarried : Py.Carried TraceReplay.heuristicReplay.interpreter
      TraceReplay.heuristicReplay.interpreter.loadsDepth (.object r.document) :=
    Py.carried_of_isPlain (fun x _ => Py.carried_numbers (by decide +kernel) x) hplain
  have hdecodable : ∀ p ∈ r.predictions,
      Decodable TraceReplay.heuristicReplay parseReplayTime p := by
    intro p hp
    refine ⟨?_, _, rfl⟩
    rcases of_decide_eq_true (List.all_eq_true.mp hnumbers p hp) with hp | hp <;> rw [hp]
    · exact ⟨7387524684753467 / 9007199254740992, by decide +kernel, by norm_num, by norm_num⟩
    · exact ⟨1464458008830201 / 2251799813685248, by decide +kernel, by norm_num, by norm_num⟩
  have hids : ∀ t ∈ sharingTests, IsStableID t.id := by
    simp only [sharingTests, List.forall_mem_map, List.forall_mem_cons]
    exact ⟨isStableID_testID (by decide), isStableID_testID (by decide),
      isStableID_testID (by decide), List.forall_mem_nil _⟩
  obtain ⟨document, hloads, hexists, hindex⟩ :=
    predictionsForTests_replayed hr hcarried htext hdecodable sharingTests hids
  obtain ⟨predictions, hpredictions⟩ :=
    hexists.mpr fun a b hlt hmeet => distinguished_of_meet hlt hmeet
  obtain ⟨risk, hrisk, hprobability⟩ := hindex predictions hpredictions
  refine ⟨r, text, document, predictions, risk, hr, htext, hloads, hpredictions, hrisk, ?_, ?_⟩
  · rw [← hwriters]
    exact hprobability _ (by decide +kernel) _ (by decide +kernel) (by decide +kernel)
  · rw [← hreader]
    exact hprobability _ (by decide +kernel) _ (by decide +kernel) (by decide +kernel)

end ConflictGraph.Go
