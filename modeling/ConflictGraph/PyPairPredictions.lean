import ConflictGraph.OrderedDict
import ConflictGraph.PyDatasetBuild

/-!
# Model probabilities for pairs

`pair_predictions` of `model.py` takes the probabilities in the order of the examples, and
puts each in the place of the heuristic prediction for the pair of its example. The examples
and the heuristic predictions come from the same candidates, each once, but in different
orders; so every heuristic prediction is replaced, none is added, and each probability gets
to its own pair (`pairPredictions_matched`).
-/

namespace ConflictGraph.Py

structure ArtifactError : Type where
  message : String
  deriving DecidableEq

/-- `PairPrediction.key`. -/
def Prediction.key (p : Prediction) : Str × Str := (p.testA, p.testB)

/-- `{prediction.key: prediction for prediction in heuristic_predictions}`. -/
def byPair (heuristic : List Prediction) : OrderedDict (Str × Str) Prediction :=
  heuristic.foldl (fun d p => d.insert p.key p) .empty

/-- The body of the loop of `pair_predictions`. -/
def predictPair (modelVersion : Str) (d : OrderedDict (Str × Str) Prediction)
    (step : PairExample × Float64) : OrderedDict (Str × Str) Prediction :=
  let base := d.get? step.1.pair
  d.insert step.1.pair
    (.new step.1.testA step.1.testB step.2.clamp ((base.map Prediction.cause).getD .unknown)
      modelVersion ((base.map Prediction.sharedResources).getD step.1.resources)
      ((base.map Prediction.explanation).getD (str "model prediction from pair features")))

/-- `pair_predictions`. -/
def pairPredictions (dataset : Dataset) (probabilities : List Float64)
    (heuristic : List Prediction) (modelVersion : Str) : Except ArtifactError (List Prediction) :=
  if dataset.examples.length ≠ probabilities.length then
    .error ⟨"prediction count does not match the inference dataset"⟩
  else
    .ok ((dataset.examples.zip probabilities).foldl (predictPair modelVersion)
      (byPair heuristic)).values

/-! ## Keys -/

theorem Prediction.key_new {testA testB : Str} (h : testA ≤ testB) (probability : ℚ)
    (cause : ConflictCause) (modelVersion : Str) (sharedResources : List Str)
    (explanation : Str) :
    (Prediction.new testA testB probability cause modelVersion sharedResources explanation).key =
      (testA, testB) :=
  Prod.ext (if_neg (not_lt.mpr h)) (if_neg (not_lt.mpr h))

theorem clamp_clamp (value : Float64) : clamp value.clamp = value.clamp := by
  rw [clamp, min_eq_right value.clamp_le_one, max_eq_right value.clamp_nonneg]

theorem TestResourceGraph.names_of_pairFeatures {g : TestResourceGraph} {a b : Str}
    {f : PairFeatures} (hab : a ≤ b) (h : g.pairFeatures a b = .ok f) :
    f.testA = a ∧ f.testB = b := by
  simp only [pairFeatures, if_pos hab] at h
  obtain ⟨shared, -, hf⟩ := bind_eq_ok_iff.mp h
  obtain rfl := Except.ok.inj hf
  exact ⟨rfl, rfl⟩

/-- The heuristic predictions are those of the candidates, in their order. -/
theorem HeuristicPredictor.predictGraph_keys (h : HeuristicPredictor) {k : KeyedGraph}
    (hlinked : k.graph.Linked) {includeReadonly : Bool} {candidates : List (Str × Str)}
    (hcandidates : k.candidatePairs includeReadonly = .ok candidates)
    (hstable : ∀ pair ∈ candidates, pair.1 ≤ pair.2) :
    ∃ heuristic, h.predictGraph k includeReadonly = .ok heuristic ∧
      heuristic.map Prediction.key = candidates := by
  have hscore : ∀ pair ∈ candidates, ∃ p,
      (k.graph.pairFeatures pair.1 pair.2).map h.score = .ok p := by
    intro pair _
    obtain ⟨f, hf⟩ := hlinked.exists_pairFeatures pair.1 pair.2
    rw [hf]
    exact ⟨_, rfl⟩
  obtain ⟨heuristic, hheuristic⟩ := exists_mapM_eq_ok_iff.mpr hscore
  refine ⟨heuristic, bind_eq_ok_iff.mpr ⟨candidates, hcandidates, hheuristic⟩, ?_⟩
  have hall := forall₂_of_mapM_eq_ok hheuristic
  clear hheuristic hcandidates hscore
  induction hall with
  | nil => rfl
  | @cons pair p _ _ hp _ ih =>
    rw [List.forall_mem_cons] at hstable
    obtain ⟨f, hf, rfl⟩ := eq_ok_of_map_eq_ok hp
    obtain ⟨hleft, hright⟩ := TestResourceGraph.names_of_pairFeatures hstable.1 hf
    rw [List.map_cons, ih hstable.2, HeuristicPredictor.score, hleft, hright,
      Prediction.key_new hstable.1]

/-- Without labels and without a limit there is one example for each candidate. -/
theorem DatasetBuilder.perm_candidates {builder : DatasetBuilder} {runtime : DatasetRuntime}
    {k : KeyedGraph} {testCount : ℕ} {candidates : List (Str × Str)} {d : Dataset}
    (hratio : builder.negativeRatio = none) (hcandidates : k.candidatePairs true = .ok candidates)
    (hnodup : candidates.Nodup) (h : builder.build runtime k testCount [] = .ok d) :
    (d.examples.map PairExample.pair).Perm candidates := by
  obtain ⟨found, kept, hmakes, hassembles⟩ := assembles_of_build hcandidates h
  have hkept : found.filter (fun e => !e.label) = kept := by
    have hsampled := hassembles.sampled
    rw [sampled, hratio] at hsampled
    exact Except.ok.inj hsampled
  have hfound : d.examples.Perm found := by
    refine hassembles.perm.trans ?_
    rw [← hkept]
    exact List.filter_append_perm ..
  have hpairs : (pairsOf candidates []).Perm candidates := by
    rw [pairsOf, List.map_nil, List.append_nil, hnodup.dedup]
    exact List.perm_insertionSort ..
  exact (hfound.map _).trans (hmakes.map_pair ▸ hpairs)

/-! ## The loops -/

/-- Each prediction is kept at its key. -/
def HeldByKey (d : OrderedDict (Str × Str) Prediction) : Prop :=
  ∀ k p, d.get? k = some p → p.key = k

theorem HeldByKey.insert {d : OrderedDict (Str × Str) Prediction} (h : HeldByKey d) {k : Str × Str}
    {p : Prediction} (hp : p.key = k) : HeldByKey (d.insert k p) := by
  intro k' p' hget
  rw [OrderedDict.get?_insert] at hget
  split at hget
  · rename_i hkey
    obtain rfl := Option.some.inj hget
    exact hp.trans hkey.symm
  · exact h k' p' hget

theorem HeldByKey.mem_map_key {d : OrderedDict (Str × Str) Prediction} (h : HeldByKey d)
    {k : Str × Str} : k ∈ d.values.map Prediction.key ↔ k ∈ d.keys := by
  rw [List.mem_map, OrderedDict.mem_keys_iff]
  refine ⟨?_, ?_⟩
  · rintro ⟨p, hp, rfl⟩
    obtain ⟨k, hget⟩ := OrderedDict.mem_values_iff.mp hp
    rw [h k p hget]
    exact ⟨p, hget⟩
  · rintro ⟨p, hget⟩
    exact ⟨p, OrderedDict.mem_values_iff.mpr ⟨k, hget⟩, h k p hget⟩

theorem HeldByKey.nodup_map_key {d : OrderedDict (Str × Str) Prediction} (h : HeldByKey d) :
    (d.values.map Prediction.key).Nodup := by
  have hkeys : d.values.map Prediction.key = d.keys := by
    rw [OrderedDict.values, List.map_map]
    refine List.map_congr_left fun item hitem => ?_
    exact h item.1 item.2 (OrderedDict.mem_items_iff.mp hitem)
  rw [hkeys]
  exact d.nodup

theorem byPair_keyed (heuristic : List Prediction) : HeldByKey (byPair heuristic) ∧
    ∀ k, k ∈ (byPair heuristic).keys ↔ k ∈ heuristic.map Prediction.key := by
  refine foldl_prefix_invariant (I := fun done d => HeldByKey d ∧
    ∀ k, k ∈ d.keys ↔ k ∈ done.map Prediction.key) ?_ ?_
  · exact ⟨fun _ _ hget => absurd hget (by simp), fun _ => Iff.rfl⟩
  · rintro done p rest d - ⟨hkeyed, hkeys⟩
    refine ⟨hkeyed.insert rfl, fun k => ?_⟩
    rw [OrderedDict.mem_keys_insert, hkeys, List.map_append, List.mem_append, or_comm]
    exact or_congr_right (List.mem_singleton).symm

/-- What the loop of `pair_predictions` has done. -/
structure PredictedSoFar (initial : List (Str × Str)) (modelVersion : Str)
    (done : List (PairExample × Float64)) (d : OrderedDict (Str × Str) Prediction) : Prop where
  keyed : HeldByKey d
  keys : ∀ k, k ∈ d.keys ↔ k ∈ initial ∨ k ∈ done.map fun step => step.1.pair
  predicted : ∀ step ∈ done, ∃ p, d.get? step.1.pair = some p ∧
    p.probability = step.2.clamp ∧ p.modelVersion = modelVersion

theorem PredictedSoFar.predictPair {initial : List (Str × Str)} {modelVersion : Str}
    {done : List (PairExample × Float64)} {d : OrderedDict (Str × Str) Prediction}
    (h : PredictedSoFar initial modelVersion done d) {step : PairExample × Float64}
    (hstable : step.1.testA ≤ step.1.testB)
    (hnew : ∀ before ∈ done, before.1.pair ≠ step.1.pair) :
    PredictedSoFar initial modelVersion (done ++ [step]) (predictPair modelVersion d step) := by
  constructor
  · exact h.keyed.insert (Prediction.key_new hstable ..)
  · intro k
    rw [Py.predictPair, OrderedDict.mem_keys_insert, h.keys, List.map_append, List.mem_append,
      or_comm, or_assoc]
    exact or_congr_right (or_congr_right (List.mem_singleton).symm)
  · refine List.forall_mem_append.mpr ⟨fun before hbefore => ?_,
      List.forall_mem_singleton.mpr ?_⟩
    -- the pairs of examples are distinct, so no earlier prediction is replaced
    · obtain ⟨p, hget, hp⟩ := h.predicted before hbefore
      refine ⟨p, ?_, hp⟩
      rw [Py.predictPair, OrderedDict.get?_insert, if_neg (hnew before hbefore), hget]
    · exact ⟨_, by rw [Py.predictPair, OrderedDict.get?_insert, if_pos rfl],
        clamp_clamp step.2, rfl⟩

/-- The loop over all examples. -/
theorem predictedSoFar_foldl {examples : List PairExample} {probabilities : List Float64}
    {heuristic : List Prediction} {modelVersion : Str}
    (hstable : ∀ e ∈ examples, e.testA ≤ e.testB)
    (hnodup : (examples.map PairExample.pair).Nodup)
    (hlength : examples.length = probabilities.length) :
    PredictedSoFar (heuristic.map Prediction.key) modelVersion (examples.zip probabilities)
      ((examples.zip probabilities).foldl (predictPair modelVersion) (byPair heuristic)) := by
  have hpairs : (examples.zip probabilities).map (fun step => step.1.pair) =
      examples.map PairExample.pair := by
    conv_rhs => rw [← List.map_fst_zip hlength.le, List.map_map]
    rfl
  obtain ⟨hkeyed, hkeys⟩ := byPair_keyed heuristic
  refine foldl_prefix_invariant ⟨hkeyed, fun k => ?_, List.forall_mem_nil _⟩ ?_
  · rw [hkeys]
    exact (or_iff_left List.not_mem_nil).symm
  · intro done step rest d hall hdone
    refine hdone.predictPair ?_ ?_
    · have hmem : step ∈ examples.zip probabilities := hall ▸ List.mem_append_right _
        List.mem_cons_self
      exact hstable _ (List.of_mem_zip hmem).1
    · intro before hbefore heq
      rw [← hpairs, hall, List.map_append, List.map_cons] at hnodup
      exact (List.nodup_append.mp hnodup).2.2 _ (List.mem_map_of_mem hbefore) _
        List.mem_cons_self heq

/-! ## The predictions -/

/-- The prediction of the model of that version for the pair of an example. -/
structure Prediction.IsOf (p : Prediction) (modelVersion : Str) (e : PairExample)
    (value : Float64) : Prop where
  key_eq : p.key = e.pair
  probability_eq : p.probability = value.clamp
  modelVersion_eq : p.modelVersion = modelVersion

/-- There is one prediction for each candidate, the one for the pair of an example with its
own probability. -/
structure Matched (candidates : List (Str × Str)) (examples : List PairExample)
    (probabilities : List Float64) (modelVersion : Str) (predictions : List Prediction) :
    Prop where
  eachOnce : EachOnce (predictions.map Prediction.key)
  mem_iff : ∀ pair, pair ∈ predictions.map Prediction.key ↔ pair ∈ candidates
  given : ∀ (i : ℕ) (e : PairExample) (value : Float64), examples[i]? = some e →
    probabilities[i]? = some value → ∃ p ∈ predictions, p.IsOf modelVersion e value
  noneSurvives : ∀ p ∈ predictions, ∃ (i : ℕ) (e : PairExample) (value : Float64),
    examples[i]? = some e ∧ probabilities[i]? = some value ∧ p.IsOf modelVersion e value

theorem matched_of_perm {candidates : List (Str × Str)} {examples : List PairExample}
    {probabilities : List Float64} {heuristic : List Prediction} {modelVersion : Str}
    (hstable : ∀ pair ∈ candidates, pair.1 ≤ pair.2) (hnodup : candidates.Nodup)
    (hkeys : heuristic.map Prediction.key = candidates)
    (hperm : (examples.map PairExample.pair).Perm candidates)
    (hlength : examples.length = probabilities.length) :
    Matched candidates examples probabilities modelVersion
      ((examples.zip probabilities).foldl (predictPair modelVersion)
        (byPair heuristic)).values := by
  have hexample : ∀ e ∈ examples, e.pair ∈ candidates := fun e he =>
    hperm.mem_iff.mp (List.mem_map_of_mem he)
  have hdone := @predictedSoFar_foldl examples probabilities heuristic modelVersion
    (fun e he => hstable _ (hexample e he)) (hperm.nodup_iff.mpr hnodup) hlength
  rw [hkeys] at hdone
  set d := (examples.zip probabilities).foldl (predictPair modelVersion) (byPair heuristic)
  have hmem : ∀ pair, pair ∈ d.values.map Prediction.key ↔ pair ∈ candidates := by
    intro pair
    rw [hdone.keyed.mem_map_key, hdone.keys, or_iff_left_iff_imp]
    intro hpair
    obtain ⟨step, hstep, rfl⟩ := List.mem_map.mp hpair
    exact hexample _ (List.of_mem_zip hstep).1
  constructor
  · exact eachOnce_of_nodup hdone.keyed.nodup_map_key fun pair hpair =>
      hstable pair ((hmem pair).mp hpair)
  · exact hmem
  · intro i e value he hvalue
    have hstep : (e, value) ∈ examples.zip probabilities :=
      List.mem_of_getElem? (List.getElem?_zip_eq_some.mpr ⟨he, hvalue⟩)
    obtain ⟨p, hget, hp⟩ := hdone.predicted _ hstep
    exact ⟨p, OrderedDict.mem_values_iff.mpr ⟨_, hget⟩, hdone.keyed _ _ hget, hp.1, hp.2⟩
  · intro p hp
    -- its pair is a candidate, so it is the pair of an example
    have hpair := (hmem p.key).mp (List.mem_map_of_mem hp)
    obtain ⟨e, he, heq⟩ := List.mem_map.mp (hperm.mem_iff.mpr hpair)
    obtain ⟨i, hi⟩ := List.mem_iff_getElem?.mp he
    have hlt : i < probabilities.length := hlength ▸ (List.getElem?_eq_some_iff.mp hi).1
    have hvalue : probabilities[i]? = some probabilities[i] := List.getElem?_eq_getElem hlt
    have hstep : (e, probabilities[i]) ∈ examples.zip probabilities :=
      List.mem_of_getElem? (List.getElem?_zip_eq_some.mpr ⟨hi, hvalue⟩)
    obtain ⟨p', hget', hp'⟩ := hdone.predicted _ hstep
    obtain ⟨k, hget⟩ := OrderedDict.mem_values_iff.mp hp
    have hk := hdone.keyed k p hget
    rw [← hk, ← heq] at hget
    obtain rfl := Option.some.inj (hget.symm.trans hget')
    exact ⟨i, e, _, hi, hvalue, heq.symm, hp'.1, hp'.2⟩

/-- **The probabilities of a model reach their own pairs**: with as many of them as examples
there is one prediction for each candidate, and no heuristic probability is left. -/
theorem pairPredictions_matched (sha256 : Str → Str) (calls : List GraphCall)
    (history : StableHistory) {builder : DatasetBuilder} (hratio : builder.negativeRatio = none)
    {runtime : DatasetRuntime} {testCount : ℕ} {dataset : Dataset}
    (hbuild : builder.build runtime ((KeyedGraph.build sha256 calls).withHistory history)
      testCount [] = .ok dataset)
    (h : HeuristicPredictor) (probabilities : List Float64) (modelVersion : Str) :
    ∃ candidates heuristic,
      ((KeyedGraph.build sha256 calls).withHistory history).candidatePairs true =
        .ok candidates ∧
      h.predictGraph ((KeyedGraph.build sha256 calls).withHistory history) true =
        .ok heuristic ∧
      ((∃ e, pairPredictions dataset probabilities heuristic modelVersion = .error e) ↔
        probabilities.length ≠ dataset.examples.length) ∧
      ∀ predictions,
        pairPredictions dataset probabilities heuristic modelVersion = .ok predictions →
          Matched candidates dataset.examples probabilities modelVersion predictions := by
  have hkeyed := (KeyedGraph.built_build sha256 calls).toKeyed
  have hlinked := (hkeyed.withHistory history).linked
  obtain ⟨candidates, hcandidates, -⟩ := (hkeyed.withHistory history).candidatePairs_eq true
  obtain ⟨hnodup, hstable⟩ := hkeyed.candidatePairs_stable history hcandidates
  obtain ⟨heuristic, hheuristic, hkeys⟩ := h.predictGraph_keys hlinked hcandidates hstable
  have hperm := DatasetBuilder.perm_candidates hratio hcandidates hnodup hbuild
  refine ⟨candidates, heuristic, hcandidates, hheuristic, ?_, fun predictions hok => ?_⟩
  · rw [pairPredictions, @ne_comm _ probabilities.length]
    split
    · exact iff_of_true ⟨_, rfl⟩ ‹_›
    · refine iff_of_false ?_ ‹_›
      rintro ⟨e, he⟩
      cases he
  · rw [pairPredictions] at hok
    split at hok
    · cases hok
    · rename_i hlength
      obtain rfl := Except.ok.inj hok
      exact matched_of_perm hstable hnodup hkeys hperm (not_not.mp hlength)

/-- Three tests connect to `/tmp/s`. -/
def allConnect : List GraphCall :=
  bothConnect ++ [.addEvent (connects (str "c") 3)]

def allPairs : List (Str × Str) :=
  [(str "a", str "b"), (str "a", str "c"), (str "b", str "c")]

theorem exists_build_allConnect : ∃ dataset, DatasetBuilder.build ⟨42, none, by decide⟩ .still
    ((KeyedGraph.build digestOfSocket allConnect).withHistory .empty) 3 [] = .ok dataset ∧
      dataset.examples.map PairExample.pair = allPairs := by
  have hbuild : (DatasetBuilder.build ⟨42, none, by decide⟩ .still
      ((KeyedGraph.build digestOfSocket allConnect).withHistory .empty) 3 []).toOption.map
        (fun dataset => dataset.examples.map PairExample.pair) = some allPairs := by
    decide +kernel
  obtain ⟨dataset, hdataset, hpairs⟩ := Option.map_eq_some_iff.mp hbuild
  refine ⟨dataset, ?_, hpairs⟩
  cases hresult : DatasetBuilder.build ⟨42, none, by decide⟩ .still
      ((KeyedGraph.build digestOfSocket allConnect).withHistory .empty) 3 [] with
  | error e =>
    rw [hresult] at hdataset
    cases hdataset
  | ok d =>
    rw [hresult] at hdataset
    exact congrArg Except.ok (Option.some.inj hdataset)

/-- A probability above one, one between and no number. -/
def allProbabilities : List Float64 := [.finite (3 / 2), .finite (1 / 4), .nan]

/-- Three tests that connect to one socket, and a probability for each of their pairs. -/
theorem pairPredictions_matched_allConnect :
    ∃ dataset, DatasetBuilder.build ⟨42, none, by decide⟩ .still
        ((KeyedGraph.build digestOfSocket allConnect).withHistory .empty) 3 [] = .ok dataset ∧
      dataset.examples.map PairExample.pair = allPairs ∧
      ∃ candidates heuristic,
        ((KeyedGraph.build digestOfSocket allConnect).withHistory .empty).candidatePairs true =
          .ok candidates ∧
        HeuristicPredictor.predictGraph {}
          ((KeyedGraph.build digestOfSocket allConnect).withHistory .empty) true =
          .ok heuristic ∧
        ((∃ e, pairPredictions dataset allProbabilities heuristic (str "v1") = .error e) ↔
          allProbabilities.length ≠ dataset.examples.length) ∧
        ∀ predictions,
          pairPredictions dataset allProbabilities heuristic (str "v1") = .ok predictions →
            Matched candidates dataset.examples allProbabilities (str "v1") predictions := by
  obtain ⟨dataset, hbuild, hpairs⟩ := exists_build_allConnect
  exact ⟨dataset, hbuild, hpairs,
    @pairPredictions_matched _ _ _ ⟨42, none, by decide⟩ rfl _ _ _ hbuild {} _ _⟩

end ConflictGraph.Py
