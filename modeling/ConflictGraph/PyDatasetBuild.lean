import Mathlib.Data.List.Perm.Subperm
import Mathlib.Data.Prod.Lex
import ConflictGraph.Loop
import ConflictGraph.PyDataset

/-!
# What a dataset is built of

`DatasetBuilder.build` goes through the candidate pairs and the labelled ones in order and
makes an example of each (`Makes`). It keeps those that a label calls a conflict, and draws
from the others as many as `negative_ratio` allows. So what it returns is sorted, names no
pair twice, has every conflict, and counts what it has (`build_composed`). It returns
nothing for a test whose ID cannot be encoded, since a digest is taken of it, nor for a
ratio that makes the limit no number.
-/

namespace ConflictGraph.Py

/-! ## The order of pairs -/

theorem pairLE_iff {p q : Str × Str} : pairLE p q ↔ toLex p ≤ toLex q :=
  Prod.Lex.toLex_le_toLex.symm

/-- The strict order of tuples. -/
def pairLT (p q : Str × Str) : Prop := pairLE p q ∧ p ≠ q

theorem pairLE_total (p q : Str × Str) : pairLE p q ∨ pairLE q p := by
  rw [pairLE_iff, pairLE_iff]
  exact le_total _ _

theorem pairLE_trans {p q r : Str × Str} (hpq : pairLE p q) (hqr : pairLE q r) : pairLE p r := by
  rw [pairLE_iff] at hpq hqr ⊢
  exact hpq.trans hqr

/-- Examples that name no pair twice are sorted strictly. -/
theorem sortedExamples_pairwise {examples : List PairExample}
    (h : (examples.map PairExample.pair).Nodup) :
    ((DatasetBuilder.sortedExamples examples).map PairExample.pair).Pairwise pairLT := by
  have htotal : Std.Total fun x y : PairExample => pairLE x.pair y.pair :=
    ⟨fun x y => pairLE_total x.pair y.pair⟩
  have htrans : IsTrans PairExample fun x y => pairLE x.pair y.pair :=
    ⟨fun _ _ _ hxy hyz => pairLE_trans hxy hyz⟩
  have hsorted : ((DatasetBuilder.sortedExamples examples).map PairExample.pair).Pairwise pairLE :=
    List.pairwise_map.mpr (List.pairwise_insertionSort ..)
  have hnodup : ((DatasetBuilder.sortedExamples examples).map PairExample.pair).Nodup :=
    ((List.perm_insertionSort ..).map _).nodup_iff.mpr h
  exact hsorted.and hnodup

/-! ## Labels -/

/-- The label that counts for a pair. -/
def lastLabel (labels : List ConflictLabel) (pair : Str × Str) : Option ConflictLabel :=
  (labels.filter fun label => label.key = pair).getLast?

namespace DatasetBuilder

/-- The index has the last label of a pair. -/
theorem labelIndex_eq (labels : List ConflictLabel) (pair : Str × Str) :
    labelIndex labels pair = lastLabel labels pair := by
  induction labels using List.reverseRecOn with
  | nil => rfl
  | append_singleton rest label ih =>
    have hindex : labelIndex (rest ++ [label]) = (labelIndex rest).insert label.key label :=
      List.foldl_concat ..
    rw [hindex, PartialMap.insert_apply, ih, lastLabel, lastLabel, List.filter_append,
      List.getLast?_append]
    by_cases hkey : label.key = pair
    · simp [hkey]
    · simp [hkey, Ne.symm hkey]

/-- The pair is a conflict. -/
def IsConflict (labels : List ConflictLabel) (pair : Str × Str) : Bool :=
  (lastLabel labels pair).any ConflictLabel.conflict

/-! ## One example for each pair -/

variable {runtime : DatasetRuntime} {g : TestResourceGraph} {labels : List ConflictLabel}

/-- The IDs of a pair can be encoded. -/
def Encodable (pair : Str × Str) : Prop :=
  Str.encodable pair.1 = true ∧ Str.encodable pair.2 = true

/-- The text that names a group can be encoded if both IDs can. -/
theorem encodable_text_iff {pair : Str × Str} :
    Str.encodable (pair.1 ++ 0 :: pair.2) = true ↔ Encodable pair := by
  simp [Str.encodable, Encodable]

/-- An example is of its pair, and has its label. -/
theorem exampleOf_eq_ok {pair : Str × Str} {e : PairExample}
    (h : exampleOf runtime g labels pair = .ok e) :
    e.pair = pair ∧ e.label = IsConflict labels pair := by
  obtain ⟨features, -, hexample⟩ := bind_eq_ok_iff.mp h
  dsimp only at hexample
  split at hexample
  · obtain rfl := Except.ok.inj hexample
    exact ⟨rfl, by rw [labelIndex_eq]; rfl⟩
  · cases hexample

/-- It is made if the IDs can be encoded. -/
theorem exists_exampleOf_iff (hlinked : g.Linked) {pair : Str × Str} :
    (∃ e, exampleOf runtime g labels pair = .ok e) ↔ Encodable pair := by
  obtain ⟨features, hfeatures⟩ := hlinked.exists_pairFeatures pair.1 pair.2
  rw [← encodable_text_iff]
  refine ⟨?_, fun hencodable => ?_⟩
  · rintro ⟨e, he⟩
    obtain ⟨features, -, hexample⟩ := bind_eq_ok_iff.mp he
    by_contra hencodable
    dsimp only at hexample
    rw [if_neg hencodable] at hexample
    cases hexample
  · rw [exampleOf, hfeatures]
    exact ⟨_, if_pos hencodable⟩

/-- The pairs are the candidates and what is labelled. -/
theorem mem_pairsOf {candidates : List (Str × Str)} {pair : Str × Str} :
    pair ∈ pairsOf candidates labels ↔
      pair ∈ candidates ∨ pair ∈ labels.map ConflictLabel.key := by
  rw [pairsOf, List.mem_insertionSort, List.mem_dedup, List.mem_append]

theorem nodup_pairsOf (candidates : List (Str × Str)) : (pairsOf candidates labels).Nodup :=
  (List.perm_insertionSort ..).nodup_iff.mpr (List.nodup_dedup _)

/-- One example for each of the pairs, labelled as the labels say. -/
structure Makes (labels : List ConflictLabel) (pairs : List (Str × Str))
    (found : List PairExample) : Prop where
  map_pair : found.map PairExample.pair = pairs
  label_eq : ∀ e ∈ found, e.label = IsConflict labels e.pair

/-- The loop makes an example of each pair. -/
theorem makes_of_mapM {pairs : List (Str × Str)} {found : List PairExample}
    (h : pairs.mapM (exampleOf runtime g labels) = .ok found) : Makes labels pairs found := by
  have hmade := forall₂_of_mapM_eq_ok h
  clear h
  induction hmade with
  | nil => exact ⟨rfl, List.forall_mem_nil _⟩
  | cons hexample _ ih =>
    obtain ⟨hpair, hlabel⟩ := exampleOf_eq_ok hexample
    refine ⟨by rw [List.map_cons, hpair, ih.map_pair], List.forall_mem_cons.mpr ⟨?_, ih.label_eq⟩⟩
    rw [hlabel, hpair]

/-- It ends if all the IDs can be encoded. -/
theorem exists_mapM_exampleOf_iff (hlinked : g.Linked) {pairs : List (Str × Str)} :
    (∃ found, pairs.mapM (exampleOf runtime g labels) = .ok found) ↔
      ∀ pair ∈ pairs, Encodable pair := by
  rw [exists_mapM_eq_ok_iff]
  exact forall₂_congr fun pair _ => exists_exampleOf_iff hlinked

namespace Makes

variable {pairs : List (Str × Str)} {found : List PairExample}

/-- As many examples are positive as pairs are conflicts. -/
theorem countP_label (h : Makes labels pairs found) :
    found.countP PairExample.label = pairs.countP (IsConflict labels) := by
  rw [← h.map_pair, List.countP_map]
  exact List.countP_congr fun e he => by rw [h.label_eq e he]; rfl

theorem countP_not_label (h : Makes labels pairs found) :
    found.countP (fun e => !e.label) = pairs.countP fun pair => !IsConflict labels pair := by
  rw [← h.map_pair, List.countP_map]
  exact List.countP_congr fun e he => by rw [h.label_eq e he]; rfl

end Makes

/-! ## Sampling -/

/-- What `random.sample` does: it draws so many of the elements, none twice. -/
def SamplesDistinct (runtime : DatasetRuntime) : Prop :=
  ∀ seed population k, k ≤ population.length →
    (runtime.sample seed population k).length = k ∧
      (runtime.sample seed population k).Subperm population

/-- The limit is a number. -/
def LimitFinite (builder : DatasetBuilder) (positives : ℕ) : Prop :=
  ∀ ratio ∈ builder.negativeRatio, ∃ product, ratio.times positives = .finite product

/-- How many of the negatives stay. -/
def Keeps (builder : DatasetBuilder) (positives negatives kept : ℕ) : Prop :=
  (builder.negativeRatio = none → kept = negatives) ∧
    ∀ ratio ∈ builder.negativeRatio, ∀ product, ratio.times positives = .finite product →
      (kept : ℤ) = min (negatives : ℤ) ⌊max product (min negatives 32 : ℕ)⌋

/-- The number of negatives to keep, if the product is a number. -/
theorem limit_eq_ok_iff {ratio : Float64} {positives negatives kept : ℕ} :
    limit ratio positives negatives = .ok kept ↔
      ∃ product, ratio.times positives = .finite product ∧
        (kept : ℤ) = ⌊max product (min negatives 32 : ℕ)⌋ := by
  have hnonneg : ∀ product : ℚ, 0 ≤ ⌊max product (min negatives 32 : ℕ)⌋ := fun product =>
    Int.floor_nonneg.mpr ((Nat.cast_nonneg _).trans (le_max_right _ _))
  rw [limit]
  cases ratio.times positives with
  | nan => simp
  | inf negative => simp
  | finite product =>
    have := hnonneg product
    simp only [Except.ok.injEq, Float64.finite.injEq, exists_eq_left']
    omega

variable {builder : DatasetBuilder} {positives negatives kept : List PairExample}

/-- Sampling raises only over a limit that is no number. -/
theorem exists_sampled_iff :
    (∃ kept, builder.sampled runtime positives negatives = .ok kept) ↔
      LimitFinite builder positives.length := by
  rw [sampled, LimitFinite]
  cases builder.negativeRatio with
  | none => simp
  | some ratio =>
    simp only [Option.elim_some, Option.mem_some_iff, forall_eq']
    refine ⟨?_, ?_⟩
    · rintro ⟨kept, hkept⟩
      obtain ⟨limit, hlimit, -⟩ := eq_ok_of_map_eq_ok hkept
      obtain ⟨product, hproduct, -⟩ := limit_eq_ok_iff.mp hlimit
      exact ⟨product, hproduct⟩
    · rintro ⟨product, hproduct⟩
      have hlimit : limit ratio positives.length negatives.length =
          .ok ⌊max product (min negatives.length 32 : ℕ)⌋.toNat := by rw [limit, hproduct]
      rw [hlimit]
      exact ⟨_, rfl⟩

/-- What is sampled are some of the negatives, as many as the limit says. -/
theorem sampled_eq_ok (hsample : SamplesDistinct runtime)
    (h : builder.sampled runtime positives negatives = .ok kept) :
    kept.Subperm negatives ∧ Keeps builder positives.length negatives.length kept.length := by
  rw [sampled] at h
  rw [Keeps]
  cases hratio : builder.negativeRatio with
  | none =>
    rw [hratio] at h
    obtain rfl := Except.ok.inj h
    exact ⟨List.Subperm.refl _, fun _ => rfl, fun ratio hmem => by cases hmem⟩
  | some ratio =>
    rw [hratio] at h
    obtain ⟨limit, hlimit, hkept⟩ := eq_ok_of_map_eq_ok h
    obtain ⟨product, hproduct, heq⟩ := limit_eq_ok_iff.mp hlimit
    have hkeeps : ∀ {kept : ℕ}, kept = min negatives.length limit →
        ∀ ratio' ∈ some ratio, ∀ product', ratio'.times positives.length = .finite product' →
          (kept : ℤ) = min (negatives.length : ℤ)
            ⌊max product' (min negatives.length 32 : ℕ)⌋ := by
      intro kept hmin ratio' hmem product' hproduct'
      obtain rfl := Option.some.inj hmem
      obtain rfl := Float64.finite.inj (hproduct.symm.trans hproduct')
      rw [hmin, ← heq]
      exact Nat.cast_min ..
    rw [← hkept]
    split
    · rename_i hlt
      obtain ⟨hlength, hsubperm⟩ := hsample builder.seed negatives limit hlt.le
      exact ⟨hsubperm, (fun hnone => by cases hnone), hkeeps (by omega)⟩
    -- there are no more negatives than the limit, and all of them stay
    · exact ⟨List.Subperm.refl _, (fun hnone => by cases hnone), hkeeps (by omega)⟩

/-! ## What is returned -/

variable {k : KeyedGraph} {testCount : ℕ} {sourceRuns : List Str}
  {traceQuality : Option TraceQuality} {candidates : List (Str × Str)} {d : Dataset}

/-- The examples, of the pairs made and the negatives kept. -/
structure Assembles (builder : DatasetBuilder) (runtime : DatasetRuntime)
    (found kept : List PairExample) (d : Dataset) : Prop where
  sampled : builder.sampled runtime (found.filter PairExample.label)
    (found.filter fun e => !e.label) = .ok kept
  examples : d.examples = sortedExamples (found.filter PairExample.label ++ kept)
  exampleCount : d.metadata.exampleCount = d.examples.length
  positiveExamples : d.metadata.positiveExamples = (found.filter PairExample.label).length
  negativeExamples : d.metadata.negativeExamples = kept.length

/-- How `build` comes to its dataset. -/
theorem assembles_of_build (hcandidates : k.candidatePairs true = .ok candidates)
    (h : builder.build runtime k testCount labels sourceRuns traceQuality = .ok d) :
    ∃ found kept, Makes labels (pairsOf candidates labels) found ∧
      Assembles builder runtime found kept d := by
  obtain ⟨_, hpairs, hbody⟩ := bind_eq_ok_iff.mp h
  obtain rfl := Except.ok.inj (hcandidates.symm.trans hpairs)
  obtain ⟨found, hfound, hrest⟩ := bind_eq_ok_iff.mp hbody
  obtain ⟨kept, hkept, hd⟩ := bind_eq_ok_iff.mp hrest
  obtain rfl := Except.ok.inj hd
  exact ⟨found, kept, makes_of_mapM hfound, hkept, rfl, rfl, rfl, rfl⟩

/-- When it returns one. -/
theorem exists_build_iff (hlinked : k.graph.Linked)
    (hcandidates : k.candidatePairs true = .ok candidates) :
    (∃ d, builder.build runtime k testCount labels sourceRuns traceQuality = .ok d) ↔
      (∀ pair ∈ pairsOf candidates labels, Encodable pair) ∧
        builder.LimitFinite ((pairsOf candidates labels).countP (IsConflict labels)) := by
  rw [← @exists_mapM_exampleOf_iff runtime _ labels hlinked]
  refine ⟨?_, ?_⟩
  · rintro ⟨d, hd⟩
    obtain ⟨_, hpairs, hbody⟩ := bind_eq_ok_iff.mp hd
    obtain rfl := Except.ok.inj (hcandidates.symm.trans hpairs)
    obtain ⟨found, hfound, hrest⟩ := bind_eq_ok_iff.mp hbody
    obtain ⟨kept, hkept, -⟩ := bind_eq_ok_iff.mp hrest
    refine ⟨⟨found, hfound⟩, ?_⟩
    rw [← (makes_of_mapM hfound).countP_label, List.countP_eq_length_filter]
    exact exists_sampled_iff.mp ⟨kept, hkept⟩
  · rintro ⟨⟨found, hfound⟩, hlimit⟩
    rw [← (makes_of_mapM hfound).countP_label, List.countP_eq_length_filter] at hlimit
    obtain ⟨kept, hkept⟩ := exists_sampled_iff.mpr hlimit
    exact ⟨_, bind_eq_ok_iff.mpr ⟨candidates, hcandidates, bind_eq_ok_iff.mpr
      ⟨found, hfound, bind_eq_ok_iff.mpr ⟨kept, hkept, rfl⟩⟩⟩⟩

namespace Assembles

variable {found : List PairExample}

/-- The dataset has the positives and the negatives that were kept, in some order. -/
theorem perm (h : Assembles builder runtime found kept d) :
    d.examples.Perm (found.filter PairExample.label ++ kept) := by
  rw [h.examples]
  exact List.perm_insertionSort ..

/-- Nothing is there that was not made, and nothing twice. -/
theorem subperm (h : Assembles builder runtime found kept d) (hsample : SamplesDistinct runtime) :
    d.examples.Subperm found := by
  have hkept := (sampled_eq_ok hsample h.sampled).1
  have hall : (found.filter PairExample.label ++ found.filter fun e => !e.label).Perm found :=
    List.filter_append_perm ..
  exact h.perm.subperm.trans (((List.subperm_append_left _).mpr hkept).trans hall.subperm)

/-- What is a conflict, and what is none. -/
theorem filter_label (h : Assembles builder runtime found kept d)
    (hsample : SamplesDistinct runtime) :
    (d.examples.filter PairExample.label).Perm (found.filter PairExample.label) ∧
      (d.examples.filter fun e => !e.label).Perm kept := by
  have hkept : ∀ e ∈ kept, e.label = false := by
    intro e he
    have hmem := (sampled_eq_ok hsample h.sampled).1.subset he
    simpa using (List.mem_filter.mp hmem).2
  have hnone : kept.filter PairExample.label = [] :=
    List.filter_eq_nil_iff.mpr fun e he => by simp [hkept e he]
  have hall : kept.filter (fun e => !e.label) = kept :=
    List.filter_eq_self.mpr fun e he => by simp [hkept e he]
  refine ⟨?_, ?_⟩
  · refine (h.perm.filter _).trans (List.Perm.of_eq ?_)
    rw [List.filter_append, hnone, List.append_nil, List.filter_filter]
    simp
  · refine (h.perm.filter _).trans (List.Perm.of_eq ?_)
    rw [List.filter_append, hall, List.filter_filter]
    simp

end Assembles

/-- What a caller may rely on in a dataset of these candidates and labels. -/
structure Composed (builder : DatasetBuilder) (candidates : List (Str × Str))
    (labels : List ConflictLabel) (d : Dataset) : Prop where
  sorted : (d.examples.map PairExample.pair).Pairwise pairLT
  eachOnce : EachOnce (d.examples.map PairExample.pair)
  conflicts : ∀ pair, IsConflict labels pair = true →
    ∃ e ∈ d.examples, e.pair = pair ∧ e.label = true
  others : ∀ e ∈ d.examples, ¬ IsConflict labels e.pair = true →
    e.label = false ∧ (e.pair ∈ candidates ∨ e.pair ∈ labels.map ConflictLabel.key)
  negatives : builder.Keeps ((pairsOf candidates labels).countP (IsConflict labels))
    ((pairsOf candidates labels).countP fun pair => !IsConflict labels pair)
    (d.examples.countP fun e => !e.label)
  exampleCount : d.metadata.exampleCount = d.examples.length
  positiveExamples : d.metadata.positiveExamples = d.examples.countP PairExample.label
  negativeExamples : d.metadata.negativeExamples = d.examples.countP fun e => !e.label

theorem isConflict_mem {pair : Str × Str} (h : IsConflict labels pair = true) :
    pair ∈ labels.map ConflictLabel.key := by
  obtain ⟨label, hlabel, -⟩ := (Option.any_eq_true ..).mp h
  obtain ⟨hmem, hkey⟩ := List.mem_filter.mp (List.mem_of_getLast? hlabel)
  exact List.mem_map.mpr ⟨label, hmem, of_decide_eq_true hkey⟩

theorem stable_key (label : ConflictLabel) : label.key.1 ≤ label.key.2 := by
  rw [ConflictLabel.key, stableTexts]
  split
  · assumption
  · exact le_of_not_ge ‹_›

/-- What is put together so is composed as it should be. -/
theorem Assembles.composed {found : List PairExample}
    (h : Assembles builder runtime found kept d)
    (hmakes : Makes labels (pairsOf candidates labels) found) (hsample : SamplesDistinct runtime)
    (hstable : ∀ pair ∈ candidates, pair.1 ≤ pair.2) :
    Composed builder candidates labels d := by
  have hsubperm := h.subperm hsample
  obtain ⟨hpositives, hnegatives⟩ := h.filter_label hsample
  have hmade : ∀ e ∈ d.examples, e.pair ∈ pairsOf candidates labels := fun e he =>
    hmakes.map_pair ▸ List.mem_map_of_mem (hsubperm.subset he)
  -- the pairs that were made are distinct, so the two kinds together are too
  have hfound : (found.map PairExample.pair).Nodup := hmakes.map_pair ▸ nodup_pairsOf candidates
  have hnodup : ((found.filter PairExample.label ++ kept).map PairExample.pair).Nodup := by
    obtain ⟨rest, hperm, hrest⟩ := h.perm.symm.subperm.trans hsubperm
    exact (hperm.map _).nodup_iff.mp (hfound.sublist (hrest.map _))
  have hsorted : (d.examples.map PairExample.pair).Pairwise pairLT := by
    rw [h.examples]
    exact sortedExamples_pairwise hnodup
  refine ⟨hsorted, ?_, ?_, ?_, ?_, h.exampleCount, ?_, ?_⟩
  · refine eachOnce_of_nodup (hsorted.imp fun hlt => hlt.2) fun pair hpair => ?_
    obtain ⟨e, he, rfl⟩ := List.mem_map.mp hpair
    rcases mem_pairsOf.mp (hmade e he) with hcandidate | hlabel
    · exact hstable _ hcandidate
    · obtain ⟨label, -, heq⟩ := List.mem_map.mp hlabel
      rw [← heq]
      exact stable_key label
  · intro pair hconflict
    have hpair : pair ∈ found.map PairExample.pair := by
      rw [hmakes.map_pair, mem_pairsOf]
      exact .inr (isConflict_mem hconflict)
    obtain ⟨e, he, rfl⟩ := List.mem_map.mp hpair
    have hlabel : e.label = true := (hmakes.label_eq e he).trans hconflict
    have hkeptPositive := hpositives.mem_iff.mpr (List.mem_filter.mpr ⟨he, hlabel⟩)
    exact ⟨e, (List.mem_filter.mp hkeptPositive).1, rfl, hlabel⟩
  · intro e he hconflict
    refine ⟨?_, mem_pairsOf.mp (hmade e he)⟩
    rw [hmakes.label_eq e (hsubperm.subset he)]
    exact Bool.eq_false_iff.mpr hconflict
  · rw [← hmakes.countP_label, ← hmakes.countP_not_label, List.countP_eq_length_filter,
      List.countP_eq_length_filter, List.countP_eq_length_filter, hnegatives.length_eq]
    exact (sampled_eq_ok hsample h.sampled).2
  · rw [h.positiveExamples, List.countP_eq_length_filter, hpositives.length_eq]
  · rw [h.negativeExamples, List.countP_eq_length_filter, hnegatives.length_eq]

end DatasetBuilder

/-- **What `build` returns**, for a graph that any calls built, with any history. It returns
nothing only if the ID of a test cannot be encoded or the limit is no number. -/
theorem DatasetBuilder.build_composed (sha256 : Str → Str) (calls : List GraphCall)
    (history : StableHistory) {runtime : DatasetRuntime} (hsample : SamplesDistinct runtime)
    (builder : DatasetBuilder) (testCount : ℕ) (labels : List ConflictLabel)
    (sourceRuns : List Str) (traceQuality : Option TraceQuality) :
    ∃ candidates,
      ((KeyedGraph.build sha256 calls).withHistory history).candidatePairs true =
        .ok candidates ∧
      ((∃ d, builder.build runtime ((KeyedGraph.build sha256 calls).withHistory history) testCount
          labels sourceRuns traceQuality = .ok d) ↔
        (∀ pair ∈ pairsOf candidates labels, Encodable pair) ∧
          builder.LimitFinite ((pairsOf candidates labels).countP (IsConflict labels))) ∧
      ∀ d, builder.build runtime ((KeyedGraph.build sha256 calls).withHistory history) testCount
          labels sourceRuns traceQuality = .ok d →
        Composed builder candidates labels d := by
  have hkeyed := (KeyedGraph.built_build sha256 calls).toKeyed
  obtain ⟨candidates, hcandidates, -⟩ := (hkeyed.withHistory history).candidatePairs_eq true
  obtain ⟨-, hstable⟩ := hkeyed.candidatePairs_stable history hcandidates
  refine ⟨candidates, hcandidates,
    exists_build_iff (hkeyed.withHistory history).linked hcandidates, fun d hd => ?_⟩
  obtain ⟨found, kept, hmakes, hassembles⟩ := assembles_of_build hcandidates hd
  exact hassembles.composed hmakes hsample hstable

/-- Two tests that connect to one socket, labelled twice and in either order. -/
def relabelled : List ConflictLabel :=
  [{ testA := str "b", testB := str "a", conflict := false },
    { testA := str "a", testB := str "b", conflict := true }]

theorem samplesDistinct_still : DatasetBuilder.SamplesDistinct .still :=
  fun _ population k hk => ⟨List.length_take_of_le hk, (List.take_sublist k population).subperm⟩

theorem DatasetBuilder.build_composed_relabelled :
    ∃ candidates,
      ((KeyedGraph.build digestOfSocket bothConnect).withHistory .empty).candidatePairs true =
        .ok candidates ∧
      ((∃ d, DatasetBuilder.build ⟨42, some (.finite 4), by decide⟩ .still
          ((KeyedGraph.build digestOfSocket bothConnect).withHistory .empty) 2 relabelled [] none =
          .ok d) ↔
        (∀ pair ∈ pairsOf candidates relabelled, Encodable pair) ∧
          LimitFinite ⟨42, some (.finite 4), by decide⟩
            ((pairsOf candidates relabelled).countP (IsConflict relabelled))) ∧
      ∀ d, DatasetBuilder.build ⟨42, some (.finite 4), by decide⟩ .still
          ((KeyedGraph.build digestOfSocket bothConnect).withHistory .empty) 2 relabelled [] none =
          .ok d →
        Composed ⟨42, some (.finite 4), by decide⟩ candidates relabelled d :=
  build_composed digestOfSocket bothConnect .empty samplesDistinct_still _ 2 relabelled [] none

/-- Nothing is returned for a test whose ID has a surrogate, nor for an infinite ratio. -/
theorem DatasetBuilder.not_build_surrogate :
    (¬ ∃ d, DatasetBuilder.build ⟨42, some (.finite 4), by decide⟩ .still
        ((KeyedGraph.build id []).withHistory .empty) 0
        [{ testA := [0xD800], testB := str "a", conflict := true }] [] none = .ok d) ∧
      ¬ ∃ d, DatasetBuilder.build ⟨42, some (.inf false), by decide⟩ .still
        ((KeyedGraph.build id []).withHistory .empty) 0
        [{ testA := str "a", testB := str "b", conflict := true }] [] none = .ok d := by
  have hlinked : ((KeyedGraph.build id []).withHistory .empty).graph.Linked :=
    ((KeyedGraph.built_build id []).toKeyed.withHistory .empty).linked
  have hcandidates : ((KeyedGraph.build id []).withHistory .empty).candidatePairs true = .ok [] :=
    rfl
  refine ⟨fun h => ?_, fun h => ?_⟩
  · have hall := ((exists_build_iff hlinked hcandidates).mp h).1
    exact absurd (hall (str "a", [0xD800]) (by decide +kernel)).2 (by decide)
  · obtain ⟨product, hproduct⟩ := ((exists_build_iff hlinked hcandidates).mp h).2 _ rfl
    rw [Float64.times] at hproduct
    split at hproduct
    · cases hproduct
    · cases hproduct

end ConflictGraph.Py
