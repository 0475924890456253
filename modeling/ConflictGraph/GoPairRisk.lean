import ConflictGraph.RiskAgreement

/-!
# From the artifact to the risk of a pair

`LoadPredictions`, `predictionsForTests` and `NewRiskIndex` identify a pair of tests by a text,
the two IDs with a NUL between them. The IDs in an artifact are arbitrary, so two different
pairs can share their text; but a text with one NUL is that of one pair, and a pair of collected
tests has such a text. So no foreign prediction stands in the way of a collected pair, which
keeps the largest of its probabilities through all three stages.
-/

namespace ConflictGraph.Go

open Py (Json Str)

instance (p : Prediction) (a b : String) : Decidable (p.Names a b) :=
  inferInstanceAs (Decidable ((_ ∧ _) ∨ _ ∧ _))

/-- The largest probability of the entries that name the two tests, zero if there is none. -/
def maxProbability (entries : List Prediction) (a b : String) : ℚ :=
  (((entries.filter fun p => p.Names a b).map Prediction.probability).max?).getD 0

/-- The order of the tests of two predictions. -/
def Prediction.Before (p q : Prediction) : Prop :=
  p.testA < q.testA ∨ (p.testA = q.testA ∧ p.testB < q.testB)

instance : DecidableRel Prediction.Before := fun _ _ => inferInstanceAs (Decidable (_ ∨ _))

/-- The maximum is the one value that `IsLargest` allows. -/
theorem isLargest_maxProbability (entries : List Prediction) (a b : String) :
    IsLargest entries a b (maxProbability entries a b) := by
  obtain ⟨found, hmax⟩ : ∃ found,
      ((entries.filter fun p => p.Names a b).map Prediction.probability).max? = found := ⟨_, rfl⟩
  rw [maxProbability, hmax]
  rcases found with _ | value
  · rw [List.max?_eq_none_iff, List.map_eq_nil_iff, List.filter_eq_nil_iff] at hmax
    exact ⟨fun p hp hnames => absurd (decide_eq_true hnames) (hmax p hp), .inl rfl⟩
  · obtain ⟨hin, hbound⟩ := List.max?_eq_some_iff.mp hmax
    obtain ⟨p, hp, hvalue⟩ := List.mem_map.mp hin
    obtain ⟨hp, hnames⟩ := List.mem_filter.mp hp
    refine ⟨fun q hq hnames' => hbound _ (List.mem_map_of_mem (List.mem_filter.mpr
      ⟨hq, decide_eq_true hnames'⟩)), .inr ⟨p, hp, of_decide_eq_true hnames, hvalue⟩⟩

/-- What is loaded is strictly sorted: no pair occurs twice. -/
theorem pairwise_before_deduplicate (predictions : List Prediction) :
    (deduplicate predictions).Pairwise Prediction.Before := by
  have htotal : Std.Total Prediction.atMost := ⟨fun p q => by
    rcases lt_trichotomy p.testA q.testA with hlt | heq | hgt
    · exact .inl (.inl hlt)
    · rcases le_total p.testB q.testB with hle | hge
      · exact .inl (.inr ⟨heq, hle⟩)
      · exact .inr (.inr ⟨heq.symm, hge⟩)
    · exact .inr (.inl hgt)⟩
  have htrans : IsTrans Prediction Prediction.atMost := ⟨fun p q r hpq hqr => by
    rcases hpq with hpq | ⟨hpq, hpq'⟩ <;> rcases hqr with hqr | ⟨hqr, hqr'⟩
    · exact .inl (hpq.trans hqr)
    · exact .inl (hqr ▸ hpq)
    · exact .inl (hpq ▸ hqr)
    · exact .inr ⟨hpq.trans hqr, hpq'.trans hqr'⟩⟩
  have hsorted : (deduplicate predictions).Pairwise Prediction.atMost :=
    List.pairwise_insertionSort ..
  have hkeys : (deduplicate predictions).Pairwise fun p q => p.key ≠ q.key :=
    List.pairwise_map.mp (nodup_deduplicate predictions)
  refine (hsorted.and hkeys).imp ?_
  rintro p q ⟨hlt | ⟨hA, hB⟩, hkey⟩
  · exact .inl hlt
  · refine .inr ⟨hA, hB.lt_of_ne fun heq => hkey ?_⟩
    rw [Prediction.key, Prediction.key, hA, heq]

section Pair

variable {parseTime : Str → Option (Option ℤ)} {artifact : Option Json} {tests : List Test}

/-- **Each pair keeps its maximum.** From what `LoadPredictions` accepts, and returns strictly
sorted, the other two stages make an index that answers for two collected tests with the largest
probability of the entries about them, and with zero if there is none. -/
theorem probability_eq_maxProbability {loaded : List Prediction}
    (hload : loadPredictions parseTime artifact = .ok loaded)
    (hfree : ∀ id ∈ tests.map Test.id, '\x00' ∉ id.toList) :
    loaded.Pairwise Prediction.Before ∧
      ∃ entries predictions risk, entriesOf parseTime artifact = some entries ∧
        predictionsForTests parseTime artifact tests = .ok predictions ∧
        newRiskIndex predictions = .ok risk ∧
        ∀ a ∈ tests.map Test.id, ∀ b ∈ tests.map Test.id, a ≠ b →
          risk.probability a b = maxProbability entries a b := by
  obtain ⟨entries, hentries, hall, rfl⟩ := loadPredictions_eq_ok hload
  have hfiltered : predictionsForTests parseTime artifact tests =
      .ok ((deduplicate (entries.map Prediction.checked)).filter fun p =>
        p.testA ∈ tests.map Test.id ∧ p.testB ∈ tests.map Test.id) := by
    rw [predictionsForTests, hload]
    rfl
  have hnormal : ∀ q ∈ (deduplicate (entries.map Prediction.checked)).filter (fun p =>
      p.testA ∈ tests.map Test.id ∧ p.testB ∈ tests.map Test.id), ∃ r, q.normalize = .ok r := by
    intro q hq
    have hbest := List.mem_of_mem_filter hq
    rw [deduplicate, List.mem_insertionSort, mem_bestByKey] at hbest
    obtain ⟨p, hp, rfl⟩ := List.mem_map.mp hbest.mem
    obtain ⟨r, hr⟩ := hall p hp
    exact ⟨_, Prediction.normalize_checked hr⟩
  obtain ⟨risk, hrisk⟩ := exists_addPredictions hnormal ⟨PartialMap.empty⟩
  refine ⟨pairwise_before_deduplicate _, entries, _, risk, hentries, hfiltered, hrisk, ?_⟩
  intro a ha b hb hne
  have hgo := isLargest_probability_of_free hfiltered hrisk hfree hentries ha hb hne
  exact hgo.eq (isLargest_maxProbability entries a b)
    (probability_nonneg_of_loaded hfiltered hentries hgo)
    (probability_nonneg_of_loaded hfiltered hentries (isLargest_maxProbability entries a b))

end Pair

/-- Predictions of one pair in both orders, and of two foreign pairs that share their text. -/
def foreignArtifact : Option Json :=
  some (artifactOf [predictionOf "b" "a" (2 / 5) [], predictionOf "a" "b" (4 / 5) [],
    predictionOf "a" "b\x00c" 1 [], predictionOf "a\x00b" "c" (9 / 10) []])

/-- The case of this artifact. -/
theorem probability_eq_maxProbability_foreign :
    ∃ loaded, loadPredictions (fun _ => none) foreignArtifact = .ok loaded ∧
      loaded.Pairwise Prediction.Before ∧
      ∃ entries predictions risk, entriesOf (fun _ => none) foreignArtifact = some entries ∧
        predictionsForTests (fun _ => none) foreignArtifact
          [{ id := "a", nodeID := "a" }, { id := "b", nodeID := "b" }] = .ok predictions ∧
        newRiskIndex predictions = .ok risk ∧
        ∀ a ∈ ["a", "b"], ∀ b ∈ ["a", "b"], a ≠ b →
          risk.probability a b = maxProbability entries a b := by
  have hload : (loadPredictions (fun _ => none) foreignArtifact).isOk = true := by decide +kernel
  obtain ⟨loaded, hloaded⟩ := exists_eq_ok_of_isOk hload
  exact ⟨loaded, hloaded, probability_eq_maxProbability hloaded (by decide +kernel)⟩

end ConflictGraph.Go
