import ConflictGraph.GoArtifact
import ConflictGraph.PyArtifact
import ConflictGraph.PyReplay

/-!
# Do both schedulers see the same risks?

Both read the predictions of one artifact. The Go side answers for two tests with the largest
probability of their entries, the Python side with the last. So they agree exactly if, for
every two collected tests, the last entry that Python reads has the largest probability that
Go reads (`riskIndexes_agree_iff`); an artifact that names a pair twice, the larger
probability first, tells them apart.
-/

namespace ConflictGraph.Go

open Py (Json Str Interpreter Float64 testID)

/-! ## Keys of collected tests -/

/-- The texts that `stableID` makes: `test_` and 24 hexadecimal digits. -/
def IsStableID (id : String) : Prop :=
  ∃ digits : List Char, (digits.length = 24 ∧ ∀ c ∈ digits, c ∈ "0123456789abcdef".toList) ∧
    id.toList = "test_".toList ++ digits

theorem IsStableID.not_mem {id : String} (h : IsStableID id) : '\x00' ∉ id.toList := by
  obtain ⟨digits, ⟨-, hdigits⟩, hid⟩ := h
  rw [hid, List.mem_append, not_or]
  exact ⟨by decide, fun hmem => absurd (hdigits _ hmem) (by decide)⟩

/-- What stands on both sides of a separator that does not occur in the two parts. -/
theorem append_cons_inj {α : Type} {sep : α} {a b c d : List α} (ha : sep ∉ a) (hb : sep ∉ b)
    (h : c ++ sep :: d = a ++ sep :: b) : c = a ∧ d = b := by
  rcases List.append_eq_append_iff.mp h with ⟨between, rfl, hrest⟩ | ⟨between, rfl, hrest⟩
  · rcases between with _ | ⟨x, rest⟩
    · exact ⟨(List.append_nil c).symm, (List.cons.inj hrest).2⟩
    · obtain ⟨rfl, -⟩ := List.cons.inj hrest
      exact absurd (List.mem_append_right _ List.mem_cons_self) ha
  · rcases between with _ | ⟨x, rest⟩
    · exact ⟨List.append_nil a, (List.cons.inj hrest).2.symm⟩
    · obtain ⟨-, rfl⟩ := List.cons.inj hrest
      exact absurd (List.mem_append_right _ List.mem_cons_self) hb

/-- The prediction names the two tests. -/
def Prediction.Names (p : Prediction) (a b : String) : Prop :=
  (p.testA = a ∧ p.testB = b) ∨ (p.testA = b ∧ p.testB = a)

theorem toList_pairKey (a b : String) :
    (pairKey a b).toList = a.toList ++ '\x00' :: b.toList ∨
      (pairKey a b).toList = b.toList ++ '\x00' :: a.toList := by
  rw [pairKey]
  split
  · exact .inr (by simp)
  · exact .inl (by simp)

/-- The key of a prediction says which tests it names, if no separator occurs in them. -/
theorem Prediction.key_eq_iff {p : Prediction} {a b : String} (ha : '\x00' ∉ a.toList)
    (hb : '\x00' ∉ b.toList) : p.key = pairKey a b ↔ p.Names a b := by
  refine ⟨fun h => ?_, ?_⟩
  · have hlist := congrArg String.toList h
    rw [Prediction.key] at hlist
    rcases toList_pairKey p.testA p.testB with hp | hp <;>
      rcases toList_pairKey a b with hab | hab <;> rw [hp, hab] at hlist
    · obtain ⟨hA, hB⟩ := append_cons_inj ha hb hlist
      exact .inl ⟨String.toList_inj.mp hA, String.toList_inj.mp hB⟩
    · obtain ⟨hA, hB⟩ := append_cons_inj hb ha hlist
      exact .inr ⟨String.toList_inj.mp hA, String.toList_inj.mp hB⟩
    · obtain ⟨hB, hA⟩ := append_cons_inj ha hb hlist
      exact .inr ⟨String.toList_inj.mp hA, String.toList_inj.mp hB⟩
    · obtain ⟨hB, hA⟩ := append_cons_inj hb ha hlist
      exact .inl ⟨String.toList_inj.mp hA, String.toList_inj.mp hB⟩
  · rintro (⟨rfl, rfl⟩ | ⟨rfl, rfl⟩)
    · rfl
    · exact pairKey_comm ..

/-! ## The largest probability -/

/-- The value is the largest probability of the predictions that name the two tests, zero if
none does. -/
def IsLargest (entries : List Prediction) (a b : String) (value : ℚ) : Prop :=
  (∀ p ∈ entries, p.Names a b → p.probability ≤ value) ∧
    (value = 0 ∨ ∃ p ∈ entries, p.Names a b ∧ p.probability = value)

theorem IsLargest.eq {entries : List Prediction} {a b : String} {value value' : ℚ}
    (h : IsLargest entries a b value) (h' : IsLargest entries a b value') (hnonneg : 0 ≤ value)
    (hnonneg' : 0 ≤ value') : value = value' := by
  refine le_antisymm ?_ ?_
  · rcases h.2 with rfl | ⟨p, hp, hnames, rfl⟩
    · exact hnonneg'
    · exact h'.1 p hp hnames
  · rcases h'.2 with rfl | ⟨p, hp, hnames, rfl⟩
    · exact hnonneg
    · exact h.1 p hp hnames

/-- What `largest` is: nothing, or the probability of a prediction with the key. -/
theorem largest_cases (predictions : List Prediction) (key : String) :
    largest predictions key = ⊥ ∨
      ∃ p ∈ predictions, p.key = key ∧ largest predictions key = p.probability := by
  induction predictions with
  | nil => exact .inl rfl
  | cons p rest ih =>
    rw [largest_cons, Prediction.sayOn]
    by_cases hkey : pairKey p.testA p.testB = key
    · rw [if_pos hkey]
      rcases max_choice (p.probability : WithBot ℚ) (largest rest key) with hmax | hmax
      · exact .inr ⟨p, List.mem_cons_self, hkey, hmax⟩
      · rcases ih with hbot | ⟨q, hq, hkeyq, hlargest⟩
        · rw [hbot]
          exact .inr ⟨p, List.mem_cons_self, hkey, sup_bot_eq _⟩
        · exact .inr ⟨q, List.mem_cons_of_mem _ hq, hkeyq, hmax.trans hlargest⟩
    · rw [if_neg hkey, bot_sup_eq]
      rcases ih with hbot | ⟨q, hq, hkeyq, hlargest⟩
      · exact .inl hbot
      · exact .inr ⟨q, List.mem_cons_of_mem _ hq, hkeyq, hlargest⟩

theorem le_largest {predictions : List Prediction} {p : Prediction} (hp : p ∈ predictions) :
    (p.probability : WithBot ℚ) ≤ largest predictions p.key := by
  induction predictions with
  | nil => exact absurd hp List.not_mem_nil
  | cons q rest ih =>
    rw [largest_cons]
    rcases List.mem_cons.mp hp with rfl | hp
    · exact le_sup_of_le_left (if_pos rfl).ge
    · exact le_sup_of_le_right (ih hp)

section Agreement

variable {parseTime : Str → Option (Option ℤ)} {artifact : Option Json} {tests : List Test}
  {predictions : List Prediction} {risk : RiskIndex}

/-- **The Go side answers with the largest probability** of the entries for two tests, if the
separator of the keys does not occur in the IDs of the tests. -/
theorem isLargest_probability_of_free
    (h : predictionsForTests parseTime artifact tests = .ok predictions)
    (hrisk : newRiskIndex predictions = .ok risk)
    (hfree : ∀ id ∈ tests.map Test.id, '\x00' ∉ id.toList)
    {entries : List Prediction} (hentries : entriesOf parseTime artifact = some entries)
    {a b : String} (ha : a ∈ tests.map Test.id) (hb : b ∈ tests.map Test.id) (hne : a ≠ b) :
    IsLargest entries a b (risk.probability a b) := by
  obtain ⟨entries', hentries', hlegal, -, hmem⟩ := predictionsForTests_eq_ok h
  obtain rfl := Option.some.inj (hentries'.symm.trans hentries)
  have hnames : ∀ p : Prediction, p.key = pairKey a b ↔ p.Names a b :=
    fun p => Prediction.key_eq_iff (hfree a ha) (hfree b hb)
  rw [probability_newRiskIndex hrisk hne]
  refine ⟨?_, ?_⟩
  · intro p hp hpab
    -- the best entry of the pair is loaded, and in the index
    obtain ⟨q, hq, hkey⟩ : ∃ q, IsBest Prediction.key Prediction.probability entries' q ∧
        q.key = p.key := exists_isBest hp
    have hkeyq : q.key = pairKey a b := hkey.trans ((hnames p).mpr hpab)
    have hknown : q.testA ∈ tests.map Test.id ∧ q.testB ∈ tests.map Test.id := by
      rcases (hnames q).mp hkeyq with ⟨rfl, rfl⟩ | ⟨rfl, rfl⟩
      · exact ⟨ha, hb⟩
      · exact ⟨hb, ha⟩
    have hle := le_largest ((hmem _).mpr ⟨q, hq, hknown, rfl⟩)
    rw [Prediction.checked_key, Prediction.checked_probability, hkeyq] at hle
    rcases largest_cases predictions (pairKey a b) with hbot | ⟨best, -, -, hbest⟩
    · rw [hbot, le_bot_iff] at hle
      exact absurd hle (WithBot.coe_ne_bot)
    · rw [hbest, WithBot.coe_le_coe] at hle
      rw [hbest, WithBot.unbotD_coe]
      exact (hq.score_le hp hkey.symm).trans hle
  · rcases largest_cases predictions (pairKey a b) with hbot | ⟨best, hbest, hkey, hlargest⟩
    · rw [hbot]
      exact .inl rfl
    · obtain ⟨p, hp, -, rfl⟩ := (hmem best).mp hbest
      rw [Prediction.checked_key] at hkey
      rw [hlargest, WithBot.unbotD_coe, Prediction.checked_probability]
      exact .inr ⟨p, hp.mem, (hnames p).mp hkey, rfl⟩

theorem isLargest_probability
    (h : predictionsForTests parseTime artifact tests = .ok predictions)
    (hrisk : newRiskIndex predictions = .ok risk) (hids : ∀ t ∈ tests, IsStableID t.id)
    {entries : List Prediction} (hentries : entriesOf parseTime artifact = some entries)
    {a b : String} (ha : a ∈ tests.map Test.id) (hb : b ∈ tests.map Test.id) (hne : a ≠ b) :
    IsLargest entries a b (risk.probability a b) :=
  isLargest_probability_of_free h hrisk
    (List.forall_mem_map.mpr fun t ht => (hids t ht).not_mem) hentries ha hb hne

theorem probability_nonneg_of_loaded
    (h : predictionsForTests parseTime artifact tests = .ok predictions)
    {entries : List Prediction} (hentries : entriesOf parseTime artifact = some entries)
    {a b : String} {value : ℚ} (hlargest : IsLargest entries a b value) : 0 ≤ value := by
  obtain ⟨entries', hentries', hlegal, -, -⟩ := predictionsForTests_eq_ok h
  obtain rfl := Option.some.inj (hentries'.symm.trans hentries)
  rcases hlargest.2 with rfl | ⟨p, hp, -, rfl⟩
  · exact le_refl 0
  · exact (hlegal p hp).2.1

/-- **When both schedulers see the same risks**: exactly if for every two collected tests, the
last entry that Python reads has the largest of the probabilities that Go reads. -/
theorem riskIndexes_agree_iff {interpreter : Interpreter} {floatOfText : Str → Option Float64}
    {tests' : List Py.TestIdentity} {predictions' : List Py.PairPrediction}
    (h : predictionsForTests parseTime artifact tests = .ok predictions)
    (hrisk : newRiskIndex predictions = .ok risk)
    (h' : Py.predictionsForTests interpreter floatOfText artifact tests' = .ok predictions')
    (hids : ∀ t ∈ tests, IsStableID t.id)
    (hsame : ∀ id, id ∈ tests'.map Py.TestIdentity.id ↔ id ∈ tests.map Test.id) :
    (∀ a ∈ tests.map Test.id, ∀ b ∈ tests.map Test.id, a ≠ b →
        risk.probability a b = (Py.RiskIndex.new predictions').probability a b) ↔
      ∀ entries entries', entriesOf parseTime artifact = some entries →
        Py.graphPredictions interpreter floatOfText artifact = .ok entries' →
          ∀ a ∈ tests.map Test.id, ∀ b ∈ tests.map Test.id, a ≠ b →
            IsLargest entries a b (Py.lastProbability entries' a b) := by
  obtain ⟨entries, hentries, -, -, -⟩ := predictionsForTests_eq_ok h
  obtain ⟨entries', hentries', rfl⟩ := eq_ok_of_map_eq_ok h'
  have hpython : ∀ a ∈ tests.map Test.id, ∀ b ∈ tests.map Test.id, a ≠ b →
      (Py.RiskIndex.new (entries'.filterMap
        (Py.Entry.prediction (tests'.map Py.TestIdentity.id)))).probability a b =
          Py.lastProbability entries' a b :=
    fun a ha b hb hne => Py.probability_new_filterMap ((hsame a).mpr ha) ((hsame b).mpr hb) hne _
  refine ⟨fun hagree entries₁ entries₂ h₁ h₂ a ha b hb hne => ?_, fun hlargest a ha b hb hne => ?_⟩
  · obtain rfl := Option.some.inj (hentries.symm.trans h₁)
    obtain rfl := Except.ok.inj (hentries'.symm.trans h₂)
    rw [← hpython a ha b hb hne, ← hagree a ha b hb hne]
    exact isLargest_probability h hrisk hids hentries ha hb hne
  · have hgo := isLargest_probability h hrisk hids hentries ha hb hne
    rw [hpython a ha b hb hne]
    exact hgo.eq (hlargest entries entries' hentries hentries' a ha b hb hne)
      (probability_nonneg_of_loaded h hentries hgo) (Py.lastProbability_nonneg _ _ _)

end Agreement

/-! ## A pair that is named twice -/

theorem isStableID_testID {digit : Char} (h : digit ∈ "0123456789abcdef".toList) :
    IsStableID (testID digit) := by
  refine ⟨List.replicate 24 digit, ⟨List.length_replicate, fun c hc => ?_⟩, ?_⟩
  · rwa [List.eq_of_mem_replicate hc]
  · rw [testID, String.toList_append]
    exact congrArg _ String.toList_ofList

/-- The tests of the digits 0 and 1, as Go collects them. -/
def tests01 : List Test :=
  [{ id := testID '0', nodeID := "tests/test_a.py::test_0" },
    { id := testID '1', nodeID := "tests/test_a.py::test_1" }]

/-- The same tests, as Python collects them. -/
def pyTests01 : List Py.TestIdentity :=
  [{ id := testID '0', nodeID := "tests/test_a.py::test_0" },
    { id := testID '1', nodeID := "tests/test_a.py::test_1" }]

/-- An artifact with predictions about these tests, of the given probabilities. -/
def artifact01 (probabilities : List ℚ) : Option Json :=
  some (artifactOf (probabilities.map fun probability =>
    predictionOf (testID '0') (testID '1') probability []))

/-- What Go loads of `artifact01`. -/
def loaded01 (probability : ℚ) : Prediction :=
  { testA := testID '0', testB := testID '1', probability, cause := "UNKNOWN"
    modelVersion := "unknown" }

theorem isStableID_tests01 : ∀ t ∈ tests01, IsStableID t.id := by
  intro t ht
  rcases List.mem_pair.mp ht with rfl | rfl <;> exact isStableID_testID (by decide)

/-- The case of one prediction. -/
theorem riskIndexes_agree_iff_single :
    ∃ risk predictions', newRiskIndex [loaded01 (1 / 2)] = .ok risk ∧
      Py.predictionsForTests Py.ReplayTracer.ascii.interpreter (fun _ => none)
        (artifact01 [1 / 2]) pyTests01 = .ok predictions' ∧
      ((∀ a ∈ tests01.map Test.id, ∀ b ∈ tests01.map Test.id, a ≠ b →
        risk.probability a b = (Py.RiskIndex.new predictions').probability a b) ↔
      ∀ entries entries', entriesOf (fun _ => none) (artifact01 [1 / 2]) = some entries →
        Py.graphPredictions Py.ReplayTracer.ascii.interpreter (fun _ => none)
          (artifact01 [1 / 2]) = .ok entries' →
          ∀ a ∈ tests01.map Test.id, ∀ b ∈ tests01.map Test.id, a ≠ b →
            IsLargest entries a b (Py.lastProbability entries' a b)) := by
  have hload : predictionsForTests (fun _ => none) (artifact01 [1 / 2]) tests01 =
      .ok [loaded01 (1 / 2)] := by
    decide +kernel
  have hgo : (newRiskIndex [loaded01 (1 / 2)]).isOk = true := by decide +kernel
  have hpy : (Py.predictionsForTests Py.ReplayTracer.ascii.interpreter (fun _ => none)
      (artifact01 [1 / 2]) pyTests01).isOk = true := by
    decide +kernel
  obtain ⟨risk, hrisk⟩ := exists_eq_ok_of_isOk hgo
  obtain ⟨predictions', hpredictions'⟩ := exists_eq_ok_of_isOk hpy
  exact ⟨risk, predictions', hrisk, hpredictions',
    riskIndexes_agree_iff hload hrisk hpredictions' isStableID_tests01 fun id => Iff.rfl⟩

/-- The larger probability first: Go answers with it, Python with the other one. -/
theorem not_agree_repeated :
    ¬ ∀ predictions risk predictions',
      predictionsForTests (fun _ => none) (artifact01 [4 / 5, 2 / 5]) tests01 = .ok predictions →
      newRiskIndex predictions = .ok risk →
      Py.predictionsForTests Py.ReplayTracer.ascii.interpreter (fun _ => none)
        (artifact01 [4 / 5, 2 / 5]) pyTests01 = .ok predictions' →
      ∀ a ∈ tests01.map Test.id, ∀ b ∈ tests01.map Test.id, a ≠ b →
        risk.probability a b = (Py.RiskIndex.new predictions').probability a b := by
  have hload : predictionsForTests (fun _ => none) (artifact01 [4 / 5, 2 / 5]) tests01 =
      .ok [loaded01 (4 / 5)] := by
    decide +kernel
  have hgo : (newRiskIndex [loaded01 (4 / 5)]).map (fun risk =>
      risk.probability (testID '0') (testID '1')) = .ok (4 / 5) := by
    decide +kernel
  have hpy : (Py.predictionsForTests Py.ReplayTracer.ascii.interpreter (fun _ => none)
      (artifact01 [4 / 5, 2 / 5]) pyTests01).map (fun predictions =>
        (Py.RiskIndex.new predictions).probability (testID '0') (testID '1')) = .ok (2 / 5) := by
    decide +kernel
  intro h
  obtain ⟨risk, hrisk, hprobability⟩ := eq_ok_of_map_eq_ok hgo
  obtain ⟨predictions', hpredictions', hprobability'⟩ := eq_ok_of_map_eq_ok hpy
  have hagree := h _ risk predictions' hload hrisk hpredictions' (testID '0') (by decide +kernel)
    (testID '1') (by decide +kernel) (by decide +kernel)
  rw [hprobability, hprobability'] at hagree
  exact absurd hagree (by decide +kernel)

end ConflictGraph.Go
