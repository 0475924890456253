import Mathlib.Algebra.Order.BigOperators.Group.List
import ConflictGraph.NoisyOr
import ConflictGraph.PyPredictor

/-!
# Evidence and risk

`HeuristicPredictor.score` takes its signals for independent causes, on top of its floor, and the
history of the pair for one more. Where no signal is there, what both tests read counts a little; but
the risk of it is capped at 0.02 whatever the floor is. So under a floor above that, two tests that
come to share a resource are taken for safer than before, unless their history outweighs it
(`moreIsNeverLess_iff`).
-/

namespace ConflictGraph.Py

namespace PairFeatures

/-- The rarity is a mean of rarities, and the rate one of counts. -/
structure Counted (f : PairFeatures) : Prop where
  meanRarity_nonneg : 0 ≤ f.meanRarity
  historicalRate_nonneg : 0 ≤ f.historicalRate

/-- All that `score` takes for a sign of risk is there in `f'` at least as much as in `f`. -/
structure MoreEvidence (f f' : PairFeatures) : Prop where
  sharedBind : f.sharedBind ≤ f'.sharedBind
  createCreate : f.createCreate ≤ f'.createCreate
  sharedLocks : f.sharedLocks ≤ f'.sharedLocks
  sharedUnixSockets : f.sharedUnixSockets ≤ f'.sharedUnixSockets
  sharedRedisWrites : f.sharedRedisWrites ≤ f'.sharedRedisWrites
  deleteRead : f.deleteRead ≤ f'.deleteRead
  writeWrite : f.writeWrite ≤ f'.writeWrite
  readWrite : f.readWrite ≤ f'.readWrite
  sharedResources : f.sharedResources ≤ f'.sharedResources
  meanRarity : f.meanRarity ≤ f'.meanRarity
  historicalRate : f.historicalRate ≤ f'.historicalRate

/-- No signal is there. -/
def Silent (f : PairFeatures) : Prop := ∀ signal ∈ f.signals, signal.count = 0

/-- What survives the signals. -/
def spared (f : PairFeatures) : ℚ := survival Signal.weight Signal.count f.signals

/-- The part of the history that counts. -/
def history (f : PairFeatures) : ℚ := min (8 / 10) f.historicalRate

variable {f f' : PairFeatures}

theorem meanOrZero_nonneg {values : List ℚ} (h : ∀ x ∈ values, 0 ≤ x) : 0 ≤ meanOrZero values := by
  rw [meanOrZero]
  split
  · exact le_rfl
  · exact div_nonneg (List.sum_nonneg h) values.length.cast_nonneg

/-- The features that `pair_features` computes are counted, if the history is. -/
theorem counted_of_pairFeatures {g : TestResourceGraph} {a b : Str} (h : g.pairFeatures a b = .ok f)
    (hconcurrency : 0 ≤ f.historicalConcurrency) (hcofailures : 0 ≤ f.historicalCofailures) :
    f.Counted := by
  refine ⟨?_, ?_⟩
  · obtain ⟨shared, -, hshared⟩ := bind_eq_ok_iff.mp h
    obtain rfl := Except.ok.inj hshared
    refine meanOrZero_nonneg fun x hx => ?_
    obtain ⟨s, -, rfl⟩ := List.mem_map.mp hx
    exact div_nonneg zero_le_one (Nat.cast_nonneg _)
  · rw [historicalRate]
    split
    · exact le_rfl
    · exact div_nonneg (Int.cast_nonneg hcofailures) (Int.cast_nonneg hconcurrency)

theorem MoreEvidence.counted (h : f.MoreEvidence f') (hf : f.Counted) : f'.Counted :=
  ⟨hf.meanRarity_nonneg.trans h.meanRarity, hf.historicalRate_nonneg.trans h.historicalRate⟩

/-- More evidence, more history. -/
theorem MoreEvidence.history (h : f.MoreEvidence f') : f.history ≤ f'.history :=
  min_le_min le_rfl h.historicalRate

theorem Counted.history_nonneg (h : f.Counted) : 0 ≤ f.history :=
  le_min (by norm_num) h.historicalRate_nonneg

theorem history_le (f : PairFeatures) : f.history ≤ 8 / 10 := min_le_left _ _

theorem history_le_one (f : PairFeatures) : f.history ≤ 1 := f.history_le.trans (by norm_num)

/-! ## Signals -/

/-- The weights of the signals are chances. -/
theorem weighted_signals (f : PairFeatures) : Weighted Signal.weight f.signals := by
  intro signal hsignal
  simp only [signals, List.mem_cons, List.not_mem_nil, or_false] at hsignal
  rcases hsignal with rfl | rfl | rfl | rfl | rfl | rfl | rfl | rfl
  all_goals norm_num

/-- Every signal is worth more than 0.6. -/
theorem weight_ge (f : PairFeatures) {signal : Signal} (h : signal ∈ f.signals) :
    65 / 100 ≤ signal.weight := by
  simp only [signals, List.mem_cons, List.not_mem_nil, or_false] at h
  rcases h with rfl | rfl | rfl | rfl | rfl | rfl | rfl | rfl
  all_goals norm_num

theorem MoreEvidence.signals (h : f.MoreEvidence f') :
    List.Forall₂ (fun a b : Signal => b.weight = a.weight ∧ a.count ≤ b.count) f.signals
      f'.signals :=
  .cons ⟨rfl, h.sharedBind⟩ <| .cons ⟨rfl, h.createCreate⟩ <| .cons ⟨rfl, h.sharedLocks⟩ <|
    .cons ⟨rfl, h.sharedUnixSockets⟩ <| .cons ⟨rfl, h.sharedRedisWrites⟩ <|
      .cons ⟨rfl, h.deleteRead⟩ <| .cons ⟨rfl, h.writeWrite⟩ <| .cons ⟨rfl, h.readWrite⟩ .nil

theorem spared_nonneg (f : PairFeatures) : 0 ≤ f.spared := survival_nonneg f.weighted_signals

theorem spared_le_one (f : PairFeatures) : f.spared ≤ 1 := survival_le_one f.weighted_signals

/-- More evidence, less chance to be spared. -/
theorem MoreEvidence.spared (h : f.MoreEvidence f') : f'.spared ≤ f.spared :=
  survival_antitone f'.weighted_signals h.signals

/-- A pair without signals is spared for certain. -/
theorem Silent.spared (h : f.Silent) : f.spared = 1 := survival_eq_one h

/-- A signal spares a pair at most the rest of the least weight. -/
theorem spared_le_of_not_silent (h : ¬ f.Silent) : f.spared ≤ 35 / 100 := by
  obtain ⟨signal, hsignal, hcount⟩ : ∃ signal ∈ f.signals, signal.count ≠ 0 := by
    simpa only [Silent, not_forall, exists_prop] using h
  have hspared : f.spared ≤ 1 - signal.weight := survival_le f.weighted_signals hsignal hcount
  linarith [f.weight_ge hsignal]

/-- What is silent with more evidence is silent with less. -/
theorem MoreEvidence.silent (h : f.MoreEvidence f') (hsilent : f'.Silent) : f.Silent := by
  have hall : ∀ {l l' : List Signal},
      List.Forall₂ (fun a b : Signal => b.weight = a.weight ∧ a.count ≤ b.count) l l' →
        (∀ b ∈ l', b.count = 0) → ∀ a ∈ l, a.count = 0 := by
    intro l l' hle
    induction hle with
    | nil => exact fun _ _ ha => absurd ha List.not_mem_nil
    | cons hab _ ih =>
      simp only [List.forall_mem_cons]
      exact fun hzero => ⟨Nat.le_zero.mp (hzero.1 ▸ hab.2), ih hzero.2⟩
  exact hall h.signals hsilent

end PairFeatures

/-! ## The score -/

namespace HeuristicPredictor

variable {h : HeuristicPredictor} {f f' : PairFeatures}

/-- The loop over the signals takes each for a cause of its own. -/
theorem foldl_add (signals : List Signal) :
    ∀ s : Scoring, (signals.foldl Scoring.add s).probability =
        noisyOr s.probability (1 - survival Signal.weight Signal.count signals) ∧
      ((signals.foldl Scoring.add s).reasons = [] ↔
        s.reasons = [] ∧ ∀ signal ∈ signals, signal.count = 0) := by
  induction signals with
  | nil => intro s; simp
  | cons signal signals ih =>
    intro s
    rw [List.foldl_cons, (ih _).1, (ih _).2, survival_cons, List.forall_mem_cons, Scoring.add]
    by_cases hcount : signal.count = 0
    · simp [hcount]
    · rw [if_neg hcount]
      refine ⟨?_, ?_⟩
      · simp only [noisyOr]
        ring
      · simp [hcount]

/-- What the signals and the shared resources give, without the history. -/
def base (h : HeuristicPredictor) (f : PairFeatures) : ℚ :=
  (h.withReadonly f (h.semantic f)).probability

/-- The cap of what is only read. -/
def readonlyRisk (h : HeuristicPredictor) (f : PairFeatures) : ℚ :=
  min (2 / 100) (h.floor + 1 / 1000 * f.sharedResources * f.meanRarity)

/-- The base of a pair without signals is the floor, or what readers risk. -/
theorem base_of_silent (hsilent : f.Silent) :
    h.base f = if f.sharedResources = 0 then h.floor else h.readonlyRisk f := by
  obtain ⟨hprobability, hreasons⟩ := foldl_add f.signals ⟨h.floor, .unknown, []⟩
  have hnone : (h.semantic f).reasons = [] := hreasons.mpr ⟨rfl, hsilent⟩
  rw [base, withReadonly]
  by_cases hshared : f.sharedResources = 0
  · have hfloor : (h.semantic f).probability = h.floor := by
      refine hprobability.trans ?_
      rw [survival_eq_one hsilent, sub_self, noisyOr_zero]
    rw [if_neg fun hboth => hboth.1 hshared, if_pos hshared, hfloor]
  · rw [if_pos ⟨hshared, hnone⟩, if_neg hshared]
    rfl

/-- That of any other is a noisy-or of the floor and the signals. -/
theorem base_of_not_silent (hsilent : ¬ f.Silent) : h.base f = noisyOr h.floor (1 - f.spared) := by
  obtain ⟨hprobability, hreasons⟩ := foldl_add f.signals ⟨h.floor, .unknown, []⟩
  have hsome : (h.semantic f).reasons ≠ [] := fun hnone => hsilent (hreasons.mp hnone).2
  rw [base, withReadonly, if_neg fun hboth => hsome hboth.2]
  exact hprobability

/-- The history is one cause more. -/
theorem score_probability (h : HeuristicPredictor) (f : PairFeatures) :
    (h.score f).probability = clamp (noisyOr (h.base f) f.history) := by
  have hhistory : (withHistory f (h.withReadonly f (h.semantic f))).probability =
      noisyOr (h.base f) f.history := by
    rw [withHistory, PairFeatures.history]
    split
    · rename_i hzero
      rw [hzero, min_eq_right (by norm_num), noisyOr_zero, base]
    · rfl
  rw [← hhistory]
  rfl

/-! ## Bounds -/

theorem clamp_eq_self {x : ℚ} (hnonneg : 0 ≤ x) (hone : x ≤ 1) : clamp x = x := by
  rw [clamp, min_eq_right hone, max_eq_right hnonneg]

theorem readonlyRisk_nonneg (hfloor : 0 ≤ h.floor) (hf : f.Counted) : 0 ≤ h.readonlyRisk f := by
  refine le_min (by norm_num) (add_nonneg hfloor (mul_nonneg ?_ hf.meanRarity_nonneg))
  positivity

/-- Readers risk little. -/
theorem readonlyRisk_le (h : HeuristicPredictor) (f : PairFeatures) : h.readonlyRisk f ≤ 2 / 100 :=
  min_le_left _ _

/-- Under a floor that is at most the cap, what is only read has at least the floor. -/
theorem floor_le_readonlyRisk (hcap : h.floor ≤ 2 / 100) (hf : f.Counted) :
    h.floor ≤ h.readonlyRisk f := by
  refine le_min hcap (le_add_of_nonneg_right (mul_nonneg ?_ hf.meanRarity_nonneg))
  positivity

/-- Over the cap, it has the cap. -/
theorem readonlyRisk_of_lt (hcap : 2 / 100 < h.floor) (hf : f.Counted) :
    h.readonlyRisk f = 2 / 100 := by
  refine min_eq_left (hcap.le.trans (le_add_of_nonneg_right (mul_nonneg ?_ hf.meanRarity_nonneg)))
  positivity

theorem base_nonneg (hfloor : 0 ≤ h.floor) (hone : h.floor ≤ 1) (hf : f.Counted) :
    0 ≤ h.base f := by
  by_cases hsilent : f.Silent
  · rw [base_of_silent hsilent]
    split
    · exact hfloor
    · exact readonlyRisk_nonneg hfloor hf
  · rw [base_of_not_silent hsilent]
    exact hfloor.trans (le_noisyOr hone (sub_nonneg.mpr f.spared_le_one)
      (sub_le_self 1 f.spared_nonneg))

/-- The base is a chance. -/
theorem base_le_one (hone : h.floor ≤ 1) (f : PairFeatures) : h.base f ≤ 1 := by
  by_cases hsilent : f.Silent
  · rw [base_of_silent hsilent]
    split
    · exact hone
    · exact (readonlyRisk_le h f).trans (by norm_num)
  · rw [base_of_not_silent hsilent]
    exact noisyOr_le_one hone (sub_le_self 1 f.spared_nonneg)

/-- The score, where the numbers are what they should be, needs no clamping. -/
theorem score_eq (hfloor : 0 ≤ h.floor) (hone : h.floor ≤ 1) (hf : f.Counted) :
    (h.score f).probability = noisyOr (h.base f) f.history := by
  have hbase := base_nonneg hfloor hone hf
  have hle : h.base f ≤ noisyOr (h.base f) f.history :=
    le_noisyOr (base_le_one hone f) hf.history_nonneg f.history_le_one
  rw [score_probability,
    clamp_eq_self (hbase.trans hle) (noisyOr_le_one (base_le_one hone f) f.history_le_one)]

/-- And not below the floor, if that is not above what readers risk. -/
theorem floor_le_base (hone : h.floor ≤ 1) (hcap : h.floor ≤ 2 / 100) (hf : f.Counted) :
    h.floor ≤ h.base f := by
  by_cases hsilent : f.Silent
  · rw [base_of_silent hsilent]
    split
    · exact le_rfl
    · exact floor_le_readonlyRisk hcap hf
  · rw [base_of_not_silent hsilent]
    exact le_noisyOr hone (sub_nonneg.mpr f.spared_le_one) (sub_le_self 1 f.spared_nonneg)

/-! ## More evidence -/

/-- With the more evidence the pair comes to share what is only read, under a floor above the cap. -/
structure ComesToShare (h : HeuristicPredictor) (f f' : PairFeatures) : Prop where
  cap_lt : 2 / 100 < h.floor
  silent : f'.Silent
  unshared : f.sharedResources = 0
  shared : f'.sharedResources ≠ 0

/-- Where nothing is read by both as before, or the floor is low, more evidence gives more. -/
theorem base_mono (hfloor : 0 ≤ h.floor) (hone : h.floor ≤ 1) (hf : f.Counted)
    (hmore : f.MoreEvidence f') (hnot : ¬ h.ComesToShare f f') : h.base f ≤ h.base f' := by
  have hf' := (hmore.counted hf).meanRarity_nonneg
  by_cases hsilent' : f'.Silent
  · have hsilent := hmore.silent hsilent'
    rw [base_of_silent hsilent, base_of_silent hsilent']
    by_cases hunshared' : f'.sharedResources = 0
    · rw [if_pos hunshared', if_pos (Nat.le_zero.mp (hunshared' ▸ hmore.sharedResources))]
    · rw [if_neg hunshared']
      split
      · rename_i hunshared
        have hcap : h.floor ≤ 2 / 100 :=
          not_lt.mp fun hlt => hnot ⟨hlt, hsilent', hunshared, hunshared'⟩
        refine le_min hcap (le_add_of_nonneg_right (mul_nonneg ?_ hf'))
        positivity
      · -- both are capped, and both factors are larger
        refine min_le_min le_rfl (add_le_add le_rfl (mul_le_mul ?_ hmore.meanRarity
          hf.meanRarity_nonneg (by positivity)))
        exact mul_le_mul_of_nonneg_left (Nat.cast_le.mpr hmore.sharedResources) (by norm_num)
  · rw [base_of_not_silent hsilent']
    have hacts : 65 / 100 ≤ 1 - f'.spared := by
      linarith [PairFeatures.spared_le_of_not_silent hsilent']
    by_cases hsilent : f.Silent
    · rw [base_of_silent hsilent]
      split
      · exact le_noisyOr hone (sub_nonneg.mpr f'.spared_le_one) (sub_le_self 1 f'.spared_nonneg)
      · -- one signal is worth more than the cap
        calc h.readonlyRisk f
          _ ≤ 2 / 100 := readonlyRisk_le h f
          _ ≤ 1 - f'.spared := le_trans (by norm_num) hacts
          _ ≤ noisyOr h.floor (1 - f'.spared) :=
            le_noisyOr_right hfloor (sub_le_self 1 f'.spared_nonneg)
    · rw [base_of_not_silent hsilent]
      exact noisyOr_mono le_rfl (sub_le_sub_left hmore.spared 1) hone
        (sub_le_self 1 f'.spared_nonneg)

/-- The history does not outweigh what the pair loses. -/
structure Dips (h : HeuristicPredictor) (f f' : PairFeatures) : Prop extends
    ComesToShare h f f' where
  not_outweighed : (1 - h.floor) * (1 - f.history) < 98 / 100 * (1 - f'.history)

/-- More evidence gives at least the risk of less, exactly if the risk does not dip. -/
theorem score_le_iff (hfloor : 0 ≤ h.floor) (hone : h.floor ≤ 1) (hf : f.Counted)
    (hmore : f.MoreEvidence f') :
    (h.score f).probability ≤ (h.score f').probability ↔ ¬ h.Dips f f' := by
  have hf' := hmore.counted hf
  rw [score_eq hfloor hone hf, score_eq hfloor hone hf']
  by_cases hshare : h.ComesToShare f f'
  · have hsilent := hmore.silent hshare.silent
    have hbase : h.base f = h.floor := (base_of_silent hsilent).trans (if_pos hshare.unshared)
    have hbase' : h.base f' = 2 / 100 :=
      (base_of_silent hshare.silent).trans
        ((if_neg hshare.shared).trans (readonlyRisk_of_lt hshare.cap_lt hf'))
    rw [hbase, hbase', noisyOr, noisyOr]
    refine ⟨fun hle hdips => ?_, fun hnot => ?_⟩
    · linarith [hdips.not_outweighed]
    · by_contra hlt
      exact hnot ⟨hshare, by linarith⟩
  · refine iff_of_true ?_ fun hdips => hshare hdips.toComesToShare
    exact noisyOr_mono (base_mono hfloor hone hf hmore hshare) hmore.history (base_le_one hone f)
      f'.history_le_one

/-- More evidence never means less risk; no risk is below the floor, and every one is in [0, 1]. -/
structure MoreIsNeverLess (h : HeuristicPredictor) : Prop where
  mono : ∀ f f' : PairFeatures, f.Counted → f.MoreEvidence f' →
    (h.score f).probability ≤ (h.score f').probability
  floor_le : ∀ f : PairFeatures, f.Counted → h.floor ≤ (h.score f).probability
  bounds : ∀ f : PairFeatures, 0 ≤ (h.score f).probability ∧ (h.score f).probability ≤ 1

/-- `PairFeatures(test_a, test_b)`, with a number of resources that both read. -/
def readers (testA testB : Str) (sharedResources : ℕ) : PairFeatures where
  testA := testA
  testB := testB
  sharedResources := sharedResources
  sharedFiles := 0
  sharedWrites := 0
  readWrite := 0
  writeWrite := 0
  createCreate := 0
  deleteRead := 0
  sharedBind := 0
  sharedLocks := 0
  sharedRedisWrites := 0
  sharedUnixSockets := 0
  sharedDatabases := 0
  resourceJaccard := 0
  minimumRarity := 0
  meanRarity := 0
  durationA := 1
  durationB := 1
  failureRateA := 0
  failureRateB := 0
  historicalConcurrency := 0
  historicalCofailures := 0
  temporalOverlap := 0
  evidence := []

/-- The features of a pair of readers are counted. -/
theorem counted_readers (testA testB : Str) (n : ℕ) : (readers testA testB n).Counted :=
  ⟨le_rfl, le_rfl⟩

theorem silent_readers (testA testB : Str) (n : ℕ) : (readers testA testB n).Silent := by
  simp [PairFeatures.Silent, PairFeatures.signals, readers]

theorem history_readers (testA testB : Str) (n : ℕ) : (readers testA testB n).history = 0 := by
  norm_num [PairFeatures.history, PairFeatures.historicalRate, readers]

/-- Two tests that share nothing have the floor. -/
theorem score_readers_zero (hfloor : 0 ≤ h.floor) (hone : h.floor ≤ 1) (testA testB : Str) :
    (h.score (readers testA testB 0)).probability = h.floor := by
  rw [score_eq hfloor hone (counted_readers testA testB 0), history_readers, noisyOr_zero,
    base_of_silent (silent_readers testA testB 0)]
  exact if_pos rfl

/-- Two tests that read one resource have the cap, where the floor is above it. -/
theorem score_readers_one (hcap : 2 / 100 < h.floor) (hone : h.floor ≤ 1) (testA testB : Str) :
    (h.score (readers testA testB 1)).probability = 2 / 100 := by
  have hcounted := counted_readers testA testB 1
  rw [score_eq (by linarith) hone hcounted, history_readers, noisyOr_zero,
    base_of_silent (silent_readers testA testB 1)]
  exact (if_neg one_ne_zero).trans (readonlyRisk_of_lt hcap hcounted)

/-- **More evidence never means less risk exactly if the floor is at most the cap of what is only
read.** Above it, the risk of a pair falls exactly where it dips. -/
theorem moreIsNeverLess_iff (hfloor : 0 ≤ h.floor) (hone : h.floor ≤ 1) :
    (h.MoreIsNeverLess ↔ h.floor ≤ 2 / 100) ∧
      ∀ f f' : PairFeatures, f.Counted → f.MoreEvidence f' →
        ((h.score f).probability ≤ (h.score f').probability ↔ ¬ h.Dips f f') := by
  refine ⟨⟨fun hnever => ?_, fun hcap => ?_⟩, fun f f' => score_le_iff hfloor hone⟩
  · by_contra hcap
    have hfall := hnever.floor_le (readers [] [] 1) (counted_readers _ _ _)
    rw [score_readers_one (not_le.mp hcap) hone] at hfall
    exact hcap hfall
  · refine ⟨fun f f' hf hmore => ?_, fun f hf => ?_, fun f => ?_⟩
    · exact (score_le_iff hfloor hone hf hmore).mpr fun hdips => not_lt.mpr hcap hdips.cap_lt
    · rw [score_eq hfloor hone hf]
      exact (floor_le_base hone hcap hf).trans
        (le_noisyOr (base_le_one hone f) hf.history_nonneg f.history_le_one)
    · exact ⟨(h.score f).probability_nonneg, (h.score f).probability_le_one⟩

/-- The predictor with its default floor. -/
theorem moreIsNeverLess_iff_default : MoreIsNeverLess {} :=
  (moreIsNeverLess_iff (by norm_num) (by norm_num)).1.mpr (by norm_num)

/-- Under a floor of 0.1, a first resource that both tests read takes their risk from 0.1 to
0.02. -/
theorem not_moreIsNeverLess_tenth :
    (readers [] [] 0).MoreEvidence (readers [] [] 1) ∧
      (HeuristicPredictor.score ⟨1 / 10⟩ (readers [] [] 0)).probability = 1 / 10 ∧
      (HeuristicPredictor.score ⟨1 / 10⟩ (readers [] [] 1)).probability = 2 / 100 ∧
      ¬ MoreIsNeverLess ⟨1 / 10⟩ := by
  have hmore : (readers [] [] 0).MoreEvidence (readers [] [] 1) :=
    ⟨le_rfl, le_rfl, le_rfl, le_rfl, le_rfl, le_rfl, le_rfl, le_rfl, zero_le_one, le_rfl, le_rfl⟩
  have hzero : (HeuristicPredictor.score ⟨1 / 10⟩ (readers [] [] 0)).probability = 1 / 10 :=
    score_readers_zero (by norm_num) (by norm_num) [] []
  have hone : (HeuristicPredictor.score ⟨1 / 10⟩ (readers [] [] 1)).probability = 2 / 100 :=
    score_readers_one (by norm_num) (by norm_num) [] []
  refine ⟨hmore, hzero, hone, fun hnever => ?_⟩
  have hle := hnever.mono _ _ (counted_readers [] [] 0) hmore
  rw [hzero, hone] at hle
  norm_num at hle

end HeuristicPredictor

end ConflictGraph.Py
