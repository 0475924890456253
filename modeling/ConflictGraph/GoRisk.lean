import Mathlib.Order.WithBot
import Mathlib.Data.Multiset.Lattice
import ConflictGraph.GoPlan

/-!
# The risk index

`NewRiskIndex` keeps, for every pair key, the largest probability that any prediction
of the list gives to it. So the index answers the same whatever the order of the list
and however often a prediction is repeated, and a loop that keeps the last prediction of
a pair instead would answer differently.
-/

namespace ConflictGraph.Go

/-- What a prediction says about a key; `⊥` when it is about another pair. -/
def Prediction.sayOn (p : Prediction) (key : String) : WithBot ℚ :=
  if pairKey p.testA p.testB = key then (p.probability : WithBot ℚ) else ⊥

/-- The largest probability that a list of predictions gives to a key. -/
def largest (predictions : List Prediction) (key : String) : WithBot ℚ :=
  ((predictions : Multiset Prediction).map fun p => p.sayOn key).sup

@[simp] theorem largest_nil (key : String) : largest [] key = ⊥ := rfl

@[simp] theorem largest_cons (p : Prediction) (rest : List Prediction) (key : String) :
    largest (p :: rest) key = p.sayOn key ⊔ largest rest key := by
  rw [largest, ← Multiset.cons_coe, Multiset.map_cons, Multiset.sup_cons]
  rfl

theorem largest_perm {predictions predictions' : List Prediction}
    (h : predictions.Perm predictions') (key : String) :
    largest predictions key = largest predictions' key := by
  rw [largest, largest, Multiset.coe_eq_coe.mpr h]

/-- What the index holds for a key. -/
def RiskIndex.held (index : RiskIndex) (key : String) : WithBot ℚ :=
  match index.predictions key with
  | none => ⊥
  | some prediction => (prediction.probability : WithBot ℚ)

theorem RiskIndex.held_insert (index : RiskIndex) (p : Prediction) (key key' : String) :
    (RiskIndex.mk (index.predictions.insert key p)).held key' =
      if key' = key then (p.probability : WithBot ℚ) else index.held key' := by
  simp only [RiskIndex.held, PartialMap.insert_apply]
  by_cases h : key' = key
  · rw [if_pos h, if_pos h]
  · rw [if_neg h, if_neg h]

/-- The step lemma of `NewRiskIndex`: an iteration keeps the larger probability. -/
theorem RiskIndex.held_add (index : RiskIndex) (p : Prediction) (key : String) :
    (index.add p).held key = index.held key ⊔ p.sayOn key := by
  simp only [RiskIndex.add, Prediction.sayOn]
  by_cases hkey : pairKey p.testA p.testB = key
  · subst hkey
    rw [if_pos rfl]
    rcases hcurrent : index.predictions (pairKey p.testA p.testB) with _ | current
    · have hheld : index.held (pairKey p.testA p.testB) = ⊥ := by rw [RiskIndex.held, hcurrent]
      simp only [RiskIndex.held_insert, if_true, hheld, bot_sup_eq]
    · have hheld : index.held (pairKey p.testA p.testB) = current.probability := by
        rw [RiskIndex.held, hcurrent]
      dsimp only
      split
      · rename_i hlt
        rw [RiskIndex.held_insert, if_pos rfl, hheld, sup_eq_right.mpr]
        exact WithBot.coe_le_coe.mpr hlt.le
      · rename_i hle
        rw [hheld, sup_eq_left.mpr]
        exact WithBot.coe_le_coe.mpr (not_lt.mp hle)
  · rw [if_neg hkey, sup_bot_eq]
    split
    · rw [RiskIndex.held_insert, if_neg (Ne.symm hkey)]
    · split
      · rw [RiskIndex.held_insert, if_neg (Ne.symm hkey)]
      · rfl

/-- A normalised prediction says what the prediction says. -/
theorem Prediction.sayOn_normalize {p q : Prediction} (h : p.normalize = .ok q) (key : String) :
    q.sayOn key = p.sayOn key := by
  rw [Prediction.sayOn, Prediction.sayOn, (Prediction.normalize_probability h).1]
  unfold Prediction.normalize at h
  split at h
  · cases h
  · split at h
    · cases h
    · obtain rfl := Except.ok.inj h
      have hkey : pairKey p.ordered.testA p.ordered.testB = pairKey p.testA p.testB := by
        rw [Prediction.ordered]
        split
        · exact pairKey_comm ..
        · rfl
      rw [hkey]

/-- What a successful call of `NewRiskIndex` went through. -/
theorem addPredictions_eq_ok {predictions : List Prediction} :
    ∀ {index risk : RiskIndex}, addPredictions index predictions = .ok risk →
      (∀ p ∈ predictions, ∃ q, p.normalize = .ok q) ∧
        ∀ key, risk.held key = index.held key ⊔ largest predictions key := by
  induction predictions with
  | nil =>
    intro index risk h
    obtain rfl := Except.ok.inj h
    exact ⟨nofun, fun key => (sup_bot_eq _).symm⟩
  | cons p rest ih =>
    intro index risk h
    rw [addPredictions] at h
    rcases hnorm : p.normalize with text | q
    · rw [hnorm] at h
      cases h
    · rw [hnorm] at h
      obtain ⟨hrest, hheld⟩ := ih h
      refine ⟨List.forall_mem_cons.mpr ⟨⟨q, hnorm⟩, hrest⟩, fun key => ?_⟩
      rw [hheld, RiskIndex.held_add, Prediction.sayOn_normalize hnorm, largest_cons, sup_assoc]

/-- `Probability` reads the index at the key of the pair. -/
theorem RiskIndex.probability_eq (risk : RiskIndex) (a b : String) :
    risk.probability a b = if a = b then 1 else (risk.held (pairKey a b)).unbotD 0 := by
  rw [RiskIndex.probability, RiskIndex.held]
  split
  · rfl
  · cases risk.predictions (pairKey a b) <;> rfl

/-- **The Go index answers with the largest probability** that the list gives to a pair. -/
theorem probability_newRiskIndex {predictions : List Prediction} {risk : RiskIndex}
    (h : newRiskIndex predictions = .ok risk) {a b : String} (hne : a ≠ b) :
    risk.probability a b = (largest predictions (pairKey a b)).unbotD 0 := by
  rw [RiskIndex.probability_eq, if_neg hne, (addPredictions_eq_ok h).2]
  change ((⊥ : WithBot ℚ) ⊔ largest predictions (pairKey a b)).unbotD 0 = _
  rw [bot_sup_eq]

/-- **The order of the predictions does not matter**: a permuted list is accepted as well
and is answered from in the same way. -/
theorem newRiskIndex_perm {predictions predictions' : List Prediction}
    (hperm : predictions.Perm predictions') {risk : RiskIndex}
    (h : newRiskIndex predictions = .ok risk) :
    ∃ risk', newRiskIndex predictions' = .ok risk' ∧ risk'.probability = risk.probability := by
  obtain ⟨hall, -⟩ := addPredictions_eq_ok h
  obtain ⟨risk', h'⟩ := exists_addPredictions
    (fun p hp => hall p (hperm.mem_iff.mpr hp)) ⟨PartialMap.empty⟩
  refine ⟨risk', h', funext fun a => funext fun b => ?_⟩
  by_cases hne : a = b
  · rw [RiskIndex.probability, RiskIndex.probability, if_pos hne, if_pos hne]
  · rw [probability_newRiskIndex h hne, probability_newRiskIndex h' hne, largest_perm hperm]

end ConflictGraph.Go
