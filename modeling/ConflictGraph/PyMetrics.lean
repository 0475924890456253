import Mathlib.Algebra.BigOperators.Fin
import ConflictGraph.PyTypes

/-!
# The classification metrics

`metrics.py`, over exact rationals. A one-dimensional array of length `n` is a function
from its indices, and an index by a mask selects a list. What NumPy leaves open, the
order in which `np.argsort` lists equal values, is a parameter; so is scikit-learn, which
`classification_metrics` uses where it is installed.
-/

namespace ConflictGraph.Py

/-! ## Arrays -/

/-- `values[mask]`. -/
def select {n : ℕ} {α : Type} (mask : Fin n → Bool) (values : Fin n → α) : List α :=
  ((List.finRange n).filter mask).map values

/-- `np.mean` of a list that is not empty. -/
def mean (values : List ℚ) : ℚ := values.sum / values.length

/-- `np.mean(mask)`. -/
def maskMean {n : ℕ} (mask : Fin n → Bool) : ℚ := ((List.finRange n).countP mask : ℚ) / n

/-! ## Calibration -/

/-- The boundaries `np.linspace(0.0, 1.0, bins + 1)`. -/
def boundary (bins index : ℕ) : ℚ := (index : ℚ) / bins

/-- The mask of a bin: it is half-open, and the last one is closed. -/
def inBin (bins index : ℕ) (probability : ℚ) : Bool :=
  decide (boundary bins index ≤ probability) &&
    (if index + 1 < bins then decide (probability < boundary bins (index + 1))
     else decide (probability ≤ boundary bins (index + 1)))

/-- What a bin adds to the error. -/
def binError {n : ℕ} (labels : Fin n → ℤ) (probabilities : Fin n → ℚ) (bins index : ℕ) : ℚ :=
  let mask := fun i => inBin bins index (probabilities i)
  if (List.finRange n).any mask then
    maskMean mask *
      |mean (select mask fun i => (labels i : ℚ)) - mean (select mask probabilities)|
  else 0

/-- `expected_calibration_error`. -/
def expectedCalibrationError {m n : ℕ} (labels : Fin m → ℤ) (probabilities : Fin n → ℚ)
    (bins : ℤ := 10) : Except Exception ℚ :=
  if bins ≤ 0 then .error ⟨.valueError, "calibration bin count must be positive"⟩
  else if h : m = n then
    if m = 0 then .ok 0
    else
      .ok ((List.range bins.toNat).foldl
        (fun error index =>
          error + binError labels (fun i => probabilities (Fin.cast h i)) bins.toNat index) 0)
  else .error ⟨.valueError, "labels and probabilities must have equal length"⟩

/-! ## Ranking -/

/-- `_average_precision`: the rows by decreasing probability, in the order that `argsort`
lists them, with the hits so far and the sum of the precisions. -/
def averagePrecision {n : ℕ} (argsort : (Fin n → ℚ) → Equiv.Perm (Fin n))
    (labels : Fin n → ℤ) (probabilities : Fin n → ℚ) : ℚ :=
  let positive := ∑ i, labels i
  if positive = 0 then 0
  else
    let order := argsort fun i => -probabilities i
    let acc := (List.finRange n).foldl
      (fun (acc : ℕ × ℚ) (rank : Fin n) =>
        if labels (order rank) ≠ 0 then
          (acc.1 + 1, acc.2 + ((acc.1 + 1 : ℕ) : ℚ) / ((rank : ℕ) + 1 : ℕ))
        else acc)
      (0, 0)
    acc.2 / positive

/-- What a positive example wins over a negative one: a tie counts half. -/
def wins (left right : ℚ) : ℚ :=
  (if right < left then 1 else 0) + 1 / 2 * (if left = right then 1 else 0)

/-- `_roc_auc`. -/
def rocAUC {n : ℕ} (labels : Fin n → ℤ) (probabilities : Fin n → ℚ) : ℚ :=
  let positive := select (fun i => decide (labels i = 1)) probabilities
  let negative := select (fun i => decide (labels i = 0)) probabilities
  if positive.length = 0 ∨ negative.length = 0 then 1 / 2
  else
    (positive.flatMap fun left => negative.map fun right => wins left right).sum /
      (positive.length * negative.length)

/-! ## All the metrics -/

structure ClassificationMetrics : Type where
  prAUC : ℚ
  rocAUC : ℚ
  precision : ℚ
  /-- `recall` -/
  recallScore : ℚ
  f1 : ℚ
  brierScore : ℚ
  expectedCalibrationError : ℚ
  threshold : ℚ
  confusionMatrix : List (List ℕ)
  deriving DecidableEq

/-- The two functions of scikit-learn. -/
structure Sklearn (n : ℕ) : Type where
  averagePrecisionScore : (Fin n → ℤ) → (Fin n → ℚ) → ℚ
  rocAUCScore : (Fin n → ℤ) → (Fin n → ℚ) → ℚ

/-- `np.clip(probabilities, 0, 1)`. -/
def clip {n : ℕ} (probabilities : Fin n → ℚ) (i : Fin n) : ℚ := min (max (probabilities i) 0) 1

/-- The examples with a label that a prediction at the threshold meets, or not. -/
def confusion {n : ℕ} (labels : Fin n → ℤ) (p : Fin n → ℚ) (threshold : ℚ) (label : ℤ)
    (predicted : Bool) : ℕ :=
  (List.finRange n).countP fun i =>
    decide (labels i = label) && (decide (threshold ≤ p i) == predicted)

/-- `_average_precision` and `_roc_auc`, or the functions of scikit-learn where it is
installed. -/
def rankingScores {n : ℕ} (argsort : (Fin n → ℚ) → Equiv.Perm (Fin n))
    (sklearn : Option (Sklearn n)) (labels : Fin n → ℤ) (p : Fin n → ℚ) : ℚ × ℚ :=
  sklearn.elim (averagePrecision argsort labels p, rocAUC labels p) fun sklearn =>
    (if n = 0 then 0 else sklearn.averagePrecisionScore labels p,
      if 1 < (Finset.univ.image labels).card then sklearn.rocAUCScore labels p else 1 / 2)

/-- `classification_metrics`. -/
def classificationMetrics {m n : ℕ} (argsort : (Fin m → ℚ) → Equiv.Perm (Fin m))
    (sklearn : Option (Sklearn m)) (labels : Fin m → ℤ) (probabilities : Fin n → ℚ)
    (threshold : ℚ := 1 / 2) : Except Exception ClassificationMetrics :=
  if h : m = n then do
    let p := fun i => clip probabilities (Fin.cast h i)
    let tp := confusion labels p threshold 1 true
    let fp := confusion labels p threshold 0 true
    let tn := confusion labels p threshold 0 false
    let fn := confusion labels p threshold 1 false
    let precision : ℚ := if tp + fp = 0 then 0 else tp / (tp + fp : ℕ)
    let recallScore : ℚ := if tp + fn = 0 then 0 else tp / (tp + fn : ℕ)
    let f1 := if precision + recallScore = 0 then 0
      else 2 * precision * recallScore / (precision + recallScore)
    let scores := rankingScores argsort sklearn labels p
    let error ← expectedCalibrationError labels p
    .ok ⟨scores.1, scores.2, precision, recallScore, f1,
      if m = 0 then 0 else mean (List.ofFn fun i => (p i - labels i) ^ 2), error, threshold,
      [[tn, fp], [fn, tp]]⟩
  else .error ⟨.valueError, "labels and probabilities must have equal length"⟩

end ConflictGraph.Py
