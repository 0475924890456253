import Mathlib.Algebra.Order.Group.Lattice
import Mathlib.Algebra.Order.Group.MinMax

/-!
# Half-open intervals on an ordered axis

Plans speak about time through half-open intervals `[s, e)`: two of them *meet*
when they share an instant, and `overlap` measures how long they share one. The
two notions agree on non-empty intervals, which is the only fact the schedulers
ever need about them.
-/

namespace ConflictGraph

universe u

variable {K : Type u} [LinearOrder K]

/-- `[s, e)` and `[s', e')` share an instant, for non-empty intervals. -/
def Meets (s e s' e' : K) : Prop := s < e' ∧ s' < e

instance (s e s' e' : K) : Decidable (Meets s e s' e') := by
  unfold Meets
  infer_instance

theorem Meets.symm {s e s' e' : K} (h : Meets s e s' e') : Meets s' e' s e := ⟨h.2, h.1⟩

/-- Intervals that follow one another do not meet. -/
theorem not_meets_of_le {s e s' e' : K} (h : e ≤ s') : ¬ Meets s e s' e' :=
  fun hm => absurd hm.2 (not_lt.mpr h)

variable [AddCommGroup K]

/-- How long `[s, e)` and `[s', e')` run side by side. -/
def overlap (s e s' e' : K) : K := max 0 (min e e' - max s s')

theorem overlap_nonneg (s e s' e' : K) : 0 ≤ overlap s e s' e' := le_max_left _ _

theorem overlap_comm (s e s' e' : K) : overlap s e s' e' = overlap s' e' s e := by
  rw [overlap, overlap, min_comm, max_comm s]

variable [IsOrderedAddMonoid K]

/-- For non-empty intervals a positive overlap is the same as a shared instant. -/
theorem overlap_pos_iff {s e s' e' : K} (h : s < e) (h' : s' < e') :
    0 < overlap s e s' e' ↔ Meets s e s' e' := by
  rw [overlap, lt_max_iff, or_iff_right (lt_irrefl _), sub_pos, max_lt_iff, lt_min_iff,
    lt_min_iff, Meets]
  refine ⟨?_, ?_⟩
  · rintro ⟨⟨-, hse'⟩, hs'e, -⟩
    exact ⟨hse', hs'e⟩
  · rintro ⟨hse', hs'e⟩
    exact ⟨⟨h, hse'⟩, hs'e, h'⟩

end ConflictGraph
