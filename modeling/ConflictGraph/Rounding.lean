import Mathlib.Algebra.Order.Floor.Ring
import Mathlib.Data.Rat.Floor
import Mathlib.Tactic.Positivity

/-!
# Rounded chances

A machine rounds what it computes. Where chances are multiplied this shows at the edges: a
small one is lost, and one that equals a bound can come out below it. `Rounding` is what a
format of machine numbers promises about one operation, and exact arithmetic is the rounding
that does nothing. The chance that none of several independent events happens is a product of
complements, each operation rounded on its own. It stays a chance, events without chance have
no part in it, and one event whose complement is below one keeps it below one.
-/

namespace ConflictGraph

/-- How the result of one operation is rounded to a machine number. -/
structure Rounding : Type where
  round : ℚ → ℚ
  round_zero : round 0 = 0
  round_one : round 1 = 1
  round_mono : Monotone round
  /-- a machine number is not rounded again -/
  round_round : ∀ x, round (round x) = round x
  /-- what a machine number below one leaves to one does not vanish -/
  one_sub_pos : ∀ x, round x = x → x < 1 → 0 < round (1 - x)

namespace Rounding

/-- Exact arithmetic. -/
def exact : Rounding where
  round x := x
  round_zero := rfl
  round_one := rfl
  round_mono := monotone_id
  round_round _ := rfl
  one_sub_pos _ _ h := sub_pos.mpr h

@[simp] theorem exact_round (x : ℚ) : exact.round x = x := rfl

/-- The multiples of `1 / n`, rounded to the nearest. -/
def grid (n : ℕ) (hn : 0 < n) : Rounding where
  round x := ⌊x * n + 1 / 2⌋ / n
  round_zero := by
    rw [zero_mul, show ⌊(0 + 1 / 2 : ℚ)⌋ = 0 by norm_num, Int.cast_zero, zero_div]
  round_one := by
    rw [one_mul, Int.floor_natCast_add, show ⌊(1 / 2 : ℚ)⌋ = 0 by norm_num, add_zero,
      Int.cast_natCast, div_self (Nat.cast_ne_zero.mpr hn.ne')]
  round_mono x y h := by
    have hfloor : ⌊x * n + 1 / 2⌋ ≤ ⌊y * n + 1 / 2⌋ := Int.floor_mono (by gcongr)
    exact div_le_div_of_nonneg_right (Int.cast_le.mpr hfloor) (Nat.cast_nonneg n)
  round_round x := by
    rw [div_mul_cancel₀ _ (Nat.cast_ne_zero.mpr hn.ne'), Int.floor_intCast_add,
      show ⌊(1 / 2 : ℚ)⌋ = 0 by norm_num, add_zero]
  one_sub_pos x hx hlt := by
    have hn' : (0 : ℚ) < n := Nat.cast_pos.mpr hn
    have hx' : (⌊x * n + 1 / 2⌋ : ℚ) = x * n := (div_eq_iff hn'.ne').mp hx
    have hsub : ((1 - x) * n : ℚ) = ((n - ⌊x * n + 1 / 2⌋ : ℤ) : ℚ) := by
      push_cast
      rw [hx']
      ring
    rw [hsub, Int.floor_intCast_add, show ⌊(1 / 2 : ℚ)⌋ = 0 by norm_num, add_zero, ← hsub]
    exact div_pos (mul_pos (sub_pos.mpr hlt) hn') hn'

variable (r : Rounding)

/-- No sign is lost. -/
theorem round_nonneg {x : ℚ} (h : 0 ≤ x) : 0 ≤ r.round x :=
  r.round_zero.symm.trans_le (r.round_mono h)

theorem round_le_one {x : ℚ} (h : x ≤ 1) : r.round x ≤ 1 :=
  (r.round_mono h).trans_eq r.round_one

/-! ## The chance that nothing happens -/

/-- The chance that an event does not happen. -/
def complement (chance : ℚ) : ℚ := r.round (1 - chance)

theorem complement_zero : r.complement 0 = 1 := by rw [complement, sub_zero, r.round_one]

theorem complement_nonneg {chance : ℚ} (h : chance ≤ 1) : 0 ≤ r.complement chance :=
  r.round_nonneg (sub_nonneg.mpr h)

theorem complement_le_one {chance : ℚ} (h : 0 ≤ chance) : r.complement chance ≤ 1 :=
  r.round_le_one (sub_le_self 1 h)

@[simp] theorem round_complement (chance : ℚ) :
    r.round (r.complement chance) = r.complement chance :=
  r.round_round _

/-- The product of some factors and what has been multiplied so far, rounded at each step. -/
def product (safe : ℚ) (factors : List ℚ) : ℚ :=
  factors.foldl (fun safe factor => r.round (safe * factor)) safe

@[simp] theorem product_nil (safe : ℚ) : r.product safe [] = safe := rfl

@[simp] theorem product_cons (safe factor : ℚ) (factors : List ℚ) :
    r.product safe (factor :: factors) = r.product (r.round (safe * factor)) factors := rfl

theorem product_append (safe : ℚ) (factors factors' : List ℚ) :
    r.product safe (factors ++ factors') = r.product (r.product safe factors) factors' :=
  List.foldl_append

/-- Factors of one have no part in the product. -/
theorem product_of_forall_eq_one {safe : ℚ} (hsafe : r.round safe = safe) {factors : List ℚ}
    (h : ∀ factor ∈ factors, factor = 1) : r.product safe factors = safe := by
  induction factors with
  | nil => rfl
  | cons factor rest ih =>
    rw [List.forall_mem_cons] at h
    rw [product_cons, h.1, mul_one, hsafe, ih h.2]

/-- A product is a number that needs no rounding. -/
theorem round_product {safe : ℚ} (hsafe : r.round safe = safe) (factors : List ℚ) :
    r.round (r.product safe factors) = r.product safe factors := by
  induction factors generalizing safe with
  | nil => exact hsafe
  | cons factor rest ih => exact ih (r.round_round _)

/-- The product of factors between zero and one only falls. -/
theorem product_le {safe : ℚ} (hsafe : r.round safe = safe) (hnonneg : 0 ≤ safe)
    {factors : List ℚ} (h : ∀ factor ∈ factors, 0 ≤ factor ∧ factor ≤ 1) :
    0 ≤ r.product safe factors ∧ r.product safe factors ≤ safe := by
  induction factors generalizing safe with
  | nil => exact ⟨hnonneg, le_refl safe⟩
  | cons factor rest ih =>
    rw [List.forall_mem_cons] at h
    obtain ⟨hlow, hle⟩ := ih (r.round_round _) (r.round_nonneg (mul_nonneg hnonneg h.1.1)) h.2
    refine ⟨hlow, hle.trans ?_⟩
    exact (r.round_mono (mul_le_of_le_one_right hnonneg h.1.2)).trans_eq hsafe

/-- The product is at most each of its factors. -/
theorem product_le_factor {safe : ℚ} (hnonneg : 0 ≤ safe) (hone : safe ≤ 1)
    {factors : List ℚ} (h : ∀ factor ∈ factors, 0 ≤ factor ∧ factor ≤ 1) :
    ∀ factor ∈ factors, r.round factor = factor → r.product safe factors ≤ factor := by
  induction factors generalizing safe with
  | nil => exact List.forall_mem_nil _
  | cons factor rest ih =>
    rw [List.forall_mem_cons] at h ⊢
    have hstep : 0 ≤ r.round (safe * factor) := r.round_nonneg (mul_nonneg hnonneg h.1.1)
    have hstep' : r.round (safe * factor) ≤ 1 := r.round_le_one (mul_le_one₀ hone h.1.1 h.1.2)
    refine ⟨fun hfactor => ?_, ih hstep hstep' h.2⟩
    have hle : r.round (safe * factor) ≤ factor :=
      (r.round_mono (mul_le_of_le_one_left h.1.1 hone)).trans_eq hfactor
    exact (r.product_le (r.round_round _) hstep h.2).2.trans hle

/-- **One event that counts is enough.** The chance that something happens is positive if one
complement is below one. -/
theorem complement_product_pos {factors : List ℚ}
    (h : ∀ factor ∈ factors, 0 ≤ factor ∧ factor ≤ 1) {factor : ℚ} (hmem : factor ∈ factors)
    (hfactor : r.round factor = factor) (hlt : factor < 1) :
    0 < r.complement (r.product 1 factors) :=
  r.one_sub_pos _ (r.round_product r.round_one factors)
    ((r.product_le_factor zero_le_one le_rfl h factor hmem hfactor).trans_lt hlt)

/-- A chance can come out below itself: to the nearest tenth, `34 / 100` becomes `3 / 10` by way
of its complement. -/
example : (grid 10 (by decide)).complement ((grid 10 (by decide)).complement (34 / 100)) =
    3 / 10 := by
  decide +kernel

end Rounding

end ConflictGraph
