import Mathlib.Algebra.Order.BigOperators.Group.Finset
import Mathlib.Algebra.Order.Field.Basic
import Mathlib.Data.Fintype.Fin
import Mathlib.Order.Interval.Finset.Fin
import Mathlib.Tactic.Linarith

/-!
# Rankings and their average precision

A ranking lists `n` rows by decreasing score, some of them relevant. Its average
precision can be taken row by row, each relevant row with the precision of the rows up
to it, or threshold by threshold, each with the precision of all the rows that reach its
score. The two differ only where scores tie: a relevant row is then judged before the
rest of its tie has been counted.
-/

namespace ConflictGraph

namespace Ranking

variable {n : ℕ} {K : Type*} [Field K] [LinearOrder K]

/-! ## Row by row, and threshold by threshold -/

section Definitions

variable (relevant : Fin n → Prop) [DecidablePred relevant] (score : Fin n → K)

/-- The relevant rows up to a rank. -/
def hits (i : Fin n) : ℕ :=
  (Finset.univ.filter fun j => j ≤ i ∧ relevant j).card

/-- The precision of the rows up to a rank. -/
def precisionUpTo (i : Fin n) : K :=
  hits relevant i / ((i : ℕ) + 1 : ℕ)

/-- The relevant rows that reach a score. -/
def hitsFrom (t : K) : ℕ :=
  (Finset.univ.filter fun j => t ≤ score j ∧ relevant j).card

/-- The precision of all the rows that reach a score. -/
def precisionFrom (t : K) : K :=
  hitsFrom relevant score t / (Finset.univ.filter fun j => t ≤ score j).card

/-- A row is settled at its rank when no later row has its score, or when all the rows
that reach its score are relevant. -/
def Settled (i : Fin n) : Prop :=
  (∀ j, i < j → score j ≠ score i) ∨ ∀ j, score i ≤ score j → relevant j

end Definitions

/-! ## One row -/

variable {relevant : Fin n → Prop} [DecidablePred relevant] {score : Fin n → K} {i : Fin n}

/-- The rows that follow a rank in its own tie. -/
def tail (score : Fin n → K) (i : Fin n) : Finset (Fin n) :=
  Finset.univ.filter fun j => i < j ∧ score j = score i

/-- There are no more relevant rows than rows. -/
theorem hits_le (i : Fin n) : hits relevant i ≤ i + 1 := by
  calc hits relevant i ≤ (Finset.Iic i).card := by
        apply Finset.card_le_card
        intro j hj
        simpa using (Finset.mem_filter.mp hj).2.1
    _ = i + 1 := Fin.card_Iic i

theorem hits_lt {j : Fin n} (hj : j ≤ i) (hr : ¬ relevant j) : hits relevant i < i + 1 := by
  calc hits relevant i < (Finset.Iic i).card := by
        apply Finset.card_lt_card
        refine ⟨fun k hk => by simpa using (Finset.mem_filter.mp hk).2.1, fun hsub => ?_⟩
        exact hr (Finset.mem_filter.mp (hsub (Finset.mem_Iic.mpr hj))).2.2
    _ = i + 1 := Fin.card_Iic i

section Quotients

variable [IsStrictOrderedRing K] {a b c : ℕ}

/-- As much more of both brings a quotient nearer to one. -/
theorem div_le_add_div_add (hb : 0 < b) (h : a ≤ b) (c : ℕ) :
    (a : K) / b ≤ (a + c : ℕ) / (b + c : ℕ) := by
  have hcross : a * (b + c) ≤ (a + c) * b := by nlinarith [Nat.mul_le_mul_right c h]
  rw [div_le_div_iff₀ (by exact_mod_cast hb) (by exact_mod_cast Nat.add_pos_left hb c)]
  exact_mod_cast hcross

theorem div_lt_add_div_add (h : a < b) (hc : 0 < c) :
    (a : K) / b < (a + c : ℕ) / (b + c : ℕ) := by
  have hb : 0 < b := (Nat.zero_le a).trans_lt h
  have hcross : a * (b + c) < (a + c) * b := by nlinarith [Nat.mul_lt_mul_of_pos_right h hc]
  rw [div_lt_div_iff₀ (by exact_mod_cast hb) (by exact_mod_cast Nat.add_pos_left hb c)]
  exact_mod_cast hcross

end Quotients

section Sorted

variable (hs : Antitone score)

include hs

omit [Field K] in
/-- In a sorted ranking, the rows that reach a row's score are those up to its rank and
the rest of its tie. -/
theorem filter_reach (i : Fin n) (q : Fin n → Prop) [DecidablePred q] :
    (Finset.univ.filter fun j => score i ≤ score j ∧ q j).card =
      (Finset.univ.filter fun j => j ≤ i ∧ q j).card + ((tail score i).filter q).card := by
  rw [← Finset.card_union_of_disjoint]
  · congr 1
    ext j
    simp only [tail, Finset.mem_filter, Finset.mem_univ, true_and, Finset.mem_union]
    refine ⟨fun ⟨h, hq⟩ => ?_, fun h => ?_⟩
    · rcases le_or_gt j i with hji | hij
      · exact Or.inl ⟨hji, hq⟩
      · exact Or.inr ⟨⟨hij, le_antisymm (hs hij.le) h⟩, hq⟩
    · rcases h with ⟨hji, hq⟩ | ⟨⟨-, he⟩, hq⟩
      · exact ⟨hs hji, hq⟩
      · exact ⟨he.ge, hq⟩
  · rw [Finset.disjoint_left]
    intro j hj hj'
    have hle : j ≤ i := (Finset.mem_filter.mp hj).2.1
    have hlt : i < j := (Finset.mem_filter.mp (Finset.mem_filter.mp hj').1).2.1
    exact absurd hlt hle.not_gt

omit [Field K] in
theorem card_reach (i : Fin n) :
    (Finset.univ.filter fun j => score i ≤ score j).card = (i + 1) + (tail score i).card := by
  have h := filter_reach hs i fun _ => True
  have hle : (Finset.univ.filter fun j : Fin n => j ≤ i).card = i + 1 := by
    rw [← Fin.card_Iic i]
    congr 1
    ext j
    simp
  simpa [hle] using h

/-- Where the rest of the tie is relevant, each of its rows adds one to both counts. -/
theorem precisionFrom_eq (h : ∀ j ∈ tail score i, relevant j) :
    precisionFrom relevant score (score i) =
      ((hits relevant i + (tail score i).card : ℕ) : K) /
        ((i + 1 + (tail score i).card : ℕ) : K) := by
  have hhits : hitsFrom relevant score (score i) = hits relevant i + (tail score i).card := by
    rw [hitsFrom, filter_reach hs i relevant, Finset.filter_true_of_mem h, hits]
  rw [precisionFrom, hhits, card_reach hs i]

variable [IsStrictOrderedRing K]

/-- A settled row has one precision, by rank and by threshold. -/
theorem Settled.precisionUpTo_eq (h : Settled relevant score i) :
    precisionUpTo relevant i = precisionFrom relevant score (score i) := by
  rcases h with hlast | hall
  · have htail : tail score i = ∅ := by
      apply Finset.filter_eq_empty_iff.mpr
      exact fun j _ hj => hlast j hj.1 hj.2
    rw [precisionFrom_eq hs (by simp [htail]), htail]
    simp [precisionUpTo]
  · have hhits : hits relevant i = i + 1 := by
      rw [← Fin.card_Iic i, hits]
      congr 1
      ext j
      simp only [Finset.mem_filter, Finset.mem_univ, true_and, Finset.mem_Iic]
      exact ⟨fun hj => hj.1, fun hj => ⟨hj, hall j (hs hj)⟩⟩
    have hpos : ((i + 1 : ℕ) : K) ≠ 0 := by exact_mod_cast Nat.succ_ne_zero i
    have hpos' : ((i + 1 + (tail score i).card : ℕ) : K) ≠ 0 := by
      exact_mod_cast (by omega : i.val + 1 + (tail score i).card ≠ 0)
    rw [precisionFrom_eq hs fun j hj => hall j (Finset.mem_filter.mp hj).2.2.ge,
      precisionUpTo, hhits, div_self hpos, div_self hpos']

/-- By rank a row is judged no better than by threshold, when the rest of its tie is
relevant. -/
theorem precisionUpTo_le (h : ∀ j ∈ tail score i, relevant j) :
    precisionUpTo relevant i ≤ precisionFrom relevant score (score i) := by
  rw [precisionFrom_eq hs h, precisionUpTo]
  exact div_le_add_div_add (Nat.succ_pos i) (hits_le i) _

/-- It is judged worse where the tie goes on and a row up to it is not relevant. -/
theorem precisionUpTo_lt (h : ∀ j ∈ tail score i, relevant j) {j k : Fin n}
    (hj : j ∈ tail score i) (hk : k ≤ i) (hr : ¬ relevant k) :
    precisionUpTo relevant i < precisionFrom relevant score (score i) := by
  rw [precisionFrom_eq hs h, precisionUpTo]
  exact div_lt_add_div_add (hits_lt hk hr) (Finset.card_pos.mpr ⟨j, hj⟩)

end Sorted

/-! ## All the relevant rows -/

section Sums

variable (relevant : Fin n → Prop) [DecidablePred relevant] (score : Fin n → K)

/-- What the relevant rows earn by rank. -/
def sumByRank (K : Type*) [Field K] : K :=
  ∑ i with relevant i, precisionUpTo relevant i

/-- What they earn by threshold. -/
def sumByThreshold : K :=
  ∑ i with relevant i, precisionFrom relevant score (score i)

end Sums

omit [LinearOrder K] in
theorem sumByRank_congr {relevant' : Fin n → Prop} [DecidablePred relevant']
    (h : ∀ i, relevant i ↔ relevant' i) : sumByRank relevant K = sumByRank relevant' K := by
  simp only [sumByRank, precisionUpTo, hits, h]

/-! ## Row by row as a loop -/

/-- The relevant rows among the first `k`. -/
def below (relevant : Fin n → Prop) [DecidablePred relevant] (k : ℕ) : Finset (Fin n) :=
  Finset.univ.filter fun i => (i : ℕ) < k ∧ relevant i

variable (relevant) in
theorem below_succ (k : Fin n) :
    below relevant (k + 1) =
      if relevant k then insert k (below relevant k) else below relevant k := by
  ext i
  split <;> rename_i hr
  · simp only [below, Finset.mem_filter, Finset.mem_univ, true_and, Finset.mem_insert]
    refine ⟨fun ⟨hlt, hi⟩ => ?_, fun h => ?_⟩
    · rcases Nat.lt_succ_iff_lt_or_eq.mp hlt with hlt | he
      · exact Or.inr ⟨hlt, hi⟩
      · exact Or.inl (Fin.ext he)
    · rcases h with rfl | ⟨hlt, hi⟩
      · exact ⟨Nat.lt_succ_self _, hr⟩
      · exact ⟨hlt.trans (Nat.lt_succ_self _), hi⟩
  · simp only [below, Finset.mem_filter, Finset.mem_univ, true_and]
    refine ⟨fun ⟨hlt, hi⟩ => ⟨?_, hi⟩, fun ⟨hlt, hi⟩ => ⟨hlt.trans (Nat.lt_succ_self _), hi⟩⟩
    rcases Nat.lt_succ_iff_lt_or_eq.mp hlt with hlt | he
    · exact hlt
    · exact absurd hi (Fin.ext he ▸ hr)

variable (relevant) in
theorem notMem_below (k : Fin n) : k ∉ below relevant k := by
  simp [below]

variable (relevant) in
theorem hits_eq (k : Fin n) : hits relevant k = (below relevant (k + 1)).card := by
  rw [hits, below]
  congr 1
  ext i
  simp only [Finset.mem_filter, Finset.mem_univ, true_and, Fin.le_def, Nat.lt_succ_iff]

omit [LinearOrder K] in
variable (relevant) in
/-- A loop over the ranks that counts the hits and adds their precisions has, after `k`
rows, counted and added those below `k`. -/
theorem foldl_ranks (k : ℕ) (hk : k ≤ n) :
    ((List.finRange n).take k).foldl
      (fun (acc : ℕ × K) (rank : Fin n) =>
        if relevant rank then
          (acc.1 + 1, acc.2 + ((acc.1 + 1 : ℕ) : K) / ((rank : ℕ) + 1 : ℕ))
        else acc)
      (0, 0) =
    ((below relevant k).card, ∑ i ∈ below relevant k, precisionUpTo relevant i) := by
  induction k with
  | zero => simp [below]
  | succ k ih =>
    have hlen : k < (List.finRange n).length := by
      rw [List.length_finRange]
      exact hk
    have hsucc := below_succ relevant ⟨k, hk⟩
    have hnot := notMem_below relevant ⟨k, hk⟩
    have hhits := hits_eq relevant ⟨k, hk⟩
    rw [List.take_succ_eq_append_getElem hlen, List.foldl_concat, ih (by omega),
      List.getElem_finRange]
    by_cases hr : relevant ⟨k, hk⟩
    · rw [if_pos hr] at hsucc
      simp only [Fin.cast_mk, hr, if_true]
      rw [hsucc] at hhits ⊢
      rw [Finset.card_insert_of_notMem hnot] at hhits ⊢
      rw [Finset.sum_insert hnot, precisionUpTo, hhits, add_comm (∑ i ∈ _, _)]
    · rw [if_neg hr] at hsucc
      simp only [Fin.cast_mk, hr, if_false]
      rw [hsucc]

variable [IsStrictOrderedRing K]

/-- **Where every relevant row is settled, both sums are the same.** -/
theorem sumByRank_eq (hs : Antitone score) (h : ∀ i, relevant i → Settled relevant score i) :
    sumByRank relevant K = sumByThreshold relevant score := by
  apply Finset.sum_congr rfl
  intro i hi
  exact (h i (Finset.mem_filter.mp hi).2).precisionUpTo_eq hs

/-- Where every tie is all relevant or not at all, a relevant row that is not settled
makes the sum by rank too small. -/
theorem sumByRank_lt (hs : Antitone score)
    (pure : ∀ i j, score i = score j → relevant i → relevant j)
    (hi : relevant i) (hn : ¬ Settled relevant score i) :
    sumByRank relevant K < sumByThreshold relevant score := by
  have htail : ∀ {i}, relevant i → ∀ j ∈ tail score i, relevant j :=
    fun {i} hi j hj => pure i j (Finset.mem_filter.mp hj).2.2.symm hi
  obtain ⟨hlast, hall⟩ := not_or.mp hn
  push Not at hlast hall
  obtain ⟨j, hij, hsj⟩ := hlast
  obtain ⟨k, hik, hk⟩ := hall
  have hki : k ≤ i := by
    by_contra hlt
    exact hk (pure i k (le_antisymm hik (hs (not_le.mp hlt).le)) hi)
  apply Finset.sum_lt_sum
  · intro l hl
    exact precisionUpTo_le hs (htail (Finset.mem_filter.mp hl).2)
  · refine ⟨i, by simpa using hi, ?_⟩
    exact precisionUpTo_lt hs (htail hi) (by simpa [tail] using ⟨hij, hsj⟩) hki hk

/-! ## Exchanging two neighbours -/

section Exchange

variable {i' : Fin n} (hi' : (i' : ℕ) = i + 1)

include hi'

theorem swap_le_iff {j : Fin n} (hj : j ≠ i) (k : Fin n) : Equiv.swap i i' k ≤ j ↔ k ≤ j := by
  rcases eq_or_ne k i with rfl | hk
  · rw [Equiv.swap_apply_left]
    simp only [Fin.le_def, ne_eq, Fin.ext_iff] at hj ⊢
    omega
  rcases eq_or_ne k i' with rfl | hk'
  · rw [Equiv.swap_apply_right]
    simp only [Fin.le_def, ne_eq, Fin.ext_iff] at hj ⊢
    omega
  · rw [Equiv.swap_apply_of_ne_of_ne hk hk']

/-- Exchanging two neighbours only shows at the rank between them. -/
theorem hits_swap {j : Fin n} (hj : j ≠ i) :
    hits (fun k => relevant (Equiv.swap i i' k)) j = hits relevant j := by
  apply Finset.card_equiv (Equiv.swap i i')
  intro k
  simp [swap_le_iff hi' hj]

theorem hits_succ (hr : ¬ relevant i') : hits relevant i' = hits relevant i := by
  rw [hits, hits]
  congr 1
  ext j
  simp only [Finset.mem_filter, Finset.mem_univ, true_and, Fin.le_def]
  refine ⟨fun ⟨hle, hj⟩ => ⟨?_, hj⟩, fun ⟨hle, hj⟩ => ⟨by omega, hj⟩⟩
  have hne : (j : ℕ) ≠ i' := fun he => hr (Fin.ext he ▸ hj)
  omega

variable (relevant) in
/-- **A relevant row that falls one rank below an irrelevant one earns less**, and no
other row earns more. -/
theorem sumByRank_swap_lt (hi : relevant i) (hr : ¬ relevant i') :
    sumByRank (fun k => relevant (Equiv.swap i i' k)) K < sumByRank relevant K := by
  have hreindex : sumByRank (fun k => relevant (Equiv.swap i i' k)) K =
      ∑ j with relevant j,
        precisionUpTo (fun k => relevant (Equiv.swap i i' k)) (Equiv.swap i i' j) := by
    apply Finset.sum_equiv (Equiv.swap i i')
    · simp
    · simp
  have hpos : 0 < hits relevant i := Finset.card_pos.mpr ⟨i, by simpa using hi⟩
  -- one rank lower there are as many hits among more rows
  have hterm : precisionUpTo (fun k => relevant (Equiv.swap i i' k)) i' <
      (precisionUpTo relevant i : K) := by
    have hne : i' ≠ i := fun he => by omega
    rw [precisionUpTo, precisionUpTo, hits_swap hi' hne, hits_succ hi' hr, hi']
    apply div_lt_div_of_pos_left
    · exact_mod_cast hpos
    · exact_mod_cast Nat.succ_pos i
    · exact_mod_cast Nat.lt_succ_self _
  rw [hreindex, sumByRank]
  apply Finset.sum_lt_sum
  · intro j hj
    have hj : relevant j := (Finset.mem_filter.mp hj).2
    rcases eq_or_ne j i with rfl | hne
    · rw [Equiv.swap_apply_left]
      exact hterm.le
    · have hne' : j ≠ i' := fun he => hr (he ▸ hj)
      rw [Equiv.swap_apply_of_ne_of_ne hne hne', precisionUpTo, precisionUpTo,
        hits_swap hi' hne]
  · refine ⟨i, by simpa using hi, ?_⟩
    rw [Equiv.swap_apply_left]
    exact hterm

variable (relevant) in
/-- **A swap of a relevant row with another changes the sum by rank.** -/
theorem sumByRank_swap_ne (h : ¬ (relevant i ↔ relevant i')) :
    sumByRank (fun k => relevant (Equiv.swap i i' k)) K ≠ sumByRank relevant K := by
  by_cases hi : relevant i
  · have hr : ¬ relevant i' := fun hr => h (iff_of_true hi hr)
    exact (sumByRank_swap_lt relevant hi' hi hr).ne
  · have hr : relevant i' := by
      by_contra hr
      exact h (iff_of_false hi hr)
    have hlt : sumByRank (fun k => relevant (Equiv.swap i i' (Equiv.swap i i' k))) K <
        sumByRank (fun k => relevant (Equiv.swap i i' k)) K :=
      sumByRank_swap_lt (fun k => relevant (Equiv.swap i i' k)) hi' (by simpa using hr)
        (by simpa using hi)
    have hself : ∀ k, Equiv.swap i i' (Equiv.swap i i' k) = k :=
      (Equiv.swap i i').apply_symm_apply
    simp only [hself] at hlt
    exact hlt.ne'

end Exchange

omit [Field K] [IsStrictOrderedRing K] in
/-- A tie that is relevant in part has two neighbours that differ. -/
theorem exists_neighbours (relevant : Fin n → Prop) (hs : Antitone score) {j : Fin n}
    (he : score i = score j) (hi : relevant i) (hj : ¬ relevant j) :
    ∃ k k' : Fin n, (k' : ℕ) = k + 1 ∧ score k = score k' ∧ ¬ (relevant k ↔ relevant k') := by
  by_contra hnone
  push Not at hnone
  -- if neighbours agree, so do two rows of a tie, by induction on their distance
  have hrun : ∀ (d : ℕ) (a b : Fin n), (b : ℕ) = a + d → score a = score b →
      (relevant a ↔ relevant b) := by
    intro d
    induction d with
    | zero =>
      intro a b hab _
      rw [Fin.ext hab]
    | succ d ih =>
      intro a b hab hsab
      have hc : (b : ℕ) = (⟨a + d, by omega⟩ : Fin n) + 1 := by
        simp only [hab]
        omega
      have hac : score a = score ⟨a + d, by omega⟩ := by
        apply le_antisymm
        · exact hsab.le.trans (hs (by simp [Fin.le_def]; omega))
        · exact hs (by simp [Fin.le_def])
      exact (ih a ⟨a + d, by omega⟩ rfl hac).trans (hnone _ b hc (hac.symm.trans hsab))
  rcases le_total i j with hij | hji
  · exact hj ((hrun (j - i) i j (by simp only [Fin.le_def] at hij; omega) he).mp hi)
  · exact hj ((hrun (i - j) j i (by simp only [Fin.le_def] at hji; omega) he.symm).mpr hi)

end Ranking

end ConflictGraph
