import Mathlib.Data.List.MinMax
import ConflictGraph.GoSeparation

/-!
# The preference for safe candidates

The placement loop prefers candidates under the hard threshold by a penalty: a candidate at or
above it costs 1000 more. The rest of a cost grows with the duration, so the penalty decides
only while the durations are short. Which candidate is chosen is settled by comparing *bids*,
the part of the cost that depends on the candidate.
-/

namespace ConflictGraph.Go

/-! ## The chosen candidate -/

/-- The loop over the candidates is `argmin`: it picks the first of least cost. -/
theorem pickBest_mem_argmin (cost : Test → ℚ) (first : Test) (rest : List Test) :
    pickBest cost first (first :: rest) ∈ (first :: rest).argmin cost := by
  have hloop : ∀ (l : List Test) (best : Test),
      l.foldl (List.argAux fun b c => cost b < cost c) (some best) =
        some (l.foldl (fun (best : Test × WithTop ℚ) candidate =>
          if (cost candidate : WithTop ℚ) < best.2 then (candidate, (cost candidate : WithTop ℚ))
          else best) (best, (cost best : WithTop ℚ))).1 := by
    intro l
    induction l with
    | nil => exact fun _ => rfl
    | cons candidate l ih =>
      intro best
      have hstep : List.argAux (fun b c => cost b < cost c) (some best) candidate =
          if cost candidate < cost best then some candidate else some best := rfl
      rw [List.foldl_cons, List.foldl_cons, hstep]
      by_cases hlt : cost candidate < cost best
      · rw [if_pos hlt, if_pos (WithTop.coe_lt_coe.mpr hlt), ih]
      · rw [if_neg hlt, if_neg (fun h => hlt (WithTop.coe_lt_coe.mp h)), ih]
  rw [pickBest, List.foldl_cons, if_pos (WithTop.coe_lt_top _), List.argmin, List.foldl_cons]
  exact hloop rest first

variable {ctx : Context}

/-- What a round chooses: a candidate that costs no more than any other, the first such. -/
theorem chosen_spec {round : ℕ} {p : Placement} {best : Test} (h : ctx.chosen round p = some best) :
    best ∈ ctx.candidates round p.remaining ∧
      ∀ c ∈ ctx.candidates round p.remaining,
        ctx.cost p.lanes (earliestLane p.lanes) (laneEnd p.lanes (earliestLane p.lanes)) best ≤
            ctx.cost p.lanes (earliestLane p.lanes) (laneEnd p.lanes (earliestLane p.lanes)) c ∧
          (ctx.cost p.lanes (earliestLane p.lanes) (laneEnd p.lanes (earliestLane p.lanes)) c ≤
              ctx.cost p.lanes (earliestLane p.lanes) (laneEnd p.lanes (earliestLane p.lanes)) best →
            (ctx.candidates round p.remaining).idxOf best ≤
              (ctx.candidates round p.remaining).idxOf c) := by
  unfold Context.chosen at h
  split at h
  · cases h
  · rename_i first rest hcandidates
    rw [hcandidates]
    have hmin := pickBest_mem_argmin (ctx.cost p.lanes (earliestLane p.lanes)
      (laneEnd p.lanes (earliestLane p.lanes))) first rest
    rw [← Option.some.inj h]
    exact ⟨List.argmin_mem hmin, fun c hc =>
      ⟨List.le_of_mem_argmin hc hmin, fun hle => List.index_of_argmin hmin hc hle⟩⟩

/-- A round with a candidate chooses one. -/
theorem exists_chosen_of_mem {round : ℕ} {p : Placement} {c : Test}
    (h : c ∈ ctx.candidates round p.remaining) : ∃ best, ctx.chosen round p = some best := by
  unfold Context.chosen
  split
  · rename_i hnil
    rw [hnil] at h
    cases h
  · exact ⟨_, rfl⟩

/-! ## Bids -/

/-- The risk of a candidate at the current end of the worker that is free first. -/
def Context.riskNow (ctx : Context) (p : Placement) (c : Test) : ℚ :=
  (ctx.riskAt p.lanes (earliestLane p.lanes) (laneEnd p.lanes (earliestLane p.lanes)) c).1

/-- The candidate is under the hard threshold there. -/
def Context.Safe (ctx : Context) (p : Placement) (c : Test) : Prop :=
  ctx.riskNow p c < ctx.parameters.hardThreshold

instance (ctx : Context) (p : Placement) (c : Test) : Decidable (ctx.Safe p c) :=
  inferInstanceAs (Decidable (_ < _))

/-- The part of the cost that depends on the candidate, without the penalty. -/
def Context.bid (ctx : Context) (p : Placement) (c : Test) : ℚ :=
  (ctx.parameters.riskWeight * ctx.riskNow p c - ctx.parameters.utilizationBias) * c.durationEMA

theorem cost_of_safe {p : Placement} {c : Test} (h : ctx.Safe p c) :
    ctx.cost p.lanes (earliestLane p.lanes) (laneEnd p.lanes (earliestLane p.lanes)) c =
      laneEnd p.lanes (earliestLane p.lanes) + ctx.bid p c := by
  refine (if_neg (not_le.mpr h)).trans ?_
  rw [Context.bid, Context.riskNow]
  ring

theorem cost_of_not_safe {p : Placement} {c : Test} (h : ¬ ctx.Safe p c) :
    ctx.cost p.lanes (earliestLane p.lanes) (laneEnd p.lanes (earliestLane p.lanes)) c =
      laneEnd p.lanes (earliestLane p.lanes) + (ctx.bid p c + 1000) := by
  refine (if_pos (not_lt.mp h)).trans ?_
  rw [Context.bid, Context.riskNow]
  ring

/-! ## When the chosen candidate is safe -/

/-- If some candidate is under the threshold, the chosen one is. -/
def Context.PrefersSafe (ctx : Context) (round : ℕ) (p : Placement) : Prop :=
  (∃ c ∈ ctx.candidates round p.remaining, ctx.Safe p c) →
    ∀ best ∈ ctx.chosen round p, ctx.Safe p best

instance (ctx : Context) (round : ℕ) (p : Placement) : Decidable (ctx.PrefersSafe round p) :=
  inferInstanceAs (Decidable (_ → ∀ best ∈ ctx.chosen round p, _))

/-- Some safe candidate outbids every candidate that pays the penalty: its bid is less than
1000 above the other's, or 1000 above it and it comes first. -/
def Context.PenaltyDecides (ctx : Context) (round : ℕ) (p : Placement) : Prop :=
  ∃ c ∈ ctx.candidates round p.remaining, ctx.Safe p c ∧
    ∀ risky ∈ ctx.candidates round p.remaining, ¬ ctx.Safe p risky →
      ctx.bid p c < ctx.bid p risky + 1000 ∨
        ctx.bid p c = ctx.bid p risky + 1000 ∧
          (ctx.candidates round p.remaining).idxOf c <
            (ctx.candidates round p.remaining).idxOf risky

/-- Where some candidate is safe, the chosen one is safe exactly if the penalty decides. -/
theorem chosen_safe_iff {round : ℕ} {p : Placement}
    (h : ∃ c ∈ ctx.candidates round p.remaining, ctx.Safe p c) :
    (∀ best ∈ ctx.chosen round p, ctx.Safe p best) ↔ ctx.PenaltyDecides round p := by
  obtain ⟨safe, hsafe, -⟩ := h
  obtain ⟨best, hbest⟩ := exists_chosen_of_mem hsafe
  obtain ⟨hmem, hleast⟩ := chosen_spec hbest
  refine ⟨fun hprefers => ?_, ?_⟩
  · have hbestSafe : ctx.Safe p best := hprefers best hbest
    refine ⟨best, hmem, hbestSafe, fun risky hrisky hnot => ?_⟩
    obtain ⟨hle, hfirst⟩ := hleast risky hrisky
    rw [cost_of_safe hbestSafe, cost_of_not_safe hnot, add_le_add_iff_left] at hle
    rcases hle.lt_or_eq with hlt | heq
    · exact Or.inl hlt
    · refine Or.inr ⟨heq, (hfirst ?_).lt_of_ne fun hsame => hnot ?_⟩
      · rw [cost_of_safe hbestSafe, cost_of_not_safe hnot, heq]
      · rw [← (List.idxOf_inj hmem).mp hsame]
        exact hbestSafe
  · rintro ⟨c, hc, hcSafe, hbids⟩ best' hbest'
    rw [← Option.some.inj (hbest.symm.trans hbest')]
    by_contra hnot
    obtain ⟨hle, hfirst⟩ := hleast c hc
    rw [cost_of_safe hcSafe, cost_of_not_safe hnot, add_le_add_iff_left] at hle
    rcases hbids best hmem hnot with hlt | ⟨heq, hbefore⟩
    · exact absurd hlt (not_lt.mpr hle)
    · refine absurd hbefore (not_lt.mpr (hfirst ?_))
      rw [cost_of_safe hcSafe, cost_of_not_safe hnot, heq]

/-- **The preference, exactly.** A round prefers safe candidates if and only if, where there is
one, some safe candidate outbids every other by less than the penalty. -/
theorem prefersSafe_iff (ctx : Context) (round : ℕ) (p : Placement) :
    ctx.PrefersSafe round p ↔
      ((∃ c ∈ ctx.candidates round p.remaining, ctx.Safe p c) → ctx.PenaltyDecides round p) :=
  forall_congr' chosen_safe_iff

/-- The penalty decides among short tests. -/
theorem prefersSafe_of_short {round : ℕ} {p : Placement} {bound : ℚ}
    (hweight : 0 ≤ ctx.parameters.riskWeight) (hthreshold : 0 ≤ ctx.parameters.hardThreshold)
    (hbias : 0 ≤ ctx.parameters.utilizationBias)
    (hshort : ∀ c ∈ ctx.candidates round p.remaining, 0 ≤ c.durationEMA ∧ c.durationEMA ≤ bound)
    (hbound : (ctx.parameters.riskWeight * ctx.parameters.hardThreshold +
      ctx.parameters.utilizationBias) * bound < 1000) : ctx.PrefersSafe round p := by
  rintro ⟨c, hc, hcSafe⟩ best hbest
  obtain ⟨hmem, hleast⟩ := chosen_spec hbest
  by_contra hnot
  have hle := (hleast c hc).1
  rw [cost_of_safe hcSafe, cost_of_not_safe hnot, add_le_add_iff_left] at hle
  have hsafe : ctx.bid p c ≤ ctx.parameters.riskWeight * ctx.parameters.hardThreshold * bound :=
    calc ctx.bid p c
        ≤ ctx.parameters.riskWeight * ctx.parameters.hardThreshold * c.durationEMA := by
          refine mul_le_mul_of_nonneg_right ?_ (hshort c hc).1
          exact (sub_le_self _ hbias).trans (mul_le_mul_of_nonneg_left hcSafe.le hweight)
      _ ≤ ctx.parameters.riskWeight * ctx.parameters.hardThreshold * bound :=
          mul_le_mul_of_nonneg_left (hshort c hc).2 (mul_nonneg hweight hthreshold)
  have hrisky : -(ctx.parameters.utilizationBias * bound) ≤ ctx.bid p best :=
    calc -(ctx.parameters.utilizationBias * bound)
        ≤ -(ctx.parameters.utilizationBias * best.durationEMA) :=
          neg_le_neg (mul_le_mul_of_nonneg_left (hshort best hmem).2 hbias)
      _ = (0 - ctx.parameters.utilizationBias) * best.durationEMA := by ring
      _ ≤ ctx.bid p best := by
          refine mul_le_mul_of_nonneg_right (sub_le_sub_right ?_ _) (hshort best hmem).1
          exact mul_nonneg hweight (hthreshold.trans (not_lt.mp hnot))
  rw [add_mul] at hbound
  linarith

/-- Every round of the placement loop of `Build` prefers safe candidates. -/
def Scheduler.PrefersSafe (s : Scheduler) (rt : Runtime) (tests : List Test)
    (predictions : List Prediction) : Prop :=
  OnOk (newRiskIndex predictions) fun risk =>
    OnOk (intake rt.float64 0 tests [] PartialMap.empty) fun start =>
      ∀ visit ∈ (Context.mk s.parameters risk start.2 rt).trace start.1.length 0
          ⟨List.replicate s.workers.toNat ⟨[], 0⟩, start.1⟩,
        (Context.mk s.parameters risk start.2 rt).PrefersSafe visit.1 visit.2

instance (s : Scheduler) (rt : Runtime) (tests : List Test) (predictions : List Prediction) :
    Decidable (s.PrefersSafe rt tests predictions) :=
  inferInstanceAs (Decidable (OnOk _ _))

/-- In every round with a safe candidate the penalty decides. -/
def Scheduler.PenaltiesDecide (s : Scheduler) (rt : Runtime) (tests : List Test)
    (predictions : List Prediction) : Prop :=
  OnOk (newRiskIndex predictions) fun risk =>
    OnOk (intake rt.float64 0 tests [] PartialMap.empty) fun start =>
      ∀ visit ∈ (Context.mk s.parameters risk start.2 rt).trace start.1.length 0
          ⟨List.replicate s.workers.toNat ⟨[], 0⟩, start.1⟩,
        (∃ c ∈ (Context.mk s.parameters risk start.2 rt).candidates visit.1 visit.2.remaining,
            (Context.mk s.parameters risk start.2 rt).Safe visit.2 c) →
          (Context.mk s.parameters risk start.2 rt).PenaltyDecides visit.1 visit.2

/-- `Build` prefers safe candidates throughout if and only if the penalty always decides. -/
theorem Scheduler.prefersSafe_iff_penaltiesDecide (s : Scheduler) (rt : Runtime)
    (tests : List Test) (predictions : List Prediction) :
    s.PrefersSafe rt tests predictions ↔ s.PenaltiesDecide rt tests predictions := by
  refine forall₂_congr fun risk _ => forall₂_congr fun start _ => forall₂_congr fun visit _ => ?_
  exact forall_congr' chosen_safe_iff

/-- Two workers under the safe policy, as `New` makes them. -/
def Scheduler.safePair : Scheduler := ⟨2, .safe, 0, parametersFor .safe⟩

/-- **The penalty is outweighed.** Beside `a` the candidate `b` has risk 1/2, under the
threshold, and bids 3250; `c` has risk 1, bids 7, and wins in spite of the penalty. -/
theorem not_prefersSafe_long :
    Scheduler.new 2 .safe 0 = .ok .safePair ∧ Scheduler.safePair.Admitted ∧
      (∀ t ∈ [Test.lasting "a" 2000, .lasting "b" 1000, .lasting "c" 1], t.validate = .ok ()) ∧
      ([Test.lasting "a" 2000, .lasting "b" 1000, .lasting "c" 1].map Test.id).Nodup ∧
      (∀ p ∈ [{ Prediction.certain "a" "b" with probability := 1 / 2 }, .certain "a" "c"],
        p.normalize = .ok p) ∧
      ¬ Scheduler.safePair.PrefersSafe .reference
        [.lasting "a" 2000, .lasting "b" 1000, .lasting "c" 1]
        [{ Prediction.certain "a" "b" with probability := 1 / 2 }, .certain "a" "c"] := by
  refine ⟨?_, ?_, ?_, ?_, ?_, ?_⟩ <;> decide +kernel

end ConflictGraph.Go
