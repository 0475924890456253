import ConflictGraph.PyPlan

/-!
# Taking back a swap in Python

`_refine` swaps two neighbours of a lane and reflows the lane, and where the objective did not
improve it swaps them back and reflows once more. The second reflow does not restore the times
that the lane had: it packs the tests back to back from time zero. So what the two steps amount
to is `closeGaps`, and a rejected swap leaves the lanes as they were exactly when the lane was
*packed* before. The placement loop packs its lanes, except where a test has to wait.
-/

namespace ConflictGraph.Py

/-! ## Reflow and swap -/

/-- A scheduled test without the fields that `_reflow_lane` writes. -/
def ScheduledTest.untimed (t : ScheduledTest) : ScheduledTest :=
  { t with worker := 0, estimatedStart := 0, estimatedEnd := 0 }

/-- `_reflow_lane` writes the worker and the times, and nothing else. -/
theorem map_untimed_reflowFrom (worker : ℤ) (lane : List ScheduledTest) :
    ∀ cursor : ℚ, (reflowFrom worker cursor lane).map ScheduledTest.untimed =
      lane.map ScheduledTest.untimed := by
  induction lane with
  | nil => exact fun _ => rfl
  | cons t rest ih =>
    intro cursor
    rw [reflowFrom, List.map_cons, List.map_cons, ih]
    rfl

/-- `_reflow_lane` does not read the fields it writes. -/
theorem reflowFrom_map_untimed (worker : ℤ) (lane : List ScheduledTest) :
    ∀ cursor : ℚ, reflowFrom worker cursor (lane.map ScheduledTest.untimed) =
      reflowFrom worker cursor lane := by
  induction lane with
  | nil => exact fun _ => rfl
  | cons t rest ih =>
    intro cursor
    rw [List.map_cons, reflowFrom, reflowFrom, ← ih]
    rfl

theorem swapAdjacent_swapAdjacent (lane : List ScheduledTest) :
    ∀ i, swapAdjacent i (swapAdjacent i lane) = lane := by
  induction lane with
  | nil => exact fun i => by cases i <;> rfl
  | cons t rest ih =>
    intro i
    rcases i with _ | i
    · rcases rest with _ | ⟨u, rest⟩ <;> rfl
    · exact congrArg (t :: ·) (ih i)

theorem map_swapAdjacent (f : ScheduledTest → ScheduledTest) (lane : List ScheduledTest) :
    ∀ i, (swapAdjacent i lane).map f = swapAdjacent i (lane.map f) := by
  induction lane with
  | nil => exact fun i => by cases i <;> rfl
  | cons t rest ih =>
    intro i
    rcases i with _ | i
    · rcases rest with _ | ⟨u, rest⟩ <;> rfl
    · exact congrArg (f t :: ·) (ih i)

/-- Swapping and reflowing twice restores the order, and packs. -/
theorem reflowLane_swapAdjacent_twice (lane : List ScheduledTest) (worker i : ℕ) :
    reflowLane (swapAdjacent i (reflowLane (swapAdjacent i lane) worker)) worker =
      reflowLane lane worker := by
  have huntimed : (swapAdjacent i (reflowLane (swapAdjacent i lane) worker)).map
      ScheduledTest.untimed = lane.map ScheduledTest.untimed := by
    rw [map_swapAdjacent, reflowLane, map_untimed_reflowFrom, ← map_swapAdjacent,
      swapAdjacent_swapAdjacent]
  rw [reflowLane, ← reflowFrom_map_untimed, huntimed, reflowFrom_map_untimed, reflowLane]

/-- Pack one lane back to back. -/
def closeGaps (lanes : List (List ScheduledTest)) (worker : ℕ) : List (List ScheduledTest) :=
  lanes.modify worker fun lane => reflowLane lane worker

/-- **Taking a swap back** packs the lane: the order is restored, idle time is not. -/
theorem swapAndReflow_twice (lanes : List (List ScheduledTest)) (worker i : ℕ) :
    swapAndReflow (swapAndReflow lanes worker i) worker i = closeGaps lanes worker := by
  rw [swapAndReflow, swapAndReflow, List.modify_modify_eq, closeGaps]
  exact congrArg (lanes.modify worker)
    (funext fun lane => reflowLane_swapAdjacent_twice lane worker i)

/-! ## Packed lanes -/

/-- The tests follow one another without idle time, the first from `cursor` on. -/
def PackedFrom : ℚ → List ScheduledTest → Prop
  | _, [] => True
  | cursor, t :: rest => t.estimatedStart = cursor ∧ PackedFrom t.estimatedEnd rest

instance PackedFrom.decidable : ∀ (cursor : ℚ) (lane : List ScheduledTest),
    Decidable (PackedFrom cursor lane)
  | _, [] => isTrue trivial
  | cursor, t :: rest =>
    have := PackedFrom.decidable t.estimatedEnd rest
    inferInstanceAs (Decidable (t.estimatedStart = cursor ∧ PackedFrom t.estimatedEnd rest))

/-- Reflowing changes nothing exactly where nothing is idle. -/
theorem reflowFrom_eq_self_iff {worker : ℤ} {lane : List ScheduledTest}
    (hworker : ∀ t ∈ lane, t.worker = worker)
    (hend : ∀ t ∈ lane, t.estimatedEnd = t.estimatedStart + t.estimatedDuration) :
    ∀ cursor : ℚ, reflowFrom worker cursor lane = lane ↔ PackedFrom cursor lane := by
  induction lane with
  | nil => exact fun _ => iff_of_true rfl trivial
  | cons t rest ih =>
    intro cursor
    rw [List.forall_mem_cons] at hworker hend
    rw [reflowFrom, PackedFrom, List.cons.injEq]
    refine ⟨?_, ?_⟩
    · rintro ⟨hhead, htail⟩
      have hstart : cursor = t.estimatedStart := congrArg ScheduledTest.estimatedStart hhead
      have hstop : cursor + t.estimatedDuration = t.estimatedEnd :=
        congrArg ScheduledTest.estimatedEnd hhead
      rw [hstop, ih hworker.2 hend.2] at htail
      exact ⟨hstart.symm, htail⟩
    · rintro ⟨rfl, htail⟩
      refine ⟨?_, ?_⟩
      · rw [← hend.1, ← hworker.1]
      · rw [← hend.1, ih hworker.2 hend.2]
        exact htail

theorem packedFrom_reflowFrom (worker : ℤ) (lane : List ScheduledTest) :
    ∀ cursor : ℚ, PackedFrom cursor (reflowFrom worker cursor lane) := by
  induction lane with
  | nil => exact fun _ => trivial
  | cons t rest ih => exact fun cursor => ⟨rfl, ih (cursor + t.estimatedDuration)⟩

/-- A swap leaves no idle time where there was none. -/
theorem packed_swapAndReflow {lanes : List (List ScheduledTest)}
    (h : ∀ lane ∈ lanes, PackedFrom 0 lane) (worker i : ℕ) :
    ∀ lane ∈ swapAndReflow lanes worker i, PackedFrom 0 lane := by
  intro lane hlane
  obtain ⟨j, hj⟩ := List.mem_iff_getElem?.mp hlane
  by_cases hne : j = worker
  · rw [swapAndReflow, hne, List.getElem?_modify_eq] at hj
    obtain ⟨before, -, rfl⟩ := Option.map_eq_some_iff.mp hj
    exact packedFrom_reflowFrom worker _ 0
  · rw [swapAndReflow, List.getElem?_modify_ne _ _ (Ne.symm hne)] at hj
    exact h lane (List.mem_of_getElem? hj)

theorem closeGaps_eq_self_iff {lanes : List (List ScheduledTest)} (h : Sound lanes) (worker : ℕ) :
    closeGaps lanes worker = lanes ↔
      ∀ lane, lanes[worker]? = some lane → PackedFrom 0 lane := by
  rcases hlane : lanes[worker]? with _ | lane
  · rw [closeGaps, List.modify_eq_self (List.getElem?_eq_none_iff.mp hlane)]
    exact iff_of_true rfl fun _ hnone => absurd hnone.symm (Option.some_ne_none _)
  · have hsound := h worker lane hlane
    have hpacked := reflowFrom_eq_self_iff hsound.worker_eq hsound.stop_eq 0
    have hmodified : (closeGaps lanes worker)[worker]? = some (reflowLane lane worker) := by
      rw [closeGaps, List.getElem?_modify_eq, hlane]
      rfl
    refine ⟨fun hsame lane' hlane' => ?_, fun hall => ?_⟩
    · rw [hsame, hlane] at hmodified
      rw [← Option.some.inj hlane']
      exact hpacked.mp (Option.some.inj hmodified).symm
    · refine List.ext_getElem? fun i => ?_
      by_cases hi : i = worker
      · rw [hi, hmodified, hlane, reflowLane, hpacked.mpr (hall lane rfl)]
      · rw [closeGaps, List.getElem?_modify_ne _ _ (Ne.symm hi)]

/-! ## The swaps that are tried -/

/-- A swap that `_refine` tries: the state it is tried in, the lane, the position. -/
structure Trial : Type where
  state : RefineState
  worker : ℕ
  position : ℕ

/-- `_refine` keeps the swap. -/
def Trial.Accepted (risk : RiskIndex) (weight : ℚ) (t : Trial) : Prop :=
  objective (swapAndReflow t.state.lanes t.worker t.position).flatten risk weight +
    1 / 1000000000 < t.state.baseline

instance (risk : RiskIndex) (weight : ℚ) (t : Trial) : Decidable (t.Accepted risk weight) :=
  inferInstanceAs (Decidable (_ < _))

/-- The lanes after the trial, its undo included. -/
def Trial.lanesAfter (risk : RiskIndex) (weight : ℚ) (t : Trial) : List (List ScheduledTest) :=
  (trySwap risk weight t.worker t.state t.position).lanes

/-- The lane that the trial touches has no idle time. -/
def Trial.Packed (t : Trial) : Prop := PackedFrom 0 (t.state.lanes.getD t.worker [])

instance (t : Trial) : Decidable t.Packed :=
  inferInstanceAs (Decidable (PackedFrom _ _))

/-- **A rejected swap is undone exactly on a packed lane.** -/
theorem Trial.lanesAfter_eq_iff {risk : RiskIndex} {weight : ℚ} {t : Trial}
    (h : Sound t.state.lanes) (hrejected : ¬ t.Accepted risk weight) :
    t.lanesAfter risk weight = t.state.lanes ↔ t.Packed := by
  have hundone : t.lanesAfter risk weight = closeGaps t.state.lanes t.worker := by
    rw [Trial.lanesAfter, trySwap, ← swapAndReflow_twice _ _ t.position]
    exact congrArg RefineState.lanes (if_neg hrejected)
  rw [hundone, closeGaps_eq_self_iff h, Trial.Packed, List.getD_eq_getElem?_getD]
  rcases t.state.lanes[t.worker]? with _ | lane
  · exact iff_of_true (fun _ hnone => absurd hnone.symm (Option.some_ne_none _)) trivial
  · exact ⟨fun hall => hall lane rfl, fun hpacked lane' heq => Option.some.inj heq ▸ hpacked⟩

/-- The swaps that one round of `_refine` tries, in order. -/
def refineTrials (risk : RiskIndex) (weight : ℚ) (lanes : List (List ScheduledTest)) :
    List Trial :=
  (foldTrace (refineLane risk weight) ⟨lanes, objective lanes.flatten risk weight, false⟩
    (List.range lanes.length)).flatMap fun visit =>
      (foldTrace (trySwap risk weight visit.2) visit.1
        (List.range ((visit.1.lanes.getD visit.2 []).length - 1))).map fun t => ⟨t.1, visit.2, t.2⟩

/-- The swaps that all rounds try. -/
def refineRoundsTrials (risk : RiskIndex) (weight : ℚ) :
    ℕ → List (List ScheduledTest) → List Trial
  | 0, _ => []
  | rounds + 1, lanes =>
    if (refineRound lanes risk weight).2 then
      refineTrials risk weight lanes ++
        refineRoundsTrials risk weight rounds (refineRound lanes risk weight).1
    else refineTrials risk weight lanes

/-- The swaps that the refinement phase of `static_schedule` tries on the placed lanes. -/
def ConflictScheduler.trials (s : ConflictScheduler) (risk : RiskIndex)
    (tests : List TestIdentity) (lanes : List (List ScheduledTest)) : List Trial :=
  if tests.length ≤ 64 then
    refineRoundsTrials risk s.params.riskWeight s.refinementRounds.toNat lanes
  else []

section Invariant

variable {risk : RiskIndex} {weight : ℚ} {I : List (List ScheduledTest) → Prop}
  (hswap : ∀ lanes worker i, I lanes → I (swapAndReflow lanes worker i))

include hswap

theorem refineTrials_lanes {lanes : List (List ScheduledTest)} (h : I lanes) :
    ∀ t ∈ refineTrials risk weight lanes, I t.state.lanes := by
  intro t ht
  obtain ⟨visit, hvisit, hmem⟩ := List.mem_flatMap.mp ht
  obtain ⟨tried, htried, rfl⟩ := List.mem_map.mp hmem
  have hround : I visit.1.lanes :=
    foldTrace_invariant (I := fun s : RefineState => I s.lanes) h
      (fun t _ => refineLane_lanes hswap t.1 t.2) visit hvisit
  exact foldTrace_invariant (I := fun s : RefineState => I s.lanes) hround
    (fun t _ => trySwap_lanes hswap visit.2 t.1 t.2) tried htried

/-- Whatever every swap keeps, holds of the lanes whenever `_refine` tries one. -/
theorem refineRoundsTrials_lanes : ∀ (rounds : ℕ) (lanes : List (List ScheduledTest)), I lanes →
    ∀ t ∈ refineRoundsTrials risk weight rounds lanes, I t.state.lanes := by
  intro rounds
  induction rounds with
  | zero => exact fun _ _ => List.forall_mem_nil _
  | succ rounds ih =>
    intro lanes h
    rw [refineRoundsTrials]
    split
    · rw [List.forall_mem_append]
      exact ⟨refineTrials_lanes hswap h, ih _ (refineRound_lanes hswap h)⟩
    · exact refineTrials_lanes hswap h

end Invariant

/-! ## Taking back -/

/-- What holds of the lanes that `static_schedule` hands to `_refine`. -/
def ConflictScheduler.OncePlaced (s : ConflictScheduler) (rt : Runtime)
    (tests : List TestIdentity) (stats : PartialMap String TestStats)
    (predictions : List PairPrediction) (P : List (List ScheduledTest) → Prop) : Prop :=
  OnOk ((s.start rt tests stats predictions).1.placeAll
    (s.start rt tests stats predictions).2.remaining.length
    (s.start rt tests stats predictions).2) fun placed => P placed.lanes

instance (s : ConflictScheduler) (rt : Runtime) (tests : List TestIdentity)
    (stats : PartialMap String TestStats) (predictions : List PairPrediction)
    (P : List (List ScheduledTest) → Prop) [∀ lanes, Decidable (P lanes)] :
    Decidable (s.OncePlaced rt tests stats predictions P) :=
  inferInstanceAs (Decidable (OnOk _ _))

/-- After every swap that is not accepted, the lanes are as they were before it. -/
def ConflictScheduler.UndoesRejected (s : ConflictScheduler) (rt : Runtime)
    (tests : List TestIdentity) (stats : PartialMap String TestStats)
    (predictions : List PairPrediction) : Prop :=
  s.OncePlaced rt tests stats predictions fun lanes =>
    ∀ t ∈ s.trials (RiskIndex.new predictions) tests lanes,
      ¬ t.Accepted (RiskIndex.new predictions) s.params.riskWeight →
        t.lanesAfter (RiskIndex.new predictions) s.params.riskWeight = t.state.lanes

instance (s : ConflictScheduler) (rt : Runtime) (tests : List TestIdentity)
    (stats : PartialMap String TestStats) (predictions : List PairPrediction) :
    Decidable (s.UndoesRejected rt tests stats predictions) :=
  inferInstanceAs (Decidable (s.OncePlaced rt tests stats predictions _))

/-- The lanes are sound whenever a swap is tried. -/
theorem ConflictScheduler.sound_trials (s : ConflictScheduler) (rt : Runtime)
    (tests : List TestIdentity) (stats : PartialMap String TestStats)
    (predictions : List PairPrediction) :
    s.OncePlaced rt tests stats predictions fun lanes =>
      ∀ t ∈ s.trials (RiskIndex.new predictions) tests lanes, Sound t.state.lanes := by
  intro placed hplaced
  have hinv := (s.start_inv rt tests stats predictions).of_placeAll (durationOf_pos stats) _ hplaced
  have himpl : Implements (durationOf stats) (placed.lanes.flatten.map ScheduledTest.testID)
      placed.lanes := ⟨hinv.sound, hinv.duration_eq, List.Perm.refl _⟩
  dsimp only [ConflictScheduler.trials]
  split
  · exact fun t ht => (refineRoundsTrials_lanes (fun _ worker i h => h.swapAndReflow worker i) _ _
      himpl t ht).sound
  · exact List.forall_mem_nil _

/-- Where no test had to wait, every rejected swap is undone. -/
theorem ConflictScheduler.undoesRejected_of_packed {s : ConflictScheduler} {rt : Runtime}
    {tests : List TestIdentity} {stats : PartialMap String TestStats}
    {predictions : List PairPrediction}
    (h : s.OncePlaced rt tests stats predictions fun lanes => ∀ lane ∈ lanes, PackedFrom 0 lane) :
    s.UndoesRejected rt tests stats predictions := by
  intro placed hplaced t ht hrejected
  have hsound := s.sound_trials rt tests stats predictions placed hplaced t ht
  refine (Trial.lanesAfter_eq_iff hsound hrejected).mpr ?_
  have hpacked : ∀ lane ∈ t.state.lanes, PackedFrom 0 lane := by
    dsimp only [ConflictScheduler.trials] at ht
    split at ht
    · exact refineRoundsTrials_lanes (I := fun lanes => ∀ lane ∈ lanes, PackedFrom 0 lane)
        (fun _ worker i h => packed_swapAndReflow h worker i) _ _ (h placed hplaced) t ht
    · exact absurd ht List.not_mem_nil
  rw [Trial.Packed, List.getD_eq_getElem?_getD]
  rcases hlane : t.state.lanes[t.worker]? with _ | lane
  · exact trivial
  · exact hpacked lane (List.mem_of_getElem? hlane)

/-- **Undo, exactly.** Of the swaps that `_refine` tries on the lanes of `static_schedule`, one
that is rejected is undone completely if and only if the lane it touches has no idle time. -/
theorem ConflictScheduler.undone_iff_packed (s : ConflictScheduler) (rt : Runtime)
    (tests : List TestIdentity) (stats : PartialMap String TestStats)
    (predictions : List PairPrediction) :
    s.OncePlaced rt tests stats predictions fun lanes =>
      ∀ t ∈ s.trials (RiskIndex.new predictions) tests lanes,
        (¬ t.Accepted (RiskIndex.new predictions) s.params.riskWeight →
            t.lanesAfter (RiskIndex.new predictions) s.params.riskWeight = t.state.lanes) ↔
          (t.Accepted (RiskIndex.new predictions) s.params.riskWeight ∨ t.Packed) := by
  refine (s.sound_trials rt tests stats predictions).imp fun placed _ hsound t ht => ?_
  by_cases haccepted : t.Accepted (RiskIndex.new predictions) s.params.riskWeight
  · exact iff_of_true (fun hrejected => absurd haccepted hrejected) (Or.inl haccepted)
  · rw [← Trial.lanesAfter_eq_iff (hsound t ht) haccepted]
    exact ⟨fun hundone => Or.inr (hundone haccepted),
      fun hpacked _ => hpacked.resolve_left haccepted⟩

/-- Two workers under the safe policy, with one round of refinement. -/
def ConflictScheduler.refined : ConflictScheduler := ⟨2, .safe, 42, policies .safe, 1⟩

/-- **An undo moves a test.** `b` conflicts with `a` on `[0, 10)`: it waits, and runs from 10 on
behind `c` on `[0, 1)`. The swap of `c` and `b` is rejected, and taking it back leaves `b` at 1. -/
theorem not_undoesRejected_gap :
    ConflictScheduler.new 2 .safe 42 none none 1 = .ok .refined ∧
      ([TestIdentity.named "a", .named "b", .named "c"].map TestIdentity.id).Nodup ∧
      ¬ ConflictScheduler.refined.UndoesRejected .reference
        [.named "a", .named "b", .named "c"] (statsOf [("a", 10), ("b", 8), ("c", 1)])
        [.new "a" "b" 1 "same port"] := by
  refine ⟨?_, ?_, ?_⟩ <;> decide +kernel

end ConflictGraph.Py
