import ConflictGraph.Loop
import ConflictGraph.Outcome
import ConflictGraph.GoConfig
import ConflictGraph.GoPlacement

/-!
# Refinement

A round of `refine` tries every swap of two neighbours on a lane. A swap goes
together with a `reflow`, which packs the lane back to back from time zero, and a
rejected swap is taken back by swapping and reflowing once more. Both keep the
lanes sound and the jobs on them.

What the way back does not keep is idle time. A lane that the hard-threshold guard
left with a gap comes out packed, whatever the verdict on the swap: taking a swap
back is exactly `closeGaps`. The objective can rise there, and the running baseline
does not notice. Where no lane has a gap there is nothing to close, and refinement
never worsens a plan.
-/

namespace ConflictGraph.Go

/-! ## Reflow -/

/-- A scheduled test without the fields that `reflow` writes. -/
def ScheduledTest.untimed (t : ScheduledTest) : ScheduledTest :=
  { t with worker := 0, estimatedStart := 0, estimatedEnd := 0 }

/-- `reflow` rewrites the worker and the times, and nothing else. -/
theorem reflowFrom_untimed (worker : ℤ) (tests : List ScheduledTest) :
    ∀ cursor : ℚ, (reflowFrom worker cursor tests).1.map ScheduledTest.untimed =
      tests.map ScheduledTest.untimed := by
  induction tests with
  | nil => exact fun _ => rfl
  | cons t rest ih =>
    intro cursor
    rw [reflowFrom, List.map_cons, List.map_cons, ih]
    rfl

/-- `reflow` does not look at the fields it writes. -/
theorem reflowFrom_congr (worker : ℤ) {tests : List ScheduledTest} :
    ∀ {tests' : List ScheduledTest} (cursor : ℚ),
      tests.map ScheduledTest.untimed = tests'.map ScheduledTest.untimed →
      reflowFrom worker cursor tests = reflowFrom worker cursor tests' := by
  induction tests with
  | nil =>
    intro tests' cursor h
    rw [List.map_nil, eq_comm, List.map_eq_nil_iff] at h
    rw [h]
  | cons t rest ih =>
    intro tests' cursor h
    rcases tests' with _ | ⟨t', rest'⟩
    · cases h
    · rw [List.map_cons, List.map_cons, List.cons.injEq] at h
      obtain ⟨hhead, htail⟩ := h
      obtain ⟨hid, hnode, hdur, hcost, hreasons⟩ :
          t.testID = t'.testID ∧ t.nodeID = t'.nodeID ∧
            t.estimatedDuration = t'.estimatedDuration ∧ t.riskCost = t'.riskCost ∧
            t.reasons = t'.reasons := by
        simpa [ScheduledTest.untimed] using hhead
      rw [reflowFrom, reflowFrom, ih _ htail, hid, hnode, hdur, hcost, hreasons]

/-- What `reflow` makes of tests with positive durations, from any cursor on. -/
theorem reflowFrom_spec (worker : ℤ) {tests : List ScheduledTest} :
    ∀ cursor : ℚ, (∀ t ∈ tests, 0 < t.estimatedDuration) →
      (∀ t ∈ (reflowFrom worker cursor tests).1, t.worker = worker ∧
        t.estimatedEnd = t.estimatedStart + t.estimatedDuration ∧
        cursor ≤ t.estimatedStart ∧ 0 < t.estimatedDuration) ∧
      Chained ScheduledTest.estimatedStart ScheduledTest.estimatedEnd
        (reflowFrom worker cursor tests).1 ∧
      (reflowFrom worker cursor tests).2 =
        lastStop ScheduledTest.estimatedEnd cursor (reflowFrom worker cursor tests).1 := by
  induction tests with
  | nil => exact fun _ _ => ⟨nofun, chained_nil, rfl⟩
  | cons t rest ih =>
    intro cursor hpos
    rw [List.forall_mem_cons] at hpos
    obtain ⟨hall, hchain, hlast⟩ := ih (cursor + t.estimatedDuration) hpos.2
    rw [reflowFrom]
    refine ⟨List.forall_mem_cons.mpr ⟨⟨rfl, rfl, le_refl cursor, hpos.1⟩, fun u hu => ?_⟩,
      chained_cons.mpr ⟨fun u hu => (hall u hu).2.2.1, hchain⟩, ?_⟩
    · obtain ⟨hworker, hend, hstart, hdur⟩ := hall u hu
      exact ⟨hworker, hend, (le_add_of_nonneg_right hpos.1.le).trans hstart, hdur⟩
    · rw [lastStop_cons]
      exact hlast

/-- A reflowed lane is sound. -/
theorem reflow_sound {lane : Lane} (worker : ℕ) (hpos : ∀ t ∈ lane.tests, 0 < t.estimatedDuration) :
    (reflow lane worker).Sound worker := by
  obtain ⟨hall, hchain, hlast⟩ := reflowFrom_spec worker 0 hpos
  exact ⟨fun t ht => (hall t ht).1, fun t ht => (hall t ht).2.1, fun t ht => (hall t ht).2.2.1,
    fun t ht => (hall t ht).2.2.2, hchain, hlast⟩

theorem reflow_untimed (lane : Lane) (worker : ℕ) :
    (reflow lane worker).tests.map ScheduledTest.untimed =
      lane.tests.map ScheduledTest.untimed :=
  reflowFrom_untimed ..

/-- `reflow` keeps the jobs. -/
theorem reflow_jobs (lane : Lane) (worker : ℕ) :
    (reflow lane worker).tests.map ScheduledTest.job = lane.tests.map ScheduledTest.job := by
  have h := congrArg (List.map ScheduledTest.job) (reflow_untimed lane worker)
  rwa [List.map_map, List.map_map] at h

theorem reflow_congr {lane lane' : Lane} (worker : ℕ)
    (h : lane.tests.map ScheduledTest.untimed = lane'.tests.map ScheduledTest.untimed) :
    reflow lane worker = reflow lane' worker := by
  rw [reflow, reflow, reflowFrom_congr worker 0 h]

/-! ## Swaps -/

theorem swapAdjacent_perm (tests : List ScheduledTest) :
    ∀ i, (swapAdjacent i tests).Perm tests := by
  induction tests with
  | nil => exact fun i => by cases i <;> exact List.Perm.refl _
  | cons t rest ih =>
    intro i
    rcases i with _ | i
    · rcases rest with _ | ⟨u, rest⟩
      · exact List.Perm.refl _
      · exact List.Perm.swap ..
    · exact (ih i).cons t

/-- Swapping twice does nothing. -/
theorem swapAdjacent_swapAdjacent (tests : List ScheduledTest) :
    ∀ i, swapAdjacent i (swapAdjacent i tests) = tests := by
  induction tests with
  | nil => exact fun i => by cases i <;> rfl
  | cons t rest ih =>
    intro i
    rcases i with _ | i
    · rcases rest with _ | ⟨u, rest⟩ <;> rfl
    · exact congrArg (t :: ·) (ih i)

theorem map_swapAdjacent (f : ScheduledTest → ScheduledTest) (tests : List ScheduledTest) :
    ∀ i, (swapAdjacent i tests).map f = swapAdjacent i (tests.map f) := by
  induction tests with
  | nil => exact fun i => by cases i <;> rfl
  | cons t rest ih =>
    intro i
    rcases i with _ | i
    · rcases rest with _ | ⟨u, rest⟩ <;> rfl
    · exact congrArg (f t :: ·) (ih i)

/-- Pack one lane back to back. -/
def closeGaps (lanes : List Lane) (worker : ℕ) : List Lane :=
  lanes.modify worker fun lane => reflow lane worker

/-- **Taking a swap back** packs the lane: the order is restored, idle time is not. -/
theorem swapAndReflow_swapAndReflow (lanes : List Lane) (worker i : ℕ) :
    swapAndReflow (swapAndReflow lanes worker i) worker i = closeGaps lanes worker := by
  rw [swapAndReflow, swapAndReflow, List.modify_modify_eq, closeGaps]
  refine congrArg (lanes.modify worker) (funext fun lane => reflow_congr worker ?_)
  change (swapAdjacent i (reflow { lane with tests := swapAdjacent i lane.tests } worker).tests).map
    ScheduledTest.untimed = lane.tests.map ScheduledTest.untimed
  rw [map_swapAdjacent, reflow_untimed, ← map_swapAdjacent, swapAdjacent_swapAdjacent]

/-! ## Lanes without idle time -/

/-- The tests follow one another without idle time, the first from `cursor` on. -/
def PackedFrom : ℚ → List ScheduledTest → Prop
  | _, [] => True
  | cursor, t :: rest => t.estimatedStart = cursor ∧ PackedFrom t.estimatedEnd rest

instance PackedFrom.decidable : ∀ (cursor : ℚ) (tests : List ScheduledTest),
    Decidable (PackedFrom cursor tests)
  | _, [] => isTrue trivial
  | cursor, t :: rest =>
    have := PackedFrom.decidable t.estimatedEnd rest
    inferInstanceAs (Decidable (t.estimatedStart = cursor ∧ PackedFrom t.estimatedEnd rest))

theorem packedFrom_reflowFrom (worker : ℤ) (tests : List ScheduledTest) :
    ∀ cursor : ℚ, PackedFrom cursor (reflowFrom worker cursor tests).1 := by
  induction tests with
  | nil => exact fun _ => trivial
  | cons t rest ih => exact fun cursor => ⟨rfl, ih (cursor + t.estimatedDuration)⟩

/-- Reflowing tests that leave nothing idle changes nothing. -/
theorem reflowFrom_eq_self {worker : ℤ} {tests : List ScheduledTest}
    (hworker : ∀ t ∈ tests, t.worker = worker)
    (hend : ∀ t ∈ tests, t.estimatedEnd = t.estimatedStart + t.estimatedDuration) :
    ∀ cursor : ℚ, PackedFrom cursor tests →
      reflowFrom worker cursor tests =
        (tests, lastStop ScheduledTest.estimatedEnd cursor tests) := by
  induction tests with
  | nil => exact fun _ _ => rfl
  | cons t rest ih =>
    rintro cursor ⟨rfl, hrest⟩
    rw [List.forall_mem_cons] at hworker hend
    rw [reflowFrom, ← hend.1, ih hworker.2 hend.2 _ hrest, lastStop_cons, ← hworker.1]

/-- A packed lane is left as it is. -/
theorem Lane.Sound.reflow_eq_self {worker : ℕ} {lane : Lane} (h : lane.Sound worker)
    (hpacked : PackedFrom 0 lane.tests) : reflow lane worker = lane := by
  rw [reflow, reflowFrom_eq_self h.worker_eq h.end_eq 0 hpacked, ← h.endAt_eq]

/-- **A swap on a lane without idle time is taken back whole.** -/
theorem closeGaps_eq_self {lanes : List Lane} (h : LanesSound lanes) {worker : ℕ}
    (hpacked : ∀ lane ∈ lanes[worker]?, PackedFrom 0 lane.tests) :
    closeGaps lanes worker = lanes := by
  rcases hlane : lanes[worker]? with _ | lane
  · exact List.modify_eq_self (List.getElem?_eq_none_iff.mp hlane)
  · refine List.ext_getElem? fun i => ?_
    by_cases hne : worker = i
    · rw [closeGaps, ← hne, List.getElem?_modify_eq, hlane]
      exact congrArg some ((h worker lane hlane).reflow_eq_self (hpacked lane hlane))
    · rw [closeGaps, List.getElem?_modify_ne _ _ hne]

/-- A swap leaves no idle time where there was none. -/
theorem packed_swapAndReflow {lanes : List Lane} (h : ∀ lane ∈ lanes, PackedFrom 0 lane.tests)
    (worker i : ℕ) : ∀ lane ∈ swapAndReflow lanes worker i, PackedFrom 0 lane.tests := by
  intro lane hlane
  obtain ⟨j, hj⟩ := List.mem_iff_getElem?.mp hlane
  by_cases hne : j = worker
  · rw [swapAndReflow, hne, List.getElem?_modify_eq] at hj
    obtain ⟨before, -, rfl⟩ := Option.map_eq_some_iff.mp hj
    exact packedFrom_reflowFrom worker _ 0
  · rw [swapAndReflow, List.getElem?_modify_ne _ _ (Ne.symm hne)] at hj
    exact h lane (List.mem_of_getElem? hj)

/-! ## What refinement keeps -/

/-- The lanes are sound and run exactly the given jobs. -/
structure Implements (jobs : List Job) (lanes : List Lane) : Prop where
  sound : LanesSound lanes
  jobs_perm : ((lanes.flatMap Lane.tests).map ScheduledTest.job).Perm jobs

/-- The lanes still implement the jobs. -/
theorem Implements.swapAndReflow {jobs : List Job} {lanes : List Lane} (h : Implements jobs lanes)
    (worker i : ℕ) : Implements jobs (swapAndReflow lanes worker i) := by
  by_cases hlt : worker < lanes.length
  · obtain ⟨before, lane, after, hsplit, hlen, hmodify⟩ := List.exists_of_modify
      (fun lane : Lane => reflow { lane with tests := swapAdjacent i lane.tests } worker) hlt
    have hlane : lanes[worker]? = some lane := by
      rw [hsplit, List.getElem?_append_right (by omega), ← hlen, Nat.sub_self]
      rfl
    have hswap := swapAdjacent_perm lane.tests i
    refine ⟨fun j lane' hj => ?_, ?_⟩
    · by_cases hne : j = worker
      · subst hne
        rw [Go.swapAndReflow, List.getElem?_modify_eq, hlane] at hj
        rw [← Option.some.inj hj]
        exact reflow_sound j fun t ht => (h.sound j lane hlane).duration_pos t (hswap.subset ht)
      · rw [Go.swapAndReflow, List.getElem?_modify_ne _ _ (Ne.symm hne)] at hj
        exact h.sound j lane' hj
    · refine List.Perm.trans ?_ h.jobs_perm
      rw [Go.swapAndReflow, hmodify, hsplit]
      simp only [List.flatMap_append, List.flatMap_cons, List.map_append, reflow_jobs]
      exact (((hswap.map _).append_right _)).append_left _
  · rw [Go.swapAndReflow, List.modify_eq_self (not_lt.mp hlt)]
    exact h

@[simp] theorem length_swapAndReflow (lanes : List Lane) (worker i : ℕ) :
    (swapAndReflow lanes worker i).length = lanes.length :=
  List.length_modify ..

section Invariant

variable {risk : RiskIndex} {weight : ℚ}

/-- Whatever every swap keeps, a trial keeps. -/
theorem trySwap_lanes {I : List Lane → Prop}
    (hswap : ∀ lanes worker i, I lanes → I (swapAndReflow lanes worker i)) (worker : ℕ)
    (s : RefineState) (i : ℕ) (h : I s.lanes) : I (trySwap risk weight worker s i).lanes := by
  unfold trySwap
  dsimp only
  split
  · exact hswap _ _ _ h
  · exact hswap _ _ _ (hswap _ _ _ h)

/-- Whatever every swap keeps, the trials on one lane keep. -/
theorem refineLane_lanes {I : List Lane → Prop}
    (hswap : ∀ lanes worker i, I lanes → I (swapAndReflow lanes worker i))
    (s : RefineState) (worker : ℕ) (h : I s.lanes) :
    I (refineLane risk weight s worker).lanes := by
  unfold refineLane
  split
  · exact h
  · exact foldl_invariant (I := fun s : RefineState => I s.lanes) h
      fun t _ => trySwap_lanes hswap worker t.1 t.2

/-- Whatever every swap keeps, refinement keeps. -/
theorem refineRounds_lanes {I : List Lane → Prop}
    (hswap : ∀ lanes worker i, I lanes → I (swapAndReflow lanes worker i)) :
    ∀ (rounds : ℕ) (lanes : List Lane), I lanes → I (refineRounds risk weight rounds lanes) := by
  have hround : ∀ lanes, I lanes → I (refine lanes risk weight).1 := fun lanes h =>
    foldl_invariant (I := fun s : RefineState => I s.lanes) h
      fun t _ => refineLane_lanes hswap t.1 t.2
  intro rounds
  induction rounds with
  | zero => exact fun _ h => h
  | succ rounds ih =>
    intro lanes h
    rw [refineRounds]
    split
    · exact ih _ (hround lanes h)
    · exact hround lanes h

end Invariant

/-- Refinement keeps the lanes sound and their jobs. -/
theorem Implements.refineLanes {jobs : List Job} {lanes : List Lane} (h : Implements jobs lanes)
    (s : Scheduler) (risk : RiskIndex) (tests : List Test) :
    Implements jobs (s.refineLanes risk tests lanes) := by
  unfold Scheduler.refineLanes
  split
  · exact refineRounds_lanes (fun _ worker i h => h.swapAndReflow worker i) _ _ h
  · exact h

theorem length_refineLanes (s : Scheduler) (risk : RiskIndex) (tests : List Test)
    (lanes : List Lane) : (s.refineLanes risk tests lanes).length = lanes.length := by
  unfold Scheduler.refineLanes
  split
  · exact refineRounds_lanes (I := fun l => l.length = lanes.length)
      (fun l worker i h => (length_swapAndReflow l worker i).trans h) _ _ rfl
  · rfl

/-! ## The objective -/

/-- A swap that refinement tries: the state it is tried in, the worker, the position. -/
structure Trial : Type where
  state : RefineState
  worker : ℕ
  position : ℕ

/-- The swaps that one call of `refine` tries, in order. -/
def refineTrials (risk : RiskIndex) (weight : ℚ) (lanes : List Lane) : List Trial :=
  (foldTrace (refineLane risk weight) ⟨lanes, objective lanes risk weight, false⟩
    (List.range lanes.length)).flatMap fun visit =>
      match visit.1.lanes[visit.2]? with
      | none => []
      | some lane =>
        (foldTrace (trySwap risk weight visit.2) visit.1
          (List.range (lane.tests.length - 1))).map fun t => ⟨t.1, visit.2, t.2⟩

/-- The swaps that all rounds try. -/
def refineRoundsTrials (risk : RiskIndex) (weight : ℚ) : ℕ → List Lane → List Trial
  | 0, _ => []
  | rounds + 1, lanes =>
    if (refine lanes risk weight).2 then
      refineTrials risk weight lanes ++
        refineRoundsTrials risk weight rounds (refine lanes risk weight).1
    else refineTrials risk weight lanes

/-- The swaps that the refinement phase of `Build` tries on the placed lanes. -/
def Scheduler.trials (s : Scheduler) (risk : RiskIndex) (tests : List Test) (lanes : List Lane) :
    List Trial :=
  if tests.length ≤ 64 then
    refineRoundsTrials risk s.parameters.riskWeight s.parameters.refinementRounds lanes
  else []

section Trials

variable {risk : RiskIndex} {weight : ℚ}

/-- What every trial of one lane keeps. -/
theorem refineLane_of_trials {J : RefineState → Prop} {s : RefineState} {worker : ℕ} (h : J s)
    (hstep : ∀ lane, s.lanes[worker]? = some lane →
      ∀ t ∈ foldTrace (trySwap risk weight worker) s (List.range (lane.tests.length - 1)),
        J t.1 → J (trySwap risk weight worker t.1 t.2)) :
    J (refineLane risk weight s worker) := by
  unfold refineLane
  split
  · exact h
  · rename_i lane hlane
    exact foldl_invariant h (hstep lane hlane)

/-- The step rule of refinement: what every trial of a round keeps holds whenever a swap is
tried, and after the round. -/
theorem refine_of_trials {J : RefineState → Prop} {lanes : List Lane}
    (h : J ⟨lanes, objective lanes risk weight, false⟩)
    (hstep : ∀ t ∈ refineTrials risk weight lanes,
      J t.state → J (trySwap risk weight t.worker t.state t.position)) :
    (∀ t ∈ refineTrials risk weight lanes, J t.state) ∧
      J ((List.range lanes.length).foldl (refineLane risk weight)
        ⟨lanes, objective lanes risk weight, false⟩) := by
  have hlane : ∀ visit ∈ foldTrace (refineLane risk weight)
      ⟨lanes, objective lanes risk weight, false⟩ (List.range lanes.length),
      ∀ lane, visit.1.lanes[visit.2]? = some lane →
        ∀ t ∈ foldTrace (trySwap risk weight visit.2) visit.1
          (List.range (lane.tests.length - 1)), J t.1 → J (trySwap risk weight visit.2 t.1 t.2) := by
    intro visit hvisit lane hlane t ht
    refine hstep ⟨t.1, visit.2, t.2⟩ (List.mem_flatMap.mpr ⟨visit, hvisit, ?_⟩)
    rw [hlane]
    exact List.mem_map.mpr ⟨t, ht, rfl⟩
  refine ⟨fun t ht => ?_, foldl_invariant h fun visit hvisit hJ =>
    refineLane_of_trials hJ (hlane visit hvisit)⟩
  obtain ⟨visit, hvisit, hmem⟩ := List.mem_flatMap.mp ht
  have hvisited := foldTrace_invariant h
    (fun visit hvisit hJ => refineLane_of_trials hJ (hlane visit hvisit)) visit hvisit
  rcases hat : visit.1.lanes[visit.2]? with _ | lane
  · rw [hat] at hmem
    cases hmem
  · rw [hat] at hmem
    obtain ⟨tried, htried, rfl⟩ := List.mem_map.mp hmem
    exact foldTrace_invariant hvisited (hlane visit hvisit lane hat) tried htried

end Trials

/-- The trial is kept, or packing its lane does not lift the objective above the
running baseline. -/
def Trial.UndoHarmless (risk : RiskIndex) (weight : ℚ) (t : Trial) : Prop :=
  objective (swapAndReflow t.state.lanes t.worker t.position) risk weight + 1 / 1000000000 <
      t.state.baseline ∨
    objective (closeGaps t.state.lanes t.worker) risk weight ≤ t.state.baseline

section Objective

variable {risk : RiskIndex} {weight bound : ℚ}

/-- The running baseline bounds the objective, and is bounded itself. -/
structure RefineState.Below (risk : RiskIndex) (weight bound : ℚ) (s : RefineState) : Prop where
  objective_le : objective s.lanes risk weight ≤ s.baseline
  baseline_le : s.baseline ≤ bound

/-- The step lemma of refinement: a harmless trial keeps the baseline valid. -/
theorem RefineState.Below.trySwap {s : RefineState} {worker i : ℕ} (h : s.Below risk weight bound)
    (hundo : Trial.UndoHarmless risk weight ⟨s, worker, i⟩) :
    (trySwap risk weight worker s i).Below risk weight bound := by
  unfold Go.trySwap
  dsimp only
  split
  · rename_i hkept
    have hlt : objective (swapAndReflow s.lanes worker i) risk weight < s.baseline :=
      (lt_add_of_pos_right _ (by norm_num)).trans hkept
    exact ⟨le_refl _, hlt.le.trans h.baseline_le⟩
  · rename_i hrejected
    rw [swapAndReflow_swapAndReflow]
    exact ⟨hundo.resolve_left hrejected, h.baseline_le⟩

/-- One round of harmless trials keeps the objective under the bound. -/
theorem objective_refine_le {lanes : List Lane} (hbound : objective lanes risk weight ≤ bound)
    (hundo : ∀ t ∈ refineTrials risk weight lanes, t.UndoHarmless risk weight) :
    objective (refine lanes risk weight).1 risk weight ≤ bound := by
  have hround := (refine_of_trials (J := RefineState.Below risk weight bound)
    ⟨le_refl _, hbound⟩ fun t ht hbelow => hbelow.trySwap (hundo t ht)).2
  exact hround.objective_le.trans hround.baseline_le

/-- The run lemma of refinement. -/
theorem objective_refineRounds_le :
    ∀ (rounds : ℕ) (lanes : List Lane), objective lanes risk weight ≤ bound →
      (∀ t ∈ refineRoundsTrials risk weight rounds lanes, t.UndoHarmless risk weight) →
      objective (refineRounds risk weight rounds lanes) risk weight ≤ bound := by
  intro rounds
  induction rounds with
  | zero => exact fun _ h _ => h
  | succ rounds ih =>
    intro lanes hbound hundo
    rw [refineRoundsTrials] at hundo
    rw [refineRounds]
    split
    · rename_i hchanged
      rw [if_pos hchanged, List.forall_mem_append] at hundo
      exact ih _ (objective_refine_le hbound hundo.1) hundo.2
    · rename_i hsame
      rw [if_neg hsame] at hundo
      exact objective_refine_le hbound hundo

/-- The lanes run the jobs, and none has idle time. -/
structure PackedLanes (jobs : List Job) (lanes : List Lane) : Prop where
  implements : Implements jobs lanes
  packed : ∀ lane ∈ lanes, PackedFrom 0 lane.tests

variable {jobs : List Job}

/-- And stay packed. -/
theorem PackedLanes.swapAndReflow {lanes : List Lane} (h : PackedLanes jobs lanes)
    (worker i : ℕ) : PackedLanes jobs (swapAndReflow lanes worker i) :=
  ⟨h.implements.swapAndReflow worker i, packed_swapAndReflow h.packed worker i⟩

/-- A trial on packed lanes is harmless, whatever the verdict. -/
theorem PackedLanes.undoHarmless {t : Trial} (h : PackedLanes jobs t.state.lanes)
    (hbelow : t.state.Below risk weight bound) : t.UndoHarmless risk weight := by
  refine Or.inr ?_
  rw [closeGaps_eq_self h.implements.sound fun lane hlane =>
    h.packed lane (List.mem_of_getElem? hlane)]
  exact hbelow.objective_le

/-- **Without idle time every trial is harmless**, in every round: the swaps that are kept leave
no idle time either. -/
theorem PackedLanes.undosHarmless :
    ∀ (rounds : ℕ) {lanes : List Lane}, PackedLanes jobs lanes →
      ∀ t ∈ refineRoundsTrials risk weight rounds lanes, t.UndoHarmless risk weight := by
  have hround : ∀ {lanes : List Lane}, PackedLanes jobs lanes →
      (∀ t ∈ refineTrials risk weight lanes, t.UndoHarmless risk weight) ∧
        PackedLanes jobs (refine lanes risk weight).1 := by
    intro lanes h
    have htrials := refine_of_trials
      (J := fun s => PackedLanes jobs s.lanes ∧ s.Below risk weight (objective lanes risk weight))
      ⟨h, le_refl _, le_refl _⟩ fun t _ hstate =>
        ⟨trySwap_lanes (fun _ worker i h => h.swapAndReflow worker i) t.worker t.state t.position
          hstate.1, hstate.2.trySwap (hstate.1.undoHarmless hstate.2)⟩
    exact ⟨fun t ht => (htrials.1 t ht).1.undoHarmless (htrials.1 t ht).2, htrials.2.1⟩
  intro rounds
  induction rounds with
  | zero => exact fun _ => List.forall_mem_nil _
  | succ rounds ih =>
    intro lanes h
    obtain ⟨htrials, hafter⟩ := hround h
    rw [refineRoundsTrials]
    split
    · exact List.forall_mem_append.mpr ⟨htrials, ih hafter⟩
    · exact htrials

/-- So refinement does not worsen lanes without idle time. -/
theorem PackedLanes.objective_refineRounds_le (rounds : ℕ) {lanes : List Lane}
    (h : PackedLanes jobs lanes) :
    objective (refineRounds risk weight rounds lanes) risk weight ≤ objective lanes risk weight :=
  Go.objective_refineRounds_le rounds lanes (le_refl _) (h.undosHarmless rounds)

end Objective

/-! ## Refinement of a placed plan -/

instance (risk : RiskIndex) (weight : ℚ) (t : Trial) : Decidable (t.UndoHarmless risk weight) :=
  inferInstanceAs (Decidable (_ ∨ _))

/-- What holds of the risk index and the lanes with which refinement starts. -/
def Scheduler.OncePlaced (s : Scheduler) (rt : Runtime) (tests : List Test)
    (predictions : List Prediction) (P : RiskIndex → List Lane → Prop) : Prop :=
  OnOk (newRiskIndex predictions) fun risk => OnOk (s.place rt risk tests) (P risk)

instance (s : Scheduler) (rt : Runtime) (tests : List Test) (predictions : List Prediction)
    (P : RiskIndex → List Lane → Prop) [∀ risk placed, Decidable (P risk placed)] :
    Decidable (s.OncePlaced rt tests predictions P) :=
  inferInstanceAs (Decidable (OnOk _ _))

/-- Refinement does not worsen the plan that the placement loop made. -/
def Scheduler.RefinementNeverWorsens (s : Scheduler) (rt : Runtime) (tests : List Test)
    (predictions : List Prediction) : Prop :=
  s.OncePlaced rt tests predictions fun risk placed =>
    objective (s.refineLanes risk tests placed) risk s.parameters.riskWeight ≤
      objective placed risk s.parameters.riskWeight

instance (s : Scheduler) (rt : Runtime) (tests : List Test) (predictions : List Prediction) :
    Decidable (s.RefinementNeverWorsens rt tests predictions) :=
  inferInstanceAs (Decidable (s.OncePlaced rt tests predictions _))

/-- Every swap that is taken back leaves the objective at or under the baseline. -/
def Scheduler.UndosHarmless (s : Scheduler) (rt : Runtime) (tests : List Test)
    (predictions : List Prediction) : Prop :=
  s.OncePlaced rt tests predictions fun risk placed =>
    ∀ t ∈ s.trials risk tests placed, t.UndoHarmless risk s.parameters.riskWeight

instance (s : Scheduler) (rt : Runtime) (tests : List Test) (predictions : List Prediction) :
    Decidable (s.UndosHarmless rt tests predictions) :=
  inferInstanceAs (Decidable (s.OncePlaced rt tests predictions _))

/-- **Refinement never worsens a plan** whose rejected swaps are harmless to take
back. -/
theorem refinementNeverWorsens_of_undosHarmless {s : Scheduler} {rt : Runtime} {tests : List Test}
    {predictions : List Prediction} (h : s.UndosHarmless rt tests predictions) :
    s.RefinementNeverWorsens rt tests predictions := by
  refine h.imp fun risk _ hplaces => hplaces.imp fun placed _ hundo => ?_
  simp only [Scheduler.trials] at hundo
  simp only [Scheduler.refineLanes]
  by_cases hsmall : tests.length ≤ 64
  · simp only [if_pos hsmall] at hundo ⊢
    exact objective_refineRounds_le _ placed (le_refl _) hundo
  · simp only [if_neg hsmall, le_refl]

/-- A test that takes `duration` seconds. -/
def Test.lasting (id : String) (duration : ℚ) : Test :=
  { id := id, nodeID := id, durationEMA := duration, durationMedian := duration }

/-- A prediction that two tests conflict for sure. -/
def Prediction.certain (a b : String) : Prediction := { testA := a, testB := b, probability := 1 }

/-- The balanced policy on two workers, with its own parameters. -/
def Scheduler.balanced : Scheduler := ⟨2, .balanced, 0, parametersFor .balanced⟩

/-- Without idle time every swap can be taken back: here `c` follows `b` at once. -/
theorem refinementNeverWorsens_packed :
    Scheduler.balanced.UndosHarmless .reference
        [.lasting "a" 10, .lasting "b" 8, .lasting "c" 2]
        [{ Prediction.certain "a" "c" with probability := 1 / 2 }] ∧
      Scheduler.balanced.RefinementNeverWorsens .reference
        [.lasting "a" 10, .lasting "b" 8, .lasting "c" 2]
        [{ Prediction.certain "a" "c" with probability := 1 / 2 }] :=
  ⟨by decide +kernel, refinementNeverWorsens_of_undosHarmless (by decide +kernel)⟩

/-- **Refinement can worsen a plan.** `b` must wait for `a`, and `c` fills the second
worker meanwhile: the placement loop leaves `c` at 0 and `b` at 10, objective 18. The
swap of `c` and `b` is rejected, and taking it back packs `b` up to 1, beside `a`:
objective 26. -/
theorem refinement_worsens_gap :
    Scheduler.balanced.Admitted ∧
      (∀ t ∈ [Test.lasting "a" 10, .lasting "b" 8, .lasting "c" 1], t.validate = .ok ()) ∧
      ([Test.lasting "a" 10, .lasting "b" 8, .lasting "c" 1].map Test.id).Nodup ∧
      (∀ p ∈ [Prediction.certain "a" "b"], p.normalize = .ok p) ∧
      ¬ Scheduler.balanced.RefinementNeverWorsens .reference
        [.lasting "a" 10, .lasting "b" 8, .lasting "c" 1] [.certain "a" "b"] := by
  refine ⟨?_, ?_, ?_, ?_, ?_⟩ <;> decide +kernel

end ConflictGraph.Go
