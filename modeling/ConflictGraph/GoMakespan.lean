import ConflictGraph.ListScheduling
import ConflictGraph.GoDeterminism

/-!
# The makespan without predictions

With no predictions `Build` is list scheduling, longest test first. No placement is risky, so
the bias alone decides between the candidates and none is delayed; the longest remaining test
heads the candidates, so the lookahead never cuts it off; and swaps keep the ends of lanes
that have no gaps. So the plan ends within `4/3 - 1/(3m)` times the end of any other
assignment of the tests to the `m` workers.
-/

namespace ConflictGraph.Go

/-! ## Assignments -/

section Assignment

variable {m : ℕ}

/-- How long a worker is busy under an assignment of the tests. -/
def assignedLoad (tests : List Test) (assign : Test → Fin m) (worker : Fin m) : ℚ :=
  ((tests.filter fun t => assign t = worker).map fun t => t.job.duration).sum

/-- The makespan of an assignment: the longest that a worker is busy. -/
def assignmentMakespan (tests : List Test) (assign : Test → Fin m) : ℚ :=
  (List.finRange m).foldl (fun span worker => max span (assignedLoad tests assign worker)) 0

theorem assignedLoad_le (tests : List Test) (assign : Test → Fin m) (worker : Fin m) :
    assignedLoad tests assign worker ≤ assignmentMakespan tests assign :=
  (isGreatest_foldl_max (assignedLoad tests assign) (List.finRange m) 0).2
    (Or.inr ⟨worker, List.mem_finRange worker, rfl⟩)

theorem assignmentMakespan_nonneg (tests : List Test) (assign : Test → Fin m) :
    0 ≤ assignmentMakespan tests assign :=
  (isGreatest_foldl_max (assignedLoad tests assign) (List.finRange m) 0).2 (Or.inl rfl)

/-- The durations on each worker under an assignment. -/
def assignedPlan (tests : List Test) (assign : Test → Fin m) : List (List ℚ) :=
  (List.finRange m).map fun worker =>
    (tests.filter fun t => assign t = worker).map fun t => t.job.duration

/-- The plan of an assignment has all the tests. -/
theorem assignedPlan_perm (tests : List Test) (assign : Test → Fin m) :
    (assignedPlan tests assign).flatten.Perm (tests.map fun t => t.job.duration) := by
  have hshared := flatMap_filter_perm assign (List.nodup_finRange m) tests
    fun t _ => List.mem_finRange (assign t)
  have hmap := hshared.map fun t => t.job.duration
  rwa [List.map_flatMap, List.flatMap_def] at hmap

end Assignment

/-! ## Nothing is risky -/

/-- No two different tests are predicted to conflict. -/
def RiskIndex.Harmless (risk : RiskIndex) : Prop := ∀ a b, a ≠ b → risk.probability a b = 0

theorem RiskIndex.harmless_empty : (RiskIndex.mk PartialMap.empty).Harmless := by
  intro a b hne
  rw [RiskIndex.probability, if_neg hne]
  rfl

theorem mem_of_mem_otherTests {lanes : List Lane} {worker : ℕ} {t : ScheduledTest}
    (h : t ∈ otherTests lanes worker) : t ∈ lanes.flatMap Lane.tests := by
  obtain ⟨lane, hlane, ht⟩ := List.mem_flatMap.mp h
  exact List.mem_flatMap.mpr ⟨lane, List.mem_of_mem_eraseIdx hlane, ht⟩

/-- A test that is not on the lanes is placed without risk. -/
theorem RiskIndex.Harmless.placementRisk_eq {risk : RiskIndex} (h : risk.Harmless)
    (rounding : Rounding) {testID : String} (start stop : ℚ) {lanes : List Lane} (worker : ℕ)
    (hfresh : ∀ t ∈ lanes.flatMap Lane.tests, testID ≠ t.testID) :
    placementRisk rounding testID start stop lanes worker risk = (0, []) := by
  have hfold : (otherTests lanes worker).foldl
      (placementRiskStep rounding testID start stop risk) (1, []) = (1, []) := by
    refine @List.foldlRecOn _ _ (fun acc : ℚ × List String => acc = (1, [])) _ _ _ rfl ?_
    rintro acc rfl other hother
    simp only [placementRiskStep, h testID other.testID (hfresh other (mem_of_mem_otherTests hother)),
      zero_mul, rounding.round_zero, rounding.complement_zero, mul_one, rounding.round_one]
    norm_num
  rw [placementRisk, hfold, Rounding.complement, sub_self, rounding.round_zero]

variable {ctx : Context}

/-- So its cost is its start less the bias. -/
theorem cost_of_harmless (hrisk : ctx.risk.Harmless) (hthreshold : 0 < ctx.parameters.hardThreshold)
    {lanes : List Lane} (worker : ℕ) (start : ℚ) {t : Test}
    (hfresh : ∀ other ∈ lanes.flatMap Lane.tests, t.id ≠ other.testID) :
    ctx.cost lanes worker start t = start - ctx.parameters.utilizationBias * t.durationEMA := by
  simp only [Context.cost, Context.riskAt, hrisk.placementRisk_eq _ _ _ worker hfresh,
    if_neg (not_le.mpr hthreshold), mul_zero, zero_mul, add_zero]

/-- And its placement is not delayed. -/
theorem startFor_of_harmless (hrisk : ctx.risk.Harmless)
    (hthreshold : 0 < ctx.parameters.hardThreshold) {lanes : List Lane} (worker : ℕ) (start : ℚ)
    {t : Test} (hfresh : ∀ other ∈ lanes.flatMap Lane.tests, t.id ≠ other.testID) :
    ctx.startFor lanes worker start t = start := by
  rw [Context.startFor, Context.riskAt, hrisk.placementRisk_eq _ _ _ _ hfresh,
    if_neg (not_le.mpr hthreshold)]

/-! ## The longest test goes to the lane that is free first -/

/-- A fold that keeps the smaller of two indices returns a smallest one. -/
theorem foldl_pick_le (f : ℕ → ℚ) (offered : List ℕ) :
    ∀ first : ℕ, ∀ i ∈ first :: offered,
      f (offered.foldl (fun best i => if f i < f best then i else best) first) ≤ f i := by
  induction offered with
  | nil =>
    intro first i hi
    rw [List.mem_singleton.mp hi]
    exact le_refl _
  | cons j rest ih =>
    intro first i hi
    rw [List.foldl_cons]
    have hbest := ih (if f j < f first then j else first)
    have hhead := hbest _ List.mem_cons_self
    have hpick : f (if f j < f first then j else first) ≤ min (f first) (f j) := by
      split
      · rename_i hlt
        exact le_min hlt.le (le_refl _)
      · rename_i hge
        exact le_min (le_refl _) (not_lt.mp hge)
    rcases List.mem_cons.mp hi with rfl | hi
    · exact hhead.trans (hpick.trans (min_le_left _ _))
    · rcases List.mem_cons.mp hi with rfl | hi
      · exact hhead.trans (hpick.trans (min_le_right _ _))
      · exact hbest i (List.mem_cons_of_mem _ hi)

/-- `earliestLane` finds a lane that ends first. -/
theorem laneEnd_earliestLane_le {lanes : List Lane} {lane lane' : Lane}
    (h : lanes[earliestLane lanes]? = some lane) (h' : lane' ∈ lanes) : lane.endAt ≤ lane'.endAt := by
  obtain ⟨i, hi⟩ := List.mem_iff_getElem?.mp h'
  rw [← laneEnd_eq h, ← laneEnd_eq hi, earliestLane]
  refine foldl_pick_le (laneEnd lanes) (List.range' 1 (lanes.length - 1)) 0 i ?_
  have hlt := (List.getElem?_eq_some_iff.mp hi).1
  rcases Nat.eq_zero_or_pos i with rfl | hpos
  · exact List.mem_cons_self
  · exact List.mem_cons_of_mem _ (List.mem_range'_1.mpr (by omega))

/-- The chosen candidate costs no more than any other. -/
theorem cost_pickBest_le (cost : Test → ℚ) (first : Test) (candidates : List Test) :
    ∀ t ∈ candidates, cost (pickBest cost first candidates) ≤ cost t := by
  rw [pickBest]
  suffices h : ∀ (rest : List Test) (best : Test × WithTop ℚ),
      (best.2 = ⊤ ∨ best.2 = cost best.1) →
      let last := rest.foldl (fun (best : Test × WithTop ℚ) candidate =>
        if (cost candidate : WithTop ℚ) < best.2 then (candidate, (cost candidate : WithTop ℚ))
        else best) best
      (last.2 = ⊤ ∨ last.2 = cost last.1) ∧ last.2 ≤ best.2 ∧
        ∀ t ∈ rest, last.2 ≤ (cost t : WithTop ℚ) by
    intro t ht
    obtain ⟨hlast, -, hle⟩ := h candidates (first, ⊤) (Or.inl rfl)
    have hfinite := (hle t ht).trans_lt (WithTop.coe_lt_top (cost t))
    have hcost := hle t ht
    rw [hlast.resolve_left hfinite.ne] at hcost
    exact WithTop.coe_le_coe.mp hcost
  intro rest
  induction rest with
  | nil => exact fun best hbest => ⟨hbest, le_refl _, List.forall_mem_nil _⟩
  | cons candidate rest ih =>
    intro best hbest
    simp only [List.foldl_cons, List.forall_mem_cons]
    split
    · rename_i hlt
      obtain ⟨hlast, hle, hrest⟩ := ih (candidate, cost candidate) (Or.inr rfl)
      exact ⟨hlast, hle.trans hlt.le, hle, hrest⟩
    · rename_i hge
      obtain ⟨hlast, hle, hrest⟩ := ih best hbest
      exact ⟨hlast, hle, hle.trans (not_lt.mp hge), hrest⟩

/-- The candidates start with a longest remaining test, cut or not. -/
theorem le_head_of_candidates {round : ℕ} {remaining : List Test} {first : Test} {rest : List Test}
    (h : ctx.candidates round remaining = first :: rest) :
    ∀ t ∈ remaining, t.durationEMA ≤ first.durationEMA := by
  have hperm := (ctx.runtime.sortSlice_perm ctx.candidateLess
    (ctx.runtime.mapOrder round remaining)).trans (ctx.runtime.mapOrder_perm round remaining)
  have hsorted := ctx.runtime.sortSlice_sorted ctx.candidateLess_strictOrder
    (ctx.runtime.mapOrder round remaining)
  obtain ⟨more, hmore⟩ : ∃ more, ctx.runtime.sortSlice ctx.candidateLess
      (ctx.runtime.mapOrder round remaining) = first :: more := by
    simp only [Context.candidates] at h
    split at h
    · obtain ⟨more, hmore⟩ := List.take_prefix ctx.parameters.lookahead
        (ctx.runtime.sortSlice ctx.candidateLess (ctx.runtime.mapOrder round remaining))
      exact ⟨rest ++ more, by rw [← hmore, h, List.cons_append]⟩
    · exact ⟨rest, h⟩
  intro t ht
  rw [hmore] at hperm hsorted
  rcases List.mem_cons.mp (hperm.mem_iff.mpr ht) with rfl | ht
  · exact le_refl _
  · rcases Context.candidateLess_eq_false.mp ((List.pairwise_cons.mp hsorted).1 t ht) with h | h
    · exact h.le
    · exact h.1.ge

/-- **The longest test is chosen.** -/
theorem le_chosen (hrisk : ctx.risk.Harmless) (hthreshold : 0 < ctx.parameters.hardThreshold)
    (hbias : 0 < ctx.parameters.utilizationBias) {round : ℕ} {p : Placement} {best : Test}
    (hfresh : ∀ t ∈ p.remaining, ∀ other ∈ p.lanes.flatMap Lane.tests, t.id ≠ other.testID)
    (h : ctx.chosen round p = some best) : ∀ t ∈ p.remaining, t.durationEMA ≤ best.durationEMA := by
  have hbest := mem_of_chosen h
  intro t ht
  unfold Context.chosen at h
  split at h
  · cases h
  · rename_i first rest hcandidates
    have hfirst : first ∈ p.remaining := by
      refine mem_of_mem_candidates ctx round ?_
      rw [hcandidates]
      exact List.mem_cons_self
    have hcost := cost_pickBest_le
      (ctx.cost p.lanes (earliestLane p.lanes) (laneEnd p.lanes (earliestLane p.lanes))) first
      (first :: rest) first List.mem_cons_self
    rw [Option.some.inj h, cost_of_harmless hrisk hthreshold _ _ (hfresh best hbest),
      cost_of_harmless hrisk hthreshold _ _ (hfresh first hfirst), sub_le_sub_iff_left] at hcost
    exact (le_head_of_candidates hcandidates t ht).trans (le_of_mul_le_mul_left hcost hbias)

/-! ## Packed lanes -/

/-- The lane ends when its tests have run one after another. -/
def Lane.Packed (lane : Lane) : Prop :=
  lane.endAt = (lane.tests.map ScheduledTest.estimatedDuration).sum

/-- The lanes are packed and end by `bound`. -/
def PackedBy (bound : ℚ) (lanes : List Lane) : Prop :=
  ∀ lane ∈ lanes, lane.Packed ∧ lane.endAt ≤ bound

theorem reflowFrom_stop (worker : ℤ) (tests : List ScheduledTest) :
    ∀ cursor : ℚ, (reflowFrom worker cursor tests).2 =
      cursor + (tests.map ScheduledTest.estimatedDuration).sum := by
  induction tests with
  | nil => exact fun cursor => (add_zero cursor).symm
  | cons t rest ih =>
    intro cursor
    rw [reflowFrom, ih, List.map_cons, List.sum_cons, add_assoc]

/-- Swapping and reflowing a packed lane changes neither fact. -/
theorem Lane.Packed.swap {lane : Lane} (h : lane.Packed) (worker i : ℕ) :
    (reflow { lane with tests := swapAdjacent i lane.tests } worker).Packed ∧
      (reflow { lane with tests := swapAdjacent i lane.tests } worker).endAt = lane.endAt := by
  have hend : (reflow { lane with tests := swapAdjacent i lane.tests } worker).endAt =
      lane.endAt := by
    rw [h]
    refine (reflowFrom_stop worker _ 0).trans ?_
    rw [zero_add]
    exact ((swapAdjacent_perm lane.tests i).map _).sum_eq
  refine ⟨?_, hend⟩
  have hjobs := congrArg (List.map Job.duration)
    (reflow_jobs { lane with tests := swapAdjacent i lane.tests } worker)
  rw [List.map_map, List.map_map] at hjobs
  rw [Lane.Packed, hend, h]
  refine ((swapAdjacent_perm lane.tests i).map _).sum_eq.symm.trans ?_
  exact congrArg List.sum hjobs.symm

theorem PackedBy.swapAndReflow {bound : ℚ} {lanes : List Lane} (h : PackedBy bound lanes)
    (worker i : ℕ) : PackedBy bound (swapAndReflow lanes worker i) := by
  intro lane' hlane'
  obtain ⟨j, hj⟩ := List.mem_iff_getElem?.mp hlane'
  by_cases hne : j = worker
  · subst hne
    rw [Go.swapAndReflow, List.getElem?_modify_eq, Option.map_eq_map, Option.map_eq_some_iff] at hj
    obtain ⟨lane, hlane, rfl⟩ := hj
    obtain ⟨hpacked, hbound⟩ := h lane (List.mem_of_getElem? hlane)
    obtain ⟨hpacked', hend⟩ := hpacked.swap j i
    exact ⟨hpacked', hend.le.trans hbound⟩
  · rw [Go.swapAndReflow, List.getElem?_modify_ne _ _ (Ne.symm hne)] at hj
    exact h lane' (List.mem_of_getElem? hj)

/-- Packed lanes end by the bound. -/
theorem PackedBy.makespan_le {bound : ℚ} {lanes : List Lane} (h : PackedBy bound lanes)
    (hbound : 0 ≤ bound) : makespan lanes ≤ bound := by
  rcases (isGreatest_foldl_max Lane.endAt lanes 0).1 with hzero | ⟨lane, hlane, hend⟩
  · exact hzero.le.trans hbound
  · exact hend.ge.trans (h lane hlane).2

/-! ## The run -/

/-- The bound of list scheduling against an assignment. -/
def makespanBound {m : ℕ} (tests : List Test) (assign : Test → Fin m) : ℚ :=
  (4 / 3 - 1 / (3 * m)) * assignmentMakespan tests assign

/-- The loop invariant of list scheduling, longest test first. -/
structure Placement.Listed (bound : ℚ) (p : Placement) : Prop where
  packed : PackedBy bound p.lanes
  longest : ∀ t ∈ p.lanes.flatMap Lane.tests, ∀ r ∈ p.remaining, r.durationEMA ≤ t.estimatedDuration

theorem Placement.Listed.init (bound : ℚ) (hbound : 0 ≤ bound) (n : ℕ) (remaining : List Test) :
    Placement.Listed bound ⟨List.replicate n ⟨[], 0⟩, remaining⟩ := by
  refine ⟨fun lane hlane => ?_, ?_⟩
  · rw [List.eq_of_mem_replicate hlane]
    exact ⟨rfl, hbound⟩
  · rw [flatMap_replicate_empty]
    exact nofun

/-- What remains is not on the lanes. -/
theorem Placement.Inv.fresh {jobs : List Job} {p : Placement} (h : p.Inv jobs)
    (hnodup : (jobs.map Job.id).Nodup) :
    ∀ t ∈ p.remaining, ∀ other ∈ p.lanes.flatMap Lane.tests, t.id ≠ other.testID := by
  have hids := (h.jobs_perm.map Job.id).nodup_iff.mpr hnodup
  rw [List.map_append, List.map_map, List.map_map, List.nodup_append] at hids
  intro t ht other hother heq
  exact hids.2.2 _ (List.mem_map_of_mem hother) _ (List.mem_map_of_mem ht) heq.symm

/-- The durations of an assignment are those on the lanes, that of the chosen test and those
that remain. -/
theorem Placement.Inv.assignedPlan_perm {m : ℕ} {tests : List Test} {p : Placement}
    (h : p.Inv (tests.map Test.job)) (assign : Test → Fin m) {best : Test}
    (hbest : best ∈ p.remaining) :
    (assignedPlan tests assign).flatten.Perm
      ((p.lanes.map fun lane => lane.tests.map ScheduledTest.estimatedDuration).flatten ++
        best.durationEMA ::
          (p.remaining.filter fun test => test.id ≠ best.id).map Test.durationEMA) := by
  have hjobs := h.jobs_perm.symm.map Job.duration
  rw [List.map_append, List.map_map, List.map_map, List.map_map] at hjobs
  have hremaining : p.remaining.map (Job.duration ∘ Test.job) =
      p.remaining.map Test.durationEMA :=
    List.map_congr_left fun t ht => congrArg Job.duration (Test.job_of_pos (h.duration_pos t ht))
  rw [hremaining] at hjobs
  refine (Go.assignedPlan_perm tests assign).trans (hjobs.trans ?_)
  rw [← List.flatMap_def, ← List.map_flatMap]
  exact ((perm_cons_filter_id hbest h.id_nodup).map Test.durationEMA).append_left _

theorem mem_appendTo {lanes : List Lane} {worker : ℕ} {lane lane' : Lane} {t : ScheduledTest}
    (hlane : lanes[worker]? = some lane) (h : lane' ∈ appendTo lanes worker t) :
    lane' ∈ lanes ∨ lane' = ⟨lane.tests ++ [t], t.estimatedEnd⟩ := by
  obtain ⟨i, hi⟩ := List.mem_iff_getElem?.mp h
  by_cases hne : i = worker
  · rw [hne, getElem?_appendTo_self hlane] at hi
    exact Or.inr (Option.some.inj hi).symm
  · rw [getElem?_appendTo_ne hne] at hi
    exact Or.inl (List.mem_of_getElem? hi)

section Run

variable {m : ℕ} {tests : List Test} {assign : Test → Fin m}

/-- The chosen test ends within the bound. -/
theorem endAt_add_le {round : ℕ} {p : Placement} {lane : Lane} {best : Test}
    (h : p.Listed (makespanBound tests assign)) (hinv : p.Inv (tests.map Test.job))
    (hlen : p.lanes.length = m) (hlane : p.lanes[earliestLane p.lanes]? = some lane)
    (hbest : ctx.chosen round p = some best) :
    lane.endAt + best.durationEMA ≤ makespanBound tests assign := by
  have hmem := mem_of_chosen hbest
  have hplan := hinv.assignedPlan_perm assign hmem
  have hne : p.lanes ≠ [] := fun hnil => by
    rw [hnil, List.getElem?_nil] at hlane
    cases hlane
  have hlength : makespanBound tests assign = (4 / 3 - 1 / (3 * ((p.lanes.map fun lane =>
      lane.tests.map ScheduledTest.estimatedDuration).length : ℚ))) *
        assignmentMakespan tests assign := by
    rw [List.length_map, hlen, makespanBound]
  rw [hlength]
  refine start_add_le ?_ hplan ?_ (hinv.duration_pos best hmem).le ?_ ?_ ?_
    (fun hnil => hne (List.map_eq_nil_iff.mp hnil))
  · rw [assignedPlan, List.length_map, List.length_map, List.length_finRange, hlen]
  · -- what is placed is at least as long
    rw [← List.flatMap_def, ← List.map_flatMap]
    intro x hx
    obtain ⟨t, ht, rfl⟩ := List.mem_map.mp hx
    exact h.longest t ht best hmem
  · intro x hx
    obtain ⟨t, ht, rfl⟩ := List.mem_map.mp hx
    exact (hinv.duration_pos t (List.mem_of_mem_filter ht)).le
  · -- the lane is free first
    intro durations hdurations
    obtain ⟨other, hother, rfl⟩ := List.mem_map.mp hdurations
    rw [← (h.packed other hother).1]
    exact laneEnd_earliestLane_le hlane hother
  · intro durations hdurations
    obtain ⟨worker, -, rfl⟩ := List.mem_map.mp hdurations
    exact assignedLoad_le tests assign worker

/-- The step lemma of list scheduling. -/
theorem Placement.Listed.place (hrisk : ctx.risk.Harmless)
    (hthreshold : 0 < ctx.parameters.hardThreshold) (hbias : 0 < ctx.parameters.utilizationBias)
    (hnodup : (tests.map Test.id).Nodup) {round : ℕ} {p q : Placement}
    (h : p.Listed (makespanBound tests assign)) (hinv : p.Inv (tests.map Test.job))
    (hlen : p.lanes.length = m) (hplace : ctx.place round p = .ok q) :
    q.Listed (makespanBound tests assign) := by
  obtain ⟨lane, best, hlane, hbest, rfl⟩ := place_eq_ok hplace
  have hjobs : ((tests.map Test.job).map Job.id).Nodup := by
    rw [List.map_map]
    exact hnodup
  have hmem := mem_of_chosen hbest
  have hfresh := hinv.fresh hjobs
  have hstart := startFor_of_harmless hrisk hthreshold (earliestLane p.lanes) lane.endAt
    (hfresh best hmem)
  refine ⟨fun lane' hlane' => ?_, fun t ht r hr => ?_⟩
  · rcases mem_appendTo hlane hlane' with hold | rfl
    · exact h.packed lane' hold
    · have hends := endAt_add_le h hinv hlen hlane hbest
      rw [← hstart] at hends
      refine ⟨?_, hends⟩
      rw [Lane.Packed, List.map_append, List.sum_append, List.map_singleton, List.sum_singleton,
        ← (h.packed lane (List.mem_of_getElem? hlane)).1]
      exact congrArg (· + best.durationEMA) hstart
  · have hr := List.mem_of_mem_filter hr
    have hlt := (List.getElem?_eq_some_iff.mp hlane).1
    rcases List.mem_cons.mp ((flatMap_appendTo hlt _).mem_iff.mp ht) with rfl | ht
    · exact le_chosen hrisk hthreshold hbias hfresh hbest r hr
    · exact h.longest t ht r hr

end Run

/-! ## The makespan of a policy -/

/-- A scheduler with the lookahead and the bias of its policy, some worker, and a hard
threshold above zero. -/
structure Scheduler.OfPolicy (s : Scheduler) : Prop where
  workers_pos : 0 < s.workers
  policy_valid : s.policy.valid = true
  lookahead_eq : s.parameters.lookahead = (parametersFor s.policy).lookahead
  utilizationBias_eq : s.parameters.utilizationBias = (parametersFor s.policy).utilizationBias
  hardThreshold_pos : 0 < s.parameters.hardThreshold

theorem parametersFor_utilizationBias_pos (policy : RiskPolicy) :
    0 < (parametersFor policy).utilizationBias := by
  cases policy <;> norm_num [parametersFor]

theorem Scheduler.OfPolicy.places {s : Scheduler} (h : s.OfPolicy) : s.Places where
  workers_pos := h.workers_pos
  policy_valid := h.policy_valid
  lookahead_pos := by
    rw [h.lookahead_eq]
    exact parametersFor_lookahead_pos s.policy

/-- **The makespan of a plan without predictions** is within `4/3 - 1/(3m)` of that of any
assignment of the tests. -/
theorem exists_build_makespan_le {s : Scheduler} (h : s.OfPolicy) (rt : Runtime) (runID : String)
    {tests : List Test} (hvalid : ∀ t ∈ tests, t.validate = .ok ())
    (hnodup : (tests.map Test.id).Nodup) :
    ∃ sched, s.build rt runID tests [] = .ok sched ∧
      ∀ assign : Test → Fin s.workers.toNat,
        sched.expectedMakespan ≤
          (4 / 3 - 1 / (3 * s.workers)) * assignmentMakespan tests assign := by
  obtain ⟨-, sched, -, hbuild, -⟩ := h.places.exists_build rt runID hvalid hnodup
    (List.forall_mem_nil fun p : Prediction => ∃ q, p.normalize = .ok q)
  refine ⟨sched, hbuild, fun assign => ?_⟩
  obtain ⟨risk, remaining, tie, q, hrisk, hintake, hplace, rfl⟩ := build_eq_ok_inv hbuild
  obtain rfl : ⟨PartialMap.empty⟩ = risk := Except.ok.inj hrisk
  obtain ⟨tie', hintake'⟩ := intake_eq_ok rt.float64 hvalid 0 [] PartialMap.empty hnodup
  rw [hintake] at hintake'
  obtain ⟨rfl, rfl⟩ := Prod.mk.inj (Except.ok.inj hintake')
  have hpos := h.workers_pos
  have hcast : ((s.workers.toNat : ℕ) : ℚ) = s.workers := by
    exact_mod_cast congrArg (Int.cast (R := ℚ)) (Int.toNat_of_nonneg hpos.le)
  have hbound : 0 ≤ makespanBound tests assign := by
    have hone : (1 : ℚ) ≤ s.workers.toNat := by
      rw [hcast]
      exact_mod_cast hpos
    refine mul_nonneg (sub_nonneg.mpr ?_) (assignmentMakespan_nonneg tests assign)
    rw [div_le_div_iff₀ (by linarith) (by norm_num)]
    linarith
  have hloop : (q.Inv (tests.map Test.job) ∧ q.lanes.length = s.workers.toNat) ∧
      q.Listed (makespanBound tests assign) := by
    refine placeAll_invariant (I := fun p => (p.Inv (tests.map Test.job) ∧
      p.lanes.length = s.workers.toNat) ∧ p.Listed (makespanBound tests assign)) ?_ ?_ hplace
    · rintro round p p' ⟨⟨hinv, hlen⟩, hlisted⟩ hnext
      obtain ⟨hinv', hlen', -⟩ := hinv.place hnext
      exact ⟨⟨hinv', hlen'.trans hlen⟩, hlisted.place RiskIndex.harmless_empty h.hardThreshold_pos
        (h.utilizationBias_eq ▸ parametersFor_utilizationBias_pos s.policy) hnodup hinv hlen
        hnext⟩
    · exact ⟨⟨.init _ hvalid hnodup, List.length_replicate⟩, .init _ hbound _ _⟩
  have hrefined : PackedBy (makespanBound tests assign)
      (s.refineLanes ⟨PartialMap.empty⟩ tests q.lanes) := by
    rw [Scheduler.refineLanes]
    split
    · exact refineRounds_lanes (fun _ worker i h => h.swapAndReflow worker i) _ _ hloop.2.packed
    · exact hloop.2.packed
  have hspan := hrefined.makespan_le hbound
  rw [makespanBound, hcast] at hspan
  exact hspan

/-- Five tests on two workers: list scheduling ends at 7, and sharing them better at 6. -/
theorem exists_build_makespan_le_balanced :
    ∃ sched, Scheduler.balanced.build .reference "run"
        [.lasting "a" 3, .lasting "b" 3, .lasting "c" 2, .lasting "d" 2, .lasting "e" 2] [] =
          .ok sched ∧
      ∀ assign : Test → Fin Scheduler.balanced.workers.toNat,
        sched.expectedMakespan ≤ (4 / 3 - 1 / (3 * Scheduler.balanced.workers)) *
          assignmentMakespan [.lasting "a" 3, .lasting "b" 3, .lasting "c" 2, .lasting "d" 2,
            .lasting "e" 2] assign :=
  exists_build_makespan_le ⟨by decide, rfl, rfl, rfl, by norm_num [Scheduler.balanced, parametersFor]⟩
    .reference "run" (by decide +kernel) (by decide +kernel)

end ConflictGraph.Go
