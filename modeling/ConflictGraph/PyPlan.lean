import Mathlib.Data.Multiset.Sym
import Mathlib.Algebra.BigOperators.Group.Multiset.Basic
import ConflictGraph.Loop
import ConflictGraph.Timeline
import ConflictGraph.PySeparation

/-!
# The Python plan

`static_schedule` cannot fail, and what it returns is a plan. A round of the placement loop
takes one of the remaining tests, and puts it on the lane that is free first, at the end of
that lane or, if it has to wait, later. So the board stays sound, nothing is lost, and a swap
of refinement keeps both, because it packs the lane it touches.
-/

namespace ConflictGraph.Py

/-- Each lane is what its worker does, one test after the other. -/
abbrev Sound (lanes : List (List ScheduledTest)) : Prop :=
  SoundBoard ScheduledTest.worker ScheduledTest.estimatedStart ScheduledTest.estimatedEnd
    ScheduledTest.estimatedDuration lanes

/-- The lanes run exactly the given tests, with their durations. -/
structure Implements (durations : String → ℚ) (ids : List String)
    (lanes : List (List ScheduledTest)) : Prop where
  sound : Sound lanes
  duration_eq : ∀ t ∈ lanes.flatten, t.estimatedDuration = durations t.testID
  ids_perm : (lanes.flatten.map ScheduledTest.testID).Perm ids

/-! ## One round -/

/-- Something has a least key. -/
theorem exists_minBy {α κ : Type} [LinearOrder κ] (key : α → κ) {items : List α} (h : items ≠ []) :
    ∃ a, minBy key items = .ok a := by
  rw [minBy]
  rcases hmin : items.argmin key with _ | a
  · exact absurd (List.argmin_eq_none.mp hmin) h
  · exact ⟨a, rfl⟩

/-- With a candidate the choice never fails: it takes one, at the start or later. -/
theorem exists_choose (ctx : Context) (lanes : List (List ScheduledTest)) (worker : ℕ) (start : ℚ)
    {candidates : List String} (h : candidates ≠ []) :
    ∃ chosen begin, ctx.choose lanes worker start candidates = .ok (chosen, begin) ∧
      chosen ∈ candidates ∧ start ≤ begin := by
  obtain ⟨first, hfirst⟩ := exists_minBy (ctx.placementCost lanes worker start) h
  have hmem := minBy_mem hfirst
  simp only [Context.choose, hfirst]
  by_cases hguard : ctx.params.hardThreshold ≤ ctx.riskAt lanes worker start first ∧
      overlappingAt lanes start worker ≠ []
  · rw [if_pos hguard]
    by_cases hsafe : ctx.safeCandidates lanes worker start candidates = []
    · -- wait for the first end: some test runs, so there is one
      obtain ⟨nextEnd, hnext⟩ := Option.isSome_iff_exists.mp
        (List.isSome_min?_of_ne_nil (fun hnil => hguard.2 (List.map_eq_nil_iff.mp hnil) :
          (overlappingAt lanes start worker).map ScheduledTest.estimatedEnd ≠ []))
      rw [if_neg (not_not.mpr hsafe), hnext]
      exact ⟨first, _, rfl, hmem, le_max_left _ _⟩
    · obtain ⟨safe, hmin⟩ := exists_minBy (ctx.placementCost lanes worker start) hsafe
      rw [if_pos hsafe, hmin]
      exact ⟨safe, start, rfl, List.mem_of_mem_filter (minBy_mem hmin), le_refl start⟩
  · rw [if_neg hguard]
    exact ⟨first, start, rfl, hmem, le_refl start⟩

/-- The loop invariant of the placement loop, for a given collection of tests. -/
structure Placement.Inv (durations : String → ℚ) (ids : List String) (p : Placement) : Prop where
  sound : Sound p.lanes
  duration_eq : ∀ t ∈ p.lanes.flatten, t.estimatedDuration = durations t.testID
  laneEnds_eq : p.laneEnds = p.lanes.map (lastStop ScheduledTest.estimatedEnd 0)
  ids_perm : (p.lanes.flatten.map ScheduledTest.testID ++ p.remaining).Perm ids

theorem Placement.Inv.laneEnd_eq {durations : String → ℚ} {ids : List String} {p : Placement}
    (h : p.Inv durations ids) {worker : ℕ} {lane : List ScheduledTest}
    (hlane : p.lanes[worker]? = some lane) :
    p.laneEnd worker = lastStop ScheduledTest.estimatedEnd 0 lane := by
  rw [Placement.laneEnd, h.laneEnds_eq, List.getD_eq_getElem?_getD, List.getElem?_map, hlane]
  rfl

section Round

variable {ctx : Context} {ids : List String} {p : Placement}

/-- The step lemma of the placement loop: with a worker and a candidate, a round succeeds,
keeps the invariant and the workers, and uses up a test. -/
theorem Placement.Inv.place (h : p.Inv ctx.durations ids) (hpos : ∀ id, 0 < ctx.durations id)
    (hlook : 0 < ctx.params.lookahead) (hlanes : p.lanes ≠ []) (hrem : p.remaining ≠ []) :
    ∃ q, ctx.place p = .ok q ∧ q.Inv ctx.durations ids ∧ q.lanes.length = p.lanes.length ∧
      q.remaining.length < p.remaining.length := by
  have hrange : List.range p.lanes.length ≠ [] := fun hnil =>
    hlanes (List.length_eq_zero_iff.mp (List.range_eq_nil.mp hnil))
  obtain ⟨worker, hworker⟩ := exists_minBy (fun i => toLex (p.laneEnd i, i)) hrange
  have hlt : worker < p.lanes.length := List.mem_range.mp (minBy_mem hworker)
  have hlane := List.getElem?_eq_getElem hlt
  have hcandidates : p.remaining.take ctx.params.lookahead ≠ [] := by
    rw [ne_eq, List.take_eq_nil_iff, not_or]
    exact ⟨hlook.ne', hrem⟩
  obtain ⟨chosen, begin, hchoose, hmem, hbegin⟩ :=
    exists_choose ctx p.lanes worker (p.laneEnd worker) hcandidates
  have hchosen : chosen ∈ p.remaining := List.mem_of_mem_take hmem
  rw [h.laneEnd_eq hlane] at hbegin
  refine ⟨⟨push p.lanes worker (ctx.scheduled p.lanes worker chosen begin),
    p.laneEnds.set worker (ctx.scheduled p.lanes worker chosen begin).estimatedEnd,
    p.remaining.erase chosen⟩, ?_, ⟨?_, ?_, ?_, ?_⟩, length_push .., ?_⟩
  · simp only [Context.place, Placement.worker, hworker, hchoose]
  · exact h.sound.push hlane rfl rfl (hpos chosen) hbegin
  · intro t ht
    rcases List.mem_cons.mp ((flatten_push_perm hlt _).mem_iff.mp ht) with rfl | ht
    · rfl
    · exact h.duration_eq t ht
  · rw [h.laneEnds_eq, map_lastStop_push]
  · refine List.Perm.trans ?_ h.ids_perm
    refine (((flatten_push_perm hlt _).map ScheduledTest.testID).append_right _).trans ?_
    refine List.Perm.trans ?_ ((List.perm_cons_erase hchosen).symm.append_left _)
    rw [List.map_cons, List.cons_append]
    exact List.perm_middle.symm
  · rw [List.length_erase_of_mem hchosen]
    exact Nat.sub_lt (List.length_pos_of_mem hchosen) one_pos

/-- The run lemma of the placement loop: with enough rounds it places everything. -/
theorem Placement.Inv.placeAll (hpos : ∀ id, 0 < ctx.durations id)
    (hlook : 0 < ctx.params.lookahead) :
    ∀ (fuel : ℕ) (p : Placement), p.Inv ctx.durations ids → p.lanes ≠ [] →
      p.remaining.length ≤ fuel →
      ∃ q, ctx.placeAll fuel p = .ok q ∧ Implements ctx.durations ids q.lanes ∧
        q.lanes.length = p.lanes.length := by
  have hdone : ∀ p : Placement, p.Inv ctx.durations ids → p.remaining = [] →
      Implements ctx.durations ids p.lanes := by
    intro p h hrem
    have hids := h.ids_perm
    rw [hrem, List.append_nil] at hids
    exact ⟨h.sound, h.duration_eq, hids⟩
  intro fuel
  induction fuel with
  | zero =>
    intro p h _ hlen
    exact ⟨p, rfl, hdone p h (List.eq_nil_of_length_eq_zero (Nat.le_zero.mp hlen)), rfl⟩
  | succ fuel ih =>
    intro p h hlanes hlen
    rw [Context.placeAll]
    by_cases hrem : p.remaining = []
    · rw [if_pos hrem]
      exact ⟨p, rfl, hdone p h hrem, rfl⟩
    · obtain ⟨next, hnext, hinv, hsame, hless⟩ := h.place hpos hlook hlanes hrem
      have hne : next.lanes ≠ [] := by
        rw [← List.length_pos_iff, hsame]
        exact List.length_pos_iff.mpr hlanes
      obtain ⟨q, hq, himpl, hlen'⟩ := ih next hinv hne (by omega)
      rw [if_neg hrem, hnext]
      exact ⟨q, hq, himpl, hlen'.trans hsame⟩

/-- Whatever a round returns has kept the invariant. -/
theorem Placement.Inv.of_place (h : p.Inv ctx.durations ids) (hpos : ∀ id, 0 < ctx.durations id)
    {q : Placement} (hplace : ctx.place p = .ok q) : q.Inv ctx.durations ids := by
  obtain ⟨worker, first, -, -, hworker, hfirst, -, -⟩ := place_eq_ok hplace
  have hlt : worker < p.lanes.length := List.mem_range.mp (minBy_mem hworker)
  have hlanes : p.lanes ≠ [] := List.length_pos_iff.mp (Nat.zero_lt_of_lt hlt)
  have hcandidates : p.remaining.take ctx.params.lookahead ≠ [] :=
    List.ne_nil_of_mem (minBy_mem hfirst)
  rw [ne_eq, List.take_eq_nil_iff, not_or] at hcandidates
  obtain ⟨next, hnext, hinv, -⟩ :=
    h.place hpos (Nat.pos_of_ne_zero hcandidates.1) hlanes hcandidates.2
  rw [Except.ok.inj (hplace.symm.trans hnext)]
  exact hinv

/-- Every state that the placement loop reaches has kept the invariant. -/
theorem Placement.Inv.of_placeAll (hpos : ∀ id, 0 < ctx.durations id) :
    ∀ (fuel : ℕ) {p q : Placement}, p.Inv ctx.durations ids → ctx.placeAll fuel p = .ok q →
      q.Inv ctx.durations ids := by
  intro fuel
  induction fuel with
  | zero =>
    intro p q h hrun
    rw [← Except.ok.inj hrun]
    exact h
  | succ fuel ih =>
    intro p q h hrun
    rw [Context.placeAll] at hrun
    by_cases hrem : p.remaining = []
    · rw [if_pos hrem] at hrun
      rw [← Except.ok.inj hrun]
      exact h
    · rw [if_neg hrem] at hrun
      rcases hplace : ctx.place p with e | next
      · rw [hplace] at hrun
        cases hrun
      · rw [hplace] at hrun
        exact ih (h.of_place hpos hplace) hrun

end Round

/-- `static_schedule` enters its placement loop with the invariant. -/
theorem ConflictScheduler.start_inv (s : ConflictScheduler) (rt : Runtime)
    (tests : List TestIdentity) (stats : PartialMap String TestStats)
    (predictions : List PairPrediction) :
    (s.start rt tests stats predictions).2.Inv (durationOf stats)
      (s.start rt tests stats predictions).2.remaining := by
  refine ⟨soundBoard_replicate _, ?_, ?_, ?_⟩ <;>
    simp only [ConflictScheduler.start, List.flatten_replicate_nil, List.map_replicate,
      lastStop_nil, List.map_nil, List.nil_append]
  · exact List.forall_mem_nil _
  · exact List.Perm.refl _

/-! ## Refinement -/

theorem swapAdjacent_perm (lane : List ScheduledTest) : ∀ i, (swapAdjacent i lane).Perm lane := by
  induction lane with
  | nil => exact fun i => by cases i <;> exact List.Perm.refl _
  | cons t rest ih =>
    intro i
    rcases i with _ | i
    · rcases rest with _ | ⟨u, rest⟩
      · exact List.Perm.refl _
      · exact List.Perm.swap ..
    · exact (ih i).cons t

/-- What `_reflow_lane` does not write. -/
def ScheduledTest.job (t : ScheduledTest) : String × ℚ := (t.testID, t.estimatedDuration)

theorem map_job_reflowFrom (worker : ℤ) (lane : List ScheduledTest) :
    ∀ cursor : ℚ, (reflowFrom worker cursor lane).map ScheduledTest.job =
      lane.map ScheduledTest.job := by
  induction lane with
  | nil => exact fun _ => rfl
  | cons t rest ih =>
    intro cursor
    rw [reflowFrom, List.map_cons, List.map_cons, ih]
    rfl

/-- Tests packed back to back make a sound lane, whatever order they come in. -/
theorem soundLane_reflowFrom (worker : ℕ) {lane : List ScheduledTest} :
    ∀ cursor : ℚ, 0 ≤ cursor → (∀ t ∈ lane, 0 < t.estimatedDuration) →
      SoundLane ScheduledTest.worker ScheduledTest.estimatedStart ScheduledTest.estimatedEnd
          ScheduledTest.estimatedDuration worker (reflowFrom worker cursor lane) ∧
        ∀ t ∈ reflowFrom worker cursor lane, cursor ≤ t.estimatedStart := by
  induction lane with
  | nil => exact fun _ _ _ => ⟨soundLane_nil worker, List.forall_mem_nil _⟩
  | cons t rest ih =>
    intro cursor hcursor hpos
    rw [List.forall_mem_cons] at hpos
    have hnext : cursor ≤ cursor + t.estimatedDuration := le_add_of_nonneg_right hpos.1.le
    obtain ⟨hsound, hlater⟩ := ih (cursor + t.estimatedDuration) (hcursor.trans hnext) hpos.2
    rw [reflowFrom]
    refine ⟨⟨?_, ?_, ?_, ?_, chained_cons.mpr ⟨hlater, hsound.chained⟩⟩, ?_⟩
    · exact List.forall_mem_cons.mpr ⟨rfl, hsound.worker_eq⟩
    · exact List.forall_mem_cons.mpr ⟨rfl, hsound.stop_eq⟩
    · exact List.forall_mem_cons.mpr ⟨hcursor, hsound.start_nonneg⟩
    · exact List.forall_mem_cons.mpr ⟨hpos.1, hsound.length_pos⟩
    · exact List.forall_mem_cons.mpr ⟨le_refl cursor, fun u hu => hnext.trans (hlater u hu)⟩

section Refine

variable {durations : String → ℚ} {ids : List String} {lanes : List (List ScheduledTest)}

/-- A swap keeps a plan a plan. -/
theorem Implements.swapAndReflow (h : Implements durations ids lanes) (worker i : ℕ) :
    Implements durations ids (swapAndReflow lanes worker i) := by
  by_cases hlt : worker < lanes.length
  · obtain ⟨before, lane, after, hsplit, hlen, hmodify⟩ := List.exists_of_modify
      (fun lane => reflowLane (swapAdjacent i lane) worker) hlt
    have hlane : lanes[worker]? = some lane := by
      rw [hsplit, List.getElem?_append_right (by omega), ← hlen, Nat.sub_self]
      rfl
    have hswap := swapAdjacent_perm lane i
    -- the tests of the whole board are the same, up to times and order
    have hjobs : ((Py.swapAndReflow lanes worker i).flatten.map ScheduledTest.job).Perm
        (lanes.flatten.map ScheduledTest.job) := by
      rw [Py.swapAndReflow, hmodify, hsplit]
      simp only [List.flatten_append, List.flatten_cons, List.map_append, reflowLane,
        map_job_reflowFrom]
      exact ((hswap.map _).append_right _).append_left _
    refine ⟨?_, ?_, ?_⟩
    · intro j lane' hj
      by_cases hne : j = worker
      · subst hne
        rw [Py.swapAndReflow, List.getElem?_modify_eq, hlane] at hj
        rw [← Option.some.inj hj]
        exact (soundLane_reflowFrom j 0 (le_refl 0) fun t ht =>
          (h.sound j lane hlane).length_pos t (hswap.subset ht)).1
      · rw [Py.swapAndReflow, List.getElem?_modify_ne _ _ (Ne.symm hne)] at hj
        exact h.sound j lane' hj
    · intro t ht
      obtain ⟨u, hu, hjob⟩ := List.mem_map.mp (hjobs.mem_iff.mp (List.mem_map_of_mem ht))
      obtain ⟨hid, hduration⟩ := Prod.mk.inj hjob
      rw [← hid, ← hduration]
      exact h.duration_eq u hu
    · have hids := hjobs.map Prod.fst
      rw [List.map_map, List.map_map] at hids
      exact hids.trans h.ids_perm
  · rw [Py.swapAndReflow, List.modify_eq_self (not_lt.mp hlt)]
    exact h

end Refine

section Invariant

variable {risk : RiskIndex} {weight : ℚ} {I : List (List ScheduledTest) → Prop}
  (hswap : ∀ lanes worker i, I lanes → I (swapAndReflow lanes worker i))

include hswap

theorem trySwap_lanes (worker : ℕ) (s : RefineState) (i : ℕ) (h : I s.lanes) :
    I (trySwap risk weight worker s i).lanes := by
  simp only [trySwap]
  split
  · exact hswap _ _ _ h
  · exact hswap _ _ _ (hswap _ _ _ h)

theorem refineLane_lanes (s : RefineState) (worker : ℕ) (h : I s.lanes) :
    I (refineLane risk weight s worker).lanes := by
  rw [refineLane]
  split
  · exact h
  · exact foldl_invariant (I := fun s : RefineState => I s.lanes) h
      fun t _ => trySwap_lanes hswap worker t.1 t.2

theorem refineRound_lanes {lanes : List (List ScheduledTest)} (h : I lanes) :
    I (refineRound lanes risk weight).1 :=
  foldl_invariant (I := fun s : RefineState => I s.lanes) h
    fun visit _ => refineLane_lanes hswap visit.1 visit.2

/-- Whatever every swap keeps, refinement keeps. -/
theorem refineRounds_lanes : ∀ (rounds : ℕ) (lanes : List (List ScheduledTest)), I lanes →
    I (refineRounds risk weight rounds lanes) := by
  intro rounds
  induction rounds with
  | zero => exact fun _ h => h
  | succ rounds ih =>
    intro lanes h
    rw [refineRounds]
    split
    · exact ih _ (refineRound_lanes hswap h)
    · exact refineRound_lanes hswap h

end Invariant

/-! ## The plan that `static_schedule` returns -/

/-- What an unordered pair of tests contributes to the expected risk. -/
def RiskIndex.pairRisk (risk : RiskIndex) : Sym2 ScheduledTest → ℚ :=
  Sym2.lift ⟨fun a b =>
    if a.worker = b.worker then 0
    else
      overlap a.estimatedStart a.estimatedEnd b.estimatedStart b.estimatedEnd *
        risk.probability a.testID b.testID,
    fun a b => by
      simp only [eq_comm (a := a.worker), overlap_comm a.estimatedStart,
        risk.probability_comm a.testID]⟩

/-- The expected risk of a plan, which is a multiset of scheduled tests. -/
def RiskIndex.crossWorkerRisk (risk : RiskIndex) (plan : Multiset ScheduledTest) : ℚ :=
  (plan.sym2.map risk.pairRisk).sum

/-- **The expected risk does not depend on the order of the plan.** -/
theorem scheduleRisk_eq (risk : RiskIndex) (tests : List ScheduledTest) :
    scheduleRisk tests risk = risk.crossWorkerRisk tests := by
  have hagainst : ∀ a total b, scheduleRiskAgainst a risk total b =
      total + risk.pairRisk s(a, b) := by
    intro a total b
    rw [scheduleRiskAgainst]
    change _ = total + if a.worker = b.worker then 0 else _
    by_cases hworker : a.worker = b.worker
    · rw [if_pos hworker, if_pos hworker, add_zero]
    · rw [if_neg hworker, if_neg hworker]
      dsimp only
      split
      · rename_i hzero
        rw [hzero, zero_mul, add_zero]
      · rw [mul_comm]
  have hloop : scheduleRiskFrom risk 0 tests = 0 + (tests.sym2.map risk.pairRisk).sum :=
    doubleLoop_eq (fun _ => rfl) (fun _ _ _ => rfl) hagainst (fun a => if_pos rfl) tests 0
  rw [zero_add] at hloop
  exact hloop

/-- The makespan is the latest end, and zero for a plan without tests. -/
theorem makespan_spec (tests : List ScheduledTest) :
    (tests = [] ∧ makespan tests = 0) ∨
      IsGreatest {x | ∃ t ∈ tests, t.estimatedEnd = x} (makespan tests) := by
  rw [makespan]
  rcases hmax : (tests.map ScheduledTest.estimatedEnd).max? with _ | latest
  · rw [List.max?_eq_none_iff, List.map_eq_nil_iff] at hmax
    exact .inl ⟨hmax, rfl⟩
  · obtain ⟨hmem, hbound⟩ := List.max?_eq_some_iff.mp hmax
    refine .inr ⟨List.mem_map.mp hmem, fun x hx => ?_⟩
    obtain ⟨t, ht, rfl⟩ := hx
    exact hbound _ (List.mem_map_of_mem ht)

/-- What a caller may rely on in a plan for the given tests. -/
structure Schedule.PlanFor (sched : Schedule) (workers : ℤ) (stats : PartialMap String TestStats)
    (risk : RiskIndex) (tests : List TestIdentity) : Prop where
  /-- every test occurs, and none twice -/
  mem_iff : ∀ id, id ∈ sched.tests.map ScheduledTest.testID ↔ id ∈ tests.map TestIdentity.id
  nodup : (sched.tests.map ScheduledTest.testID).Nodup
  worker_range : ∀ t ∈ sched.tests, 0 ≤ t.worker ∧ t.worker < workers
  start_nonneg : ∀ t ∈ sched.tests, 0 ≤ t.estimatedStart
  end_eq : ∀ t ∈ sched.tests, t.estimatedEnd = t.estimatedStart + t.estimatedDuration
  duration_eq : ∀ t ∈ sched.tests, t.estimatedDuration = durationOf stats t.testID
  /-- tests of one worker never overlap -/
  compatible : sched.tests.Pairwise fun a b => a.worker = b.worker →
    ¬ Meets a.estimatedStart a.estimatedEnd b.estimatedStart b.estimatedEnd
  /-- ordered by start, then by worker, then by ID -/
  ordered : sched.tests.Pairwise fun a b => scheduleKey a ≤ scheduleKey b
  /-- the makespan is the latest end -/
  makespan_spec : (sched.tests = [] ∧ sched.expectedMakespan = 0) ∨
    IsGreatest {x | ∃ t ∈ sched.tests, t.estimatedEnd = x} sched.expectedMakespan
  risk_eq : sched.expectedRisk = risk.crossWorkerRisk sched.tests

theorem nodup_eraseDups : ∀ ids : List String, ids.eraseDups.Nodup
  | [] => List.nodup_nil
  | id :: rest => by
    rw [List.eraseDups_cons, List.nodup_cons, List.mem_eraseDups, List.mem_filter]
    exact ⟨fun h => by simp at h, nodup_eraseDups _⟩
termination_by ids => ids.length
decreasing_by exact Nat.lt_succ_of_le (List.length_filter_le _ _)

/-- Every test is placed once. -/
theorem orderRemaining_perm (durations : String → ℚ) (tie : PartialMap String ℚ)
    (tests : List TestIdentity) :
    (orderRemaining durations tie tests).Perm (tests.map TestIdentity.id).eraseDups :=
  List.perm_insertionSort ..

/-- Every policy looks ahead at least at one candidate. -/
theorem policies_lookahead_pos (policy : RiskPolicy) : 0 < (policies policy).lookahead := by
  cases policy <;> exact Nat.succ_pos _

/-- The lanes of the right tests, flattened and sorted, are a plan. -/
theorem Implements.planFor {stats : PartialMap String TestStats} {ids : List String}
    {lanes : List (List ScheduledTest)} (h : Implements (durationOf stats) ids lanes)
    {workers : ℤ} (hlen : (lanes.length : ℤ) = workers) {risk : RiskIndex}
    {tests : List TestIdentity} (hids : ids.Perm (tests.map TestIdentity.id).eraseDups)
    {sched : Schedule}
    (hsorted : sched.tests = lanes.flatten.insertionSort fun a b => scheduleKey a ≤ scheduleKey b)
    (hspan : sched.expectedMakespan = makespan sched.tests)
    (hrisk : sched.expectedRisk = scheduleRisk sched.tests risk) :
    sched.PlanFor workers stats risk tests := by
  have hperm : sched.tests.Perm lanes.flatten := hsorted ▸ List.perm_insertionSort ..
  have hplanned : (sched.tests.map ScheduledTest.testID).Perm
      (tests.map TestIdentity.id).eraseDups :=
    (hperm.map _).trans (h.ids_perm.trans hids)
  have hmem : ∀ {t}, t ∈ sched.tests → t ∈ lanes.flatten := fun ht => hperm.mem_iff.mp ht
  constructor
  · exact fun id => hplanned.mem_iff.trans List.mem_eraseDups
  · exact hplanned.nodup_iff.mpr (nodup_eraseDups _)
  · intro t ht
    obtain ⟨hlow, hhigh, -⟩ := h.sound.mem_flatten (hmem ht)
    rw [hlen] at hhigh
    exact ⟨hlow, hhigh⟩
  · exact fun t ht => (h.sound.mem_flatten (hmem ht)).2.2.1
  · exact fun t ht => (h.sound.mem_flatten (hmem ht)).2.2.2.1
  · exact fun t ht => h.duration_eq t (hmem ht)
  · refine (hperm.pairwise_iff fun {a b} hab hworker hmeets => ?_).mpr h.sound.compatible
    exact hab hworker.symm hmeets.symm
  · have htotal : Std.Total fun a b => scheduleKey a ≤ scheduleKey b :=
      ⟨fun a b => le_total (scheduleKey a) (scheduleKey b)⟩
    have htrans : IsTrans ScheduledTest fun a b => scheduleKey a ≤ scheduleKey b :=
      ⟨fun _ _ _ hab hbc => hab.trans hbc⟩
    rw [hsorted]
    exact List.pairwise_insertionSort ..
  · rw [hspan]
    exact makespan_spec sched.tests
  · exact hrisk.trans (scheduleRisk_eq risk sched.tests)

/-- A scheduler for some worker is made, with a policy that looks ahead. -/
theorem ConflictScheduler.new_eq_ok {workers : ℤ} (hworkers : 1 ≤ workers) (policy : RiskPolicy)
    (seed : ℤ) (riskWeight hardThreshold : Option ℚ) (refinementRounds : ℤ) :
    ∃ s, ConflictScheduler.new workers policy seed riskWeight hardThreshold
      refinementRounds = .ok s ∧ s.workers = workers ∧ 0 < s.params.lookahead := by
  rw [ConflictScheduler.new, if_neg (not_le.mpr hworkers)]
  exact ⟨_, rfl, rfl, policies_lookahead_pos policy⟩

/-- What `static_schedule` does for some worker and a policy that looks ahead. -/
theorem ConflictScheduler.staticSchedule_planFor {s : ConflictScheduler} (hworkers : 1 ≤ s.workers)
    (hlook : 0 < s.params.lookahead) (rt : Runtime) (tests : List TestIdentity)
    (stats : PartialMap String TestStats) (predictions : List PairPrediction)
    (runID : Option String) :
    ∃ sched, s.staticSchedule rt tests stats predictions runID = .ok sched ∧
      sched.workers = s.workers ∧
      sched.PlanFor s.workers stats (RiskIndex.new predictions) tests := by
  have hlanes : (s.start rt tests stats predictions).2.lanes ≠ [] := by
    rw [← List.length_pos_iff, ConflictScheduler.start, List.length_replicate]
    omega
  obtain ⟨placed, hplaced, himpl, hlen⟩ := @Placement.Inv.placeAll
    (s.start rt tests stats predictions).1 _ (durationOf_pos stats) hlook _ _
    (s.start_inv rt tests stats predictions) hlanes (le_refl _)
  have hrefined : Implements (durationOf stats) (s.start rt tests stats predictions).2.remaining
      (s.refineLanes (RiskIndex.new predictions) tests placed.lanes) ∧
          (s.refineLanes (RiskIndex.new predictions) tests placed.lanes).length =
            s.workers.toNat := by
    have hplacedLength : placed.lanes.length = s.workers.toNat :=
      hlen.trans List.length_replicate
    rw [ConflictScheduler.refineLanes]
    split
    · exact refineRounds_lanes (I := fun lanes => Implements (durationOf stats)
          (s.start rt tests stats predictions).2.remaining lanes ∧ lanes.length = s.workers.toNat)
        (fun lanes worker i h => ⟨h.1.swapAndReflow worker i, (List.length_modify ..).trans h.2⟩) _ _
        ⟨himpl, hplacedLength⟩
    · exact ⟨himpl, hplacedLength⟩
  refine ⟨_, by simp only [ConflictScheduler.staticSchedule, hplaced]; rfl, rfl, ?_⟩
  refine hrefined.1.planFor ?_ (orderRemaining_perm _ _ tests) rfl rfl rfl
  rw [hrefined.2, Int.toNat_of_nonneg (zero_le_one.trans hworkers)]

/-- **Plan validity.** For some worker, every policy, any parameters, tests, statistics and
predictions `static_schedule` returns a plan, and raises nothing. -/
theorem staticSchedule_eq_ok {workers : ℤ} (hworkers : 1 ≤ workers) (policy : RiskPolicy) (seed : ℤ)
    (riskWeight hardThreshold : Option ℚ) (refinementRounds : ℤ) (rt : Runtime)
    (tests : List TestIdentity) (stats : PartialMap String TestStats)
    (predictions : List PairPrediction) (runID : Option String) :
    ∃ s sched,
      ConflictScheduler.new workers policy seed riskWeight hardThreshold refinementRounds = .ok s ∧
        s.staticSchedule rt tests stats predictions runID = .ok sched ∧
        sched.PlanFor workers stats (RiskIndex.new predictions) tests := by
  obtain ⟨s, hs, rfl, hlook⟩ := ConflictScheduler.new_eq_ok hworkers policy seed riskWeight
    hardThreshold refinementRounds
  obtain ⟨sched, hsched, -, hplan⟩ := s.staticSchedule_planFor hworkers hlook rt tests stats
    predictions runID
  exact ⟨s, sched, hs, hsched, hplan⟩

/-- Four tests on two workers, one ID collected twice, two tests that must not overlap. -/
theorem staticSchedule_eq_ok_pair :
    ∃ s sched,
      ConflictScheduler.new 2 .safe 42 none (some 0) 4 = .ok s ∧
        s.staticSchedule .reference [.named "a", .named "b", .named "c", .named "a"]
          (statsOf [("a", 10), ("b", 8), ("c", 0)]) [.new "a" "b" 1 "same port"] none = .ok sched ∧
        sched.PlanFor 2 (statsOf [("a", 10), ("b", 8), ("c", 0)])
          (RiskIndex.new [.new "a" "b" 1 "same port"])
          [.named "a", .named "b", .named "c", .named "a"] :=
  staticSchedule_eq_ok (by decide) .safe 42 none (some 0) 4 .reference _ _ _ none

end ConflictGraph.Py
