import ConflictGraph.GoPlacementRisk

/-!
# Hard-risk separation

The guard of the placement loop is meant to keep two tests apart whose risk reaches
the hard threshold. It looks once at the slot at the end of the lane: if the
aggregated risk there reaches the threshold, it moves the slot to the earliest end of
a conflicting test that runs at that instant. Three things escape it: a running test
whose risk the aggregation dilutes or the rounding pushes under the threshold, a second
running test that ends later than the first, and a conflicting test that was itself
delayed and starts too soon after the slot.

Whether a plan is separated is decided by exactly these three. Each can be read off the
lanes before the round that places a test.
-/

namespace ConflictGraph.Go

/-! ## Separated plans -/

/-- The risk of the two tests reaches the threshold. -/
def HardRisk (risk : RiskIndex) (threshold : ℚ) (a b : ScheduledTest) : Prop :=
  threshold ≤ risk.probability a.testID b.testID

instance (risk : RiskIndex) (threshold : ℚ) (a b : ScheduledTest) :
    Decidable (HardRisk risk threshold a b) :=
  inferInstanceAs (Decidable (_ ≤ _))

theorem HardRisk.symm {risk : RiskIndex} {threshold : ℚ} (a b : ScheduledTest)
    (h : HardRisk risk threshold a b) : HardRisk risk threshold b a := by
  rw [HardRisk, risk.probability_comm]
  exact h

/-- No two tests on different workers overlap at or above the threshold. -/
abbrev HardSeparated (risk : RiskIndex) (threshold : ℚ) (tests : List ScheduledTest) : Prop :=
  Separated ScheduledTest.worker ScheduledTest.estimatedStart ScheduledTest.estimatedEnd
    (HardRisk risk threshold) tests

/-! ## What the guard sees -/

/-- No test of another lane whose risk reaches the threshold runs during the slot that
`best` would take from `begin` on. -/
def Context.Clear (ctx : Context) (lanes : List Lane) (worker : ℕ) (best : Test) (begin : ℚ) :
    Prop :=
  ∀ o ∈ otherTests lanes worker,
    ctx.parameters.hardThreshold ≤ ctx.risk.probability best.id o.testID →
      ¬ Meets begin (begin + best.durationEMA) o.estimatedStart o.estimatedEnd

section Guard

variable (ctx : Context) (lanes : List Lane) (worker : ℕ) (start : ℚ) (best : Test)

/-- The tests of other lanes that run at `start` and whose risk with `best` reaches the
threshold. -/
abbrev Context.running : List ScheduledTest :=
  runningConflicts best.id start lanes worker ctx.risk ctx.parameters.hardThreshold

/-- The instant at which the last of them ends, `start` if there is none. -/
def Context.lastEnd : ℚ :=
  ((ctx.running lanes worker start best).map ScheduledTest.estimatedEnd).foldl max start

/-- What the lanes must look like for the guard to keep `best` apart from every test whose risk
reaches the threshold, when the worker is free at `start`. -/
structure Context.GuardSuffices : Prop where
  /-- where a conflicting test runs, the aggregated and rounded risk reaches the threshold -/
  noticed : ctx.running lanes worker start best ≠ [] →
    ctx.parameters.hardThreshold ≤ (ctx.riskAt lanes worker start best).1
  /-- all conflicting tests that run end together -/
  together : ∀ o ∈ ctx.running lanes worker start best,
    ∀ o' ∈ ctx.running lanes worker start best, o.estimatedEnd = o'.estimatedEnd
  /-- a conflicting test that starts later is over when the last running one ends, or leaves
  time enough from there on -/
  room : ∀ o ∈ otherTests lanes worker,
    ctx.parameters.hardThreshold ≤ ctx.risk.probability best.id o.testID →
      start < o.estimatedStart →
        o.estimatedEnd ≤ ctx.lastEnd lanes worker start best ∨
          ctx.lastEnd lanes worker start best + best.durationEMA ≤ o.estimatedStart

end Guard

theorem mem_runningConflicts {testID : String} {now threshold : ℚ} {lanes : List Lane}
    {worker : ℕ} {risk : RiskIndex} {o : ScheduledTest} :
    o ∈ runningConflicts testID now lanes worker risk threshold ↔
      o ∈ otherTests lanes worker ∧ o.estimatedStart ≤ now ∧ now < o.estimatedEnd ∧
        threshold ≤ risk.probability testID o.testID := by
  rw [runningConflicts, List.mem_filter, decide_eq_true_eq]

/-- The loop of `earliestConflictingEnd` goes on with the first end it has seen. -/
theorem exists_firstEnd (rest : List ScheduledTest) :
    ∀ first : ScheduledTest, ∃ found ∈ first :: rest,
      rest.foldl (fun best other =>
        match best with
        | none => some other.estimatedEnd
        | some e => some (min e other.estimatedEnd)) (some first.estimatedEnd) =
          some found.estimatedEnd ∧
      ∀ o ∈ first :: rest, found.estimatedEnd ≤ o.estimatedEnd := by
  induction rest with
  | nil =>
    exact fun first => ⟨first, List.mem_singleton_self first, rfl,
      List.forall_mem_singleton.mpr le_rfl⟩
  | cons other rest ih =>
    intro first
    -- the test that is kept is one of the two, and ends no later than either
    have hkept : ∃ kept, (kept = first ∨ kept = other) ∧
        kept.estimatedEnd = min first.estimatedEnd other.estimatedEnd := by
      rcases le_total first.estimatedEnd other.estimatedEnd with hle | hle
      · exact ⟨first, Or.inl rfl, (min_eq_left hle).symm⟩
      · exact ⟨other, Or.inr rfl, (min_eq_right hle).symm⟩
    obtain ⟨kept, hone, hend⟩ := hkept
    obtain ⟨found, hfound, hfold, hleast⟩ := ih kept
    rw [List.forall_mem_cons] at hleast
    refine ⟨found, ?_, ?_, ?_⟩
    · rcases List.mem_cons.mp hfound with rfl | hrest
      · rcases hone with rfl | rfl
        · exact List.mem_cons_self
        · exact List.mem_cons_of_mem _ List.mem_cons_self
      · exact List.mem_cons_of_mem _ (List.mem_cons_of_mem _ hrest)
    · rw [List.foldl_cons]
      dsimp only
      rw [← hend, hfold]
    · rw [hend, le_min_iff] at hleast
      exact List.forall_mem_cons.mpr
        ⟨hleast.1.1, List.forall_mem_cons.mpr ⟨hleast.1.2, hleast.2⟩⟩

/-- `earliestConflictingEnd` finds nothing where no conflicting test runs, and otherwise the
first end of those. -/
theorem earliestConflictingEnd_spec (testID : String) (now : ℚ) (lanes : List Lane) (worker : ℕ)
    (risk : RiskIndex) (threshold : ℚ) :
    (runningConflicts testID now lanes worker risk threshold = [] ∧
      earliestConflictingEnd testID now lanes worker risk threshold = none) ∨
    ∃ first ∈ runningConflicts testID now lanes worker risk threshold,
      earliestConflictingEnd testID now lanes worker risk threshold = some first.estimatedEnd ∧
        ∀ o ∈ runningConflicts testID now lanes worker risk threshold,
          first.estimatedEnd ≤ o.estimatedEnd := by
  rw [earliestConflictingEnd]
  rcases runningConflicts testID now lanes worker risk threshold with _ | ⟨first, rest⟩
  · exact Or.inl ⟨rfl, rfl⟩
  · exact Or.inr (exists_firstEnd rest first)

section Guard

variable {ctx : Context} {lanes : List Lane} {worker : ℕ} {start : ℚ} {best : Test}

theorem lastEnd_of_nil (h : ctx.running lanes worker start best = []) :
    ctx.lastEnd lanes worker start best = start := by
  rw [Context.lastEnd, h]
  rfl

/-- The last end is the end of every test that runs, if they end together. -/
theorem lastEnd_of_together (h : ∀ o ∈ ctx.running lanes worker start best,
      ∀ o' ∈ ctx.running lanes worker start best, o.estimatedEnd = o'.estimatedEnd) :
    ∀ o ∈ ctx.running lanes worker start best,
      ctx.lastEnd lanes worker start best = o.estimatedEnd := by
  intro o ho
  obtain ⟨hmem, hbound⟩ := isGreatest_foldl_max ScheduledTest.estimatedEnd
    (ctx.running lanes worker start best) start
  rw [Context.lastEnd, List.foldl_map]
  rcases hmem with hstart | ⟨o', ho', hend⟩
  · have hle := hbound (Or.inr ⟨o, ho, rfl⟩)
    rw [hstart] at hle
    exact absurd (mem_runningConflicts.mp ho).2.2.1 (not_lt.mpr hle)
  · rw [← hend]
    exact h o' ho' o ho

/-- A guard that notices conflicts which end together starts `best` at their end. -/
theorem startFor_eq_lastEnd
    (hnoticed : ctx.running lanes worker start best ≠ [] →
      ctx.parameters.hardThreshold ≤ (ctx.riskAt lanes worker start best).1)
    (htogether : ∀ o ∈ ctx.running lanes worker start best,
      ∀ o' ∈ ctx.running lanes worker start best, o.estimatedEnd = o'.estimatedEnd) :
    ctx.startFor lanes worker start best = ctx.lastEnd lanes worker start best := by
  rw [Context.startFor]
  rcases earliestConflictingEnd_spec best.id start lanes worker ctx.risk
      ctx.parameters.hardThreshold with ⟨hnil, hnone⟩ | ⟨first, hfirst, hsome, -⟩
  · rw [hnone, lastEnd_of_nil hnil]
    exact ite_self start
  · rw [hsome, if_pos (hnoticed (List.ne_nil_of_mem hfirst)),
      lastEnd_of_together htogether first hfirst]

/-- **One round, exactly.** The slot that the guard settles on is clear if and only if the guard
suffices. -/
theorem guardSuffices_iff_clear (hpos : 0 < best.durationEMA) :
    ctx.GuardSuffices lanes worker start best ↔
      ctx.Clear lanes worker best (ctx.startFor lanes worker start best) := by
  refine ⟨fun h o ho hrisk hmeets => ?_, fun hclear => ?_⟩
  · rw [startFor_eq_lastEnd h.noticed h.together] at hmeets
    obtain ⟨hbefore, hafter⟩ := hmeets
    by_cases hrunning : o ∈ ctx.running lanes worker start best
    · exact absurd hbefore (lastEnd_of_together h.together o hrunning).not_lt
    · rcases lt_or_ge start o.estimatedStart with hlater | hstarted
      · rcases h.room o ho hrisk hlater with hover | hfits
        · exact absurd hbefore (not_lt.mpr hover)
        · exact absurd hafter (not_lt.mpr hfits)
      · -- it has started and does not run: it is over
        have hover : o.estimatedEnd ≤ start := by
          by_contra hruns
          exact hrunning (mem_runningConflicts.mpr ⟨ho, hstarted, not_le.mp hruns, hrisk⟩)
        have hle : start ≤ ctx.lastEnd lanes worker start best := by
          rw [← startFor_eq_lastEnd h.noticed h.together]
          exact le_startFor lanes worker start best
        exact absurd hbefore (not_lt.mpr (hover.trans hle))
  · have hsettled : start ≤ ctx.startFor lanes worker start best := le_startFor ..
    -- what runs at the start is over when the slot begins
    have hover : ∀ o ∈ ctx.running lanes worker start best,
        o.estimatedEnd ≤ ctx.startFor lanes worker start best := by
      intro o ho
      obtain ⟨hmem, hstarted, -, hrisk⟩ := mem_runningConflicts.mp ho
      by_contra hruns
      exact hclear o hmem hrisk
        ⟨not_le.mp hruns, (hstarted.trans hsettled).trans_lt (lt_add_of_pos_right _ hpos)⟩
    have hnoticed : ctx.running lanes worker start best ≠ [] →
        ctx.parameters.hardThreshold ≤ (ctx.riskAt lanes worker start best).1 := by
      intro hne
      obtain ⟨o, ho⟩ := List.exists_mem_of_ne_nil _ hne
      by_contra hsilent
      have hend := hover o ho
      rw [Context.startFor, if_neg hsilent] at hend
      exact absurd (mem_runningConflicts.mp ho).2.2.1 (not_lt.mpr hend)
    have htogether : ∀ o ∈ ctx.running lanes worker start best,
        ∀ o' ∈ ctx.running lanes worker start best, o.estimatedEnd = o'.estimatedEnd := by
      rcases earliestConflictingEnd_spec best.id start lanes worker ctx.risk
          ctx.parameters.hardThreshold with ⟨hnil, -⟩ | ⟨first, hfirst, hsome, hleast⟩
      · exact fun o ho => absurd ho (List.eq_nil_iff_forall_not_mem.mp hnil o)
      · have hslot : ctx.startFor lanes worker start best = first.estimatedEnd := by
          rw [Context.startFor, hsome, if_pos (hnoticed (List.ne_nil_of_mem hfirst))]
        have hfirstEnd : ∀ o ∈ ctx.running lanes worker start best,
            o.estimatedEnd = first.estimatedEnd := fun o ho =>
          le_antisymm ((hover o ho).trans_eq hslot) (hleast o ho)
        exact fun o ho o' ho' => (hfirstEnd o ho).trans (hfirstEnd o' ho').symm
    refine ⟨hnoticed, htogether, fun o ho hrisk _ => ?_⟩
    have hapart := hclear o ho hrisk
    rw [startFor_eq_lastEnd hnoticed htogether, Meets, not_and_or, not_lt, not_lt] at hapart
    exact hapart

/-- Without rounding, a conflict that runs beside the whole of the shorter test is noticed. -/
theorem noticed_of_exact (hexact : ctx.runtime.rounding = .exact) (hbounded : ctx.risk.Bounded)
    {o : ScheduledTest} (ho : o ∈ ctx.running lanes worker start best)
    (hwhole : max (1 / 1000) (min best.durationEMA o.estimatedDuration) ≤
      overlap start (start + best.durationEMA) o.estimatedStart o.estimatedEnd) :
    ctx.parameters.hardThreshold ≤ (ctx.riskAt lanes worker start best).1 := by
  obtain ⟨hmem, -, -, hrisk⟩ := mem_runningConflicts.mp ho
  rw [Context.riskAt, hexact]
  exact hrisk.trans (hbounded.probability_le_placementRisk
    (t := ⟨best.id, best.nodeID, worker, start, start + best.durationEMA, best.durationEMA, 0, []⟩)
    rfl hmem hwhole)

end Guard

/-- The guard of one round misses nothing. -/
def Context.RoundGuarded (ctx : Context) (round : ℕ) (p : Placement) : Prop :=
  ∀ best, ctx.chosen round p = some best →
    ctx.GuardSuffices p.lanes (earliestLane p.lanes) (laneEnd p.lanes (earliestLane p.lanes)) best

/-- The step lemma: a round keeps the plan separated exactly when its guard misses
nothing. -/
theorem hardSeparated_place {ctx : Context} {jobs : List Job} {round : ℕ} {p q : Placement}
    (hinv : p.Inv jobs) (h : ctx.place round p = .ok q) :
    HardSeparated ctx.risk ctx.parameters.hardThreshold (q.lanes.flatMap Lane.tests) ↔
      HardSeparated ctx.risk ctx.parameters.hardThreshold (p.lanes.flatMap Lane.tests) ∧
        ctx.RoundGuarded round p := by
  obtain ⟨lane, best, hlane, hbest, rfl⟩ := place_eq_ok h
  have hlt : earliestLane p.lanes < p.lanes.length := (List.getElem?_eq_some_iff.mp hlane).1
  refine (separated_appendTo HardRisk.symm hinv.sound.indexed hlt rfl).trans
    (and_congr_right fun _ => ?_)
  have hguard := @guardSuffices_iff_clear ctx p.lanes (earliestLane p.lanes) lane.endAt best
    (hinv.duration_pos best (mem_of_chosen hbest))
  refine ⟨fun hclear best' hbest' => ?_, fun hround => ?_⟩
  · rw [hbest] at hbest'
    rw [← Option.some.inj hbest', laneEnd_eq hlane]
    exact hguard.mpr hclear
  · have hsuffices := hround best hbest
    rw [laneEnd_eq hlane] at hsuffices
    exact hguard.mp hsuffices

/-- The run lemma: the placed plan is separated exactly when the loop started from a
separated one and no round's guard missed anything. -/
theorem hardSeparated_placeAll {ctx : Context} {jobs : List Job} :
    ∀ (fuel round : ℕ) (p q : Placement), p.Inv jobs → ctx.placeAll fuel round p = .ok q →
      (HardSeparated ctx.risk ctx.parameters.hardThreshold (q.lanes.flatMap Lane.tests) ↔
        HardSeparated ctx.risk ctx.parameters.hardThreshold (p.lanes.flatMap Lane.tests) ∧
          ∀ visit ∈ ctx.trace fuel round p, ctx.RoundGuarded visit.1 visit.2) := by
  intro fuel
  induction fuel with
  | zero =>
    intro round p q _ h
    obtain rfl := Except.ok.inj h
    simp only [Context.trace, List.not_mem_nil, false_implies, implies_true, and_true]
  | succ fuel ih =>
    intro round p q hinv h
    rw [Context.placeAll] at h
    rw [Context.trace]
    by_cases hrem : p.remaining = []
    · rw [if_pos hrem] at h
      obtain rfl := Except.ok.inj h
      simp only [if_pos hrem, List.not_mem_nil, false_implies, implies_true, and_true]
    · rw [if_neg hrem] at h
      rw [if_neg hrem]
      rcases hplace : ctx.place round p with failure | next
      · rw [hplace] at h
        cases h
      · rw [hplace] at h
        rw [ih (round + 1) next q (hinv.place hplace).1 h, hardSeparated_place hinv hplace,
          List.forall_mem_cons, and_assoc]

/-! ## Separation of the plan that `Build` returns -/

/-- No round of the placement loop of `Build` has a guard that misses something. -/
def Scheduler.GuardsSuffice (s : Scheduler) (rt : Runtime) (tests : List Test)
    (predictions : List Prediction) : Prop :=
  OnOk (newRiskIndex predictions) fun risk =>
    OnOk (intake rt.float64 0 tests [] PartialMap.empty) fun start =>
      ∀ visit ∈ (Context.mk s.parameters risk start.2 rt).trace start.1.length 0
          ⟨List.replicate s.workers.toNat ⟨[], 0⟩, start.1⟩,
        (Context.mk s.parameters risk start.2 rt).RoundGuarded visit.1 visit.2

/-- The plan that `Build` returns is separated. -/
def Scheduler.PlanSeparated (s : Scheduler) (rt : Runtime) (runID : String) (tests : List Test)
    (predictions : List Prediction) : Prop :=
  OnOk (newRiskIndex predictions) fun risk =>
    OnOk (s.build rt runID tests predictions) fun sched =>
      HardSeparated risk s.parameters.hardThreshold sched.tests

instance (s : Scheduler) (rt : Runtime) (runID : String) (tests : List Test)
    (predictions : List Prediction) : Decidable (s.PlanSeparated rt runID tests predictions) :=
  inferInstanceAs (Decidable (OnOk _ _))

/-- Three workers under the safe policy, without refinement. -/
def Scheduler.unrefined : Scheduler :=
  ⟨3, .safe, 0, { parametersFor .safe with refinementRounds := 0 }⟩

/-- A risk equal to the threshold escapes the guard where rounding takes it below: here to the
nearest tenth. -/
example :
    ¬ Scheduler.PlanSeparated
      { Scheduler.unrefined with
        parameters := { Scheduler.unrefined.parameters with hardThreshold := 34 / 100 } }
      { Runtime.reference with rounding := .grid 10 (by decide) } "run"
      [.lasting "a" 10, .lasting "b" 8]
      [{ Prediction.certain "a" "b" with probability := 34 / 100 }] := by
  decide +kernel

end ConflictGraph.Go
