import ConflictGraph.Outcome
import ConflictGraph.PyScheduler

/-!
# Hard-risk separation in Python

The Python guard fails in ways of its own. Besides a risk that is diluted or rounded below
the threshold and a conflicting test that starts later, the wait ends with the first test
that finishes, whether or not that test is the one in conflict. As for the Go scheduler, a
plan is separated exactly when none of this happens in any round, and each of it can be read
off the lanes before the round.
-/

namespace ConflictGraph.Py

/-! ## Separated plans -/

theorem RiskIndex.probability_comm (risk : RiskIndex) (a b : String) :
    risk.probability a b = risk.probability b a := by
  by_cases h : a = b
  · rw [h]
  · rw [RiskIndex.probability, RiskIndex.probability, if_neg h, if_neg (Ne.symm h),
      stablePair_comm]

/-- The risk of the two tests reaches the threshold. -/
def HardRisk (risk : RiskIndex) (threshold : ℚ) (a b : ScheduledTest) : Prop :=
  threshold ≤ risk.probability a.testID b.testID

instance (risk : RiskIndex) (threshold : ℚ) (a b : ScheduledTest) :
    Decidable (HardRisk risk threshold a b) :=
  inferInstanceAs (Decidable (_ ≤ _))

theorem HardRisk.symm {risk : RiskIndex} {threshold : ℚ} (a b : ScheduledTest)
    (h : HardRisk risk threshold a b) : HardRisk risk threshold b a := by
  rw [HardRisk, risk.probability_comm]
  exact h

/-- No two tests on different workers overlap at or above the threshold. -/
abbrev HardSeparated (risk : RiskIndex) (threshold : ℚ) (tests : List ScheduledTest) : Prop :=
  Separated ScheduledTest.worker ScheduledTest.estimatedStart ScheduledTest.estimatedEnd
    (HardRisk risk threshold) tests

/-! ## What the guard sees -/

/-- No test of another lane whose risk reaches the threshold runs during the slot that
the test would take from `begin` on. -/
def Context.Clear (ctx : Context) (lanes : List (List ScheduledTest)) (worker : ℕ)
    (testID : String) (begin : ℚ) : Prop :=
  ∀ o ∈ others lanes worker, ctx.params.hardThreshold ≤ ctx.risk.probability testID o.testID →
    ¬ Meets begin (begin + ctx.durations testID) o.estimatedStart o.estimatedEnd

/-- The tests that run at `start` and whose risk with the test reaches the threshold. -/
def Context.conflictsAt (ctx : Context) (lanes : List (List ScheduledTest)) (worker : ℕ)
    (start : ℚ) (testID : String) : List ScheduledTest :=
  (overlappingAt lanes start worker).filter fun o =>
    ctx.params.hardThreshold ≤ ctx.risk.probability testID o.testID

/-- What the lanes must look like for the guard to keep the test that a round takes apart from
every test whose risk reaches the threshold, when the worker is free at `start`. -/
structure Context.GuardSuffices (ctx : Context) (lanes : List (List ScheduledTest)) (worker : ℕ)
    (start : ℚ) (testID : String) : Prop where
  /-- where a conflicting test runs, the aggregated and rounded risk reaches the threshold -/
  noticed : ctx.conflictsAt lanes worker start testID ≠ [] →
    ctx.params.hardThreshold ≤ ctx.riskAt lanes worker start testID
  /-- of all tests that run, the conflicting ones end first -/
  first : ∀ o ∈ ctx.conflictsAt lanes worker start testID,
    ∀ r ∈ overlappingAt lanes start worker, o.estimatedEnd ≤ r.estimatedEnd
  /-- without a wait, a conflicting test that starts later leaves time enough from `start` on -/
  room : ctx.riskAt lanes worker start testID < ctx.params.hardThreshold ∨
      overlappingAt lanes start worker = [] →
    ∀ o ∈ others lanes worker, ctx.params.hardThreshold ≤ ctx.risk.probability testID o.testID →
      start < o.estimatedStart →
        o.estimatedEnd ≤ start ∨ start + ctx.durations testID ≤ o.estimatedStart
  /-- after a wait, it is over when the first running test ends, or leaves time enough from
  there on -/
  room_waiting : ctx.params.hardThreshold ≤ ctx.riskAt lanes worker start testID →
    ∀ r ∈ overlappingAt lanes start worker,
      (∀ r' ∈ overlappingAt lanes start worker, r.estimatedEnd ≤ r'.estimatedEnd) →
    ∀ o ∈ others lanes worker, ctx.params.hardThreshold ≤ ctx.risk.probability testID o.testID →
      start < o.estimatedStart →
        o.estimatedEnd ≤ r.estimatedEnd ∨
          r.estimatedEnd + ctx.durations testID ≤ o.estimatedStart

theorem minBy_mem {α κ : Type} [LinearOrder κ] {key : α → κ} {items : List α} {a : α}
    (h : minBy key items = .ok a) : a ∈ items := by
  rw [minBy] at h
  rcases hmin : items.argmin key with _ | b
  · simp only [hmin, reduceCtorEq] at h
  · simp only [hmin, Except.ok.injEq] at h
    exact h ▸ List.argmin_mem hmin

/-- What the placed test and its start are, for a given cheapest candidate. -/
theorem choose_eq_ok {ctx : Context} {lanes : List (List ScheduledTest)} {worker : ℕ} {start : ℚ}
    {candidates : List String} {chosen : String} {placed : String × ℚ}
    (hchosen : minBy (ctx.placementCost lanes worker start) candidates = .ok chosen)
    (h : ctx.choose lanes worker start candidates = .ok placed) :
    (ctx.riskAt lanes worker start chosen < ctx.params.hardThreshold ∧ placed = (chosen, start)) ∨
    (ctx.params.hardThreshold ≤ ctx.riskAt lanes worker start chosen ∧
      overlappingAt lanes start worker = [] ∧ placed = (chosen, start)) ∨
    (ctx.params.hardThreshold ≤ ctx.riskAt lanes worker start chosen ∧
      overlappingAt lanes start worker ≠ [] ∧
      ∃ safe, minBy (ctx.placementCost lanes worker start)
          (ctx.safeCandidates lanes worker start candidates) = .ok safe ∧
        placed = (safe, start)) ∨
    (ctx.params.hardThreshold ≤ ctx.riskAt lanes worker start chosen ∧
      ctx.safeCandidates lanes worker start candidates = [] ∧
      ∃ nextEnd,
        ((overlappingAt lanes start worker).map ScheduledTest.estimatedEnd).min? = some nextEnd ∧
        placed = (chosen, max start nextEnd)) := by
  simp only [Context.choose, hchosen] at h
  by_cases hrisk : ctx.params.hardThreshold ≤ ctx.riskAt lanes worker start chosen
  · by_cases hrun : overlappingAt lanes start worker = []
    · simp only [hrun, ne_eq, not_true_eq_false, and_false, if_false, Except.ok.injEq] at h
      exact Or.inr (Or.inl ⟨hrisk, hrun, h.symm⟩)
    · rw [if_pos ⟨hrisk, hrun⟩] at h
      by_cases hsafe : ctx.safeCandidates lanes worker start candidates = []
      · -- nothing safe: wait for the first end
        simp only [hsafe, ne_eq, not_true_eq_false, if_false] at h
        rcases hend : ((overlappingAt lanes start worker).map ScheduledTest.estimatedEnd).min?
            with _ | nextEnd
        · simp only [hend, reduceCtorEq] at h
        · simp only [hend, Except.ok.injEq] at h
          exact Or.inr (Or.inr (Or.inr ⟨hrisk, hsafe, nextEnd, rfl, h.symm⟩))
      · rw [if_pos hsafe] at h
        rcases hmin : minBy (ctx.placementCost lanes worker start)
            (ctx.safeCandidates lanes worker start candidates) with e | safe
        · simp only [hmin, reduceCtorEq] at h
        · simp only [hmin, Except.ok.injEq] at h
          exact Or.inr (Or.inr (Or.inl ⟨hrisk, hrun, safe, rfl, h.symm⟩))
  · rw [if_neg fun hand => hrisk hand.1] at h
    exact Or.inl ⟨not_le.mp hrisk, (Except.ok.inj h).symm⟩

/-- When the test that a round takes starts: at once, where its risk is below the threshold or
nothing runs, and else at the first end of what runs. -/
theorem start_of_choose {ctx : Context} {lanes : List (List ScheduledTest)} {worker : ℕ}
    {start begin : ℚ} {candidates : List String} {testID : String}
    (h : ctx.choose lanes worker start candidates = .ok (testID, begin)) :
    (begin = start ∧ (ctx.riskAt lanes worker start testID < ctx.params.hardThreshold ∨
      overlappingAt lanes start worker = [])) ∨
    (ctx.params.hardThreshold ≤ ctx.riskAt lanes worker start testID ∧
      ∃ r ∈ overlappingAt lanes start worker, begin = r.estimatedEnd ∧
        ∀ r' ∈ overlappingAt lanes start worker, r.estimatedEnd ≤ r'.estimatedEnd) := by
  rcases hchosen : minBy (ctx.placementCost lanes worker start) candidates with e | chosen
  · simp only [Context.choose, hchosen, reduceCtorEq] at h
  · rcases choose_eq_ok hchosen h with ⟨hrisk, hplaced⟩ | ⟨-, hrun, hplaced⟩ |
        ⟨-, -, safe, hsafe, hplaced⟩ | ⟨hrisk, -, nextEnd, hend, hplaced⟩
    · obtain ⟨rfl, rfl⟩ := Prod.mk.inj hplaced
      exact Or.inl ⟨rfl, Or.inl hrisk⟩
    · obtain ⟨rfl, rfl⟩ := Prod.mk.inj hplaced
      exact Or.inl ⟨rfl, Or.inr hrun⟩
    · -- the safe candidate is below the threshold by its choice
      obtain ⟨rfl, rfl⟩ := Prod.mk.inj hplaced
      have hbelow := (List.mem_filter.mp (minBy_mem hsafe)).2
      exact Or.inl ⟨rfl, Or.inl (of_decide_eq_true hbelow)⟩
    · obtain ⟨rfl, rfl⟩ := Prod.mk.inj hplaced
      obtain ⟨hmem, hleast⟩ := List.min?_eq_some_iff.mp hend
      obtain ⟨r, hr, rfl⟩ := List.mem_map.mp hmem
      have hruns : start < r.estimatedEnd := (of_decide_eq_true (List.mem_filter.mp hr).2).2
      exact Or.inr ⟨hrisk, r, hr, max_eq_right hruns.le, fun r' hr' =>
        hleast _ (List.mem_map_of_mem hr')⟩

theorem mem_overlappingAt {lanes : List (List ScheduledTest)} {instant : ℚ} {worker : ℕ}
    {o : ScheduledTest} :
    o ∈ overlappingAt lanes instant worker ↔
      o ∈ others lanes worker ∧ o.estimatedStart ≤ instant ∧ instant < o.estimatedEnd := by
  rw [overlappingAt, List.mem_filter, decide_eq_true_eq]

theorem mem_conflictsAt {ctx : Context} {lanes : List (List ScheduledTest)} {worker : ℕ}
    {start : ℚ} {testID : String} {o : ScheduledTest} :
    o ∈ ctx.conflictsAt lanes worker start testID ↔ o ∈ overlappingAt lanes start worker ∧
      ctx.params.hardThreshold ≤ ctx.risk.probability testID o.testID := by
  rw [Context.conflictsAt, List.mem_filter, decide_eq_true_eq]

/-- **One round, exactly.** The slot that the round takes is clear if and only if the guard
suffices. -/
theorem guardSuffices_iff_clear {ctx : Context} {lanes : List (List ScheduledTest)} {worker : ℕ}
    {start begin : ℚ} {candidates : List String} {testID : String}
    (hpos : 0 < ctx.durations testID)
    (h : ctx.choose lanes worker start candidates = .ok (testID, begin)) :
    ctx.GuardSuffices lanes worker start testID ↔ ctx.Clear lanes worker testID begin := by
  rcases start_of_choose h with ⟨rfl, hstill⟩ | ⟨hrisk, r, hr, rfl, hfirst⟩
  · refine ⟨?_, fun hclear => ?_⟩
    · rintro hguard o ho hhard ⟨hbefore, hafter⟩
      rcases lt_or_ge begin o.estimatedStart with hlater | hstarted
      · rcases hguard.room hstill o ho hhard hlater with hover | hfits
        · exact absurd hbefore (not_lt.mpr hover)
        · exact absurd hafter (not_lt.mpr hfits)
      · -- it runs, so the guard must have waited
        have hruns := mem_overlappingAt.mpr ⟨ho, hstarted, hbefore⟩
        rcases hstill with hbelow | hnil
        · exact absurd hbelow (not_lt.mpr
            (hguard.noticed (List.ne_nil_of_mem (mem_conflictsAt.mpr ⟨hruns, hhard⟩))))
        · exact absurd hruns (List.eq_nil_iff_forall_not_mem.mp hnil o)
    · have hnone : ∀ o, o ∉ ctx.conflictsAt lanes worker begin testID := by
        intro o ho
        obtain ⟨hruns, hhard⟩ := mem_conflictsAt.mp ho
        obtain ⟨hmem, hstarted, hends⟩ := mem_overlappingAt.mp hruns
        exact hclear o hmem hhard ⟨hends, hstarted.trans_lt (lt_add_of_pos_right _ hpos)⟩
      refine ⟨fun hne => absurd (List.eq_nil_iff_forall_not_mem.mpr hnone) hne,
        fun o ho => absurd ho (hnone o), fun _ o ho hhard _ => ?_, fun hle r hr => ?_⟩
      · have hapart := hclear o ho hhard
        rw [Meets, not_and_or, not_lt, not_lt] at hapart
        exact hapart
      · rcases hstill with hbelow | hnil
        · exact absurd hle (not_le.mpr hbelow)
        · exact absurd hr (List.eq_nil_iff_forall_not_mem.mp hnil r)
  · obtain ⟨-, -, hends⟩ := mem_overlappingAt.mp hr
    refine ⟨?_, fun hclear => ?_⟩
    · rintro hguard o ho hhard ⟨hbefore, hafter⟩
      rcases lt_or_ge start o.estimatedStart with hlater | hstarted
      · rcases hguard.room_waiting hrisk r hr hfirst o ho hhard hlater with hover | hfits
        · exact absurd hbefore (not_lt.mpr hover)
        · exact absurd hafter (not_lt.mpr hfits)
      · have hruns := mem_overlappingAt.mpr ⟨ho, hstarted, hends.trans hbefore⟩
        exact absurd hbefore (not_lt.mpr
          (hguard.first o (mem_conflictsAt.mpr ⟨hruns, hhard⟩) r hr))
    · refine ⟨fun _ => hrisk, fun o ho r' hr' => ?_, fun hstill => ?_,
        fun _ r' hr' hfirst' o ho hhard _ => ?_⟩
      · obtain ⟨hruns, hhard⟩ := mem_conflictsAt.mp ho
        obtain ⟨hmem, hstarted, -⟩ := mem_overlappingAt.mp hruns
        by_contra hlate
        refine hclear o hmem hhard ⟨(hfirst r' hr').trans_lt (not_le.mp hlate), ?_⟩
        exact (hstarted.trans_lt hends).trans (lt_add_of_pos_right _ hpos)
      · rcases hstill with hbelow | hnil
        · exact absurd hrisk (not_le.mpr hbelow)
        · exact absurd hr (List.eq_nil_iff_forall_not_mem.mp hnil r)
      · have hsame : r'.estimatedEnd = r.estimatedEnd :=
          le_antisymm (hfirst' r hr) (hfirst r' hr')
        have hapart := hclear o ho hhard
        rw [Meets, not_and_or, not_lt, not_lt] at hapart
        rw [hsame]
        exact hapart

/-! ## The placement loop -/

/-- What a successful round does. -/
theorem place_eq_ok {ctx : Context} {p q : Placement} (h : ctx.place p = .ok q) :
    ∃ worker first chosen start, p.worker = .ok worker ∧
      minBy (ctx.placementCost p.lanes worker (p.laneEnd worker))
        (p.remaining.take ctx.params.lookahead) = .ok first ∧
      ctx.choose p.lanes worker (p.laneEnd worker)
        (p.remaining.take ctx.params.lookahead) = .ok (chosen, start) ∧
      q = ⟨push p.lanes worker (ctx.scheduled p.lanes worker chosen start),
        p.laneEnds.set worker (ctx.scheduled p.lanes worker chosen start).estimatedEnd,
        p.remaining.erase chosen⟩ := by
  rw [Context.place] at h
  rcases hworker : p.worker with e | worker
  · simp only [hworker, reduceCtorEq] at h
  · rcases hchoose : ctx.choose p.lanes worker (p.laneEnd worker)
        (p.remaining.take ctx.params.lookahead) with e | ⟨chosen, start⟩
    · simp only [hworker, hchoose, reduceCtorEq] at h
    · simp only [hworker, hchoose, Except.ok.injEq] at h
      rcases hfirst : minBy (ctx.placementCost p.lanes worker (p.laneEnd worker))
          (p.remaining.take ctx.params.lookahead) with e | first
      · simp only [Context.choose, hfirst, reduceCtorEq] at hchoose
      · exact ⟨worker, first, chosen, start, rfl, hfirst, hchoose, h.symm⟩

/-- The guard of one round misses nothing. -/
def Context.RoundGuarded (ctx : Context) (p : Placement) : Prop :=
  ∀ worker chosen start, p.worker = .ok worker →
    ctx.choose p.lanes worker (p.laneEnd worker)
      (p.remaining.take ctx.params.lookahead) = .ok (chosen, start) →
    ctx.GuardSuffices p.lanes worker (p.laneEnd worker) chosen

/-- The step lemma: a round keeps the plan separated exactly when its guard misses
nothing. -/
theorem hardSeparated_place {ctx : Context} (hpos : ∀ id, 0 < ctx.durations id) {p q : Placement}
    (hindexed : Indexed ScheduledTest.worker p.lanes) (h : ctx.place p = .ok q) :
    Indexed ScheduledTest.worker q.lanes ∧
      (HardSeparated ctx.risk ctx.params.hardThreshold q.lanes.flatten ↔
        HardSeparated ctx.risk ctx.params.hardThreshold p.lanes.flatten ∧
          ctx.RoundGuarded p) := by
  obtain ⟨worker, first, chosen, start, hworker, -, hchoose, rfl⟩ := place_eq_ok h
  have hlt : worker < p.lanes.length := List.mem_range.mp (minBy_mem hworker)
  have hguard := guardSuffices_iff_clear (hpos chosen) hchoose
  refine ⟨hindexed.push (List.getElem?_eq_getElem hlt) rfl, ?_⟩
  refine (separated_push HardRisk.symm hindexed hlt rfl).trans (and_congr_right fun _ => ?_)
  refine (show _ ↔ ctx.Clear p.lanes worker chosen start from Iff.rfl).trans
    (hguard.symm.trans ?_)
  refine ⟨fun hsuffices worker' chosen' start' hworker' hchoose' => ?_, ?_⟩
  · obtain rfl := Except.ok.inj (hworker.symm.trans hworker')
    obtain ⟨rfl, -⟩ := Prod.mk.inj (Except.ok.inj (hchoose.symm.trans hchoose'))
    exact hsuffices
  · exact fun hround => hround worker chosen start hworker hchoose

/-- The run lemma: the placed plan is separated exactly when the loop started from a
separated one and no round's guard missed anything. -/
theorem hardSeparated_placeAll {ctx : Context} (hpos : ∀ id, 0 < ctx.durations id) :
    ∀ (fuel : ℕ) (p q : Placement), Indexed ScheduledTest.worker p.lanes →
      ctx.placeAll fuel p = .ok q →
      (HardSeparated ctx.risk ctx.params.hardThreshold q.lanes.flatten ↔
        HardSeparated ctx.risk ctx.params.hardThreshold p.lanes.flatten ∧
          ∀ visit ∈ ctx.trace fuel p, ctx.RoundGuarded visit) := by
  intro fuel
  induction fuel with
  | zero =>
    intro p q _ h
    obtain rfl := Except.ok.inj h
    simp only [Context.trace, List.not_mem_nil, false_implies, implies_true, and_true]
  | succ fuel ih =>
    intro p q hindexed h
    rw [Context.placeAll] at h
    rw [Context.trace]
    by_cases hrem : p.remaining = []
    · rw [if_pos hrem] at h
      obtain rfl := Except.ok.inj h
      simp only [if_pos hrem, List.not_mem_nil, false_implies, implies_true, and_true]
    · rw [if_neg hrem] at h
      rw [if_neg hrem]
      rcases hplace : ctx.place p with e | next
      · rw [hplace] at h
        cases h
      · rw [hplace] at h
        obtain ⟨hindexed', hstep⟩ := hardSeparated_place hpos hindexed hplace
        rw [ih next q hindexed' h, hstep, List.forall_mem_cons, and_assoc]

/-! ## Separation of the plan that `static_schedule` returns -/

/-- No round of `static_schedule` has a guard that misses something. -/
def ConflictScheduler.GuardsSuffice (s : ConflictScheduler) (rt : Runtime)
    (tests : List TestIdentity) (stats : PartialMap String TestStats)
    (predictions : List PairPrediction) : Prop :=
  ∀ visit ∈ (s.start rt tests stats predictions).1.trace
      (s.start rt tests stats predictions).2.remaining.length
      (s.start rt tests stats predictions).2,
    (s.start rt tests stats predictions).1.RoundGuarded visit

/-- The plan that `static_schedule` returns is separated. -/
def ConflictScheduler.PlanSeparated (s : ConflictScheduler) (rt : Runtime)
    (tests : List TestIdentity) (stats : PartialMap String TestStats)
    (predictions : List PairPrediction) (runID : Option String) : Prop :=
  OnOk (s.staticSchedule rt tests stats predictions runID) fun sched =>
    HardSeparated (RiskIndex.new predictions) s.params.hardThreshold sched.tests

instance (s : ConflictScheduler) (rt : Runtime) (tests : List TestIdentity)
    (stats : PartialMap String TestStats) (predictions : List PairPrediction)
    (runID : Option String) : Decidable (s.PlanSeparated rt tests stats predictions runID) :=
  inferInstanceAs (Decidable (OnOk _ _))

/-- A runtime that draws `1/2, 1/3, …` and computes exactly. -/
def Runtime.reference : Runtime := ⟨fun n => 1 / (n + 2), .exact, "schedule", "run", 0⟩

/-- Durations by test ID. -/
def statsOf (durations : List (String × ℚ)) : PartialMap String TestStats :=
  fun id => (durations.lookup id).map fun duration => { durationEMA := duration }

/-- A collected test whose node carries its ID. -/
def TestIdentity.named (id : String) : TestIdentity := { id := id, nodeID := id }

/-- Three workers under the safe policy, without refinement. -/
def ConflictScheduler.unrefined : ConflictScheduler := ⟨3, .safe, 42, policies .safe, 0⟩

/-- A risk equal to the threshold escapes the guard where rounding takes it below: here to the
nearest tenth. -/
example :
    ¬ ConflictScheduler.PlanSeparated
      { ConflictScheduler.unrefined with
        params := { policies .safe with hardThreshold := 34 / 100 } }
      { Runtime.reference with rounding := .grid 10 (by decide) } [.named "a", .named "b"]
      (statsOf [("a", 10), ("b", 8)]) [.new "a" "b" (34 / 100) "same port"] none := by
  decide +kernel

end ConflictGraph.Py
