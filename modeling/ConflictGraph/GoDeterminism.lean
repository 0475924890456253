import ConflictGraph.GoRisk

/-!
# Determinism

Two runs of `Build` with one seed differ in what the Go runtime chooses: the order in
which `remaining` is iterated, and which sorted permutation `sort.Slice` returns. They may
also be given the predictions in another order. None of this reaches the plan, as long as
the seed draws different ties for different tests and the machines round alike. The two runs
are simulated side by side: the candidates of a round have one sorted order only, so both
rounds place the same test in the same way, and the final sort has one result only, because a
worker never starts two tests at once.
-/

namespace ConflictGraph.Go

/-! ## One sorted order -/

/-- Two runtimes sort two orders of a list to the same list, if no two of its elements are
incomparable. -/
theorem sortSlice_eq_sortSlice {α : Type} {less : α → α → Bool} (hless : StrictOrder less)
    (rt rt' : Runtime) {xs ys : List α} (hperm : xs.Perm ys)
    (hties : ∀ a ∈ xs, ∀ b ∈ xs, less a b = false → less b a = false → a = b) :
    rt.sortSlice less xs = rt'.sortSlice less ys := by
  have hxs := rt.sortSlice_perm less xs
  have hys := rt'.sortSlice_perm less ys
  refine List.Perm.eq_of_pairwise (fun a b ha hb hba hab => ?_)
    (rt.sortSlice_sorted hless xs) (rt'.sortSlice_sorted hless ys)
    (hxs.trans (hperm.trans hys.symm))
  exact hties a (hxs.mem_iff.mp ha) b (hperm.mem_iff.mpr (hys.mem_iff.mp hb)) hab hba

/-! ## What depends on the risk index only through its answers -/

section Probability

variable {risk risk' : RiskIndex} (h : risk'.probability = risk.probability)

include h

/-- A risk index that answers the same gives the same risk. -/
theorem placementRisk_congr (rounding : Rounding) (testID : String) (start stop : ℚ)
    (lanes : List Lane) (worker : ℕ) :
    placementRisk rounding testID start stop lanes worker risk' =
      placementRisk rounding testID start stop lanes worker risk := by
  have hstep : placementRiskStep rounding testID start stop risk' =
      placementRiskStep rounding testID start stop risk := by
    funext acc other
    simp only [placementRiskStep, h]
  rw [placementRisk, placementRisk, hstep]

theorem earliestConflictingEnd_congr (testID : String) (now : ℚ) (lanes : List Lane) (worker : ℕ)
    (threshold : ℚ) :
    earliestConflictingEnd testID now lanes worker risk' threshold =
      earliestConflictingEnd testID now lanes worker risk threshold := by
  simp only [earliestConflictingEnd, runningConflicts, h]

/-- And the same risk of a schedule. -/
theorem scheduleRisk_congr (tests : List ScheduledTest) :
    scheduleRisk tests risk' = scheduleRisk tests risk := by
  have hstep : ∀ left, scheduleRiskAgainst left risk' = scheduleRiskAgainst left risk := by
    intro left
    funext total right
    simp only [scheduleRiskAgainst, h]
  have hfrom : ∀ (tests : List ScheduledTest) (total : ℚ),
      scheduleRiskFrom risk' total tests = scheduleRiskFrom risk total tests := by
    intro tests
    induction tests with
    | nil => exact fun _ => rfl
    | cons left rest ih =>
      intro total
      rw [scheduleRiskFrom, scheduleRiskFrom, hstep, ih]
  exact hfrom tests 0

/-- Refinement does the same. -/
theorem refine_congr (lanes : List Lane) (weight : ℚ) :
    refine lanes risk' weight = refine lanes risk weight := by
  have hobjective : ∀ lanes, objective lanes risk' weight = objective lanes risk weight := by
    intro lanes
    rw [objective, objective, scheduleRisk_congr h]
  have htry : trySwap risk' weight = trySwap risk weight := by
    funext worker s i
    simp only [trySwap, hobjective]
  have hlane : refineLane risk' weight = refineLane risk weight := by
    funext s worker
    simp only [refineLane, htry]
  simp only [refine, hlane, hobjective]

theorem refineRounds_congr (weight : ℚ) : ∀ (rounds : ℕ) (lanes : List Lane),
    refineRounds risk' weight rounds lanes = refineRounds risk weight rounds lanes := by
  intro rounds
  induction rounds with
  | zero => exact fun _ => rfl
  | succ rounds ih =>
    intro lanes
    simp only [refineRounds, refine_congr h, ih]

theorem refineLanes_congr (s : Scheduler) (tests : List Test) (lanes : List Lane) :
    s.refineLanes risk' tests lanes = s.refineLanes risk tests lanes := by
  simp only [Scheduler.refineLanes, refineRounds_congr h]

end Probability

/-! ## One round, twice -/

/-- Two contexts that differ only in their runtimes, and in how the risk index is stored. -/
structure Context.Agrees (ctx ctx' : Context) : Prop where
  parameters_eq : ctx'.parameters = ctx.parameters
  tie_eq : ctx'.tie = ctx.tie
  probability_eq : ctx'.risk.probability = ctx.risk.probability
  rounding_eq : ctx'.runtime.rounding = ctx.runtime.rounding

/-- Different tests have different ties. -/
def Context.TiesDistinct (ctx : Context) (remaining : List Test) : Prop :=
  ∀ a ∈ remaining, ∀ b ∈ remaining, ctx.tieOf a.id = ctx.tieOf b.id → a = b

/-- A candidate comes first if it is longer, or as long with a smaller tie. -/
theorem Context.candidateLess_eq_true {ctx : Context} {a b : Test} :
    ctx.candidateLess a b = true ↔ b.durationEMA < a.durationEMA ∨
      a.durationEMA = b.durationEMA ∧ ctx.tieOf a.id < ctx.tieOf b.id := by
  rw [Context.candidateLess]
  by_cases h : a.durationEMA = b.durationEMA
  · rw [if_pos h, decide_eq_true_eq, h]
    simp
  · rw [if_neg h, decide_eq_true_eq]
    simp [h]

theorem Context.candidateLess_eq_false {ctx : Context} {a b : Test} :
    ctx.candidateLess b a = false ↔ b.durationEMA < a.durationEMA ∨
      a.durationEMA = b.durationEMA ∧ ctx.tieOf a.id ≤ ctx.tieOf b.id := by
  rw [← Bool.not_eq_true, Context.candidateLess_eq_true, not_or, not_lt, not_and, not_lt,
    le_iff_lt_or_eq]
  refine ⟨?_, ?_⟩
  · rintro ⟨hlt | heq, htie⟩
    · exact Or.inl hlt
    · exact Or.inr ⟨heq.symm, htie heq⟩
  · rintro (hlt | ⟨heq, htie⟩)
    · exact ⟨Or.inl hlt, fun h => absurd h hlt.ne⟩
    · exact ⟨Or.inr heq.symm, fun _ => htie⟩

/-- The candidates are sorted by a comparison that `sort.Slice` accepts. -/
theorem Context.candidateLess_strictOrder (ctx : Context) : StrictOrder ctx.candidateLess where
  irrefl a := Context.candidateLess_eq_false.mpr (Or.inr ⟨rfl, le_refl _⟩)
  trans a b c hab hbc := by
    rw [Context.candidateLess_eq_true] at *
    rcases hab with hab | ⟨hab, hab'⟩ <;> rcases hbc with hbc | ⟨hbc, hbc'⟩
    · exact Or.inl (hbc.trans hab)
    · exact Or.inl (hbc ▸ hab)
    · exact Or.inl (hab ▸ hbc)
    · exact Or.inr ⟨hab.trans hbc, hab'.trans hbc'⟩
  incomparable a b c hab hbc := by
    rw [Context.candidateLess_eq_false] at *
    rcases hab with hab | ⟨hab, hab'⟩ <;> rcases hbc with hbc | ⟨hbc, hbc'⟩
    · exact Or.inl (hab.trans hbc)
    · exact Or.inl (hbc ▸ hab)
    · exact Or.inl (hab ▸ hbc)
    · exact Or.inr ⟨hbc.trans hab, hbc'.trans hab'⟩

namespace Context.Agrees

variable {ctx ctx' : Context}

theorem tieOf_eq (h : ctx.Agrees ctx') : ctx'.tieOf = ctx.tieOf := by
  funext id
  rw [Context.tieOf, Context.tieOf, h.tie_eq]

/-- Contexts that agree order the candidates alike. -/
theorem candidateLess_eq (h : ctx.Agrees ctx') : ctx'.candidateLess = ctx.candidateLess := by
  funext a b
  rw [Context.candidateLess, Context.candidateLess, h.tieOf_eq]

/-- Both runs look at the same candidates, in the same order. -/
theorem candidates_eq (h : ctx.Agrees ctx') (round : ℕ) {remaining : List Test}
    (hties : ctx.TiesDistinct remaining) :
    ctx'.candidates round remaining = ctx.candidates round remaining := by
  have hmap := ctx.runtime.mapOrder_perm round remaining
  have hmap' := ctx'.runtime.mapOrder_perm round remaining
  have hsorted : ctx'.runtime.sortSlice ctx.candidateLess (ctx'.runtime.mapOrder round remaining) =
      ctx.runtime.sortSlice ctx.candidateLess (ctx.runtime.mapOrder round remaining) := by
    refine sortSlice_eq_sortSlice ctx.candidateLess_strictOrder _ _ (hmap'.trans hmap.symm) ?_
    intro a ha b hb hab hba
    -- neither comes first: the durations are equal, and then the ties are
    rw [Context.candidateLess_eq_false] at hab hba
    refine hties a (hmap'.mem_iff.mp ha) b (hmap'.mem_iff.mp hb) ?_
    rcases hab with hab | ⟨hdur, hab⟩ <;> rcases hba with hba | ⟨hdur', hba⟩
    · exact absurd hba (lt_asymm hab)
    · exact absurd hdur' hab.ne
    · exact absurd hdur hba.ne
    · exact le_antisymm hba hab
  simp only [Context.candidates, h.candidateLess_eq, hsorted, h.parameters_eq]

theorem riskAt_eq (h : ctx.Agrees ctx') : ctx'.riskAt = ctx.riskAt := by
  funext lanes worker start test
  rw [Context.riskAt, Context.riskAt, placementRisk_congr h.probability_eq, h.rounding_eq]

/-- They bid alike. -/
theorem cost_eq (h : ctx.Agrees ctx') : ctx'.cost = ctx.cost := by
  funext lanes worker start candidate
  simp only [Context.cost, h.riskAt_eq, h.parameters_eq]

/-- And schedule alike. -/
theorem scheduled_eq (h : ctx.Agrees ctx') : ctx'.scheduled = ctx.scheduled := by
  funext lanes worker start best
  simp only [Context.scheduled, Context.startFor, h.riskAt_eq,
    earliestConflictingEnd_congr h.probability_eq, h.parameters_eq]

/-- The step lemma of the simulation: a round does the same in both runs. -/
theorem place_eq (h : ctx.Agrees ctx') (round : ℕ) {p : Placement}
    (hties : ctx.TiesDistinct p.remaining) : ctx'.place round p = ctx.place round p := by
  simp only [Context.place, Context.chosen, h.candidates_eq round hties, h.cost_eq, h.scheduled_eq]

/-- The run lemma of the simulation: so do all rounds. -/
theorem placeAll_eq (h : ctx.Agrees ctx') : ∀ (fuel round : ℕ) {p : Placement},
    ctx.TiesDistinct p.remaining → ctx'.placeAll fuel round p = ctx.placeAll fuel round p := by
  intro fuel
  induction fuel with
  | zero => exact fun _ _ _ => rfl
  | succ fuel ih =>
    intro round p hties
    rw [Context.placeAll, Context.placeAll, h.place_eq round hties]
    split
    · rfl
    · rcases hplace : ctx.place round p with failure | q
      · rfl
      · obtain ⟨lane, best, -, -, rfl⟩ := place_eq_ok hplace
        exact ih (round + 1) fun a ha b hb =>
          hties a (List.mem_of_mem_filter ha) b (List.mem_of_mem_filter hb)

end Context.Agrees

/-! ## The draws -/

/-- What the first loop of `Build` has done with the tests so far: each has its own draw. -/
structure Drawn (draw : ℕ → ℚ) (remaining : List Test) (tie : PartialMap String ℚ) : Prop where
  tie_eq : ∀ (i : ℕ) (t : Test), remaining[i]? = some t → tie t.id = some (draw i)
  duration_pos : ∀ t ∈ remaining, 0 < t.durationEMA
  id_nodup : (remaining.map Test.id).Nodup

theorem Drawn.empty (draw : ℕ → ℚ) : Drawn draw [] PartialMap.empty :=
  ⟨fun i t h => absurd h (by rw [List.getElem?_nil]; exact Option.some_ne_none t ∘ Eq.symm), nofun,
    List.nodup_nil⟩

/-- The step lemma of the first loop. -/
theorem Drawn.concat {draw : ℕ → ℚ} {remaining : List Test} {tie : PartialMap String ℚ}
    (h : Drawn draw remaining tie) {test : Test}
    (hfresh : remaining.any (fun other => other.id = test.id) = false) :
    Drawn draw (remaining ++ [test.withDefaultDuration])
      (tie.insert test.id (draw remaining.length)) := by
  rw [List.any_eq_false] at hfresh
  simp only [decide_eq_true_eq] at hfresh
  refine ⟨fun i t hi => ?_, ?_, ?_⟩
  · rcases lt_or_ge i remaining.length with hlt | hge
    · rw [List.getElem?_append_left hlt] at hi
      rw [PartialMap.insert_of_ne _ _ (hfresh t (List.mem_of_getElem? hi))]
      exact h.tie_eq i t hi
    · rw [List.getElem?_append_right hge] at hi
      have hlast : i - remaining.length = 0 := by
        have hlt := (List.getElem?_eq_some_iff.mp hi).1
        rw [List.length_singleton] at hlt
        omega
      rw [hlast] at hi
      obtain rfl := Option.some.inj hi
      rw [Test.withDefaultDuration_id, PartialMap.insert_self, le_antisymm hge (by omega)]
  · exact List.forall_mem_append.mpr
      ⟨h.duration_pos, List.forall_mem_singleton.mpr test.withDefaultDuration_pos⟩
  · rw [List.map_append, List.map_singleton, Test.withDefaultDuration_id, ← List.concat_eq_append,
      List.nodup_concat]
    refine ⟨fun hmem => ?_, h.id_nodup⟩
    obtain ⟨other, hother, hid⟩ := List.mem_map.mp hmem
    exact hfresh other hother hid

/-- The run lemma of the first loop. -/
theorem drawn_of_intake {draw : ℕ → ℚ} {tests : List Test} :
    ∀ {remaining remaining' : List Test} {tie tie' : PartialMap String ℚ},
      Drawn draw remaining tie →
      intake draw remaining.length tests remaining tie = .ok (remaining', tie') →
      Drawn draw remaining' tie' ∧ remaining'.length = remaining.length + tests.length := by
  induction tests with
  | nil =>
    intro remaining remaining' tie tie' hdrawn h
    obtain ⟨rfl, rfl⟩ := Prod.mk.inj (Except.ok.inj h)
    exact ⟨hdrawn, rfl⟩
  | cons test rest ih =>
    intro remaining remaining' tie tie' hdrawn h
    rw [intake] at h
    rcases hvalid : test.validate with text | accepted
    · simp only [hvalid, reduceCtorEq] at h
    · rcases hfresh : remaining.any fun other => other.id = test.id with _ | _
      · simp only [hvalid, hfresh, Bool.false_eq_true, if_false] at h
        have hlen : (remaining ++ [test.withDefaultDuration]).length = remaining.length + 1 :=
          List.length_append
        rw [← hlen] at h
        obtain ⟨hdrawn', hlen'⟩ := ih (hdrawn.concat hfresh) h
        refine ⟨hdrawn', hlen'.trans ?_⟩
        rw [hlen, List.length_cons]
        omega
      · simp only [hvalid, hfresh, if_true, reduceCtorEq] at h

/-- The placement loop starts with its invariant, whatever tests it was given. -/
theorem Drawn.inv {draw : ℕ → ℚ} {remaining : List Test} {tie : PartialMap String ℚ}
    (h : Drawn draw remaining tie) (workers : ℕ) :
    Placement.Inv (remaining.map Test.job) ⟨List.replicate workers ⟨[], 0⟩, remaining⟩ := by
  refine ⟨lanesSound_replicate _, h.duration_pos, h.id_nodup, ?_⟩
  rw [flatMap_replicate_empty, List.map_nil, List.nil_append]

/-- Distinct draws are distinct ties. -/
theorem Drawn.tiesDistinct {ctx : Context} {draw : ℕ → ℚ} {remaining : List Test}
    (h : Drawn draw remaining ctx.tie)
    (hdraws : ∀ i < remaining.length, ∀ j < remaining.length, draw i = draw j → i = j) :
    ctx.TiesDistinct remaining := by
  intro a ha b hb htie
  obtain ⟨i, hi⟩ := List.mem_iff_getElem?.mp ha
  obtain ⟨j, hj⟩ := List.mem_iff_getElem?.mp hb
  rw [Context.tieOf, Context.tieOf, h.tie_eq i a hi, h.tie_eq j b hj] at htie
  have hij := hdraws i (List.getElem?_eq_some_iff.mp hi).1 j (List.getElem?_eq_some_iff.mp hj).1 htie
  rw [hij] at hi
  exact Option.some.inj (hi.symm.trans hj)

/-! ## The lanes of a run that places everything -/

/-- Whatever every round keeps, the placement loop keeps. -/
theorem placeAll_invariant {ctx : Context} {I : Placement → Prop}
    (hplace : ∀ {round p q}, I p → ctx.place round p = .ok q → I q) :
    ∀ {fuel round : ℕ} {p q : Placement}, I p → ctx.placeAll fuel round p = .ok q → I q := by
  intro fuel
  induction fuel with
  | zero =>
    intro round p q hp h
    exact Except.ok.inj h ▸ hp
  | succ fuel ih =>
    intro round p q hp h
    rw [Context.placeAll] at h
    split at h
    · exact Except.ok.inj h ▸ hp
    · rcases hnext : ctx.place round p with failure | next
      · simp only [hnext, reduceCtorEq] at h
      · simp only [hnext] at h
        exact ih (hplace hp hnext) h

/-- The tests of sound lanes have one order by start and worker only. -/
theorem LanesSound.startLess_antisymm {lanes : List Lane} (h : LanesSound lanes) :
    ∀ a ∈ lanes.flatMap Lane.tests, ∀ b ∈ lanes.flatMap Lane.tests,
      startLess a b = false → startLess b a = false → a = b := by
  intro a ha b hb hab hba
  rw [startLess_eq_false] at hab hba
  obtain ⟨hstart, hworker⟩ :
      a.estimatedStart = b.estimatedStart ∧ a.worker = b.worker := by
    rcases hab with hab | ⟨hab, hab'⟩ <;> rcases hba with hba | ⟨hba, hba'⟩
    · exact absurd hba (lt_asymm hab)
    · exact absurd hba hab.ne'
    · exact absurd hab hba.ne'
    · exact ⟨hba, le_antisymm hba' hab'⟩
  by_contra hne
  have hsymm : Std.Symm ScheduledTest.Compatible := ⟨fun _ _ hcompatible => hcompatible.symm⟩
  obtain ⟨-, -, -, hend, hpos⟩ := h.mem_flatMap ha
  obtain ⟨-, -, -, hend', hpos'⟩ := h.mem_flatMap hb
  refine h.compatible.forall ha hb hne hworker ⟨?_, ?_⟩
  · rw [hend', hstart]
    exact lt_add_of_pos_right _ hpos'
  · rw [hend, hstart]
    exact lt_add_of_pos_right _ hpos

/-- `Build` never leaves unsound lanes. -/
theorem Scheduler.lanesSound_of_place {s : Scheduler} {rt : Runtime} {risk : RiskIndex}
    {tests : List Test} {placed : List Lane} (h : s.place rt risk tests = .ok placed) :
    LanesSound (s.refineLanes risk tests placed) := by
  rw [Scheduler.place] at h
  rcases hintake : intake rt.float64 0 tests [] PartialMap.empty with text | ⟨remaining, tie⟩
  · simp only [hintake, reduceCtorEq] at h
  · by_cases hworkers : s.workers < 0
    · simp only [hintake, if_pos hworkers, reduceCtorEq] at h
    · rcases hplace : (Context.mk s.parameters risk tie rt).placeAll remaining.length 0
          ⟨List.replicate s.workers.toNat ⟨[], 0⟩, remaining⟩ with failure | p
      · simp only [hintake, if_neg hworkers, hplace, reduceCtorEq] at h
      · simp only [hintake, if_neg hworkers, hplace, Except.ok.injEq] at h
        obtain ⟨hdrawn, -⟩ := drawn_of_intake (Drawn.empty rt.float64) hintake
        have hinv := placeAll_invariant (fun hp hnext => (hp.place hnext).1)
          (hdrawn.inv s.workers.toNat) hplace
        rw [← h]
        have himpl : Implements ((p.lanes.flatMap Lane.tests).map ScheduledTest.job) p.lanes :=
          ⟨hinv.sound, List.Perm.refl _⟩
        exact (himpl.refineLanes s risk tests).sound

/-! ## Two runs of `Build` -/

/-- With one seed the placement phase ends in the same way. -/
theorem Scheduler.place_eq_place {s : Scheduler} {rt rt' : Runtime} {risk risk' : RiskIndex}
    {tests : List Test} (hprobability : risk'.probability = risk.probability)
    (hseed : rt'.float64 = rt.float64) (hrounding : rt'.rounding = rt.rounding)
    (hdraws : ∀ i < tests.length, ∀ j < tests.length, rt.float64 i = rt.float64 j → i = j) :
    s.place rt' risk' tests = s.place rt risk tests := by
  rw [Scheduler.place, Scheduler.place, hseed]
  rcases hintake : intake rt.float64 0 tests [] PartialMap.empty with text | ⟨remaining, tie⟩
  · rfl
  · obtain ⟨hdrawn, hlen⟩ := drawn_of_intake (Drawn.empty rt.float64) hintake
    rw [List.length_nil, zero_add] at hlen
    rw [← hlen] at hdraws
    have hagrees : (Context.mk s.parameters risk tie rt).Agrees ⟨s.parameters, risk', tie, rt'⟩ :=
      ⟨rfl, rfl, hprobability, hrounding⟩
    have hall := @Context.Agrees.placeAll_eq _ _ hagrees remaining.length 0
      ⟨List.replicate s.workers.toNat ⟨[], 0⟩, remaining⟩ (hdrawn.tiesDistinct hdraws)
    dsimp only
    rw [hall]

/-- `Validate` looks at the IDs only to see whether they are empty. -/
theorem Schedule.validate_congr {sched sched' : Schedule} (hid : sched.id ≠ "")
    (hid' : sched'.id ≠ "") (hrun : sched.runID ≠ "") (hrun' : sched'.runID ≠ "")
    (hworkers : sched'.workers = sched.workers) (hpolicy : sched'.policy = sched.policy)
    (htests : sched'.tests = sched.tests) : sched'.validate = sched.validate := by
  rw [Schedule.validate, Schedule.validate, if_neg (not_or.mpr ⟨hid, hrun⟩),
    if_neg (not_or.mpr ⟨hid', hrun'⟩), hworkers, hpolicy, htests]

theorem Scheduler.result_runID_ne (s : Scheduler) (rt : Runtime) (runID : String) (risk : RiskIndex)
    (lanes : List Lane) : (s.result rt runID risk lanes).runID ≠ "" := by
  rw [Scheduler.result]
  dsimp only
  split
  · exact rt.runUUID_ne
  · assumption

/-- What the seed is to determine: the scheduled tests, the makespan and the risk. -/
def Schedule.plan (sched : Schedule) : List ScheduledTest × ℚ × ℚ :=
  (sched.tests, sched.expectedMakespan, sched.expectedRisk)

/-- **The seed determines the plan.** Two runs with one seed, whose draws are distinct, on
machines that round alike, and with the same predictions in any two orders return the same plan,
or both return none. -/
theorem build_plan_eq (s : Scheduler) {rt rt' : Runtime} (runID runID' : String)
    {tests : List Test} {predictions predictions' : List Prediction}
    (hseed : rt'.float64 = rt.float64) (hrounding : rt'.rounding = rt.rounding)
    (hdraws : ∀ i < tests.length, ∀ j < tests.length, rt.float64 i = rt.float64 j → i = j)
    (hperm : predictions.Perm predictions') :
    (s.build rt' runID' tests predictions').toOption.map Schedule.plan =
      (s.build rt runID tests predictions).toOption.map Schedule.plan := by
  rcases hrisk : newRiskIndex predictions with text | risk
  · rcases hrisk' : newRiskIndex predictions' with text' | risk'
    · simp only [Scheduler.build, hrisk, hrisk']
      rfl
    · obtain ⟨risk, hok, -⟩ := newRiskIndex_perm hperm.symm hrisk'
      rw [hok] at hrisk
      cases hrisk
  · obtain ⟨risk', hrisk', hprobability⟩ := newRiskIndex_perm hperm hrisk
    have hplace := Scheduler.place_eq_place (s := s) hprobability hseed hrounding hdraws
    rcases hplaced : s.place rt risk tests with failure | placed
    · simp only [Scheduler.build, hrisk, hrisk', hplace, hplaced]
    · have hlanes := refineLanes_congr hprobability s tests placed
      have hsound := Scheduler.lanesSound_of_place hplaced
      have htests : (s.result rt' runID' risk' (s.refineLanes risk tests placed)).tests =
          (s.result rt runID risk (s.refineLanes risk tests placed)).tests :=
        sortSlice_eq_sortSlice startLess_strictOrder rt' rt (List.Perm.refl _)
          hsound.startLess_antisymm
      have hplan : (s.result rt' runID' risk' (s.refineLanes risk tests placed)).plan =
          (s.result rt runID risk (s.refineLanes risk tests placed)).plan :=
        Prod.ext htests (Prod.ext rfl
          ((scheduleRisk_congr hprobability _).trans (congrArg (scheduleRisk · risk) htests)))
      have hvalidate : (s.result rt' runID' risk' (s.refineLanes risk tests placed)).validate =
          (s.result rt runID risk (s.refineLanes risk tests placed)).validate :=
        Schedule.validate_congr rt.scheduleUUID_ne rt'.scheduleUUID_ne
          (s.result_runID_ne rt runID risk _) (s.result_runID_ne rt' runID' risk' _) rfl rfl htests
      simp only [Scheduler.build, hrisk, hrisk', hplace, hplaced, hlanes, hvalidate]
      rcases (s.result rt runID risk (s.refineLanes risk tests placed)).validate with text | accepted
      · rfl
      · exact congrArg some hplan

/-- A runtime that visits maps the other way round. -/
def Runtime.backwards : Runtime :=
  { Runtime.reference with
    mapOrder := fun _ tests => tests.reverse
    mapOrder_perm := fun _ tests => tests.reverse_perm }

theorem build_plan_eq_backwards :
    (Scheduler.balanced.build .backwards "run" [.lasting "a" 3, .lasting "b" 3, .lasting "c" 3]
        [.certain "b" "c", .certain "a" "b"]).toOption.map Schedule.plan =
      (Scheduler.balanced.build .reference "run" [.lasting "a" 3, .lasting "b" 3, .lasting "c" 3]
        [.certain "a" "b", .certain "b" "c"]).toOption.map Schedule.plan :=
  build_plan_eq .balanced "run" "run" rfl rfl (by decide +kernel) (List.Perm.swap ..)

end ConflictGraph.Go
