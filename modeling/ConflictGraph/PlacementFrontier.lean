import ConflictGraph.Frontier
import ConflictGraph.GoMakespan
import ConflictGraph.PyPlan

/-!
# What a new placement can overlap

Both schedulers give the next test to the worker whose lane ends first, and let it start
there or, when it has to wait, later. In every state that the placement loop reaches, all
but the last test of a lane have then ended, so a new placement overlaps at most one test
of each other worker. A delay leaves a gap on a lane and a test that starts in the future,
and changes nothing of this.
-/

namespace ConflictGraph

/-! ## The Go scheduler -/

namespace Go

/-- The states that the placement loop of `Build` reaches, with what it keeps fixed and
the number of rounds so far. -/
inductive Scheduler.Reaches (s : Scheduler) (rt : Runtime) (tests : List Test)
    (predictions : List Prediction) : Context → ℕ → Placement → Prop
  | start {risk : RiskIndex} {remaining : List Test} {tie : PartialMap String ℚ}
      (hrisk : newRiskIndex predictions = .ok risk)
      (hintake : intake rt.float64 0 tests [] PartialMap.empty = .ok (remaining, tie)) :
      s.Reaches rt tests predictions ⟨s.parameters, risk, tie, rt⟩ 0
        ⟨List.replicate s.workers.toNat ⟨[], 0⟩, remaining⟩
  | round {ctx : Context} {n : ℕ} {p q : Placement} (h : s.Reaches rt tests predictions ctx n p)
      (hrem : p.remaining ≠ []) (hplace : ctx.place n p = .ok q) :
      s.Reaches rt tests predictions ctx (n + 1) q

/-- Rounds of the loop lead from a state that is reached to one that is. -/
theorem Scheduler.Reaches.placeAll {s : Scheduler} {rt : Runtime} {tests : List Test}
    {predictions : List Prediction} {ctx : Context} :
    ∀ (fuel : ℕ) {n : ℕ} {p q : Placement}, s.Reaches rt tests predictions ctx n p →
      ctx.placeAll fuel n p = .ok q → ∃ m, s.Reaches rt tests predictions ctx m q := by
  intro fuel
  induction fuel with
  | zero => exact fun h hrun => ⟨_, Except.ok.inj hrun ▸ h⟩
  | succ fuel ih =>
    intro n p q h hrun
    rw [Context.placeAll] at hrun
    by_cases hrem : p.remaining = []
    · rw [if_pos hrem] at hrun
      exact ⟨n, Except.ok.inj hrun ▸ h⟩
    · rw [if_neg hrem] at hrun
      rcases hplace : ctx.place n p with failure | next
      · simp only [hplace, reduceCtorEq] at hrun
      · simp only [hplace] at hrun
        exact ih (h.round hrem hplace) hrun

/-- What `intake` lets through has a positive duration. -/
theorem duration_pos_of_intake {draw : ℕ → ℚ} {tests : List Test} :
    ∀ {n : ℕ} {remaining remaining' : List Test} {tie tie' : PartialMap String ℚ},
      (∀ t ∈ remaining, 0 < t.durationEMA) →
      intake draw n tests remaining tie = .ok (remaining', tie') →
      ∀ t ∈ remaining', 0 < t.durationEMA := by
  induction tests with
  | nil =>
    intro n remaining remaining' tie tie' hpos h
    obtain ⟨rfl, -⟩ := Prod.mk.inj (Except.ok.inj h)
    exact hpos
  | cons test rest ih =>
    intro n remaining remaining' tie tie' hpos h
    rw [intake] at h
    rcases hvalid : test.validate with text | valid
    · simp only [hvalid, reduceCtorEq] at h
    · simp only [hvalid] at h
      split at h
      · cases h
      · refine ih (List.forall_mem_append.mpr ⟨hpos, ?_⟩) h
        exact List.forall_mem_singleton.mpr test.withDefaultDuration_pos

/-- The invariant of the placement loop. -/
structure Placement.Overtaken (p : Placement) : Prop where
  sound : LanesSound p.lanes
  duration_pos : ∀ t ∈ p.remaining, 0 < t.durationEMA
  overtaken : ConflictGraph.Overtaken ScheduledTest.estimatedEnd 0 (board p.lanes)

section Round

variable {ctx : Context} {n : ℕ} {p q : Placement}

theorem getElem?_board {lanes : List Lane} {i : ℕ} {lane : Lane} (h : lanes[i]? = some lane) :
    (board lanes)[i]? = some lane.tests := by
  rw [List.getElem?_map, h, Option.map_some]

/-- The lane that ends first, as a lane of the board. -/
theorem lastStop_earliestLane_le (h : LanesSound p.lanes) {lane : Lane}
    (hlane : p.lanes[earliestLane p.lanes]? = some lane) :
    ∀ other ∈ board p.lanes, lastStop ScheduledTest.estimatedEnd 0 lane.tests ≤
      lastStop ScheduledTest.estimatedEnd 0 other := by
  intro other hother
  obtain ⟨lane', hlane', rfl⟩ := List.mem_map.mp hother
  obtain ⟨i, hi⟩ := List.mem_iff_getElem?.mp hlane'
  rw [← (h _ lane hlane).endAt_eq, ← (h i lane' hi).endAt_eq]
  exact laneEnd_earliestLane_le hlane hlane'

/-- The step lemma: a round keeps the invariant, and no lane ends earlier than before. -/
theorem Placement.Overtaken.place (h : p.Overtaken) (hplace : ctx.place n p = .ok q) :
    q.Overtaken ∧ ∀ i, laneEnd p.lanes i ≤ laneEnd q.lanes i := by
  obtain ⟨lane, best, hlane, hbest, rfl⟩ := place_eq_ok hplace
  have hpos := h.duration_pos best (mem_of_chosen hbest)
  have hlater : lane.endAt ≤
      (ctx.scheduled p.lanes (earliestLane p.lanes) lane.endAt best).estimatedStart :=
    le_startFor ..
  have hstop : lane.endAt ≤
      (ctx.scheduled p.lanes (earliestLane p.lanes) lane.endAt best).estimatedEnd :=
    hlater.trans (le_add_of_nonneg_right hpos.le)
  have hsound := h.sound _ lane hlane
  refine ⟨⟨h.sound.appendTo hlane rfl rfl hpos hlater,
    fun t ht => h.duration_pos t (List.mem_of_mem_filter ht), ?_⟩, fun i => ?_⟩
  · rw [board_appendTo]
    exact h.overtaken.push (getElem?_board hlane) (hsound.endAt_eq ▸ hsound.end_le)
      (lastStop_earliestLane_le h.sound hlane) (hsound.endAt_eq ▸ hstop)
  -- only the lane that was chosen ends at another instant
  · rcases eq_or_ne i (earliestLane p.lanes) with rfl | hne
    · rw [laneEnd_eq hlane, laneEnd_eq (getElem?_appendTo_self hlane _)]
      exact hstop
    · rw [laneEnd, laneEnd, getElem?_appendTo_ne hne]

/-- At the end of the lane that ends first, only last tests of other lanes still run. -/
theorem Placement.Overtaken.onlyLastAfter (h : p.Overtaken) {i : ℕ} {lane : Lane}
    (hlane : p.lanes[i]? = some lane) :
    OnlyLastAfter ScheduledTest.estimatedEnd (laneEnd p.lanes (earliestLane p.lanes))
      lane.tests := by
  have hlt := earliestLane_lt (List.ne_nil_of_mem (List.mem_of_getElem? hlane))
  have hfirst := List.getElem?_eq_getElem hlt
  rw [laneEnd_eq hfirst, (h.sound _ _ hfirst).endAt_eq]
  exact h.overtaken.onlyLastAfter (List.mem_of_getElem? (getElem?_board hfirst))
    (List.mem_of_getElem? (getElem?_board hlane))

end Round

theorem Scheduler.Reaches.overtaken {s : Scheduler} {rt : Runtime} {tests : List Test}
    {predictions : List Prediction} {ctx : Context} {n : ℕ} {p : Placement}
    (h : s.Reaches rt tests predictions ctx n p) : p.Overtaken := by
  induction h with
  | start hrisk hintake =>
    refine ⟨lanesSound_replicate _, duration_pos_of_intake (List.forall_mem_nil _) hintake, ?_⟩
    rw [board, List.map_replicate]
    exact overtaken_replicate _
  | round _ _ hplace ih => exact (ih.place hplace).1

end Go

/-! ## The Python scheduler -/

namespace Py

/-- The states that the placement loop of `static_schedule` reaches. -/
inductive ConflictScheduler.Reaches (s : ConflictScheduler) (rt : Runtime)
    (tests : List TestIdentity) (stats : PartialMap String TestStats)
    (predictions : List PairPrediction) : Placement → Prop
  | start : s.Reaches rt tests stats predictions (s.start rt tests stats predictions).2
  | round {p q : Placement} (h : s.Reaches rt tests stats predictions p)
      (hrem : p.remaining ≠ [])
      (hplace : (s.start rt tests stats predictions).1.place p = .ok q) :
      s.Reaches rt tests stats predictions q

/-- Rounds of the loop lead from a state that is reached to one that is. -/
theorem ConflictScheduler.Reaches.placeAll {s : ConflictScheduler} {rt : Runtime}
    {tests : List TestIdentity} {stats : PartialMap String TestStats}
    {predictions : List PairPrediction} :
    ∀ (fuel : ℕ) {p q : Placement}, s.Reaches rt tests stats predictions p →
      (s.start rt tests stats predictions).1.placeAll fuel p = .ok q →
      s.Reaches rt tests stats predictions q := by
  intro fuel
  induction fuel with
  | zero => exact fun h hrun => Except.ok.inj hrun ▸ h
  | succ fuel ih =>
    intro p q h hrun
    rw [Context.placeAll] at hrun
    by_cases hrem : p.remaining = []
    · rw [if_pos hrem] at hrun
      exact Except.ok.inj hrun ▸ h
    · rw [if_neg hrem] at hrun
      rcases hplace : (s.start rt tests stats predictions).1.place p with e | next
      · simp only [hplace, reduceCtorEq] at hrun
      · simp only [hplace] at hrun
        exact ih (h.round hrem hplace) hrun

section Round

variable {ctx : Context} {ids : List String} {p q : Placement}

/-- `min` with a key returns an element of least key. -/
theorem minBy_le {α κ : Type} [LinearOrder κ] {key : α → κ} {items : List α} {a : α}
    (h : minBy key items = .ok a) : ∀ b ∈ items, key a ≤ key b := by
  intro b hb
  rw [minBy] at h
  rcases hmin : items.argmin key with _ | least
  · simp only [hmin, reduceCtorEq] at h
  · simp only [hmin, Except.ok.injEq] at h
    rw [← h]
    exact List.le_of_mem_argmin hb hmin

theorem Placement.Inv.lastStop_worker_le (h : p.Inv ctx.durations ids) {worker : ℕ}
    (hworker : p.worker = .ok worker) {lane : List ScheduledTest}
    (hlane : p.lanes[worker]? = some lane) :
    ∀ other ∈ p.lanes, lastStop ScheduledTest.estimatedEnd 0 lane ≤
      lastStop ScheduledTest.estimatedEnd 0 other := by
  intro other hother
  obtain ⟨i, hi⟩ := List.mem_iff_getElem?.mp hother
  have hlt := (List.getElem?_eq_some_iff.mp hi).1
  have hle := minBy_le hworker i (List.mem_range.mpr hlt)
  rw [← h.laneEnd_eq hlane, ← h.laneEnd_eq hi]
  rcases Prod.Lex.toLex_le_toLex.mp hle with hlt | ⟨heq, -⟩
  · exact hlt.le
  · exact heq.le

/-- The step lemma: a round keeps the invariant, and no lane ends earlier than before. -/
theorem Overtaken.place (hinv : p.Inv ctx.durations ids) (hpos : ∀ id, 0 < ctx.durations id)
    (h : Overtaken ScheduledTest.estimatedEnd 0 p.lanes) (hplace : ctx.place p = .ok q) :
    Overtaken ScheduledTest.estimatedEnd 0 q.lanes ∧ ∀ i, p.laneEnd i ≤ q.laneEnd i := by
  obtain ⟨worker, first, chosen, start, hworker, hfirst, hchoose, rfl⟩ := place_eq_ok hplace
  have hlt : worker < p.lanes.length := List.mem_range.mp (minBy_mem hworker)
  have hlane := List.getElem?_eq_getElem hlt
  obtain ⟨chosen', begin, hchoose', -, hbegin⟩ := exists_choose ctx p.lanes worker
    (p.laneEnd worker) (List.ne_nil_of_mem (minBy_mem hfirst))
  obtain ⟨rfl, rfl⟩ := Prod.mk.inj (Except.ok.inj (hchoose.symm.trans hchoose'))
  have hstop : p.laneEnd worker ≤ (ctx.scheduled p.lanes worker chosen start).estimatedEnd :=
    hbegin.trans (le_add_of_nonneg_right (hpos chosen).le)
  refine ⟨h.push hlane (hinv.sound worker _ hlane).stop_le
    (hinv.lastStop_worker_le hworker hlane) (hinv.laneEnd_eq hlane ▸ hstop), fun i => ?_⟩
  rcases eq_or_ne i worker with rfl | hne
  · have hends : i < p.laneEnds.length := by rwa [hinv.laneEnds_eq, List.length_map]
    refine hstop.trans_eq ?_
    rw [Placement.laneEnd, List.getD_eq_getElem?_getD, List.getElem?_set_self hends,
      Option.getD_some]
  · rw [Placement.laneEnd, Placement.laneEnd, List.getD_eq_getElem?_getD,
      List.getD_eq_getElem?_getD, List.getElem?_set_ne (Ne.symm hne)]

end Round

section Reached

variable {s : ConflictScheduler} {rt : Runtime} {tests : List TestIdentity}
  {stats : PartialMap String TestStats} {predictions : List PairPrediction} {p : Placement}

theorem ConflictScheduler.Reaches.inv (h : s.Reaches rt tests stats predictions p) :
    p.Inv (s.start rt tests stats predictions).1.durations
      (s.start rt tests stats predictions).2.remaining := by
  induction h with
  | start => exact s.start_inv rt tests stats predictions
  | round _ _ hplace ih => exact ih.of_place (durationOf_pos stats) hplace

theorem ConflictScheduler.Reaches.overtaken (h : s.Reaches rt tests stats predictions p) :
    Overtaken ScheduledTest.estimatedEnd 0 p.lanes := by
  induction h with
  | start => exact overtaken_replicate _
  | round hreach _ hplace ih =>
    exact (Overtaken.place hreach.inv (durationOf_pos stats) ih hplace).1

end Reached

end Py

/-! ## Both -/

/-- **At most one test of each other worker can overlap a new placement**, in every state
that either placement loop reaches, and no lane ever ends earlier than before. -/
theorem placement_overlaps_last_only :
    (∀ (s : Go.Scheduler) (rt : Go.Runtime) (tests : List Go.Test)
        (predictions : List Go.Prediction) (ctx : Go.Context) (n : ℕ) (p : Go.Placement),
      s.Reaches rt tests predictions ctx n p →
        (∀ (i : ℕ) (lane : Go.Lane), i ≠ Go.earliestLane p.lanes → p.lanes[i]? = some lane →
          OnlyLastAfter Go.ScheduledTest.estimatedEnd
            (Go.laneEnd p.lanes (Go.earliestLane p.lanes)) lane.tests) ∧
        ∀ q, ctx.place n p = .ok q → ∀ i, Go.laneEnd p.lanes i ≤ Go.laneEnd q.lanes i) ∧
    ∀ (s : Py.ConflictScheduler) (rt : Py.Runtime) (tests : List Py.TestIdentity)
        (stats : PartialMap String Py.TestStats) (predictions : List Py.PairPrediction)
        (p : Py.Placement),
      s.Reaches rt tests stats predictions p →
        (∀ (worker i : ℕ) (lane : List Py.ScheduledTest), p.worker = .ok worker → i ≠ worker →
          p.lanes[i]? = some lane →
          OnlyLastAfter Py.ScheduledTest.estimatedEnd (p.laneEnd worker) lane) ∧
        ∀ q, (s.start rt tests stats predictions).1.place p = .ok q →
          ∀ i, p.laneEnd i ≤ q.laneEnd i := by
  refine ⟨fun s rt tests predictions ctx n p h => ⟨fun i lane _ hlane => ?_, fun q hplace => ?_⟩,
    fun s rt tests stats predictions p h => ⟨fun worker i lane hworker _ hlane => ?_,
      fun q hplace => ?_⟩⟩
  · exact h.overtaken.onlyLastAfter hlane
  · exact (h.overtaken.place hplace).2
  · have hlt : worker < p.lanes.length := List.mem_range.mp (Py.minBy_mem hworker)
    rw [h.inv.laneEnd_eq (List.getElem?_eq_getElem hlt)]
    exact h.overtaken.onlyLastAfter (List.getElem_mem hlt) (List.mem_of_getElem? hlane)
  · exact (Py.Overtaken.place h.inv (Py.durationOf_pos stats) h.overtaken hplace).2

/-- The lanes of both schedulers when `b` has waited for `a`, beside which `c` has run: `c` has
ended where the first lane is free, and only `b` still runs. -/
def Go.afterWait : List Go.Lane :=
  [⟨[⟨"a", "a", 0, 0, 10, 10, 0, []⟩], 10⟩,
    ⟨[⟨"c", "c", 1, 0, 1, 1, 0, []⟩, ⟨"b", "b", 1, 10, 18, 8, 0, []⟩], 18⟩]

def Py.afterWait : List (List Py.ScheduledTest) :=
  [[⟨"a", "a", 0, 0, 10, 10, 0, []⟩],
    [⟨"c", "c", 1, 0, 1, 1, 0, []⟩, ⟨"b", "b", 1, 10, 18, 8, 0, []⟩]]

/-- The Go scheduler reaches these lanes. -/
theorem Go.reaches_afterWait : ∃ ctx n p, p.lanes = Go.afterWait ∧
    Go.Scheduler.balanced.Reaches .reference [.lasting "a" 10, .lasting "b" 8, .lasting "c" 1]
      [.certain "a" "b"] ctx n p := by
  obtain ⟨risk, hrisk⟩ := exists_eq_ok_of_isOk
    (show (Go.newRiskIndex [.certain "a" "b"]).isOk = true by decide +kernel)
  obtain ⟨⟨remaining, tie⟩, hintake⟩ := exists_eq_ok_of_isOk
    (show (Go.intake Go.Runtime.reference.float64 0
      [.lasting "a" 10, .lasting "b" 8, .lasting "c" 1] [] PartialMap.empty).isOk = true by
        decide +kernel)
  have hrun : OnOk (Go.newRiskIndex [.certain "a" "b"]) fun risk =>
      OnOk (Go.intake Go.Runtime.reference.float64 0
          [.lasting "a" 10, .lasting "b" 8, .lasting "c" 1] [] PartialMap.empty) fun start =>
        ((Go.Context.mk Go.Scheduler.balanced.parameters risk start.2 .reference).placeAll 3 0
          ⟨List.replicate 2 ⟨[], 0⟩, start.1⟩).isOk = true ∧
        OnOk ((Go.Context.mk Go.Scheduler.balanced.parameters risk start.2 .reference).placeAll 3 0
          ⟨List.replicate 2 ⟨[], 0⟩, start.1⟩) fun p => p.lanes = Go.afterWait := by
    decide +kernel
  obtain ⟨hok, hlanes⟩ := hrun risk hrisk (remaining, tie) hintake
  obtain ⟨p, hp⟩ := exists_eq_ok_of_isOk hok
  obtain ⟨n, hreaches⟩ := (Go.Scheduler.Reaches.start (s := .balanced) hrisk hintake).placeAll 3 hp
  exact ⟨_, n, p, hlanes p hp, hreaches⟩

/-- And so does the Python scheduler. -/
theorem Py.reaches_afterWait : ∃ p, p.lanes = Py.afterWait ∧ p.laneEnds = [10, 18] ∧
    p.worker = .ok 0 ∧
    Py.ConflictScheduler.Reaches { Py.ConflictScheduler.unrefined with workers := 2 } .reference
      [.named "a", .named "b", .named "c"] (Py.statsOf [("a", 10), ("b", 8), ("c", 1)])
      [.new "a" "b" 1 "same port"] p := by
  have hrun : OnOk (Py.Context.placeAll
      (Py.ConflictScheduler.start { Py.ConflictScheduler.unrefined with workers := 2 } .reference
        [.named "a", .named "b", .named "c"] (Py.statsOf [("a", 10), ("b", 8), ("c", 1)])
        [.new "a" "b" 1 "same port"]).1 3
      (Py.ConflictScheduler.start { Py.ConflictScheduler.unrefined with workers := 2 } .reference
        [.named "a", .named "b", .named "c"] (Py.statsOf [("a", 10), ("b", 8), ("c", 1)])
        [.new "a" "b" 1 "same port"]).2) fun p =>
      p.lanes = Py.afterWait ∧ p.laneEnds = [10, 18] := by
    decide +kernel
  obtain ⟨p, hp⟩ := exists_eq_ok_of_isOk (show (Py.Context.placeAll
      (Py.ConflictScheduler.start { Py.ConflictScheduler.unrefined with workers := 2 } .reference
        [.named "a", .named "b", .named "c"] (Py.statsOf [("a", 10), ("b", 8), ("c", 1)])
        [.new "a" "b" 1 "same port"]).1 3
      (Py.ConflictScheduler.start { Py.ConflictScheduler.unrefined with workers := 2 } .reference
        [.named "a", .named "b", .named "c"] (Py.statsOf [("a", 10), ("b", 8), ("c", 1)])
        [.new "a" "b" 1 "same port"]).2).isOk = true by decide +kernel)
  obtain ⟨hlanes, hends⟩ := hrun p hp
  refine ⟨p, hlanes, hends, ?_, (Py.ConflictScheduler.Reaches.start).placeAll 3 hp⟩
  rw [Py.Placement.worker, hlanes]
  simp only [Py.Placement.laneEnd, hends]
  rfl

/-- On the second lane, only the delayed `b` can still run where the first lane is free. -/
theorem placement_overlaps_last_only_afterWait :
    OnlyLastAfter Go.ScheduledTest.estimatedEnd 10
        [⟨"c", "c", 1, 0, 1, 1, 0, []⟩, ⟨"b", "b", 1, 10, 18, 8, 0, []⟩] ∧
      OnlyLastAfter Py.ScheduledTest.estimatedEnd 10
        [⟨"c", "c", 1, 0, 1, 1, 0, []⟩, ⟨"b", "b", 1, 10, 18, 8, 0, []⟩] := by
  obtain ⟨ctx, n, p, hlanes, hreaches⟩ := Go.reaches_afterWait
  obtain ⟨p', hlanes', hends, hworker, hreaches'⟩ := Py.reaches_afterWait
  have hgo := (placement_overlaps_last_only.1 _ _ _ _ ctx n p hreaches).1 1
    ⟨[⟨"c", "c", 1, 0, 1, 1, 0, []⟩, ⟨"b", "b", 1, 10, 18, 8, 0, []⟩], 18⟩
  rw [hlanes] at hgo
  have hpy := (placement_overlaps_last_only.2 _ _ _ _ _ p' hreaches').1 0 1
    [⟨"c", "c", 1, 0, 1, 1, 0, []⟩, ⟨"b", "b", 1, 10, 18, 8, 0, []⟩] hworker (by decide)
  rw [hlanes', Py.Placement.laneEnd, hends] at hpy
  have hfirst : Go.earliestLane Go.afterWait = 0 := by decide +kernel
  rw [hfirst] at hgo
  exact ⟨hgo (by decide) rfl, hpy rfl⟩

end ConflictGraph
