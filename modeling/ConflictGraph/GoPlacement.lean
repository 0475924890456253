import ConflictGraph.Chain
import ConflictGraph.Lanes
import ConflictGraph.GoScheduler

/-!
# The placement loop

What a round of the placement loop does, and what it keeps. A round takes one of
the remaining tests and appends it to the lane of the worker that is free first,
at or after that lane's end. So every lane stays *sound*: its tests carry the
lane's index, last as long as they say, and follow one another, and the lane's end
is the end of its last test. Nothing is lost or duplicated, and the loop ends with
nothing remaining.
-/

namespace ConflictGraph.Go

/-! ## Lanes by index -/

/-- The tests of a lane, for all lanes: the board that a plan is made on. -/
abbrev board (lanes : List Lane) : List (List ScheduledTest) := lanes.map Lane.tests

theorem otherTests_eq (lanes : List Lane) (worker : ℕ) :
    otherTests lanes worker = others (board lanes) worker := by
  rw [otherTests, others, List.flatMap_def, List.eraseIdx_map]

theorem mem_flatMap_tests {lanes : List Lane} {t : ScheduledTest} :
    t ∈ lanes.flatMap Lane.tests ↔
      ∃ i : ℕ, ∃ lane : Lane, lanes[i]? = some lane ∧ t ∈ lane.tests := by
  rw [List.mem_flatMap]
  refine ⟨?_, ?_⟩
  · rintro ⟨lane, hmem, ht⟩
    obtain ⟨i, hlane⟩ := List.mem_iff_getElem?.mp hmem
    exact ⟨i, lane, hlane, ht⟩
  · rintro ⟨i, lane, hlane, ht⟩
    exact ⟨lane, List.mem_of_getElem? hlane, ht⟩

@[simp] theorem length_appendTo (lanes : List Lane) (worker : ℕ) (test : ScheduledTest) :
    (appendTo lanes worker test).length = lanes.length :=
  List.length_modify ..

/-- The lane that gets a test has it last, and ends with it. -/
theorem getElem?_appendTo_self {lanes : List Lane} {worker : ℕ} {lane : Lane}
    (h : lanes[worker]? = some lane) (test : ScheduledTest) :
    (appendTo lanes worker test)[worker]? = some ⟨lane.tests ++ [test], test.estimatedEnd⟩ := by
  rw [appendTo, List.getElem?_modify_eq, h]
  rfl

/-- No other lane changes. -/
theorem getElem?_appendTo_ne {lanes : List Lane} {worker i : ℕ} (h : i ≠ worker)
    (test : ScheduledTest) : (appendTo lanes worker test)[i]? = lanes[i]? := by
  rw [appendTo, List.getElem?_modify_ne _ _ (Ne.symm h)]

/-- Appending to a lane pushes on its worker's lane of the board. -/
theorem board_appendTo (lanes : List Lane) (worker : ℕ) (test : ScheduledTest) :
    board (appendTo lanes worker test) = push (board lanes) worker test := by
  refine List.ext_getElem? fun i => ?_
  by_cases h : worker = i
  · simp only [appendTo, push, List.getElem?_map, h, List.getElem?_modify_eq]
    cases lanes[i]? <;> rfl
  · simp only [appendTo, push, List.getElem?_map, List.getElem?_modify_ne _ _ h]

/-- Appending adds exactly the new test to the plan. -/
theorem flatMap_appendTo {lanes : List Lane} {worker : ℕ} (h : worker < lanes.length)
    (test : ScheduledTest) :
    ((appendTo lanes worker test).flatMap Lane.tests).Perm
      (test :: lanes.flatMap Lane.tests) := by
  have hpush := flatten_push_perm (show worker < (board lanes).length by rwa [List.length_map]) test
  rwa [← board_appendTo, ← List.flatMap_def, ← List.flatMap_def] at hpush

/-- Appending a test keeps a plan separated exactly when nothing risky on the other
lanes runs during the test. -/
theorem separated_appendTo {risky : ScheduledTest → ScheduledTest → Prop}
    (hrisky : ∀ a b, risky a b → risky b a) {lanes : List Lane}
    (h : Indexed ScheduledTest.worker (board lanes)) {worker : ℕ} (hlt : worker < lanes.length)
    {t : ScheduledTest} (hworker : t.worker = worker) :
    Separated ScheduledTest.worker ScheduledTest.estimatedStart ScheduledTest.estimatedEnd risky
        ((appendTo lanes worker t).flatMap Lane.tests) ↔
      Separated ScheduledTest.worker ScheduledTest.estimatedStart ScheduledTest.estimatedEnd risky
          (lanes.flatMap Lane.tests) ∧
        ∀ o ∈ otherTests lanes worker, risky t o →
          ¬ Meets t.estimatedStart t.estimatedEnd o.estimatedStart o.estimatedEnd := by
  rw [List.flatMap_def, List.flatMap_def, otherTests_eq]
  change Separated _ _ _ _ (board (appendTo lanes worker t)).flatten ↔ _
  rw [board_appendTo]
  exact separated_push hrisky h (by rwa [List.length_map]) hworker

theorem laneEnd_eq {lanes : List Lane} {i : ℕ} {lane : Lane} (h : lanes[i]? = some lane) :
    laneEnd lanes i = lane.endAt := by
  rw [laneEnd, h]

/-! ## The worker that is free first -/

/-- A fold that keeps the better of two indices returns one it was offered. -/
theorem foldl_pick_mem (better : ℕ → ℕ → Prop) [∀ i j, Decidable (better i j)] :
    ∀ (offered : List ℕ) (first : ℕ),
      offered.foldl (fun best i => if better i best then i else best) first ∈ first :: offered := by
  intro offered
  induction offered with
  | nil => exact fun first => List.mem_singleton_self first
  | cons i rest ih =>
    intro first
    rw [List.foldl_cons]
    rcases List.mem_cons.mp (ih (if better i first then i else first)) with h | h
    · rw [h]
      split
      · exact List.mem_cons_of_mem _ List.mem_cons_self
      · exact List.mem_cons_self
    · exact List.mem_cons_of_mem _ (List.mem_cons_of_mem _ h)

/-- There is an earliest lane. -/
theorem earliestLane_lt {lanes : List Lane} (h : lanes ≠ []) :
    earliestLane lanes < lanes.length := by
  have hlen : 0 < lanes.length := List.length_pos_iff.mpr h
  have hmem := foldl_pick_mem (fun i best => laneEnd lanes i < laneEnd lanes best)
    (List.range' 1 (lanes.length - 1)) 0
  rw [earliestLane]
  rcases List.mem_cons.mp hmem with h0 | hrange
  · rw [h0]
    exact hlen
  · have hbounds := List.mem_range'_1.mp hrange
    omega

/-! ## The chosen test -/

/-- What is picked is one of the candidates. -/
theorem pickBest_mem (cost : Test → ℚ) (first : Test) (candidates : List Test) :
    pickBest cost first candidates ∈ first :: candidates := by
  rw [pickBest]
  suffices h : ∀ (rest : List Test) (best : Test × WithTop ℚ),
      (rest.foldl (fun (best : Test × WithTop ℚ) candidate =>
        if (cost candidate : WithTop ℚ) < best.2 then (candidate, (cost candidate : WithTop ℚ))
        else best) best).1 ∈ best.1 :: rest from h candidates (first, ⊤)
  intro rest
  induction rest with
  | nil => exact fun best => List.mem_singleton_self best.1
  | cons candidate rest ih =>
    intro best
    rw [List.foldl_cons]
    split
    · exact List.mem_cons_of_mem _ (ih _)
    · rcases List.mem_cons.mp (ih best) with h | h
      · rw [h]
        exact List.mem_cons_self
      · exact List.mem_cons_of_mem _ (List.mem_cons_of_mem _ h)

variable {ctx : Context}

theorem mem_of_mem_candidates (ctx : Context) (round : ℕ) {remaining : List Test} {t : Test}
    (h : t ∈ ctx.candidates round remaining) : t ∈ remaining := by
  have hall : t ∈ ctx.runtime.sortSlice ctx.candidateLess
      (ctx.runtime.mapOrder round remaining) := by
    unfold Context.candidates at h
    dsimp only at h
    split at h
    · exact List.mem_of_mem_take h
    · exact h
  have hmap := (ctx.runtime.sortSlice_perm _ _).mem_iff.mp hall
  exact (ctx.runtime.mapOrder_perm _ _).mem_iff.mp hmap

/-- As long as tests remain and the lookahead is positive, there is a candidate. -/
theorem candidates_ne_nil {round : ℕ} {remaining : List Test}
    (hlook : 0 < ctx.parameters.lookahead) (hrem : remaining ≠ []) :
    ctx.candidates round remaining ≠ [] := by
  have hperm := (ctx.runtime.sortSlice_perm ctx.candidateLess
    (ctx.runtime.mapOrder round remaining)).trans (ctx.runtime.mapOrder_perm round remaining)
  have hne : ctx.runtime.sortSlice ctx.candidateLess
      (ctx.runtime.mapOrder round remaining) ≠ [] := fun hnil => by
    rw [hnil] at hperm
    exact hrem hperm.symm.eq_nil
  unfold Context.candidates
  dsimp only
  split
  · rw [ne_eq, List.take_eq_nil_iff, not_or]
    exact ⟨hlook.ne', hne⟩
  · exact hne

/-- What is chosen is one of the remaining tests. -/
theorem mem_of_chosen {round : ℕ} {p : Placement} {best : Test}
    (h : ctx.chosen round p = some best) : best ∈ p.remaining := by
  unfold Context.chosen at h
  split at h
  · cases h
  · rename_i first rest hcand
    refine mem_of_mem_candidates ctx round ?_
    rw [hcand, ← Option.some.inj h]
    rcases List.mem_cons.mp (pickBest_mem _ first (first :: rest)) with heq | hmem
    · rw [heq]
      exact List.mem_cons_self
    · exact hmem

/-- As long as a test remains, one is chosen. -/
theorem exists_chosen (ctx : Context) (round : ℕ) {p : Placement} (hlook : 0 < ctx.parameters.lookahead)
    (hrem : p.remaining ≠ []) : ∃ best, ctx.chosen round p = some best := by
  unfold Context.chosen
  split
  · rename_i hnil
    exact absurd hnil (candidates_ne_nil hlook hrem)
  · exact ⟨_, rfl⟩

/-! ## One round -/

/-- What a successful round of the placement loop does. -/
theorem place_eq_ok {round : ℕ} {p q : Placement} (h : ctx.place round p = .ok q) :
    ∃ lane best, p.lanes[earliestLane p.lanes]? = some lane ∧ ctx.chosen round p = some best ∧
      q = ⟨appendTo p.lanes (earliestLane p.lanes)
          (ctx.scheduled p.lanes (earliestLane p.lanes) lane.endAt best),
        p.remaining.filter fun test => test.id ≠ best.id⟩ := by
  unfold Context.place at h
  dsimp only at h
  rcases hlane : p.lanes[earliestLane p.lanes]? with _ | lane
  · rw [hlane] at h
    cases h
  · rcases hbest : ctx.chosen round p with _ | best
    · rw [hlane, hbest] at h
      cases h
    · rw [hlane, hbest] at h
      exact ⟨lane, best, rfl, rfl, (Except.ok.inj h).symm⟩

/-- A round cannot fail while there is a worker and a candidate. -/
theorem exists_place (ctx : Context) (round : ℕ) {p : Placement} (hlanes : p.lanes ≠ [])
    (hlook : 0 < ctx.parameters.lookahead) (hrem : p.remaining ≠ []) :
    ∃ q, ctx.place round p = .ok q := by
  obtain ⟨best, hbest⟩ := exists_chosen ctx round hlook hrem
  have hlane := List.getElem?_eq_getElem (earliestLane_lt hlanes)
  unfold Context.place
  dsimp only
  rw [hlane, hbest]
  exact ⟨_, rfl⟩

/-- The earliest conflicting end is the end of a test that runs at the start. -/
theorem le_of_earliestConflictingEnd {testID : String} {start threshold next : ℚ}
    {lanes : List Lane} {worker : ℕ} {risk : RiskIndex}
    (h : earliestConflictingEnd testID start lanes worker risk threshold = some next) :
    start ≤ next := by
  have hearliest : ∀ e ∈ earliestConflictingEnd testID start lanes worker risk threshold,
      start ≤ e := by
    rw [earliestConflictingEnd]
    refine @List.foldlRecOn _ _ (fun found => ∀ e ∈ found, start ≤ e) _ _ _
      (fun e he => absurd he (Option.not_mem_none e)) ?_
    intro found hfound t ht e he
    have hrun := (List.mem_filter.mp ht).2
    rw [decide_eq_true_eq] at hrun
    -- the minimum so far, or the end of the next running test
    rcases found with _ | e₀
    · rw [← Option.some.inj he]
      exact hrun.2.1.le
    · rw [← Option.some.inj he]
      exact le_min (hfound e₀ rfl) hrun.2.1.le
  exact hearliest next h

/-- The delay of the hard-threshold guard is never backwards in time. -/
theorem le_startFor (lanes : List Lane) (worker : ℕ) (start : ℚ) (best : Test) :
    start ≤ ctx.startFor lanes worker start best := by
  rw [Context.startFor]
  split
  · split
    · exact le_refl start
    · rename_i next hnext
      exact le_of_earliestConflictingEnd hnext
  · exact le_refl start

/-! ## Sound lanes -/

/-- Lane `worker` is a chain of tests that carry its index and last as long as they
say, and its end is the end of the last one. -/
structure Lane.Sound (worker : ℕ) (lane : Lane) : Prop where
  worker_eq : ∀ t ∈ lane.tests, t.worker = worker
  end_eq : ∀ t ∈ lane.tests, t.estimatedEnd = t.estimatedStart + t.estimatedDuration
  start_nonneg : ∀ t ∈ lane.tests, 0 ≤ t.estimatedStart
  duration_pos : ∀ t ∈ lane.tests, 0 < t.estimatedDuration
  chained : Chained ScheduledTest.estimatedStart ScheduledTest.estimatedEnd lane.tests
  endAt_eq : lane.endAt = lastStop ScheduledTest.estimatedEnd 0 lane.tests

namespace Lane.Sound

variable {worker : ℕ} {lane : Lane}

/-- An empty lane is sound. -/
theorem empty (worker : ℕ) : Lane.Sound worker ⟨[], 0⟩ :=
  ⟨nofun, nofun, nofun, nofun, chained_nil, rfl⟩

/-- No test of a sound lane is empty. -/
theorem start_lt_end (h : lane.Sound worker) :
    ∀ t ∈ lane.tests, t.estimatedStart < t.estimatedEnd := fun t ht => by
  rw [h.end_eq t ht]
  exact lt_add_of_pos_right _ (h.duration_pos t ht)

/-- None ends after the lane. -/
theorem end_le (h : lane.Sound worker) : ∀ t ∈ lane.tests, t.estimatedEnd ≤ lane.endAt := by
  rw [h.endAt_eq]
  exact h.chained.stop_le_lastStop h.start_lt_end

theorem endAt_nonneg (h : lane.Sound worker) : 0 ≤ lane.endAt := by
  rcases List.eq_nil_or_concat' lane.tests with hnil | ⟨init, last, hlast⟩
  · rw [h.endAt_eq, hnil]
    exact le_refl 0
  · have hmem : last ∈ lane.tests := by
      rw [hlast]
      exact List.mem_append_right _ (List.mem_singleton_self last)
    exact (h.start_nonneg last hmem).trans
      ((h.start_lt_end last hmem).le.trans (h.end_le last hmem))

/-- A sound lane stays sound when a test is appended at or after its end. -/
theorem concat (h : lane.Sound worker) {t : ScheduledTest} (hworker : t.worker = worker)
    (hend : t.estimatedEnd = t.estimatedStart + t.estimatedDuration)
    (hpos : 0 < t.estimatedDuration) (hstart : lane.endAt ≤ t.estimatedStart) :
    Lane.Sound worker ⟨lane.tests ++ [t], t.estimatedEnd⟩ where
  worker_eq := List.forall_mem_append.mpr ⟨h.worker_eq, List.forall_mem_singleton.mpr hworker⟩
  end_eq := List.forall_mem_append.mpr ⟨h.end_eq, List.forall_mem_singleton.mpr hend⟩
  start_nonneg := List.forall_mem_append.mpr
    ⟨h.start_nonneg, List.forall_mem_singleton.mpr (h.endAt_nonneg.trans hstart)⟩
  duration_pos := List.forall_mem_append.mpr ⟨h.duration_pos, List.forall_mem_singleton.mpr hpos⟩
  chained := h.chained.concat h.start_lt_end (h.endAt_eq ▸ hstart)
  endAt_eq := (lastStop_concat ScheduledTest.estimatedEnd 0 lane.tests t).symm

end Lane.Sound

/-- Every lane is sound for its index. -/
def LanesSound (lanes : List Lane) : Prop :=
  ∀ (i : ℕ) (lane : Lane), lanes[i]? = some lane → lane.Sound i

/-- The tests of lane `i` carry the worker `i`. -/
theorem LanesSound.indexed {lanes : List Lane} (h : LanesSound lanes) :
    Indexed ScheduledTest.worker (board lanes) := by
  intro i tests htests
  rw [List.getElem?_map] at htests
  obtain ⟨lane, hlane, rfl⟩ := Option.map_eq_some_iff.mp htests
  exact (h i lane hlane).worker_eq

/-- The tests of the other lanes take time. -/
theorem LanesSound.start_lt_end {lanes : List Lane} (h : LanesSound lanes) {worker : ℕ}
    {o : ScheduledTest} (ho : o ∈ otherTests lanes worker) : o.estimatedStart < o.estimatedEnd := by
  obtain ⟨lane, hlane, hmem⟩ := List.mem_flatMap.mp ho
  obtain ⟨i, hi⟩ := List.mem_iff_getElem?.mp (List.mem_of_mem_eraseIdx hlane)
  exact (h i lane hi).start_lt_end o hmem

theorem lanesSound_replicate (n : ℕ) : LanesSound (List.replicate n ⟨[], 0⟩) := by
  intro i lane h
  rw [List.eq_of_mem_replicate (List.mem_of_getElem? h)]
  exact Lane.Sound.empty i

/-- The lanes stay sound if a test starts when its lane is free. -/
theorem LanesSound.appendTo {lanes : List Lane} (h : LanesSound lanes) {worker : ℕ} {lane : Lane}
    (hlane : lanes[worker]? = some lane) {t : ScheduledTest} (hworker : t.worker = worker)
    (hend : t.estimatedEnd = t.estimatedStart + t.estimatedDuration)
    (hpos : 0 < t.estimatedDuration) (hstart : lane.endAt ≤ t.estimatedStart) :
    LanesSound (appendTo lanes worker t) := by
  intro i lane' hi
  by_cases hne : i = worker
  · subst hne
    rw [getElem?_appendTo_self hlane] at hi
    rw [← Option.some.inj hi]
    exact (h i lane hlane).concat hworker hend hpos hstart
  · rw [getElem?_appendTo_ne hne] at hi
    exact h i lane' hi

/-! ## Nothing is lost -/

/-- What a plan must run: a test and how long it takes. -/
structure Job : Type where
  id : String
  nodeID : String
  duration : ℚ
  deriving DecidableEq

/-- The job of a collected test, whose duration counts as one when it is unknown. -/
def Test.job (t : Test) : Job := ⟨t.id, t.nodeID, if t.durationEMA = 0 then 1 else t.durationEMA⟩

/-- The job that a scheduled test runs. -/
def ScheduledTest.job (t : ScheduledTest) : Job := ⟨t.testID, t.nodeID, t.estimatedDuration⟩

theorem Test.job_of_pos {t : Test} (h : 0 < t.durationEMA) :
    t.job = ⟨t.id, t.nodeID, t.durationEMA⟩ := by
  rw [Test.job, if_neg h.ne']

/-- Taking a test out by its ID takes out that test only. -/
theorem perm_cons_filter_id {l : List Test} {best : Test} (hmem : best ∈ l)
    (hnodup : (l.map Test.id).Nodup) :
    l.Perm (best :: l.filter fun test => test.id ≠ best.id) := by
  induction l with
  | nil => cases hmem
  | cons a rest ih =>
    rw [List.map_cons, List.nodup_cons] at hnodup
    obtain ⟨hnotin, hnodup⟩ := hnodup
    rcases List.mem_cons.mp hmem with rfl | hrest
    · have hkeep : rest.filter (fun test => test.id ≠ best.id) = rest := by
        rw [List.filter_eq_self]
        intro t ht
        rw [decide_eq_true_eq]
        exact fun hid => hnotin (List.mem_map.mpr ⟨t, ht, hid⟩)
      rw [List.filter_cons_of_neg (by simp), hkeep]
    · have hne : a.id ≠ best.id := fun hid =>
        hnotin (List.mem_map.mpr ⟨best, hrest, hid.symm⟩)
      rw [List.filter_cons_of_pos (by simpa using hne)]
      exact ((ih hrest hnodup).cons a).trans (List.Perm.swap ..)

/-- The loop invariant of the placement loop, for a given collection of jobs. -/
structure Placement.Inv (jobs : List Job) (p : Placement) : Prop where
  sound : LanesSound p.lanes
  duration_pos : ∀ t ∈ p.remaining, 0 < t.durationEMA
  id_nodup : (p.remaining.map Test.id).Nodup
  jobs_perm : ((p.lanes.flatMap Lane.tests).map ScheduledTest.job ++
    p.remaining.map Test.job).Perm jobs

/-- The step lemma of the placement loop: a round keeps the invariant and the
workers, and uses up a test. -/
theorem Placement.Inv.place {jobs : List Job} {round : ℕ} {p q : Placement} (h : p.Inv jobs)
    (hplace : ctx.place round p = .ok q) :
    q.Inv jobs ∧ q.lanes.length = p.lanes.length ∧
      q.remaining.length < p.remaining.length := by
  obtain ⟨lane, best, hlane, hbest, rfl⟩ := place_eq_ok hplace
  have hmem := mem_of_chosen hbest
  have hpos := h.duration_pos best hmem
  have hperm := perm_cons_filter_id hmem h.id_nodup
  have hlt : earliestLane p.lanes < p.lanes.length := (List.getElem?_eq_some_iff.mp hlane).1
  refine ⟨⟨?_, ?_, ?_, ?_⟩, length_appendTo .., ?_⟩
  · exact h.sound.appendTo hlane rfl rfl hpos (le_startFor ..)
  · exact fun t ht => h.duration_pos t (List.mem_of_mem_filter ht)
  · exact h.id_nodup.sublist (List.filter_sublist.map _)
  · refine List.Perm.trans ?_ h.jobs_perm
    refine (((flatMap_appendTo hlt _).map ScheduledTest.job).append_right _).trans ?_
    refine List.Perm.trans ?_ ((hperm.map Test.job).symm.append_left _)
    rw [List.map_cons, List.map_cons, List.cons_append, Test.job_of_pos hpos]
    exact List.perm_middle.symm
  · have hlen := hperm.length_eq
    rw [List.length_cons] at hlen
    exact hlen ▸ Nat.lt_succ_self _

/-- The run lemma of the placement loop: with a worker, a positive lookahead and
enough rounds it places everything. -/
theorem Placement.Inv.placeAll {jobs : List Job} (ctx : Context)
    (hlook : 0 < ctx.parameters.lookahead) :
    ∀ (fuel round : ℕ) (p : Placement), p.Inv jobs → p.lanes ≠ [] → p.remaining.length ≤ fuel →
      ∃ q, ctx.placeAll fuel round p = .ok q ∧ q.Inv jobs ∧ q.remaining = [] ∧
        q.lanes.length = p.lanes.length := by
  intro fuel
  induction fuel with
  | zero =>
    intro round p h _ hlen
    exact ⟨p, rfl, h, List.eq_nil_of_length_eq_zero (Nat.le_zero.mp hlen), rfl⟩
  | succ fuel ih =>
    intro round p h hlanes hlen
    rw [Context.placeAll]
    by_cases hrem : p.remaining = []
    · rw [if_pos hrem]
      exact ⟨p, rfl, h, hrem, rfl⟩
    · obtain ⟨q, hq⟩ := exists_place ctx round hlanes hlook hrem
      obtain ⟨hinv, hsame, hless⟩ := h.place hq
      have hne : q.lanes ≠ [] := by
        rw [← List.length_pos_iff, hsame]
        exact List.length_pos_iff.mpr hlanes
      obtain ⟨r, hr, hr_inv, hr_rem, hr_len⟩ := ih (round + 1) q hinv hne (by omega)
      rw [if_neg hrem, hq]
      exact ⟨r, hr, hr_inv, hr_rem, hr_len.trans hsame⟩

/-! ## What the loop starts from -/

/-- Every test that is placed takes time. -/
theorem Test.withDefaultDuration_pos (t : Test) : 0 < t.withDefaultDuration.durationEMA := by
  unfold Test.withDefaultDuration
  split
  · exact one_pos
  · rename_i h
    exact not_le.mp h

theorem Test.withDefaultDuration_id (t : Test) : t.withDefaultDuration.id = t.id := by
  unfold Test.withDefaultDuration
  split <;> rfl

theorem Test.withDefaultDuration_job {t : Test} (h : 0 ≤ t.durationEMA) :
    t.withDefaultDuration.job = t.job := by
  unfold Test.withDefaultDuration
  split
  · rename_i hle
    rw [Test.job, Test.job, if_pos (le_antisymm hle h), if_neg one_ne_zero]
  · rfl

/-- On valid tests with distinct IDs the first loop of `Build` keeps every test. -/
theorem intake_eq_ok (draw : ℕ → ℚ) {tests : List Test} (hvalid : ∀ t ∈ tests, t.validate = .ok ()) :
    ∀ (n : ℕ) (remaining : List Test) (tie : PartialMap String ℚ),
      ((remaining ++ tests).map Test.id).Nodup →
      ∃ tie', intake draw n tests remaining tie =
        .ok (remaining ++ tests.map Test.withDefaultDuration, tie') := by
  induction tests with
  | nil =>
    intro n remaining tie _
    exact ⟨tie, by rw [intake, List.map_nil, List.append_nil]⟩
  | cons test rest ih =>
    intro n remaining tie hnodup
    rw [List.forall_mem_cons] at hvalid
    have hfresh : remaining.any (fun other => other.id = test.id) = false := by
      rw [List.any_eq_false]
      intro other hother
      rw [decide_eq_true_eq]
      rw [List.map_append, List.map_cons, List.nodup_append] at hnodup
      exact fun hid => hnodup.2.2 other.id (List.mem_map_of_mem hother) test.id
        List.mem_cons_self hid
    have hnodup' : ((remaining ++ [test.withDefaultDuration] ++ rest).map Test.id).Nodup := by
      rw [List.append_assoc, List.singleton_append, List.map_append, List.map_cons,
        Test.withDefaultDuration_id, ← List.map_cons, ← List.map_append]
      exact hnodup
    obtain ⟨tie', htie⟩ := ih hvalid.2 (n + 1) (remaining ++ [test.withDefaultDuration])
      (tie.insert test.id (draw n)) hnodup'
    refine ⟨tie', ?_⟩
    rw [intake, hvalid.1]
    simp only [hfresh, Bool.false_eq_true, if_false]
    rw [htie, List.append_assoc, List.singleton_append, List.map_cons]

theorem flatMap_replicate_empty (n : ℕ) :
    (List.replicate n (Lane.mk [] 0)).flatMap Lane.tests = [] := by
  rw [List.flatMap_eq_nil_iff]
  intro lane hlane
  rw [List.eq_of_mem_replicate hlane]

/-- The placement loop starts with its invariant. -/
theorem Placement.Inv.init {tests : List Test} (n : ℕ)
    (hvalid : ∀ t ∈ tests, t.validate = .ok ()) (hnodup : (tests.map Test.id).Nodup) :
    Placement.Inv (tests.map Test.job)
      ⟨List.replicate n ⟨[], 0⟩, tests.map Test.withDefaultDuration⟩ where
  sound := lanesSound_replicate n
  duration_pos := by
    intro t ht
    obtain ⟨u, -, rfl⟩ := List.mem_map.mp ht
    exact u.withDefaultDuration_pos
  id_nodup := by
    have hids : tests.map (Test.id ∘ Test.withDefaultDuration) = tests.map Test.id :=
      List.map_congr_left fun t _ => Test.withDefaultDuration_id t
    rw [List.map_map, hids]
    exact hnodup
  jobs_perm := by
    rw [flatMap_replicate_empty, List.map_nil, List.nil_append, List.map_map]
    exact List.Perm.of_eq (List.map_congr_left fun t ht =>
      Test.withDefaultDuration_job (Test.durationEMA_nonneg (hvalid t ht)))

end ConflictGraph.Go
