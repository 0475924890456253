import ConflictGraph.PyPlan

/-!
# The shortcuts of the placement risk

`_placement_risk` looks at few tests: a binary search skips those that end before the placement
starts, and the scan of a lane breaks off at the first test that starts when the placement ends
or later. What is skipped does not overlap, so it has no part in the risk, as long as ends and
starts grow along each lane. That they do is an invariant of the placement loop, which appends
at the end of a lane or later.
-/

namespace ConflictGraph.Py

/-! ## The full scan -/

/-- The share of the placement `[start, stop)`, or of the other test if that is shorter, during
which both run. -/
def exposure (rounding : Rounding) (start stop : ℚ) (other : ScheduledTest) : ℚ :=
  min 1 (rounding.round (overlap start stop other.estimatedStart other.estimatedEnd /
    max (1 / 1000) (min (stop - start) other.estimatedDuration)))

/-- The chance that the placement and the other test do not conflict. -/
def RiskIndex.factor (rounding : Rounding) (risk : RiskIndex) (testID : String) (start stop : ℚ)
    (other : ScheduledTest) : ℚ :=
  rounding.complement (rounding.round
    (risk.probability testID other.testID * exposure rounding start stop other))

/-- The other test overlaps, and is risky enough to be named. -/
def RiskIndex.Named (risk : RiskIndex) (testID : String) (start stop : ℚ)
    (other : ScheduledTest) : Prop :=
  0 < overlap start stop other.estimatedStart other.estimatedEnd ∧
    1 / 4 ≤ risk.probability testID other.testID

instance (risk : RiskIndex) (testID : String) (start stop : ℚ) (other : ScheduledTest) :
    Decidable (risk.Named testID start stop other) :=
  inferInstanceAs (Decidable (_ ∧ _))

/-- The line that names the other test. -/
def RiskIndex.reason (risk : RiskIndex) (testID : String) (other : ScheduledTest) : String :=
  other.nodeID ++ ": " ++ formatFixed1 (risk.probability testID other.testID * 100) ++ "% (" ++
    (match risk.prediction testID other.testID with
      | some prediction => prediction.explanation
      | none => "predicted shared-resource risk") ++ ")"

/-- The risk of a placement from all tests of all other lanes, without skipping any: the
complement of the product of all factors, rounded at each step. -/
def fullRisk (rounding : Rounding) (testID : String) (start stop : ℚ)
    (lanes : List (List ScheduledTest)) (risk : RiskIndex) (worker : ℕ) : ℚ × List String :=
  (rounding.complement
      (rounding.product 1 ((others lanes worker).map (risk.factor rounding testID start stop))),
    ((others lanes worker).filter fun other => risk.Named testID start stop other).map
      (risk.reason testID))

/-! ## What has no part in the risk -/

section Parts

variable {rounding : Rounding} {testID : String} {start stop : ℚ} {risk : RiskIndex}
  {lane : List ScheduledTest}

/-- The accumulator of `_placement_risk` after some more tests, none skipped. -/
def RiskIndex.weigh (rounding : Rounding) (risk : RiskIndex) (testID : String) (start stop : ℚ)
    (acc : ℚ × List String) (tests : List ScheduledTest) : ℚ × List String :=
  (rounding.product acc.1 (tests.map (risk.factor rounding testID start stop)),
    acc.2 ++ (tests.filter fun other => risk.Named testID start stop other).map
      (risk.reason testID))

theorem RiskIndex.weigh_nil (acc : ℚ × List String) :
    risk.weigh rounding testID start stop acc [] = acc := by
  rw [weigh, List.map_nil, Rounding.product_nil, List.filter_nil, List.map_nil, List.append_nil]

theorem RiskIndex.weigh_append (acc : ℚ × List String) (l l' : List ScheduledTest) :
    risk.weigh rounding testID start stop acc (l ++ l') =
      risk.weigh rounding testID start stop (risk.weigh rounding testID start stop acc l) l' := by
  simp only [weigh, List.map_append, Rounding.product_append, List.filter_append,
    List.append_assoc]

theorem RiskIndex.weigh_singleton (acc : ℚ × List String) (t : ScheduledTest) :
    risk.weigh rounding testID start stop acc [t] =
      (rounding.round (acc.1 * risk.factor rounding testID start stop t),
        if risk.Named testID start stop t then acc.2 ++ [risk.reason testID t] else acc.2) := by
  rw [weigh, List.map_singleton, Rounding.product_cons, Rounding.product_nil]
  by_cases h : risk.Named testID start stop t <;> simp [h]

/-- The chance so far stays a machine number. -/
theorem RiskIndex.round_weigh {acc : ℚ × List String} (hacc : rounding.round acc.1 = acc.1)
    (tests : List ScheduledTest) :
    rounding.round (risk.weigh rounding testID start stop acc tests).1 =
      (risk.weigh rounding testID start stop acc tests).1 :=
  rounding.round_product hacc _

/-- Tests that do not overlap have no part in the risk. -/
theorem RiskIndex.weigh_apart {acc : ℚ × List String} (hacc : rounding.round acc.1 = acc.1)
    {tests : List ScheduledTest}
    (h : ∀ t ∈ tests, overlap start stop t.estimatedStart t.estimatedEnd = 0) :
    risk.weigh rounding testID start stop acc tests = acc := by
  have hfactors : ∀ factor ∈ tests.map (risk.factor rounding testID start stop), factor = 1 := by
    refine List.forall_mem_map.mpr fun t ht => ?_
    rw [factor, exposure, h t ht, zero_div, rounding.round_zero, min_eq_right zero_le_one, mul_zero,
      rounding.round_zero, rounding.complement_zero]
  have hnamed : (tests.filter fun other => risk.Named testID start stop other) = [] := by
    rw [List.filter_eq_nil_iff]
    exact fun t ht hn => (of_decide_eq_true hn).1.ne' (h t ht)
  rw [weigh, rounding.product_of_forall_eq_one hacc hfactors, hnamed, List.map_nil,
    List.append_nil]

/-- A test that does not overlap has no part in the risk. -/
theorem RiskIndex.weigh_cons_apart {t : ScheduledTest} {acc : ℚ × List String}
    (hacc : rounding.round acc.1 = acc.1) (rest : List ScheduledTest)
    (h : overlap start stop t.estimatedStart t.estimatedEnd = 0) :
    risk.weigh rounding testID start stop acc (t :: rest) =
      risk.weigh rounding testID start stop acc rest := by
  rw [← List.singleton_append, risk.weigh_append,
    risk.weigh_apart hacc (List.forall_mem_singleton.mpr h)]

theorem overlap_eq_zero_of_end_le {t : ScheduledTest} (h : t.estimatedEnd ≤ start) :
    overlap start stop t.estimatedStart t.estimatedEnd = 0 :=
  max_eq_left (sub_nonpos.mpr ((min_le_right _ _).trans (h.trans (le_max_left _ _))))

theorem overlap_eq_zero_of_le_start {t : ScheduledTest} (h : stop ≤ t.estimatedStart) :
    overlap start stop t.estimatedStart t.estimatedEnd = 0 :=
  max_eq_left (sub_nonpos.mpr ((min_le_left _ _).trans (h.trans (le_max_right _ _))))

/-! ## The break -/

/-- Where the starts grow, breaking off the scan loses nothing. -/
theorem scanLane_eq :
    ∀ {lane : List ScheduledTest},
      (lane.Pairwise fun a b => a.estimatedStart ≤ b.estimatedStart) →
        ∀ {acc : ℚ × List String}, rounding.round acc.1 = acc.1 →
          scanLane rounding testID start stop risk acc lane =
            risk.weigh rounding testID start stop acc lane := by
  intro lane
  induction lane with
  | nil => exact fun _ acc _ => (risk.weigh_nil acc).symm
  | cons t rest ih =>
    intro hsorted acc hacc
    rw [List.pairwise_cons] at hsorted
    rw [scanLane]
    by_cases hbreak : stop ≤ t.estimatedStart
    · -- the scan stops here: everything left starts at or after `stop`
      rw [if_pos hbreak, RiskIndex.weigh_apart hacc]
      refine List.forall_mem_cons.mpr ⟨overlap_eq_zero_of_le_start hbreak, fun u hu => ?_⟩
      exact overlap_eq_zero_of_le_start (hbreak.trans (hsorted.1 u hu))
    · rw [if_neg hbreak]
      by_cases hshared : overlap start stop t.estimatedStart t.estimatedEnd ≤ 0
      · rw [RiskIndex.weigh_cons_apart hacc rest (le_antisymm hshared (overlap_nonneg ..)),
          ← ih hsorted.2 hacc]
        exact if_pos hshared
      · have hacc' : rounding.round (risk.weigh rounding testID start stop acc [t]).1 =
            (risk.weigh rounding testID start stop acc [t]).1 := risk.round_weigh hacc [t]
        rw [if_neg hshared, ← List.singleton_append, risk.weigh_append, ← ih hsorted.2 hacc',
          risk.weigh_singleton]
        dsimp only
        by_cases hrisky : 1 / 4 ≤ risk.probability testID t.testID
        · rw [if_pos (show risk.Named testID start stop t from ⟨not_le.mp hshared, hrisky⟩),
            if_pos hrisky]
          rfl
        · rw [if_neg (fun hnamed : risk.Named testID start stop t => hrisky hnamed.2),
            if_neg hrisky]
          rfl

end Parts

/-! ## The binary search -/

/-- The tests before `low` end by `start`, and those from `high` on end later. -/
structure Splits (lane : List ScheduledTest) (start : ℚ) (low high : ℕ) : Prop where
  low_le : low ≤ high
  high_le : high ≤ lane.length
  before : ∀ i t, lane[i]? = some t → i < low → t.estimatedEnd ≤ start
  after : ∀ i t, lane[i]? = some t → high ≤ i → start < t.estimatedEnd

/-- With enough fuel the binary search finds the point where a lane splits. -/
theorem splits_searchFrom {lane : List ScheduledTest} {start : ℚ}
    (hgrow : lane.Pairwise fun a b => a.estimatedEnd ≤ b.estimatedEnd) :
    ∀ fuel low high, high - low ≤ fuel → Splits lane start low high →
      Splits lane start (searchFrom lane start fuel low high)
        (searchFrom lane start fuel low high) := by
  have hmono : ∀ (i j : ℕ) (t u : ScheduledTest), lane[i]? = some t → lane[j]? = some u → i ≤ j →
      t.estimatedEnd ≤ u.estimatedEnd := by
    intro i j t u hi hj hij
    obtain ⟨hilt, rfl⟩ := List.getElem?_eq_some_iff.mp hi
    obtain ⟨hjlt, rfl⟩ := List.getElem?_eq_some_iff.mp hj
    rcases Nat.lt_or_eq_of_le hij with hlt | rfl
    · exact List.pairwise_iff_getElem.mp hgrow i j hilt hjlt hlt
    · exact le_refl _
  intro fuel
  induction fuel with
  | zero =>
    intro low high hfuel h
    obtain rfl : low = high := le_antisymm h.low_le (by omega)
    exact h
  | succ fuel ih =>
    intro low high hfuel h
    rw [searchFrom]
    by_cases hlt : low < high
    · have hmiddle : (low + high) / 2 < lane.length := by
        have := h.high_le
        omega
      have hitem := List.getElem?_eq_getElem hmiddle
      rw [if_pos hlt]
      dsimp only
      rw [hitem]
      dsimp only
      by_cases hend : (lane[(low + high) / 2]).estimatedEnd ≤ start
      · rw [if_pos hend]
        refine ih _ _ (by omega) ⟨by omega, h.high_le, fun i t hi hlow => ?_, h.after⟩
        exact (hmono i _ t _ hi hitem (by omega)).trans hend
      · rw [if_neg hend]
        refine ih _ _ (by omega) ⟨by omega, by omega, h.before, fun i t hi hhigh => ?_⟩
        exact (not_le.mp hend).trans_le (hmono _ i _ t hitem hi hhigh)
    · obtain rfl : low = high := le_antisymm h.low_le (not_lt.mp hlt)
      rw [if_neg hlt]
      exact h

/-! ## The lanes of the placement loop -/

section Lanes

variable {rounding : Rounding} {testID : String} {start stop : ℚ} {risk : RiskIndex}

/-- What the search skips on a sound lane, and what the break skips, have no part in the risk. -/
theorem scanLane_drop_search {worker : ℕ} {lane : List ScheduledTest}
    (h : SoundLane ScheduledTest.worker ScheduledTest.estimatedStart ScheduledTest.estimatedEnd
      ScheduledTest.estimatedDuration worker lane) {acc : ℚ × List String}
    (hacc : rounding.round acc.1 = acc.1) :
    scanLane rounding testID start stop risk acc
        (lane.drop (searchFrom lane start lane.length 0 lane.length)) =
      risk.weigh rounding testID start stop acc lane := by
  have hstarts : lane.Pairwise fun a b => a.estimatedStart ≤ b.estimatedStart :=
    h.chained.imp_of_mem fun ha _ hab => (h.start_lt_stop _ ha).le.trans hab
  have hends : lane.Pairwise fun a b => a.estimatedEnd ≤ b.estimatedEnd :=
    h.chained.imp_of_mem fun _ hb hab => hab.trans (h.start_lt_stop _ hb).le
  have hsplits := @splits_searchFrom lane start hends lane.length 0 lane.length (by omega)
    ⟨Nat.zero_le _, le_refl _, fun _ _ _ hlow => absurd hlow (Nat.not_lt_zero _),
      fun i t hi hhigh => absurd (List.getElem?_eq_some_iff.mp hi).1 (not_lt.mpr hhigh)⟩
  generalize searchFrom lane start lane.length 0 lane.length = low at hsplits
  rw [scanLane_eq (hstarts.sublist (List.drop_sublist ..)) hacc]
  have hskipped : risk.weigh rounding testID start stop acc (lane.take low) = acc := by
    refine risk.weigh_apart hacc fun t ht => ?_
    obtain ⟨i, hi⟩ := List.mem_iff_getElem?.mp ht
    have hlow : i < low := by
      have := (List.getElem?_eq_some_iff.mp hi).1
      rw [List.length_take] at this
      omega
    rw [List.getElem?_take_of_lt hlow] at hi
    exact overlap_eq_zero_of_end_le (hsplits.before i t hi hlow)
  calc risk.weigh rounding testID start stop acc (lane.drop low)
      = risk.weigh rounding testID start stop
          (risk.weigh rounding testID start stop acc (lane.take low)) (lane.drop low) := by
        rw [hskipped]
    _ = risk.weigh rounding testID start stop acc lane := by
        rw [← risk.weigh_append, List.take_append_drop]

/-- On a sound board the shortcuts lose nothing. -/
theorem placementRisk_eq {lanes : List (List ScheduledTest)} (h : Sound lanes) (worker : ℕ) :
    placementRisk rounding testID start stop lanes risk worker =
      fullRisk rounding testID start stop lanes risk worker := by
  have hlanes : ∀ lane ∈ lanes.eraseIdx worker, ∃ i, SoundLane ScheduledTest.worker
      ScheduledTest.estimatedStart ScheduledTest.estimatedEnd ScheduledTest.estimatedDuration i
      lane := by
    intro lane hlane
    obtain ⟨i, -, hi⟩ := List.mem_eraseIdx_iff_getElem?.mp hlane
    exact ⟨i, h i lane hi⟩
  have hloop : ∀ (rest : List (List ScheduledTest)) (acc : ℚ × List String),
      rounding.round acc.1 = acc.1 →
      (∀ lane ∈ rest, ∃ i, SoundLane ScheduledTest.worker ScheduledTest.estimatedStart
        ScheduledTest.estimatedEnd ScheduledTest.estimatedDuration i lane) →
      rest.foldl (fun acc lane => scanLane rounding testID start stop risk acc
          (lane.drop (searchFrom lane start lane.length 0 lane.length))) acc =
        risk.weigh rounding testID start stop acc rest.flatten := by
    intro rest
    induction rest with
    | nil => exact fun acc _ _ => (risk.weigh_nil acc).symm
    | cons lane rest ih =>
      intro acc hacc hrest
      rw [List.forall_mem_cons] at hrest
      obtain ⟨⟨i, hlane⟩, hrest⟩ := hrest
      rw [List.foldl_cons, scanLane_drop_search hlane hacc, ih _ (risk.round_weigh hacc _) hrest,
        List.flatten_cons, risk.weigh_append]
  rw [placementRisk, hloop _ _ rounding.round_one hlanes, RiskIndex.weigh, fullRisk, others]
  dsimp only
  rw [List.nil_append]

end Lanes

/-- **The shortcuts lose nothing.** In every state that the placement loop of `static_schedule`
reaches, `_placement_risk` is the full scan, for every test, worker, start and end. -/
theorem placementRisk_eq_fullRisk {s : ConflictScheduler} {rt : Runtime}
    {tests : List TestIdentity} {stats : PartialMap String TestStats}
    {predictions : List PairPrediction} {rounds : ℕ} {p : Placement}
    (hreached : (s.start rt tests stats predictions).1.placeAll rounds
      (s.start rt tests stats predictions).2 = .ok p)
    (testID : String) (worker : ℕ) (start stop : ℚ) :
    placementRisk rt.rounding testID start stop p.lanes (RiskIndex.new predictions) worker =
      fullRisk rt.rounding testID start stop p.lanes (RiskIndex.new predictions) worker :=
  placementRisk_eq
    ((s.start_inv rt tests stats predictions).of_placeAll (durationOf_pos stats) _ hreached).sound
    worker

/-- Two tests placed, and a third one that would run beside both. -/
theorem placementRisk_eq_fullRisk_pair :
    ∃ p, (ConflictScheduler.unrefined.start .reference [.named "a", .named "b", .named "c"]
          (statsOf [("a", 10), ("b", 8), ("c", 4)]) [.new "a" "c" 1 "same port"]).1.placeAll 2
        (ConflictScheduler.unrefined.start .reference [.named "a", .named "b", .named "c"]
          (statsOf [("a", 10), ("b", 8), ("c", 4)]) [.new "a" "c" 1 "same port"]).2 = .ok p ∧
      placementRisk .exact "c" 0 4 p.lanes (RiskIndex.new [.new "a" "c" 1 "same port"]) 2 =
        fullRisk .exact "c" 0 4 p.lanes (RiskIndex.new [.new "a" "c" 1 "same port"]) 2 := by
  obtain ⟨p, hp⟩ := exists_eq_ok_of_isOk
    (r := (ConflictScheduler.unrefined.start .reference [.named "a", .named "b", .named "c"]
        (statsOf [("a", 10), ("b", 8), ("c", 4)]) [.new "a" "c" 1 "same port"]).1.placeAll 2
      (ConflictScheduler.unrefined.start .reference [.named "a", .named "b", .named "c"]
        (statsOf [("a", 10), ("b", 8), ("c", 4)]) [.new "a" "c" 1 "same port"]).2)
    (by decide +kernel)
  exact ⟨p, hp, placementRisk_eq_fullRisk hp "c" 2 0 4⟩

end ConflictGraph.Py
