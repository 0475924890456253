import ConflictGraph.PyGraphBuild

/-!
# The heuristic predictor

`candidate_pairs` goes through the resources and yields the pairs of their tests;
`HeuristicPredictor.score` turns the features of a pair into a probability. Without the
read-only pairs a pair is yielded only if one of its tests mutates something that both use
(`mem_candidatePairs`). All signals of the score but one say that, too: two tests that share a
Unix socket have a signal of weight 0.94 whatever they do to it (`pruned_iff`).
-/

namespace ConflictGraph.Py

/-! ## Candidates -/

/-- `itertools.combinations(items, 2)`. -/
def combinations {α : Type} : List α → List (α × α)
  | [] => []
  | a :: rest => rest.map (a, ·) ++ combinations rest

/-- Pairs that were not yielded before are. -/
def emit {α : Type} [DecidableEq α] (emitted : List α) (pair : α) : List α :=
  if pair ∈ emitted then emitted else emitted ++ [pair]

/-- The items that a test accepts, if it does not raise. -/
def keep {α : Type} (test : α → Except ExceptionType Bool) : List α → Except ExceptionType (List α)
  | [] => .ok []
  | a :: rest => do
    if ← test a then return a :: (← keep test rest) else keep test rest

/-- The order of tuples. -/
def pairLE (p q : Str × Str) : Prop := p.1 < q.1 ∨ (p.1 = q.1 ∧ p.2 ≤ q.2)

instance : DecidableRel pairLE := fun _ _ => inferInstanceAs (Decidable (_ ∨ _))

/-- `self.edges[(test_id, resource_id)].mutating`. -/
def TestResourceGraph.mutates (g : TestResourceGraph) (testID resourceID : Str) :
    Except ExceptionType Bool :=
  match g.edges (testID, resourceID) with
  | some edge => .ok edge.mutating
  | none => .error .keyError

/-- The pairs of a resource, in the order in which `candidate_pairs` comes to them. -/
def TestResourceGraph.pairsOf (g : TestResourceGraph) (includeReadonly : Bool) (resourceID : Str) :
    Except ExceptionType (List (Str × Str)) :=
  if (g.resourceTests resourceID).card < 2 then .ok []
  else
    keep (fun pair => do
      if includeReadonly then return true
      else
        let left ← g.mutates pair.1 resourceID
        let right ← g.mutates pair.2 resourceID
        return left || right)
      (combinations (sortedIDs (g.resourceTests resourceID)))

/-- `candidate_pairs`, to its end. -/
def KeyedGraph.candidatePairs (k : KeyedGraph) (includeReadonly : Bool) :
    Except ExceptionType (List (Str × Str)) := do
  let pairs ← k.resourceIDs.mapM (k.graph.pairsOf includeReadonly)
  let emitted := pairs.flatten.foldl emit []
  return emitted ++ (k.historyPairs.insertionSort pairLE).filter (· ∉ emitted)

section Candidates

variable {α : Type}

/-- Of a sorted list the combinations are the pairs in order. -/
theorem mem_combinations {x y : α} {r : α → α → Prop} {items : List α} (h : items.Pairwise r)
    (hirrefl : ∀ a, ¬ r a a) (hasymm : ∀ a b, r a b → ¬ r b a) :
    (x, y) ∈ combinations items ↔ x ∈ items ∧ y ∈ items ∧ r x y := by
  induction items with
  | nil => simp [combinations]
  | cons a rest ih =>
    rw [List.pairwise_cons] at h
    obtain ⟨hhead, hrest⟩ := h
    simp only [combinations, List.mem_append, List.mem_map, Prod.mk.injEq, List.mem_cons, ih hrest]
    refine ⟨?_, ?_⟩
    · rintro (⟨b, hb, rfl, rfl⟩ | ⟨hx, hy, hxy⟩)
      · exact ⟨.inl rfl, .inr hb, hhead b hb⟩
      · exact ⟨.inr hx, .inr hy, hxy⟩
    · rintro ⟨rfl | hx, rfl | hy, hxy⟩
      · exact absurd hxy (hirrefl _)
      · exact .inl ⟨y, hy, rfl, rfl⟩
      · exact absurd hxy (hasymm _ _ (hhead x hx))
      · exact .inr ⟨hx, hy, hxy⟩

/-- What is emitted is what was there, and the items. -/
theorem mem_foldl_emit [DecidableEq α] {a : α} {items : List α} :
    ∀ {emitted : List α}, a ∈ items.foldl emit emitted ↔ a ∈ emitted ∨ a ∈ items := by
  induction items with
  | nil => simp
  | cons b rest ih =>
    intro emitted
    rw [List.foldl_cons, ih, List.mem_cons, ← or_assoc]
    refine or_congr_left ?_
    rw [emit]
    split
    · rename_i hmem
      exact ⟨.inl, fun h => h.elim id fun heq => heq ▸ hmem⟩
    · rw [List.mem_append, List.mem_singleton]

theorem keep_eq_ok {test : α → Except ExceptionType Bool} {accepts : α → Bool} {items : List α}
    (h : ∀ a ∈ items, test a = .ok (accepts a)) : keep test items = .ok (items.filter accepts) := by
  induction items with
  | nil => rfl
  | cons a rest ih =>
    rw [List.forall_mem_cons] at h
    rw [keep, h.1, ih h.2, List.filter_cons]
    cases accepts a <;> rfl

end Candidates

namespace TestResourceGraph

variable {g : TestResourceGraph} {a b : Str} {includeReadonly : Bool}

/-- In a linked graph asking for a mutation raises nothing. -/
theorem Linked.mutates_eq (h : g.Linked) {testID id : Str} (hid : id ∈ g.testResources testID) :
    g.mutates testID id = .ok (g.mutated testID id) := by
  obtain ⟨edge, hedge⟩ := (h.edge_iff testID id).mpr hid
  rw [mutates, mutated, hedge]
  rfl

/-- The pairs of a resource are those of its tests, of which one mutates it unless readers count. -/
theorem Linked.pairsOf_eq (h : g.Linked) (id : Str) :
    ∃ pairs, g.pairsOf includeReadonly id = .ok pairs ∧ ∀ a b, (a, b) ∈ pairs ↔
      a < b ∧ id ∈ g.testResources a ∧ id ∈ g.testResources b ∧
        (includeReadonly = true ∨ g.mutated a id = true ∨ g.mutated b id = true) := by
  rw [pairsOf]
  split
  · rename_i hfew
    refine ⟨[], rfl, fun a b => iff_of_false List.not_mem_nil ?_⟩
    rintro ⟨hlt, ha, hb, -⟩
    have heq := Finset.card_le_one.mp (Nat.le_of_lt_succ hfew) a ((h.test_iff a id).mpr ha) b
      ((h.test_iff b id).mpr hb)
    exact absurd heq hlt.ne
  · have hsorted := sortedIDs_pairwise (g.resourceTests id)
    refine ⟨_, @keep_eq_ok _ _ (fun pair => includeReadonly || (g.mutated pair.1 id ||
      g.mutated pair.2 id)) _ ?_, fun a b => ?_⟩
    · rintro ⟨x, y⟩ hpair
      obtain ⟨hx, hy, -⟩ := (mem_combinations hsorted lt_irrefl fun _ _ => not_lt_of_gt).mp hpair
      rw [mem_sortedIDs, h.test_iff] at hx hy
      cases includeReadonly with
      | true => rfl
      | false =>
        rw [h.mutates_eq hx, h.mutates_eq hy]
        rfl
    · rw [List.mem_filter, mem_combinations hsorted lt_irrefl fun _ _ => not_lt_of_gt,
        mem_sortedIDs, mem_sortedIDs, h.test_iff, h.test_iff, Bool.or_eq_true, Bool.or_eq_true]
      tauto

end TestResourceGraph

/-- **What `candidate_pairs` yields**: the pairs that share a resource, if one of them mutates it or
the read-only pairs are included, and those with a history. -/
theorem KeyedGraph.Keyed.candidatePairs_eq {k : KeyedGraph} (h : k.Keyed) (includeReadonly : Bool) :
    ∃ pairs, k.candidatePairs includeReadonly = .ok pairs ∧ ∀ a b, (a, b) ∈ pairs ↔
      (a < b ∧ ∃ id, id ∈ k.graph.testResources a ∧ id ∈ k.graph.testResources b ∧
        (includeReadonly = true ∨ k.graph.mutated a id = true ∨ k.graph.mutated b id = true)) ∨
      (a, b) ∈ k.historyPairs := by
  -- no lookup fails, so each resource has its list of pairs
  choose found hfound hmem using fun id => @h.linked.pairsOf_eq _ includeReadonly id
  have hoption : (fun id => (k.graph.pairsOf includeReadonly id).toOption) = some ∘ found := by
    funext id
    rw [hfound]
    rfl
  have hall : k.resourceIDs.mapM (k.graph.pairsOf includeReadonly) = .ok (k.resourceIDs.map found) := by
    rw [mapM_eq_ok fun id _ => ⟨found id, hfound id⟩, hoption, List.filterMap_eq_map]
  refine ⟨_, by rw [candidatePairs, hall]; rfl, fun a b => ?_⟩
  have hemitted : (a, b) ∈ (k.resourceIDs.map found).flatten.foldl emit [] ↔
      a < b ∧ ∃ id, id ∈ k.graph.testResources a ∧ id ∈ k.graph.testResources b ∧
        (includeReadonly = true ∨ k.graph.mutated a id = true ∨ k.graph.mutated b id = true) := by
    rw [mem_foldl_emit, or_iff_right List.not_mem_nil, ← List.flatMap_def, List.mem_flatMap]
    refine ⟨?_, ?_⟩
    · rintro ⟨id, -, hpair⟩
      obtain ⟨hlt, hshared⟩ := (hmem id a b).mp hpair
      exact ⟨hlt, id, hshared⟩
    · rintro ⟨hlt, id, hshared⟩
      refine ⟨id, (h.mem_resourceIDs id).mpr ⟨a, ?_⟩, (hmem id a b).mpr ⟨hlt, hshared⟩⟩
      exact (h.linked.test_iff a id).mpr hshared.1
  rw [List.mem_append, List.mem_filter, List.mem_insertionSort, decide_eq_true_eq, hemitted]
  exact or_and_left.trans (and_iff_left (Classical.em _))

/-! ## Scores -/

/-- `max(0.0, min(1.0, probability))`. -/
def clamp (probability : ℚ) : ℚ := max 0 (min 1 probability)

theorem clamp_nonneg (probability : ℚ) : 0 ≤ clamp probability := le_max_left ..

theorem clamp_le_one (probability : ℚ) : clamp probability ≤ 1 :=
  max_le zero_le_one (min_le_left ..)

/-- A `PairPrediction` with the texts of a trace, after `__post_init__`. -/
structure Prediction : Type where
  testA : Str
  testB : Str
  probability : ℚ
  cause : ConflictCause
  modelVersion : Str
  sharedResources : List Str
  explanation : Str
  ordered : testA ≤ testB
  probability_nonneg : 0 ≤ probability
  probability_le_one : probability ≤ 1

/-- `PairPrediction(...)`. -/
def Prediction.new (testA testB : Str) (probability : ℚ) (cause : ConflictCause)
    (modelVersion : Str) (sharedResources : List Str) (explanation : Str) : Prediction where
  testA := if testB < testA then testB else testA
  testB := if testB < testA then testA else testB
  probability := clamp probability
  cause := cause
  modelVersion := modelVersion
  sharedResources := sharedResources
  explanation := explanation
  ordered := by
    split
    · exact le_of_lt ‹_›
    · exact not_lt.mp ‹_›
  probability_nonneg := clamp_nonneg probability
  probability_le_one := clamp_le_one probability

/-- A signal: how often it is there, and what it means. -/
structure Signal : Type where
  count : ℕ
  weight : ℚ
  cause : ConflictCause
  reason : Str

/-- The signals, in the order of `score`. -/
def PairFeatures.signals (f : PairFeatures) : List Signal :=
  [⟨f.sharedBind, 995 / 1000, .portCollision, str "both bind the same endpoint"⟩,
    ⟨f.createCreate, 97 / 100, .fileCollision, str "both create the same resource"⟩,
    ⟨f.sharedLocks, 92 / 100, .databaseLock, str "both lock the same resource"⟩,
    ⟨f.sharedUnixSockets, 94 / 100, .unixSocketCollision, str "share a Unix socket"⟩,
    ⟨f.sharedRedisWrites, 90 / 100, .sharedState, str "mutate the same Redis key"⟩,
    ⟨f.deleteRead, 88 / 100, .fileCollision, str "one deletes a resource read by the other"⟩,
    ⟨f.writeWrite, 82 / 100, .fileCollision, str "both mutate the same resource"⟩,
    ⟨f.readWrite, 65 / 100, .fileCollision, str "one reads a resource mutated by the other"⟩]

/-- The variables of `score`. -/
structure Scoring : Type where
  probability : ℚ
  cause : ConflictCause
  reasons : List Str

/-- The body of the loop over the signals. -/
def Scoring.add (s : Scoring) (signal : Signal) : Scoring :=
  if signal.count = 0 then s
  else
    { probability := 1 - (1 - s.probability) * (1 - signal.weight) ^ signal.count
      cause := if s.cause = .unknown ∨ 9 / 10 < signal.weight then signal.cause else s.cause
      reasons := s.reasons ++ [Str.ofNat signal.count ++ str "x " ++ signal.reason] }

/-- `f"{rate:.1%}"`. -/
def percentText (rate : ℚ) : Str :=
  let tenths := (roundEven (|rate| * 1000)).toNat
  (if rate < 0 then str "-" else []) ++ Str.ofNat (tenths / 10) ++ str "." ++
    Str.ofNat (tenths % 10) ++ str "%"

/-- `historical_rate`. -/
def PairFeatures.historicalRate (f : PairFeatures) : ℚ :=
  if f.historicalConcurrency = 0 then 0
  else (f.historicalCofailures : ℚ) / f.historicalConcurrency

structure HeuristicPredictor : Type where
  floor : ℚ := 1 / 1000

namespace HeuristicPredictor

variable (h : HeuristicPredictor) (f : PairFeatures)

/-- The loop over the signals. -/
def semantic : Scoring := f.signals.foldl Scoring.add ⟨h.floor, .unknown, []⟩

/-- What is only read adds next to nothing. -/
def withReadonly (s : Scoring) : Scoring :=
  if f.sharedResources ≠ 0 ∧ s.reasons = [] then
    { s with
      probability := min (2 / 100) (h.floor + 1 / 1000 * f.sharedResources * f.meanRarity)
      reasons := [Str.ofNat f.sharedResources ++ str " shared read-only resource(s)"] }
  else s

/-- What happened when both ran at once. -/
def withHistory (s : Scoring) : Scoring :=
  if f.historicalRate = 0 then s
  else
    { s with
      probability := 1 - (1 - s.probability) * (1 - min (8 / 10) f.historicalRate)
      reasons := s.reasons ++
        [str "historical concurrent co-failure rate " ++ percentText f.historicalRate] }

/-- `score`. -/
def score : Prediction :=
  let s := withHistory f (h.withReadonly f (h.semantic f))
  .new f.testA f.testB s.probability s.cause (str "heuristic-v1")
    ((f.evidence.take 8).map Evidence.resource)
    (if s.reasons = [] then str "no meaningful shared mutable resource"
      else List.intercalate (str "; ") s.reasons)

/-- `predict_graph`. -/
def predictGraph (k : KeyedGraph) (includeReadonly : Bool) :
    Except ExceptionType (List Prediction) := do
  let pairs ← k.candidatePairs includeReadonly
  pairs.mapM fun pair => (k.graph.pairFeatures pair.1 pair.2).map h.score

end HeuristicPredictor

/-! ## Pairs that are not yielded -/

theorem Scoring.add_of_count_eq_zero {s : Scoring} {signal : Signal} (h : signal.count = 0) :
    s.add signal = s := if_pos h

/-- No signal but that of Unix sockets. -/
structure PairFeatures.Quiet (f : PairFeatures) : Prop where
  sharedBind : f.sharedBind = 0
  createCreate : f.createCreate = 0
  sharedLocks : f.sharedLocks = 0
  sharedRedisWrites : f.sharedRedisWrites = 0
  deleteRead : f.deleteRead = 0
  writeWrite : f.writeWrite = 0
  readWrite : f.readWrite = 0
  historicalRate : f.historicalRate = 0

/-- The score of such a pair. -/
theorem PairFeatures.Quiet.probability {f : PairFeatures} (hquiet : f.Quiet)
    (h : HeuristicPredictor) :
    (h.score f).probability = clamp
      (if f.sharedUnixSockets = 0 then
        if f.sharedResources = 0 then h.floor
        else min (2 / 100) (h.floor + 1 / 1000 * f.sharedResources * f.meanRarity)
      else 1 - (1 - h.floor) * (1 - 94 / 100) ^ f.sharedUnixSockets) := by
  have hsemantic : h.semantic f = Scoring.add ⟨h.floor, .unknown, []⟩
      ⟨f.sharedUnixSockets, 94 / 100, .unixSocketCollision, str "share a Unix socket"⟩ := by
    simp only [HeuristicPredictor.semantic, PairFeatures.signals, List.foldl_cons, List.foldl_nil,
      hquiet.sharedBind, hquiet.createCreate, hquiet.sharedLocks, hquiet.sharedRedisWrites,
      hquiet.deleteRead, hquiet.writeWrite, hquiet.readWrite, Scoring.add_of_count_eq_zero]
  rw [HeuristicPredictor.score, HeuristicPredictor.withHistory, if_pos hquiet.historicalRate,
    hsemantic, Scoring.add]
  by_cases hsockets : f.sharedUnixSockets = 0
  · by_cases hresources : f.sharedResources = 0
    · simp [Prediction.new, HeuristicPredictor.withReadonly, hsockets, hresources]
    · simp [Prediction.new, HeuristicPredictor.withReadonly, hsockets, hresources]
  · simp [Prediction.new, HeuristicPredictor.withReadonly, hsockets]

/-- Such a pair scores low exactly if it shares no Unix socket. -/
theorem PairFeatures.Quiet.probability_le_iff {f : PairFeatures} (hquiet : f.Quiet)
    {h : HeuristicPredictor} (hnonneg : 0 ≤ h.floor) (hfloor : h.floor ≤ 2 / 100) :
    (h.score f).probability ≤ 2 / 100 ↔ f.sharedUnixSockets = 0 := by
  rw [hquiet.probability, clamp]
  refine ⟨fun hle => ?_, fun hsockets => ?_⟩
  · by_contra hsockets
    rw [if_neg hsockets] at hle
    -- one socket is enough: the rest of the product is at most 6 %
    have hpow : (1 - 94 / 100 : ℚ) ^ f.sharedUnixSockets ≤ 6 / 100 := by
      calc (1 - 94 / 100 : ℚ) ^ f.sharedUnixSockets
        _ ≤ (1 - 94 / 100 : ℚ) ^ 1 :=
          pow_le_pow_of_le_one (by norm_num) (by norm_num) (Nat.one_le_iff_ne_zero.mpr hsockets)
        _ = 6 / 100 := by norm_num
    have hrest : (1 - h.floor) * (1 - 94 / 100 : ℚ) ^ f.sharedUnixSockets ≤ 1 * (6 / 100) :=
      mul_le_mul (by linarith) hpow (by positivity) zero_le_one
    have hmin := (le_max_right _ _).trans hle
    rcases min_le_iff.mp hmin with hone | hscore
    · norm_num at hone
    · linarith
  · rw [if_pos hsockets]
    refine max_le (by norm_num) ((min_le_right _ _).trans ?_)
    split
    · exact hfloor
    · exact min_le_left _ _

/-- What two tests use, and neither mutates. -/
structure SharedResource.Unmutated (s : SharedResource) : Prop where
  observed_left : s.left.Observed
  observed_right : s.right.Observed
  left : s.left.mutating = false
  right : s.right.mutating = false

namespace SharedResource.Unmutated

variable {s : SharedResource} {operation : Operation}

theorem not_mem_left (h : s.Unmutated) (hmutating : ∀ mode, isMutating operation mode = true) :
    operation ∉ s.left.operations := fun hmem =>
  Bool.noConfusion (h.left.symm.trans (h.observed_left.mutating hmem hmutating))

theorem not_mem_right (h : s.Unmutated) (hmutating : ∀ mode, isMutating operation mode = true) :
    operation ∉ s.right.operations := fun hmem =>
  Bool.noConfusion (h.right.symm.trans (h.observed_right.mutating hmem hmutating))

theorem both_eq_false (h : s.Unmutated) (hmutating : ∀ mode, isMutating operation mode = true) :
    s.both operation = false := by
  rw [SharedResource.both, decide_eq_false (h.not_mem_left hmutating), Bool.false_and]

end SharedResource.Unmutated

namespace TestResourceGraph

variable {g : TestResourceGraph} {a b : Str}

/-- The two tests share a Unix socket. -/
def SharesSocket (g : TestResourceGraph) (a b : Str) : Prop :=
  ∃ id resource, id ∈ g.testResources a ∧ id ∈ g.testResources b ∧
    g.resources id = some resource ∧ resource.type = .unixSocket

/-- No shared socket is counted exactly if none is shared. -/
theorem countP_sharedList_eq_zero_iff (h : g.Linked) :
    (g.sharedList a b).countP (fun s => s.resource.type = .unixSocket) = 0 ↔
      ¬ g.SharesSocket a b := by
  rw [List.countP_eq_zero]
  refine ⟨?_, fun hno s hs htype => ?_⟩
  · rintro hnone ⟨id, resource, hleft, hright, hresource, htype⟩
    obtain ⟨s, hshared⟩ := h.exists_shared (mem_sharedIDs.mpr ⟨hleft, hright⟩)
    refine hnone s (mem_sharedList.mpr ⟨id, mem_sharedIDs.mpr ⟨hleft, hright⟩, hshared⟩) ?_
    obtain ⟨-, -, hfound, -⟩ := shared_eq_ok.mp hshared
    obtain rfl := Option.some.inj (hfound.symm.trans hresource)
    exact decide_eq_true htype
  · obtain ⟨id, hid, hshared⟩ := mem_sharedList.mp hs
    obtain ⟨-, -, hresource, -⟩ := shared_eq_ok.mp hshared
    obtain ⟨hleft, hright⟩ := mem_sharedIDs.mp hid
    exact hno ⟨id, s.resource, hleft, hright, hresource, of_decide_eq_true htype⟩

/-- **Where nothing is mutated** only Unix sockets are a signal. -/
theorem Linked.quiet (h : g.Linked) (hhistory : g.pairHistory = PartialMap.empty) (hab : a ≤ b)
    (hcalm : ∀ id, id ∈ g.testResources a → id ∈ g.testResources b →
      g.mutated a id = false ∧ g.mutated b id = false) :
    ∃ f, g.pairFeatures a b = .ok f ∧ f.Quiet ∧
      f.sharedUnixSockets = (g.sharedList a b).countP fun s => s.resource.type = .unixSocket := by
  have hunmutated : ∀ s ∈ g.sharedList a b, s.Unmutated := by
    intro s hs
    obtain ⟨id, hid, hshared⟩ := mem_sharedList.mp hs
    obtain ⟨hleft, hright, -, -⟩ := shared_eq_ok.mp hshared
    obtain ⟨ha, hb⟩ := mem_sharedIDs.mp hid
    obtain ⟨hcalmA, hcalmB⟩ := hcalm id ha hb
    rw [mutated, hleft, Option.any_some] at hcalmA
    rw [mutated, hright, Option.any_some] at hcalmB
    exact ⟨h.observed _ _ hleft, h.observed _ _ hright, hcalmA, hcalmB⟩
  have hzero : ∀ {p : SharedResource → Bool}, (∀ s : SharedResource, s.Unmutated → p s = false) →
      (g.sharedList a b).countP p = 0 := fun hp =>
    List.countP_eq_zero.mpr fun s hs => ne_true_of_eq_false (hp s (hunmutated s hs))
  refine ⟨_, by simp only [pairFeatures, if_pos hab, h.mapM_shared]; rfl, ?_, rfl⟩
  exact {
    sharedBind := hzero fun s hs => hs.both_eq_false fun _ => rfl
    createCreate := hzero fun s hs => hs.both_eq_false fun _ => rfl
    sharedLocks := hzero fun s hs => hs.both_eq_false fun _ => rfl
    sharedRedisWrites := hzero fun s hs => by rw [hs.right, Bool.and_false]
    deleteRead := hzero fun s hs => by
      have hleft : Operation.delete ∉ s.left.operations := hs.not_mem_left fun _ => rfl
      have hright : Operation.delete ∉ s.right.operations := hs.not_mem_right fun _ => rfl
      rw [SharedResource.againstRead, decide_eq_false hleft, decide_eq_false hright,
        Bool.false_and, Bool.false_and, Bool.or_false]
    writeWrite := hzero fun s hs => by rw [hs.right, Bool.and_false]
    readWrite := hzero fun s hs => by
      rw [SharedResource.againstRead, hs.left, hs.right, Bool.false_and, Bool.false_and,
        Bool.or_false]
    historicalRate := by
      rw [PairFeatures.historicalRate, hhistory]
      rfl }

end TestResourceGraph

/-- **A pair that is not yielded** has at most the risk of what is only read, exactly if it shares
no Unix socket. -/
theorem pruned_iff (sha256 : Str → Str) (calls : List GraphCall) {h : HeuristicPredictor}
    (hnonneg : 0 ≤ h.floor) (hfloor : h.floor ≤ 2 / 100) {a b : Str} (hab : a < b) :
    ∃ pairs, (KeyedGraph.build sha256 calls).candidatePairs false = .ok pairs ∧
      ((a, b) ∉ pairs →
        ∃ f, (KeyedGraph.build sha256 calls).graph.pairFeatures a b = .ok f ∧
          ((h.score f).probability ≤ 2 / 100 ↔
            ¬ (KeyedGraph.build sha256 calls).graph.SharesSocket a b)) := by
  have hbuilt := KeyedGraph.built_build sha256 calls
  obtain ⟨pairs, hpairs, hmem⟩ := hbuilt.candidatePairs_eq false
  refine ⟨pairs, hpairs, fun hpruned => ?_⟩
  obtain ⟨f, hf, hquiet, hsockets⟩ := hbuilt.linked.quiet hbuilt.pairHistory hab.le (by
    intro id ha hb
    rw [hmem] at hpruned
    refine ⟨?_, ?_⟩
    · by_contra hmutated
      exact hpruned (.inl ⟨hab, id, ha, hb, .inr (.inl (Bool.of_not_eq_false hmutated))⟩)
    · by_contra hmutated
      exact hpruned (.inl ⟨hab, id, ha, hb, .inr (.inr (Bool.of_not_eq_false hmutated))⟩))
  refine ⟨f, hf, (hquiet.probability_le_iff hnonneg hfloor).trans ?_⟩
  rw [hsockets]
  exact TestResourceGraph.countP_sharedList_eq_zero_iff hbuilt.linked

/-- A test connects to `/tmp/s`. -/
def connects (testID : Str) (timestamp : ℤ) : TraceEvent where
  executionID := str "e"
  testID := testID
  timestampNS := timestamp
  pid := 1
  tid := 1
  cgroupID := 0
  resourceType := .unixSocket
  resourceIdentifier := str "/tmp/s"
  operation := .connect
  accessMode := .unknown
  source := .replay
  metadata := .object []
  sequence := 0

/-- The digest of the text that `create` hashes for `/tmp/s`. -/
def digestOfSocket (_ : Str) : Str :=
  str "ffeb215077098a4b2a3b2d8bef748d7dc64c68ea8ef883e6a79a07d356441188"

/-- Two tests connect to it. -/
def bothConnect : List GraphCall :=
  [.addEvent (connects (str "a") 1), .addEvent (connects (str "b") 2)]

theorem pruned_iff_bothConnect :
    ∃ pairs, (KeyedGraph.build digestOfSocket bothConnect).candidatePairs false = .ok pairs ∧
      ((str "a", str "b") ∉ pairs →
        ∃ f, (KeyedGraph.build digestOfSocket bothConnect).graph.pairFeatures (str "a") (str "b") =
            .ok f ∧
          ((HeuristicPredictor.score {} f).probability ≤ 2 / 100 ↔
            ¬ (KeyedGraph.build digestOfSocket bothConnect).graph.SharesSocket (str "a") (str "b"))) :=
  pruned_iff digestOfSocket bothConnect (by norm_num) (by norm_num) (by decide)

theorem sharesSocket_bothConnect :
    (KeyedGraph.build digestOfSocket bothConnect).graph.SharesSocket (str "a") (str "b") :=
  ⟨str "res_ffeb215077098a4b2a3b2d8b", .of digestOfSocket .unixSocket (str "/tmp/s"),
    by decide +kernel, by decide +kernel, by decide +kernel, rfl⟩

theorem not_mutated_bothConnect (testID id : Str) :
    (KeyedGraph.build digestOfSocket bothConnect).graph.mutated testID id = false := by
  rw [← Bool.not_eq_true, KeyedGraph.mutated_build]
  simp [bothConnect, GraphCall.mutates, connects, isMutating]

/-- Two tests connect to one Unix socket; that is no reason to yield them, and a high risk. -/
theorem not_pruned_bothConnect :
    (KeyedGraph.build digestOfSocket bothConnect).candidatePairs false = .ok [] ∧
      ∃ f, (KeyedGraph.build digestOfSocket bothConnect).graph.pairFeatures (str "a") (str "b") =
          .ok f ∧
        2 / 100 < (HeuristicPredictor.score {} f).probability := by
  have hbuilt := KeyedGraph.built_build digestOfSocket bothConnect
  obtain ⟨pairs, hpairs, hmem⟩ := hbuilt.candidatePairs_eq false
  have hnil : pairs = [] := by
    refine List.eq_nil_iff_forall_not_mem.mpr fun pair hpair => ?_
    rcases (hmem pair.1 pair.2).mp hpair with ⟨-, id, -, -, hmutated⟩ | hhistory
    · simp [not_mutated_bothConnect] at hmutated
    · rw [hbuilt.historyPairs] at hhistory
      exact absurd hhistory List.not_mem_nil
  obtain ⟨f, hf, hquiet, hsockets⟩ := hbuilt.linked.quiet hbuilt.pairHistory
    (show str "a" ≤ str "b" by decide)
    fun id _ _ => ⟨not_mutated_bothConnect _ id, not_mutated_bothConnect _ id⟩
  refine ⟨hnil ▸ hpairs, f, hf, not_le.mp fun hle => ?_⟩
  have hzero := (hquiet.probability_le_iff (by norm_num) (by norm_num)).mp hle
  rw [hsockets, TestResourceGraph.countP_sharedList_eq_zero_iff hbuilt.linked] at hzero
  exact hzero sharesSocket_bothConnect

end ConflictGraph.Py
