import ConflictGraph.PyGraph
import ConflictGraph.Outcome

/-!
# A graph is built

A `TestResourceGraph` grows by calls of `add_test` and `add_event`, in any order. Its
dictionaries go together (`Linked`): what a test uses has an edge and a resource, and the
tests of a resource are those that use it. So `pair_features` finds all that it looks up
(`Linked.mapM_shared`), and an operation that mutates shows in the edge
(`Observed.mutating`).
-/

namespace ConflictGraph.Py

/-! ## Calls -/

/-- A call that adds to a graph. -/
inductive GraphCall : Type where
  | addTest (test : TestNode) (stats : Option TestStats)
  | addEvent (event : TraceEvent)

/-- A graph with the keys of the dictionaries that are gone through, in the order in which they
were added. -/
structure KeyedGraph : Type where
  graph : TestResourceGraph
  /-- the keys of `resource_tests` -/
  resourceIDs : List Str
  /-- the keys of `pair_history` -/
  historyPairs : List (Str × Str)

namespace TestResourceGraph

/-- `add_test`. -/
def addTest (g : TestResourceGraph) (test : TestNode) (stats : Option TestStats) :
    TestResourceGraph :=
  { g with
    tests := g.tests.insert test.id test
    testStats :=
      match stats with
      | some stats => Function.update g.testStats test.id stats
      | none => g.testStats }

/-- What `add_event` does first. -/
def know (g : TestResourceGraph) (testID : Str) : TestResourceGraph :=
  { g with
    tests := if (g.tests testID).isSome then g.tests
      else g.tests.insert testID { id := testID, nodeID := testID } }

end TestResourceGraph

namespace KeyedGraph

/-- `TestResourceGraph()`. -/
def empty : KeyedGraph := ⟨.ofTests [], [], []⟩

/-- The graph after a call; `create` may raise in `add_event`. -/
def apply (sha256 : Str → Str) (k : KeyedGraph) : GraphCall → KeyedGraph
  | .addTest test stats => { k with graph := k.graph.addTest test stats }
  | .addEvent event =>
    match ResourceIdentity.create sha256 event.resourceType event.resourceIdentifier with
    | .ok resource =>
      { k with
        graph := k.graph.record resource event
        resourceIDs := if resource.id ∈ k.resourceIDs then k.resourceIDs
          else k.resourceIDs ++ [resource.id] }
    | .error _ => { k with graph := k.graph.know event.testID }

/-- The graph after some calls. -/
def build (sha256 : Str → Str) (calls : List GraphCall) : KeyedGraph := calls.foldl (apply sha256) empty

end KeyedGraph

/-! ## Edges -/

/-- An aggregate that has observed something. -/
structure AccessAggregate.Observed (a : AccessAggregate) : Prop where
  modes_nonempty : a.modes.Nonempty
  operations_ne_nil : a.operations ≠ []

namespace AccessAggregate

/-- The operations of an access are those it has counted. -/
theorem mem_operations {a : AccessAggregate} {operation : Operation} :
    operation ∈ a.operations ↔ a.counts operation ≠ 0 := by
  rw [operations, List.mem_filter, decide_eq_true_eq]
  refine and_iff_right ?_
  cases operation <;> decide

/-- An access that has observed an event is observed. -/
theorem observed_observe (a : AccessAggregate) (event : TraceEvent) : (a.observe event).Observed where
  modes_nonempty := Finset.insert_nonempty ..
  operations_ne_nil := by
    have hmem : event.operation ∈ (a.observe event).operations := by
      rw [mem_operations]
      simp [observe]
    exact List.ne_nil_of_mem hmem

theorem mutating_iff {a : AccessAggregate} :
    a.mutating = true ↔
      ∃ operation ∈ a.operations, ∃ mode ∈ a.modes, isMutating operation mode = true := by
  rw [mutating, List.any_eq_true]
  simp only [decide_eq_true_eq]

/-- An operation that mutates shows, whatever the modes. -/
theorem Observed.mutating {a : AccessAggregate} (h : a.Observed) {operation : Operation}
    (hmem : operation ∈ a.operations) (hmutating : ∀ mode, isMutating operation mode = true) :
    a.mutating = true := by
  obtain ⟨mode, hmode⟩ := h.modes_nonempty
  exact mutating_iff.mpr ⟨operation, hmem, mode, hmode, hmutating mode⟩

end AccessAggregate

/-- The operations and the modes that mutate. -/
def mutatingOperations : List Operation := [.write, .create, .delete, .rename, .bind, .lock]

def mutatingModes : List AccessMode := [.write, .exclusive]

/-- `is_mutating` looks at the operation and at the mode, but not at both together. -/
theorem isMutating_iff {operation : Operation} {mode : AccessMode} :
    isMutating operation mode = true ↔ operation ∈ mutatingOperations ∨ mode ∈ mutatingModes := by
  rw [isMutating, Bool.or_eq_true, decide_eq_true_eq, decide_eq_true_eq]
  rfl

namespace AccessAggregate

/-- An aggregate has observed an operation or a mode that mutates. -/
def MutatesSomehow (a : AccessAggregate) : Prop :=
  (∃ operation ∈ a.operations, operation ∈ mutatingOperations) ∨
    ∃ mode ∈ a.modes, mode ∈ mutatingModes

/-- `mutating` finds out whether a pair of its operations and modes mutates. -/
theorem Observed.mutating_iff {a : AccessAggregate} (h : a.Observed) :
    a.mutating = true ↔ a.MutatesSomehow := by
  rw [AccessAggregate.mutating_iff]
  simp only [isMutating_iff]
  -- an operation that mutates does so with any mode, and the other way round
  refine ⟨?_, ?_⟩
  · rintro ⟨operation, hoperation, mode, hmode, hmutating | hmutating⟩
    · exact .inl ⟨operation, hoperation, hmutating⟩
    · exact .inr ⟨mode, hmode, hmutating⟩
  · obtain ⟨someMode, hsomeMode⟩ := h.modes_nonempty
    obtain ⟨someOperation, hsomeOperation⟩ := List.exists_mem_of_ne_nil _ h.operations_ne_nil
    rintro (⟨operation, hoperation, hmutating⟩ | ⟨mode, hmode, hmutating⟩)
    · exact ⟨operation, hoperation, someMode, hsomeMode, .inl hmutating⟩
    · exact ⟨someOperation, hsomeOperation, mode, hmode, .inr hmutating⟩

theorem mem_operations_observe {a : AccessAggregate} {event : TraceEvent} {operation : Operation} :
    operation ∈ (a.observe event).operations ↔
      operation = event.operation ∨ operation ∈ a.operations := by
  rw [mem_operations, mem_operations, observe]
  by_cases h : event.operation = operation
  · simp [h]
  · simp [h, Ne.symm h]

theorem mutatesSomehow_observe {a : AccessAggregate} {event : TraceEvent} :
    (a.observe event).MutatesSomehow ↔
      isMutating event.operation event.accessMode = true ∨ a.MutatesSomehow := by
  have hmodes : (a.observe event).modes = insert event.accessMode a.modes := rfl
  rw [MutatesSomehow, MutatesSomehow, isMutating_iff, hmodes]
  simp only [mem_operations_observe, Finset.mem_insert, or_and_right, exists_or, exists_eq_left]
  exact or_or_or_comm ..

end AccessAggregate

/-! ## What goes together -/

namespace TestResourceGraph

/-- The dictionaries of a graph go together. -/
structure Linked (g : TestResourceGraph) : Prop where
  edge_iff : ∀ testID id, (∃ edge, g.edges (testID, id) = some edge) ↔ id ∈ g.testResources testID
  test_iff : ∀ testID id, testID ∈ g.resourceTests id ↔ id ∈ g.testResources testID
  resource : ∀ testID id, id ∈ g.testResources testID → ∃ resource, g.resources id = some resource
  observed : ∀ key edge, g.edges key = some edge → edge.Observed

theorem linked_ofTests (tests : List TestNode) : (ofTests tests).Linked where
  edge_iff _ _ := by
    refine iff_of_false ?_ (Finset.notMem_empty _)
    rintro ⟨_, h⟩
    cases h
  test_iff _ _ := iff_of_false (Finset.notMem_empty _) (Finset.notMem_empty _)
  resource _ _ h := absurd h (Finset.notMem_empty _)
  observed _ _ h := by cases h

variable {g : TestResourceGraph}

/-- A change of the tests and their statistics breaks no link. -/
theorem Linked.of_eq {g' : TestResourceGraph} (h : g.Linked) (hedges : g'.edges = g.edges)
    (htests : g'.testResources = g.testResources) (hresources : g'.resources = g.resources)
    (husers : g'.resourceTests = g.resourceTests) : g'.Linked where
  edge_iff := by rw [hedges, htests]; exact h.edge_iff
  test_iff := by rw [husers, htests]; exact h.test_iff
  resource := by rw [htests, hresources]; exact h.resource
  observed := by rw [hedges]; exact h.observed

/-- Recording adds the resource to those of the test. -/
theorem mem_testResources_record {resource : ResourceIdentity} {event : TraceEvent}
    {testID id : Str} : id ∈ (g.record resource event).testResources testID ↔
      (testID = event.testID ∧ id = resource.id) ∨ id ∈ g.testResources testID := by
  simp only [record, Function.update_apply]
  split
  · rename_i htest
    rw [Finset.mem_insert, htest]
    simp only [true_and]
  · rename_i htest
    simp only [htest, false_and, false_or]

/-- And the test to those of the resource. -/
theorem mem_resourceTests_record {resource : ResourceIdentity} {event : TraceEvent}
    {testID id : Str} : testID ∈ (g.record resource event).resourceTests id ↔
      (testID = event.testID ∧ id = resource.id) ∨ testID ∈ g.resourceTests id := by
  simp only [record, Function.update_apply]
  split
  · rename_i hid
    rw [Finset.mem_insert, hid]
    simp only [and_true]
  · rename_i hid
    simp only [hid, and_false, false_or]

/-- A linked graph stays linked. -/
theorem Linked.record (h : g.Linked) (resource : ResourceIdentity) (event : TraceEvent) :
    (g.record resource event).Linked where
  edge_iff testID id := by
    rw [mem_testResources_record, ← h.edge_iff]
    simp only [TestResourceGraph.record, PartialMap.insert_apply, Prod.mk.injEq]
    split
    · rename_i hkey
      exact ⟨fun _ => .inl hkey, fun _ => ⟨_, rfl⟩⟩
    · rename_i hkey
      exact (or_iff_right hkey).symm
  test_iff testID id := by
    rw [mem_testResources_record, mem_resourceTests_record, h.test_iff]
  resource testID id hid := by
    simp only [TestResourceGraph.record, PartialMap.insert_apply]
    split
    · exact ⟨_, rfl⟩
    · rename_i hne
      refine h.resource testID id ((mem_testResources_record.mp hid).resolve_left ?_)
      exact fun hnew => hne hnew.2
  observed key edge hedge := by
    simp only [TestResourceGraph.record, PartialMap.insert_apply] at hedge
    split at hedge
    · obtain rfl := Option.some.inj hedge
      exact AccessAggregate.observed_observe ..
    · exact h.observed key edge hedge

end TestResourceGraph

namespace KeyedGraph

/-- The dictionaries of a graph go together, and their keys are known. -/
structure Keyed (k : KeyedGraph) : Prop where
  linked : k.graph.Linked
  mem_resourceIDs : ∀ id, id ∈ k.resourceIDs ↔ (k.graph.resourceTests id).Nonempty

/-- What holds of a graph that was built: there is no history yet. -/
structure Built (k : KeyedGraph) : Prop extends Keyed k where
  pairHistory : k.graph.pairHistory = PartialMap.empty
  historyPairs : k.historyPairs = []

theorem built_empty : empty.Built where
  linked := TestResourceGraph.linked_ofTests []
  mem_resourceIDs _ := iff_of_false List.not_mem_nil Finset.not_nonempty_empty
  pairHistory := rfl
  historyPairs := rfl

/-- Each call keeps what holds of built graphs. -/
theorem Built.apply {sha256 : Str → Str} {k : KeyedGraph} (h : k.Built) (call : GraphCall) :
    (k.apply sha256 call).Built := by
  cases call with
  | addTest test stats =>
    exact ⟨⟨h.linked.of_eq rfl rfl rfl rfl, h.mem_resourceIDs⟩, h.pairHistory, h.historyPairs⟩
  | addEvent event =>
    rw [KeyedGraph.apply]
    split
    · rename_i resource _
      refine ⟨⟨h.linked.record resource event, fun id => ?_⟩, h.pairHistory, h.historyPairs⟩
      -- the key is new, or it is there already
      have hmem : id ∈ (if resource.id ∈ k.resourceIDs then k.resourceIDs
          else k.resourceIDs ++ [resource.id]) ↔ id = resource.id ∨ id ∈ k.resourceIDs := by
        split
        · rename_i hknown
          exact (or_iff_right_of_imp fun heq => heq ▸ hknown).symm
        · rw [List.mem_append, List.mem_singleton, or_comm]
      rw [hmem, h.mem_resourceIDs]
      simp only [Finset.Nonempty, TestResourceGraph.mem_resourceTests_record, exists_or,
        exists_eq_left]
    · exact ⟨⟨h.linked.of_eq rfl rfl rfl rfl, h.mem_resourceIDs⟩, h.pairHistory, h.historyPairs⟩

/-- So it holds of all graphs that are built by calls. -/
theorem built_build (sha256 : Str → Str) (calls : List GraphCall) : (build sha256 calls).Built := by
  rw [build]
  have hrun : ∀ k : KeyedGraph, k.Built → (calls.foldl (KeyedGraph.apply sha256) k).Built := by
    induction calls with
    | nil => exact fun _ h => h
    | cons call rest ih => exact fun _ h => ih _ (h.apply call)
  exact hrun _ built_empty

end KeyedGraph

/-! ## Mutations -/

/-- A call records that a test mutates a resource. -/
def GraphCall.mutates (sha256 : Str → Str) (testID id : Str) : GraphCall → Bool
  | .addTest _ _ => false
  | .addEvent event =>
    Str.encodable event.resourceIdentifier && event.testID = testID &&
      (ResourceIdentity.of sha256 event.resourceType event.resourceIdentifier).id = id &&
      isMutating event.operation event.accessMode

namespace TestResourceGraph

/-- Does the test mutate the resource? -/
def mutated (g : TestResourceGraph) (testID resourceID : Str) : Bool :=
  (g.edges (testID, resourceID)).any AccessAggregate.mutating

/-- An edge mutates if an event on it does. -/
theorem mutated_record {g : TestResourceGraph} (h : g.Linked) {resource : ResourceIdentity}
    {event : TraceEvent} {testID id : Str} :
    (g.record resource event).mutated testID id = true ↔
      (event.testID = testID ∧ resource.id = id ∧
        isMutating event.operation event.accessMode = true) ∨ g.mutated testID id = true := by
  rw [mutated, mutated, record]
  simp only [PartialMap.insert_apply, Prod.mk.injEq]
  by_cases hkey : testID = event.testID ∧ id = resource.id
  · obtain ⟨rfl, rfl⟩ := hkey
    rw [if_pos ⟨rfl, rfl⟩, Option.any_some, (AccessAggregate.observed_observe ..).mutating_iff,
      AccessAggregate.mutatesSomehow_observe]
    simp only [true_and]
    refine or_congr_right ?_
    cases hedge : g.edges (event.testID, resource.id) with
    | none =>
      -- the fresh aggregate has neither operations nor modes
      refine iff_of_false ?_ Bool.false_ne_true
      rintro (⟨operation, hmem, -⟩ | ⟨mode, hmem, -⟩)
      · exact AccessAggregate.mem_operations.mp hmem rfl
      · exact absurd hmem (Finset.notMem_empty mode)
    | some edge => exact (h.observed _ _ hedge).mutating_iff.symm
  · rw [if_neg hkey]
    refine (or_iff_right ?_).symm
    rintro ⟨rfl, rfl, -⟩
    exact hkey ⟨rfl, rfl⟩

end TestResourceGraph

/-- **What a built graph knows of mutations**: those that were recorded. -/
theorem KeyedGraph.mutated_build (sha256 : Str → Str) (calls : List GraphCall) (testID id : Str) :
    (build sha256 calls).graph.mutated testID id = true ↔
      ∃ call ∈ calls, call.mutates sha256 testID id = true := by
  have hrun : ∀ k : KeyedGraph, k.Built →
      ((calls.foldl (KeyedGraph.apply sha256) k).graph.mutated testID id = true ↔
        (∃ call ∈ calls, call.mutates sha256 testID id = true) ∨
          k.graph.mutated testID id = true) := by
    induction calls with
    | nil => simp
    | cons call rest ih =>
      intro k hk
      rw [List.foldl_cons, ih _ (hk.apply call), List.exists_mem_cons_iff, or_comm (a := _ = true),
        or_assoc]
      refine or_congr_right ?_
      cases call with
      | addTest test stats => exact (or_iff_right Bool.false_ne_true).symm
      | addEvent event =>
        rw [KeyedGraph.apply, ResourceIdentity.create, GraphCall.mutates]
        by_cases hencodable : Str.encodable event.resourceIdentifier = true
        · rw [if_pos hencodable, hencodable]
          simp only [TestResourceGraph.mutated_record hk.linked, Bool.true_and, Bool.and_eq_true,
            decide_eq_true_eq, and_assoc]
        · rw [if_neg hencodable, Bool.eq_false_iff.mpr hencodable]
          exact (or_iff_right Bool.false_ne_true).symm
  rw [build, hrun _ built_empty]
  exact or_iff_left Bool.false_ne_true

/-! ## Shared resources -/

namespace TestResourceGraph

variable {g : TestResourceGraph} {a b : Str}

/-- The resources that two tests share. -/
def sharedIDs (g : TestResourceGraph) (a b : Str) : List Str :=
  sortedIDs (g.testResources a ∩ g.testResources b)

theorem mem_sharedIDs {id : Str} :
    id ∈ g.sharedIDs a b ↔ id ∈ g.testResources a ∧ id ∈ g.testResources b := by
  rw [sharedIDs, mem_sortedIDs, Finset.mem_inter]

theorem nodup_sharedIDs (g : TestResourceGraph) (a b : Str) : (g.sharedIDs a b).Nodup :=
  nodup_sortedIDs _

/-- What `pair_features` finds of them. -/
def sharedList (g : TestResourceGraph) (a b : Str) : List SharedResource :=
  (g.sharedIDs a b).filterMap fun id => (g.shared a b id).toOption

theorem shared_eq_ok {id : Str} {s : SharedResource} :
    g.shared a b id = .ok s ↔ g.edges (a, id) = some s.left ∧ g.edges (b, id) = some s.right ∧
      g.resources id = some s.resource ∧ (g.resourceTests id).card = s.users := by
  rw [shared]
  split
  · rename_i left right resource hleft hright hresource
    simp only [hleft, hright, hresource, Except.ok.injEq, Option.some.injEq]
    refine ⟨?_, ?_⟩
    · rintro rfl
      exact ⟨rfl, rfl, rfl, rfl⟩
    · rintro ⟨rfl, rfl, rfl, husers⟩
      rw [husers]
  · rename_i hnone
    refine ⟨fun h => ?_, ?_⟩
    · cases h
    · rintro ⟨hleft, hright, hresource, -⟩
      exact absurd hresource (hnone _ _ _ hleft hright)

theorem mem_sharedList {s : SharedResource} :
    s ∈ g.sharedList a b ↔ ∃ id ∈ g.sharedIDs a b, g.shared a b id = .ok s := by
  rw [sharedList, List.mem_filterMap]
  refine exists_congr fun id => and_congr_right fun _ => ?_
  rcases g.shared a b id with e | found <;> simp [Except.toOption]

/-- In a linked graph no shared resource is missing. -/
theorem Linked.exists_shared (h : g.Linked) {id : Str} (hid : id ∈ g.sharedIDs a b) :
    ∃ s, g.shared a b id = .ok s := by
  obtain ⟨hleft, hright⟩ := mem_sharedIDs.mp hid
  obtain ⟨left, hleftEdge⟩ := (h.edge_iff a id).mpr hleft
  obtain ⟨right, hrightEdge⟩ := (h.edge_iff b id).mpr hright
  obtain ⟨resource, hresource⟩ := h.resource a id hleft
  exact ⟨⟨left, right, resource, _⟩, shared_eq_ok.mpr ⟨hleftEdge, hrightEdge, hresource, rfl⟩⟩

/-- `pair_features` finds everything. -/
theorem Linked.mapM_shared (h : g.Linked) (a b : Str) :
    (sortedIDs (g.testResources a ∩ g.testResources b)).mapM (g.shared a b) =
      .ok (g.sharedList a b) :=
  mapM_eq_ok fun _ hid => h.exists_shared hid

/-- The vectors of a pair do not depend on which test is named first. -/
theorem pairFeatures_comm (g : TestResourceGraph) (a b : Str) :
    g.pairFeatures a b = g.pairFeatures b a := by
  rcases lt_trichotomy a b with hlt | rfl | hlt
  · simp only [pairFeatures, if_pos hlt.le, if_neg (not_le.mpr hlt)]
  · rfl
  · simp only [pairFeatures, if_pos hlt.le, if_neg (not_le.mpr hlt)]

/-- So every pair has features. -/
theorem Linked.exists_pairFeatures (h : g.Linked) (a b : Str) : ∃ f, g.pairFeatures a b = .ok f := by
  have hordered : ∀ a b, a ≤ b → ∃ f, g.pairFeatures a b = .ok f := fun a b hab =>
    ⟨_, by simp only [pairFeatures, if_pos hab, h.mapM_shared]; rfl⟩
  rcases le_total a b with hle | hle
  · exact hordered a b hle
  · rw [pairFeatures_comm]
    exact hordered b a hle

end TestResourceGraph

end ConflictGraph.Py
