import ConflictGraph.PyGraphBuild
import ConflictGraph.PyGraphOrder

/-!
# Renamed resources

What a graph is asked for does not depend on what its resources are called. If the
identifiers of the events are exchanged for others, one to one (`Renames`), the graph of the
new events is the old one with new ids (`Renames.edges_eq` and its like), and what two tests
share is the same up to the order (`Renames.sharedList_perm`). So the feature vector of a pair
can differ in one entry only: databases are told by their names, too
(`Renames.vector_eq_iff`).
-/

namespace ConflictGraph.Py

/-! ## New names -/

section Rename

variable (sha256 : Str → Str) (hide : ResourceType → Str → Str)

/-- The event, of a resource with a new identifier. -/
def TraceEvent.rename (event : TraceEvent) : TraceEvent :=
  { event with resourceIdentifier := hide event.resourceType event.resourceIdentifier }

/-- The resource with a new identifier. -/
def ResourceIdentity.rename (resource : ResourceIdentity) : ResourceIdentity :=
  .of sha256 resource.type (hide resource.type resource.identifier)

def AccessAggregate.rename (a : AccessAggregate) : AccessAggregate :=
  { a with resource := a.resource.rename sha256 hide }

def SharedResource.rename (s : SharedResource) : SharedResource :=
  ⟨s.left.rename sha256 hide, s.right.rename sha256 hide, s.resource.rename sha256 hide, s.users⟩

/-- The new identifiers of some events are as good as the old ones: no two resources get one id,
before or after, and no two names become one. -/
structure Renames (events : List TraceEvent) : Prop where
  distinct : IdsDistinct sha256 events
  distinct_rename : IdsDistinct sha256 (events.map (TraceEvent.rename hide))
  injective : ∀ event ∈ events, ∀ other ∈ events, event.resourceType = other.resourceType →
    hide event.resourceType event.resourceIdentifier =
        hide other.resourceType other.resourceIdentifier →
      event.resourceIdentifier = other.resourceIdentifier

/-- The new id of a resource of some events. -/
def newID (events : List TraceEvent) (id : Str) : Str :=
  match events.find? fun event => (event.resource sha256).id = id with
  | some event => ((event.rename hide).resource sha256).id
  | none => id

/-- The events have a resource of this id. -/
def Used (events : List TraceEvent) (id : Str) : Prop :=
  ∃ event ∈ events, (event.resource sha256).id = id

end Rename

section Renames

variable {sha256 : Str → Str} {hide : ResourceType → Str → Str} {events : List TraceEvent}
  {tests : List TestNode} {id : Str}

theorem resource_rename (event : TraceEvent) :
    (event.rename hide).resource sha256 = (event.resource sha256).rename sha256 hide := rfl

/-- The new ID of a resource is that of its renamed event. -/
theorem Renames.newID_eq (h : Renames sha256 hide events) {event : TraceEvent}
    (hevent : event ∈ events) : newID sha256 hide events (event.resource sha256).id =
      ((event.rename hide).resource sha256).id := by
  rw [newID]
  cases hfind : events.find? fun other => (other.resource sha256).id = (event.resource sha256).id with
  | none => exact absurd (decide_eq_true rfl) (List.find?_eq_none.mp hfind event hevent)
  | some other =>
    have hid : (other.resource sha256).id = (event.resource sha256).id := by
      simpa using List.find?_some hfind
    have hsame := h.distinct other (List.mem_of_find?_eq_some hfind) event hevent hid
    simp only [resource_rename, hsame]

/-- Different resources get different IDs. -/
theorem Renames.newID_inj (h : Renames sha256 hide events) {event other : TraceEvent}
    (hevent : event ∈ events) (hother : other ∈ events)
    (heq : newID sha256 hide events (event.resource sha256).id =
      newID sha256 hide events (other.resource sha256).id) :
    (event.resource sha256).id = (other.resource sha256).id := by
  rw [h.newID_eq hevent, h.newID_eq hother] at heq
  have hsame := h.distinct_rename _ (List.mem_map_of_mem hevent) _ (List.mem_map_of_mem hother) heq
  have htype : event.resourceType = other.resourceType := congrArg ResourceIdentity.type hsame
  have hname : event.resourceIdentifier = other.resourceIdentifier :=
    h.injective event hevent other hother htype (congrArg ResourceIdentity.identifier hsame)
  rw [TraceEvent.resource, TraceEvent.resource, htype, hname]

/-- Used ids keep apart. -/
theorem Renames.newID_injOn (h : Renames sha256 hide events) {id id' : Str}
    (hid : Used sha256 events id) (hid' : Used sha256 events id')
    (heq : newID sha256 hide events id = newID sha256 hide events id') : id = id' := by
  obtain ⟨event, hevent, rfl⟩ := hid
  obtain ⟨other, hother, rfl⟩ := hid'
  exact h.newID_inj hevent hother heq

theorem Renames.newID_eq_iff (h : Renames sha256 hide events) (hid : Used sha256 events id)
    {event : TraceEvent} (hevent : event ∈ events) :
    ((event.rename hide).resource sha256).id = newID sha256 hide events id ↔
      (event.resource sha256).id = id := by
  rw [← h.newID_eq hevent]
  exact ⟨h.newID_injOn ⟨event, hevent, rfl⟩ hid, congrArg _⟩

/-! ## The new graph -/

/-- Observing renamed events observes the events, and renames. -/
theorem foldl_observe_rename (own : List TraceEvent) : ∀ a : AccessAggregate,
    (own.map (TraceEvent.rename hide)).foldl AccessAggregate.observe (a.rename sha256 hide) =
      (own.foldl AccessAggregate.observe a).rename sha256 hide := by
  induction own with
  | nil => exact fun _ => rfl
  | cons event rest ih => exact fun a => ih (a.observe event)

theorem aggregateOf_rename (own : List TraceEvent) :
    aggregateOf sha256 (own.map (TraceEvent.rename hide)) =
      (aggregateOf sha256 own).map (AccessAggregate.rename sha256 hide) := by
  cases own with
  | nil => rfl
  | cons event rest =>
    exact congrArg some (@foldl_observe_rename sha256 hide (event :: rest)
      { testID := event.testID, resource := event.resource sha256 })

/-- The events of a resource are those of the renamed one. -/
theorem Renames.filter_eq (h : Renames sha256 hide events) (hid : Used sha256 events id) :
    (events.map (TraceEvent.rename hide)).filter
        (fun event => (event.resource sha256).id = newID sha256 hide events id) =
      (events.filter fun event => (event.resource sha256).id = id).map (TraceEvent.rename hide) := by
  rw [List.filter_map]
  refine congrArg _ (List.filter_congr fun event hevent => ?_)
  exact decide_eq_decide.mpr (h.newID_eq_iff hid hevent)

/-- The events on an edge are those on its renamed edge, renamed. -/
theorem Renames.eventsOf_eq (h : Renames sha256 hide events) (hid : Used sha256 events id)
    (testID : Str) :
    eventsOf sha256 (events.map (TraceEvent.rename hide)) (testID, newID sha256 hide events id) =
      (eventsOf sha256 events (testID, id)).map (TraceEvent.rename hide) := by
  rw [eventsOf, eventsOf, List.filter_map]
  refine congrArg _ (List.filter_congr fun event hevent => ?_)
  refine decide_eq_decide.mpr ?_
  rw [TraceEvent.edge, TraceEvent.edge, Prod.mk.injEq, Prod.mk.injEq, h.newID_eq_iff hid hevent]
  rfl

/-- The edges of the renamed graph are the renamed edges. -/
theorem Renames.edges_eq (h : Renames sha256 hide events) (hid : Used sha256 events id)
    (testID : Str) :
    (recordAll sha256 tests (events.map (TraceEvent.rename hide))).edges
        (testID, newID sha256 hide events id) =
      ((recordAll sha256 tests events).edges (testID, id)).map
        (AccessAggregate.rename sha256 hide) := by
  rw [recordAll_edges, recordAll_edges, h.eventsOf_eq hid, aggregateOf_rename]

/-- So are its resources. -/
theorem Renames.resources_eq (h : Renames sha256 hide events) (hid : Used sha256 events id) :
    (recordAll sha256 tests (events.map (TraceEvent.rename hide))).resources
        (newID sha256 hide events id) =
      ((recordAll sha256 tests events).resources id).map
        (ResourceIdentity.rename sha256 hide) := by
  rw [recordAll_resources, recordAll_resources, h.filter_eq hid, List.getLast?_map, Option.map_map,
    Option.map_map]
  rfl

/-- The tests of a resource stay. -/
theorem Renames.resourceTests_eq (h : Renames sha256 hide events) (hid : Used sha256 events id) :
    (recordAll sha256 tests (events.map (TraceEvent.rename hide))).resourceTests
        (newID sha256 hide events id) = (recordAll sha256 tests events).resourceTests id := by
  rw [recordAll_resourceTests, recordAll_resourceTests, h.filter_eq hid, List.map_map]
  rfl

/-- The resources of a test are renamed. -/
theorem Renames.testResources_eq (h : Renames sha256 hide events) (testID : Str) :
    (recordAll sha256 tests (events.map (TraceEvent.rename hide))).testResources testID =
      ((recordAll sha256 tests events).testResources testID).image (newID sha256 hide events) := by
  rw [recordAll_testResources, recordAll_testResources, List.filter_map, List.map_map]
  ext id
  simp only [List.mem_toFinset, List.mem_map, Finset.mem_image, List.mem_filter, Function.comp_apply,
    decide_eq_true_eq]
  refine ⟨?_, ?_⟩
  · rintro ⟨event, ⟨hevent, htest⟩, rfl⟩
    exact ⟨_, ⟨event, ⟨hevent, htest⟩, rfl⟩, h.newID_eq hevent⟩
  · rintro ⟨_, ⟨event, ⟨hevent, htest⟩, rfl⟩, rfl⟩
    exact ⟨event, ⟨hevent, htest⟩, (h.newID_eq hevent).symm⟩

/-- A resource of a test was used in an event. -/
theorem used_of_mem {testID : Str}
    (h : id ∈ (recordAll sha256 tests events).testResources testID) : Used sha256 events id := by
  rw [recordAll_testResources, List.mem_toFinset, List.mem_map] at h
  obtain ⟨event, hevent, hid⟩ := h
  exact ⟨event, (List.mem_filter.mp hevent).1, hid⟩

/-! ## What two tests share -/

theorem linked_recordAll (sha256 : Str → Str) (tests : List TestNode) (events : List TraceEvent) :
    (recordAll sha256 tests events).Linked := by
  induction events using List.reverseRecOn with
  | nil => exact TestResourceGraph.linked_ofTests tests
  | append_singleton events event ih =>
    rw [recordAll_concat]
    exact ih.record _ event

/-- What two tests share is renamed with them. -/
theorem Renames.shared_eq (h : Renames sha256 hide events) (hid : Used sha256 events id)
    (a b : Str) :
    (recordAll sha256 tests (events.map (TraceEvent.rename hide))).shared a b
        (newID sha256 hide events id) =
      ((recordAll sha256 tests events).shared a b id).map (SharedResource.rename sha256 hide) := by
  simp only [TestResourceGraph.shared, h.edges_eq hid, h.resources_eq hid, h.resourceTests_eq hid]
  rcases (recordAll sha256 tests events).edges (a, id) with _ | left
  · rfl
  rcases (recordAll sha256 tests events).edges (b, id) with _ | right
  · rfl
  rcases (recordAll sha256 tests events).resources id with _ | resource
  · rfl
  · rfl

theorem Renames.sharedIDs_perm (h : Renames sha256 hide events) (a b : Str) :
    ((recordAll sha256 tests (events.map (TraceEvent.rename hide))).sharedIDs a b).Perm
      (((recordAll sha256 tests events).sharedIDs a b).map (newID sha256 hide events)) := by
  -- both lists have no repetitions, so the same members are enough
  have hnodup : (((recordAll sha256 tests events).sharedIDs a b).map
      (newID sha256 hide events)).Nodup :=
    List.Nodup.map_on (fun id hid id' hid' heq =>
      h.newID_injOn (used_of_mem (TestResourceGraph.mem_sharedIDs.mp hid).1)
        (used_of_mem (TestResourceGraph.mem_sharedIDs.mp hid').1) heq)
      (TestResourceGraph.nodup_sharedIDs ..)
  refine (List.perm_ext_iff_of_nodup (TestResourceGraph.nodup_sharedIDs ..) hnodup).mpr fun id => ?_
  rw [TestResourceGraph.mem_sharedIDs, h.testResources_eq, h.testResources_eq, List.mem_map]
  simp only [Finset.mem_image, TestResourceGraph.mem_sharedIDs]
  refine ⟨?_, ?_⟩
  · rintro ⟨⟨old, hold, rfl⟩, old', hold', heq⟩
    have hsame := h.newID_injOn (used_of_mem hold') (used_of_mem hold) heq
    exact ⟨old, ⟨hold, hsame ▸ hold'⟩, rfl⟩
  · rintro ⟨old, ⟨hold, hold'⟩, rfl⟩
    exact ⟨⟨old, hold, rfl⟩, old, hold', rfl⟩

/-- What two tests share after the renaming is what they shared before, renamed. -/
theorem Renames.sharedList_perm (h : Renames sha256 hide events) (a b : Str) :
    ((recordAll sha256 tests (events.map (TraceEvent.rename hide))).sharedList a b).Perm
      (((recordAll sha256 tests events).sharedList a b).map (SharedResource.rename sha256 hide)) := by
  rw [TestResourceGraph.sharedList, TestResourceGraph.sharedList]
  refine ((h.sharedIDs_perm a b).filterMap _).trans (.of_eq ?_)
  rw [List.filterMap_map, List.map_filterMap]
  refine List.filterMap_congr fun id hid => ?_
  rw [Function.comp_apply, h.shared_eq (used_of_mem (TestResourceGraph.mem_sharedIDs.mp hid).1)]
  cases (recordAll sha256 tests events).shared a b id <;> rfl

theorem Renames.union_eq (h : Renames sha256 hide events) (a b : Str) :
    ((recordAll sha256 tests (events.map (TraceEvent.rename hide))).testResources a ∪
        (recordAll sha256 tests (events.map (TraceEvent.rename hide))).testResources b).card =
      ((recordAll sha256 tests events).testResources a ∪
        (recordAll sha256 tests events).testResources b).card := by
  rw [h.testResources_eq, h.testResources_eq, ← Finset.image_union]
  refine Finset.card_image_of_injOn fun id hid id' hid' heq => ?_
  have hused : ∀ id ∈ (recordAll sha256 tests events).testResources a ∪
      (recordAll sha256 tests events).testResources b, Used sha256 events id := fun id hid =>
    (Finset.mem_union.mp hid).elim used_of_mem used_of_mem
  exact h.newID_injOn (hused id hid) (hused id' hid') heq

/-! ## Feature vectors -/

theorem meanOrZero_perm {values values' : List ℚ} (h : values.Perm values') :
    meanOrZero values = meanOrZero values' := by
  have hnil : values = [] ↔ values' = [] := by
    rw [← List.length_eq_zero_iff, ← List.length_eq_zero_iff, h.length_eq]
  rw [meanOrZero, meanOrZero, h.sum_eq, h.length_eq]
  simp only [hnil]

theorem min?_perm {values values' : List ℚ} (h : values.Perm values') :
    values.min? = values'.min? := by
  cases hmin : values'.min? with
  | none =>
    rw [List.min?_eq_none_iff] at hmin ⊢
    rw [hmin] at h
    exact h.eq_nil
  | some least =>
    rw [List.min?_eq_some_iff] at hmin ⊢
    exact ⟨h.mem_iff.mpr hmin.1, fun value hvalue => hmin.2 value (h.mem_iff.mp hvalue)⟩

theorem refreshStats_durationEMA (g : TestResourceGraph) (testID : Str) :
    (g.refreshStats.testStats testID).durationEMA = (g.testStats testID).durationEMA := by
  rw [TestResourceGraph.refreshStats]
  dsimp only
  split <;> rfl

theorem refreshStats_failureRate (g : TestResourceGraph) (testID : Str) :
    (g.refreshStats.testStats testID).failureRate = (g.testStats testID).failureRate := by
  rw [TestResourceGraph.refreshStats]
  dsimp only
  split <;> rfl

/-- How many databases two tests share. -/
def TestResourceGraph.databases (g : TestResourceGraph) (a b : Str) : ℕ :=
  (g.sharedList a b).countP SharedResource.isDatabase

/-- Two graphs in which two tests share the same, up to names and order. -/
theorem vector_eq_iff_of_perm {g g' : TestResourceGraph} (hg : g.Linked) (hg' : g'.Linked)
    {a b : Str} (hab : a ≤ b)
    (hperm : (g'.sharedList a b).Perm ((g.sharedList a b).map (SharedResource.rename sha256 hide)))
    (hunion : (g'.testResources a ∪ g'.testResources b).card =
      (g.testResources a ∪ g.testResources b).card)
    (hstats : g'.testStats = g.testStats) (hhistory : g'.pairHistory = g.pairHistory) :
    (g'.refreshStats.pairFeatures a b).map PairFeatures.vector =
        (g.refreshStats.pairFeatures a b).map PairFeatures.vector ↔
      g'.databases a b = g.databases a b := by
  have hcount : ∀ p : SharedResource → Bool, (∀ s, p (s.rename sha256 hide) = p s) →
      (((g'.sharedList a b).countP p : ℕ) : ℚ) = (g.sharedList a b).countP p := by
    intro p hp
    rw [hperm.countP_eq, List.countP_map]
    refine congrArg _ (List.countP_congr fun s _ => ?_)
    rw [Function.comp_apply, hp]
  have hmap : ∀ f : SharedResource → ℚ, (∀ s, f (s.rename sha256 hide) = f s) →
      ((g'.sharedList a b).map f).Perm ((g.sharedList a b).map f) := by
    intro f hf
    refine (hperm.map f).trans (.of_eq ?_)
    rw [List.map_map]
    exact List.map_congr_left fun s _ => hf s
  have hlength : ((g'.sharedList a b).length : ℚ) = (g.sharedList a b).length :=
    congrArg _ (hperm.length_eq.trans (List.length_map _))
  have hjaccard : (if g'.testResources a ∪ g'.testResources b = ∅ then 0
        else ((g'.sharedList a b).length : ℚ) / (g'.testResources a ∪ g'.testResources b).card) =
      if g.testResources a ∪ g.testResources b = ∅ then 0
        else ((g.sharedList a b).length : ℚ) / (g.testResources a ∪ g.testResources b).card := by
    simp only [← Finset.card_eq_zero, hunion, hlength]
  have hlinked : g.refreshStats.Linked := hg.of_eq rfl rfl rfl rfl
  have hlinked' : g'.refreshStats.Linked := hg'.of_eq rfl rfl rfl rfl
  have hpairHistory : g'.refreshStats.pairHistory = g.refreshStats.pairHistory := hhistory
  simp only [TestResourceGraph.pairFeatures, if_pos hab, hlinked.mapM_shared, hlinked'.mapM_shared,
    refreshStats_durationEMA, refreshStats_failureRate, hstats, hpairHistory]
  change Except.ok _ = Except.ok _ ↔ _
  rw [Except.ok.injEq]
  simp only [PairFeatures.vector, List.cons.injEq]
  refine ⟨fun hvector => ?_, fun hdatabases => ?_⟩
  · obtain ⟨-, -, -, -, -, -, -, -, -, -, -, hdatabases, -⟩ := hvector
    exact Nat.cast_injective hdatabases
  · -- no other entry asks for a name
    exact ⟨hlength, hcount _ fun _ => rfl, hcount _ fun _ => rfl, hcount _ fun _ => rfl,
      hcount _ fun _ => rfl, hcount _ fun _ => rfl, hcount _ fun _ => rfl, hcount _ fun _ => rfl,
      hcount _ fun _ => rfl, hcount _ fun _ => rfl, hcount _ fun _ => rfl,
      congrArg _ hdatabases, hjaccard,
      congrArg (fun least => least.getD 0) (min?_perm (hmap _ fun _ => rfl)),
      meanOrZero_perm (hmap _ fun _ => rfl), trivial, trivial, trivial, trivial, trivial, trivial,
      meanOrZero_perm (hmap _ fun _ => rfl), trivial⟩

/-- **The vectors of a pair** before and after a renaming are the same exactly if as many of the
shared resources are taken for databases. -/
theorem Renames.vector_eq_iff (h : Renames sha256 hide events) {a b : Str} (hab : a ≤ b) :
    ((recordAll sha256 tests (events.map (TraceEvent.rename hide))).refreshStats.pairFeatures a b).map
        PairFeatures.vector =
      ((recordAll sha256 tests events).refreshStats.pairFeatures a b).map PairFeatures.vector ↔
    (recordAll sha256 tests (events.map (TraceEvent.rename hide))).databases a b =
      (recordAll sha256 tests events).databases a b := by
  obtain ⟨hstats, hhistory⟩ := @recordAll_testStats sha256 tests events
  obtain ⟨hstats', hhistory'⟩ :=
    @recordAll_testStats sha256 tests (events.map (TraceEvent.rename hide))
  exact vector_eq_iff_of_perm (linked_recordAll ..) (linked_recordAll ..) hab
    (h.sharedList_perm a b) (h.union_eq a b) (hstats'.trans hstats.symm)
    (hhistory'.trans hhistory.symm)

end Renames

end ConflictGraph.Py
