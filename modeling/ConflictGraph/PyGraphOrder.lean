import ConflictGraph.Loop
import ConflictGraph.PyGraph

/-!
# Does the graph depend on the order of the events?

The graph of a trace is determined edge by edge: what `from_events` builds is, for every test
and resource, what the events of that edge add up to (`recordAll_edges`). Counts and sets do
not depend on the order, and a maximum does not either. But `first_ns` and `last_ns` start at
zero, which `observe` also takes for "not set". So the earliest access of an edge is lost when
it was at zero, and the latest when all were before zero.
-/

namespace ConflictGraph.Py

/-! ## The first and the last instant -/

/-- Once the earliest instant is set for good, `earlier` is a minimum. -/
theorem isLeast_foldl_earlier {timestamps : List ℤ} :
    ∀ {first : ℤ}, first < 0 ∨ (∃ t ∈ timestamps, t < 0) ∨ (first ≠ 0 ∧ 0 ∉ timestamps) →
      IsLeast {x | x = first ∨ x ∈ timestamps} (timestamps.foldl earlier first) := by
  induction timestamps with
  | nil =>
    intro first _
    exact ⟨.inl rfl, fun x hx => (hx.resolve_right List.not_mem_nil).ge⟩
  | cons t rest ih =>
    intro first h
    rw [List.foldl_cons]
    by_cases hzero : first = 0
    · -- not set yet: the next instant is taken, and a negative one is still to come
      subst hzero
      have hneg : ∃ u ∈ t :: rest, u < 0 := by
        rcases h with h | h | h
        · exact absurd h (lt_irrefl 0)
        · exact h
        · exact absurd rfl h.1
      obtain ⟨u, hu, huneg⟩ := hneg
      have hnext : t < 0 ∨ (∃ u ∈ rest, u < 0) ∨ (t ≠ 0 ∧ 0 ∉ rest) := by
        rcases List.mem_cons.mp hu with rfl | hu
        · exact .inl huneg
        · exact .inr (.inl ⟨u, hu, huneg⟩)
      obtain ⟨hmem, hbound⟩ := ih hnext
      rw [show earlier 0 t = t from if_pos rfl]
      refine ⟨?_, fun x hx => ?_⟩
      · exact .inr (List.mem_cons.mpr hmem)
      · rcases hx with rfl | hx
        · exact (hbound (List.mem_cons.mp hu)).trans huneg.le
        · exact hbound (List.mem_cons.mp hx)
    · have hstep : earlier first t = min first t := if_neg hzero
      have hnext : min first t < 0 ∨ (∃ u ∈ rest, u < 0) ∨ (min first t ≠ 0 ∧ 0 ∉ rest) := by
        rcases h with h | ⟨u, hu, huneg⟩ | ⟨-, hnot⟩
        · exact .inl (min_lt_of_left_lt h)
        · rcases List.mem_cons.mp hu with rfl | hu
          · exact .inl (min_lt_of_right_lt huneg)
          · exact .inr (.inl ⟨u, hu, huneg⟩)
        · rw [List.mem_cons, not_or] at hnot
          refine .inr (.inr ⟨?_, hnot.2⟩)
          rcases min_choice first t with hmin | hmin
          · rwa [hmin]
          · rw [hmin]
            exact Ne.symm hnot.1
      obtain ⟨hmem, hbound⟩ := ih hnext
      rw [hstep]
      refine ⟨?_, fun x hx => ?_⟩
      · rcases hmem with hmem | hmem
        · rcases min_choice first t with hmin | hmin
          · exact .inl (hmem.trans hmin)
          · exact .inr (List.mem_cons.mpr (.inl (hmem.trans hmin)))
        · exact .inr (List.mem_cons_of_mem _ hmem)
      · have hhead := hbound (.inl rfl)
        rcases hx with rfl | hx
        · exact hhead.trans (min_le_left _ _)
        · rcases List.mem_cons.mp hx with rfl | hx
          · exact hhead.trans (min_le_right _ _)
          · exact hbound (.inr hx)

theorem foldl_earlier_of_forall_eq_zero {timestamps : List ℤ} (h : ∀ t ∈ timestamps, t = 0) :
    timestamps.foldl earlier 0 = 0 := by
  induction timestamps with
  | nil => rfl
  | cons t rest ih =>
    rw [List.forall_mem_cons] at h
    rw [List.foldl_cons, h.1]
    exact ih h.2

/-- Instants that are not negative keep the running value so. -/
theorem foldl_earlier_nonneg {timestamps : List ℤ} :
    ∀ {first : ℤ}, 0 ≤ first → (∀ t ∈ timestamps, 0 ≤ t) → 0 ≤ timestamps.foldl earlier first := by
  induction timestamps with
  | nil => exact fun hfirst _ => hfirst
  | cons t rest ih =>
    intro first hfirst h
    rw [List.forall_mem_cons] at h
    refine ih ?_ h.2
    rw [earlier]
    split
    · exact h.1
    · exact le_min hfirst h.1

/-- The instants of an edge are such that zero is not mistaken: some are not negative, and
where zero is among them, a negative one is too, or nothing else. -/
def WellTimed (timestamps : List ℤ) : Prop :=
  (∃ t ∈ timestamps, 0 ≤ t) ∧
    (0 ∈ timestamps → (∃ t ∈ timestamps, t < 0) ∨ ∀ t ∈ timestamps, t = 0)

instance (timestamps : List ℤ) : Decidable (WellTimed timestamps) :=
  inferInstanceAs (Decidable (_ ∧ _))

/-- The order of the timestamps does not matter to that. -/
theorem WellTimed.perm {timestamps timestamps' : List ℤ} (h : WellTimed timestamps)
    (hperm : timestamps'.Perm timestamps) : WellTimed timestamps' := by
  simpa only [WellTimed, hperm.mem_iff] using h

/-- Well-timed instants have their earliest and latest found, in the order given. -/
theorem WellTimed.isLeast {timestamps : List ℤ} (h : WellTimed timestamps) :
    IsLeast {x | x ∈ timestamps} (timestamps.foldl earlier 0) := by
  obtain ⟨⟨t, ht, -⟩, hzero⟩ := h
  obtain ⟨u, rest, rfl⟩ := List.exists_cons_of_ne_nil (List.ne_nil_of_mem ht)
  have hset : {x | x ∈ u :: rest} = {x | x = u ∨ x ∈ rest} := Set.ext fun x => List.mem_cons
  rw [List.foldl_cons, show earlier 0 u = u from if_pos rfl, hset]
  by_cases hmem : 0 ∈ u :: rest
  · rcases hzero hmem with ⟨v, hv, hneg⟩ | hall
    · refine isLeast_foldl_earlier ?_
      rcases List.mem_cons.mp hv with rfl | hv
      · exact .inl hneg
      · exact .inr (.inl ⟨v, hv, hneg⟩)
    · rw [List.forall_mem_cons] at hall
      obtain ⟨rfl, hrest⟩ := hall
      rw [foldl_earlier_of_forall_eq_zero hrest]
      refine ⟨.inl rfl, fun x hx => ?_⟩
      rcases hx with rfl | hx
      · exact le_refl 0
      · exact (hrest x hx).ge
  · rw [List.mem_cons, not_or] at hmem
    exact isLeast_foldl_earlier (.inr (.inr ⟨Ne.symm hmem.1, hmem.2⟩))

theorem isGreatest_foldl_max_iff (timestamps : List ℤ) :
    IsGreatest {x | x ∈ timestamps} (timestamps.foldl max 0) ↔ ∃ t ∈ timestamps, 0 ≤ t := by
  obtain ⟨hmem, hbound⟩ := isGreatest_foldl_max id timestamps 0
  refine ⟨?_, ?_⟩
  · exact fun h => ⟨_, h.1, hbound (.inl rfl)⟩
  · rintro ⟨t, ht, hnonneg⟩
    have hall : ∀ x ∈ timestamps, x ≤ timestamps.foldl max 0 :=
      fun x hx => hbound (.inr ⟨x, hx, rfl⟩)
    refine ⟨?_, fun x hx => hall x hx⟩
    rcases hmem with hzero | ⟨x, hx, heq⟩
    · -- the maximum is the initial zero, so the witness is that zero
      have hle := hall t ht
      change timestamps.foldl max 0 = 0 at hzero
      rw [hzero] at hle
      obtain rfl : t = 0 := le_antisymm hle hnonneg
      rw [hzero]
      exact ht
    · exact heq ▸ hx

/-- Instants whose earliest is found in every order of the items are well timed. -/
theorem wellTimed_of_perm {α : Type*} {instant : α → ℤ} {items : List α}
    (hleast : ∀ items' : List α, items'.Perm items →
      IsLeast {x | x ∈ items.map instant} ((items'.map instant).foldl earlier 0))
    (hgreatest : IsGreatest {x | x ∈ items.map instant} ((items.map instant).foldl max 0)) :
    WellTimed (items.map instant) := by
  refine ⟨(isGreatest_foldl_max_iff _).mp hgreatest, fun hzero => ?_⟩
  by_contra hnot
  rw [not_or] at hnot
  obtain ⟨hneg, hall⟩ := hnot
  push Not at hneg hall
  obtain ⟨t, ht, hne⟩ := hall
  have hpos : 0 < t := lt_of_le_of_ne (hneg t ht) (Ne.symm hne)
  obtain ⟨item, hitem, rfl⟩ := List.mem_map.mp ht
  -- put a positive instant last: it replaces the zero that was found before
  obtain ⟨before, after, rfl⟩ := List.append_of_mem hitem
  have hperm : (before ++ after ++ [item]).Perm (before ++ item :: after) := by
    rw [List.append_assoc]
    exact (List.perm_append_singleton item after).append_left before
  have hnonneg : 0 ≤ ((before ++ after).map instant).foldl earlier 0 :=
    foldl_earlier_nonneg (le_refl 0) fun u hu =>
      hneg u ((hperm.map instant).mem_iff.mp (by
        rw [List.map_append]
        exact List.mem_append_left _ hu))
  have hlast : 0 < ((before ++ after ++ [item]).map instant).foldl earlier 0 := by
    rw [List.map_append, List.foldl_append, List.map_cons, List.map_nil, List.foldl_cons,
      List.foldl_nil, earlier]
    split
    · exact hpos
    · rename_i hset
      exact lt_min (lt_of_le_of_ne hnonneg (Ne.symm hset)) hpos
  exact absurd ((hleast _ hperm).2 hzero) (not_le.mpr hlast)

/-! ## Edge by edge -/

/-- What `observe` has added up after a list of events. -/
theorem foldl_observe (events : List TraceEvent) :
    ∀ a : AccessAggregate, events.foldl AccessAggregate.observe a =
      { a with
        counts := fun operation =>
          a.counts operation + events.countP fun event => event.operation = operation
        modes := a.modes ∪ (events.map TraceEvent.accessMode).toFinset
        firstNS := (events.map TraceEvent.timestampNS).foldl earlier a.firstNS
        lastNS := (events.map TraceEvent.timestampNS).foldl max a.lastNS
        sources := a.sources ∪ (events.map TraceEvent.source).toFinset
        executionIDs := a.executionIDs ∪ (events.map TraceEvent.executionID).toFinset } := by
  induction events with
  | nil =>
    intro a
    simp
  | cons event rest ih =>
    intro a
    rw [List.foldl_cons, ih]
    simp only [AccessAggregate.observe, List.map_cons, List.foldl_cons, List.toFinset_cons,
      Finset.insert_union, Finset.union_insert, List.countP_cons, decide_eq_true_eq]
    congr 1
    funext operation
    omega

section Record

variable (sha256 : Str → Str)

/-- The resource of an event. -/
def TraceEvent.resource (event : TraceEvent) : ResourceIdentity :=
  .of sha256 event.resourceType event.resourceIdentifier

/-- The edge that an event belongs to. -/
def TraceEvent.edge (event : TraceEvent) : Str × Str := (event.testID, (event.resource sha256).id)

/-- The events of an edge. -/
def eventsOf (events : List TraceEvent) (key : Str × Str) : List TraceEvent :=
  events.filter fun event => event.edge sha256 = key

/-- The graph of a list of events, before the statistics. -/
def recordAll (tests : List TestNode) (events : List TraceEvent) : TestResourceGraph :=
  events.foldl (fun g event => g.record (event.resource sha256) event) (.ofTests tests)

variable {sha256}

/-- One more event is recorded. -/
theorem recordAll_concat (tests : List TestNode) (events : List TraceEvent) (event : TraceEvent) :
    recordAll sha256 tests (events ++ [event]) =
      (recordAll sha256 tests events).record (event.resource sha256) event := by
  rw [recordAll, List.foldl_append]
  rfl

/-- `from_events` fails exactly on a resource that cannot be encoded. -/
theorem fromEvents_eq (tests : List TestNode) (events : List TraceEvent) :
    TestResourceGraph.fromEvents sha256 tests events =
      if events.all fun event => Str.encodable event.resourceIdentifier then
        .ok (recordAll sha256 tests events).refreshStats
      else .error .valueError := by
  have hfold : ∀ g, events.foldlM (TestResourceGraph.addEvent sha256) g =
      if events.all fun event => Str.encodable event.resourceIdentifier then
        .ok (events.foldl (fun g event => g.record (event.resource sha256) event) g)
      else .error .valueError := by
    induction events with
    | nil => exact fun g => rfl
    | cons event rest ih =>
      intro g
      rw [List.foldlM_cons, TestResourceGraph.addEvent, ResourceIdentity.create, List.all_cons]
      by_cases hevent : Str.encodable event.resourceIdentifier = true
      · rw [if_pos hevent, hevent, Bool.true_and]
        exact ih _
      · rw [if_neg hevent, if_neg fun hall => hevent (Bool.and_eq_true_iff.mp hall).1]
        rfl
  rw [TestResourceGraph.fromEvents, hfold]
  split <;> rfl

theorem record_edges (g : TestResourceGraph) (event : TraceEvent) (key : Str × Str) :
    (g.record (event.resource sha256) event).edges key =
      if key = event.edge sha256 then
        some (((g.edges (event.edge sha256)).getD
          { testID := event.testID, resource := event.resource sha256 }).observe event)
      else g.edges key :=
  PartialMap.insert_apply ..

variable (sha256) in
/-- What the events of one edge add up to. -/
def aggregateOf : List TraceEvent → Option AccessAggregate
  | [] => none
  | event :: rest => some ((event :: rest).foldl AccessAggregate.observe
      { testID := event.testID, resource := event.resource sha256 })

/-- **The edges of the graph**: the events of each edge, added up. -/
theorem recordAll_edges (tests : List TestNode) (events : List TraceEvent) (key : Str × Str) :
    (recordAll sha256 tests events).edges key =
      aggregateOf sha256 (eventsOf sha256 events key) := by
  induction events using List.reverseRecOn with
  | nil => rfl
  | append_singleton events event ih =>
    rw [recordAll_concat, record_edges, eventsOf, List.filter_append, ← eventsOf]
    by_cases hkey : event.edge sha256 = key
    · subst hkey
      have hown : [event].filter (fun other => other.edge sha256 = event.edge sha256) = [event] := by
        simp
      rw [if_pos rfl, hown, ih]
      rcases eventsOf sha256 events (event.edge sha256) with _ | ⟨first, rest⟩
      · rfl
      · simp only [aggregateOf, Option.getD_some, List.cons_append, List.foldl_cons,
          List.foldl_append, List.foldl_nil]
    · have hother : [event].filter (fun other => other.edge sha256 = key) = [] := by
        simpa using hkey
      rw [if_neg (Ne.symm hkey), hother, List.append_nil]
      exact ih

theorem recordAll_tests (tests : List TestNode) (events : List TraceEvent) (id : Str) :
    (recordAll sha256 tests events).tests id =
      ((TestResourceGraph.ofTests tests).tests id).or
        (if id ∈ events.map TraceEvent.testID then some { id := id, nodeID := id } else none) := by
  induction events using List.reverseRecOn with
  | nil => exact (Option.or_none).symm
  | append_singleton events event ih =>
    rw [recordAll_concat, TestResourceGraph.record]
    simp only [List.map_append, List.map_cons, List.map_nil, List.mem_append, List.mem_singleton]
    by_cases hid : id = event.testID
    · subst hid
      rw [if_pos (Or.inr rfl)]
      split
      · rename_i hknown
        rw [ih] at hknown ⊢
        cases h : (TestResourceGraph.ofTests tests).tests event.testID with
        | some test => rfl
        | none =>
          -- a test that is not among the given ones is known from an earlier event
          rw [h, Option.none_or] at hknown
          split at hknown
          · rename_i hmem
            rw [if_pos hmem]
          · exact absurd hknown Bool.false_ne_true
      · rename_i hnew
        rw [PartialMap.insert_self]
        rw [Bool.not_eq_true, Option.isSome_eq_false_iff, Option.isNone_iff_eq_none, ih,
          Option.or_eq_none_iff] at hnew
        rw [hnew.1]
        rfl
    · simp only [hid, or_false]
      split
      · exact ih
      · rw [PartialMap.insert_of_ne _ _ hid]
        exact ih

/-- A resource is that of the last event about it. -/
theorem recordAll_resources (tests : List TestNode) (events : List TraceEvent) (id : Str) :
    (recordAll sha256 tests events).resources id =
      ((events.filter fun event => (event.resource sha256).id = id).getLast?).map
        (TraceEvent.resource sha256) := by
  induction events using List.reverseRecOn with
  | nil => rfl
  | append_singleton events event ih =>
    rw [recordAll_concat, List.filter_append]
    simp only [TestResourceGraph.record, PartialMap.insert_apply]
    by_cases hid : (event.resource sha256).id = id
    · subst hid
      simp
    · rw [if_neg (Ne.symm hid), ih]
      simp [hid]

/-- The resources of a test are those of its events. -/
theorem recordAll_testResources (tests : List TestNode) (events : List TraceEvent) (id : Str) :
    (recordAll sha256 tests events).testResources id =
      ((events.filter fun event => event.testID = id).map
        fun event => (event.resource sha256).id).toFinset := by
  induction events using List.reverseRecOn with
  | nil => rfl
  | append_singleton events event ih =>
    rw [recordAll_concat, List.filter_append]
    simp only [TestResourceGraph.record, Function.update_apply]
    by_cases hid : event.testID = id
    · subst hid
      rw [if_pos rfl, ih]
      ext resource
      simp
    · rw [if_neg (Ne.symm hid), ih]
      simp [hid]

/-- The tests of a resource are those of its events. -/
theorem recordAll_resourceTests (tests : List TestNode) (events : List TraceEvent) (id : Str) :
    (recordAll sha256 tests events).resourceTests id =
      ((events.filter fun event => (event.resource sha256).id = id).map
        TraceEvent.testID).toFinset := by
  induction events using List.reverseRecOn with
  | nil => rfl
  | append_singleton events event ih =>
    rw [recordAll_concat, List.filter_append]
    simp only [TestResourceGraph.record, Function.update_apply]
    by_cases hid : (event.resource sha256).id = id
    · subst hid
      rw [if_pos rfl, ih]
      ext test
      simp
    · rw [if_neg (Ne.symm hid), ih]
      simp [hid]

/-- Events change neither durations nor history. -/
theorem recordAll_testStats (tests : List TestNode) (events : List TraceEvent) :
    (recordAll sha256 tests events).testStats = (TestResourceGraph.ofTests tests).testStats ∧
      (recordAll sha256 tests events).pairHistory =
        (TestResourceGraph.ofTests tests).pairHistory := by
  induction events using List.reverseRecOn with
  | nil => exact ⟨rfl, rfl⟩
  | append_singleton events event ih =>
    rw [recordAll_concat]
    exact ih

/-- The first and the last instant of an edge are folds over those of its events. -/
theorem instants_of_edge {tests : List TestNode} {events : List TraceEvent} {key : Str × Str}
    {edge : AccessAggregate} (h : (recordAll sha256 tests events).edges key = some edge) :
    edge.firstNS = ((eventsOf sha256 events key).map TraceEvent.timestampNS).foldl earlier 0 ∧
      edge.lastNS = ((eventsOf sha256 events key).map TraceEvent.timestampNS).foldl max 0 := by
  rw [recordAll_edges] at h
  cases hown : eventsOf sha256 events key with
  | nil =>
    rw [hown] at h
    cases h
  | cons event rest =>
    rw [hown, aggregateOf] at h
    obtain rfl := Option.some.inj h
    rw [foldl_observe]
    exact ⟨rfl, rfl⟩

theorem mem_eventsOf {events : List TraceEvent} {key : Str × Str} {event : TraceEvent} :
    event ∈ eventsOf sha256 events key ↔ event ∈ events ∧ event.edge sha256 = key := by
  rw [eventsOf, List.mem_filter, decide_eq_true_eq]

theorem exists_edge {tests : List TestNode} {events : List TraceEvent} {event : TraceEvent}
    (h : event ∈ events) :
    ∃ edge, (recordAll sha256 tests events).edges (event.edge sha256) = some edge := by
  rw [recordAll_edges]
  obtain ⟨first, rest, heq⟩ := List.exists_cons_of_ne_nil (List.ne_nil_of_mem
    (mem_eventsOf.mpr ⟨h, rfl⟩))
  rw [heq]
  exact ⟨_, rfl⟩

/-- An edge has an event. -/
theorem exists_event_of_edge {tests : List TestNode} {events : List TraceEvent}
    {key : Str × Str} {edge : AccessAggregate}
    (h : (recordAll sha256 tests events).edges key = some edge) :
    ∃ event ∈ events, event.edge sha256 = key := by
  rw [recordAll_edges] at h
  cases hown : eventsOf sha256 events key with
  | nil =>
    rw [hown] at h
    cases h
  | cons event rest =>
    exact ⟨event, mem_eventsOf.mp (hown ▸ List.mem_cons_self)⟩

theorem eventsOf_perm {events events' : List TraceEvent} (hperm : events'.Perm events)
    (key : Str × Str) : (eventsOf sha256 events' key).Perm (eventsOf sha256 events key) :=
  hperm.filter _

/-- Any order of the events of an edge is theirs in some order of all events. -/
theorem exists_perm_eventsOf {events own : List TraceEvent} {key : Str × Str}
    (hperm : own.Perm (eventsOf sha256 events key)) :
    ∃ events' : List TraceEvent, events'.Perm events ∧ eventsOf sha256 events' key = own := by
  refine ⟨own ++ events.filter fun event => !decide (event.edge sha256 = key),
    (hperm.append_right _).trans (List.filter_append_perm _ _), ?_⟩
  have hown : own.filter (fun event => event.edge sha256 = key) = own :=
    List.filter_eq_self.mpr fun event hevent =>
      decide_eq_true (mem_eventsOf.mp (hperm.mem_iff.mp hevent)).2
  have hrest : (events.filter fun event => !decide (event.edge sha256 = key)).filter
      (fun event => event.edge sha256 = key) = [] := by
    rw [List.filter_filter, List.filter_eq_nil_iff]
    intro event _
    rw [Bool.and_not_self]
    exact Bool.false_ne_true
  rw [eventsOf, List.filter_append, hown, hrest, List.append_nil]

variable (sha256) in
/-- No two resources of the events have the same id. -/
def IdsDistinct (events : List TraceEvent) : Prop :=
  ∀ event ∈ events, ∀ other ∈ events,
    (event.resource sha256).id = (other.resource sha256).id →
      event.resource sha256 = other.resource sha256

/-! ## Every order -/

/-- What two lists of events of one edge add up to is the same, if they are the same events. -/
theorem foldl_observe_perm {events events' : List TraceEvent} (hperm : events'.Perm events)
    (htimed : WellTimed (events.map TraceEvent.timestampNS)) {a : AccessAggregate}
    (ha : a.firstNS = 0) :
    events'.foldl AccessAggregate.observe a = events.foldl AccessAggregate.observe a := by
  have hinstants := hperm.map TraceEvent.timestampNS
  have hfirst : (events'.map TraceEvent.timestampNS).foldl earlier a.firstNS =
      (events.map TraceEvent.timestampNS).foldl earlier a.firstNS := by
    have hleast := (htimed.perm hinstants).isLeast
    simp only [hinstants.mem_iff] at hleast
    rw [ha]
    exact hleast.unique htimed.isLeast
  have hlast : (events'.map TraceEvent.timestampNS).foldl max a.lastNS =
      (events.map TraceEvent.timestampNS).foldl max a.lastNS := hinstants.foldl_op_eq
  simp only [foldl_observe, hperm.countP_eq, hfirst, hlast,
    List.toFinset_eq_of_perm _ _ (hperm.map TraceEvent.accessMode),
    List.toFinset_eq_of_perm _ _ (hperm.map TraceEvent.source),
    List.toFinset_eq_of_perm _ _ (hperm.map TraceEvent.executionID)]

/-- **The order of the events does not matter** where the IDs are distinct and the times well
recorded. -/
theorem recordAll_perm {tests : List TestNode} {events events' : List TraceEvent}
    (hperm : events'.Perm events) (hids : IdsDistinct sha256 events)
    (htimed : ∀ event ∈ events,
      WellTimed ((eventsOf sha256 events (event.edge sha256)).map TraceEvent.timestampNS)) :
    recordAll sha256 tests events' = recordAll sha256 tests events := by
  obtain ⟨hstats, hhistory⟩ := @recordAll_testStats sha256 tests events
  obtain ⟨hstats', hhistory'⟩ := @recordAll_testStats sha256 tests events'
  refine TestResourceGraph.ext (funext fun id => ?_) (funext fun id => ?_) (funext fun key => ?_)
    (funext fun id => ?_) (funext fun id => ?_) (hstats'.trans hstats.symm)
    (hhistory'.trans hhistory.symm)
  · simp only [recordAll_tests, (hperm.map TraceEvent.testID).mem_iff]
  · -- the last event of a resource: any is as good
    have hfilter := hperm.filter fun event => decide ((event.resource sha256).id = id)
    rw [recordAll_resources, recordAll_resources]
    cases hlast' : (events'.filter fun event => (event.resource sha256).id = id).getLast? with
    | none =>
      rw [List.getLast?_eq_none_iff] at hlast'
      rw [hlast', List.nil_perm] at hfilter
      rw [hfilter, List.getLast?_nil]
    | some event' =>
      cases hlast : (events.filter fun event => (event.resource sha256).id = id).getLast? with
      | none =>
        rw [List.getLast?_eq_none_iff] at hlast
        rw [hlast, List.perm_nil] at hfilter
        rw [hfilter] at hlast'
        cases hlast'
      | some event =>
        have hmem := List.mem_filter.mp (List.mem_of_getLast? hlast)
        have hmem' := List.mem_filter.mp (hfilter.mem_iff.mp (List.mem_of_getLast? hlast'))
        exact congrArg some (hids event' hmem'.1 event hmem.1
          ((of_decide_eq_true hmem'.2).trans (of_decide_eq_true hmem.2).symm))
  · have hown := @eventsOf_perm sha256 _ _ hperm key
    rw [recordAll_edges, recordAll_edges]
    rcases hevents' : eventsOf sha256 events' key with _ | ⟨event', rest'⟩
    · rw [hevents', List.nil_perm] at hown
      rw [hown]
    · rcases hevents : eventsOf sha256 events key with _ | ⟨event, rest⟩
      · rw [hevents, List.perm_nil] at hown
        rw [hown] at hevents'
        cases hevents'
      · have hmem : event ∈ eventsOf sha256 events key := hevents ▸ List.mem_cons_self
        have hmem' : event' ∈ eventsOf sha256 events key :=
          hown.mem_iff.mp (hevents' ▸ List.mem_cons_self)
        obtain ⟨hin, hkey⟩ := List.mem_filter.mp hmem
        obtain ⟨hin', hkey'⟩ := List.mem_filter.mp hmem'
        obtain rfl := of_decide_eq_true hkey
        have hedge := of_decide_eq_true hkey'
        have htest : event'.testID = event.testID := congrArg Prod.fst hedge
        have hresource := hids event' hin' event hin (congrArg Prod.snd hedge)
        have htimes := htimed event hin
        rw [hevents] at htimes
        rw [hevents, hevents'] at hown
        rw [aggregateOf, aggregateOf, htest, hresource]
        exact congrArg some (foldl_observe_perm hown htimes rfl)
  · rw [recordAll_testResources, recordAll_testResources]
    exact List.toFinset_eq_of_perm _ _ ((hperm.filter _).map _)
  · rw [recordAll_resourceTests, recordAll_resourceTests]
    exact List.toFinset_eq_of_perm _ _ ((hperm.filter _).map _)

end Record

/-- Every order of the events gives the same graph, whose edges have the earliest and the latest
instant of their events, and so the same features of every two tests. -/
def OrderFree (sha256 : Str → Str) (tests : List TestNode) (events : List TraceEvent) : Prop :=
  ∀ events' : List TraceEvent, events'.Perm events →
    TestResourceGraph.fromEvents sha256 tests events' =
        TestResourceGraph.fromEvents sha256 tests events ∧
      OnOk (TestResourceGraph.fromEvents sha256 tests events') (fun g =>
        ∀ key edge, g.edges key = some edge →
          IsLeast {x | x ∈ (eventsOf sha256 events key).map TraceEvent.timestampNS} edge.firstNS ∧
          IsGreatest {x | x ∈ (eventsOf sha256 events key).map TraceEvent.timestampNS}
            edge.lastNS) ∧
      ∀ a b, (TestResourceGraph.fromEvents sha256 tests events').bind (·.pairFeatures a b) =
        (TestResourceGraph.fromEvents sha256 tests events).bind (·.pairFeatures a b)

section OrderFree

variable {sha256 : Str → Str} {tests : List TestNode} {events : List TraceEvent}

theorem fromEvents_perm_of_encodable
    (henc : events.all (fun event => Str.encodable event.resourceIdentifier) = true)
    {events' : List TraceEvent} (hperm : events'.Perm events) :
    TestResourceGraph.fromEvents sha256 tests events' =
      .ok (recordAll sha256 tests events').refreshStats := by
  rw [fromEvents_eq, hperm.all_eq, if_pos henc]

/-- Two resources of one id: the last event decides which the graph keeps. -/
theorem OrderFree.idsDistinct (h : OrderFree sha256 tests events)
    (henc : events.all (fun event => Str.encodable event.resourceIdentifier) = true) :
    IdsDistinct sha256 events := by
  have hlast : ∀ event ∈ events,
      (recordAll sha256 tests events).resources (event.resource sha256).id =
        some (event.resource sha256) := by
    intro event hevent
    -- the order in which this event is the last one
    obtain ⟨before, after, heq⟩ := List.append_of_mem hevent
    have hperm : (before ++ after ++ [event]).Perm events := by
      rw [heq, List.append_assoc]
      exact (List.perm_append_singleton event after).append_left before
    have hgraph := (h _ hperm).1
    rw [fromEvents_perm_of_encodable henc hperm,
      fromEvents_perm_of_encodable henc (.refl _)] at hgraph
    have hresources := congrArg TestResourceGraph.resources (Except.ok.inj hgraph)
    change (recordAll sha256 tests (before ++ after ++ [event])).resources =
      (recordAll sha256 tests events).resources at hresources
    rw [← hresources, recordAll_concat]
    exact PartialMap.insert_self ..
  intro event hevent other hother hid
  have heq := hlast event hevent
  rw [hid, hlast other hother] at heq
  exact (Option.some.inj heq).symm

/-- If no order matters, the times are well recorded. -/
theorem OrderFree.wellTimed (h : OrderFree sha256 tests events)
    (henc : events.all (fun event => Str.encodable event.resourceIdentifier) = true)
    {event : TraceEvent} (hevent : event ∈ events) :
    WellTimed ((eventsOf sha256 events (event.edge sha256)).map TraceEvent.timestampNS) := by
  have hinstants : ∀ own : List TraceEvent,
      own.Perm (eventsOf sha256 events (event.edge sha256)) →
      IsLeast {x | x ∈ (eventsOf sha256 events (event.edge sha256)).map TraceEvent.timestampNS}
        ((own.map TraceEvent.timestampNS).foldl earlier 0) ∧
      IsGreatest {x | x ∈ (eventsOf sha256 events (event.edge sha256)).map TraceEvent.timestampNS}
        ((own.map TraceEvent.timestampNS).foldl max 0) := by
    intro own hown
    obtain ⟨events', hperm, rfl⟩ := exists_perm_eventsOf hown
    obtain ⟨edge, hedge⟩ := @exists_edge sha256 tests _ _ (hperm.mem_iff.mpr hevent)
    have hon := (h events' hperm).2.1
    rw [fromEvents_perm_of_encodable henc hperm, onOk_ok] at hon
    obtain ⟨hfirst, hlast⟩ := instants_of_edge hedge
    rw [← hfirst, ← hlast]
    exact hon _ _ hedge
  exact wellTimed_of_perm (fun own hperm => (hinstants own hperm).1) (hinstants _ (.refl _)).2

/-- If they are, no order matters. -/
theorem orderFree_of_wellTimed
    (henc : events.all (fun event => Str.encodable event.resourceIdentifier) = true)
    (hids : IdsDistinct sha256 events)
    (htimed : ∀ event ∈ events,
      WellTimed ((eventsOf sha256 events (event.edge sha256)).map TraceEvent.timestampNS)) :
    OrderFree sha256 tests events := by
  intro events' hperm
  rw [fromEvents_perm_of_encodable henc hperm, fromEvents_perm_of_encodable henc (.refl _),
    recordAll_perm hperm hids htimed, onOk_ok]
  refine ⟨rfl, fun key edge hedge => ?_, fun a b => rfl⟩
  change (recordAll sha256 tests events).edges key = some edge at hedge
  obtain ⟨event, hevent, rfl⟩ := exists_event_of_edge hedge
  obtain ⟨hfirst, hlast⟩ := instants_of_edge hedge
  have htimes := htimed event hevent
  rw [hfirst, hlast]
  exact ⟨htimes.isLeast, (isGreatest_foldl_max_iff _).mpr htimes.1⟩

end OrderFree

/-- **When the order does not matter**: for events of encodable resources, exactly if resource
ids are not shared and no edge has a zero that `observe` mistakes. -/
theorem orderFree_iff (sha256 : Str → Str) (tests : List TestNode) (events : List TraceEvent) :
    OrderFree sha256 tests events ↔
      (∃ event ∈ events, Str.encodable event.resourceIdentifier = false) ∨
        IdsDistinct sha256 events ∧ ∀ event ∈ events,
          WellTimed ((eventsOf sha256 events (event.edge sha256)).map TraceEvent.timestampNS) := by
  by_cases henc : events.all (fun event => Str.encodable event.resourceIdentifier) = true
  · have hnone : ¬ ∃ event ∈ events, Str.encodable event.resourceIdentifier = false := by
      rintro ⟨event, hevent, hfalse⟩
      rw [List.all_eq_true.mp henc event hevent] at hfalse
      cases hfalse
    rw [or_iff_right hnone]
    refine ⟨?_, ?_⟩
    · exact fun h => ⟨h.idsDistinct henc, fun event hevent => h.wellTimed henc hevent⟩
    · exact fun ⟨hids, htimed⟩ => orderFree_of_wellTimed henc hids htimed
  · -- `create` raises in every order
    have herror : ∀ events' : List TraceEvent, events'.Perm events →
        TestResourceGraph.fromEvents sha256 tests events' = .error .valueError := by
      intro events' hperm
      rw [fromEvents_eq, hperm.all_eq, if_neg henc]
    refine iff_of_true (fun events' hperm => ?_) (.inl ?_)
    · rw [herror events' hperm, herror events (.refl _)]
      exact ⟨rfl, onOk_error.mpr trivial, fun a b => rfl⟩
    · simpa using henc

/-- A read of `/tmp/x` at an instant. -/
def readAt (timestamp : ℤ) : TraceEvent where
  executionID := str "e"
  testID := str "t"
  timestampNS := timestamp
  pid := 1
  tid := 1
  cgroupID := 0
  resourceType := .file
  resourceIdentifier := str "/tmp/x"
  operation := .read
  accessMode := .read
  source := .replay
  metadata := .object []
  sequence := 0

/-- The digest of the text that `create` hashes for `/tmp/x`. -/
def sha256OfTmpX (_ : Str) : Str :=
  str "59f2764a6292e5c92ab046d15ec42e5c9f4bca7100993a339be7dc52616ad552"

/-- The first of two reads was at zero, and `first_ns` becomes the second. -/
theorem not_orderFree_readAt : ¬ OrderFree sha256OfTmpX [] [readAt 0, readAt 5] := by
  intro h
  have hedge : (recordAll sha256OfTmpX [] [readAt 0, readAt 5]).edges
      (str "t", str "res_59f2764a6292e5c92ab046d1") =
        some (((⟨str "t", (readAt 0).resource sha256OfTmpX, fun _ => 0, ∅, 0, 0, ∅, ∅⟩ :
          AccessAggregate).observe (readAt 0)).observe (readAt 5)) := rfl
  have hok : TestResourceGraph.fromEvents sha256OfTmpX [] [readAt 0, readAt 5] =
      .ok (recordAll sha256OfTmpX [] [readAt 0, readAt 5]).refreshStats := rfl
  have hon := (h _ (.refl _)).2.1
  rw [hok, onOk_ok] at hon
  have hfirst := (hon (str "t", str "res_59f2764a6292e5c92ab046d1") _ hedge).1
  have hle : (5 : ℤ) ≤ 0 := hfirst.2 (show (0 : ℤ) ∈ [0, 5] by decide)
  exact absurd hle (by decide)

end ConflictGraph.Py
