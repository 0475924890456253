import ConflictGraph.PyRenaming
import ConflictGraph.PySink

/-!
# What redaction changes

With `redact_paths` the normaliser puts a salted digest in the place of a path, whole. To the
graph that is a renaming (`normalizeEvents_redacting`), and the feature vectors of all pairs
stay, but for one thing: `pair_features` takes a resource for a database by the end of its
path, too, and a digest ends with none of `.db`, `.sqlite` and `.sqlite3`
(`sameVectors_iff`).
-/

namespace ConflictGraph.Py

/-! ## Two runs -/

/-- The types whose identifiers are paths. -/
def ResourceType.isPath : ResourceType → Bool
  | .file | .directory | .fileLock | .unixSocket | .databaseResource => true
  | .tcpEndpoint | .udpEndpoint | .redisKey | .process | .otherLogicalResource => false

/-- The policy with this value of `redact_paths`. -/
def NormalizationPolicy.redacting (policy : NormalizationPolicy) (redact : Bool) :
    NormalizationPolicy :=
  { policy with redactPaths := redact }

/-- The order in which `normalize_events` sorts. -/
def TraceEvent.before (a b : TraceEvent) : Prop :=
  a.timestampNS < b.timestampNS ∨ (a.timestampNS = b.timestampNS ∧ a.sequence ≤ b.sequence)

instance : DecidableRel TraceEvent.before := fun _ _ => inferInstanceAs (Decidable (_ ∨ _))

section Runs

variable (interpreter : Interpreter) (policy : NormalizationPolicy)

/-- `normalize_events`. -/
def normalizeEvents (events : List TraceEvent) : Except ExceptionType (List TraceEvent) :=
  (events.mapM (normalizeEvent interpreter policy)).map fun normalized =>
    (normalized.filterMap id).insertionSort TraceEvent.before

/-- The feature vector of two tests, in the graph of the normalised events. -/
def learnedVector (tests : List TestNode) (events : List TraceEvent) (a b : Str) :
    Except ExceptionType (List ℚ) := do
  let kept ← normalizeEvents interpreter policy events
  let g ← TestResourceGraph.fromEvents interpreter.sha256 tests kept
  let features ← g.pairFeatures a b
  return features.vector

/-- Redaction or not, every two tests have the same vector, or there is no graph. -/
def SameVectors (tests : List TestNode) (events : List TraceEvent) : Prop :=
  ∀ a b, a ≠ b → (learnedVector interpreter (policy.redacting true) tests events a b).toOption =
    (learnedVector interpreter (policy.redacting false) tests events a b).toOption

/-- The identifier that redaction gives to a resource. -/
def hidden (kind : ResourceType) (identifier : Str) : Str :=
  if kind.isPath then str "sha256:" ++ interpreter.sha256 (policy.hashSalt ++ 0 :: identifier)
  else identifier

/-- The path of an event, if it has one, can be hashed with the salt. -/
def hashable (event : TraceEvent) : Bool :=
  !event.resourceType.isPath || (policy.hashSalt ++ 0 :: event.resourceIdentifier).encodable

end Runs

/-! ## Redaction is a renaming -/

section Renaming

variable {interpreter : Interpreter} {policy : NormalizationPolicy}

open NormalizationPolicy

variable (interpreter policy) in
/-- What redaction makes of a path, if there is one. -/
def hidePath : Option Str → Except ExceptionType (Option Str)
  | none => .ok none
  | some value =>
    if (policy.hashSalt ++ 0 :: value).encodable then
      .ok (some (str "sha256:" ++ interpreter.sha256 (policy.hashSalt ++ 0 :: value)))
    else .error .valueError

/-- With redaction an identifier becomes a digest, if it can be encoded with the salt. -/
theorem redact_true (value : Str) : (policy.redacting true).redact interpreter value =
    if (policy.hashSalt ++ 0 :: value).encodable then
      .ok (str "sha256:" ++ interpreter.sha256 (policy.hashSalt ++ 0 :: value))
    else .error .valueError := if_pos rfl

theorem redact_false (value : Str) : (policy.redacting false).redact interpreter value = .ok value :=
  if_neg Bool.false_ne_true

/-- Up to the digest a path is treated alike. -/
theorem path_redacting (raw : Str) (operation : Operation) :
    (policy.redacting true).path interpreter raw operation =
      ((policy.redacting false).path interpreter raw operation).bind
        (hidePath interpreter policy) := by
  have hexcludes : ∀ value, (policy.redacting true).excludes value operation =
      (policy.redacting false).excludes value operation := fun _ => rfl
  have hrelative : (policy.redacting true).relative = (policy.redacting false).relative := rfl
  simp only [path, hexcludes, hrelative]
  split
  · rfl
  split
  · rfl
  · rw [redact_true, redact_false]
    change _ = hidePath interpreter policy (some _)
    rw [hidePath]
    split <;> rfl

/-- The types are normalised as paths, or redaction does not matter. -/
theorem normalizeIdentifier_of_isPath {kind : ResourceType} (hkind : kind.isPath = true)
    (redact : Bool) (raw : Str) (operation : Operation) :
    (policy.redacting redact).normalizeIdentifier interpreter kind raw operation =
      (policy.redacting redact).path interpreter raw operation := by
  cases kind <;> first | rfl | cases hkind

/-- Where the kind is no path, redaction comes after all the rest. -/
theorem normalizeIdentifier_of_not_isPath {kind : ResourceType} (hkind : kind.isPath = false)
    (raw : Str) (operation : Operation) :
    (policy.redacting true).normalizeIdentifier interpreter kind raw operation =
      (policy.redacting false).normalizeIdentifier interpreter kind raw operation := by
  cases kind <;> first | rfl | cases hkind

variable (interpreter policy) in
/-- What redaction makes of a normalised event. -/
def hide : Option TraceEvent → Except ExceptionType (Option TraceEvent)
  | none => .ok none
  | some event =>
    if hashable policy event then .ok (some (event.rename (hidden interpreter policy)))
    else .error .valueError

/-- Redaction hides what normalisation keeps. -/
theorem normalizeEvent_redacting (event : TraceEvent) :
    normalizeEvent interpreter (policy.redacting true) event =
      (normalizeEvent interpreter (policy.redacting false) event).bind (hide interpreter policy) := by
  simp only [normalizeEvent, ReplayTracer.normalizeEvent]
  cases hkind : event.resourceType.isPath with
  | true =>
    rw [normalizeIdentifier_of_isPath hkind, normalizeIdentifier_of_isPath hkind, path_redacting]
    -- an exception, filtered, or a path that is hashed if it can be
    rcases (policy.redacting false).path interpreter event.resourceIdentifier event.operation with
      e | _ | value
    · rfl
    · rfl
    · by_cases hencodable : (policy.hashSalt ++ 0 :: value).encodable = true
      · simp [Except.bind, Except.map, hide, hidePath, hashable, hkind, TraceEvent.rename, hidden,
          hencodable]
      · simp [Except.bind, Except.map, hide, hidePath, hashable, hkind, hencodable]
  | false =>
    rw [normalizeIdentifier_of_not_isPath hkind]
    rcases (policy.redacting false).normalizeIdentifier interpreter event.resourceType
      event.resourceIdentifier event.operation with e | _ | value
    · rfl
    · rfl
    · simp [Except.bind, Except.map, hide, hashable, hkind, TraceEvent.rename, hidden]

/-- So it does for all events, if they can all be hashed. -/
theorem mapM_redacting (events : List TraceEvent) :
    ((events.mapM (normalizeEvent interpreter (policy.redacting true))).map
        (List.filterMap id)).toOption =
      ((events.mapM (normalizeEvent interpreter (policy.redacting false))).map
        (List.filterMap id)).toOption.bind fun kept =>
          if kept.all (hashable policy) then
            some (kept.map (TraceEvent.rename (hidden interpreter policy)))
          else none := by
  induction events with
  | nil => rfl
  | cons event rest ih =>
    rw [List.mapM_cons, List.mapM_cons, normalizeEvent_redacting]
    generalize rest.mapM (normalizeEvent interpreter (policy.redacting true)) = redacted at ih ⊢
    generalize rest.mapM (normalizeEvent interpreter (policy.redacting false)) = plain at ih ⊢
    rcases normalizeEvent interpreter (policy.redacting false) event with e | _ | normalized
    · rfl
    · rcases redacted with e | redacted
      · rcases plain with e' | plain
        · rfl
        · exact ih
      · rcases plain with e' | plain
        · exact ih
        · exact ih
    · -- the rest fails or not; then this event decides
      change (Except.map _ ((hide interpreter policy (some normalized)).bind _)).toOption = _
      rw [hide]
      rcases plain with e' | plain
      · rcases redacted with e | redacted
        · split <;> rfl
        · cases ih
      · change _ = if ((normalized :: plain.filterMap id).all (hashable policy)) then
          some ((normalized :: plain.filterMap id).map _) else none
        change _ = if (plain.filterMap id).all (hashable policy) then
          some ((plain.filterMap id).map _) else none at ih
        rw [List.all_cons]
        by_cases hhashable : hashable policy normalized = true
        · rw [if_pos hhashable, hhashable, Bool.true_and]
          rcases redacted with e | redacted
          · split at ih
            · cases ih
            · rename_i hnone
              rw [if_neg hnone]
              rfl
          · split at ih
            · rename_i hall
              rw [if_pos hall, List.map_cons, ← Option.some.inj ih]
              rfl
            · cases ih
        · rw [if_neg hhashable, Bool.eq_false_iff.mpr hhashable]
          rfl

/-- **What redaction does to a trace**: it renames the paths, if it can hash them all. -/
theorem normalizeEvents_redacting (events : List TraceEvent) :
    (normalizeEvents interpreter (policy.redacting true) events).toOption =
      (normalizeEvents interpreter (policy.redacting false) events).toOption.bind fun kept =>
        if kept.all (hashable policy) then
          some (kept.map (TraceEvent.rename (hidden interpreter policy)))
        else none := by
  have hsort : ∀ policy : NormalizationPolicy,
      (normalizeEvents interpreter policy events).toOption =
        ((events.mapM (normalizeEvent interpreter policy)).map (List.filterMap id)).toOption.map
          (List.insertionSort TraceEvent.before) := by
    intro policy
    rw [normalizeEvents, toOption_map, toOption_map, Option.map_map]
    rfl
  rw [hsort, hsort, mapM_redacting]
  rcases ((events.mapM (normalizeEvent interpreter (policy.redacting false))).map
    (List.filterMap id)).toOption with _ | kept
  · rfl
  · have hperm := List.perm_insertionSort TraceEvent.before kept
    simp only [Option.bind_some, Option.map_some, hperm.all_eq]
    split
    · rw [Option.map_some, List.map_insertionSort (r := TraceEvent.before)
        (s := TraceEvent.before)]
      exact fun _ _ _ _ => Iff.rfl
    · rfl

/-! ## The graphs -/

/-- The vector of two tests in the graph of events that were normalised. -/
def vectorOf (sha256 : Str → Str) (tests : List TestNode) (kept : List TraceEvent) (a b : Str) :
    Option (List ℚ) :=
  if kept.all fun event => Str.encodable event.resourceIdentifier then
    (((recordAll sha256 tests kept).refreshStats.pairFeatures a b).map PairFeatures.vector).toOption
  else none

/-- The vector is computed of the events that are kept. -/
theorem toOption_learnedVector (tests : List TestNode) (events : List TraceEvent) (a b : Str) :
    (learnedVector interpreter policy tests events a b).toOption =
      (normalizeEvents interpreter policy events).toOption.bind fun kept =>
        vectorOf interpreter.sha256 tests kept a b := by
  rw [learnedVector, toOption_bind]
  congr 1
  funext kept
  rw [toOption_bind, fromEvents_eq, vectorOf]
  split
  · rw [toOption_map, Except.toOption, Option.bind_some, toOption_bind]
    cases (recordAll interpreter.sha256 tests kept).refreshStats.pairFeatures a b <;> rfl
  · rfl

end Renaming

/-! ## Databases -/

/-- A path that is taken for that of a database by its end alone. -/
def namesDatabase (kind : ResourceType) (identifier : Str) : Bool :=
  kind.isPath && kind ≠ .databaseResource &&
    [str ".db", str ".sqlite", str ".sqlite3"].any fun finish => Str.endsWith identifier finish

/-- What is relied on of SHA-256 in a run: digests are hexadecimal, no two of the salted paths have
one digest, and no two resources get one id, redacted or not. -/
structure Collisionless (interpreter : Interpreter) (policy : NormalizationPolicy)
    (events : List TraceEvent) : Prop where
  hexdigest : ∀ s, ∀ c ∈ interpreter.sha256 s, isAsciiDigit c = true ∨ (97 ≤ c ∧ c ≤ 102)
  paths : ∀ kept, normalizeEvents interpreter (policy.redacting false) events = .ok kept →
    ∀ event ∈ kept, ∀ other ∈ kept, event.resourceType.isPath = true →
      other.resourceType.isPath = true →
      interpreter.sha256 (policy.hashSalt ++ 0 :: event.resourceIdentifier) =
          interpreter.sha256 (policy.hashSalt ++ 0 :: other.resourceIdentifier) →
        event.resourceIdentifier = other.resourceIdentifier
  ids : ∀ redact kept, normalizeEvents interpreter (policy.redacting redact) events = .ok kept →
    IdsDistinct interpreter.sha256 kept

section Databases

variable {interpreter : Interpreter} {policy : NormalizationPolicy}

/-- A digest has no dot. -/
theorem endsWith_hidden
    (hhex : ∀ s, ∀ c ∈ interpreter.sha256 s, isAsciiDigit c = true ∨ (97 ≤ c ∧ c ≤ 102))
    {kind : ResourceType} (hkind : kind.isPath = true) (identifier : Str) {finish : Str}
    (hdot : 46 ∈ finish) :
    Str.endsWith (hidden interpreter policy kind identifier) finish = false := by
  rw [Str.endsWith, Bool.eq_false_iff, Ne, List.isSuffixOf_iff_suffix]
  intro hsuffix
  have hmem := hsuffix.subset hdot
  rw [hidden, if_pos hkind, List.mem_append] at hmem
  -- not in the prefix, and not among the hexadecimal digits
  rcases hmem with hmem | hmem
  · exact absurd hmem (by decide)
  · rcases hhex _ _ hmem with hdigit | ⟨hle, -⟩
    · exact absurd hdigit (by decide)
    · exact absurd hle (by decide)

/-- A renamed resource is taken for a database, unless its path alone was the reason. -/
theorem isDatabase_rename
    (hhex : ∀ s, ∀ c ∈ interpreter.sha256 s, isAsciiDigit c = true ∨ (97 ≤ c ∧ c ≤ 102))
    (s : SharedResource) :
    (s.rename interpreter.sha256 (hidden interpreter policy)).isDatabase =
      (s.isDatabase && !namesDatabase s.resource.type s.resource.identifier) := by
  have hrename : (s.rename interpreter.sha256 (hidden interpreter policy)).isDatabase =
      (decide (s.resource.type = .databaseResource) ||
        [str ".db", str ".sqlite", str ".sqlite3"].any fun finish =>
          Str.endsWith (hidden interpreter policy s.resource.type s.resource.identifier) finish) := rfl
  rw [hrename, SharedResource.isDatabase, namesDatabase]
  cases hkind : s.resource.type.isPath with
  | true =>
    have hnone : ([str ".db", str ".sqlite", str ".sqlite3"].any fun finish =>
        Str.endsWith (hidden interpreter policy s.resource.type s.resource.identifier) finish) =
          false := by
      rw [List.any_eq_false]
      intro finish hfinish
      rw [endsWith_hidden hhex hkind _ ?_]
      · exact Bool.false_ne_true
      · revert finish
        decide
    rw [hnone]
    by_cases htype : s.resource.type = .databaseResource
    · simp [htype]
    · simp only [htype, decide_false, Bool.false_or, Bool.true_and, ne_eq, not_false_eq_true,
        decide_true, Bool.and_not_self]
  | false =>
    have hsame : hidden interpreter policy s.resource.type s.resource.identifier =
        s.resource.identifier := by
      rw [hidden, hkind]
      rfl
    rw [hsame, Bool.false_and, Bool.false_and, Bool.not_false, Bool.and_true]

theorem countP_and_not_eq_iff {α : Type} {p q : α → Bool} (h : ∀ a, q a = true → p a = true)
    (items : List α) :
    items.countP (fun a => p a && !q a) = items.countP p ↔ ∀ a ∈ items, q a = false := by
  have hsum : items.countP p = items.countP (fun a => p a && !q a) + items.countP q := by
    induction items with
    | nil => rfl
    | cons a rest ih =>
      simp only [List.countP_cons, ih]
      cases hq : q a with
      | false =>
        simp only [Bool.not_false, Bool.and_true, Bool.false_eq_true, if_false]
        omega
      | true => simp [h a hq]; omega
  rw [hsum, Nat.left_eq_add, List.countP_eq_zero]
  simp only [Bool.not_eq_true]

end Databases

/-! ## When redaction is harmless -/

section Harmless

variable {interpreter : Interpreter} {policy : NormalizationPolicy} {tests : List TestNode}
  {events kept : List TraceEvent}

/-- The graph has the resource of an event under its id. -/
theorem resource_eq_of_mem {sha256 : Str → Str} (hids : IdsDistinct sha256 kept)
    {event : TraceEvent} (hevent : event ∈ kept) {resource : ResourceIdentity}
    (h : (recordAll sha256 tests kept).resources (event.resource sha256).id = some resource) :
    event.resource sha256 = resource := by
  rw [recordAll_resources, Option.map_eq_some_iff] at h
  obtain ⟨last, hlast, rfl⟩ := h
  obtain ⟨hmem, hid⟩ := List.mem_filter.mp (List.mem_of_getLast? hlast)
  exact (hids last hmem event hevent (of_decide_eq_true hid)).symm

/-- Two events of two tests have the resource. -/
theorem exists_events_of_mem {sha256 : Str → Str} (hids : IdsDistinct sha256 kept) {a b : Str}
    {s : SharedResource} (hs : s ∈ (recordAll sha256 tests kept).sharedList a b) :
    ∃ event ∈ kept, ∃ other ∈ kept, event.testID = a ∧ other.testID = b ∧
      event.resource sha256 = s.resource ∧ other.resource sha256 = s.resource := by
  obtain ⟨id, hid, hshared⟩ := TestResourceGraph.mem_sharedList.mp hs
  obtain ⟨-, -, hresource, -⟩ := TestResourceGraph.shared_eq_ok.mp hshared
  have hevent : ∀ testID, id ∈ (recordAll sha256 tests kept).testResources testID →
      ∃ event ∈ kept, event.testID = testID ∧ event.resource sha256 = s.resource := by
    intro testID hmem
    rw [recordAll_testResources, List.mem_toFinset, List.mem_map] at hmem
    obtain ⟨event, hfilter, rfl⟩ := hmem
    obtain ⟨hevent, htest⟩ := List.mem_filter.mp hfilter
    exact ⟨event, hevent, of_decide_eq_true htest, resource_eq_of_mem hids hevent hresource⟩
  obtain ⟨ha, hb⟩ := TestResourceGraph.mem_sharedIDs.mp hid
  obtain ⟨event, hmem, htest, hsame⟩ := hevent a ha
  obtain ⟨other, hmem', htest', hsame'⟩ := hevent b hb
  exact ⟨event, hmem, other, hmem', htest, htest', hsame, hsame'⟩

/-- And what two events have is shared. -/
theorem exists_mem_sharedList {sha256 : Str → Str} (hids : IdsDistinct sha256 kept)
    {event other : TraceEvent} (hevent : event ∈ kept) (hother : other ∈ kept)
    (hsame : event.resource sha256 = other.resource sha256) :
    ∃ s ∈ (recordAll sha256 tests kept).sharedList event.testID other.testID,
      s.resource = event.resource sha256 := by
  have hmem : (event.resource sha256).id ∈
      (recordAll sha256 tests kept).sharedIDs event.testID other.testID := by
    rw [TestResourceGraph.mem_sharedIDs, recordAll_testResources, recordAll_testResources,
      List.mem_toFinset, List.mem_toFinset, List.mem_map, List.mem_map]
    exact ⟨⟨event, List.mem_filter.mpr ⟨hevent, decide_eq_true rfl⟩, rfl⟩,
      other, List.mem_filter.mpr ⟨hother, decide_eq_true rfl⟩, by rw [hsame]⟩
  obtain ⟨s, hshared⟩ := (linked_recordAll sha256 tests kept).exists_shared hmem
  obtain ⟨-, -, hresource, -⟩ := TestResourceGraph.shared_eq_ok.mp hshared
  exact ⟨s, TestResourceGraph.mem_sharedList.mpr ⟨_, hmem, hshared⟩,
    (resource_eq_of_mem hids hevent hresource).symm⟩

/-- No two tests share a path that is taken for that of a database by its end alone. -/
def NoNamedDatabase (kept : List TraceEvent) : Prop :=
  ∀ event ∈ kept, ∀ other ∈ kept, event.testID ≠ other.testID →
    event.resourceType = other.resourceType →
    event.resourceIdentifier = other.resourceIdentifier →
      namesDatabase event.resourceType event.resourceIdentifier = false

/-- The new names are as good as the old ones. -/
theorem Collisionless.renames (h : Collisionless interpreter policy events)
    (hkept : normalizeEvents interpreter (policy.redacting false) events = .ok kept)
    (hhashable : kept.all (hashable policy) = true) :
    Renames interpreter.sha256 (hidden interpreter policy) kept where
  distinct := h.ids false kept hkept
  distinct_rename := by
    refine h.ids true _ ?_
    have hredacted := @normalizeEvents_redacting interpreter policy events
    rw [hkept] at hredacted
    change _ = (if kept.all (hashable policy) then _ else none) at hredacted
    rw [if_pos hhashable] at hredacted
    rcases hrun : normalizeEvents interpreter (policy.redacting true) events with e | redacted
    · rw [hrun] at hredacted
      cases hredacted
    · rw [hrun] at hredacted
      exact congrArg _ (Option.some.inj hredacted)
  injective := by
    intro event hevent other hother htype hname
    rw [hidden, hidden, ← htype] at hname
    split at hname
    · rename_i hkind
      exact h.paths kept hkept event hevent other hother hkind (htype ▸ hkind)
        (List.append_cancel_left hname)
    · exact hname

/-- Where no two resources collide, hiding changes no vector exactly if it takes no database from
its like. -/
theorem Collisionless.sameVectors_kept_iff (h : Collisionless interpreter policy events)
    (hkept : normalizeEvents interpreter (policy.redacting false) events = .ok kept)
    (hhashable : kept.all (hashable policy) = true) :
    (∀ a b, a ≠ b →
      ((recordAll interpreter.sha256 tests (kept.map (TraceEvent.rename
          (hidden interpreter policy)))).refreshStats.pairFeatures a b).map PairFeatures.vector =
        ((recordAll interpreter.sha256 tests kept).refreshStats.pairFeatures a b).map
          PairFeatures.vector) ↔ NoNamedDatabase kept := by
  have hrenames := h.renames hkept hhashable
  have hids := h.ids false kept hkept
  have hpair : ∀ a b, a ≤ b →
      (((recordAll interpreter.sha256 tests (kept.map (TraceEvent.rename
          (hidden interpreter policy)))).refreshStats.pairFeatures a b).map PairFeatures.vector =
        ((recordAll interpreter.sha256 tests kept).refreshStats.pairFeatures a b).map
          PairFeatures.vector ↔
      ∀ s ∈ (recordAll interpreter.sha256 tests kept).sharedList a b,
        namesDatabase s.resource.type s.resource.identifier = false) := by
    intro a b hab
    rw [hrenames.vector_eq_iff hab, TestResourceGraph.databases, TestResourceGraph.databases,
      (hrenames.sharedList_perm a b).countP_eq, List.countP_map]
    have hdatabase : SharedResource.isDatabase ∘
        SharedResource.rename interpreter.sha256 (hidden interpreter policy) =
          fun s => s.isDatabase && !namesDatabase s.resource.type s.resource.identifier :=
      funext fun s => isDatabase_rename h.hexdigest s
    rw [hdatabase]
    refine countP_and_not_eq_iff (fun s hs => ?_) _
    rw [namesDatabase, Bool.and_eq_true] at hs
    rw [SharedResource.isDatabase, hs.2, Bool.or_true]
  refine ⟨fun hall event hevent other hother htest htype hname => ?_, fun hno => ?_⟩
  · have hsame : event.resource interpreter.sha256 = other.resource interpreter.sha256 := by
      rw [TraceEvent.resource, TraceEvent.resource, htype, hname]
    -- `pair_features` puts the two tests in order
    rcases le_total event.testID other.testID with hle | hle
    · obtain ⟨s, hs, hresource⟩ := @exists_mem_sharedList tests _ _ hids _ _ hevent hother hsame
      have hnone := (hpair _ _ hle).mp (hall _ _ htest) s hs
      rwa [hresource] at hnone
    · obtain ⟨s, hs, hresource⟩ := @exists_mem_sharedList tests _ _ hids _ _ hother hevent hsame.symm
      have hnone := (hpair _ _ hle).mp (hall _ _ htest.symm) s hs
      rwa [hresource, ← hsame] at hnone
  · have hordered : ∀ a b, a ≠ b → a ≤ b →
        ∀ s ∈ (recordAll interpreter.sha256 tests kept).sharedList a b,
          namesDatabase s.resource.type s.resource.identifier = false := by
      intro a b hne _ s hs
      obtain ⟨event, hevent, other, hother, rfl, rfl, hresource, hresource'⟩ :=
        exists_events_of_mem hids hs
      have hsame := hresource.trans hresource'.symm
      have hnone := hno event hevent other hother hne (congrArg ResourceIdentity.type hsame)
        (congrArg ResourceIdentity.identifier hsame)
      rwa [← hresource]
    intro a b hne
    rcases le_total a b with hle | hle
    · exact (hpair a b hle).mpr (hordered a b hne hle)
    · rw [TestResourceGraph.pairFeatures_comm _ a b, TestResourceGraph.pairFeatures_comm _ a b]
      exact (hpair b a hle).mpr (hordered b a hne.symm hle)

theorem encodable_cons_iff (salt identifier : Str) :
    (salt ++ 0 :: identifier).encodable = (salt.encodable && identifier.encodable) := by
  rw [Str.encodable, List.all_append, List.all_cons]
  rfl

/-- A renamed event that could be hashed is as encodable as it was. -/
theorem encodable_rename
    (hhex : ∀ s, ∀ c ∈ interpreter.sha256 s, isAsciiDigit c = true ∨ (97 ≤ c ∧ c ≤ 102))
    {event : TraceEvent} (h : hashable policy event = true) :
    Str.encodable (event.rename (hidden interpreter policy)).resourceIdentifier =
      Str.encodable event.resourceIdentifier := by
  change Str.encodable (hidden interpreter policy event.resourceType event.resourceIdentifier) = _
  rw [hidden]
  split
  · rename_i hkind
    rw [hashable, hkind, Bool.not_true, Bool.false_or, encodable_cons_iff, Bool.and_eq_true] at h
    rw [h.2, Str.encodable, List.all_append, Bool.and_eq_true]
    refine ⟨by decide, List.all_eq_true.mpr fun c hc => ?_⟩
    have hsmall : c ≤ 102 := by
      rcases hhex _ c hc with hdigit | ⟨-, hle⟩
      · rw [isAsciiDigit, Bool.and_eq_true, decide_eq_true_eq, decide_eq_true_eq] at hdigit
        omega
      · exact hle
    simp
    omega
  · rfl

/-- A digest can always be encoded. -/
theorem all_encodable_rename
    (hhex : ∀ s, ∀ c ∈ interpreter.sha256 s, isAsciiDigit c = true ∨ (97 ≤ c ∧ c ≤ 102))
    (h : kept.all (hashable policy) = true) :
    ((kept.map (TraceEvent.rename (hidden interpreter policy))).all fun event =>
        Str.encodable event.resourceIdentifier) =
      kept.all fun event => Str.encodable event.resourceIdentifier := by
  induction kept with
  | nil => rfl
  | cons event rest ih =>
    rw [List.all_cons, Bool.and_eq_true] at h
    rw [List.map_cons, List.all_cons, List.all_cons, encodable_rename hhex h.1, ih h.2]

/-- With encodable identifiers, it is the salt that can prevent hashing. -/
theorem all_hashable_iff
    (h : (kept.all fun event => Str.encodable event.resourceIdentifier) = true) :
    kept.all (hashable policy) = true ↔
      policy.hashSalt.encodable = true ∨ ∀ event ∈ kept, event.resourceType.isPath = false := by
  rw [List.all_eq_true] at h ⊢
  simp only [hashable, encodable_cons_iff, Bool.or_eq_true, Bool.and_eq_true, Bool.not_eq_true']
  refine ⟨fun hall => ?_, ?_⟩
  · by_cases hsalt : policy.hashSalt.encodable = true
    · exact .inl hsalt
    · exact .inr fun event hevent => (hall event hevent).resolve_right fun hboth => hsalt hboth.1
  · rintro (hsalt | hnone) event hevent
    · exact .inr ⟨hsalt, h event hevent⟩
    · exact .inl (hnone event hevent)

/-- Of events that can be encoded there is a vector. -/
theorem vectorOf_eq_some (sha256 : Str → Str) (tests : List TestNode) (a b : Str)
    (h : (kept.all fun event => Str.encodable event.resourceIdentifier) = true) :
    ∃ vector, vectorOf sha256 tests kept a b = some vector ∧
      ((recordAll sha256 tests kept).refreshStats.pairFeatures a b).map PairFeatures.vector =
        .ok vector := by
  have hlinked : (recordAll sha256 tests kept).refreshStats.Linked :=
    (linked_recordAll sha256 tests kept).of_eq rfl rfl rfl rfl
  obtain ⟨f, hf⟩ := hlinked.exists_pairFeatures a b
  refine ⟨f.vector, ?_, by rw [hf]; rfl⟩
  rw [vectorOf, if_pos h, hf]
  rfl

/-- Where the graph can be built without redaction. -/
theorem Collisionless.sameVectors_of_ok_iff (h : Collisionless interpreter policy events)
    (hkept : normalizeEvents interpreter (policy.redacting false) events = .ok kept)
    (hencodable : (kept.all fun event => Str.encodable event.resourceIdentifier) = true) :
    SameVectors interpreter policy tests events ↔
      kept.all (hashable policy) = true ∧ NoNamedDatabase kept := by
  rw [SameVectors]
  simp only [toOption_learnedVector, normalizeEvents_redacting, hkept]
  simp only [Except.toOption, Option.bind_some]
  by_cases hhashable : kept.all (hashable policy) = true
  · rw [if_pos hhashable, and_iff_right hhashable,
      ← @Collisionless.sameVectors_kept_iff _ _ tests _ _ h hkept hhashable]
    refine forall₂_congr fun a b => imp_congr_right fun _ => ?_
    obtain ⟨plain, hplain, hplainOk⟩ := vectorOf_eq_some interpreter.sha256 tests a b hencodable
    obtain ⟨redacted, hredacted, hredactedOk⟩ :=
      vectorOf_eq_some interpreter.sha256 tests a b
        ((all_encodable_rename h.hexdigest hhashable).trans hencodable)
    rw [Option.bind_some, hplain, hredacted, hplainOk, hredactedOk, Option.some.injEq,
      Except.ok.injEq]
  · -- the digests cannot be taken, and only one of the graphs is built
    rw [if_neg hhashable]
    refine iff_of_false (fun hall => ?_) fun hboth => hhashable hboth.1
    obtain ⟨vector, hvector, -⟩ :=
      vectorOf_eq_some interpreter.sha256 tests (str "a") (str "b") hencodable
    have hnone := hall (str "a") (str "b") (by decide)
    rw [hvector] at hnone
    cases hnone

end Harmless

/-- **When redaction changes no vector**: if the graph can be built without it, exactly if the salt
can be encoded (or there is no path), and no two tests share a path that is taken for that of a
database by its end alone. -/
theorem sameVectors_iff {interpreter : Interpreter} {policy : NormalizationPolicy}
    (tests : List TestNode) {events : List TraceEvent}
    (h : Collisionless interpreter policy events) :
    SameVectors interpreter policy tests events ↔
      ∀ kept, normalizeEvents interpreter (policy.redacting false) events = .ok kept →
        (∀ event ∈ kept, Str.encodable event.resourceIdentifier = true) →
          (policy.hashSalt.encodable = true ∨
            ∀ event ∈ kept, event.resourceType.isPath = false) ∧ NoNamedDatabase kept := by
  cases hrun : normalizeEvents interpreter (policy.redacting false) events with
  | error e =>
    refine iff_of_true (fun a b _ => ?_) fun kept hkept => by cases hkept
    rw [toOption_learnedVector, toOption_learnedVector, normalizeEvents_redacting, hrun]
    rfl
  | ok kept =>
    simp only [Except.ok.injEq, forall_eq']
    by_cases hencodable : (kept.all fun event => Str.encodable event.resourceIdentifier) = true
    · rw [imp_iff_right (List.all_eq_true.mp hencodable), ← all_hashable_iff hencodable]
      exact h.sameVectors_of_ok_iff hrun hencodable
    · -- neither graph is built
      refine iff_of_true (fun a b _ => ?_) fun hall => absurd (List.all_eq_true.mpr hall) hencodable
      rw [toOption_learnedVector, toOption_learnedVector, normalizeEvents_redacting, hrun]
      simp only [Except.toOption, Option.bind_some]
      rw [vectorOf, if_neg hencodable]
      split
      · rename_i hhashable
        rw [Option.bind_some, vectorOf, all_encodable_rename h.hexdigest hhashable,
          if_neg hencodable]
      · rfl

/-! ## A shared database file -/

/-- The digests of the texts that are hashed for `/tmp/x.db`. -/
def digestOfDatabase (text : Str) : Str :=
  if text = str "FILE" ++ 0 :: str "/tmp/x.db" then
    str "c0b207c219df2f384ab574fa9d96d53c8f84e24a94a5dbb4303466ed4006ec0e"
  else if text = str "pepper" ++ 0 :: str "/tmp/x.db" then
    str "f0ad7895162ef8ef66fc756dca2e08cc3f8dee63b0a53532d93f60c7bfc0ef95"
  else if text = str "FILE" ++ 0 ::
      str "sha256:f0ad7895162ef8ef66fc756dca2e08cc3f8dee63b0a53532d93f60c7bfc0ef95" then
    str "02bd1ccf896983f3f9f0ae07096c7e41181ba4244d3d51d8bcb249861e1b47cf"
  else []

/-- A test writes `/tmp/x.db`. -/
def writesDatabase (testID : Str) : TraceEvent :=
  { writeOfFile with testID := testID, resourceIdentifier := str "/tmp/x.db" }

/-- An interpreter with these digests. -/
def databaseInterpreter : Interpreter := { asciiInterpreter with sha256 := digestOfDatabase }

/-- The salt of the tests. -/
def pepper : NormalizationPolicy := { hashSalt := str "pepper" }

theorem normalizeEvents_database :
    normalizeEvents databaseInterpreter (pepper.redacting false)
        [writesDatabase (str "a"), writesDatabase (str "b")] =
      .ok [writesDatabase (str "a"), writesDatabase (str "b")] := by rfl

theorem normalizeEvents_database_redacted :
    normalizeEvents databaseInterpreter (pepper.redacting true)
        [writesDatabase (str "a"), writesDatabase (str "b")] =
      .ok ([writesDatabase (str "a"), writesDatabase (str "b")].map
        (TraceEvent.rename (hidden databaseInterpreter pepper))) := by rfl

theorem sameResource_database :
    ∀ event ∈ [writesDatabase (str "a"), writesDatabase (str "b")],
      ∀ other ∈ [writesDatabase (str "a"), writesDatabase (str "b")],
        event.resourceType = other.resourceType ∧
          event.resourceIdentifier = other.resourceIdentifier := by
  have hresource : ∀ event ∈ [writesDatabase (str "a"), writesDatabase (str "b")],
      event.resourceType = .file ∧ event.resourceIdentifier = str "/tmp/x.db" := by
    intro event hevent
    rw [List.mem_cons, List.mem_singleton] at hevent
    rcases hevent with rfl | rfl
    · exact ⟨rfl, rfl⟩
    · exact ⟨rfl, rfl⟩
  intro event hevent other hother
  obtain ⟨htype, hname⟩ := hresource event hevent
  obtain ⟨htype', hname'⟩ := hresource other hother
  exact ⟨htype.trans htype'.symm, hname.trans hname'.symm⟩

theorem collisionless_database :
    Collisionless databaseInterpreter pepper
      [writesDatabase (str "a"), writesDatabase (str "b")] where
  hexdigest s c hc := by
    have hliterals : ∀ c ∈ digestOfDatabase s, isAsciiDigit c = true ∨ (97 ≤ c ∧ c ≤ 102) := by
      rw [digestOfDatabase]
      split
      · decide +kernel
      split
      · decide +kernel
      split
      · decide +kernel
      · exact fun c hc => absurd hc List.not_mem_nil
    exact hliterals c hc
  paths kept hkept event hevent other hother _ _ _ := by
    obtain rfl := Except.ok.inj (normalizeEvents_database.symm.trans hkept)
    exact (sameResource_database event hevent other hother).2
  ids redact kept hkept event hevent other hother _ := by
    have hsame : event.resourceType = other.resourceType ∧
        event.resourceIdentifier = other.resourceIdentifier := by
      cases redact with
      | false =>
        obtain rfl := Except.ok.inj (normalizeEvents_database.symm.trans hkept)
        exact sameResource_database event hevent other hother
      | true =>
        obtain rfl := Except.ok.inj (normalizeEvents_database_redacted.symm.trans hkept)
        obtain ⟨raw, hraw, rfl⟩ := List.mem_map.mp hevent
        obtain ⟨rawOther, hrawOther, rfl⟩ := List.mem_map.mp hother
        obtain ⟨htype, hname⟩ := sameResource_database raw hraw rawOther hrawOther
        refine ⟨htype, ?_⟩
        change hidden _ _ raw.resourceType raw.resourceIdentifier =
          hidden _ _ rawOther.resourceType rawOther.resourceIdentifier
        rw [htype, hname]
    rw [TraceEvent.resource, TraceEvent.resource, hsame.1, hsame.2]

theorem sameVectors_iff_database :
    SameVectors databaseInterpreter pepper []
        [writesDatabase (str "a"), writesDatabase (str "b")] ↔
      ∀ kept, normalizeEvents databaseInterpreter (pepper.redacting false)
          [writesDatabase (str "a"), writesDatabase (str "b")] = .ok kept →
        (∀ event ∈ kept, Str.encodable event.resourceIdentifier = true) →
          (pepper.hashSalt.encodable = true ∨
            ∀ event ∈ kept, event.resourceType.isPath = false) ∧ NoNamedDatabase kept :=
  sameVectors_iff [] collisionless_database

/-- **Two tests write one database file**; redaction hides that it is one. -/
theorem not_sameVectors_database :
    Collisionless databaseInterpreter pepper
        [writesDatabase (str "a"), writesDatabase (str "b")] ∧
      ¬ SameVectors databaseInterpreter pepper []
        [writesDatabase (str "a"), writesDatabase (str "b")] := by
  refine ⟨collisionless_database, fun hsame => ?_⟩
  have hboth := (collisionless_database.sameVectors_of_ok_iff normalizeEvents_database
    (by decide)).mp hsame
  have hnone := hboth.2 _ List.mem_cons_self _ (List.mem_cons_of_mem _ List.mem_cons_self)
    (by decide) rfl rfl
  exact absurd hnone (by decide)

end ConflictGraph.Py
