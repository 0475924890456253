import Mathlib
import ConflictGraph.RustPath

/-!
# Replaying the tracer's own output

The tracer normalises the events that it records, and once more when it replays them. Endpoints and
Redis keys are fixed by then. A path is not in general: the directory of the repository is
`$REPO/` first and `$REPO` afterwards, a relative path can come down to nothing, what is below
`$REPO` can be excluded or fall into the repository again, and a hash is hashed. `PathSettled` says
of the first path when none of this happens (`normalize_again_iff`).
-/

namespace ConflictGraph.Rust

/-! ## The steps of a path -/

namespace Policy

variable (policy : Policy)

/-- A read under an excluded prefix. -/
def excludes (normalized : List Component) (operation : Operation) : Bool :=
  operation = .read && !policy.includeSystemReads &&
    policy.excludedPrefixes.any fun excluded => (components excluded.toList).isPrefixOf normalized

/-- What follows the repository, if the path is in it. -/
def inside (normalized : List Component) : Option (List Component) :=
  policy.repositoryRoot.bind fun root => stripPrefix normalized (components root.toList)

/-- The path, relative to the repository if it is in it. -/
def aliased (normalized : List Component) : String :=
  (policy.inside normalized).elim (String.ofList (pathText normalized))
    fun relative => "$REPO/" ++ String.ofList (pathText relative)

/-- The salted digest of a path. -/
def digest (sha256 : List UInt8 → String) (value : String) : String :=
  sha256 (policy.hashSalt.toUTF8.data.toList ++ 0 :: value.toUTF8.data.toList)

/-- The identifier of a normal path. -/
def identifier (sha256 : List UInt8 → String) (normalized : List Component) : String :=
  if policy.redactPaths then "sha256:" ++ policy.digest sha256 (policy.aliased normalized)
  else policy.aliased normalized

end Policy

/-- `path`, step by step. -/
theorem Normalizer.path_eq_ite (sha256 : List UInt8 → String) (normalizer : Normalizer)
    (raw : String) (operation : Operation) : normalizer.path sha256 raw operation =
      if raw = "" ∨ normalizer.policy.excludes (normalForm raw) operation = true then none
      else some (normalizer.policy.identifier sha256 (normalForm raw)) := by
  rw [Normalizer.path, Policy.identifier, Policy.aliased, Policy.inside, normalForm]
  generalize (components raw.toList).foldl pushComponent [] = normalized
  simp only [Policy.excludes, Bool.and_eq_true, decide_eq_true_eq, Bool.not_eq_true', and_assoc]
  by_cases hraw : raw = ""
  · rw [if_pos hraw, if_pos (.inl hraw)]
  · rw [if_neg hraw]
    simp only [hraw, false_or]
    refine if_congr Iff.rfl rfl ?_
    rw [apply_ite some]
    cases normalizer.policy.repositoryRoot with
    | none => rfl
    | some root =>
      simp only [Option.bind_some]
      cases stripPrefix normalized (components root.toList) <;> rfl

/-! ## What the first pass leaves -/

/-- `$REPO`, as a component. -/
def repo : Component := .normal "$REPO".toList

theorem isName_repo : IsName "$REPO".toList := ⟨by decide, by decide, by decide, by decide⟩

/-- A resolved path is its own normal form. -/
theorem normalForm_pathText {absolute : Bool} {names : List (List Char)}
    (h : ∀ name ∈ names, IsName name) :
    normalForm (String.ofList (pathText (rooted absolute names))) = rooted absolute names := by
  rw [normalForm, String.toList_ofList, components_pathText h, foldl_rooted]

/-- What follows the name of the repository is relative, whatever it was. -/
theorem components_repo {absolute : Bool} {names : List (List Char)}
    (h : ∀ name ∈ names, IsName name) :
    components ("$REPO/".toList ++ pathText (rooted absolute names)) =
      repo :: names.map .normal := by
  have hsplit : ("$REPO/".toList ++ pathText (rooted absolute names)).splitOn '/' =
      "$REPO".toList :: (pathText (rooted absolute names)).splitOn '/' :=
    List.splitOn_append_cons_self_of_not_mem isName_repo.slash _
  have hnames : ((pathText (rooted absolute names)).splitOn '/').filterMap Component.ofPart =
      names.map .normal := by
    have hcomponents : components (pathText (rooted absolute names)) = rooted absolute names :=
      components_pathText h
    cases absolute with
    | true =>
      rw [pathText_absolute, components] at hcomponents
      rw [pathText_absolute]
      exact (List.cons.inj hcomponents).2
    | false =>
      rw [pathText_relative, components, if_neg (head?_intercalate h)] at hcomponents
      rw [pathText_relative]
      split at hcomponents
      · -- a dot would be a component of its own
        cases names <;> cases hcomponents
      · exact hcomponents
  rw [components, hsplit, List.filterMap_cons_some (ofPart_eq_normal isName_repo), hnames]
  rfl

theorem normalForm_repo {absolute : Bool} {names : List (List Char)}
    (h : ∀ name ∈ names, IsName name) :
    normalForm ("$REPO/" ++ String.ofList (pathText (rooted absolute names))) =
      repo :: names.map .normal := by
  have hnames : ∀ name ∈ "$REPO".toList :: names, IsName name :=
    List.forall_mem_cons.mpr ⟨isName_repo, h⟩
  have htext : ("$REPO/" ++ String.ofList (pathText (rooted absolute names))).toList =
      "$REPO/".toList ++ pathText (rooted absolute names) :=
    String.toList_append.trans (congrArg _ String.toList_ofList)
  rw [normalForm, htext, components_repo h]
  exact @foldl_rooted false ("$REPO".toList :: names)

/-- The name of the repository and a path below it make a text with one slash between them, unless
there is nothing below or a root. -/
theorem text_repo_eq_iff (names : List (List Char)) (absolute : Bool) :
    pathText (repo :: names.map .normal) = "$REPO/".toList ++ pathText (rooted absolute names) ↔
      names ≠ [] ∧ absolute = false := by
  have hrepo : pathText (repo :: names.map .normal) =
      List.intercalate ['/'] ("$REPO".toList :: names) := pathText_relative ("$REPO".toList :: names)
  rw [hrepo]
  rcases eq_or_ne names [] with rfl | hne
  · refine iff_of_false (fun heq => ?_) fun hfalse => hfalse.1 rfl
    have hlength := congrArg List.length heq
    simp at hlength
  · have hcancel : List.intercalate ['/'] ("$REPO".toList :: names) =
        "$REPO/".toList ++ List.intercalate ['/'] names := by
      rw [List.intercalate_cons_of_ne_nil hne]
      rfl
    rw [hcancel, List.append_cancel_left_eq, and_iff_right hne]
    cases absolute with
    | false => exact iff_of_true (pathText_relative names).symm rfl
    | true =>
      rw [pathText_absolute]
      exact iff_of_false (List.ne_cons_self) Bool.true_eq_false.mp

/-- The text of a resolved path tells its names. -/
theorem pathText_inj {absolute absolute' : Bool} {names names' : List (List Char)}
    (h : ∀ name ∈ names, IsName name) (h' : ∀ name ∈ names', IsName name)
    (heq : pathText (rooted absolute names) = pathText (rooted absolute' names')) :
    rooted absolute names = rooted absolute' names' := by
  rw [← components_pathText h, heq, components_pathText h']

namespace Policy

variable {policy : Policy}

theorem inside_eq_some_iff {normalized relative : List Component} :
    policy.inside normalized = some relative ↔ ∃ root, policy.repositoryRoot = some root ∧
      normalized = components root.toList ++ relative := by
  rw [inside, Option.bind_eq_some_iff]
  refine exists_congr fun root => and_congr_right fun _ => ?_
  rw [stripPrefix]
  split
  · rename_i hprefix
    obtain ⟨rest, rfl⟩ := List.isPrefixOf_iff_prefix.mp hprefix
    rw [List.drop_left, Option.some.injEq, List.append_cancel_left_eq]
  · rename_i hprefix
    refine iff_of_false (fun h => by cases h) ?_
    rintro rfl
    exact hprefix (List.isPrefixOf_iff_prefix.mpr (List.prefix_append ..))

/-- What follows the repository is a normal path. -/
theorem exists_rooted_of_inside {absolute : Bool} {names : List (List Char)}
    (h : ∀ name ∈ names, IsName name) {relative : List Component}
    (hinside : policy.inside (rooted absolute names) = some relative) :
    ∃ absolute' names', (∀ name ∈ names', IsName name) ∧ relative = rooted absolute' names' ∧
      (absolute' = true → relative = rooted absolute names) := by
  obtain ⟨root, -, hroot⟩ := inside_eq_some_iff.mp hinside
  cases hcomponents : components root.toList with
  | nil =>
    rw [hcomponents, List.nil_append] at hroot
    exact ⟨absolute, names, h, hroot.symm, fun _ => hroot.symm⟩
  | cons first rest =>
    -- the first component is a part of the repository, and names are left
    rw [hcomponents, List.cons_append] at hroot
    have hsuffix : relative <:+ names.map .normal := by
      cases absolute with
      | true => exact ⟨rest, (List.cons.inj hroot).2.symm⟩
      | false => exact ⟨first :: rest, hroot.symm⟩
    have hdrop := List.suffix_iff_eq_drop.mp hsuffix
    rw [← List.map_drop] at hdrop
    exact ⟨false, _, fun name hname => h name (List.mem_of_mem_drop hname), hdrop, Bool.noConfusion⟩

/-- A repository that contains a path and leaves all of it contains every path. -/
theorem inside_eq_self {normalized : List Component}
    (h : policy.inside normalized = some normalized) (other : List Component) :
    policy.inside other = some other := by
  obtain ⟨root, hroot, heq⟩ := inside_eq_some_iff.mp h
  have hnil : components root.toList = [] := List.self_eq_append_left.mp heq
  exact inside_eq_some_iff.mpr ⟨root, hroot, by rw [hnil, List.nil_append]⟩

/-- The hash of a path, as a component. -/
def hashed (policy : Policy) (sha256 : List UInt8 → String) (normalized : List Component) :
    Component :=
  .normal ("sha256:" ++ policy.digest sha256 (policy.aliased normalized)).toList

/-- **The normal paths that are not hashed and stay as they are.** Outside of the repository they
are not empty. Inside, what is below `$REPO` is not excluded; and the repository is the very
directory `$REPO`, or that path is outside of it and the first was not its root. -/
structure PlainSettled (policy : Policy) (normalized : List Component) (operation : Operation) :
    Prop where
  outside : policy.inside normalized = none → normalized ≠ []
  below : ∀ relative, policy.inside normalized = some relative →
    policy.excludes (repo :: relative) operation = false ∧
      (policy.inside (repo :: relative) = some relative ∨
        (relative ≠ [] ∧ policy.inside (repo :: relative) = none))

theorem plainSettled_iff_of_inside {normalized relative : List Component} {operation : Operation}
    (h : policy.inside normalized = some relative) :
    policy.PlainSettled normalized operation ↔
      policy.excludes (repo :: relative) operation = false ∧
        (policy.inside (repo :: relative) = some relative ∨
          (relative ≠ [] ∧ policy.inside (repo :: relative) = none)) := by
  refine ⟨fun hsettled => hsettled.below relative h, fun hbelow => ⟨fun hnone => ?_, ?_⟩⟩
  · rw [h] at hnone
    cases hnone
  · rintro relative' hsome
    rw [h] at hsome
    obtain rfl := Option.some.inj hsome
    exact hbelow

/-- The normal paths whose hash is its own hash. -/
structure HashSettled (policy : Policy) (sha256 : List UInt8 → String) (normalized : List Component)
    (operation : Operation) : Prop where
  included : policy.excludes [policy.hashed sha256 normalized] operation = false
  fixed : policy.digest sha256 (policy.aliased [policy.hashed sha256 normalized]) =
    policy.digest sha256 (policy.aliased normalized)

/-- The normal paths that stay as they are. -/
def PathSettled (policy : Policy) (sha256 : List UInt8 → String) (normalized : List Component)
    (operation : Operation) : Prop :=
  (policy.redactPaths = false → policy.PlainSettled normalized operation) ∧
    (policy.redactPaths = true → policy.HashSettled sha256 normalized operation)

end Policy

/-! ## The second pass -/

/-- What `{:x}` writes of a digest. -/
def Hexadecimal (sha256 : List UInt8 → String) : Prop :=
  ∀ bytes, ∀ c ∈ (sha256 bytes).toList, c.isDigit = true ∨ ('a' ≤ c ∧ c ≤ 'f')

namespace Normalizer

variable {sha256 : List UInt8 → String} {normalizer : Normalizer} {operation : Operation}

/-- The second pass over an identifier, if its normal form is known. -/
theorem path_eq_some_iff {raw : String} : normalizer.path sha256 raw operation = some raw ↔
    raw ≠ "" ∧ normalizer.policy.excludes (normalForm raw) operation = false ∧
      normalizer.policy.identifier sha256 (normalForm raw) = raw := by
  rw [path_eq_ite]
  split
  · rename_i hskip
    refine iff_of_false (fun h => by cases h) ?_
    rintro ⟨hraw, hincluded, -⟩
    exact hskip.elim hraw (ne_true_of_eq_false hincluded)
  · rename_i hkeep
    rw [not_or, Bool.not_eq_true] at hkeep
    rw [Option.some.injEq, and_iff_right hkeep.1, and_iff_right hkeep.2]

section Plain

variable {absolute : Bool} {names : List (List Char)} (h : ∀ name ∈ names, IsName name)
  (hredact : normalizer.policy.redactPaths = false)
include h hredact

/-- **A path outside of the repository, once more.** -/
theorem path_again_outside
    (hincluded : normalizer.policy.excludes (rooted absolute names) operation = false)
    (hinside : normalizer.policy.inside (rooted absolute names) = none) :
    normalizer.path sha256 (String.ofList (pathText (rooted absolute names))) operation =
        some (String.ofList (pathText (rooted absolute names))) ↔ rooted absolute names ≠ [] := by
  have haliased : normalizer.policy.aliased (rooted absolute names) =
      String.ofList (pathText (rooted absolute names)) := by
    rw [Policy.aliased, hinside, Option.elim_none]
  rw [path_eq_some_iff, normalForm_pathText h, Policy.identifier, hredact,
    if_neg Bool.false_ne_true, and_iff_right hincluded, haliased]
  refine (and_iff_left rfl).trans (not_congr ⟨fun hempty => ?_, fun hnil => ?_⟩)
  · rw [← normalForm_pathText h, hempty]
    rfl
  · rw [hnil]
    rfl

/-- **A path in the repository, once more.** -/
theorem path_again_inside :
    normalizer.path sha256 ("$REPO/" ++ String.ofList (pathText (rooted absolute names)))
          operation =
        some ("$REPO/" ++ String.ofList (pathText (rooted absolute names))) ↔
      normalizer.policy.excludes (repo :: names.map .normal) operation = false ∧
        (normalizer.policy.inside (repo :: names.map .normal) = some (rooted absolute names) ∨
          (names ≠ [] ∧ absolute = false ∧
            normalizer.policy.inside (repo :: names.map .normal) = none)) := by
  have hne : "$REPO/" ++ String.ofList (pathText (rooted absolute names)) ≠ "" := by
    intro heq
    have htext := congrArg String.toList heq
    rw [String.toList_append] at htext
    cases htext
  have hnames : ∀ name ∈ "$REPO".toList :: names, IsName name :=
    List.forall_mem_cons.mpr ⟨isName_repo, h⟩
  rw [path_eq_some_iff, normalForm_repo h, Policy.identifier, hredact,
    if_neg Bool.false_ne_true, and_iff_right hne]
  refine and_congr_right fun _ => ?_
  cases hinside : normalizer.policy.inside (repo :: names.map .normal) with
  | some again =>
    obtain ⟨absolute', names', hnames', rfl, -⟩ :=
      @Policy.exists_rooted_of_inside _ false _ hnames _ hinside
    rw [Policy.aliased, hinside, Option.elim_some, String.append_right_inj, Option.some.injEq,
      or_iff_left (fun hfalse => by cases hfalse.2.2)]
    refine ⟨fun heq => pathText_inj hnames' h (String.ofList_injective heq), fun heq => by rw [heq]⟩
  | none =>
    rw [Policy.aliased, hinside, Option.elim_none, or_iff_right (fun hfalse => by cases hfalse),
      and_iff_left rfl, ← text_repo_eq_iff names absolute]
    refine ⟨fun heq => ?_, fun heq => ?_⟩
    · have htext := congrArg String.toList heq
      rw [String.toList_append] at htext
      exact (String.toList_ofList.symm.trans htext).trans (congrArg _ String.toList_ofList)
    · refine String.toList_injective ?_
      rw [String.toList_append]
      exact (String.toList_ofList.trans heq).trans (congrArg _ String.toList_ofList.symm)

end Plain

/-- **A hash, once more.** -/
theorem path_again_hash (hhex : Hexadecimal sha256) (hredact : normalizer.policy.redactPaths = true)
    (normalized : List Component) :
    normalizer.path sha256
          ("sha256:" ++ normalizer.policy.digest sha256 (normalizer.policy.aliased normalized))
          operation =
        some ("sha256:" ++ normalizer.policy.digest sha256 (normalizer.policy.aliased normalized)) ↔
      normalizer.policy.HashSettled sha256 normalized operation := by
  generalize htext : "sha256:" ++
    normalizer.policy.digest sha256 (normalizer.policy.aliased normalized) = text
  have hlist : text.toList = "sha256:".toList ++
      (normalizer.policy.digest sha256 (normalizer.policy.aliased normalized)).toList := by
    rw [← htext, String.toList_append]
  -- no character of a digest is a slash
  have hslash : '/' ∉ text.toList := by
    rw [hlist, List.mem_append, not_or]
    refine ⟨by decide, fun hmem => ?_⟩
    rcases hhex _ _ hmem with hdigit | hletter
    · revert hdigit
      decide
    · revert hletter
      decide
  have hname : IsName text.toList := by
    rw [hlist] at hslash ⊢
    exact ⟨List.append_ne_nil_of_left_ne_nil (by decide) _, by simp, by simp, hslash⟩
  have hnormal : normalForm text = [.normal text.toList] := by
    have hpath := @normalForm_pathText false _ (List.forall_mem_singleton.mpr hname)
    rwa [pathText_relative, List.intercalate_singleton, String.ofList_toList] at hpath
  have hhashed : normalizer.policy.hashed sha256 normalized = .normal text.toList := by
    rw [Policy.hashed, htext]
  have hne : text ≠ "" := by
    rintro rfl
    exact hname.ne_nil rfl
  rw [path_eq_some_iff, and_iff_right hne, hnormal, ← hhashed, Policy.identifier, if_pos hredact,
    ← htext, String.append_right_inj]
  exact ⟨fun h => ⟨h.1, h.2⟩, fun h => ⟨h.1, h.2⟩⟩

/-- A path without redaction, once more. -/
theorem path_again_plain (hredact : normalizer.policy.redactPaths = false) {raw : String}
    (hkeep : normalizer.policy.excludes (normalForm raw) operation = false) :
    normalizer.path sha256 (normalizer.policy.aliased (normalForm raw)) operation =
        some (normalizer.policy.aliased (normalForm raw)) ↔
      normalizer.policy.PlainSettled (normalForm raw) operation := by
  obtain ⟨names, hnames, hnormal⟩ := normalForm_eq raw
  generalize decide (raw.toList.head? = some '/') = absolute at hnormal
  rw [hnormal] at hkeep ⊢
  cases hinside : normalizer.policy.inside (rooted absolute names) with
  | none =>
    rw [Policy.aliased, hinside, Option.elim_none,
      path_again_outside hnames hredact hkeep hinside]
    refine ⟨fun hne => ⟨fun _ => hne, fun relative hsome => ?_⟩, fun hsettled => ?_⟩
    · rw [hinside] at hsome
      cases hsome
    · exact hsettled.outside hinside
  | some relative =>
    obtain ⟨absolute', names', hnames', hrelative, hwhole⟩ :=
      Policy.exists_rooted_of_inside hnames hinside
    rw [Policy.aliased, hinside, Option.elim_some, Policy.plainSettled_iff_of_inside hinside,
      hrelative, path_again_inside hnames' hredact]
    cases absolute' with
    | false =>
      rw [and_iff_right rfl]
      exact and_congr_right fun _ => or_congr_right (and_congr_left' (by simp [rooted]))
    | true =>
      -- the repository has no component, so every path is inside of it
      have hall := Policy.inside_eq_self (hinside.trans (congrArg some (hwhole rfl)))
      rw [hall, hall]
      refine iff_of_false (fun hfalse => ?_) fun hfalse => ?_
      · rcases hfalse.2 with heq | ⟨-, hfalse, -⟩
        · cases heq
        · cases hfalse
      · rcases hfalse.2 with heq | ⟨-, heq⟩
        · exact absurd (Option.some.inj heq) (List.cons_ne_self _ _)
        · cases heq

/-- **A path, once more.** -/
theorem path_again_iff (hhex : Hexadecimal sha256) {raw value : String}
    (h : normalizer.path sha256 raw operation = some value) :
    normalizer.path sha256 value operation = some value ↔
      normalizer.policy.PathSettled sha256 (normalForm raw) operation := by
  rw [path_eq_ite] at h
  split at h
  · cases h
  · rename_i hkeep
    rw [not_or, Bool.not_eq_true] at hkeep
    obtain rfl := Option.some.inj h
    rw [Policy.identifier, Policy.PathSettled]
    cases hredact : normalizer.policy.redactPaths with
    | true =>
      rw [if_pos rfl, and_iff_right (fun hfalse => by cases hfalse), forall_prop_of_true rfl]
      exact path_again_hash hhex hredact _
    | false =>
      rw [if_neg Bool.false_ne_true, and_iff_left (fun hfalse => by cases hfalse),
        forall_prop_of_true rfl]
      exact path_again_plain hredact hkeep.2

end Normalizer

/-! ## Events -/

/-- The resources whose identifier is a path. -/
def ResourceType.isPath (kind : ResourceType) : Bool :=
  kind ∈ [ResourceType.file, .directory, .unixSocket, .fileLock, .databaseResource]

namespace Normalizer

variable {sha256 : List UInt8 → String} {normalizer : Normalizer} {event event' : NormalizedEvent}

theorem normalize_of_isPath (h : event.resourceType.isPath = true) :
    normalizer.normalize sha256 event =
      (normalizer.path sha256 event.resourceIdentifier event.operation).map fun value =>
        { event with resourceIdentifier := value } := by
  rw [normalize]
  cases hkind : event.resourceType <;> first | rfl | (rw [hkind] at h; cases h)

/-- Endpoints, Redis keys and the rest are fixed. -/
theorem normalize_again_of_not_isPath (hkind : event.resourceType.isPath = false)
    (h : normalizer.normalize sha256 event = some event') :
    normalizer.normalize sha256 event' = some event' := by
  have hupper : ∀ l : List Char, (l.map Char.toUpper).map Char.toUpper = l.map Char.toUpper := by
    intro l
    rw [List.map_map]
    exact List.map_congr_left fun c _ => Char.toUpper_toUpper_eq_toUpper c
  have hredis : "REDIS:".toList.isPrefixOf ("REDIS:" ++ event.resourceIdentifier).toList = true := by
    rw [String.toList_append]
    exact List.isPrefixOf_iff_prefix.mpr (List.prefix_append ..)
  rw [normalize] at h
  cases hcase : event.resourceType with
  | file | directory | unixSocket | fileLock | databaseResource =>
    rw [hcase] at hkind
    cases hkind
  | tcpEndpoint | udpEndpoint =>
    rw [hcase] at h
    obtain rfl := Option.some.inj h
    simp only [normalize, String.toList_ofList, hupper]
  | redisKey =>
    rw [hcase] at h
    dsimp only at h
    split at h
    · rename_i hprefix
      obtain rfl := Option.some.inj h
      simp only [normalize, hcase, hprefix, if_true]
    · obtain rfl := Option.some.inj h
      simp only [normalize, hredis, if_true]
  | process | otherLogicalResource =>
    rw [hcase] at h
    obtain rfl := Option.some.inj h
    simp only [normalize, hcase]

/-- The first pass leaves an event that the second pass does not change. -/
def Settled (normalizer : Normalizer) (sha256 : List UInt8 → String) (event : NormalizedEvent) :
    Prop :=
  event.resourceType.isPath = true →
    normalizer.policy.PathSettled sha256 (normalForm event.resourceIdentifier) event.operation

/-- **Replaying the tracer's own output** is a no-op exactly for the events that are settled. -/
theorem normalize_again_iff (hhex : Hexadecimal sha256)
    (h : normalizer.normalize sha256 event = some event') :
    normalizer.normalize sha256 event' = some event' ↔ normalizer.Settled sha256 event := by
  cases hkind : event.resourceType.isPath with
  | false =>
    refine iff_of_true (normalize_again_of_not_isPath hkind h) fun hpath => ?_
    rw [hkind] at hpath
    cases hpath
  | true =>
    rw [normalize_of_isPath hkind] at h
    obtain ⟨value, hvalue, rfl⟩ := Option.map_eq_some_iff.mp h
    have hkind' : ({ event with resourceIdentifier := value } : NormalizedEvent).resourceType.isPath =
      true := hkind
    rw [normalize_of_isPath hkind', Settled, forall_prop_of_true hkind,
      ← path_again_iff hhex hvalue, Option.map_eq_some_iff]
    refine ⟨?_, fun hagain => ⟨value, hagain, rfl⟩⟩
    rintro ⟨value', hvalue', heq⟩
    have hsame : value' = value := congrArg NormalizedEvent.resourceIdentifier heq
    rw [← hsame]
    rwa [← hsame] at hvalue'

/-- The normaliser of a repository. -/
def ofRepository : Normalizer := ⟨{ repositoryRoot := some "/repo" }, rfl⟩

/-- A test creates something. -/
def creates (resourceType : ResourceType) (identifier : String) : NormalizedEvent where
  executionID := "e"
  testID := "t"
  timestampNS := 1
  pid := 1
  tid := 1
  cgroupID := 1
  resourceType := resourceType
  resourceIdentifier := identifier
  operation := .create
  accessMode := .write
  source := "EBPF"
  metadata := []
  sequence := 1

/-- A digest of zeros. -/
def zeros (_ : List UInt8) : String := String.ofList (List.replicate 64 '0')

theorem hexadecimal_zeros : Hexadecimal zeros := by
  intro bytes c hc
  obtain rfl : c = '0' := List.eq_of_mem_replicate (String.toList_ofList ▸ hc)
  exact .inl (by decide)

theorem normalize_again_iff_below :
    ofRepository.normalize zeros (creates .file "$REPO/a.db") =
        some (creates .file "$REPO/a.db") ↔
      ofRepository.Settled zeros (creates .file "/repo/./a.db") :=
  normalize_again_iff hexadecimal_zeros
    (show ofRepository.normalize zeros (creates .file "/repo/./a.db") =
      some (creates .file "$REPO/a.db") by decide +kernel)

/-- The directory of the repository has another identifier when it is replayed. -/
theorem not_normalize_again_repository :
    ofRepository.normalize zeros (creates .directory "/repo") =
        some (creates .directory "$REPO/") ∧
      ofRepository.normalize zeros (creates .directory "$REPO/") =
        some (creates .directory "$REPO") := by
  decide +kernel

end Normalizer

end ConflictGraph.Rust
