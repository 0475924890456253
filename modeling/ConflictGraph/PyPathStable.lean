import ConflictGraph.PyNormalize
import ConflictGraph.PyPath

/-!
# Paths that are normalised twice

`_path` of what `_path` returned. Its steps are stable one by one, but undo each other: a path
that is relative to the repository is made absolute again, a path that ends in white space is
stripped, a hash is hashed, and the path with its containers renamed can fall under another
prefix. `PathStable` says of the first input when none of this happens.
-/

namespace ConflictGraph.Py

/-! ## White space at the end -/

namespace Str

/-- The last character is white space. -/
def endsInSpace (s : Str) : Bool := s.getLast?.any isSpace

theorem strip_of_head {s : Str} (h : s.head?.any isSpace = false) :
    strip s = s.rdropWhile isSpace := by
  rw [strip]
  rcases s with _ | ⟨c, s⟩
  · rfl
  · have hc : ¬ isSpace c = true := Bool.eq_false_iff.mp h
    rw [List.dropWhile_cons_of_neg hc]

/-- Stripping does nothing to a text without white space at its ends. -/
theorem strip_eq_self {s : Str} (hhead : s.head?.any isSpace = false)
    (hlast : s.endsInSpace = false) : strip s = s := by
  rw [strip_of_head hhead, List.rdropWhile_eq_self_iff]
  intro hne htrue
  rw [endsInSpace, List.getLast?_eq_some_getLast hne, Option.any_some, htrue] at hlast
  cases hlast

/-- What is stripped does not end in white space. -/
theorem endsInSpace_strip (s : Str) : (strip s).endsInSpace = false := by
  rw [endsInSpace, Option.any_eq_false]
  intro c hc
  have hne : (s.dropWhile isSpace).rdropWhile isSpace ≠ [] := by
    intro hnil
    rw [strip, hnil] at hc
    cases hc
  have hlast := List.rdropWhile_last_not isSpace (s.dropWhile isSpace) hne
  rw [strip, List.getLast?_eq_some_getLast hne] at hc
  rw [← Option.some.inj hc]
  exact Bool.eq_false_of_not_eq_true hlast

theorem head?_strip (s : Str) : (strip s).head?.any isSpace = false := by
  cases h : strip s with
  | nil => rfl
  | cons c rest => exact isSpace_of_strip_eq_cons h

@[simp] theorem strip_strip (s : Str) : strip (strip s) = strip s :=
  strip_eq_self (head?_strip s) (endsInSpace_strip s)

/-- What stripping removes of a text that does not start with white space. -/
theorem exists_strip_append {s : Str} (h : s.head?.any isSpace = false) :
    ∃ after, s = strip s ++ after ∧ ∀ c ∈ after, isSpace c = true := by
  rw [strip_of_head h]
  refine ⟨s.rtakeWhile isSpace, (List.rdropWhile_append_rtakeWhile ..).symm, fun c hc => ?_⟩
  exact List.mem_rtakeWhile_imp hc

/-- The first character stays. -/
theorem head?_strip_eq {s : Str} {c : ℕ} (hs : s.head? = some c) (hc : isSpace c = false) :
    (strip s).head? = some c := by
  have hhead : s.head?.any isSpace = false := by rwa [hs, Option.any_some]
  obtain ⟨after, heq, hafter⟩ := exists_strip_append hhead
  cases hstrip : strip s with
  | nil =>
    rw [hstrip, List.nil_append] at heq
    rw [heq] at hs
    rw [hafter c (List.mem_of_mem_head? hs)] at hc
    cases hc
  | cons d rest =>
    rw [heq, hstrip] at hs
    exact hs

/-- Stripping white space at the end makes a text shorter. -/
theorem length_strip_lt {s : Str} (hhead : s.head?.any isSpace = false)
    (hlast : s.endsInSpace = true) : (strip s).length < s.length := by
  obtain ⟨after, heq, -⟩ := exists_strip_append hhead
  rcases after with _ | ⟨c, after⟩
  · rw [List.append_nil] at heq
    rw [heq, endsInSpace_strip] at hlast
    cases hlast
  · have hlength := congrArg List.length heq
    rw [List.length_append, List.length_cons] at hlength
    omega

theorem replaceChar_eq_self {s : Str} {a : ℕ} (h : a ∉ s) (b : ℕ) : s.replaceChar a b = s := by
  rw [replaceChar]
  refine (List.map_congr_left fun c hc => ?_).trans (List.map_id s)
  exact if_neg fun (heq : c = a) => h (heq ▸ hc)

theorem not_mem_replaceChar {s : Str} {a b : ℕ} (hne : b ≠ a) : a ∉ s.replaceChar a b := by
  rw [replaceChar, List.mem_map]
  rintro ⟨c, -, hc⟩
  split at hc
  · exact hne hc
  · rename_i h
    exact h hc

end Str

open Str

/-! ## Renaming -/

section Rename

variable (interpreter : Interpreter)

/-- A container of a test run is renamed. -/
def renameSegment (part : Str) : Str :=
  if isEphemeral interpreter part then str "$RUN_TMP" else part

variable {interpreter}

/-- The names of containers are at least as long as what replaces them. -/
theorem length_of_isEphemeral {part : Str} (h : isEphemeral interpreter part = true) :
    8 ≤ part.length := by
  have hbody : ∀ rest : Str,
      (if rest.getLast? = some 10 then rest.dropLast else rest).length ≤ rest.length := by
    intro rest
    split
    · rw [List.length_dropLast]
      exact Nat.sub_le ..
    · exact Nat.le_refl _
  rw [isEphemeral, Bool.or_eq_true, Bool.or_eq_true] at h
  rcases h with (h | h) | h <;> split at h
  · rename_i rest hrest
    obtain ⟨front, rfl, hfront⟩ := List.dropPrefix?_eq_some_iff.mp hrest
    obtain rfl := eq_of_beq hfront
    rw [List.length_append]
    exact Nat.le_add_right_of_le (by decide)
  · cases h
  · rename_i rest hrest
    obtain ⟨front, rfl, hfront⟩ := List.dropPrefix?_eq_some_iff.mp hrest
    obtain rfl := eq_of_beq hfront
    rw [Bool.and_eq_true, decide_eq_true_eq, ne_eq, ← List.length_eq_zero_iff] at h
    dsimp only at h
    have hle := hbody rest
    rw [List.length_append]
    have hfront : (str "pytest-").length = 7 := rfl
    omega
  · cases h
  · rename_i rest hrest
    obtain ⟨front, rfl, hfront⟩ := List.dropPrefix?_eq_some_iff.mp hrest
    obtain rfl := eq_of_beq hfront
    rw [Bool.and_eq_true, decide_eq_true_eq] at h
    dsimp only at h
    have hle := hbody rest
    rw [List.length_append]
    have hfront : (str "tmp").length = 3 := rfl
    omega
  · cases h

/-- No segment gets longer by its new name. -/
theorem length_renameSegment_le (part : Str) :
    (renameSegment interpreter part).length ≤ part.length := by
  rw [renameSegment]
  split
  · rename_i h
    exact length_of_isEphemeral h
  · exact Nat.le_refl _

@[simp] theorem renameSegment_renameSegment (part : Str) :
    renameSegment interpreter (renameSegment interpreter part) = renameSegment interpreter part := by
  by_cases h : isEphemeral interpreter part = true
  · rw [renameSegment, renameSegment, if_pos h]
    rfl
  · rw [renameSegment, renameSegment, if_neg h, if_neg h]

theorem isSegment_runTmp : IsSegment (str "$RUN_TMP") := ⟨by decide, by decide, by decide, by decide⟩

theorem isSegment_repo : IsSegment (str "$REPO") := ⟨by decide, by decide, by decide, by decide⟩

theorem renameSegment_repo : renameSegment interpreter (str "$REPO") = str "$REPO" := rfl

/-- A renamed segment is one again. -/
theorem isSegment_renameSegment {part : Str} (h : IsSegment part) :
    IsSegment (renameSegment interpreter part) := by
  rw [renameSegment]
  split
  · exact isSegment_runTmp
  · exact h

theorem span_map_renameSegment_le (comps : List Str) :
    span (comps.map (renameSegment interpreter)) ≤ span comps := by
  induction comps with
  | nil => exact Nat.le_refl _
  | cons comp rest ih =>
    have := @length_renameSegment_le interpreter comp
    rw [List.map_cons, span_cons, span_cons]
    omega

/-- The renamed parts of a normal path. -/
theorem isNormal_map_rename {root : Str} {comps : List Str} (h : IsNormal root comps) :
    IsNormal root (comps.map (renameSegment interpreter)) :=
  ⟨h.root, List.forall_mem_map.mpr fun comp hcomp =>
    isSegment_renameSegment (h.segments comp hcomp)⟩

end Rename

namespace NormalizationPolicy

variable {policy : NormalizationPolicy} {interpreter : Interpreter}

/-- On a normal path `canonical` renames the segments and does nothing else. -/
theorem canonical_normal {root : Str} {comps : List Str} (h : IsNormal root comps) :
    canonical interpreter (root ++ joinSlash comps) =
      root ++ joinSlash (comps.map (renameSegment interpreter)) := by
  have hroot : renameSegment interpreter root = root := by
    rcases h.root with rfl | rfl <;> rfl
  change joinParts ((pathParts _).map (renameSegment interpreter)) = _
  rw [pathParts_normal h, List.map_cons, hroot, joinParts_normal (isNormal_map_rename h)]

/-- So it makes no normal path longer. -/
theorem length_canonical_normal_le {root : Str} {comps : List Str} (h : IsNormal root comps) :
    (canonical interpreter (root ++ joinSlash comps)).length ≤
      (root ++ joinSlash comps).length := by
  rw [canonical_normal h, List.length_append, List.length_append]
  refine Nat.add_le_add_left ?_ _
  rcases eq_or_ne comps [] with rfl | hne
  · exact Nat.le_refl _
  · have hspan := @span_map_renameSegment_le interpreter comps
    have hlength := length_joinSlash hne
    have hlength' := @length_joinSlash (comps.map (renameSegment interpreter))
      (fun hnil => hne (List.map_eq_nil_iff.mp hnil))
    omega

/-- The components of what follows the repository. -/
def below (rest : Str) : List Str :=
  (rest.splitOn 47).filter fun comp => comp ≠ [] ∧ comp ≠ str "."

/-- Below `$REPO` it renames the segments, too. -/
theorem canonical_repo {rest : Str} (h : rest = [] ∨ rest.head? = some 47) :
    canonical interpreter (str "$REPO" ++ rest) =
      joinSlash (str "$REPO" :: (below rest).map (renameSegment interpreter)) := by
  change joinParts ((pathParts _).map (renameSegment interpreter)) = _
  rw [pathParts_relative isSegment_repo h, List.map_cons, renameSegment_repo,
    joinParts_relative isSegment_repo]
  rfl

theorem span_below_le {rest : Str} (h : rest = [] ∨ rest.head? = some 47) :
    span (below rest) ≤ rest.length := by
  rcases h with rfl | h
  · exact Nat.le_refl 0
  · obtain ⟨rest, rfl⟩ : ∃ rest', rest = 47 :: rest' := by
      rcases rest with _ | ⟨d, rest⟩
      · cases h
      · exact ⟨rest, by rw [Option.some.inj h]⟩
    have hbelow : below (47 :: rest) = below rest := by
      rw [below, below, List.splitOn_cons_eq_if_modifyHead, if_pos (beq_self_eq_true 47)]
      rfl
    rw [hbelow, List.length_cons, ← span_splitOn]
    exact span_sublist List.filter_sublist

/-- And makes nothing longer there. -/
theorem length_canonical_repo_le {rest : Str} (h : rest = [] ∨ rest.head? = some 47) :
    (canonical interpreter (str "$REPO" ++ rest)).length ≤ 5 + rest.length := by
  have hlength := @length_joinSlash
    (str "$REPO" :: (below rest).map (renameSegment interpreter)) (List.cons_ne_nil _ _)
  have hspan := (@span_map_renameSegment_le interpreter (below rest)).trans
    (span_below_le h)
  rw [canonical_repo h]
  rw [span_cons, show (str "$REPO").length = 5 from rfl] at hlength
  omega

theorem head?_canonical_repo {rest : Str} (h : rest = [] ∨ rest.head? = some 47) :
    (canonical interpreter (str "$REPO" ++ rest)).head? = some 36 := by
  rw [canonical_repo h]
  rcases eq_or_ne ((below rest).map (renameSegment interpreter)) [] with hnil | hne
  · rw [hnil, joinSlash_singleton]
    rfl
  · rw [joinSlash_cons hne]
    rfl

/-! ## The repository -/

/-- The directory of the repository, if there is one. -/
def directory (policy : NormalizationPolicy) : Option Str :=
  policy.repositoryRoot.bind fun root =>
    if root = [] then none else some (normpath (root.replaceChar 92 47))

/-- The path is in the repository. -/
def inRepository (policy : NormalizationPolicy) (value : Str) : Bool :=
  policy.directory.any fun directory => within value directory

/-- A value is within a directory if it is the directory, or goes on with a slash. -/
theorem within_iff {value directory : Str} :
    within value directory = true ↔
      ∃ rest, value = directory ++ rest ∧ (rest = [] ∨ rest.head? = some 47) := by
  rw [within, Bool.or_eq_true, decide_eq_true_eq]
  refine ⟨?_, ?_⟩
  · rintro (rfl | hprefix)
    · exact ⟨[], (List.append_nil _).symm, .inl rfl⟩
    · obtain ⟨after, rfl⟩ := List.isPrefixOf_iff_prefix.mp hprefix
      exact ⟨47 :: after, List.append_assoc .., .inr rfl⟩
  · rintro ⟨rest, rfl, rfl | hhead⟩
    · exact .inl (List.append_nil _)
    · rcases rest with _ | ⟨c, rest⟩
      · cases hhead
      · rw [Option.some.inj hhead]
        exact .inr (List.isPrefixOf_iff_prefix.mpr ⟨rest, List.append_assoc ..⟩)

theorem normpath_ne_nil (path : Str) : normpath path ≠ [] := by
  rw [normpath]
  split
  · exact List.cons_ne_nil _ _
  · dsimp only
    split
    · exact List.cons_ne_nil _ _
    · assumption

theorem directory_ne_nil {directory : Str} (h : policy.directory = some directory) :
    directory ≠ [] := by
  obtain ⟨root, -, hroot⟩ := Option.bind_eq_some_iff.mp h
  split at hroot
  · cases hroot
  · rw [← Option.some.inj hroot]
    exact normpath_ne_nil _

/-- A path outside of the repository stays as it is. -/
theorem relative_of_not_inRepository {value : Str} (h : policy.inRepository value = false) :
    policy.relative value = value := by
  rw [inRepository, directory] at h
  rw [relative]
  cases hroot : policy.repositoryRoot with
  | none => rfl
  | some root =>
    rw [hroot] at h
    by_cases hnil : root = []
    · simp [hnil]
    · simp only [Option.bind_some, if_neg hnil, Option.any_some] at h
      simp [h]

/-- A path in the repository is what `$REPO` stands for, and the rest. -/
theorem exists_relative {value : Str} (h : policy.inRepository value = true) :
    ∃ directory rest, policy.directory = some directory ∧ value = directory ++ rest ∧
      (rest = [] ∨ rest.head? = some 47) ∧ policy.relative value = str "$REPO" ++ rest := by
  rw [inRepository, Option.any_eq_true] at h
  obtain ⟨directory, hdirectory, hwithin⟩ := h
  obtain ⟨rest, hvalue, hrest⟩ := within_iff.mp hwithin
  refine ⟨directory, rest, hdirectory, hvalue, hrest, ?_⟩
  obtain ⟨root, hroot, hsome⟩ := Option.bind_eq_some_iff.mp hdirectory
  split at hsome
  · cases hsome
  · rename_i hne
    obtain rfl := Option.some.inj hsome
    rw [relative, hroot]
    simp only [hne, hwithin, decide_true, ne_eq, not_false_eq_true, Bool.and_self, if_true]
    rw [hvalue, List.drop_left]

/-- A directory that what starts with `/$REPO` is inside of starts so itself. -/
theorem prefix_of_inside {directory rest tail : Str} (hne : directory ≠ [])
    (heq : directory ++ rest = str "/$REPO" ++ tail) (hrest : rest = [] ∨ rest.head? = some 47) :
    str "/$REPO" <+: directory := by
  rcases List.append_eq_append_iff.mp heq with ⟨between, hbetween, hrest'⟩ | ⟨between, rfl, -⟩
  · rcases between with _ | ⟨c, between⟩
    · exact ⟨[], hbetween.trans (List.append_nil _) |>.symm ▸ List.append_nil _⟩
    · -- the slash after the directory would stand within the name
      rw [hrest'] at hrest
      have hc : c = 47 := by
        rcases hrest with hnil | hhead
        · cases hnil
        · exact Option.some.inj hhead
      obtain ⟨first, directory, rfl⟩ := List.exists_cons_of_ne_nil hne
      have hname : (str "$REPO") = directory ++ c :: between := (List.cons.inj hbetween).2
      have hmem : 47 ∈ str "$REPO" := by
        rw [hname, hc]
        exact List.mem_append_right _ List.mem_cons_self
      exact absurd hmem (by decide)
  · exact List.prefix_append ..

/-! ## A path that was normalised -/

/-- What is left of a text is as it was: `_path` on a text that needs no stripping. -/
theorem path_of_stripped {c : Str} {operation : Operation} (hredact : policy.redactPaths = false)
    (hstrip : c.strip.replaceChar 92 47 = c) (hskip : c.head? = some 47 ∨ c.head? = some 36) :
    policy.path interpreter c operation =
      if policy.excludes (absolute c) operation then .ok none
      else .ok (some (canonical interpreter (policy.relative (absolute c)))) := by
  have hne : ¬ (c = [] ∨ c = str "(null)" ∨ c = str "<unknown>") := by
    rintro (rfl | rfl | rfl) <;> rcases hskip with h | h <;> cases h
  rw [path]
  simp only [hstrip, if_neg hne, redact, hredact]
  split <;> rfl

/-- `_path` on a text that is stripped first returns what a path that is not longer does. -/
theorem path_of_space {c v : Str} {operation : Operation} (hredact : policy.redactPaths = false)
    (h : policy.path interpreter c operation = .ok (some v)) :
    v = canonical interpreter (policy.relative (absolute (c.strip.replaceChar 92 47))) := by
  rw [path] at h
  split at h
  · cases h
  · split at h
    · cases h
    · rw [redact, hredact] at h
      exact (Option.some.inj (Except.ok.inj h)).symm

section Outside

variable {root : Str} {comps : List Str} (h : IsNormal root comps)
  (hrenamed : comps.map (renameSegment interpreter) = comps)
  (hback : 92 ∉ root ++ joinSlash comps) (hredact : policy.redactPaths = false)
  {operation : Operation}

include h in
theorem head?_normal : (root ++ joinSlash comps).head? = some 47 := by
  rcases h.root with rfl | rfl <;> rfl

include h in
/-- A normal path is absolute already. -/
theorem absolute_normal : absolute (root ++ joinSlash comps) = root ++ joinSlash comps := by
  have hstart : (root ++ joinSlash comps).startsWith (str "/") = true := by
    rcases h.root with rfl | rfl <;> rfl
  rw [absolute, if_pos hstart, normpath_normal h]

include h hback hredact in
/-- Stripped, a path outside of the repository is never what it was. -/
theorem path_again_outside_space (hlast : (root ++ joinSlash comps).endsInSpace = true) :
    policy.path interpreter (root ++ joinSlash comps) operation ≠
      .ok (some (root ++ joinSlash comps)) := by
  intro heq
  have hhead := head?_normal h
  have hspace : (root ++ joinSlash comps).head?.any isSpace = false := by
    rw [hhead]
    rfl
  -- the second path is at most as long as what stripping leaves
  have hv := path_of_space hredact heq
  have hshort := length_strip_lt hspace hlast
  have hstart := head?_strip_eq hhead rfl
  obtain ⟨after, happend, -⟩ := exists_strip_append hspace
  have hback' : 92 ∉ (root ++ joinSlash comps).strip := fun hmem =>
    hback (happend ▸ List.mem_append_left after hmem)
  obtain ⟨comps', hnormal, hnormpath, -, hlength⟩ := exists_normal hstart
  have habsolute : absolute (root ++ joinSlash comps).strip =
      normpath (root ++ joinSlash comps).strip := by
    obtain ⟨rest, hrest⟩ := List.head?_eq_some_iff.mp hstart
    rw [absolute, if_pos (by rw [hrest]; rfl)]
  rw [replaceChar_eq_self hback', habsolute, hnormpath] at hv
  rw [hnormpath] at hlength
  cases hinside : policy.inRepository
      (rootOf (root ++ joinSlash comps).strip ++ joinSlash comps') with
  | false =>
    rw [relative_of_not_inRepository hinside] at hv
    have hle := @length_canonical_normal_le interpreter _ _ hnormal
    rw [← hv] at hle
    omega
  | true =>
    obtain ⟨directory, rest, -, -, hrest, hrelative⟩ := exists_relative hinside
    have hdollar := @head?_canonical_repo interpreter rest hrest
    rw [← hrelative, ← hv, hhead] at hdollar
    cases hdollar

include h hrenamed hback hredact in
/-- **A path outside of the repository, once more**: it is the same exactly if it does not end
in white space, is not excluded, and is not in the repository by now. -/
theorem path_again_outside :
    policy.path interpreter (root ++ joinSlash comps) operation =
        .ok (some (root ++ joinSlash comps)) ↔
      (root ++ joinSlash comps).endsInSpace = false ∧
        policy.excludes (root ++ joinSlash comps) operation = false ∧
        policy.inRepository (root ++ joinSlash comps) = false := by
  have hhead := head?_normal h
  have hspace : (root ++ joinSlash comps).head?.any isSpace = false := by
    rw [hhead]
    rfl
  cases hlast : (root ++ joinSlash comps).endsInSpace with
  | false =>
    have hstrip : (root ++ joinSlash comps).strip.replaceChar 92 47 = root ++ joinSlash comps := by
      rw [strip_eq_self hspace hlast, replaceChar_eq_self hback]
    rw [path_of_stripped hredact hstrip (.inl hhead), absolute_normal h, and_iff_right rfl]
    cases hexcluded : policy.excludes (root ++ joinSlash comps) operation with
    | true => exact iff_of_false (by simp) (by simp)
    | false =>
      rw [if_neg Bool.false_ne_true, and_iff_right rfl]
      cases hinside : policy.inRepository (root ++ joinSlash comps) with
      | false =>
        rw [relative_of_not_inRepository hinside, canonical_normal h, hrenamed]
        exact iff_of_true rfl rfl
      | true =>
        obtain ⟨directory, rest, -, -, hrest, hrelative⟩ := exists_relative hinside
        refine iff_of_false (fun heq => ?_) Bool.true_eq_false.mp
        have hdollar := @head?_canonical_repo interpreter rest hrest
        rw [← hrelative, Option.some.inj (Except.ok.inj heq), hhead] at hdollar
        cases hdollar
  | true =>
    exact iff_of_false (path_again_outside_space h hback hredact hlast)
      fun hfalse => Bool.noConfusion hfalse.1

end Outside

section Inside

variable {comps : List Str} (h : ∀ comp ∈ comps, IsSegment comp)
  (hrenamed : comps.map (renameSegment interpreter) = comps)
  (hback : 92 ∉ joinSlash (str "$REPO" :: comps)) (hredact : policy.redactPaths = false)
  {operation : Operation}

/-- What is below `$REPO` begins with it. -/
theorem exists_repo_append (comps : List Str) : ∃ tail,
    joinSlash (str "$REPO" :: comps) = str "$REPO" ++ tail ∧
      (tail = [] ∨ tail.head? = some 47) := by
  rcases eq_or_ne comps [] with rfl | hne
  · exact ⟨[], rfl, .inl rfl⟩
  · exact ⟨47 :: joinSlash comps, joinSlash_cons hne, .inr rfl⟩

include h in
theorem isNormal_repo : IsNormal (str "/") (str "$REPO" :: comps) :=
  ⟨.inl rfl, List.forall_mem_cons.mpr ⟨isSegment_repo, h⟩⟩

include h in
/-- Made absolute, it is a path below the root. -/
theorem absolute_repo :
    absolute (joinSlash (str "$REPO" :: comps)) = 47 :: joinSlash (str "$REPO" :: comps) := by
  obtain ⟨tail, htail, -⟩ := exists_repo_append comps
  rw [absolute, if_neg (by rw [htail]; exact Bool.false_ne_true)]
  exact normpath_normal (isNormal_repo h)

include h hrenamed in
/-- The parts of a path in the repository are what they were. -/
theorem canonical_repo_self {tail : Str} (htail : joinSlash (str "$REPO" :: comps) =
    str "$REPO" ++ tail) (hhead : tail = [] ∨ tail.head? = some 47) :
    canonical interpreter (str "$REPO" ++ tail) = joinSlash (str "$REPO" :: comps) := by
  have hbelow : below tail = comps := by
    rcases eq_or_ne comps [] with rfl | hne
    · obtain rfl : tail = [] := (List.append_cancel_left htail).symm
      rfl
    · rw [joinSlash_cons hne] at htail
      obtain rfl := List.append_cancel_left htail
      rw [below, List.splitOn_cons_eq_if_modifyHead, if_pos (beq_self_eq_true 47),
        splitOn_joinSlash h hne]
      refine (List.filter_cons_of_neg (by simp)).trans (List.filter_eq_self.mpr fun comp hcomp => ?_)
      exact decide_eq_true ⟨(h comp hcomp).ne_nil, (h comp hcomp).ne_dot⟩
  rw [canonical_repo hhead, hbelow, hrenamed]

/-- What stripping leaves of a path in the repository still starts with it. -/
theorem exists_strip_repo {tail : Str} (htail : tail = [] ∨ tail.head? = some 47) : ∃ rest,
    (str "$REPO" ++ tail).strip = str "$REPO" ++ rest ∧ (rest = [] ∨ rest.head? = some 47) := by
  obtain ⟨after, heq, hafter⟩ := @exists_strip_append (str "$REPO" ++ tail) rfl
  rcases List.append_eq_append_iff.mp heq with ⟨between, hbetween, hrest⟩ | ⟨between, hbetween, hrest⟩
  · refine ⟨between, hbetween, ?_⟩
    rcases between with _ | ⟨c, between⟩
    · exact .inl rfl
    · rw [hrest] at htail
      exact htail.imp (fun hnil => absurd hnil (List.cons_ne_nil _ _)) id
  · rcases between with _ | ⟨c, between⟩
    · exact ⟨[], by rw [List.append_nil] at hbetween ⊢; exact hbetween.symm, .inl rfl⟩
    · have hc : c ∈ str "$REPO" := hbetween ▸ List.mem_append_right _ List.mem_cons_self
      have hspace : isSpace c = true :=
        hafter c (hrest ▸ List.mem_append_left _ List.mem_cons_self)
      have hnone : ∀ c ∈ str "$REPO", isSpace c = false := by decide
      rw [hnone c hc] at hspace
      cases hspace

/-- A path that starts in the repository is normal with its name first, or got shorter by it. -/
theorem normpath_repo {rest : Str} (hrest : rest = [] ∨ rest.head? = some 47) : ∃ comps,
    IsNormal (str "/") comps ∧
      normpath (47 :: (str "$REPO" ++ rest)) = str "/" ++ joinSlash comps ∧
      (joinSlash comps).length ≤ 5 + rest.length ∧
      ((∃ others, comps = str "$REPO" :: others) ∨ (joinSlash comps).length ≤ rest.length) := by
  have hhead : (str "$REPO" ++ rest).head? ≠ some 47 := by simp [str]
  have hnormpath := normpath_rooted (.inl rfl) (rootOf_append (.inl rfl) hhead) rfl
  obtain ⟨others, hothers⟩ : ∃ others, (str "$REPO" ++ rest).splitOn 47 = str "$REPO" :: others := by
    rcases rest with _ | ⟨c, rest⟩
    · exact ⟨[], rfl⟩
    · obtain rfl : c = 47 := by
        rcases hrest with hnil | hhead
        · cases hnil
        · exact Option.some.inj hhead
      exact ⟨_, List.splitOn_append_cons_self_of_not_mem isSegment_repo.slash rest⟩
  have hspan : span others + 6 = 6 + rest.length := by
    have := span_splitOn (str "$REPO" ++ rest)
    rw [hothers, span_cons, List.length_append, show (str "$REPO").length = 5 from rfl] at this
    omega
  have hkeep : resolveDots true [] (str "$REPO" :: others) =
      resolveDots true ([] ++ [str "$REPO"]) others := rfl
  have hnone : ∀ comp ∈ ([] : List Str), comp ≠ str ".." := fun c hc => absurd hc List.not_mem_nil
  rw [hothers] at hnormpath
  refine ⟨resolveDots true [] (str "$REPO" :: others), ⟨.inl rfl, fun comp hcomp => ?_⟩, hnormpath,
    ?_, ?_⟩
  · refine (mem_resolveDots (fun c hc => absurd hc List.not_mem_nil) (fun c hc => ?_) comp hcomp).1
    exact (mem_splitOn _ (hothers ▸ hc)).1
  · rcases eq_or_ne (resolveDots true [] (str "$REPO" :: others)) [] with hnil | hne
    · rw [hnil]
      exact Nat.zero_le _
    · have hlength := length_joinSlash hne
      have hle := @span_resolveDots_le (str "$REPO" :: others) [] hnone
      rw [span_nil, span_cons, show (str "$REPO").length = 5 from rfl] at hle
      omega
  · rw [hkeep]
    refine (resolveDots_first (by decide) hnone).imp id fun hle => ?_
    have hlength := length_joinSlash_le (resolveDots true ([] ++ [str "$REPO"]) others)
    rw [span_nil] at hle
    omega

include hback hredact in
/-- Stripped, a path in the repository is never what it was. -/
theorem path_again_inside_space
    (hlast : (joinSlash (str "$REPO" :: comps)).endsInSpace = true) :
    policy.path interpreter (joinSlash (str "$REPO" :: comps)) operation ≠
      .ok (some (joinSlash (str "$REPO" :: comps))) := by
  intro heq
  have hv := path_of_space hredact heq
  obtain ⟨tail, htail, htailhead⟩ := exists_repo_append comps
  obtain ⟨rest, hstrip, hrest⟩ := exists_strip_repo htailhead
  rw [← htail] at hstrip
  have hhead : (joinSlash (str "$REPO" :: comps)).head? = some 36 := by
    rw [htail]
    rfl
  have hshort := length_strip_lt (by rw [hhead]; rfl) hlast
  obtain ⟨after, happend, -⟩ := exists_strip_append
    (show (joinSlash (str "$REPO" :: comps)).head?.any isSpace = false by rw [hhead]; rfl)
  have hback' : 92 ∉ (joinSlash (str "$REPO" :: comps)).strip := fun hmem =>
    hback (happend ▸ List.mem_append_left after hmem)
  obtain ⟨comps', hnormal, hnormpath, hle, hfirst⟩ := normpath_repo hrest
  have habsolute : absolute (str "$REPO" ++ rest) = str "/" ++ joinSlash comps' := by
    rw [absolute, if_neg (by exact Bool.false_ne_true), ← hnormpath]
    rfl
  rw [replaceChar_eq_self hback', hstrip, habsolute] at hv
  rw [hstrip, List.length_append, show (str "$REPO").length = 5 from rfl] at hshort
  cases hinside : policy.inRepository (str "/" ++ joinSlash comps') with
  | false =>
    rw [relative_of_not_inRepository hinside, canonical_normal hnormal] at hv
    rw [hv] at hhead
    cases hhead
  | true =>
    obtain ⟨directory, rest', hdirectory, hvalue, hrest', hrelative⟩ := exists_relative hinside
    have hne := directory_ne_nil hdirectory
    have hshorter := @length_canonical_repo_le interpreter rest' hrest'
    rw [← hrelative, ← hv] at hshorter
    have hlength := congrArg List.length hvalue
    rw [List.length_append, List.length_append, show (str "/").length = 1 from rfl] at hlength
    rcases hfirst with ⟨others, rfl⟩ | hless
    · -- the directory covers the name, which the result has again
      obtain ⟨tail', htail', -⟩ := exists_repo_append others
      rw [htail'] at hvalue
      have hcovers := (prefix_of_inside hne hvalue.symm hrest').length_le
      rw [show (str "/$REPO").length = 6 from rfl] at hcovers
      omega
    · have hpos := List.length_pos_iff.mpr hne
      omega

include h hrenamed hback hredact in
/-- **A path in the repository, once more**: its name is a directory under the root now, so it
is the same exactly if the repository is that very directory. -/
theorem path_again_inside :
    policy.path interpreter (joinSlash (str "$REPO" :: comps)) operation =
        .ok (some (joinSlash (str "$REPO" :: comps))) ↔
      (joinSlash (str "$REPO" :: comps)).endsInSpace = false ∧
        policy.excludes (47 :: joinSlash (str "$REPO" :: comps)) operation = false ∧
        policy.directory = some (str "/$REPO") := by
  obtain ⟨tail, htail, htailhead⟩ := exists_repo_append comps
  have hhead : (joinSlash (str "$REPO" :: comps)).head? = some 36 := by
    rw [htail]
    rfl
  cases hlast : (joinSlash (str "$REPO" :: comps)).endsInSpace with
  | true =>
    exact iff_of_false (path_again_inside_space hback hredact hlast)
      fun hfalse => Bool.noConfusion hfalse.1
  | false =>
    have hstrip : (joinSlash (str "$REPO" :: comps)).strip.replaceChar 92 47 =
        joinSlash (str "$REPO" :: comps) := by
      rw [strip_eq_self (by rw [hhead]; rfl) hlast, replaceChar_eq_self hback]
    rw [path_of_stripped hredact hstrip (.inr hhead), absolute_repo h, and_iff_right rfl]
    cases hexcluded : policy.excludes (47 :: joinSlash (str "$REPO" :: comps)) operation with
    | true => exact iff_of_false (by simp) (by simp)
    | false =>
      rw [if_neg Bool.false_ne_true, and_iff_right rfl]
      cases hinside : policy.inRepository (47 :: joinSlash (str "$REPO" :: comps)) with
      | false =>
        refine iff_of_false (fun heq => ?_) fun hdirectory => ?_
        · have hnormal := @canonical_normal interpreter _ _ (isNormal_repo h)
          rw [relative_of_not_inRepository hinside] at heq
          rw [← Option.some.inj (Except.ok.inj heq)] at hhead
          rw [show canonical interpreter (47 :: joinSlash (str "$REPO" :: comps)) = _ from
            hnormal] at hhead
          cases hhead
        · have hwithin : within (47 :: (str "$REPO" ++ tail)) (str "/$REPO") = true :=
            within_iff.mpr ⟨tail, rfl, htailhead⟩
          rw [inRepository, hdirectory, Option.any_some, htail, hwithin] at hinside
          cases hinside
      | true =>
        obtain ⟨directory, rest, hdirectory, hvalue, hrest, hrelative⟩ := exists_relative hinside
        have hvalue' : directory ++ rest = str "/$REPO" ++ tail := by
          rw [← hvalue, htail]
          rfl
        rw [hrelative, hdirectory]
        refine ⟨fun heq => ?_, fun heq => ?_⟩
        · obtain ⟨more, hmore⟩ := prefix_of_inside (directory_ne_nil hdirectory) hvalue' hrest
          have hle := @length_canonical_repo_le interpreter rest hrest
          have hlength := congrArg List.length hvalue
          rw [Option.some.inj (Except.ok.inj heq)] at hle
          rw [← hmore, List.length_append, List.length_append, List.length_cons,
            show (str "/$REPO").length = 6 from rfl] at hlength
          have hnil : more = [] := List.eq_nil_of_length_eq_zero (by omega)
          rw [← hmore, hnil, List.append_nil]
        · rw [Option.some.inj heq] at hvalue'
          obtain rfl := List.append_cancel_left hvalue'
          rw [canonical_repo_self h hrenamed htail htailhead]

end Inside

end NormalizationPolicy

end ConflictGraph.Py
