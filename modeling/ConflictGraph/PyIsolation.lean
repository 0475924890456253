import ConflictGraph.PySink
import ConflictGraph.PyStable

/-!
# Paths that are merged

`_path` stabilises the containers of test runs: what `pytest` names after a user or a number becomes
`$RUN_TMP`. Another pattern does the same to the random names of temporary directories. So two
paths with the same identifier are the same up to their `pytest` containers exactly if such a
directory does not stand against another name for `$RUN_TMP` (`keptApart_iff`).
-/

namespace ConflictGraph.Py

open Str

/-! ## Containers -/

section Segments

variable (interpreter : Interpreter)

/-- A text without its final line break. -/
def beforeBreak (s : Str) : Str := if s.getLast? = some 10 then s.dropLast else s

/-- `pytest-of-<user>` or `pytest-<number>`: the first two of `_EPHEMERAL_SEGMENTS`. -/
def isPytestContainer (segment : Str) : Bool :=
  ((segment.dropPrefix? (str "pytest-of-")).any fun rest => rest ≠ [] && !rest.contains 47) ||
    (segment.dropPrefix? (str "pytest-")).any fun rest =>
      beforeBreak rest ≠ [] && (beforeBreak rest).all fun c => (interpreter.decimal c).isSome

/-- The last of `_EPHEMERAL_SEGMENTS`. -/
def isTmpDirectory (segment : Str) : Bool :=
  (segment.dropPrefix? (str "tmp")).any fun rest =>
    6 ≤ (beforeBreak rest).length && (beforeBreak rest).all fun c =>
      isAsciiDigit c || (65 ≤ c && c ≤ 90) || (97 ≤ c && c ≤ 122) || c = 95 || c = 45

/-- Only a `pytest` container is renamed. -/
def renamePytest (part : Str) : Str :=
  if isPytestContainer interpreter part then str "$RUN_TMP" else part

/-- A segment is `$RUN_TMP`, or becomes it. -/
def standsForTmp (part : Str) : Bool := renameSegment interpreter part = str "$RUN_TMP"

/-- Two segments are the same up to `pytest` containers. -/
def Alike (s t : Str) : Prop := renamePytest interpreter s = renamePytest interpreter t

/-- A temporary directory stands against another name for `$RUN_TMP`. -/
def Confused (s t : Str) : Prop :=
  s ≠ t ∧ standsForTmp interpreter s = true ∧ standsForTmp interpreter t = true ∧
    (isTmpDirectory s = true ∨ isTmpDirectory t = true)

instance (s t : Str) : Decidable (Alike interpreter s t) := inferInstanceAs (Decidable (_ = _))

instance (s t : Str) : Decidable (Confused interpreter s t) := inferInstanceAs (Decidable (_ ∧ _))

variable {interpreter}

theorem isEphemeral_eq (segment : Str) : isEphemeral interpreter segment =
    (isPytestContainer interpreter segment || isTmpDirectory segment) := by
  rw [isEphemeral, isPytestContainer, isTmpDirectory]
  cases segment.dropPrefix? (str "pytest-of-") <;> cases segment.dropPrefix? (str "pytest-") <;>
    cases segment.dropPrefix? (str "tmp") <;> rfl

theorem exists_of_isTmpDirectory {segment : Str} (h : isTmpDirectory segment = true) :
    ∃ rest, segment = str "tmp" ++ rest := by
  obtain ⟨rest, hrest, -⟩ := Option.any_eq_true _ _ |>.mp h
  obtain ⟨front, rfl, hfront⟩ := List.dropPrefix?_eq_some_iff.mp hrest
  exact ⟨rest, by rw [eq_of_beq hfront]⟩

/-- A temporary directory is no `pytest` container. -/
theorem renamePytest_of_isTmpDirectory {segment : Str} (h : isTmpDirectory segment = true) :
    renamePytest interpreter segment = segment := by
  obtain ⟨rest, rfl⟩ := exists_of_isTmpDirectory h
  rfl

theorem standsForTmp_of_isTmpDirectory {segment : Str} (h : isTmpDirectory segment = true) :
    standsForTmp interpreter segment = true := by
  rw [standsForTmp, renameSegment, isEphemeral_eq, h, Bool.or_true, if_pos rfl]
  exact decide_eq_true rfl

theorem renameSegment_of_not {segment : Str} (h : ¬ isTmpDirectory segment = true) :
    renameSegment interpreter segment = renamePytest interpreter segment := by
  rw [renameSegment, renamePytest, isEphemeral_eq, Bool.eq_false_iff.mpr h, Bool.or_false]

theorem renameSegment_renamePytest (segment : Str) :
    renameSegment interpreter (renamePytest interpreter segment) =
      renameSegment interpreter segment := by
  rw [renamePytest]
  split
  · rename_i h
    rw [renameSegment, renameSegment, isEphemeral_eq segment, h, Bool.true_or, if_pos rfl]
    rfl
  · rfl

/-- What becomes the same is alike or confused. -/
theorem renameSegment_eq_iff {s t : Str} :
    renameSegment interpreter s = renameSegment interpreter t ↔
      Alike interpreter s t ∨ Confused interpreter s t := by
  refine ⟨fun heq => ?_, ?_⟩
  · by_cases htmp : isTmpDirectory s = true ∨ isTmpDirectory t = true
    · have hboth : standsForTmp interpreter s = true ∧ standsForTmp interpreter t = true := by
        rcases htmp with hs | ht
        · have hstands : standsForTmp interpreter s = true := standsForTmp_of_isTmpDirectory hs
          exact ⟨hstands, by rwa [standsForTmp, ← heq]⟩
        · have hstands : standsForTmp interpreter t = true := standsForTmp_of_isTmpDirectory ht
          exact ⟨by rwa [standsForTmp, heq], hstands⟩
      rcases eq_or_ne s t with rfl | hne
      · exact .inl rfl
      · exact .inr ⟨hne, hboth.1, hboth.2, htmp⟩
    · rw [not_or] at htmp
      rw [renameSegment_of_not htmp.1, renameSegment_of_not htmp.2] at heq
      exact .inl heq
  · rintro (halike | ⟨-, hs, ht, -⟩)
    · rw [← renameSegment_renamePytest s, halike, renameSegment_renamePytest]
    · exact (of_decide_eq_true hs).trans (of_decide_eq_true ht).symm

/-- What is confused is not alike. -/
theorem Confused.not_alike {s t : Str} (h : Confused interpreter s t) : ¬ Alike interpreter s t := by
  have hone : ∀ {s t : Str}, s ≠ t → isTmpDirectory s = true → ¬ Alike interpreter s t := by
    intro s t hne htmp halike
    rw [Alike, renamePytest_of_isTmpDirectory htmp, renamePytest] at halike
    split at halike
    · obtain ⟨rest, rfl⟩ := exists_of_isTmpDirectory htmp
      cases halike
    · exact hne halike
  rcases h.2.2.2 with hs | ht
  · exact hone h.1 hs
  · exact fun halike => hone h.1.symm ht halike.symm

end Segments

/-! ## Forms of a path -/

/-- The lexical normal form of a raw path. -/
def lexical (raw : Str) : Str := NormalizationPolicy.absolute (raw.strip.replaceChar 92 47)

/-- Its parts. -/
def lexicalParts (raw : Str) : List Str := pathParts (lexical raw)

/-- The normal form with only the `pytest` containers renamed. -/
def pytestForm (interpreter : Interpreter) (raw : Str) : Str :=
  joinParts ((lexicalParts raw).map (renamePytest interpreter))

/-- Two normal forms become the same, and not only by their `pytest` containers. -/
structure Merged (interpreter : Interpreter) (p q : Str) : Prop where
  parts : List.Forall₂ (fun s t => Alike interpreter s t ∨ Confused interpreter s t)
    (lexicalParts p) (lexicalParts q)
  confused : ∃ pair ∈ (lexicalParts p).zip (lexicalParts q), Confused interpreter pair.1 pair.2

section Forms

variable {interpreter : Interpreter}

theorem exists_lexical (raw : Str) :
    ∃ root comps, IsNormal root comps ∧ lexical raw = root ++ joinSlash comps ∧
      lexicalParts raw = root :: comps := by
  have hnone : 92 ∉ raw.strip.replaceChar 92 47 := not_mem_replaceChar (by decide)
  obtain ⟨root, comps, hnormal, habsolute, -⟩ := NormalizationPolicy.exists_absolute hnone
  exact ⟨root, comps, hnormal, habsolute, by rw [lexicalParts, lexical, habsolute,
    pathParts_normal hnormal]⟩

/-- Parts that are renamed are told apart by the path that they make. -/
theorem joinParts_map_inj {rename : Str → Str}
    (hroot : ∀ root, root = str "/" ∨ root = str "//" → rename root = root)
    (hsegment : ∀ part, IsSegment part → IsSegment (rename part)) {p q : Str} :
    joinParts ((lexicalParts p).map rename) = joinParts ((lexicalParts q).map rename) ↔
      (lexicalParts p).map rename = (lexicalParts q).map rename := by
  refine ⟨fun heq => ?_, congrArg joinParts⟩
  have hparts : ∀ raw, pathParts (joinParts ((lexicalParts raw).map rename)) =
      (lexicalParts raw).map rename := by
    intro raw
    obtain ⟨root, comps, hnormal, -, hparts⟩ := exists_lexical raw
    have hrenamed : IsNormal root (comps.map rename) :=
      ⟨hnormal.root, List.forall_mem_map.mpr fun comp hcomp =>
        hsegment comp (hnormal.segments comp hcomp)⟩
    rw [hparts, List.map_cons, hroot root hnormal.root, joinParts_normal hrenamed,
      pathParts_normal hrenamed]
  rw [← hparts p, heq, hparts]

/-- Two paths become the same exactly if their parts do. -/
theorem canonical_lexical_eq_iff {p q : Str} :
    NormalizationPolicy.canonical interpreter (lexical p) =
        NormalizationPolicy.canonical interpreter (lexical q) ↔
      (lexicalParts p).map (renameSegment interpreter) =
        (lexicalParts q).map (renameSegment interpreter) := by
  refine joinParts_map_inj ?_ fun _ => isSegment_renameSegment
  rintro _ (rfl | rfl) <;> rfl

theorem pytestForm_eq_iff {p q : Str} : pytestForm interpreter p = pytestForm interpreter q ↔
    (lexicalParts p).map (renamePytest interpreter) =
      (lexicalParts q).map (renamePytest interpreter) := by
  refine joinParts_map_inj ?_ fun part hpart => ?_
  · rintro _ (rfl | rfl) <;> rfl
  · rw [renamePytest]
    split
    · exact isSegment_runTmp
    · exact hpart

theorem map_eq_map_iff_forall₂ {α β : Type} {f : α → β} {as bs : List α} :
    as.map f = bs.map f ↔ List.Forall₂ (fun a b => f a = f b) as bs := by
  rw [← List.forall₂_eq_eq_eq, List.forall₂_map_left_iff, List.forall₂_map_right_iff]

/-- Forms that become the same are the same up to `pytest` containers, or merged. -/
theorem merged_iff {p q : Str} (h : NormalizationPolicy.canonical interpreter (lexical p) =
    NormalizationPolicy.canonical interpreter (lexical q)) :
    Merged interpreter p q ↔ pytestForm interpreter p ≠ pytestForm interpreter q := by
  rw [canonical_lexical_eq_iff, map_eq_map_iff_forall₂] at h
  have hparts : List.Forall₂ (fun s t => Alike interpreter s t ∨ Confused interpreter s t)
      (lexicalParts p) (lexicalParts q) := h.imp fun _ _ => renameSegment_eq_iff.mp
  rw [ne_eq, pytestForm_eq_iff, map_eq_map_iff_forall₂]
  refine ⟨fun hmerged halike => ?_, fun hne => ⟨hparts, ?_⟩⟩
  · obtain ⟨⟨s, t⟩, hmem, hconfused⟩ := hmerged.confused
    exact hconfused.not_alike ((List.forall₂_iff_zip.mp halike).2 hmem)
  · by_contra hnone
    rw [not_exists] at hnone
    refine hne (List.forall₂_iff_zip.mpr ⟨h.length_eq, fun {s t} hmem => ?_⟩)
    exact ((List.forall₂_iff_zip.mp hparts).2 hmem).resolve_right fun hconfused =>
      hnone (s, t) ⟨hmem, hconfused⟩

/-- Merged paths become the same. -/
theorem Merged.canonical_eq {p q : Str} (h : Merged interpreter p q) :
    NormalizationPolicy.canonical interpreter (lexical p) =
      NormalizationPolicy.canonical interpreter (lexical q) := by
  rw [canonical_lexical_eq_iff, map_eq_map_iff_forall₂]
  exact h.parts.imp fun _ _ => renameSegment_eq_iff.mpr

end Forms

/-! ## Identifiers -/

namespace NormalizationPolicy

variable {policy : NormalizationPolicy} {interpreter : Interpreter} {operation : Operation}

/-- The path is named, and an access to it is not filtered. -/
structure Recorded (policy : NormalizationPolicy) (raw : Str) (operation : Operation) : Prop where
  named : raw.strip.replaceChar 92 47 ∉ [[], str "(null)", str "<unknown>"]
  included : policy.excludes (lexical raw) operation = false

/-- If two paths have one identifier, they are the same up to `pytest` containers. -/
def KeptApart (policy : NormalizationPolicy) (interpreter : Interpreter) (p q : Str)
    (operation : Operation) : Prop :=
  ∀ identifier, policy.path interpreter p operation = .ok (some identifier) →
    policy.path interpreter q operation = .ok (some identifier) →
      pytestForm interpreter p = pytestForm interpreter q

/-- The identifier of a path, without redaction and outside of any repository. -/
theorem path_eq_ok_some_iff (hredact : policy.redactPaths = false) (hroot : policy.directory = none)
    {raw identifier : Str} : policy.path interpreter raw operation = .ok (some identifier) ↔
      policy.Recorded raw operation ∧ canonical interpreter (lexical raw) = identifier := by
  have hrelative : policy.relative (lexical raw) = lexical raw := by
    refine relative_of_not_inRepository ?_
    rw [inRepository, hroot]
    rfl
  have hcanonical : ¬ policy.excludes (lexical raw) operation = true →
      raw.strip.replaceChar 92 47 ∉ [[], str "(null)", str "<unknown>"] →
        policy.path interpreter raw operation = .ok (some (canonical interpreter (lexical raw))) := by
    intro hincluded hnamed
    simp only [List.mem_cons, List.not_mem_nil, or_false] at hnamed
    rw [lexical] at hincluded hrelative ⊢
    rw [path, if_neg hnamed, if_neg hincluded, hrelative, redact, hredact]
    rfl
  refine ⟨fun h => ?_, ?_⟩
  · have hrecorded : policy.Recorded raw operation := by
      rw [path] at h
      split at h
      · cases h
      · rename_i hnamed
        split at h
        · cases h
        · rename_i hincluded
          refine ⟨?_, Bool.eq_false_of_not_eq_true hincluded⟩
          simpa only [List.mem_cons, List.not_mem_nil, or_false] using hnamed
    rw [hcanonical (ne_true_of_eq_false hrecorded.included) hrecorded.named] at h
    exact ⟨hrecorded, Option.some.inj (Except.ok.inj h)⟩
  · rintro ⟨hrecorded, rfl⟩
    exact hcanonical (ne_true_of_eq_false hrecorded.included) hrecorded.named

/-- **Isolated paths stay distinct** exactly if no temporary directory of one stands against
another name for `$RUN_TMP` in the other. -/
theorem keptApart_iff (interpreter : Interpreter) (hredact : policy.redactPaths = false)
    (hroot : policy.directory = none) (p q : Str) (operation : Operation) :
    policy.KeptApart interpreter p q operation ↔
      ¬ (policy.Recorded p operation ∧ policy.Recorded q operation ∧ Merged interpreter p q) := by
  simp only [KeptApart, path_eq_ok_some_iff hredact hroot]
  refine ⟨?_, fun hnot identifier => ?_⟩
  · rintro hkept ⟨hp, hq, hmerged⟩
    exact (merged_iff hmerged.canonical_eq).mp hmerged
      (hkept _ ⟨hp, hmerged.canonical_eq⟩ ⟨hq, rfl⟩)
  · rintro ⟨hp, hpath⟩ ⟨hq, hqath⟩
    by_contra hne
    exact hnot ⟨hp, hq, (merged_iff (hpath.trans hqath.symm)).mpr hne⟩

theorem keptApart_iff_account :
    KeptApart {} asciiInterpreter (str "/tmp/account-123/data.db") (str "/tmp/account-456/data.db")
        .write ↔
      ¬ (Recorded {} (str "/tmp/account-123/data.db") .write ∧
        Recorded {} (str "/tmp/account-456/data.db") .write ∧
          Merged asciiInterpreter (str "/tmp/account-123/data.db")
            (str "/tmp/account-456/data.db")) :=
  keptApart_iff asciiInterpreter rfl rfl _ _ _

/-- Two random temporary directories are one resource. -/
theorem not_keptApart_mkdtemp :
    ¬ KeptApart {} asciiInterpreter (str "/tmp/tmpk3v9x1qa/data.db")
      (str "/tmp/tmpz7w2m0bd/data.db") .write := by
  intro hkept
  have hform := hkept (str "/tmp/$RUN_TMP/data.db") (by decide +kernel) (by decide +kernel)
  revert hform
  decide +kernel

end NormalizationPolicy

end ConflictGraph.Py
