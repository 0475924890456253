import ConflictGraph.PyIsolation
import ConflictGraph.RustPath

/-!
# The two normalisers of paths

The tracer takes a path apart into components; the Python normaliser resolves it as a text with
`posixpath.normpath`. Both keep the same components (`map_code_resolve`). They differ in the root:
POSIX lets a path start with exactly two slashes, and `normpath` keeps both, while
`Path::components` knows one root. So the two agree on an absolute path exactly if it does not
start so (`paths_agree_iff`).
-/

namespace ConflictGraph

open Py Py.Str Rust

/-! ## Characters and code points -/

/-- The code points of a text. -/
def code (part : List Char) : Str := part.map Char.toNat

theorem code_injective : Function.Injective code :=
  List.map_injective_iff.mpr fun _ _ h => Char.toNat_inj.mp h

theorem str_eq_code (text : String) : str text = code text.toList := rfl

theorem code_eq_iff {part : List Char} (literal : String) :
    code part = str literal ↔ part = literal.toList :=
  code_injective.eq_iff

/-- Code points are split where the characters are. -/
theorem splitOn_code (path : List Char) : (code path).splitOn 47 = (path.splitOn '/').map code := by
  induction path with
  | nil => rfl
  | cons c rest ih =>
    have hslash : (c.toNat == 47) = (c == '/') := by
      rw [Bool.eq_iff_iff, beq_iff_eq, beq_iff_eq]
      exact Char.toNat_inj (d := '/')
    rw [code, List.map_cons, List.splitOn_cons_eq_if_modifyHead,
      List.splitOn_cons_eq_if_modifyHead, hslash]
    split
    · exact congrArg (List.cons []) ih
    · obtain ⟨first, others, heq⟩ := List.exists_cons_of_ne_nil (List.splitOn_ne_nil '/' rest)
      rw [heq] at ih ⊢
      rw [show (rest.map Char.toNat).splitOn 47 = _ from ih]
      rfl

theorem joinSlash_code (names : List (List Char)) :
    joinSlash (names.map code) = code (List.intercalate ['/'] names) := by
  induction names with
  | nil => rfl
  | cons name rest ih =>
    rcases eq_or_ne rest [] with rfl | hne
    · simp
    · rw [List.map_cons, joinSlash_cons (fun hnil => hne (List.map_eq_nil_iff.mp hnil)), ih,
        List.intercalate_cons_of_ne_nil hne]
      simp [code]

/-! ## Components -/

/-- **The stack of the tracer is the list of `normpath`**, for absolute paths. -/
theorem map_code_resolve (parts : List (List Char)) : ∀ {kept : List (List Char)},
    (∀ name ∈ kept, name ≠ ['.', '.']) →
      (resolve kept parts).map code = resolveDots true (kept.map code) (parts.map code) := by
  induction parts with
  | nil => exact fun _ => by rw [resolve, List.map_reverse]; rfl
  | cons part rest ih =>
    intro kept hkept
    have hskip : (code part = [] ∨ code part = str ".") ↔ part = [] ∨ part = ['.'] :=
      or_congr (code_eq_iff "") (code_eq_iff ".")
    have hdots : code part = str ".." ↔ part = ['.', '.'] := code_eq_iff ".."
    -- nothing that is kept is a pair of dots
    have hhead : (kept.map code).head? ≠ some (str "..") := by
      intro heq
      obtain ⟨name, hname, hcode⟩ := List.mem_map.mp (List.mem_of_mem_head? heq)
      exact hkept name hname ((code_eq_iff "..").mp hcode)
    rw [resolve, List.map_cons, resolveDots]
    simp only [hskip, hdots, hhead, ne_eq, Bool.true_eq_false, false_and, or_false]
    by_cases hempty : part = [] ∨ part = ['.']
    · rw [if_pos hempty, if_pos hempty]
      exact ih hkept
    · rw [if_neg hempty, if_neg hempty]
      by_cases hparent : part = ['.', '.']
      · rw [if_pos hparent, if_neg (not_not.mpr hparent), ← List.map_tail]
        exact ih fun name hname => hkept name (List.mem_of_mem_tail hname)
      · rw [if_neg hparent, if_pos hparent]
        exact ih (List.forall_mem_cons.mpr ⟨hparent, hkept⟩)

/-! ## Paths -/

/-- The paths that the two normalisers are both made for: absolute, without backslashes and white
space at the ends, and outside of the containers of test runs. -/
structure Plain (interpreter : Interpreter) (raw : String) : Prop where
  absolute : raw.toList.head? = some '/'
  backslash : '\\' ∉ raw.toList
  stripped : (str raw).strip = str raw
  lasting : ∀ part ∈ (str raw).splitOn 47, isEphemeral interpreter part = false

/-- The path starts with two slashes, and with no third one. -/
def startsWithTwoSlashes (raw : String) : Bool :=
  (str raw).startsWith (str "//") && !(str raw).startsWith (str "///")

section Agree

variable {interpreter : Interpreter} {raw : String} (h : Plain interpreter raw)
include h

theorem Plain.replaceChar_eq_self : (str raw).replaceChar 92 47 = str raw := by
  refine Str.replaceChar_eq_self (fun hmem => ?_) 47
  obtain ⟨c, hc, hcode⟩ := List.mem_map.mp hmem
  exact h.backslash (Char.toNat_inj (d := '\\') |>.mp hcode ▸ hc)

theorem Plain.lexical_eq : lexical (str raw) =
    rootOf (str raw) ++ joinSlash ((resolve [] (raw.toList.splitOn '/')).map code) := by
  obtain ⟨rest, hrest⟩ := List.head?_eq_some_iff.mp h.absolute
  have hhead : (str raw).head? = some 47 := by
    rw [str_eq_code, hrest]
    rfl
  have hslash : (str raw).startsWith (str "/") = true := by
    rw [str_eq_code, hrest]
    rfl
  obtain ⟨hroot, after, hafter⟩ := exists_rootOf hhead
  rw [lexical, h.stripped, h.replaceChar_eq_self, NormalizationPolicy.absolute, if_pos hslash,
    normpath_rooted hroot rfl hafter, map_code_resolve _ fun name hname => absurd hname
      List.not_mem_nil, ← splitOn_code, ← str_eq_code]
  -- the empty parts before the root are skipped
  have hsplit := splitOn_rooted (s := after) hroot
  rw [← hafter] at hsplit
  rw [hsplit, List.map_nil, resolveDots_replicate]

/-- The Python identifier: the root of the path, and the names that the tracer keeps. -/
theorem Plain.canonical_lexical : NormalizationPolicy.canonical interpreter (lexical (str raw)) =
    rootOf (str raw) ++ code (List.intercalate ['/'] (resolve [] (raw.toList.splitOn '/'))) := by
  obtain ⟨rest, hrest⟩ := List.head?_eq_some_iff.mp h.absolute
  have hhead : (str raw).head? = some 47 := by
    rw [str_eq_code, hrest]
    rfl
  have hnames : ∀ name ∈ resolve [] (raw.toList.splitOn '/'),
      IsName name ∧ name ∈ raw.toList.splitOn '/' := fun name hname =>
    (mem_resolve (fun _ hn => absurd hn List.not_mem_nil)
      (fun _ hpart => slash_not_mem_of_mem_splitOn hpart) name hname).imp_right
        fun hmem => hmem.resolve_left List.not_mem_nil
  have hnormal : IsNormal (rootOf (str raw)) ((resolve [] (raw.toList.splitOn '/')).map code) := by
    refine ⟨(exists_rootOf hhead).1, List.forall_mem_map.mpr fun name hname => ?_⟩
    obtain ⟨hisname, -⟩ := hnames name hname
    refine ⟨?_, ?_, ?_, fun hmem => ?_⟩
    · exact fun heq => hisname.ne_nil ((code_eq_iff "").mp heq)
    · exact fun heq => hisname.ne_dot ((code_eq_iff ".").mp heq)
    · exact fun heq => hisname.ne_dots ((code_eq_iff "..").mp heq)
    · obtain ⟨c, hc, hcode⟩ := List.mem_map.mp hmem
      exact hisname.slash (Char.toNat_inj (d := '/') |>.mp hcode ▸ hc)
  have hrenamed : ((resolve [] (raw.toList.splitOn '/')).map code).map
      (renameSegment interpreter) = (resolve [] (raw.toList.splitOn '/')).map code := by
    refine (List.map_congr_left fun part hpart => ?_).trans (List.map_id _)
    obtain ⟨name, hname, rfl⟩ := List.mem_map.mp hpart
    have hmem : code name ∈ (str raw).splitOn 47 := by
      rw [str_eq_code, splitOn_code]
      exact List.mem_map_of_mem (hnames name hname).2
    exact if_neg (ne_true_of_eq_false (h.lasting _ hmem))
  rw [h.lexical_eq, NormalizationPolicy.canonical_normal hnormal, hrenamed, joinSlash_code]

/-- The identifier of the tracer has one slash for the root. -/
theorem Plain.pathText_normalForm : code (pathText (normalForm raw)) =
    str "/" ++ code (List.intercalate ['/'] (resolve [] (raw.toList.splitOn '/'))) := by
  rw [normalForm, foldl_components, decide_eq_true h.absolute, pathText_absolute]
  rfl

end Agree

theorem rootOf_eq_slash_iff {path : Str} (h : path.head? = some 47) :
    rootOf path = str "/" ↔ (path.startsWith (str "//") && !path.startsWith (str "///")) = false := by
  have hslash : path.startsWith (str "/") = true := by
    obtain ⟨rest, rfl⟩ := List.head?_eq_some_iff.mp h
    rfl
  rw [rootOf, hslash]
  split
  · rename_i htwo
    exact iff_of_false (by decide) (by simp [htwo])
  · rename_i htwo
    exact iff_of_true rfl (Bool.eq_false_of_not_eq_true htwo)

/-- What the tracer returns for a path that is neither hashed nor relative to a repository. -/
theorem Rust.Normalizer.path_eq (sha256 : List UInt8 → String) {normalizer : Normalizer}
    (hredact : normalizer.policy.redactPaths = false)
    (hroot : normalizer.policy.repositoryRoot = none) {raw : String} (hraw : raw ≠ "")
    {operation : Rust.Operation} (hoperation : operation ≠ .read) :
    normalizer.path sha256 raw operation = some (String.ofList (pathText (normalForm raw))) := by
  simp [Normalizer.path, hraw, hoperation, hredact, hroot, normalForm]

/-- **The two path normalisers agree** exactly on the paths that do not start with two slashes. -/
theorem paths_agree_iff (sha256 : List UInt8 → String) {interpreter : Interpreter}
    {policy : NormalizationPolicy} (hredact : policy.redactPaths = false)
    (hroot : policy.directory = none) {normalizer : Normalizer}
    (hredact' : normalizer.policy.redactPaths = false)
    (hroot' : normalizer.policy.repositoryRoot = none) {raw : String} (h : Plain interpreter raw)
    {operation : Py.Operation} (hoperation : operation ≠ .read) {operation' : Rust.Operation}
    (hoperation' : operation' ≠ .read) :
    policy.path interpreter (str raw) operation =
        .ok ((normalizer.path sha256 raw operation').map str) ↔
      startsWithTwoSlashes raw = false := by
  obtain ⟨rest, hrest⟩ := List.head?_eq_some_iff.mp h.absolute
  have hstr : str raw = 47 :: code rest := by
    rw [str_eq_code, hrest]
    rfl
  have hraw : raw ≠ "" := by
    rintro rfl
    cases hrest
  have hrecorded : policy.Recorded (str raw) operation := by
    refine ⟨?_, ?_⟩
    · rw [h.stripped, h.replaceChar_eq_self, hstr]
      simp [str]
    · rw [NormalizationPolicy.excludes, decide_eq_false hoperation, Bool.false_and, Bool.false_and]
  have hpython : policy.path interpreter (str raw) operation =
      .ok (some (NormalizationPolicy.canonical interpreter (lexical (str raw)))) :=
    (NormalizationPolicy.path_eq_ok_some_iff hredact hroot).mpr ⟨hrecorded, rfl⟩
  rw [hpython, Rust.Normalizer.path_eq sha256 hredact' hroot' hraw hoperation', Option.map_some,
    Except.ok.injEq, Option.some.injEq, str_eq_code (String.ofList _), String.toList_ofList,
    h.canonical_lexical, h.pathText_normalForm, List.append_cancel_right_eq,
    rootOf_eq_slash_iff (by rw [hstr]; rfl)]
  rfl

/-- The normaliser of the default policy. -/
def defaultNormalizer : Normalizer := ⟨{}, rfl⟩

theorem paths_agree_iff_dots :
    NormalizationPolicy.path {} asciiInterpreter (str "/a/../.././b//c") .write =
        .ok ((defaultNormalizer.path (fun _ => "") "/a/../.././b//c" .write).map str) ↔
      startsWithTwoSlashes "/a/../.././b//c" = false :=
  paths_agree_iff (fun _ => "") rfl rfl rfl rfl
    ⟨by decide +kernel, by decide +kernel, by decide +kernel, by decide +kernel⟩ (by decide)
    (by decide)

/-- One file is two resources: the one normaliser keeps two slashes, the other one. -/
theorem not_paths_agree_two_slashes :
    Plain asciiInterpreter "//tmp/shared.db" ∧
      NormalizationPolicy.path {} asciiInterpreter (str "//tmp/shared.db") .write =
        .ok (some (str "//tmp/shared.db")) ∧
      defaultNormalizer.path (fun _ => "") "//tmp/shared.db" .write = some "/tmp/shared.db" :=
  ⟨⟨by decide +kernel, by decide +kernel, by decide +kernel, by decide +kernel⟩, by decide +kernel,
    by decide +kernel⟩

end ConflictGraph
