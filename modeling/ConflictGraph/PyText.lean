import Mathlib.Data.List.DropRight

/-!
# Python text

A `str` is a sequence of code points, lone surrogates included, which a Lean `String`
cannot hold. This module has the methods of `str` that the tracer uses, and the parts of
`posixpath` and `pathlib` that path normalisation uses. What depends on the version of the
Unicode database is in `Interpreter`, with the rest of what the interpreter contributes.
-/

namespace ConflictGraph.Py

/-- `str`: its code points. -/
abbrev Str : Type := List ℕ

/-- A literal. -/
def str (literal : String) : Str := literal.toList.map Char.toNat

theorem str_append (s t : String) : str (s ++ t) = str s ++ str t := by
  rw [str, String.toList_append, List.map_append, str, str]

namespace Str

/-- `str.isspace` of one code point. -/
def isSpace (c : ℕ) : Bool :=
  (9 ≤ c && c ≤ 13) || (28 ≤ c && c ≤ 32) || c = 0x85 || c = 0xA0 || c = 0x1680 ||
    (0x2000 ≤ c && c ≤ 0x200A) || c = 0x2028 || c = 0x2029 || c = 0x202F || c = 0x205F || c = 0x3000

/-- `s.strip()`. -/
def strip (s : Str) : Str := (s.dropWhile isSpace).rdropWhile isSpace

/-- The loop of `s.split()`; `word` is the current word reversed. -/
def splitWords : Str → Str → List Str
  | word, [] => if word = [] then [] else [word.reverse]
  | word, c :: rest =>
    if isSpace c then
      if word = [] then splitWords [] rest else word.reverse :: splitWords [] rest
    else splitWords (c :: word) rest

/-- `s.split()`: the maximal runs without white space. -/
def words (s : Str) : List Str := splitWords [] s

/-- `s.startswith(start)`. -/
def startsWith (s start : Str) : Bool := start.isPrefixOf s

/-- `s.endswith(end)`. -/
def endsWith (s finish : Str) : Bool := finish.isSuffixOf s

/-- `s.replace(a, b)` for single characters. -/
def replaceChar (s : Str) (a b : ℕ) : Str := s.map fun c => if c = a then b else c

/-- `s.rpartition(sep)` for a single character, if it occurs. -/
def rpartition (s : Str) (sep : ℕ) : Option (Str × Str) :=
  if sep ∈ s then
    some ((s.reverse.dropWhile (· ≠ sep)).tail.reverse, (s.reverse.takeWhile (· ≠ sep)).reverse)
  else none

/-- `s.encode()` succeeds: there is no surrogate. -/
def encodable (s : Str) : Bool := s.all fun c => !(0xD800 ≤ c && c ≤ 0xDFFF)

/-- `str` of a non-negative integer. -/
def ofNat (n : ℕ) : Str := (Nat.toDigits 10 n).map Char.toNat

/-- What is stripped does not start with white space. -/
theorem isSpace_of_strip_eq_cons {s rest : Str} {c : ℕ} (h : strip s = c :: rest) :
    isSpace c = false := by
  have hprefix : strip s <+: s.dropWhile isSpace := List.rdropWhile_prefix ..
  rw [h] at hprefix
  obtain ⟨after, hafter⟩ := hprefix
  have hhead := List.head?_dropWhile_not isSpace s
  rw [← hafter] at hhead
  simpa using hhead

theorem splitWords_ne_nil (s : Str) : ∀ {word : Str}, word ≠ [] → splitWords word s ≠ [] := by
  induction s with
  | nil =>
    intro word hword
    rw [splitWords, if_neg hword]
    exact List.cons_ne_nil _ _
  | cons c rest ih =>
    intro word hword
    rw [splitWords, if_neg hword]
    split
    · exact List.cons_ne_nil _ _
    · exact ih (List.cons_ne_nil _ _)

/-- A text that starts with something other than white space has a word. -/
theorem words_cons_ne_nil {c : ℕ} {rest : Str} (h : isSpace c = false) : words (c :: rest) ≠ [] := by
  rw [words, splitWords, if_neg (by simp [h])]
  exact splitWords_ne_nil rest (List.cons_ne_nil _ _)

/-! ## Paths -/

/-- `"/".join(parts)`. -/
def joinSlash (parts : List Str) : Str := List.intercalate [47] parts

/-- The loop of `posixpath.normpath` over the components; `kept` is `new_comps` reversed. -/
def resolveDots (absolute : Bool) : List Str → List Str → List Str
  | kept, [] => kept.reverse
  | kept, comp :: rest =>
    if comp = [] ∨ comp = str "." then resolveDots absolute kept rest
    else if comp ≠ str ".." ∨ (absolute = false ∧ kept = []) ∨ kept.head? = some (str "..") then
      resolveDots absolute (comp :: kept) rest
    else resolveDots absolute kept.tail rest

/-- The slashes a POSIX path starts with: two stay, three or more are one. -/
def rootOf (path : Str) : Str :=
  if path.startsWith (str "//") && !path.startsWith (str "///") then str "//"
  else if path.startsWith (str "/") then str "/"
  else []

/-- `posixpath.normpath`. -/
def normpath (path : Str) : Str :=
  if path = [] then str "."
  else
    let root := rootOf path
    let path := root ++ joinSlash (resolveDots (root ≠ []) [] (path.splitOn 47))
    if path = [] then str "." else path

/-- `PurePosixPath(path).parts`: the root, if there is one, and the components. -/
def pathParts (path : Str) : List Str :=
  let root := rootOf path
  (if root = [] then [] else [root]) ++
    (path.splitOn 47).filter fun comp => comp ≠ [] ∧ comp ≠ str "."

/-- `str(PurePosixPath(*parts))`, where the first part alone can be a root. -/
def joinParts (parts : List Str) : Str :=
  match parts with
  | [] => str "."
  | first :: rest => if first.startsWith (str "/") then first ++ joinSlash rest else joinSlash parts

/-- `os.path.basename`. -/
def basename (path : Str) : Str := (path.reverse.takeWhile (· ≠ 47)).reverse

example : normpath (str "//a/./b/../../..//c") = str "//c" := by decide +kernel

example : joinParts (pathParts (str "///a/./b/")) = str "/a/b" := by decide +kernel

end Str

end ConflictGraph.Py
