import ConflictGraph.GoCollect
import ConflictGraph.PyCollect

/-!
# Node IDs in both adapters

Both adapters take a node ID apart at the same separators and find it by the same pattern, so they
mostly agree where they go wrong: on parameters with two colons, and on parameters with a blank,
whose tests are never run.
-/

namespace ConflictGraph

/-! ## Taking a node ID apart -/

/-- Both adapters give back what a node ID was made of, and so the same. -/
structure ParsesName (sha256 : List UInt8 → String) (repository revision : String) (n : NodeName) :
    Prop where
  python : (Py.TestIdentity.fromPytestNodeid sha256 n.text repository revision).fields = n.fields
  go : (Go.testOfNode sha256 n.text).fields = n.fields
  agree : (Py.TestIdentity.fromPytestNodeid sha256 n.text repository revision).fields =
    (Go.testOfNode sha256 n.text).fields

/-- **Parsing undoes building** exactly for the plain names. -/
theorem parsesName_iff (sha256 : List UInt8 → String) (repository revision : String)
    (n : NodeName) : ParsesName sha256 repository revision n ↔ n.Plain := by
  have hpython := fieldsOf_text_iff Py.splitsLast_splitRawFunction n
  have hgo := fieldsOf_text_iff Go.splitsLast_splitFunction n
  rw [← Py.fields_fromPytestNodeid sha256 n.text repository revision] at hpython
  rw [← Go.fields_testOfNode sha256] at hgo
  exact ⟨fun h => hgo.mp h.go, fun h =>
    ⟨hpython.mpr h, hgo.mpr h, (hpython.mpr h).trans (hgo.mpr h).symm⟩⟩

/-- `t.py::f[a::b]`. -/
def colonsName : NodeName where
  file := "t.py".toList
  class_ := none
  function := ['f']
  parameters := some "a::b".toList
  file_undoubled := undoubled_iff.mpr (by decide)
  function_undoubled := undoubled_iff.mpr (by decide)
  function_bracket := by decide

/-- Its function comes out as `b]`, and it seems to be in a class `f[a`. -/
theorem not_parsesName_colons : ¬ ParsesName (fun _ => "") "local" "unknown" colonsName := fun h =>
  absurd h.go (by decide +kernel)

/-! ## Collecting -/

/-- Each adapter returns exactly one test for each printed node ID, in their order. -/
structure CollectsAll (sha256 : List UInt8 → String) (ids : List (List Char))
    (summary stderr : List Char) : Prop where
  go : ∃ tests, Go.collect sha256 .success (collectionOutput ids summary) stderr = .ok tests ∧
    tests.map Go.Test.nodeID = ids.map String.ofList
  python : ∃ tests,
    Py.collect sha256 (.completed 0 (collectionOutput ids summary) stderr) = .ok tests ∧
      tests.map Py.TestIdentity.nodeID = ids.map String.ofList

/-- A node ID that both adapters collect. -/
structure Collectable (id : List Char) : Prop where
  no_space : ∀ c ∈ id, Py.isSpaceChar c = false
  inner : [':', ':'] <:+: id.tail.dropLast
  start : ∀ c ∈ id.head?, c ≠ '=' ∧ c ≠ '<'
  short : Go.lineSize id < Go.maxScanTokenSize

/-- What is white space for Go, or in a Go expression, is white space for Python. -/
theorem isSpaceChar_of_isSpace {c : Char} (h : Go.isSpace c = true) : Py.isSpaceChar c = true := by
  have hall : Go.whiteSpace.all Py.isSpaceChar = true := by decide +kernel
  exact List.all_eq_true.mp hall c (of_decide_eq_true h)

theorem isSpaceChar_of_isRegexpSpace {c : Char} (h : Go.isRegexpSpace c = true) :
    Py.isSpaceChar c = true := by
  have hall : ['\t', '\n', Char.ofNat 12, '\r', ' '].all Py.isSpaceChar = true := by
    decide +kernel
  exact List.all_eq_true.mp hall c (of_decide_eq_true h)

theorem isLineBoundary_of_isEndOfLine {c : Char} (h : Go.isEndOfLine c = true) :
    Py.isLineBoundary c = true := by
  rcases of_decide_eq_true h with rfl | rfl <;> decide

theorem isCandidate_iff {id : List Char} : Py.isCandidate id = true ↔
    (∀ c ∈ id, Py.isSpaceChar c = false) ∧ [':', ':'] <:+: id.tail.dropLast ∧
      ∀ c ∈ id.head?, c ≠ '=' ∧ c ≠ '<' := by
  rw [Py.isCandidate, Bool.and_eq_true, matchesNode_iff, and_assoc]
  refine and_congr_right fun _ => and_congr_right fun _ => ?_
  cases id with
  | nil => exact iff_of_true rfl (by simp)
  | cons c rest =>
    simp only [List.isPrefixOf_cons_cons, List.isPrefixOf_nil_left, Bool.and_true,
      Bool.not_eq_true', Bool.or_eq_false_iff, beq_eq_false_iff_ne, List.head?_cons,
      Option.mem_some_iff, forall_eq', ne_comm]

/-- A candidate of Python matches the pattern of Go. -/
theorem matchesNode_of_isCandidate {id : List Char} (h : Py.isCandidate id = true) :
    matchesNode Go.isRegexpSpace id = true := by
  obtain ⟨hspace, hinner, -⟩ := isCandidate_iff.mp h
  exact matchesNode_iff.mpr
    ⟨fun c hc => eq_false_of_imp isSpaceChar_of_isRegexpSpace (hspace c hc), hinner⟩

variable {ids : List (List Char)} {summary stderr : List Char}

/-- **Collection loses no test** exactly if there is one, no node ID has white space, begins like a
heading or has its separators at its ends only, and no line is too long. -/
theorem collectsAll_iff (sha256 : List UInt8 → String)
    (hids : ∀ id ∈ ids, IsNodeID Py.isLineBoundary Py.isSpaceChar id)
    (hsummary : IsSummary Py.isLineBoundary summary) :
    CollectsAll sha256 ids summary stderr ↔
      ids ≠ [] ∧ (∀ id ∈ ids, Collectable id) ∧ Go.lineSize summary < Go.maxScanTokenSize := by
  have hgo := Go.collect_eq_ok_iff sha256 stderr
    (fun id hid => (hids id hid).mono (fun _ => isLineBoundary_of_isEndOfLine)
      fun _ => isSpaceChar_of_isSpace)
    ⟨hsummary.separator, fun c hc =>
      eq_false_of_imp isLineBoundary_of_isEndOfLine (hsummary.line c hc)⟩
  have hpython := Py.collect_eq_ok_iff sha256 stderr hids hsummary
  refine ⟨fun h => ?_, fun ⟨hne, hcollectable, hshort⟩ => ⟨hgo.mpr ⟨hne, fun id hid => ?_, hshort⟩,
    hpython.mpr ⟨hne, fun id hid => ?_⟩⟩⟩
  · obtain ⟨hne, hmatch, hshort⟩ := hgo.mp h.go
    refine ⟨hne, fun id hid => ?_, hshort⟩
    obtain ⟨hspace, hinner, hstart⟩ := isCandidate_iff.mp ((hpython.mp h.python).2 id hid)
    exact ⟨hspace, hinner, hstart, (hmatch id hid).2⟩
  · obtain ⟨hspace, hinner, hstart, hsize⟩ := hcollectable id hid
    exact ⟨matchesNode_of_isCandidate (isCandidate_iff.mpr ⟨hspace, hinner, hstart⟩), hsize⟩
  · obtain ⟨hspace, hinner, hstart, -⟩ := hcollectable id hid
    exact isCandidate_iff.mpr ⟨hspace, hinner, hstart⟩

theorem isNodeID_of {id : List Char} (h : [':', ':'] <:+: id ∧
    id.all (fun c => !Py.isLineBoundary c) = true ∧
    id.head?.all (fun c => !Py.isSpaceChar c) = true ∧
    id.getLast?.all (fun c => !Py.isSpaceChar c) = true) :
    IsNodeID Py.isLineBoundary Py.isSpaceChar id where
  separator := h.1
  line := by simpa using h.2.1
  head c hc := by simpa using (Option.all_eq_true _ _).mp h.2.2.1 c hc
  last c hc := by simpa using (Option.all_eq_true _ _).mp h.2.2.2 c hc

/-- `1 test collected in 0.01s`. -/
def oneTestSummary : List Char := "1 test collected in 0.01s".toList

theorem isSummary_oneTest : IsSummary Py.isLineBoundary oneTestSummary := by
  have hall : oneTestSummary.all (fun c => !Py.isLineBoundary c) = true := by decide +kernel
  exact ⟨by decide +kernel, by simpa using hall⟩

/-- A parameter without a blank, a function and a method, out of order. -/
def printedIDs : List (List Char) :=
  ["t.py::f[ab]".toList, "t.py::f".toList, "a.py::C::m".toList]

/-- `3 tests collected in 0.01s`. -/
def threeTestSummary : List Char := "3 tests collected in 0.01s".toList

theorem isNodeID_of_mem_printedIDs :
    ∀ id ∈ printedIDs, IsNodeID Py.isLineBoundary Py.isSpaceChar id := by
  simp only [printedIDs, List.forall_mem_cons]
  exact ⟨isNodeID_of (by decide +kernel), isNodeID_of (by decide +kernel),
    isNodeID_of (by decide +kernel), fun _ hid => nomatch hid⟩

theorem isSummary_threeTests : IsSummary Py.isLineBoundary threeTestSummary := by
  have hall : threeTestSummary.all (fun c => !Py.isLineBoundary c) = true := by decide +kernel
  exact ⟨by decide +kernel, by simpa using hall⟩

/-- Three tests, and a warning beside them. -/
theorem collectsAll_iff_printedIDs :
    CollectsAll (fun _ => "") printedIDs threeTestSummary "warning".toList ↔
      printedIDs ≠ [] ∧ (∀ id ∈ printedIDs, Collectable id) ∧
        Go.lineSize threeTestSummary < Go.maxScanTokenSize :=
  collectsAll_iff _ isNodeID_of_mem_printedIDs isSummary_threeTests

/-- A parameter with a blank: its test is not collected. -/
theorem not_collectsAll_blank :
    IsNodeID Py.isLineBoundary Py.isSpaceChar "t.py::f[a b]".toList ∧
      IsSummary Py.isLineBoundary oneTestSummary ∧
      ¬ CollectsAll (fun _ => "") ["t.py::f[a b]".toList] oneTestSummary [] := by
  refine ⟨isNodeID_of (by decide +kernel), isSummary_oneTest, fun h => ?_⟩
  have hscan : Go.scanNodes (collectionOutput ["t.py::f[a b]".toList] oneTestSummary) =
      ([], false) := by
    decide +kernel
  obtain ⟨tests, hok, -⟩ := h.go
  rw [Go.collect, hscan] at hok
  cases hok

end ConflictGraph
