import ConflictGraph.NodeID
import ConflictGraph.PyText
import ConflictGraph.PyTypes
import ConflictGraph.Utf8Text

/-!
# Collecting tests in Python

`PytestAdapter.collect` reads the node IDs that `pytest --collect-only -q` prints, one to a line,
and `TestIdentity.from_pytest_nodeid` takes each of them apart.
-/

namespace ConflictGraph.Py

/-! ## One node ID -/

/-- `s.partition("[")`, without the separator. -/
def partitionBracket (s : List Char) : List Char × List Char :=
  (s.takeWhile (· ≠ '['), (s.dropWhile (· ≠ '[')).drop 1)

/-- The function and the parameters in the last part of a node ID. -/
def splitRawFunction (rawFunction : List Char) : List Char × List Char :=
  let function := partitionBracket rawFunction
  (function.1, if function.2.getLast? = some ']' then function.2.dropLast else function.2)

/-- `TestIdentity.from_pytest_nodeid`, for a function `sha256` that gives the hexadecimal digest. -/
def TestIdentity.fromPytestNodeid (sha256 : List UInt8 → String) (nodeID : List Char)
    (repository : String := "local") (revision : String := "unknown") : TestIdentity :=
  let parts := splitDouble ':' nodeID
  let rawFunction := if 1 < parts.length then parts.getLastD [] else parts.headD []
  let function := splitRawFunction rawFunction
  let stable := repository ++ "\x00pytest\x00" ++ String.ofList nodeID
  { id := "test_" ++ String.ofList ((sha256 (Utf8.encode stable.toList)).toList.take 24)
    nodeID := String.ofList nodeID
    repository := repository
    testFile := String.ofList (parts.headD [])
    testClass := if 2 < parts.length then String.ofList (parts.getD 1 []) else ""
    testFunction := String.ofList function.1
    parameters := String.ofList function.2
    sourceRevision := revision }

/-- The fields that come from the node ID. -/
def TestIdentity.fields (t : TestIdentity) : NodeFields :=
  ⟨t.testFile, t.testClass, t.testFunction, t.parameters⟩

theorem fields_fromPytestNodeid (sha256 : List UInt8 → String) (nodeID : List Char)
    (repository revision : String) :
    (TestIdentity.fromPytestNodeid sha256 nodeID repository revision).fields =
      fieldsOf splitRawFunction nodeID := by
  have hlast : ∀ parts : List (List Char),
      (if 1 < parts.length then parts.getLastD [] else parts.headD []) = parts.getLastD [] := by
    rintro (_ | ⟨part, _ | ⟨next, rest⟩⟩)
    · rfl
    · rfl
    · exact if_pos (by simp)
  simp only [TestIdentity.fields, TestIdentity.fromPytestNodeid, fieldsOf, hlast]

theorem splitsLast_splitRawFunction : SplitsLast splitRawFunction where
  last n := by
    rw [NodeName.last]
    cases n.parameters with
    | none =>
      have hall := ne_bracket_of_mem n.function_bracket
      rw [Option.elim_none, List.append_nil, splitRawFunction, partitionBracket,
        List.takeWhile_eq_self_iff.mpr hall, List.dropWhile_eq_nil_iff.mpr hall]
      rfl
    | some parameters =>
      rw [Option.elim_some, splitRawFunction, partitionBracket,
        takeWhile_bracket n.function_bracket, dropWhile_bracket n.function_bracket]
      simp
  length text h := by
    have hne : (text.dropWhile (· ≠ '[')).drop 1 ≠ [] := by
      intro hnil
      refine h ?_
      rw [splitRawFunction, partitionBracket, hnil]
      rfl
    rw [splitRawFunction, partitionBracket]
    split
    · exact lt_of_le_of_lt
        (Nat.add_le_add_left (List.dropLast_sublist _).length_le _) (length_bracket hne)
    · exact length_bracket hne

/-! ## The output -/

/-- `str.isspace` of a character, which is also `\s` of a regular expression. -/
def isSpaceChar (c : Char) : Bool := Str.isSpace c.toNat

/-- `s.strip()`. -/
def stripChars (s : List Char) : List Char := (s.dropWhile isSpaceChar).rdropWhile isSpaceChar

/-- What `text=True` makes of the ends of lines; the flag is for a line feed that follows a carriage
return. -/
def translateNewlines : Bool → List Char → List Char
  | _, [] => []
  | afterReturn, c :: rest =>
    if c = '\r' then '\n' :: translateNewlines true rest
    else if c = '\n' ∧ afterReturn then translateNewlines false rest
    else c :: translateNewlines false rest

/-- The characters at which `str.splitlines` ends a line. -/
def isLineBoundary (c : Char) : Bool :=
  c.toNat ∈ [0x0A, 0x0B, 0x0C, 0x0D, 0x1C, 0x1D, 0x1E, 0x85, 0x2028, 0x2029]

/-- `s.splitlines()` of a text without carriage returns, which may be half of an end of line. -/
def splitLines (s : List Char) : List (List Char) :=
  let parts := s.splitOnP isLineBoundary
  if parts.getLast? = some [] then parts.dropLast else parts

/-- The line is taken for a node ID. -/
def isCandidate (candidate : List Char) : Bool :=
  matchesNode isSpaceChar candidate && !(['='].isPrefixOf candidate || ['<'].isPrefixOf candidate)

/-- The node IDs in the output. -/
def scanCandidates (stdout : List Char) : List (List Char) :=
  ((splitLines (translateNewlines false stdout)).map stripChars).filter isCandidate

/-- How `subprocess.run` ends. -/
inductive CollectionRun : Type where
  /-- an `OSError` or a `TimeoutExpired` with this text -/
  | failed (text : String)
  | completed (returncode : ℤ) (stdout stderr : List Char)

/-- The texts of the process that the error of a failed collection shows. -/
def collectionDetail (stdout stderr : List Char) : List Char :=
  if stripChars stderr = [] then stripChars stdout else stripChars stderr

/-- `PytestAdapter.collect`; an `ExecutionError` is its text. -/
def collect (sha256 : List UInt8 → String) : CollectionRun → Except String (List TestIdentity)
  | .failed text => .error s!"pytest collection could not run: {text}"
  | .completed returncode stdout stderr =>
    let detail := String.ofList
      (collectionDetail (translateNewlines false stdout) (translateNewlines false stderr))
    if returncode ≠ 0 ∧ returncode ≠ 5 then
      .error s!"pytest collection failed with exit code {returncode}:\n{detail}"
    else if scanCandidates stdout = [] ∧ returncode ≠ 5 then
      .error "pytest reported success but no stable node IDs were discovered"
    else .ok ((scanCandidates stdout).map fun nodeID => .fromPytestNodeid sha256 nodeID)

/-! ## What is collected -/

variable {ids : List (List Char)} {summary : List Char}

theorem translateNewlines_eq {text : List Char} (h : '\r' ∉ text) :
    translateNewlines false text = text := by
  induction text with
  | nil => rfl
  | cons c rest ih =>
    rw [List.mem_cons, not_or] at h
    rw [translateNewlines, if_neg (Ne.symm h.1), if_neg (fun hand => Bool.false_ne_true hand.2),
      ih h.2]

theorem not_mem_collectionOutput (hids : ∀ id ∈ ids, IsNodeID isLineBoundary isSpaceChar id)
    (hsummary : IsSummary isLineBoundary summary) : '\r' ∉ collectionOutput ids summary := by
  have hno : ∀ {line : List Char}, (∀ c ∈ line, isLineBoundary c = false) → '\r' ∉ line :=
    fun h hmem => absurd (h _ hmem) (by decide)
  simp only [collectionOutput, List.mem_append, List.mem_flatMap, List.mem_cons, List.not_mem_nil,
    or_false, not_or, not_exists, not_and]
  exact ⟨fun id hid => ⟨hno (hids id hid).line, by decide⟩, by decide, hno hsummary.line,
    by decide⟩

/-- Those of the node IDs that match are found. -/
theorem scanCandidates_collectionOutput
    (hids : ∀ id ∈ ids, IsNodeID isLineBoundary isSpaceChar id)
    (hsummary : IsSummary isLineBoundary summary) :
    scanCandidates (collectionOutput ids summary) = ids.filter isCandidate := by
  have hsplit : (collectionOutput ids summary).splitOnP isLineBoundary =
      ids ++ [[], summary] ++ [[]] := by
    rw [splitOnP_collectionOutput (by decide) (fun id hid => (hids id hid).line) hsummary.line,
      List.append_assoc]
    rfl
  rw [scanCandidates, translateNewlines_eq (not_mem_collectionOutput hids hsummary), splitLines]
  simp only [hsplit]
  rw [List.getLast?_concat, if_pos rfl, List.dropLast_concat]
  exact filter_trimmed_lines (fun _ hmatch => (Bool.and_eq_true _ _ |>.mp hmatch).1) hids hsummary

/-- **Python collects every test** exactly if there is one and each is a candidate. -/
theorem collect_eq_ok_iff (sha256 : List UInt8 → String) (stderr : List Char)
    (hids : ∀ id ∈ ids, IsNodeID isLineBoundary isSpaceChar id)
    (hsummary : IsSummary isLineBoundary summary) :
    (∃ tests, collect sha256 (.completed 0 (collectionOutput ids summary) stderr) = .ok tests ∧
        tests.map TestIdentity.nodeID = ids.map String.ofList) ↔
      ids ≠ [] ∧ ∀ id ∈ ids, isCandidate id = true := by
  have hnodes : ∀ nodes : List (List Char),
      (nodes.map fun nodeID => TestIdentity.fromPytestNodeid sha256 nodeID).map
        TestIdentity.nodeID = nodes.map String.ofList := fun nodes => by
    rw [List.map_map]
    rfl
  rw [collect, scanCandidates_collectionOutput hids hsummary]
  simp only [ne_eq, not_true_eq_false, if_false, show ¬ (0 : ℤ) = 5 by decide,
    not_false_eq_true, and_true]
  refine ⟨fun ⟨tests, hok, htests⟩ => ?_, fun h => ?_⟩
  · split_ifs at hok with hnil
    obtain rfl := Except.ok.inj hok
    rw [hnodes, map_ofList_filter_eq_iff] at htests
    rw [List.filter_eq_self.mpr htests] at hnil
    exact ⟨hnil, htests⟩
  · rw [List.filter_eq_self.mpr h.2, if_neg h.1]
    exact ⟨_, rfl, hnodes ids⟩

end ConflictGraph.Py
