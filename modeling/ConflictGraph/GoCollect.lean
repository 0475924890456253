import ConflictGraph.GoText
import ConflictGraph.GoTypes
import ConflictGraph.NodeID

/-!
# Collecting tests in Go

`Pytest.Collect` reads the node IDs that `pytest --collect-only -q` prints, one to a line, and takes
each of them apart. What `pytest` prints is a text here, and so is every string made of it.
-/

namespace ConflictGraph.Go

/-! ## One node ID -/

/-- `stableID`, for a function `sha256` that gives the hexadecimal digest. -/
def stableID (sha256 : List UInt8 → String) (nodeID : String) : String :=
  "test_" ++ String.ofList
    ((sha256 (Utf8.encode ("local\x00pytest\x00" ++ nodeID).toList)).toList.take 24)

/-- The function and the parameters in the last part of a node ID. -/
def splitFunction (last : List Char) : List Char × List Char :=
  if '[' ∈ last ∧ last.getLast? = some ']' then
    (last.takeWhile (· ≠ '['), ((last.dropWhile (· ≠ '[')).drop 1).dropLast)
  else (last, [])

/-- The test that `Pytest.Collect` makes of a node ID. -/
def testOfNode (sha256 : List UInt8 → String) (node : List Char) : Test :=
  let parts := splitDouble ':' node
  let function := splitFunction (parts.getLastD [])
  { id := stableID sha256 (String.ofList node)
    nodeID := String.ofList node
    file := String.ofList (parts.headD [])
    class_ := if 2 < parts.length then String.ofList (parts.getD 1 []) else ""
    function := String.ofList function.1
    parameters := String.ofList function.2 }

/-- The fields that come from the node ID. -/
def Test.fields (t : Test) : NodeFields := ⟨t.file, t.class_, t.function, t.parameters⟩

theorem fields_testOfNode (sha256 : List UInt8 → String) (node : List Char) :
    (testOfNode sha256 node).fields = fieldsOf splitFunction node :=
  rfl

theorem splitsLast_splitFunction : SplitsLast splitFunction where
  last n := by
    rw [NodeName.last]
    cases n.parameters with
    | none =>
      rw [Option.elim_none, List.append_nil, splitFunction, if_neg fun h => n.function_bracket h.1]
      rfl
    | some parameters =>
      have hmem : '[' ∈ n.function ++ '[' :: (parameters ++ [']']) := by simp
      have hlast : (n.function ++ '[' :: (parameters ++ [']'])).getLast? = some ']' := by
        rw [← List.cons_append, ← List.append_assoc, List.getLast?_concat]
      rw [Option.elim_some, splitFunction, if_pos ⟨hmem, hlast⟩,
        takeWhile_bracket n.function_bracket, dropWhile_bracket n.function_bracket,
        List.drop_one, List.tail_cons, List.dropLast_concat]
      rfl
  length text h := by
    rw [splitFunction] at h ⊢
    split_ifs at h ⊢ with hbracket
    · have hne : (text.dropWhile (· ≠ '[')).drop 1 ≠ [] := by
        intro hnil
        exact h (congrArg List.dropLast hnil)
      exact lt_of_le_of_lt
        (Nat.add_le_add_left (List.dropLast_sublist _).length_le _) (length_bracket hne)
    · exact absurd rfl h

/-! ## The output -/

/-- `\s` of a regular expression. -/
def isRegexpSpace (c : Char) : Bool := c ∈ ['\t', '\n', Char.ofNat 12, '\r', ' ']

/-- How `command.Run` ends. -/
inductive CollectionExit : Type where
  | success
  /-- an `exec.ExitError` with this code, and its text -/
  | code (exitCode : ℤ) (text : String)
  /-- any other error -/
  | other (text : String)

/-- The error of `command.Run` that `Collect` does not put up with. -/
def CollectionExit.failure? : CollectionExit → Option String
  | .success => none
  | .code exitCode text => if exitCode = 5 then none else some text
  | .other text => some text

/-- The node IDs in the output, and whether a line of it is too long. -/
def scanNodes (stdout : List Char) : List (List Char) × Bool :=
  let scanned := scanLines '\n' '\r' lineSize stdout
  ((scanned.1.map trimSpace).filter (matchesNode isRegexpSpace), scanned.2)

/-- `Pytest.Collect`, when the command prints these texts. -/
def collect (sha256 : List UInt8 → String) (exit : CollectionExit) (stdout stderr : List Char) :
    Except String (List Test) :=
  exit.failure?.elim
    (if (scanNodes stdout).2 then
      .error "read pytest collection: bufio.Scanner: token too long"
    else if (scanNodes stdout).1 = [] then .error "pytest collected no stable node IDs"
    else .ok ((scanNodes stdout).1.map (testOfNode sha256)))
    fun text => .error s!"pytest collection failed: {text}: {String.ofList (trimSpace stderr)}"

/-! ## What is collected -/

/-- What ends a line, or is taken off with its end. -/
def isEndOfLine (c : Char) : Bool := c = '\n' ∨ c = '\r'

variable {ids : List (List Char)} {summary : List Char}

theorem rawLines_collectionOutput (hids : ∀ id ∈ ids, IsNodeID isEndOfLine isSpace id)
    (hsummary : IsSummary isEndOfLine summary) :
    rawLines '\n' (collectionOutput ids summary) = ids ++ [[], summary] := by
  have hline : ∀ {line : List Char}, (∀ c ∈ line, isEndOfLine c = false) →
      ∀ c ∈ line, (c == '\n') = false := fun h c hc =>
    eq_false_of_imp (fun heq => decide_eq_true (.inl (eq_of_beq heq))) (h c hc)
  have hsplit : (collectionOutput ids summary).splitOn '\n' = ids ++ [[], summary] ++ [[]] := by
    rw [List.splitOn_eq_splitOnP, splitOnP_collectionOutput (by decide)
      (fun id hid => hline (hids id hid).line) (hline hsummary.line), List.append_assoc]
    rfl
  simp only [rawLines, hsplit]
  rw [List.getLast?_concat, if_pos rfl, List.dropLast_concat]

theorem dropCR_eq {line : List Char} (h : ∀ c ∈ line, isEndOfLine c = false) :
    dropCR '\r' line = line := by
  rw [dropCR, if_neg]
  intro hlast
  exact absurd (h _ (List.mem_of_getLast? hlast)) (by decide)

/-- The scanner stops if a line is too long. -/
theorem scanNodes_snd (hids : ∀ id ∈ ids, IsNodeID isEndOfLine isSpace id)
    (hsummary : IsSummary isEndOfLine summary) :
    (scanNodes (collectionOutput ids summary)).2 = false ↔
      (∀ id ∈ ids, lineSize id < maxScanTokenSize) ∧ lineSize summary < maxScanTokenSize := by
  have hempty : lineSize [] < maxScanTokenSize := by decide
  simp only [scanNodes, scanLines, rawLines_collectionOutput hids hsummary, List.any_eq_false,
    decide_eq_true_eq, not_le, List.forall_mem_append, List.forall_mem_cons, hempty, true_and,
    List.not_mem_nil, false_imp_iff, implies_true, and_true]

/-- If it does not, those of the node IDs that match are found. -/
theorem scanNodes_fst (hids : ∀ id ∈ ids, IsNodeID isEndOfLine isSpace id)
    (hsummary : IsSummary isEndOfLine summary)
    (hshort : (scanNodes (collectionOutput ids summary)).2 = false) :
    (scanNodes (collectionOutput ids summary)).1 = ids.filter (matchesNode isRegexpSpace) := by
  have hlines := rawLines_collectionOutput hids hsummary
  have hall : ∀ line ∈ ids ++ [[], summary], decide (lineSize line < maxScanTokenSize) = true := by
    intro line hline
    have hnot := List.any_eq_false.mp hshort line (by rwa [hlines])
    rw [decide_eq_true_iff, not_le] at hnot
    exact decide_eq_true hnot
  have hreturn : ∀ line ∈ ids ++ [[], summary], dropCR '\r' line = line := by
    simp only [List.forall_mem_append, List.forall_mem_cons]
    exact ⟨fun id hid => dropCR_eq (hids id hid).line, dropCR_eq (by simp),
      dropCR_eq hsummary.line, by simp⟩
  rw [scanNodes, scanLines, hlines, List.takeWhile_eq_self_iff.mpr hall,
    List.map_congr_left hreturn, List.map_id']
  exact filter_trimmed_lines (fun _ hmatch => hmatch) hids hsummary

/-- **Go collects every test** exactly if there is one, each matches the pattern, and no line is too
long. -/
theorem collect_eq_ok_iff (sha256 : List UInt8 → String) (stderr : List Char)
    (hids : ∀ id ∈ ids, IsNodeID isEndOfLine isSpace id)
    (hsummary : IsSummary isEndOfLine summary) :
    (∃ tests, collect sha256 .success (collectionOutput ids summary) stderr = .ok tests ∧
        tests.map Test.nodeID = ids.map String.ofList) ↔
      ids ≠ [] ∧ (∀ id ∈ ids, matchesNode isRegexpSpace id = true ∧
        lineSize id < maxScanTokenSize) ∧ lineSize summary < maxScanTokenSize := by
  have hnodes : ∀ nodes : List (List Char),
      (nodes.map (testOfNode sha256)).map Test.nodeID = nodes.map String.ofList := fun nodes => by
    rw [List.map_map]
    rfl
  have hsnd := scanNodes_snd hids hsummary
  rw [collect, CollectionExit.failure?, Option.elim_none]
  cases hlong : (scanNodes (collectionOutput ids summary)).2 with
  | true =>
    rw [if_pos rfl]
    refine iff_of_false (fun ⟨tests, hok, _⟩ => by cases hok) fun h => ?_
    rw [hsnd.mpr ⟨fun id hid => (h.2.1 id hid).2, h.2.2⟩] at hlong
    cases hlong
  | false =>
    obtain ⟨hshort, hshortSummary⟩ := hsnd.mp hlong
    rw [scanNodes_fst hids hsummary hlong, if_neg Bool.false_ne_true]
    refine ⟨fun ⟨tests, hok, htests⟩ => ?_, fun h => ?_⟩
    · split_ifs at hok with hnil
      obtain rfl := Except.ok.inj hok
      rw [hnodes, map_ofList_filter_eq_iff] at htests
      rw [List.filter_eq_self.mpr htests] at hnil
      exact ⟨hnil, fun id hid => ⟨htests id hid, hshort id hid⟩, hshortSummary⟩
    · have hfilter : ids.filter (matchesNode isRegexpSpace) = ids :=
        List.filter_eq_self.mpr fun id hid => (h.2.1 id hid).1
      rw [hfilter, if_neg h.1]
      exact ⟨_, rfl, hnodes ids⟩

end ConflictGraph.Go
