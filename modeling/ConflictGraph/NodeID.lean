import Mathlib.Data.List.DropRight
import ConflictGraph.DoubledSeparator

/-!
# Node IDs of pytest

`pytest` names a test by its file, the class it may be in, its function, and the parameters it may
have. Both adapters find such names in the output by one pattern, and take them apart again.
-/

namespace ConflictGraph

/-! ## The name -/

/-- What a node ID is made of. -/
structure NodeName : Type where
  file : List Char
  class_ : Option (List Char)
  function : List Char
  parameters : Option (List Char)
  file_undoubled : Undoubled ':' file
  function_undoubled : Undoubled ':' function
  function_bracket : '[' ∉ function

/-- The four fields that are made of a node ID. -/
structure NodeFields : Type where
  file : String
  class_ : String
  function : String
  parameters : String
  deriving DecidableEq

namespace NodeName

/-- The function with its parameters. -/
def last (n : NodeName) : List Char :=
  n.function ++ n.parameters.elim [] fun parameters => '[' :: (parameters ++ [']'])

/-- `file::class::function[parameters]`. -/
def text (n : NodeName) : List Char :=
  n.file ++ ':' :: ':' ::
    n.class_.elim n.last fun class_ => class_ ++ ':' :: ':' :: n.last

/-- The fields that a node ID is made of; what is missing is empty. -/
def fields (n : NodeName) : NodeFields :=
  ⟨String.ofList n.file, String.ofList (n.class_.getD []), String.ofList n.function,
    String.ofList (n.parameters.getD [])⟩

/-- No separator begins in the name but where the parts meet. -/
structure Plain (n : NodeName) : Prop where
  file : n.file.getLast? ≠ some ':'
  class_ : ∀ class_ ∈ n.class_, Undoubled ':' class_ ∧ class_.getLast? ≠ some ':'
  parameters : ∀ parameters ∈ n.parameters, Undoubled ':' parameters

end NodeName

/-! ## Taking a name apart -/

/-- The fields that are made of a node ID, if `split` takes its last part apart. -/
def fieldsOf (split : List Char → List Char × List Char) (text : List Char) : NodeFields :=
  let parts := splitDouble ':' text
  let function := split (parts.getLastD [])
  ⟨String.ofList (parts.headD []),
    if 2 < parts.length then String.ofList (parts.getD 1 []) else "",
    String.ofList function.1, String.ofList function.2⟩

/-- The last part of a name is taken apart as it was put together, and that of any text without
making it longer. -/
structure SplitsLast (split : List Char → List Char × List Char) : Prop where
  last : ∀ n : NodeName, split n.last = (n.function, n.parameters.getD [])
  length : ∀ text, (split text).2 ≠ [] →
    (split text).1.length + (split text).2.length < text.length

variable {n : NodeName} {split : List Char → List Char × List Char}

/-- The first part of a list of parts. -/
theorem head?_of_headD {parts : List (List Char)} {part : List Char} (hne : parts ≠ [])
    (h : String.ofList (parts.headD []) = String.ofList part) : parts.head? = some part := by
  cases parts with
  | nil => exact absurd rfl hne
  | cons first rest => rw [List.head?_cons, ← String.ofList_injective h, List.headD_cons]

/-- The parameters come out as they went in only if there is no separator in them: what follows
the last separator is too short. -/
theorem undoubled_of_split (hsplit : SplitsLast split)
    (hfunction : (split ((splitDouble ':' n.last).getLastD [])).1 = n.function)
    (hparameters : (split ((splitDouble ':' n.last).getLastD [])).2 = n.parameters.getD []) :
    ∀ parameters ∈ n.parameters, Undoubled ':' parameters := by
  intro parameters hmem
  by_contra hdoubled
  have hlast : n.last = n.function ++ '[' :: (parameters ++ [']']) := by
    rw [NodeName.last, Option.mem_def.mp hmem, Option.elim_some]
  have hnot : ¬ Undoubled ':' n.last := by
    rw [hlast, undoubled_append_cons (by decide), undoubled_append_cons (by decide)]
    exact fun h => hdoubled h.2.1
  obtain ⟨part, hpart⟩ := List.getLast?_isSome.mpr (splitDouble_ne_nil ':' n.last) |>
    Option.isSome_iff_exists.mp
  have hshort := length_getLast_splitDouble hpart hnot
  rw [List.getLastD_eq_getLast?, hpart, Option.getD_some] at hfunction hparameters
  rw [Option.mem_def.mp hmem, Option.getD_some] at hparameters
  have hne : parameters ≠ [] := by
    rintro rfl
    exact hdoubled List.isChain_nil
  have hlength := hsplit.length part (hparameters ▸ hne)
  rw [hfunction, hparameters] at hlength
  rw [hlast] at hshort
  simp only [List.length_append, List.length_cons, List.length_nil] at hshort
  omega

theorem undoubled_last (h : ∀ parameters ∈ n.parameters, Undoubled ':' parameters) :
    Undoubled ':' n.last := by
  rw [NodeName.last]
  cases hparameters : n.parameters with
  | none =>
    rw [Option.elim_none, List.append_nil]
    exact n.function_undoubled
  | some parameters =>
    rw [Option.elim_some, undoubled_append_cons (by decide), undoubled_append_cons (by decide)]
    exact ⟨n.function_undoubled, h parameters hparameters, List.isChain_nil⟩

/-- At its separators the text of a name comes apart into the file and the rest. -/
theorem splitDouble_text (hfile : Undoubled ':' (n.file ++ [':'])) : splitDouble ':' n.text =
    n.file :: splitDouble ':'
      (n.class_.elim n.last fun class_ => class_ ++ ':' :: ':' :: n.last) :=
  splitDouble_append hfile

theorem splitDouble_class {class_ : List Char} (hclass : n.class_ = some class_)
    (hfile : Undoubled ':' (n.file ++ [':'])) (h : Undoubled ':' (class_ ++ [':'])) :
    splitDouble ':' n.text = n.file :: class_ :: splitDouble ':' n.last := by
  rw [splitDouble_text hfile, hclass, Option.elim_some, splitDouble_append h]

theorem getLastD_cons_of_ne_nil {part : List Char} {parts : List (List Char)} (h : parts ≠ []) :
    (part :: parts).getLastD [] = parts.getLastD [] := by
  rw [List.getLastD_eq_getLast?, List.getLast?_cons_of_ne_nil h, List.getLastD_eq_getLast?]

theorem getD_zero (parts : List (List Char)) : parts.getD 0 [] = parts.headD [] := by
  cases parts <;> rfl

/-- A name that comes out as it went in is plain. -/
theorem plain_of_fieldsOf (hsplit : SplitsLast split) (h : fieldsOf split n.text = n.fields) :
    n.Plain := by
  obtain ⟨hfile, hclass, hfunction, hparameters⟩ := NodeFields.mk.inj h
  have hfunction := String.ofList_injective hfunction
  have hparameters := String.ofList_injective hparameters
  have hcut : Undoubled ':' (n.file ++ [':']) :=
    undoubled_of_head (head?_of_headD (splitDouble_ne_nil _ _) hfile)
  have hnotLast := (undoubled_append_singleton.mp hcut).2
  cases hsome : n.class_ with
  | none =>
    rw [splitDouble_text hcut, hsome, Option.elim_none,
      getLastD_cons_of_ne_nil (splitDouble_ne_nil _ _)] at hfunction hparameters
    exact ⟨hnotLast, fun class_ hmem => absurd (hsome ▸ hmem) (Option.not_mem_none class_),
      undoubled_of_split hsplit hfunction hparameters⟩
  | some class_ =>
    have hdoubled : ¬ Undoubled ':' (class_ ++ ':' :: ':' :: n.last) := by
      rw [undoubled_iff, not_not]
      exact ⟨class_, n.last, by rw [List.append_assoc]; rfl⟩
    have hcutClass : Undoubled ':' (class_ ++ [':']) := by
      have htwo := two_le_length_splitDouble hdoubled
      rw [splitDouble_text hcut, hsome, Option.elim_some, List.length_cons, if_pos (by omega),
        List.getD_cons_succ, getD_zero] at hclass
      exact undoubled_of_head (head?_of_headD (splitDouble_ne_nil _ _) hclass)
    rw [splitDouble_class hsome hcut hcutClass, getLastD_cons_of_ne_nil (List.cons_ne_nil _ _),
      getLastD_cons_of_ne_nil (splitDouble_ne_nil _ _)] at hfunction hparameters
    refine ⟨hnotLast, fun other hmem => ?_, undoubled_of_split hsplit hfunction hparameters⟩
    obtain rfl := Option.some.inj (hsome.symm.trans hmem)
    exact undoubled_append_singleton.mp hcutClass

/-- **A name is taken apart as it was put together** exactly if it is plain. -/
theorem fieldsOf_text_iff (hsplit : SplitsLast split) (n : NodeName) :
    fieldsOf split n.text = n.fields ↔ n.Plain := by
  refine ⟨plain_of_fieldsOf hsplit, fun h => ?_⟩
  have hcut := undoubled_append_singleton.mpr ⟨n.file_undoubled, h.file⟩
  have hlast := splitDouble_of_undoubled (undoubled_last h.parameters)
  cases hsome : n.class_ with
  | none =>
    have hparts : splitDouble ':' n.text = [n.file, n.last] := by
      rw [splitDouble_text hcut, hsome, Option.elim_none, hlast]
    simp [fieldsOf, hparts, NodeName.fields, hsome, hsplit.last]
  | some class_ =>
    have hcutClass := undoubled_append_singleton.mpr (h.class_ class_ hsome)
    have hparts : splitDouble ':' n.text = [n.file, class_, n.last] := by
      rw [splitDouble_class hsome hcut hcutClass, hlast]
    simp [fieldsOf, hparts, NodeName.fields, hsome, hsplit.last]

/-! ## The opening bracket -/

theorem ne_bracket_of_mem {function : List Char} (h : '[' ∉ function) :
    ∀ c ∈ function, decide (c ≠ '[') = true := fun _ hc =>
  decide_eq_true fun heq => h (heq ▸ hc)

theorem takeWhile_bracket {function : List Char} (h : '[' ∉ function) (rest : List Char) :
    (function ++ '[' :: rest).takeWhile (· ≠ '[') = function := by
  rw [List.takeWhile_append_of_pos (ne_bracket_of_mem h), List.takeWhile_cons_of_neg (by simp),
    List.append_nil]

theorem dropWhile_bracket {function : List Char} (h : '[' ∉ function) (rest : List Char) :
    (function ++ '[' :: rest).dropWhile (· ≠ '[') = '[' :: rest := by
  rw [List.dropWhile_append_of_pos (ne_bracket_of_mem h), List.dropWhile_cons_of_neg (by simp)]

/-- What is before the bracket and what is after it leave the bracket out. -/
theorem length_bracket {text : List Char} (h : (text.dropWhile (· ≠ '[')).drop 1 ≠ []) :
    (text.takeWhile (· ≠ '[')).length + ((text.dropWhile (· ≠ '[')).drop 1).length <
      text.length := by
  have hsplit := congrArg List.length
    (List.takeWhile_append_dropWhile (p := fun c => decide (c ≠ '[')) (l := text))
  rw [List.length_append] at hsplit
  have hpos := List.length_pos_of_ne_nil h
  rw [List.length_drop] at hpos ⊢
  omega

/-! ## The output of a collection -/

/-- `^[^\s]+::[^\s]+$`, for what `\s` stands for: no white space, and a separator with something
before and after it. -/
def matchesNode (isSpace : Char → Bool) (text : List Char) : Bool :=
  text.all (fun c => !isSpace c) && decide ([':', ':'] <:+: text.tail.dropLast)

/-- What `pytest` prints when it collects these tests. -/
def collectionOutput (ids : List (List Char)) (summary : List Char) : List Char :=
  ids.flatMap (· ++ ['\n']) ++ '\n' :: (summary ++ ['\n'])

/-- A node ID on a line of its own, for what ends a line and what white space is. -/
structure IsNodeID (isBreak isSpace : Char → Bool) (id : List Char) : Prop where
  separator : [':', ':'] <:+: id
  line : ∀ c ∈ id, isBreak c = false
  head : ∀ c ∈ id.head?, isSpace c = false
  last : ∀ c ∈ id.getLast?, isSpace c = false

/-- A line that holds no node ID. -/
structure IsSummary (isBreak : Char → Bool) (summary : List Char) : Prop where
  separator : ¬ [':', ':'] <:+: summary
  line : ∀ c ∈ summary, isBreak c = false

variable {isBreak isBreak' isSpace isSpace' : Char → Bool} {id summary text : List Char}
  {ids : List (List Char)}

theorem eq_false_of_imp {b b' : Bool} (h : b' = true → b = true) (hb : b = false) : b' = false :=
  Bool.eq_false_iff.mpr fun hb' => Bool.eq_false_iff.mp hb (h hb')

theorem IsNodeID.mono (h : IsNodeID isBreak isSpace id)
    (hbreak : ∀ c, isBreak' c = true → isBreak c = true)
    (hspace : ∀ c, isSpace' c = true → isSpace c = true) : IsNodeID isBreak' isSpace' id where
  separator := h.separator
  line c hc := eq_false_of_imp (hbreak c) (h.line c hc)
  head c hc := eq_false_of_imp (hspace c) (h.head c hc)
  last c hc := eq_false_of_imp (hspace c) (h.last c hc)

/-- What matches has no white space, and a separator inside. -/
theorem matchesNode_iff : matchesNode isSpace text = true ↔
    (∀ c ∈ text, isSpace c = false) ∧ [':', ':'] <:+: text.tail.dropLast := by
  rw [matchesNode, Bool.and_eq_true, List.all_eq_true, decide_eq_true_iff]
  simp only [Bool.not_eq_true']

/-- The lines of the output. -/
theorem splitOnP_collectionOutput (hnewline : isBreak '\n' = true)
    (hids : ∀ id ∈ ids, ∀ c ∈ id, isBreak c = false) (hsummary : ∀ c ∈ summary, isBreak c = false) :
    (collectionOutput ids summary).splitOnP isBreak = ids ++ [[], summary, []] := by
  rw [collectionOutput]
  induction ids with
  | nil =>
    rw [List.flatMap_nil, List.nil_append, List.nil_append,
      ← List.nil_append ('\n' :: (summary ++ ['\n'])),
      List.splitOnP_append_cons_of_forall_mem (by simp) _ hnewline,
      List.splitOnP_append_cons_of_forall_mem hsummary _ hnewline, List.splitOnP_nil]
  | cons id rest ih =>
    rw [List.forall_mem_cons] at hids
    rw [List.flatMap_cons, List.append_assoc, List.append_assoc, List.singleton_append,
      List.splitOnP_append_cons_of_forall_mem hids.1 _ hnewline, ih hids.2, List.cons_append]

/-- A node ID is trimmed. -/
theorem IsNodeID.trim_eq (h : IsNodeID isBreak isSpace id) :
    (id.dropWhile isSpace).rdropWhile isSpace = id := by
  have hleft : id.dropWhile isSpace = id := by
    cases id with
    | nil => rfl
    | cons c rest => exact List.dropWhile_cons_of_neg (by simp [h.head c rfl])
  rw [hleft, List.rdropWhile_eq_self_iff]
  intro hne
  rw [h.last _ (List.getLast?_eq_some_getLast hne)]
  exact Bool.false_ne_true

/-- The other lines are not taken for node IDs. -/
theorem IsSummary.not_matchesNode (h : IsSummary isBreak summary) (isSpace trim : Char → Bool) :
    matchesNode isSpace ((summary.dropWhile trim).rdropWhile trim) = false := by
  refine Bool.eq_false_iff.mpr fun hmatch => h.separator ?_
  have hinner := (matchesNode_iff.mp hmatch).2
  have htrimmed := (List.rdropWhile_prefix trim (summary.dropWhile trim)).isInfix.trans
    (List.dropWhile_suffix trim).isInfix
  exact hinner.trans <| (List.dropLast_prefix _).isInfix.trans <|
    (List.tail_suffix _).isInfix.trans htrimmed

theorem isSummary_nil : IsSummary isBreak [] := ⟨by decide, by simp⟩

/-- **Of the trimmed lines** the accepted node IDs are found, and nothing else. -/
theorem filter_trimmed_lines {accept : List Char → Bool} {pattern : Char → Bool}
    (haccept : ∀ text, accept text = true → matchesNode pattern text = true)
    (hids : ∀ id ∈ ids, IsNodeID isBreak isSpace id) (hsummary : IsSummary isBreak summary) :
    ((ids ++ [[], summary]).map fun line =>
      (line.dropWhile isSpace).rdropWhile isSpace).filter accept = ids.filter accept := by
  have htrim : (ids.map fun line => (line.dropWhile isSpace).rdropWhile isSpace) = ids :=
    (List.map_congr_left fun id hid => (hids id hid).trim_eq).trans (List.map_id' ids)
  have hno : ∀ {line : List Char}, IsSummary isBreak line →
      accept ((line.dropWhile isSpace).rdropWhile isSpace) = false := fun h =>
    eq_false_of_imp (haccept _) (h.not_matchesNode pattern isSpace)
  have hrest : ([[], summary].map fun line =>
      (line.dropWhile isSpace).rdropWhile isSpace).filter accept = [] := by
    rw [List.filter_eq_nil_iff]
    simp only [List.map_cons, List.map_nil, List.forall_mem_cons, Bool.not_eq_true]
    exact ⟨hno isSummary_nil, hno hsummary, by simp⟩
  rw [List.map_append, htrim, List.filter_append, hrest, List.append_nil]

/-- What is kept of the node IDs is all of them if each is accepted. -/
theorem map_ofList_filter_eq_iff {accept : List Char → Bool} :
    (ids.filter accept).map String.ofList = ids.map String.ofList ↔
      ∀ id ∈ ids, accept id = true := by
  rw [(List.map_injective_iff.mpr fun _ _ => String.ofList_injective).eq_iff,
    List.filter_eq_self]

end ConflictGraph
