import Mathlib.Data.List.Sort
import ConflictGraph.PyIndented
import ConflictGraph.Shelf

/-!
# The artifact store

`ArtifactStore` keeps documents in files, each under a category and an identifier. Saves take
their turns at the lock, may fail or be killed at any file operation, and are not waited for by
those who load. Its categories and identifiers are checked before they get into a path, so two
documents are never in one file, and `load` returns of each name what was last saved under it
(`load_eq_latest`). `list` returns the newest documents of a category (`exists_list_eq`).
-/

namespace ConflictGraph.Py

open Str

/-! ## Names -/

/-- The characters of a category or an identifier, where `isAlnum` is `str.isalnum` of one. -/
def isSafe (isAlnum : ℕ → Bool) (c : ℕ) : Bool := isAlnum c || c = 45 || c = 95

/-- A part of a path that `_safe_segment` lets through. -/
structure Segment (isAlnum : ℕ → Bool) : Type where
  text : Str
  nonempty : text ≠ []
  safe : ∀ c ∈ text, isSafe isAlnum c = true
  deriving DecidableEq

theorem Segment.eq_of_text {isAlnum : ℕ → Bool} :
    ∀ {segment segment' : Segment isAlnum}, segment.text = segment'.text → segment = segment'
  | ⟨_, _, _⟩, ⟨_, _, _⟩, rfl => rfl

structure ArtifactName (isAlnum : ℕ → Bool) : Type where
  category : Segment isAlnum
  identifier : Segment isAlnum
  deriving DecidableEq

/-- The exceptions of the store. -/
inductive StoreError : Type where
  /-- the `StorageError` of `_safe_segment` -/
  | segment (message : String)
  | file (error : StorageError)
  /-- the `FileNotFoundError` of `read_text` -/
  | missing
  deriving DecidableEq

/-- `_safe_segment`. -/
def safeSegment (isAlnum : ℕ → Bool) (value : Str) (label : String) :
    Except StoreError (Segment isAlnum) :=
  if h : value.filter (isSafe isAlnum) = [] ∨ value.filter (isSafe isAlnum) ≠ value then
    .error (.segment ("artifact " ++ label ++ " contains unsafe characters"))
  else .ok
    { text := value.filter (isSafe isAlnum)
      nonempty := fun hnil => h (.inl hnil)
      safe := fun _ hc => (List.mem_filter.mp hc).2 }

/-! ## The store -/

/-- A document with the text that `save` writes of it. -/
structure Document (interpreter : Interpreter) : Type where
  value : Json
  text : Str
  written : artifactText interpreter value = some text

/-- What is saved of a value; `none` is the exception of `json.dumps`. -/
def document? (interpreter : Interpreter) (value : Json) : Option (Document interpreter) :=
  match h : artifactText interpreter value with
  | some text => some ⟨value, text, h⟩
  | none => none

theorem document?_eq_some {interpreter : Interpreter} {value : Json} {text : Str}
    (h : artifactText interpreter value = some text) :
    document? interpreter value = some ⟨value, text, h⟩ := by
  unfold document?
  split
  · rename_i other hother
    obtain rfl := Option.some.inj (h.symm.trans hother)
    rfl
  · rename_i hnone
    cases h.symm.trans hnone

/-- An `ArtifactStore` and the interpreter that runs it. -/
structure StoreSetting : Type where
  interpreter : Interpreter
  isAlnum : ℕ → Bool
  root : Str
  /-- a slash is neither a letter nor a digit -/
  isAlnum_slash : isAlnum 47 = false

inductive StoreAction : Type where
  /-- a thread that has the lock saves a value, whose text gets into the file in these chunks -/
  | save (category identifier : Str) (value : Json) (chunks : List Str)
  | write (now : ℕ)
  /-- the save raises an exception, or the process is killed -/
  | abandon

namespace StoreSetting

variable (c : StoreSetting)

theorem slash_not_mem (segment : Segment c.isAlnum) : 47 ∉ segment.text := fun h => by
  have hsafe := segment.safe 47 h
  simp [isSafe, c.isAlnum_slash] at hsafe

def stem (name : ArtifactName c.isAlnum) : Str :=
  artifactStem c.root name.category.text name.identifier.text

/-- **The parts of a path** can be read off it. -/
theorem artifactStem_inj {root category category' identifier identifier' suffix : Str}
    (hcategory : 47 ∉ category) (hidentifier : 47 ∉ identifier)
    (h : artifactStem root category identifier ++ suffix =
      artifactStem root category' identifier' ++ suffix) :
    category = category' ∧ identifier = identifier' := by
  have hrest := (List.cons.inj (List.append_cancel_left (List.append_cancel_right h))).2
  obtain ⟨rfl, -, rfl⟩ := (List.append_cons_inj_of_notMem hcategory hidentifier).mp hrest
  exact ⟨rfl, rfl⟩

/-- The stem tells the name. -/
theorem stem_inj {name name' : ArtifactName c.isAlnum} {suffix : Str}
    (h : c.stem name ++ suffix = c.stem name' ++ suffix) : name = name' := by
  obtain ⟨hcategory, hidentifier⟩ := artifactStem_inj (c.slash_not_mem name.category)
    (c.slash_not_mem name.identifier) h
  rcases name with ⟨category, identifier⟩
  rcases name' with ⟨category', identifier'⟩
  obtain rfl : category = category' := Segment.eq_of_text hcategory
  obtain rfl : identifier = identifier' := Segment.eq_of_text hidentifier
  rfl

/-- No document has the name of a temporary file. -/
theorem json_ne_tmp (s t : Str) : s ++ str ".json" ≠ t ++ str ".tmp" := fun h => by
  have hlast := congrArg List.getLast? h
  rw [List.getLast?_append, List.getLast?_append] at hlast
  exact absurd (show (some 110 : Option ℕ) = some 112 from hlast) (by decide)

def paths : ShelfPaths (ArtifactName c.isAlnum) Str where
  path name := c.stem name ++ str ".json"
  temporary name := c.stem name ++ str ".tmp"
  path_injective _ _ h := c.stem_inj h
  path_ne_temporary _ _ := json_ne_tmp _ _

/-- The files of the store, and the save that has the lock. -/
abbrev Store : Type := Shelf (ArtifactName c.isAlnum) Str (Document c.interpreter) ℕ

def name (category identifier : Str) : Except StoreError (ArtifactName c.isAlnum) := do
  let category ← safeSegment c.isAlnum category "category"
  let identifier ← safeSegment c.isAlnum identifier "identifier"
  return ⟨category, identifier⟩

/-- What an action is for the files; `none` is an exception before any of them is opened. -/
def shelfAction? :
    StoreAction → Option (ShelfAction (ArtifactName c.isAlnum) (Document c.interpreter) ℕ)
  | .save category identifier value chunks =>
    match c.name category identifier, document? c.interpreter value with
    | .ok name, some document => some (.save name document chunks)
    | _, _ => none
  | .write now => some (.write now)
  | .abandon => some .abandon

def step (s : c.Store) (a : StoreAction) : Option c.Store :=
  match c.shelfAction? a with
  | some a => Shelf.step c.paths Document.text s a
  | none => some s

/-- The documents that a run has saved, in their order. -/
def saves (actions : List StoreAction) :
    List (SavedDocument (ArtifactName c.isAlnum) (Document c.interpreter)) :=
  Shelf.savedOf c.paths
    (visits (Shelf.step c.paths Document.text) {} (actions.filterMap c.shelfAction?))

/-- `load`. -/
def load (s : c.Store) (category identifier : Str) :
    Except StoreError (Option (List (Str × Json))) := do
  let name ← c.name category identifier
  (Py.load c.interpreter (s.files (c.paths.path name))).mapError .file

/-- What `list` makes of a file that it has found. -/
def found : Except StorageError (Option (List (Str × Json))) →
    Except StoreError (List (Str × Json))
  | .ok (some members) => .ok members
  | .ok none => .error .missing
  | .error e => .error (.file e)

/-- The paths in the order of their times, the newest first. -/
def newestFirst (s : c.Store) (globbed : List Str) : List Str :=
  globbed.mergeSort fun p q => (s.mtimes q).getD 0 ≤ (s.mtimes p).getD 0

/-- `list`, where `globbed` is what `glob` finds in the directory. -/
def list (s : c.Store) (category : Str) (limit : ℤ) (globbed : List Str) :
    Except StoreError (List (List (Str × Json))) := do
  let _ ← safeSegment c.isAlnum category "category"
  if limit ≤ 0 then return []
  else ((c.newestFirst s globbed).take (min limit 500).toNat).mapM fun path =>
    found (Py.load c.interpreter (s.files path))

/-- `glob("*.json")` finds each file of the directory with that suffix once. -/
structure Globs (s : c.Store) (category : Segment c.isAlnum) (globbed : List Str) : Prop where
  nodup : globbed.Nodup
  mem_iff : ∀ path, path ∈ globbed ↔ (s.files path).isSome = true ∧
    ∃ file, 47 ∉ file ∧ path = artifactStem c.root category.text file ++ str ".json"

/-! ## What is loaded -/

/-- What is loaded of a document that was saved. -/
def loaded (value : Json) : Except StorageError (Option (List (Str × Json))) :=
  match sorted value with
  | .object members => .ok (some members)
  | _ => .error .notAnObject

variable {c} {actions : List StoreAction} {s : c.Store}

/-- What is loaded under a name, when this was last saved under it. -/
def loadedEntry : Option (SavedDocument (ArtifactName c.isAlnum) (Document c.interpreter)) →
    Except StoreError (Option (List (Str × Json)))
  | none => .ok none
  | some e => (loaded e.document.value).mapError .file

/-- A run of the store is a run of the shelf. -/
theorem runFrom_eq : ∀ {s t : c.Store}, runFrom c.step s actions = some t →
    runFrom (Shelf.step c.paths Document.text) s (actions.filterMap c.shelfAction?) = some t := by
  induction actions with
  | nil => exact fun h => h
  | cons a rest ih =>
    intro s t hrun
    obtain ⟨m, hstep, hrest⟩ := runFrom_cons.mp hrun
    rw [step] at hstep
    rcases ha : c.shelfAction? a with _ | b
    · rw [ha] at hstep
      obtain rfl := Option.some.inj hstep
      rw [List.filterMap_cons_none ha]
      exact ih hrest
    · rw [ha] at hstep
      rw [List.filterMap_cons_some ha]
      exact runFrom_cons.mpr ⟨m, hstep, ih hrest⟩

/-- **The files are what was saved.** -/
theorem shelved (hrun : runFrom c.step {} actions = some s) :
    Shelf.Shelved c.paths Document.text (c.saves actions) s :=
  Shelf.shelved_of_run (runFrom_eq hrun)

/-- Loading the text of a document gives the document, sorted. -/
theorem load_text {d : Document c.interpreter}
    (h : Carried c.interpreter c.interpreter.loadsDepth d.value) :
    Py.load c.interpreter (some d.text) = loaded d.value := by
  rw [Py.load, loads_artifactText h d.written, loaded]
  rcases sorted d.value <;> rfl

/-- A store whose names are ASCII. -/
def asciiStore : StoreSetting where
  interpreter := asciiInterpreter
  isAlnum c := isAsciiDigit c || (65 ≤ c && c ≤ 90) || (97 ≤ c && c ≤ 122)
  root := str "artifacts"
  isAlnum_slash := rfl

/-- A graph with this identifier. -/
def graphName (identifier : Str) (hne : identifier ≠ [])
    (hsafe : ∀ c ∈ identifier, isSafe asciiStore.isAlnum c = true) :
    ArtifactName asciiStore.isAlnum where
  category := ⟨str "graphs", by decide, by decide⟩
  identifier := ⟨identifier, hne, hsafe⟩

def latestGraph : ArtifactName asciiStore.isAlnum :=
  graphName (str "latest") (by decide) (by decide)

def weeklyGraph : ArtifactName asciiStore.isAlnum :=
  graphName (str "weekly") (by decide) (by decide)

/-- A graph with two tests. -/
def testsGraph : Json := .object
  [(str "tests", .array [.string (str "t"), .string (str "u")]), (str "edges", .array [])]

def testsGraphText : Str :=
  str "\x7b\n  \"edges\": [],\n  \"tests\": [\n    \"t\",\n    \"u\"\n  ]\n\x7d\n"

def emptyDocument : Document asciiStore.interpreter :=
  ⟨emptyGraph, emptyGraphText, artifactText_emptyGraph⟩

def testsDocument : Document asciiStore.interpreter :=
  ⟨testsGraph, testsGraphText, by decide +kernel⟩

theorem carried_testsGraph : Carried asciiStore.interpreter asciiStore.interpreter.loadsDepth
    testsGraph :=
  carried_of_isPlain (fun _ h => absurd h List.not_mem_nil)
    (by decide +kernel : isPlain [] 900 testsGraph = true)

/-- A graph is saved, then another, which is saved once more, in two chunks; then a save of the
first is given up half way. -/
def graphActions : List StoreAction :=
  [.save (str "graphs") (str "weekly") testsDocument.value [testsGraphText],
    .write 1, .write 2, .write 3,
    .save (str "graphs") (str "latest") emptyDocument.value [emptyGraphText],
    .write 4, .write 5, .write 6,
    .save (str "graphs") (str "latest") testsDocument.value
      [testsGraphText.take 9, testsGraphText.drop 9],
    .write 7, .write 8, .write 9, .write 10,
    .save (str "graphs") (str "weekly") emptyDocument.value [emptyGraphText], .write 11, .abandon]

/-- What was saved, and when. -/
def graphSaves : List (SavedDocument (ArtifactName asciiStore.isAlnum)
    (Document asciiStore.interpreter)) :=
  [⟨weeklyGraph, testsDocument, 2⟩, ⟨latestGraph, emptyDocument, 5⟩, ⟨latestGraph, testsDocument, 9⟩]

theorem shelfAction?_save {identifier : Str} {name : ArtifactName asciiStore.isAlnum}
    (d : Document asciiStore.interpreter) (chunks : List Str)
    (hname : asciiStore.name (str "graphs") identifier = .ok name) :
    asciiStore.shelfAction? (.save (str "graphs") identifier d.value chunks) =
      some (.save name d chunks) := by
  rw [shelfAction?, hname, document?_eq_some d.written]

theorem name_latestGraph : asciiStore.name (str "graphs") (str "latest") = .ok latestGraph := by
  decide

theorem name_weeklyGraph : asciiStore.name (str "graphs") (str "weekly") = .ok weeklyGraph := by
  decide

theorem exists_graph_run : ∃ s, runFrom asciiStore.step {} graphActions = some s ∧
    asciiStore.saves graphActions = graphSaves := by
  have hfirst := shelfAction?_save testsDocument [testsGraphText] name_weeklyGraph
  have hsecond := shelfAction?_save emptyDocument [emptyGraphText] name_latestGraph
  have hthird :=
    shelfAction?_save testsDocument [testsGraphText.take 9, testsGraphText.drop 9] name_latestGraph
  have hlast := shelfAction?_save emptyDocument [emptyGraphText] name_weeklyGraph
  have hactions : graphActions.filterMap asciiStore.shelfAction? =
      [.save weeklyGraph testsDocument [testsGraphText], .write 1, .write 2, .write 3,
        .save latestGraph emptyDocument [emptyGraphText], .write 4, .write 5, .write 6,
        .save latestGraph testsDocument [testsGraphText.take 9, testsGraphText.drop 9],
        .write 7, .write 8, .write 9, .write 10,
        .save weeklyGraph emptyDocument [emptyGraphText], .write 11, .abandon] := by
    simp only [graphActions, List.filterMap_cons, List.filterMap_nil, hfirst, hsecond, hthird, hlast]
    rfl
  have hrun : (runFrom asciiStore.step {} graphActions).isSome = true := by
    simp only [graphActions, runFrom, step, hfirst, hsecond, hthird, hlast]
    rfl
  obtain ⟨s, hs⟩ := Option.isSome_iff_exists.mp hrun
  refine ⟨s, hs, ?_⟩
  rw [saves, hactions]
  rfl

theorem carried_graphSaves : ∀ e ∈ graphSaves,
    Carried asciiStore.interpreter asciiStore.interpreter.loadsDepth e.document.value := by
  simp only [graphSaves, List.forall_mem_cons]
  exact ⟨carried_testsGraph, carried_emptyGraph, carried_testsGraph, List.forall_mem_nil _⟩

/-- The newest documents of a category, the newest first: as many as the limit allows, of each
name what was last saved under it, and none that is left out is newer. -/
structure Newest (log : List (SavedDocument (ArtifactName c.isAlnum) (Document c.interpreter)))
    (category : Segment c.isAlnum) (limit : ℕ)
    (entries : List (SavedDocument (ArtifactName c.isAlnum) (Document c.interpreter))) :
    Prop where
  latest : ∀ e ∈ entries, e.key.category = category ∧ latest log e.key = some e
  nodup : (entries.map (·.key)).Nodup
  ordered : entries.Pairwise fun e f => f.mtime ≤ e.mtime
  length_le : entries.length ≤ limit
  others : ∀ f, f.key.category = category → ConflictGraph.latest log f.key = some f →
    f ∉ entries → entries.length = limit ∧ ∀ e ∈ entries, f.mtime ≤ e.mtime

section List

variable {category : Segment c.isAlnum} {globbed : List Str}
  {log : List (SavedDocument (ArtifactName c.isAlnum) (Document c.interpreter))}

/-- The files in the directory of a category are the documents saved in it. -/
theorem isSome_file_iff (hs : Shelf.Shelved c.paths Document.text log s) (path : Str) :
    ((s.files path).isSome = true ∧
        ∃ file, 47 ∉ file ∧ path = artifactStem c.root category.text file ++ str ".json") ↔
      ∃ e, (e.key.category = category ∧ latest log e.key = some e) ∧
        c.paths.path e.key = path := by
  refine ⟨?_, ?_⟩
  · rintro ⟨hsome, file, hfile, hpath⟩
    rcases hs.only path hsome with ⟨name, rfl⟩ | ⟨name, rfl⟩
    · rw [hs.files name, Option.isSome_map] at hsome
      obtain ⟨e, he⟩ := Option.isSome_iff_exists.mp hsome
      have hkey := (Shelf.mem_of_latest he).2
      obtain ⟨hcategory, -⟩ := artifactStem_inj (c.slash_not_mem name.category)
        (c.slash_not_mem name.identifier) hpath
      exact ⟨e, ⟨hkey ▸ Segment.eq_of_text hcategory, hkey.symm ▸ he⟩, by rw [hkey]⟩
    · exact absurd hpath.symm (json_ne_tmp _ _)
  · rintro ⟨e, ⟨rfl, he⟩, rfl⟩
    refine ⟨?_, e.key.identifier.text, c.slash_not_mem e.key.identifier, rfl⟩
    rw [hs.files, he]
    rfl

/-- The documents in the order of `newestFirst`. -/
theorem exists_entries (hs : Shelf.Shelved c.paths Document.text log s)
    (hglobs : c.Globs s category globbed) :
    ∃ all : List (SavedDocument (ArtifactName c.isAlnum) (Document c.interpreter)),
      all.map (fun e => c.paths.path e.key) = c.newestFirst s globbed ∧
        ∀ e ∈ all, e.key.category = category ∧ latest log e.key = some e := by
  have heach : ∀ path ∈ c.newestFirst s globbed,
      ∃ e, (e.key.category = category ∧ latest log e.key = some e) ∧
        c.paths.path e.key = path := fun path hpath =>
    ((hglobs.mem_iff path).trans (isSome_file_iff hs path)).mp
      ((List.mergeSort_perm globbed _).mem_iff.mp hpath)
  generalize c.newestFirst s globbed = sorted at heach
  induction sorted with
  | nil => exact ⟨[], rfl, fun _ h => nomatch h⟩
  | cons path rest ih =>
    rw [List.forall_mem_cons] at heach
    obtain ⟨⟨e, he, hpath⟩, hrest⟩ := heach
    obtain ⟨all, hall, hmem⟩ := ih hrest
    exact ⟨e :: all, by rw [List.map_cons, hpath, hall], List.forall_mem_cons.mpr ⟨he, hmem⟩⟩

/-- The newest documents of a category, as many as are listed. -/
theorem newest_take (hs : Shelf.Shelved c.paths Document.text log s)
    (hglobs : c.Globs s category globbed)
    {all : List (SavedDocument (ArtifactName c.isAlnum) (Document c.interpreter))}
    (hall : all.map (fun e => c.paths.path e.key) = c.newestFirst s globbed)
    (heach : ∀ e ∈ all, e.key.category = category ∧ latest log e.key = some e) (limit : ℕ) :
    Newest log category limit (all.take limit) := by
  have hnodup : (all.map (·.key)).Nodup := by
    refine List.Nodup.of_map c.paths.path ?_
    rw [List.map_map]
    change (all.map fun e => c.paths.path e.key).Nodup
    rw [hall]
    exact (List.mergeSort_perm globbed _).nodup_iff.mpr hglobs.nodup
  have hmtime : ∀ e ∈ all, (s.mtimes (c.paths.path e.key)).getD 0 = e.mtime := by
    intro e he
    rw [hs.mtimes, (heach e he).2]
    rfl
  have hordered : all.Pairwise fun e f => f.mtime ≤ e.mtime := by
    have hpaths : (all.map fun e => c.paths.path e.key).Pairwise fun p q =>
        decide ((s.mtimes q).getD 0 ≤ (s.mtimes p).getD 0) = true := by
      rw [hall]
      refine List.pairwise_mergeSort (fun p q r hpq hqr => ?_) (fun p q => ?_) globbed
      · rw [decide_eq_true_eq] at hpq hqr ⊢
        exact hqr.trans hpq
      · rw [Bool.or_eq_true, decide_eq_true_eq, decide_eq_true_eq]
        exact Nat.le_total _ _
    refine (List.pairwise_map.mp hpaths).imp_of_mem fun he hf hle => ?_
    rw [decide_eq_true_eq, hmtime _ he, hmtime _ hf] at hle
    exact hle
  have hsplit : (all.take limit ++ all.drop limit).Pairwise fun e f => f.mtime ≤ e.mtime := by
    rwa [List.take_append_drop]
  refine
    { latest := fun e he => heach e (List.mem_of_mem_take he)
      nodup := hnodup.sublist ((List.take_sublist ..).map _)
      ordered := (List.pairwise_append.mp hsplit).1
      length_le := List.length_take_le ..
      others := fun f hcategory hlatest hnot => ?_ }
  have hmem : f ∈ all := by
    have hpath := (hglobs.mem_iff _).mpr
      ((isSome_file_iff hs (c.paths.path f.key)).mpr ⟨f, ⟨hcategory, hlatest⟩, rfl⟩)
    rw [← (List.mergeSort_perm globbed _).mem_iff] at hpath
    change c.paths.path f.key ∈ c.newestFirst s globbed at hpath
    rw [← hall] at hpath
    obtain ⟨e, he, hkey⟩ := List.mem_map.mp hpath
    have hsame := (heach e he).2
    rw [c.paths.path_injective hkey, hlatest] at hsame
    exact Option.some.inj hsame ▸ he
  have hdrop : f ∈ all.drop limit := by
    rw [← List.take_append_drop limit all, List.mem_append] at hmem
    exact hmem.resolve_left hnot
  refine ⟨?_, fun e he => (List.pairwise_append.mp hsplit).2.2 e he f hdrop⟩
  have hpos := List.length_pos_of_mem hdrop
  rw [List.length_drop] at hpos
  rw [List.length_take]
  omega

theorem mapM_map_congr {ε α β γ : Type} {f : β → Except ε γ} {g : α → β} {h : α → Except ε γ} :
    ∀ {l : List α}, (∀ a ∈ l, f (g a) = h a) → (l.map g).mapM f = l.mapM h
  | [], _ => rfl
  | a :: l, hall => by
    rw [List.forall_mem_cons] at hall
    rw [List.map_cons, List.mapM_cons, List.mapM_cons, hall.1, mapM_map_congr hall.2]

/-- **What `list` returns.** After every run, it is the newest documents of the category, as
they were last saved. -/
theorem exists_list_eq (hrun : runFrom c.step {} actions = some s)
    (hcarried : ∀ e ∈ c.saves actions,
      Carried c.interpreter c.interpreter.loadsDepth e.document.value)
    {text : Str} (hcategory : safeSegment c.isAlnum text "category" = .ok category)
    (hglobs : c.Globs s category globbed) (limit : ℤ) :
    ∃ entries, Newest (c.saves actions) category (min limit 500).toNat entries ∧
      c.list s text limit globbed =
        entries.mapM fun e => found (loaded e.document.value) := by
  have hs := shelved hrun
  obtain ⟨all, hall, heach⟩ := exists_entries hs hglobs
  refine ⟨all.take (min limit 500).toNat, newest_take hs hglobs hall heach _, ?_⟩
  have hread : ∀ e ∈ all.take (min limit 500).toNat,
      found (Py.load c.interpreter (s.files (c.paths.path e.key))) =
        found (loaded e.document.value) := by
    intro e he
    have hlatest := (heach e (List.mem_of_mem_take he)).2
    rw [hs.files, hlatest]
    exact congrArg found (load_text (hcarried e (Shelf.mem_of_latest hlatest).1))
  rw [list, hcategory]
  change (if limit ≤ 0 then Except.ok [] else _) = _
  split
  · rename_i hlimit
    have hnone : (min limit 500).toNat = 0 := by omega
    rw [hnone, List.take_zero]
    rfl
  · rw [← hall, ← List.map_take]
    exact mapM_map_congr hread

end List

/-- Two graphs are there, and one is listed; the temporary file of the save that was given up
is not. -/
theorem exists_list_eq_graphs : ∃ s, runFrom asciiStore.step {} graphActions = some s ∧
    ∃ entries,
      Newest (asciiStore.saves graphActions) latestGraph.category (min (1 : ℤ) 500).toNat entries ∧
      asciiStore.list s (str "graphs") 1
          [asciiStore.paths.path weeklyGraph, asciiStore.paths.path latestGraph] =
        entries.mapM fun e => found (loaded e.document.value) := by
  obtain ⟨s, hrun, hsaves⟩ := exists_graph_run
  have hs := shelved hrun
  rw [hsaves] at hs
  refine ⟨s, hrun, exists_list_eq hrun (hsaves ▸ carried_graphSaves) (by decide)
    ⟨by decide +kernel, fun path => Iff.trans ?_ (isSome_file_iff hs path).symm⟩ 1⟩
  rw [List.mem_pair]
  refine ⟨?_, ?_⟩
  · rintro (rfl | rfl)
    · exact ⟨⟨weeklyGraph, testsDocument, 2⟩, ⟨rfl, rfl⟩, rfl⟩
    · exact ⟨⟨latestGraph, testsDocument, 9⟩, ⟨rfl, rfl⟩, rfl⟩
  · rintro ⟨e, ⟨-, he⟩, rfl⟩
    have hmem := (Shelf.mem_of_latest he).1
    simp only [graphSaves, List.mem_cons, List.not_mem_nil, or_false] at hmem
    rcases hmem with rfl | rfl | rfl
    · exact .inl rfl
    · exact .inr rfl
    · exact .inr rfl

end StoreSetting

end ConflictGraph.Py
