import ConflictGraph.FileWrite
import ConflictGraph.PySink

/-!
# The file of a graph artifact

`trace replay` writes the graph with `dump_json`, in place: the file is emptied and then
written in one or more chunks. `ArtifactStore.save` writes artifacts of the other categories
through a temporary file. `LoadPredictions` of the control plane and `ArtifactStore.load` read
the graph whenever they are called, each in one go.

Opening the file for writing comes first, so a reader that comes next finds it empty
(`not_untorn_emptied`). A look sees a whole document exactly if it is `Settled` (`untorn_iff`);
through a temporary file every look does (`untorn_of_save`).
-/

namespace ConflictGraph.Py

open Str

/-! ## Texts -/

section Text

variable (interpreter : Interpreter)

/-- A line break with the indentation of a level. -/
def lineBreak (level : ℕ) : Str := 10 :: List.replicate (2 * level) 32

/-- The parts of a container on lines of their own. -/
def onLines (level : ℕ) : List Str → Str
  | [] => []
  | [text] => lineBreak (level + 1) ++ text ++ lineBreak level
  | text :: texts => lineBreak (level + 1) ++ text ++ 44 :: onLines level texts

mutual

/-- `json.dumps` with `indent=2`, of a value on a level. -/
def encodeIndented (level : ℕ) : Json → Option Str
  | .array items =>
    (encodeIndentedItems level items).map fun texts => 91 :: (onLines level texts ++ [93])
  | .object members =>
    (encodeIndentedMembers level members).map fun texts => 123 :: (onLines level texts ++ [125])
  | value => encode interpreter value

def encodeIndentedItems (level : ℕ) : List Json → Option (List Str)
  | [] => some []
  | item :: rest => (encodeIndented (level + 1) item).bind fun text =>
    (encodeIndentedItems level rest).map (text :: ·)

def encodeIndentedMembers (level : ℕ) : List (Str × Json) → Option (List Str)
  | [] => some []
  | (key, value) :: rest => (encodeIndented (level + 1) value).bind fun text =>
    (encodeIndentedMembers level rest).map ((encodeString key ++ 58 :: 32 :: text) :: ·)

end

/-- The text that `dump_json` and `save` write of a value; `none` is an exception, which comes
before any file is touched. -/
def artifactText (value : Json) : Option Str :=
  (encodeIndented interpreter 0 (sorted value)).map (· ++ [10])

/-- The `StorageError`s of `load` on a file that is there. -/
inductive StorageError : Type where
  | corrupt
  | notAnObject
  /-- an exception that `load` does not catch -/
  | uncaught (type : ExceptionType)
  deriving DecidableEq

/-- `ArtifactStore.load`, of the contents of the file. -/
def load : Option Str → Except StorageError (Option (List (Str × Json)))
  | none => .ok none
  | some contents =>
    match loads interpreter.loadsDepth contents with
    | .ok (.object members) => .ok (some members)
    | .ok _ => .error .notAnObject
    | .error .jsonDecodeError => .error .corrupt
    | .error type => .error (.uncaught type)

end Text

/-! ## Writers -/

/-- The file operations of `dump_json`, where `write_text` splits the text into these chunks. -/
def dumpJson (path : Str) (chunks : List Str) : List (FileStep Str ℕ) := writeInPlace path chunks

/-- The path of an artifact without its suffix. -/
def artifactStem (root category identifier : Str) : Str :=
  root ++ 47 :: (category ++ 47 :: identifier)

/-- The file operations of `ArtifactStore.save`. -/
def save (root category identifier : Str) (chunks : List Str) : List (FileStep Str ℕ) :=
  writeThrough (artifactStem root category identifier ++ str ".tmp")
    (artifactStem root category identifier ++ str ".json") chunks

/-! ## Torn documents -/

/-- The property of a run: whatever the reader has obtained is the previous document, or that
there was none, or the new document. -/
def Untorn (previous : Option Str) (text : Str) (s : FileSession Str ℕ) : Prop :=
  ∀ contents ∈ s.reads, contents = previous ∨ contents = some text

/-- The writer of `chunks` has not begun, or has nothing left to write, or what it has written
so far is the previous document. -/
def Settled (path : Str) (previous : Option Str) (chunks : List Str) (s : FileSession Str ℕ) :
    Prop :=
  s.todo = dumpJson path chunks ∨ (∀ op ∈ s.todo, op = .append path []) ∨
    ∃ done rest, chunks = done ++ rest ∧ s.todo.length = rest.length ∧ previous = some done.flatten

variable {path : Str} {previous : Option Str} {chunks : List Str} {s t : FileSession Str ℕ}
  {ls : List FileAction}

theorem flatten_eq_nil_iff {rest : List Str} :
    rest.flatten = [] ↔ ∀ op ∈ rest.map (FileStep.append path), op = .append path [] := by
  rw [List.flatten_eq_nil_iff, List.forall_mem_map]
  exact forall₂_congr fun chunk _ => ⟨fun h => h ▸ rfl, fun h => (FileStep.append.inj h).2⟩

/-- At each instant the file has the previous document or the new one exactly if the writer is
settled. -/
theorem file_iff_settled (hs : InPlace path previous chunks s) :
    (s.files path = previous ∨ s.files path = some chunks.flatten) ↔
      Settled path previous chunks s := by
  cases hs with
  | untouched hfile htodo => exact iff_of_true (.inl hfile) (.inl htodo)
  | writing done rest hchunks hfile htodo =>
    rw [hfile, Settled, htodo, hchunks]
    refine ⟨?_, ?_⟩
    · rintro (hprevious | hwhole)
      · exact .inr (.inr ⟨done, rest, rfl, List.length_map .., hprevious.symm⟩)
      · rw [List.flatten_append, Option.some.injEq, List.self_eq_append_right] at hwhole
        exact .inr (.inl (flatten_eq_nil_iff.mp hwhole))
    · rintro (hbegin | hempty | ⟨done', rest', heq, hlength, hprevious⟩)
      · rcases rest with _ | ⟨chunk, rest⟩ <;> cases hbegin
      · rw [List.flatten_append, flatten_eq_nil_iff.mpr hempty, List.append_nil]
        exact .inr rfl
      · -- both are what is before as many chunks
        rw [List.length_map] at hlength
        obtain ⟨rfl, -⟩ := List.append_inj' heq hlength
        exact .inl hprevious.symm

/-- **When readers of the graph see whole documents**, in every interleaving with a running
`trace replay`. -/
theorem untorn_iff {interpreter : Interpreter} {value : Json} {text : Str}
    {files : PartialMap Str Str} (htext : artifactText interpreter value = some text)
    (hchunks : chunks.flatten = text)
    (hrun : runFrom (FileSession.step path) ⟨files, dumpJson path chunks, []⟩ ls = some t) :
    Untorn (files path) text t ↔
      ∀ visit ∈ visits (FileSession.step path) ⟨files, dumpJson path chunks, []⟩ ls,
        visit.2 = .read → Settled path (files path) chunks visit.1 := by
  subst hchunks
  rw [Untorn, mem_reads_iff hrun rfl]
  refine forall₂_congr fun visit hvisit => imp_congr_right fun _ => ?_
  exact file_iff_settled (inPlace_of_visits rfl rfl visit hvisit)

/-- **Through a temporary file** every look sees a whole document. -/
theorem untorn_of_save {root category identifier : Str} {files : PartialMap Str Str}
    (hrun : runFrom (FileSession.step (artifactStem root category identifier ++ str ".json"))
      ⟨files, save root category identifier chunks, []⟩ ls = some t) :
    Untorn (files (artifactStem root category identifier ++ str ".json")) chunks.flatten t := by
  have hother : artifactStem root category identifier ++ str ".json" ≠
      artifactStem root category identifier ++ str ".tmp" := fun h =>
    absurd (List.append_cancel_left h) (by decide)
  rw [Untorn, mem_reads_iff hrun rfl]
  exact fun visit hvisit _ => file_of_through hother rfl rfl visit hvisit

/-! ## A graph without predictions -/

/-- A graph without predictions. -/
def emptyGraph : Json := .object [(str "predictions", .array [])]

/-- Its text. -/
def emptyGraphText : Str := str "\x7b\n  \"predictions\": []\n\x7d\n"

theorem artifactText_emptyGraph : artifactText asciiInterpreter emptyGraph = some emptyGraphText := by
  decide +kernel

/-- One reader comes before the writer, and one after it. -/
theorem untorn_emptyGraph :
    ∃ t, runFrom (FileSession.step (str "latest.json")) ⟨fun _ => none,
        dumpJson (str "latest.json") [emptyGraphText], []⟩ [.read, .write, .write, .read] = some t ∧
      Untorn none emptyGraphText t := by
  have hrun : runFrom (FileSession.step (str "latest.json")) ⟨fun _ => none,
    dumpJson (str "latest.json") [emptyGraphText], []⟩ [.read, .write, .write, .read] = some _ := rfl
  refine ⟨_, hrun, (untorn_iff artifactText_emptyGraph (List.append_nil _) hrun).mpr ?_⟩
  intro visit hvisit hread
  simp only [visits, FileSession.step, dumpJson, writeInPlace, List.map_cons, List.map_nil,
    List.mem_cons, List.not_mem_nil, or_false] at hvisit
  rcases hvisit with rfl | rfl | rfl | rfl
  · exact .inl rfl
  · cases hread
  · cases hread
  · exact .inr (.inl fun _ h => absurd h List.not_mem_nil)

/-- **A reader in between** finds the file empty, and cannot parse it. -/
theorem not_untorn_emptyGraph :
    (¬ ∀ t, runFrom (FileSession.step (str "latest.json")) ⟨fun _ => some (str "\x7b\x7d\n"),
        dumpJson (str "latest.json") [emptyGraphText], []⟩ [.write, .read] = some t →
      Untorn (some (str "\x7b\x7d\n")) emptyGraphText t) ∧
    load asciiInterpreter (some []) = .error .corrupt := by
  refine ⟨fun h => ?_, rfl⟩
  have hread := h _ rfl (some []) (List.mem_singleton_self _)
  exact absurd hread (by decide)

end ConflictGraph.Py
