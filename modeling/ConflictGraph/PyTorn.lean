import ConflictGraph.PyPrefix

/-!
# Looks at a graph that is being written

`dump_json` writes the graph in place, so whoever looks at it meanwhile, or after the command was
killed, may find a beginning of it. But no beginning of the text is another document
(`load_beginning`). So however often the graph is written, and wherever a writer is killed, a
look gets a graph that was written as a whole, or hears that the file is corrupt
(`load_replays`).
-/

namespace ConflictGraph.Py

open Str

/-- **A beginning of a document** is corrupt, unless only the last line break is missing. -/
theorem load_beginning {interpreter : Interpreter} {members : List (Str × Json)} {text p : Str}
    (hshort : interpreter.ShortFloats)
    (h : Carried interpreter interpreter.loadsDepth (.object members))
    (htext : artifactText interpreter (.object members) = some text) (hp : p <+: text) :
    load interpreter (some p) = .error .corrupt ∨
      load interpreter (some p) = load interpreter (some text) := by
  rcases loads_beginning hshort h htext hp with hcut | hwhole
  · exact .inl (by rw [load, hcut])
  · refine .inr ?_
    rw [load, load, hwhole, loads_artifactText h htext, sorted]

/-! ## Commands one after the other -/

/-- Graphs are written to a file one after the other, each in these chunks; the actions of each
writer, among looks at the file, end where it has written all of it or was killed. -/
def replays (path : Str) :
    PartialMap Str Str → List (List Str × List FileAction) →
      Option (PartialMap Str Str × List (Option Str))
  | files, [] => some (files, [])
  | files, (chunks, actions) :: rest =>
    match runFrom (FileSession.step path) ⟨files, dumpJson path chunks, []⟩ actions with
    | none => none
    | some t => (replays path t.files rest).map fun (files, reads) => (files, t.reads ++ reads)

/-- What a look at the file gets: what one gets of the file as it was before, or of one of the
documents that are written, as a whole, or the error that the file is corrupt. -/
def Whole (interpreter : Interpreter) (before : Option Str) (texts : List Str)
    (contents : Option Str) : Prop :=
  load interpreter contents = load interpreter before ∨
    (∃ text ∈ texts, load interpreter contents = load interpreter (some text)) ∨
      load interpreter contents = .error .corrupt

/-- A document that JSON carries has this text. -/
def IsDocument (interpreter : Interpreter) (text : Str) : Prop :=
  ∃ members, Carried interpreter interpreter.loadsDepth (.object members) ∧
    artifactText interpreter (.object members) = some text

section Replays

variable {interpreter : Interpreter} {path : Str} {before middle contents : Option Str}
  {texts texts' chunks : List Str}

theorem Whole.mono (h : Whole interpreter before texts contents) (hsub : texts ⊆ texts') :
    Whole interpreter before texts' contents :=
  h.imp_right (Or.imp_left fun ⟨text, htext, hload⟩ => ⟨text, hsub htext, hload⟩)

/-- A look at a file that was whole gets what one got before. -/
theorem Whole.trans (h : Whole interpreter middle texts contents)
    (hmiddle : Whole interpreter before texts middle) :
    Whole interpreter before texts contents := by
  rcases h with hload | hrest
  · rw [Whole, hload]
    exact hmiddle
  · exact .inr hrest

/-- What one writer has written at an instant. -/
theorem whole_of_inPlace (hshort : interpreter.ShortFloats) {s : FileSession Str ℕ}
    (hdocument : IsDocument interpreter chunks.flatten) (h : InPlace path before chunks s) :
    Whole interpreter before [chunks.flatten] (s.files path) := by
  cases h with
  | untouched hfile htodo => exact .inl (by rw [hfile])
  | writing done rest hchunks hfile htodo =>
    obtain ⟨members, hcarried, htext⟩ := hdocument
    have hprefix : done.flatten <+: chunks.flatten := by
      rw [hchunks, List.flatten_append]
      exact List.prefix_append ..
    rw [hfile]
    rcases load_beginning hshort hcarried htext hprefix with hcorrupt | hwhole
    · exact .inr (.inr hcorrupt)
    · exact .inr (.inl ⟨_, List.mem_singleton.mpr rfl, hwhole⟩)

/-- One command, up to its end or to where it is killed. -/
theorem whole_of_run (hshort : interpreter.ShortFloats) {files : PartialMap Str Str}
    {actions : List FileAction} {t : FileSession Str ℕ}
    (hdocument : IsDocument interpreter chunks.flatten)
    (h : runFrom (FileSession.step path) ⟨files, dumpJson path chunks, []⟩ actions = some t) :
    ∀ contents ∈ t.files path :: t.reads,
      Whole interpreter (files path) [chunks.flatten] contents := by
  refine List.forall_mem_cons.mpr ⟨?_, (mem_reads_iff h rfl).mpr fun visit hvisit _ => ?_⟩
  · have hinPlace : InPlace path (files path) chunks t :=
      invariant_of_steps (I := InPlace path (files path) chunks)
        (fun hstep hs => hs.of_step hstep) h (.untouched rfl rfl)
    exact whole_of_inPlace hshort hdocument hinPlace
  · exact whole_of_inPlace hshort hdocument (inPlace_of_visits rfl rfl visit hvisit)

/-- **A look never gets half a document**: in every run of writers, each of which may be killed,
what is loaded is what was there before, or one of the documents as a whole, or the file is
corrupt. -/
theorem load_replays (hshort : interpreter.ShortFloats) :
    ∀ {writes : List (List Str × List FileAction)} {files files' : PartialMap Str Str}
      {reads : List (Option Str)},
    (∀ write ∈ writes, IsDocument interpreter write.1.flatten) →
      replays path files writes = some (files', reads) →
        ∀ contents ∈ files' path :: reads,
          Whole interpreter (files path) (writes.map fun write => write.1.flatten) contents := by
  intro writes
  induction writes with
  | nil =>
    intro files files' reads _ h contents hcontents
    obtain ⟨rfl, rfl⟩ := Prod.mk.inj (Option.some.inj h)
    exact .inl (by rw [List.mem_singleton.mp hcontents])
  | cons write rest ih =>
    obtain ⟨chunks, actions⟩ := write
    intro files files' reads hdocuments h contents hcontents
    obtain ⟨hdocument, hdocuments⟩ := List.forall_mem_cons.mp hdocuments
    rw [replays] at h
    split at h
    · cases h
    rename_i t hrun
    obtain ⟨⟨files'', later⟩, hlater, heq⟩ := Option.map_eq_some_iff.mp h
    obtain ⟨rfl, rfl⟩ := Prod.mk.inj heq
    have hfirst := whole_of_run hshort hdocument hrun
    rw [List.forall_mem_cons] at hfirst
    have hhead : [chunks.flatten] ⊆ (chunks, actions).1.flatten ::
        rest.map fun write => write.1.flatten := by simp
    have htail : (rest.map fun write => write.1.flatten) ⊆
        (chunks, actions).1.flatten :: rest.map fun write => write.1.flatten := by simp
    have hrest := ih hdocuments hlater
    rw [List.forall_mem_cons] at hrest
    have hafter : ∀ {contents}, Whole interpreter (t.files path)
        (rest.map fun write => write.1.flatten) contents →
          Whole interpreter (files path) ((chunks, actions).1.flatten ::
            rest.map fun write => write.1.flatten) contents := fun hwhole =>
      (hwhole.mono htail).trans (hfirst.1.mono hhead)
    rcases List.mem_cons.mp hcontents with rfl | hcontents
    · exact hafter hrest.1
    rcases List.mem_append.mp hcontents with hearly | hlate
    · exact (hfirst.2 contents hearly).mono hhead
    · exact hafter (hrest.2 contents hlate)

end Replays

/-- After the empty graph, a prediction is written; the first who writes it is killed inside of
it. -/
def killedReplays : List (List Str × List FileAction) :=
  [([emptyGraphText], [.read, .write, .write, .read]),
    ([predictionText.take 70, predictionText.drop 70], [.write, .read, .write, .read]),
    ([predictionText], [.read, .write, .write, .read])]

theorem shortFloats_half : halfInterpreter.ShortFloats := by
  intro x text htext
  obtain ⟨number, hfound, rfl⟩ := Option.map_eq_some_iff.mp htext
  rw [List.mem_singleton.mp (List.mem_of_find?_eq_some hfound)]
  decide

theorem load_replays_prediction : ∃ files reads,
    replays (str "latest.json") PartialMap.empty killedReplays = some (files, reads) ∧
      ∀ contents ∈ files (str "latest.json") :: reads,
        Whole halfInterpreter none (killedReplays.map fun write => write.1.flatten) contents := by
  have hempty : IsDocument halfInterpreter emptyGraphText :=
    ⟨_, carried_of_isPlain (fun x hx => absurd hx List.not_mem_nil)
      (by decide +kernel : isPlain [] 900 emptyGraph = true), by decide +kernel⟩
  have hprediction : IsDocument halfInterpreter predictionText :=
    ⟨_, carried_predictionDocument, artifactText_predictionDocument⟩
  refine ⟨_, _, rfl, @load_replays halfInterpreter (str "latest.json") shortFloats_half
    killedReplays PartialMap.empty _ _ ?_ rfl⟩
  simp only [killedReplays, List.forall_mem_cons, List.flatten_cons, List.flatten_nil,
    List.append_nil, List.take_append_drop]
  exact ⟨hempty, hprediction, hprediction, fun _ h => nomatch h⟩

end ConflictGraph.Py
