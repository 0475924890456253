import ConflictGraph.PyEvent
import ConflictGraph.PyStable

/-!
# Traces that are read back

`EventSink` writes the normalised form of every event on a line of its own, and `read_events`
normalises what it reads once more. It reads the events that were written exactly if all that
were kept are `Stable` (`readEvents_written_iff`).
-/

namespace ConflictGraph.Py

open Str

/-! ## Files -/

/-- The loop of a text stream with universal newlines; `line` is the current line reversed. -/
def splitStream : Str → Str → List Str
  | line, [] => if line = [] then [] else [line.reverse]
  | line, c :: rest =>
    if c = 10 then (10 :: line).reverse :: splitStream [] rest
    else if c = 13 then
      -- a line feed right after it belongs to it
      match rest with
      | 10 :: rest => (10 :: line).reverse :: splitStream [] rest
      | rest => (10 :: line).reverse :: splitStream [] rest
    else splitStream (c :: line) rest

/-- The lines of a text file. -/
def streamLines (contents : Str) : List Str := splitStream [] contents

theorem splitStream_line {text : Str} (h : ∀ c ∈ text, c ≠ 10 ∧ c ≠ 13) (rest : Str) :
    ∀ line : Str, splitStream line (text ++ 10 :: rest) =
      (line.reverse ++ text ++ [10]) :: splitStream [] rest := by
  induction text with
  | nil =>
    intro line
    rw [List.nil_append, splitStream.eq_def]
    simp
  | cons c text ih =>
    intro line
    rw [List.forall_mem_cons] at h
    rw [List.cons_append, splitStream.eq_def]
    simp only [if_neg h.1.1, if_neg h.1.2]
    rw [ih h.2 (c :: line)]
    simp

/-- **Texts without line breaks are read back**, each as a line. -/
theorem streamLines_flatten {texts : List Str} (h : ∀ text ∈ texts, ∀ c ∈ text, c ≠ 10 ∧ c ≠ 13) :
    streamLines (texts.map (· ++ [10])).flatten = texts.map (· ++ [10]) := by
  induction texts with
  | nil => rfl
  | cons text texts ih =>
    rw [List.forall_mem_cons] at h
    rw [List.map_cons, List.flatten_cons, List.append_assoc]
    refine (splitStream_line h.1 _ []).trans ?_
    exact congrArg _ (ih h.2)

/-! ## The writer -/

section Writer

variable (interpreter : Interpreter) (policy : NormalizationPolicy)

/-- `ResourceNormalizer.normalize_event`. -/
def normalizeEvent (event : TraceEvent) : Except ExceptionType (Option TraceEvent) :=
  ReplayTracer.normalizeEvent ⟨interpreter, policy, .finite 0⟩ event

/-- What the writer does with an event, up to writing: its normalised form and the text of that,
unless the policy filters it. -/
def formOf (event : TraceEvent) : Except ExceptionType (Option (TraceEvent × Str)) := do
  match ← normalizeEvent interpreter policy event with
  | none => return none
  | some normalized =>
    match normalized.dumps interpreter with
    | some text => return some (normalized, text)
    | none => .error .valueError

/-- What the writer has done: the file, and the counters that are its own. -/
structure Written : Type where
  output : Str := []
  processed : ℕ := 0
  unattributed : ℕ := 0
  deriving DecidableEq

/-- The body of the loop of `_consume`. -/
def Written.write (s : Written) (event : TraceEvent) : Except ExceptionType Written := do
  match ← formOf interpreter policy event with
  | none => return s
  | some (normalized, text) =>
    return { output := s.output ++ (text ++ [10])
             processed := s.processed + 1
             unattributed := s.unattributed + if normalized.testID = [] then 1 else 0 }

/-- `_consume` of the events that were queued; an exception is what it records as `_failure`. -/
def consume (events : List TraceEvent) : Except ExceptionType Written :=
  events.foldlM (Written.write interpreter policy) {}

/-- The form of an event that is written. -/
def writtenForm (event : TraceEvent) : Option (TraceEvent × Str) :=
  match formOf interpreter policy event with
  | .ok form => form
  | .error _ => none

/-- The events that are written of those that were queued. -/
def writtenEvents (events : List TraceEvent) : List TraceEvent :=
  (events.filterMap (writtenForm interpreter policy)).map Prod.fst

variable {interpreter policy}

theorem foldlM_write {events : List TraceEvent} : ∀ {s s' : Written},
    events.foldlM (Written.write interpreter policy) s = .ok s' →
      s'.output = s.output ++
        ((events.filterMap (writtenForm interpreter policy)).map fun form => form.2 ++ [10]).flatten := by
  induction events with
  | nil =>
    intro s s' h
    rw [← Except.ok.inj h]
    exact (List.append_nil _).symm
  | cons event rest ih =>
    intro s s' h
    rw [List.foldlM_cons] at h
    obtain ⟨next, hnext, h⟩ := bind_eq_ok_iff.mp h
    obtain ⟨form, hform, hnext⟩ := bind_eq_ok_iff.mp hnext
    have hwritten : writtenForm interpreter policy event = form := by rw [writtenForm, hform]
    rw [ih h]
    rcases form with _ | ⟨normalized, text⟩
    · obtain rfl := Except.ok.inj hnext
      rw [List.filterMap_cons_none hwritten]
    · obtain rfl := Except.ok.inj hnext
      rw [List.filterMap_cons_some hwritten]
      simp

/-- **The file has the texts of the events that are written**, each on a line. -/
theorem output_consume {events : List TraceEvent} {s : Written}
    (h : consume interpreter policy events = .ok s) :
    s.output = (((events.filterMap (writtenForm interpreter policy)).map Prod.snd).map
      (· ++ [10])).flatten := by
  rw [foldlM_write h, List.nil_append, List.map_map]
  rfl

theorem writtenForm_eq_some {event normalized : TraceEvent} {text : Str}
    (h : writtenForm interpreter policy event = some (normalized, text)) :
    normalizeEvent interpreter policy event = .ok (some normalized) ∧
      normalized.dumps interpreter = some text := by
  rw [writtenForm] at h
  split at h
  · rename_i form hform
    obtain ⟨found, hfound, hform⟩ := bind_eq_ok_iff.mp hform
    rcases found with _ | found
    · rw [← Except.ok.inj hform] at h
      cases h
    · dsimp only at hform
      split at hform
      · rename_i text' htext
        rw [← Except.ok.inj hform] at h
        obtain ⟨rfl, rfl⟩ := Prod.mk.inj (Option.some.inj h)
        exact ⟨hfound, htext⟩
      · cases hform
  · cases h

end Writer

/-! ## The reader -/

namespace ReplayTracer

variable {tracer : ReplayTracer}

/-- The consumer is given the events of the lines that are processed, in their order. -/
theorem consumed_foldlM {lines : List Str} : ∀ {s s' : ReplayState},
    lines.foldlM tracer.line s = .ok s' →
      s'.consumed = s.consumed ++ lines.filterMap fun line => (tracer.verdict line).event? := by
  induction lines with
  | nil =>
    intro s s' h
    rw [← Except.ok.inj h]
    exact (List.append_nil _).symm
  | cons line rest ih =>
    intro s s' h
    rw [List.foldlM_cons] at h
    obtain ⟨next, hnext, h⟩ := bind_eq_ok_iff.mp h
    rw [ih h]
    rw [line_eq] at hnext
    rcases hverdict : tracer.verdict line with _ | _ | _ | event | e <;> rw [hverdict] at hnext
    · obtain rfl := Except.ok.inj hnext
      rw [List.filterMap_cons_none (by rw [hverdict]; rfl)]
    · obtain rfl := Except.ok.inj hnext
      rw [List.filterMap_cons_none (by rw [hverdict]; rfl)]
    · obtain rfl := Except.ok.inj hnext
      rw [List.filterMap_cons_none (by rw [hverdict]; rfl)]
    · obtain ⟨-, -, rfl⟩ := eq_ok_of_map_eq_ok hnext
      rw [List.filterMap_cons_some (b := event) (by rw [hverdict]; rfl)]
      simp
    · cases hnext

/-- A replay without pauses goes on past every line that does not abort. -/
theorem exists_replay (hspeed : tracer.speed = .finite 0) {lines : List Str}
    (h : ∀ line ∈ lines, ¬ tracer.Aborts line) : ∃ s, tracer.replay lines = .ok s := by
  refine (foldlM_line_ok_iff lines ⟨{}, none, []⟩).mpr ⟨h, ?_⟩
  have hwait : ∀ gap : ℤ, CanWait tracer.speed gap := by
    intro gap
    rw [hspeed]
    exact .inl rfl
  exact List.isChain_iff_getElem.mpr fun _ _ => hwait _

end ReplayTracer

/-- As many values as there are inputs are that of each. -/
theorem filterMap_eq_map_iff {α β : Type} {f : α → Option β} {g : α → β} {l : List α} :
    l.filterMap f = l.map g ↔ ∀ a ∈ l, f a = some (g a) := by
  induction l with
  | nil => exact iff_of_true rfl fun a ha => absurd ha List.not_mem_nil
  | cons a l ih =>
    rw [List.forall_mem_cons, List.map_cons, ← ih]
    cases hfa : f a with
    | none =>
      rw [List.filterMap_cons_none hfa]
      refine iff_of_false (fun heq => ?_) fun h => Option.some_ne_none _ h.1.symm
      have hlength := congrArg List.length heq
      have hle := List.length_filterMap_le f l
      rw [List.length_cons, List.length_map] at hlength
      omega
    | some b =>
      rw [List.filterMap_cons_some hfa, List.cons.injEq, Option.some.injEq]

/-- The text of an event is an object. -/
theorem exists_dumps {interpreter : Interpreter} {event : TraceEvent} {text : Str}
    (h : event.dumps interpreter = some text) : ∃ body, text = 123 :: (body ++ [125]) := by
  rw [TraceEvent.dumps, TraceEvent.sorted_toDict, encode] at h
  obtain ⟨texts, -, rfl⟩ := Option.map_eq_some_iff.mp h
  exact ⟨_, rfl⟩

/-- The line of an event is stripped of its line break. -/
theorem strip_line {interpreter : Interpreter} {event : TraceEvent} {text : Str}
    (h : event.dumps interpreter = some text) : (text ++ [10]).strip = text := by
  obtain ⟨body, rfl⟩ := exists_dumps h
  have hlast : ¬ isSpace 125 = true := by decide
  have hbody : (123 :: (body ++ [125])).rdropWhile isSpace = 123 :: (body ++ [125]) :=
    List.rdropWhile_concat_neg isSpace (123 :: body) 125 hlast
  rw [strip_of_head (by rfl), List.rdropWhile_concat_pos _ _ _ (by decide), hbody]

/-- **Events that are read again**: a trace of the texts of events is read as these events exactly
if the normaliser returns each of them as it is. -/
theorem readEvents_lines_iff {interpreter : Interpreter} {policy : NormalizationPolicy}
    {forms : List (TraceEvent × Str)}
    (h : ∀ form ∈ forms, form.1.IsCarried interpreter ∧ form.1.dumps interpreter = some form.2) :
    (∃ quality, readEvents interpreter policy (forms.map fun form => form.2 ++ [10]) =
        .ok (forms.map fun form => form.1.sortMetadata, quality)) ↔
      ∀ form ∈ forms, normalizeEvent interpreter policy form.1.sortMetadata =
        .ok (some form.1.sortMetadata) := by
  let tracer : ReplayTracer := ⟨interpreter, policy, .finite 0⟩
  have hverdict : ∀ form ∈ forms,
      ((tracer.verdict (form.2 ++ [10])).event? = some form.1.sortMetadata ↔
        normalizeEvent interpreter policy form.1.sortMetadata = .ok (some form.1.sortMetadata)) := by
    intro form hform
    obtain ⟨hcarried, htext⟩ := h form hform
    have hstrip := strip_line htext
    have hne : (form.2 ++ [10]).strip ≠ [] := by
      obtain ⟨body, hbody⟩ := exists_dumps htext
      rw [hstrip, hbody]
      exact List.cons_ne_nil _ _
    have hparse : parseEvent tracer.interpreter (form.2 ++ [10]).strip = .ok form.1.sortMetadata :=
      hstrip.symm ▸ parseEvent_dumps hcarried htext
    rw [ReplayTracer.verdict_of_parse hne hparse]
    change _ ↔ tracer.normalizeEvent form.1.sortMetadata = _
    rcases tracer.normalizeEvent form.1.sortMetadata with e | (_ | event)
    · rcases hcaught : caught e <;> simp [hcaught, ReplayTracer.Verdict.event?]
    · simp [ReplayTracer.Verdict.event?]
    · simp [ReplayTracer.Verdict.event?]
  have hall : (forms.map fun form => form.2 ++ [10]).filterMap
        (fun line => (tracer.verdict line).event?) = forms.map (fun form => form.1.sortMetadata) ↔
      ∀ form ∈ forms, normalizeEvent interpreter policy form.1.sortMetadata =
        .ok (some form.1.sortMetadata) := by
    rw [List.filterMap_map, filterMap_eq_map_iff]
    exact forall₂_congr hverdict
  rw [← hall]
  refine ⟨?_, fun hevents => ?_⟩
  · rintro ⟨quality, hread⟩
    obtain ⟨s, hs, heq⟩ := eq_ok_of_map_eq_ok hread
    rw [← (Prod.mk.inj heq).1, ReplayTracer.consumed_foldlM hs, List.nil_append]
  · obtain ⟨s, hs⟩ := @ReplayTracer.exists_replay tracer rfl
      (forms.map fun form => form.2 ++ [10]) (by
        intro line hline haborts
        obtain ⟨form, hform, rfl⟩ := List.mem_map.mp hline
        obtain ⟨e, he⟩ := ReplayTracer.verdict_aborts_iff.mpr haborts
        have hevent := (hverdict form hform).mpr (hall.mp hevents form hform)
        rw [he] at hevent
        cases hevent)
    refine ⟨s.quality, ?_⟩
    rw [readEvents, hs, ← hevents, ← List.nil_append (List.filterMap _ _),
      ← ReplayTracer.consumed_foldlM hs]
    rfl

/-! ## Written and read -/

section Trace

variable {interpreter : Interpreter} {policy : NormalizationPolicy}

/-- The normaliser keeps what is not the identifier, and the metadata is not looked at. -/
theorem normalizeEvent_sortMetadata_iff {event normalized : TraceEvent}
    (h : normalizeEvent interpreter policy event = .ok (some normalized)) :
    normalizeEvent interpreter policy normalized.sortMetadata = .ok (some normalized.sortMetadata) ↔
      policy.normalizeIdentifier interpreter event.resourceType normalized.resourceIdentifier
        event.operation = .ok (some normalized.resourceIdentifier) := by
  obtain ⟨found, hfound, hmap⟩ := eq_ok_of_map_eq_ok h
  obtain ⟨identifier, -, rfl⟩ := Option.map_eq_some_iff.mp hmap
  change Except.map _ (policy.normalizeIdentifier interpreter event.resourceType identifier
    event.operation) = _ ↔ policy.normalizeIdentifier interpreter event.resourceType identifier
    event.operation = _
  rcases policy.normalizeIdentifier interpreter event.resourceType identifier event.operation with
    e | (_ | again)
  · simp [Except.map]
  · simp [Except.map]
  · simp [Except.map, TraceEvent.sortMetadata, TraceEvent.mk.injEq]

/-- A writer that does not fail has a form for every event. -/
theorem exists_form_of_consume {events : List TraceEvent} : ∀ {s s' : Written},
    events.foldlM (Written.write interpreter policy) s = .ok s' →
      ∀ event ∈ events, ∃ form, formOf interpreter policy event = .ok form := by
  induction events with
  | nil => exact fun _ event hevent => absurd hevent List.not_mem_nil
  | cons first rest ih =>
    intro s s' h
    rw [List.foldlM_cons] at h
    obtain ⟨next, hnext, h⟩ := bind_eq_ok_iff.mp h
    obtain ⟨form, hform, -⟩ := bind_eq_ok_iff.mp hnext
    exact List.forall_mem_cons.mpr ⟨⟨form, hform⟩, ih h⟩

/-- An event that is kept is written, if the writer does not fail. -/
theorem exists_writtenForm {event : TraceEvent} {identifier : Str}
    (hform : ∃ form, formOf interpreter policy event = .ok form)
    (h : policy.normalizeIdentifier interpreter event.resourceType event.resourceIdentifier
      event.operation = .ok (some identifier)) :
    ∃ text, writtenForm interpreter policy event =
      some ({ event with resourceIdentifier := identifier }, text) := by
  obtain ⟨form, hform⟩ := hform
  have hevent : normalizeEvent interpreter policy event =
      .ok (some { event with resourceIdentifier := identifier }) := by
    rw [normalizeEvent, ReplayTracer.normalizeEvent, h]
    rfl
  rw [writtenForm, hform]
  rw [formOf, hevent] at hform
  simp only [Bind.bind, Except.bind] at hform
  split at hform
  · rename_i text htext
    exact ⟨text, (Except.ok.inj hform).symm⟩
  · cases hform

/-- **A trace that is written and read back**: `read_events` returns the events that were written
exactly if every event that the policy kept was stable. -/
theorem readEvents_written_iff (hdocumented : interpreter.Documented) {events : List TraceEvent}
    {s : Written} (hrun : consume interpreter policy events = .ok s)
    (hcarried : ∀ event ∈ writtenEvents interpreter policy events, event.IsCarried interpreter) :
    (∃ quality, readEvents interpreter policy (streamLines s.output) =
        .ok ((writtenEvents interpreter policy events).map TraceEvent.sortMetadata, quality)) ↔
      ∀ event ∈ events, ∀ identifier, policy.normalizeIdentifier interpreter event.resourceType
          event.resourceIdentifier event.operation = .ok (some identifier) →
        policy.Stable interpreter event.resourceType event.resourceIdentifier event.operation := by
  have hforms : ∀ form ∈ events.filterMap (writtenForm interpreter policy),
      form.1.IsCarried interpreter ∧ form.1.dumps interpreter = some form.2 := by
    intro form hform
    obtain ⟨event, -, hevent⟩ := List.mem_filterMap.mp hform
    exact ⟨hcarried form.1 (List.mem_map_of_mem hform), (writtenForm_eq_some hevent).2⟩
  have hlines : streamLines s.output =
      (events.filterMap (writtenForm interpreter policy)).map fun form => form.2 ++ [10] := by
    rw [output_consume hrun, streamLines_flatten, List.map_map]
    · rfl
    · intro text htext c hc
      obtain ⟨form, hform, rfl⟩ := List.mem_map.mp htext
      have hprintable := printable_encode (hforms form hform).1 (hforms form hform).2 c hc
      omega
  rw [hlines, writtenEvents, List.map_map]
  refine (readEvents_lines_iff hforms).trans ⟨fun h event hevent identifier hkept => ?_,
    fun h form hform => ?_⟩
  · obtain ⟨text, hform⟩ := exists_writtenForm (exists_form_of_consume hrun event hevent) hkept
    have hnormalize := (writtenForm_eq_some hform).1
    have hagain := (normalizeEvent_sortMetadata_iff hnormalize).mp
      (h _ (List.mem_filterMap.mpr ⟨event, hevent, hform⟩))
    exact (NormalizationPolicy.normalizeIdentifier_again_iff hdocumented hkept).mp hagain
  · obtain ⟨event, hevent, hwritten⟩ := List.mem_filterMap.mp hform
    have hnormalize := (writtenForm_eq_some hwritten).1
    obtain ⟨found, hfound, hmap⟩ := eq_ok_of_map_eq_ok hnormalize
    obtain ⟨identifier, rfl, hidentifier⟩ := Option.map_eq_some_iff.mp hmap
    refine (normalizeEvent_sortMetadata_iff hnormalize).mpr ?_
    rw [← hidentifier]
    exact (NormalizationPolicy.normalizeIdentifier_again_iff hdocumented hfound).mpr
      (h event hevent identifier hfound)

/-- **Normalised twice**: an identifier is the same again exactly if it was stable, and a trace is
read back as it was written exactly if all identifiers were. -/
theorem normalized_again_iff (hdocumented : interpreter.Documented) :
    (∀ kind raw operation v, policy.normalizeIdentifier interpreter kind raw operation = .ok (some v) →
      (policy.normalizeIdentifier interpreter kind v operation = .ok (some v) ↔
        policy.Stable interpreter kind raw operation)) ∧
    ∀ events s, consume interpreter policy events = .ok s →
      (∀ event ∈ writtenEvents interpreter policy events, event.IsCarried interpreter) →
      ((∃ quality, readEvents interpreter policy (streamLines s.output) =
          .ok ((writtenEvents interpreter policy events).map TraceEvent.sortMetadata, quality)) ↔
        ∀ event ∈ events, ∀ identifier, policy.normalizeIdentifier interpreter event.resourceType
            event.resourceIdentifier event.operation = .ok (some identifier) →
          policy.Stable interpreter event.resourceType event.resourceIdentifier event.operation) :=
  ⟨fun _ _ _ _ h => NormalizationPolicy.normalizeIdentifier_again_iff hdocumented h,
    fun _ _ hrun hcarried => readEvents_written_iff hdocumented hrun hcarried⟩

end Trace

/-! ## Runs -/

/-- An interpreter that knows ASCII only, one address, and no digest but that of the empty text. -/
def asciiInterpreter : Interpreter where
  loadsDepth := 900
  repr := fun _ => some []
  decimal := fun c => if isAsciiDigit c then some (c - 48) else none
  isDigit := isAsciiDigit
  lower := fun s => s.map fun c => if 65 ≤ c ∧ c ≤ 90 then c + 32 else c
  ipAddress := fun host =>
    if host = str "127.0.0.1" then some ⟨true, str "127.0.0.1"⟩ else none
  sha256 := fun _ => str "e3b0c44298fc1c149afbf4c8996fb92427ae41e4649b934ca495991b7852b855"

theorem asciiInterpreter_documented : asciiInterpreter.Documented := by
  have haddress : ∀ host address, asciiInterpreter.ipAddress host = some address →
      address = ⟨true, str "127.0.0.1"⟩ := by
    intro host address h
    simp only [asciiInterpreter] at h
    split at h
    · exact (Option.some.inj h).symm
    · cases h
  refine ⟨by unfold Interpreter.ReadsDigits; decide, ?_, ?_, ?_, ?_, ?_, ?_, ?_⟩
  · intro c hlow hhigh
    simp only [asciiInterpreter, isAsciiDigit, Bool.and_eq_false_iff, decide_eq_false_iff_not]
    omega
  · intro s
    have hhex : ∀ c ∈ str "e3b0c44298fc1c149afbf4c8996fb92427ae41e4649b934ca495991b7852b855",
        isAsciiDigit c = true ∨ (97 ≤ c ∧ c ≤ 102) := by decide
    exact hhex
  · intro s c hc
    obtain ⟨d, -, rfl⟩ := List.mem_map.mp hc
    simp only [asciiInterpreter, List.map_singleton]
    split <;> simp
    omega
  · intro s settled _ hsettled
    simp only [asciiInterpreter, List.map_append, List.append_cancel_left_eq]
    refine (List.map_congr_left fun c hc => ?_).trans (List.map_id settled)
    exact (List.cons.inj (hsettled c hc)).1
  · intro host address h
    rw [haddress host address h]
    rfl
  · intro host address h c hc
    rw [haddress host address h] at hc
    have hall : ∀ c ∈ str "127.0.0.1", asciiInterpreter.lower [c] = [c] := by decide
    exact .inr (hall c hc)
  · intro host address h
    rw [haddress host address h]
    exact ⟨49, str "27.0.0.1", rfl, by decide⟩

/-- A write of a temporary file. -/
def writeOfFile : TraceEvent where
  executionID := str "e"
  testID := str "t"
  timestampNS := 1
  pid := 2
  tid := 2
  cgroupID := 0
  resourceType := .file
  resourceIdentifier := str "/tmp/./x"
  operation := .write
  accessMode := .write
  source := .replay
  metadata := .object []
  sequence := 0

/-- The file is the same the second time, and its trace is read back. -/
theorem normalized_again_iff_writeOfFile :
    NormalizationPolicy.normalizeIdentifier {} asciiInterpreter .file (str "/tmp/x") .write =
        .ok (some (str "/tmp/x")) ∧
      ∃ s, consume asciiInterpreter {} [writeOfFile] = .ok s ∧
        ∃ quality, readEvents asciiInterpreter {} (streamLines s.output) =
          .ok ((writtenEvents asciiInterpreter {} [writeOfFile]).map TraceEvent.sortMetadata,
            quality) := by
  have hfirst : NormalizationPolicy.normalizeIdentifier {} asciiInterpreter .file
      (str "/tmp/./x") .write = .ok (some (str "/tmp/x")) := by rfl
  have hstable : NormalizationPolicy.Stable {} asciiInterpreter .file (str "/tmp/./x") .write :=
    ⟨by decide +kernel, by decide +kernel, by decide +kernel⟩
  have hagain := @normalized_again_iff asciiInterpreter {} asciiInterpreter_documented
  refine ⟨(hagain.1 _ _ _ _ hfirst).mpr hstable, ?_⟩
  obtain ⟨s, hs⟩ := exists_eq_ok_of_isOk
    (by decide +kernel : (consume asciiInterpreter {} [writeOfFile]).isOk = true)
  refine ⟨s, hs, (hagain.2 _ _ hs ?_).mpr ?_⟩
  · intro event hevent
    obtain ⟨form, hform, rfl⟩ := List.mem_map.mp hevent
    obtain ⟨raw, hraw, hwritten⟩ := List.mem_filterMap.mp hform
    obtain rfl := List.mem_singleton.mp hraw
    have hnormalize : normalizeEvent asciiInterpreter {} writeOfFile =
        .ok (some { writeOfFile with resourceIdentifier := str "/tmp/x" }) := by rfl
    have hsame := (writtenForm_eq_some hwritten).1
    rw [hnormalize] at hsame
    rw [← Option.some.inj (Except.ok.inj hsame)]
    exact TraceEvent.isCarried rfl (unpaired_ascii (by decide)) (unpaired_ascii (by decide))
      (unpaired_ascii (by decide))
      (.object (fun _ h => absurd (mem_of_mem_sortMembers h) List.not_mem_nil)
        fun _ h => absurd (mem_of_mem_sortMembers h) List.not_mem_nil)
  · intro event hevent _ _
    obtain rfl := List.mem_singleton.mp hevent
    exact hstable

/-- **The prefix of a program is put on twice.** -/
theorem not_again_python :
    ¬ ∀ v, NormalizationPolicy.normalizeIdentifier {} asciiInterpreter .process (str "python") .exec =
        .ok (some v) →
      NormalizationPolicy.normalizeIdentifier {} asciiInterpreter .process v .exec = .ok (some v) := by
  intro h
  have hprefixed : NormalizationPolicy.normalizeIdentifier {} asciiInterpreter .process
      (str "EXEC:python") .exec = .ok (some (str "EXEC:EXEC:python")) := by rfl
  have hsame := h (str "EXEC:python") (by rfl)
  rw [hprefixed] at hsame
  exact absurd (Option.some.inj (Except.ok.inj hsame)) (by decide)

end ConflictGraph.Py
