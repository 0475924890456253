import ConflictGraph.Loop
import ConflictGraph.PyTracing

/-!
# What aborts a replay

`from_dict` reads the fields of an event in a fixed order, and its exception is that of the
first field that does not convert. `fields` is the list of what it reads, so an abort is a
statement about the first bad field. The count of a replay is an invariant of its loop.
-/

namespace ConflictGraph.Py

/-! ## The fields of an event -/

/-- What a field is converted to. -/
inductive FieldKind : Type where
  | text
  | integer
  | oneOf (names : List String)

/-- A field and the value it is read from; a required field can be missing. -/
structure Field : Type where
  kind : FieldKind
  value : Option Json

/-- The fields of an event in the order in which `from_dict` reads them. -/
def fields (members : List (Str × Json)) : List Field :=
  let pid := optional members "pid" (.int 0)
  [⟨.text, Json.lookup members "execution_id"⟩,
    ⟨.text, Json.lookup members "test_id"⟩,
    ⟨.integer, Json.lookup members "timestamp_ns"⟩,
    ⟨.integer, some pid⟩,
    ⟨.integer, some (optional members "tid" pid)⟩,
    ⟨.integer, some (optional members "cgroup_id" (.int 0))⟩,
    ⟨.oneOf (ResourceType.values.map Prod.fst), Json.lookup members "resource_type"⟩,
    ⟨.text, Json.lookup members "resource_identifier"⟩,
    ⟨.oneOf (Operation.values.map Prod.fst), Json.lookup members "operation"⟩,
    ⟨.oneOf (AccessMode.values.map Prod.fst), Json.lookup members "access_mode"⟩,
    ⟨.oneOf (EventSource.values.map Prod.fst),
      some (optional members "source" (.string (str "REPLAY")))⟩,
    ⟨.integer, some (optional members "sequence" (.int 0))⟩]

namespace Field

variable (interpreter : Interpreter)

/-- The value converts to what the field is. -/
def converts : Field → Bool
  | ⟨_, none⟩ => false
  | ⟨.text, some value⟩ => (textOf interpreter value).isSome
  | ⟨.integer, some (.int _)⟩ => true
  | ⟨.integer, some (.bool _)⟩ => true
  | ⟨.integer, some (.float (.finite _))⟩ => true
  | ⟨.integer, some (.string s)⟩ => (intOf interpreter s).isSome
  | ⟨.integer, some _⟩ => false
  | ⟨.oneOf names, some (.string s)⟩ => names.any fun name => s = str name
  | ⟨.oneOf _, some _⟩ => false

/-- The exception of a field that aborts the replay: an infinite number for an integer, or
a value that is nested too deep to print. -/
def fatal : Field → Option ExceptionType
  | ⟨_, none⟩ => none
  | ⟨.integer, some (.float (.inf _))⟩ => some .overflowError
  | ⟨.integer, some _⟩ => none
  | ⟨.text, some value⟩ => if (textOf interpreter value).isSome then none else some .recursionError
  | ⟨.oneOf _, some value⟩ => if (textOf interpreter value).isSome then none else some .recursionError

/-- A conversion of the field: it succeeds on what converts, and of its exceptions
`replay` does not catch the fatal one. -/
structure ReadBy {α : Type} (field : Field) (r : Except ExceptionType α) : Prop where
  isOk : r.isOk = field.converts interpreter
  uncaught : ∀ e, caught e = false → (r = .error e ↔ field.fatal interpreter = some e)

variable {interpreter}

theorem readBy_strOf (value : Json) :
    ReadBy interpreter ⟨.text, some value⟩ (strOf interpreter value) := by
  rcases h : textOf interpreter value with _ | s
  · exact ⟨by simp [strOf, converts, h, Except.isOk, Except.toBool],
      fun e _ => by simp [strOf, fatal, h]⟩
  · exact ⟨by simp [strOf, converts, h, Except.isOk, Except.toBool],
      fun e _ => by simp [strOf, fatal, h]⟩

/-- A conversion that `replay` catches the failure of. -/
theorem readBy_of_error {α : Type} {field : Field} {e : ExceptionType} (he : caught e = true)
    (hconverts : field.converts interpreter = false) (hfatal : field.fatal interpreter = none) :
    ReadBy interpreter field (.error e : Except ExceptionType α) := by
  refine ⟨hconverts.symm, fun e' he' => ?_⟩
  rw [hfatal]
  refine ⟨fun h => ?_, fun h => nomatch h⟩
  rw [Except.error.inj h, he'] at he
  cases he

theorem readBy_of_ok {α : Type} {field : Field} {a : α}
    (hconverts : field.converts interpreter = true) (hfatal : field.fatal interpreter = none) :
    ReadBy interpreter field (.ok a) :=
  ⟨hconverts.symm, fun e _ => by simp [hfatal]⟩

theorem readBy_intOfJson (value : Json) :
    ReadBy interpreter ⟨.integer, some value⟩ (intOfJson interpreter value) := by
  cases value with
  | int n => exact readBy_of_ok rfl rfl
  | bool b => exact readBy_of_ok rfl rfl
  | float f =>
    cases f with
    | finite q => exact readBy_of_ok rfl rfl
    | nan => exact readBy_of_error rfl rfl rfl
    | inf negative => exact ⟨rfl, fun e _ => by simp [intOfJson, fatal]⟩
  | string s =>
    rcases h : intOf interpreter s with _ | n
    · rw [intOfJson, h]
      exact readBy_of_error rfl (by simp [converts, h]) rfl
    · rw [intOfJson, h]
      exact readBy_of_ok (by simp [converts, h]) rfl
  | null => exact readBy_of_error rfl rfl rfl
  | array items => exact readBy_of_error rfl rfl rfl
  | object members => exact readBy_of_error rfl rfl rfl

/-- A value is a member of an enumeration if it is one of its names. -/
theorem memberOf?_isSome (interpreter : Interpreter) {α : Type} (values : List (String × α))
    (value : Json) : (memberOf? values value).isSome =
      converts interpreter ⟨.oneOf (values.map Prod.fst), some value⟩ := by
  cases value with
  | string s =>
    rw [memberOf?, Option.isSome_map, converts, List.any_map, Bool.eq_iff_iff, List.find?_isSome,
      List.any_eq_true]
    rfl
  | _ => rfl

theorem readBy_memberOf {α : Type} (values : List (String × α)) (value : Json) :
    ReadBy interpreter ⟨.oneOf (values.map Prod.fst), some value⟩
      (memberOf interpreter values value) := by
  have hconverts := memberOf?_isSome interpreter values value
  rcases hmember : memberOf? values value with _ | a
  · rw [hmember] at hconverts
    rcases htext : textOf interpreter value with _ | s
    · refine ⟨?_, fun e _ => ?_⟩
      · simp [memberOf, hmember, htext, ← hconverts, Except.isOk, Except.toBool]
      · simp [memberOf, hmember, htext, fatal]
    · have herror : memberOf interpreter values value = .error .valueError := by
        simp [memberOf, hmember, htext]
      rw [herror]
      exact readBy_of_error rfl hconverts.symm (by simp [fatal, htext])
  · rw [hmember] at hconverts
    have hok : memberOf interpreter values value = .ok a := by simp [memberOf, hmember]
    rw [hok]
    refine readBy_of_ok hconverts.symm ?_
    cases value with
    | string s => simp [fatal, textOf]
    | _ => cases hmember

/-- What is fatal is not caught. -/
theorem caught_of_fatal {field : Field} {e : ExceptionType}
    (h : field.fatal interpreter = some e) : caught e = false := by
  rw [fatal.eq_def] at h
  split at h
  · cases h
  · rw [← Option.some.inj h]
    rfl
  · cases h
  · split at h
    · cases h
    · rw [← Option.some.inj h]
      rfl
  · split at h
    · cases h
    · rw [← Option.some.inj h]
      rfl

/-- Reading a required field: a missing one is a `KeyError`. -/
theorem readBy_required {α : Type} {members : List (Str × Json)} {key : String}
    {kind : FieldKind} {convert : Json → Except ExceptionType α}
    (h : ∀ value, ReadBy interpreter ⟨kind, some value⟩ (convert value)) :
    ReadBy interpreter ⟨kind, Json.lookup members key⟩ (required members key >>= convert) := by
  rcases hlookup : Json.lookup members key with _ | value
  · rw [required, hlookup]
    exact readBy_of_error rfl (by cases kind <;> rfl) (by cases kind <;> rfl)
  · rw [required, hlookup]
    exact h value

end Field

/-- A computation that reads the fields in order: it succeeds if all convert, and of its
exceptions `replay` does not catch that of a fatal field which is the first that does not
convert. -/
structure Reads {α : Type} (interpreter : Interpreter) (fields : List Field)
    (r : Except ExceptionType α) : Prop where
  isOk : r.isOk = fields.all (Field.converts interpreter)
  uncaught : ∀ e, caught e = false → (r = .error e ↔
    ∃ field, fields.find? (fun field => !field.converts interpreter) = some field ∧
      field.fatal interpreter = some e)

theorem reads_pure {α : Type} {interpreter : Interpreter} (a : α) :
    Reads interpreter [] (pure a : Except ExceptionType α) :=
  ⟨rfl, fun e _ => by simp [pure, Except.pure]⟩

theorem Reads.bind {α β : Type} {interpreter : Interpreter} {field : Field}
    {rest : List Field} {r : Except ExceptionType α} {next : α → Except ExceptionType β}
    (hr : field.ReadBy interpreter r) (hnext : ∀ a, Reads interpreter rest (next a)) :
    Reads interpreter (field :: rest) (r >>= next) := by
  have hok := hr.isOk
  rcases r with e | a
  · have hconverts : field.converts interpreter = false := hok.symm
    refine ⟨by rw [List.all_cons, hconverts]; rfl, fun e' he' => ?_⟩
    rw [List.find?_cons_of_pos (by rw [hconverts]; rfl)]
    simpa [Bind.bind, Except.bind] using hr.uncaught e' he'
  · have hconverts : field.converts interpreter = true := hok.symm
    refine ⟨?_, fun e' he' => ?_⟩
    · rw [List.all_cons, hconverts, Bool.true_and]
      exact (hnext a).isOk
    · rw [List.find?_cons_of_neg (by simp [hconverts])]
      exact (hnext a).uncaught e' he'

/-- **`from_dict` reads its fields in order.** -/
theorem reads_fromDict (interpreter : Interpreter) (members : List (Str × Json)) :
    Reads interpreter (fields members) (TraceEvent.fromDict interpreter (.object members)) := by
  simp only [TraceEvent.fromDict, fields, ← bind_assoc]
  refine .bind (Field.readBy_required Field.readBy_strOf) fun executionID => ?_
  refine .bind (Field.readBy_required Field.readBy_strOf) fun testID => ?_
  refine .bind (Field.readBy_required Field.readBy_intOfJson) fun timestampNS => ?_
  refine .bind (Field.readBy_intOfJson _) fun pid => ?_
  refine .bind (Field.readBy_intOfJson _) fun tid => ?_
  refine .bind (Field.readBy_intOfJson _) fun cgroupID => ?_
  refine .bind (Field.readBy_required (Field.readBy_memberOf _)) fun resourceType => ?_
  refine .bind (Field.readBy_required Field.readBy_strOf) fun resourceIdentifier => ?_
  refine .bind (Field.readBy_required (Field.readBy_memberOf _)) fun operation => ?_
  refine .bind (Field.readBy_required (Field.readBy_memberOf _)) fun accessMode => ?_
  refine .bind (Field.readBy_memberOf _ _) fun source => ?_
  exact .bind (Field.readBy_intOfJson _) fun sequence => reads_pure _

/-! ## Lines that abort -/

namespace ReplayTracer

variable {tracer : ReplayTracer}

/-- The lines that abort a replay: their value is nested too deep; or the first field of
the event that does not convert is an infinite number for an integer, or nested too deep to
print; or the event is of a process whose name is missing before a NUL. -/
def Aborts (tracer : ReplayTracer) (line : Str) : Prop :=
  line.strip ≠ [] ∧
    (loads tracer.interpreter.loadsDepth line.strip = .error .recursionError ∨
      ∃ members, loads tracer.interpreter.loadsDepth line.strip = .ok (.object members) ∧
        ((∃ field e, (fields members).find? (fun field => !field.converts tracer.interpreter) =
            some field ∧ field.fatal tracer.interpreter = some e) ∨
          ∃ event, TraceEvent.fromDict tracer.interpreter (.object members) = .ok event ∧
            event.resourceType = .process ∧ event.resourceIdentifier.strip.head? = some 0))

/-- What `normalize_event` raises without `replay` catching it. -/
theorem normalizeEvent_uncaught_iff {event : TraceEvent} :
    (∃ e, tracer.normalizeEvent event = .error e ∧ caught e = false) ↔
      event.resourceType = .process ∧ event.resourceIdentifier.strip.head? = some 0 := by
  refine ⟨?_, ?_⟩
  · rintro ⟨e, herror, hcaught⟩
    rcases NormalizationPolicy.normalizeIdentifier_error (eq_error_of_map_eq_error herror) with
      rfl | ⟨hkind, -, hnul⟩
    · cases hcaught
    · exact ⟨hkind, hnul⟩
  · rintro ⟨hkind, hnul⟩
    refine ⟨.indexError, ?_, rfl⟩
    have herror : NormalizationPolicy.process event.resourceIdentifier = .error .indexError :=
      NormalizationPolicy.process_error_iff.mpr ⟨rfl, hnul⟩
    simp only [normalizeEvent, NormalizationPolicy.normalizeIdentifier, hkind, herror]
    rfl

/-- **The exceptions that `replay` does not catch.** -/
theorem ingest_uncaught_iff {line : Str} (hline : line.strip ≠ []) :
    (∃ e, tracer.ingest line.strip = .error e ∧ caught e = false) ↔ tracer.Aborts line := by
  rw [Aborts, and_iff_right hline]
  rcases hloads : loads tracer.interpreter.loadsDepth line.strip with e | value
  · have hingest : tracer.ingest line.strip = .error e := by
      rw [ingest, hloads]
      rfl
    rw [hingest]
    refine ⟨?_, ?_⟩
    · rintro ⟨e', herror, hcaught⟩
      obtain rfl := Except.error.inj herror
      rcases loads_error hloads with rfl | rfl | rfl
      · cases hcaught
      · cases hcaught
      · exact .inl rfl
    · rintro (herror | ⟨members, hmembers, -⟩)
      · obtain rfl := Except.error.inj herror
        exact ⟨_, rfl, rfl⟩
      · cases hmembers
  · have hingest : tracer.ingest line.strip =
        TraceEvent.fromDict tracer.interpreter value >>= tracer.normalizeEvent := by
      rw [ingest, hloads]
      rfl
    rw [hingest]
    cases value with
    | object members =>
      have hreads := reads_fromDict tracer.interpreter members
      refine ⟨?_, ?_⟩
      · rintro ⟨e, herror, hcaught⟩
        refine .inr ⟨members, rfl, ?_⟩
        rcases bind_eq_error_iff.mp herror with herror | ⟨event, hevent, herror⟩
        · obtain ⟨field, hfield, hfatal⟩ := (hreads.uncaught e hcaught).mp herror
          exact .inl ⟨field, e, hfield, hfatal⟩
        · exact .inr ⟨event, hevent, normalizeEvent_uncaught_iff.mp ⟨e, herror, hcaught⟩⟩
      · rintro (herror | ⟨members', hmembers, habort⟩)
        · cases herror
        · obtain rfl := Json.object.inj (Except.ok.inj hmembers)
          rcases habort with ⟨field, e, hfield, hfatal⟩ | ⟨event, hevent, hprocess⟩
          · have hcaught := Field.caught_of_fatal hfatal
            have herror := (hreads.uncaught e hcaught).mpr ⟨field, hfield, hfatal⟩
            exact ⟨e, bind_eq_error_iff.mpr (.inl herror), hcaught⟩
          · obtain ⟨e, herror, hcaught⟩ := normalizeEvent_uncaught_iff.mpr hprocess
            exact ⟨e, bind_eq_error_iff.mpr (.inr ⟨event, hevent, herror⟩), hcaught⟩
    | _ =>
      refine ⟨?_, ?_⟩
      · rintro ⟨e, herror, hcaught⟩
        obtain rfl := Except.error.inj herror
        cases hcaught
      · rintro (herror | ⟨members, hmembers, -⟩)
        · cases herror
        · cases hmembers

/-! ## Verdicts -/

/-- What becomes of a line. -/
inductive Verdict : Type where
  | blank
  | parseFailure
  | filtered
  | processed (event : TraceEvent)
  | aborts (e : ExceptionType)

namespace Verdict

/-- The line is skipped. -/
def isBlank : Verdict → Bool
  | .blank => true
  | _ => false

/-- The line is counted as a parse failure. -/
def isParseFailure : Verdict → Bool
  | .parseFailure => true
  | _ => false

/-- The policy filters the event of the line. -/
def isFiltered : Verdict → Bool
  | .filtered => true
  | _ => false

/-- The event that the consumer is given. -/
def event? : Verdict → Option TraceEvent
  | .processed event => some event
  | _ => none

end Verdict

/-- What becomes of a line. -/
def verdict (tracer : ReplayTracer) (line : Str) : Verdict :=
  if line.strip = [] then .blank
  else
    match tracer.ingest line.strip with
    | .error e => if caught e then .parseFailure else .aborts e
    | .ok none => .filtered
    | .ok (some event) => .processed event

/-- Only lines of white space are blank. -/
theorem isBlank_verdict (line : Str) :
    (tracer.verdict line).isBlank = decide (line.strip = []) := by
  by_cases hblank : line.strip = []
  · simp [verdict, hblank, Verdict.isBlank]
  · rcases hingest : tracer.ingest line.strip with e | (_ | event)
    · rcases hcaught : caught e <;> simp [verdict, hblank, hingest, hcaught, Verdict.isBlank]
    · simp [verdict, hblank, hingest, Verdict.isBlank]
    · simp [verdict, hblank, hingest, Verdict.isBlank]

/-- The lines that abort are those of `Aborts`. -/
theorem verdict_aborts_iff {line : Str} :
    (∃ e, tracer.verdict line = .aborts e) ↔ tracer.Aborts line := by
  by_cases hblank : line.strip = []
  · simp [verdict, Aborts, hblank]
  · rw [← ingest_uncaught_iff hblank]
    rcases hingest : tracer.ingest line.strip with e | (_ | event)
    · rcases hcaught : caught e <;> simp [verdict, hblank, hingest, hcaught]
    · simp [verdict, hblank, hingest]
    · simp [verdict, hblank, hingest]

/-- One line, by its verdict. -/
theorem line_eq (s : ReplayState) (line : Str) : tracer.line s line =
    match tracer.verdict line with
    | .blank => .ok s
    | .parseFailure => .ok { s with quality := { s.quality with
        captured := s.quality.captured + 1
        parseFailures := s.quality.parseFailures + 1 } }
    | .filtered => .ok { s with quality := { s.quality with captured := s.quality.captured + 1 } }
    | .processed event => (tracer.pause s.lastTimestamp event.timestampNS).map fun _ =>
        { quality := { s.quality with
            captured := s.quality.captured + 1
            processed := s.quality.processed + 1
            unattributed := s.quality.unattributed + if event.testID = [] then 1 else 0 }
          lastTimestamp := some event.timestampNS
          consumed := s.consumed ++ [event] }
    | .aborts e => .error e := by
  by_cases hblank : line.strip = []
  · simp [ReplayTracer.line, verdict, hblank]
  · rcases hingest : tracer.ingest line.strip with e | (_ | event)
    · rcases hcaught : caught e <;> simp [ReplayTracer.line, verdict, hblank, hingest, hcaught]
    · simp [ReplayTracer.line, verdict, hblank, hingest]
    · simp [ReplayTracer.line, verdict, hblank, hingest]

/-! ## The count of a replay -/

/-- The quality counts the lines: every line that is not blank is captured, and is processed,
a parse failure or filtered. -/
structure Accounts (tracer : ReplayTracer) (lines : List Str) (quality : TraceQuality) : Prop where
  captured : quality.captured = lines.countP fun line => line.strip ≠ []
  processed : quality.processed = lines.countP fun line => (tracer.verdict line).event?.isSome
  parseFailures : quality.parseFailures =
    lines.countP fun line => (tracer.verdict line).isParseFailure
  filtered : quality.captured = quality.processed + quality.parseFailures +
    lines.countP fun line => (tracer.verdict line).isFiltered

/-- What a line that does not abort adds to the count. -/
theorem line_counts {s s' : ReplayState} {line : Str} (h : tracer.line s line = .ok s') :
    s'.quality.captured = s.quality.captured + (decide (line.strip ≠ [])).toNat ∧
      s'.quality.processed = s.quality.processed + (tracer.verdict line).event?.isSome.toNat ∧
      s'.quality.parseFailures =
        s.quality.parseFailures + (tracer.verdict line).isParseFailure.toNat ∧
      (decide (line.strip ≠ [])).toNat = (tracer.verdict line).event?.isSome.toNat +
        (tracer.verdict line).isParseFailure.toNat + (tracer.verdict line).isFiltered.toNat := by
  rw [line_eq] at h
  rw [decide_not, ← @isBlank_verdict tracer]
  rcases hverdict : tracer.verdict line with _ | _ | _ | event | e <;> rw [hverdict] at h
  · obtain rfl := Except.ok.inj h
    exact ⟨rfl, rfl, rfl, rfl⟩
  · obtain rfl := Except.ok.inj h
    exact ⟨rfl, rfl, rfl, rfl⟩
  · obtain rfl := Except.ok.inj h
    exact ⟨rfl, rfl, rfl, rfl⟩
  · obtain ⟨-, -, rfl⟩ := eq_ok_of_map_eq_ok h
    exact ⟨rfl, rfl, rfl, rfl⟩
  · cases h

/-- A line that does not abort keeps the count. -/
theorem Accounts.line {done : List Str} {line : Str} {s s' : ReplayState}
    (h : tracer.Accounts done s.quality) (hline : tracer.line s line = .ok s') :
    tracer.Accounts (done ++ [line]) s'.quality := by
  obtain ⟨hcaptured, hprocessed, hfailures, hverdict⟩ := line_counts hline
  have hcount (p : Str → Bool) : (done ++ [line]).countP p = done.countP p + (p line).toNat := by
    rw [List.countP_append, List.countP_singleton]
    cases p line <;> rfl
  refine ⟨?_, ?_, ?_, ?_⟩
  · rw [hcount, hcaptured, h.captured]
  · rw [hcount, hprocessed, h.processed]
  · rw [hcount, hfailures, h.parseFailures]
  · rw [hcount, hcaptured, hprocessed, hfailures, hverdict, h.filtered]
    omega

/-- **A replay that returns counts every line once.** -/
theorem replay_accounts {lines : List Str} {s : ReplayState} (h : tracer.replay lines = .ok s) :
    tracer.Accounts lines s.quality := by
  have hstart : tracer.Accounts [] ({} : TraceQuality) := ⟨rfl, rfl, rfl, rfl⟩
  exact @foldlM_invariant _ _ _ _ (fun done s => tracer.Accounts done s.quality)
    (fun hdone hline => hdone.line hline) lines [] _ _ hstart h

/-! ## Replays that return -/

/-- A tracer of this speed can wait for that many nanoseconds. -/
def CanWait : Float64 → ℤ → Prop
  | .finite speed, gap => speed = 0 ∨ (gap < floatLimit ∧ (0 < speed ∨ gap ≤ 0))
  | .inf _, gap => gap < floatLimit
  | .nan, _ => False

/-- The time of the event that the consumer is given of a line. -/
def time (tracer : ReplayTracer) (line : Str) : Option ℤ :=
  (tracer.verdict line).event?.map TraceEvent.timestampNS

/-- From an event that is processed to the next one, the tracer can wait. -/
def Paced (tracer : ReplayTracer) (lines : List Str) : Prop :=
  (lines.filterMap tracer.time).IsChain fun last next => CanWait tracer.speed (next - last)

theorem floatLimit_pos : 0 < floatLimit := by decide +kernel

/-- The pauses that do not raise. -/
theorem pause_eq_ok_iff {last next : ℤ} :
    tracer.pause (some last) next = .ok () ↔ CanWait tracer.speed (next - last) := by
  have hlimit : floatLimit ≤ max 0 (next - last) ↔ floatLimit ≤ next - last := by
    rw [le_max_iff, or_iff_right floatLimit_pos.not_ge]
  have hgap : 0 < max 0 (next - last) ↔ 0 < next - last := by
    rw [lt_max_iff, or_iff_right (lt_irrefl _)]
  simp only [pause, hlimit, hgap]
  by_cases hlong : floatLimit ≤ next - last
  · have hshort : ¬ next - last < floatLimit := not_lt.mpr hlong
    rcases hspeed : tracer.speed with _ | negative | speed <;> simp [CanWait, hlong, hshort]
  · have hshort : next - last < floatLimit := not_le.mp hlong
    rcases hspeed : tracer.speed with _ | negative | speed
    · simp [CanWait, hlong]
    · simp [CanWait, hlong, hshort]
    · by_cases hzero : speed = 0
      · simp [CanWait, hzero]
      · have hsign : 0 ≤ speed ↔ 0 < speed :=
          ⟨fun hle => lt_of_le_of_ne hle (Ne.symm hzero), le_of_lt⟩
        simp [CanWait, hlong, hshort, hzero, hsign, imp_iff_or_not]

/-- A line does not raise if it does not abort, and the tracer can wait for its event. -/
theorem line_ok_iff {s : ReplayState} {line : Str} :
    (∃ s', tracer.line s line = .ok s') ↔ ¬ tracer.Aborts line ∧
      (s.lastTimestamp.toList ++ (tracer.time line).toList).IsChain
        fun last next => CanWait tracer.speed (next - last) := by
  rw [line_eq, ← verdict_aborts_iff, time]
  rcases hverdict : tracer.verdict line with _ | _ | _ | event | e
  · cases s.lastTimestamp <;> simp [Verdict.event?]
  · cases s.lastTimestamp <;> simp [Verdict.event?]
  · cases s.lastTimestamp <;> simp [Verdict.event?]
  · rcases hlast : s.lastTimestamp with _ | last
    · simp [Verdict.event?, pause, Except.map]
    · have hwait := @pause_eq_ok_iff tracer last event.timestampNS
      rcases hpause : tracer.pause (some last) event.timestampNS with e | _
      · rw [hpause] at hwait
        simp [Verdict.event?, Except.map, ← hwait, hpause]
      · rw [hpause] at hwait
        simp [Verdict.event?, Except.map, ← hwait, hpause]
  · simp

theorem lastTimestamp_line {s s' : ReplayState} {line : Str} (h : tracer.line s line = .ok s') :
    s'.lastTimestamp = (tracer.time line).or s.lastTimestamp := by
  rw [line_eq] at h
  rw [time]
  rcases hverdict : tracer.verdict line with _ | _ | _ | event | e <;> rw [hverdict] at h
  · obtain rfl := Except.ok.inj h
    rfl
  · obtain rfl := Except.ok.inj h
    rfl
  · obtain rfl := Except.ok.inj h
    rfl
  · obtain ⟨-, -, rfl⟩ := eq_ok_of_map_eq_ok h
    rfl
  · cases h

/-- A chain is one up to its next element, and one from the last element so far. -/
theorem isChain_toList_append_iff {R : ℤ → ℤ → Prop} {last next : Option ℤ} {rest : List ℤ} :
    (last.toList ++ (next.toList ++ rest)).IsChain R ↔
      (last.toList ++ next.toList).IsChain R ∧ ((next.or last).toList ++ rest).IsChain R := by
  cases last <;> cases next <;> simp

/-- A replay goes on to its end if no line aborts, and the tracer can wait from event to
event. -/
theorem foldlM_line_ok_iff (lines : List Str) :
    ∀ s : ReplayState, (∃ s', lines.foldlM tracer.line s = .ok s') ↔
      (∀ line ∈ lines, ¬ tracer.Aborts line) ∧
        (s.lastTimestamp.toList ++ lines.filterMap tracer.time).IsChain
          fun last next => CanWait tracer.speed (next - last) := by
  induction lines with
  | nil =>
    intro s
    cases s.lastTimestamp <;> simp [pure, Except.pure]
  | cons line rest ih =>
    intro s
    have htimes : (line :: rest).filterMap tracer.time =
        (tracer.time line).toList ++ rest.filterMap tracer.time := by
      rw [List.filterMap_cons]
      cases tracer.time line <;> rfl
    rw [htimes, isChain_toList_append_iff, List.forall_mem_cons, and_and_and_comm, ← line_ok_iff,
      List.foldlM_cons]
    refine ⟨?_, ?_⟩
    · rintro ⟨s', hrun⟩
      obtain ⟨next, hnext, hrest⟩ := bind_eq_ok_iff.mp hrun
      rw [← lastTimestamp_line hnext]
      exact ⟨⟨next, hnext⟩, (ih next).mp ⟨s', hrest⟩⟩
    · rintro ⟨⟨next, hnext⟩, hrest⟩
      rw [← lastTimestamp_line hnext] at hrest
      obtain ⟨s', hs'⟩ := (ih next).mpr hrest
      exact ⟨s', bind_eq_ok_iff.mpr ⟨next, hnext, hs'⟩⟩

/-- **When a replay returns with every line counted.** -/
theorem replay_accounts_iff (tracer : ReplayTracer) (lines : List Str) :
    (∃ s, tracer.replay lines = .ok s ∧ tracer.Accounts lines s.quality) ↔
      (∀ line ∈ lines, ¬ tracer.Aborts line) ∧ tracer.Paced lines := by
  refine Iff.trans ?_ (foldlM_line_ok_iff lines ⟨{}, none, []⟩)
  exact ⟨fun ⟨s, hs, _⟩ => ⟨s, hs⟩, fun ⟨s, hs⟩ => ⟨s, hs, replay_accounts hs⟩⟩

/-- A tracer whose interpreter knows ASCII only, and has no addresses and no hashes. -/
def ascii : ReplayTracer where
  interpreter :=
    { loadsDepth := 900
      repr := fun _ => some []
      decimal := fun c => if isAsciiDigit c then some (c - 48) else none
      isDigit := isAsciiDigit
      lower := fun s => s.map fun c => if 65 ≤ c ∧ c ≤ 90 then c + 32 else c
      ipAddress := fun _ => none
      sha256 := fun s => s }
  policy := {}
  speed := .finite 0

/-- An event at an infinite time, which the JSON of Python can write. -/
def endless : Str :=
  str "\x7b\"execution_id\": \"e\", \"test_id\": \"t\", \"timestamp_ns\": Infinity\x7d"

/-- **One line ends a replay.** `int` raises an `OverflowError` on the timestamp. -/
theorem not_replay_accounts_endless :
    ¬ ∃ s, ascii.replay [endless] = .ok s ∧ ascii.Accounts [endless] s.quality := by
  rintro ⟨s, hs, -⟩
  have hfails : (ascii.replay [endless]).isOk = false := by decide +kernel
  rw [hs] at hfails
  cases hfails

end ReplayTracer

end ConflictGraph.Py
