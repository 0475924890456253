import Mathlib.Data.List.Chain
import ConflictGraph.PyNormalize

/-!
# Replay of a trace

`ReplayTracer.replay` reads a trace line by line, and counts every line it captures as
processed or as a parse failure; a line that the policy filters is neither. It catches
`ValueError`, `TypeError` and `KeyError` around parsing and normalising. Three other
exceptions get out of there (`ingest_uncaught_iff`): `RecursionError` of values that are
nested too deep, `OverflowError` of an infinite number in an integer field, and
`IndexError` of a process whose name is missing before a NUL.
-/

namespace ConflictGraph.Py

/-! ## Events -/

inductive AccessMode : Type where
  | read
  | write
  | exclusive
  | shared
  | execute
  | unknown
  deriving DecidableEq, Repr

inductive EventSource : Type where
  | ebpf
  | replay
  | redisAdapter
  | pytestPlugin
  deriving DecidableEq, Repr

/-- The values of `ResourceType`. -/
def ResourceType.values : List (String × ResourceType) :=
  [("FILE", .file), ("DIRECTORY", .directory), ("TCP_ENDPOINT", .tcpEndpoint),
    ("UDP_ENDPOINT", .udpEndpoint), ("UNIX_SOCKET", .unixSocket), ("FILE_LOCK", .fileLock),
    ("PROCESS", .process), ("REDIS_KEY", .redisKey), ("DATABASE_RESOURCE", .databaseResource),
    ("OTHER_LOGICAL_RESOURCE", .otherLogicalResource)]

/-- The values of `Operation`. -/
def Operation.values : List (String × Operation) :=
  [("READ", .read), ("WRITE", .write), ("CREATE", .create), ("DELETE", .delete), ("LOCK", .lock),
    ("RENAME", .rename), ("BIND", .bind), ("LISTEN", .listen), ("CONNECT", .connect),
    ("EXEC", .exec), ("SPAWN", .spawn), ("EXIT", .exit)]

/-- The values of `AccessMode`. -/
def AccessMode.values : List (String × AccessMode) :=
  [("READ", .read), ("WRITE", .write), ("EXCLUSIVE", .exclusive), ("SHARED", .shared),
    ("EXECUTE", .execute), ("UNKNOWN", .unknown)]

/-- The values of `EventSource`. -/
def EventSource.values : List (String × EventSource) :=
  [("EBPF", .ebpf), ("REPLAY", .replay), ("REDIS_ADAPTER", .redisAdapter),
    ("PYTEST_PLUGIN", .pytestPlugin)]

structure TraceEvent : Type where
  executionID : Str
  testID : Str
  timestampNS : ℤ
  pid : ℤ
  tid : ℤ
  cgroupID : ℤ
  resourceType : ResourceType
  resourceIdentifier : Str
  operation : Operation
  accessMode : AccessMode
  source : EventSource
  metadata : Json
  sequence : ℤ

/-! ## Conversions -/

section Conversions

variable (interpreter : Interpreter)

/-- `str(value)`, unless that is nested too deep. -/
def textOf : Json → Option Str
  | .string s => some s
  | value => interpreter.repr value

/-- `str(value)`. -/
def strOf (value : Json) : Except ExceptionType Str :=
  match textOf interpreter value with
  | some s => .ok s
  | none => .error .recursionError

/-- `int(value)`. -/
def intOfJson : Json → Except ExceptionType ℤ
  | .int n => .ok n
  | .bool b => .ok (if b then 1 else 0)
  | .float (.finite q) => .ok (Int.tdiv q.num q.den)
  | .float .nan => .error .valueError
  | .float (.inf _) => .error .overflowError
  | .string s =>
    match intOf interpreter s with
    | some n => .ok n
    | none => .error .valueError
  | .null => .error .typeError
  | .array _ => .error .typeError
  | .object _ => .error .typeError

/-- The member of an enumeration that a value stands for. -/
def memberOf? {α : Type} (values : List (String × α)) : Json → Option α
  | .string s => (values.find? fun entry => s = str entry.1).map Prod.snd
  | _ => none

/-- `ResourceType(value)` and its like; the error message has the `repr` of the value. -/
def memberOf {α : Type} (values : List (String × α)) (value : Json) : Except ExceptionType α :=
  match memberOf? values value with
  | some a => .ok a
  | none =>
    if (textOf interpreter value).isSome then .error .valueError else .error .recursionError

/-- `value[key]`. -/
def required (members : List (Str × Json)) (key : String) : Except ExceptionType Json :=
  match Json.lookup members key with
  | some value => .ok value
  | none => .error .keyError

/-- `value.get(key, default)`. -/
def optional (members : List (Str × Json)) (key : String) (default : Json) : Json :=
  (Json.lookup members key).getD default

/-- `TraceEvent.from_dict`. -/
def TraceEvent.fromDict : Json → Except ExceptionType TraceEvent
  | .object members => do
    let executionID ← strOf interpreter (← required members "execution_id")
    let testID ← strOf interpreter (← required members "test_id")
    let timestampNS ← intOfJson interpreter (← required members "timestamp_ns")
    let pid ← intOfJson interpreter (optional members "pid" (.int 0))
    let tid ← intOfJson interpreter (optional members "tid" (optional members "pid" (.int 0)))
    let cgroupID ← intOfJson interpreter (optional members "cgroup_id" (.int 0))
    let resourceType ← memberOf interpreter ResourceType.values (← required members "resource_type")
    let resourceIdentifier ← strOf interpreter (← required members "resource_identifier")
    let operation ← memberOf interpreter Operation.values (← required members "operation")
    let accessMode ← memberOf interpreter AccessMode.values (← required members "access_mode")
    let source ← memberOf interpreter EventSource.values
      (optional members "source" (.string (str "REPLAY")))
    let metadata := optional members "metadata" (.object [])
    let sequence ← intOfJson interpreter (optional members "sequence" (.int 0))
    return ⟨executionID, testID, timestampNS, pid, tid, cgroupID, resourceType, resourceIdentifier,
      operation, accessMode, source, metadata, sequence⟩
  -- `value["execution_id"]` of what is no `dict`
  | _ => .error .typeError

end Conversions

/-! ## Replay -/

structure TraceQuality : Type where
  captured : ℕ := 0
  processed : ℕ := 0
  dropped : ℕ := 0
  unattributed : ℕ := 0
  parseFailures : ℕ := 0
  deriving DecidableEq

/-- The classes that `replay` catches; a `UnicodeEncodeError` is a `ValueError`, too. -/
def caught : ExceptionType → Bool
  | .valueError | .jsonDecodeError | .typeError | .keyError => true
  | _ => false

/-- Integers from here on are too large for a `float`. -/
def floatLimit : ℤ := 2 ^ 1024 - 2 ^ 970

/-- A `ReplayTracer` at work. -/
structure ReplayTracer : Type where
  interpreter : Interpreter
  policy : NormalizationPolicy
  speed : Float64

/-- What `replay` keeps from line to line, and the events that the consumer was given. -/
structure ReplayState : Type where
  quality : TraceQuality
  lastTimestamp : Option ℤ
  consumed : List TraceEvent

namespace ReplayTracer

variable (tracer : ReplayTracer)

/-- `normalize_event`. -/
def normalizeEvent (event : TraceEvent) : Except ExceptionType (Option TraceEvent) :=
  (tracer.policy.normalizeIdentifier tracer.interpreter event.resourceType
    event.resourceIdentifier event.operation).map fun identifier =>
      identifier.map fun identifier => { event with resourceIdentifier := identifier }

/-- The body of the `try` statement, on a stripped line. -/
def ingest (stripped : Str) : Except ExceptionType (Option TraceEvent) := do
  let value ← loads tracer.interpreter.loadsDepth stripped
  let event ← TraceEvent.fromDict tracer.interpreter value
  tracer.normalizeEvent event

/-- The pause before an event: `int / float` overflows on a large gap, and `time.sleep`
refuses a delay that is negative or not a number. -/
def pause (last : Option ℤ) (timestamp : ℤ) : Except ExceptionType Unit :=
  match last with
  | none => .ok ()
  | some last =>
    if tracer.speed = .finite 0 then .ok ()
    else
      let gap := max 0 (timestamp - last)
      if floatLimit ≤ gap then .error .overflowError
      else
        match tracer.speed with
        | .finite speed => if 0 < gap ∧ speed < 0 then .error .valueError else .ok ()
        -- the delay is a zero, which is false
        | .inf _ => .ok ()
        | .nan => .error .valueError

/-- One line. -/
def line (s : ReplayState) (line : Str) : Except ExceptionType ReplayState :=
  let stripped := line.strip
  if stripped = [] then .ok s
  else
    let quality := { s.quality with captured := s.quality.captured + 1 }
    match tracer.ingest stripped with
    | .error e =>
      if caught e then
        .ok { s with quality := { quality with parseFailures := quality.parseFailures + 1 } }
      else .error e
    | .ok none => .ok { s with quality }
    | .ok (some event) =>
      (tracer.pause s.lastTimestamp event.timestampNS).map fun _ =>
        { quality := { quality with
            processed := quality.processed + 1
            unattributed := quality.unattributed + if event.testID = [] then 1 else 0 }
          lastTimestamp := some event.timestampNS
          consumed := s.consumed ++ [event] }

/-- `replay` of a new tracer, with a consumer that does not raise. -/
def replay (lines : List Str) : Except ExceptionType ReplayState :=
  lines.foldlM tracer.line ⟨{}, none, []⟩

end ReplayTracer

end ConflictGraph.Py
