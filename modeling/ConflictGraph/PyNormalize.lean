import ConflictGraph.PyJson

/-!
# The resource normaliser

`ResourceNormalizer` of `normalize.py` turns the raw identifier of an event into a stable
one, or filters the event. `Interpreter` has what it takes from the interpreter and its
library: the Unicode database, whose version varies, `ipaddress` and SHA-256.
-/

namespace ConflictGraph.Py

/-- What `ipaddress.ip_address` returns, with what is asked of it. -/
structure IPAddress : Type where
  isLoopback : Bool
  compressed : Str
  deriving DecidableEq

/-- What the tracer's results depend on in the interpreter that runs it. -/
structure Interpreter : Type where
  /-- how many containers `json.loads` can nest where `replay` calls it -/
  loadsDepth : ℕ
  /-- `str(value)` of a value that is no `str`, which is its `repr`; `none` is the
  `RecursionError` of one that is nested too deep -/
  repr : Json → Option Str
  /-- the value of a decimal digit of Unicode, as `int` and `\d` read it -/
  decimal : ℕ → Option ℕ
  /-- `str.isdigit` of one code point -/
  isDigit : ℕ → Bool
  lower : Str → Str
  /-- `ip_address`; `none` is the `ValueError` of a text that is no address -/
  ipAddress : Str → Option IPAddress
  /-- `sha256(s.encode()).hexdigest()` -/
  sha256 : Str → Str

/-! ## Integers in text -/

/-- The digits of an `int` literal, which single underscores may separate. -/
def digitsOf (interpreter : Interpreter) : Str → Option (List ℕ)
  | [] => none
  | [c] => (interpreter.decimal c).map fun d => [d]
  | c :: 95 :: rest => do return (← interpreter.decimal c) :: (← digitsOf interpreter rest)
  | c :: rest => do return (← interpreter.decimal c) :: (← digitsOf interpreter rest)

/-- What `int` strips, which `str.strip` does not do alike. -/
def isIntSpace (c : ℕ) : Bool := Str.isSpace c && !(28 ≤ c && c ≤ 31)

/-- `int(s)`; `none` is the `ValueError`. -/
def intOf (interpreter : Interpreter) (s : Str) : Option ℤ :=
  let s := (s.dropWhile isIntSpace).rdropWhile isIntSpace
  let negative := s.head? = some 45
  let s := if s.head? = some 45 ∨ s.head? = some 43 then s.tail else s
  match digitsOf interpreter s with
  | none => none
  | some digits =>
    if maxStrDigits < digits.length then none
    else
      let n : ℤ := (digits.foldl (fun n d => 10 * n + d) 0 : ℕ)
      some (if negative then -n else n)

/-! ## Event vocabulary -/

inductive ResourceType : Type where
  | file
  | directory
  | tcpEndpoint
  | udpEndpoint
  | unixSocket
  | fileLock
  | process
  | redisKey
  | databaseResource
  | otherLogicalResource
  deriving DecidableEq, Repr

inductive Operation : Type where
  | read
  | write
  | create
  | delete
  | lock
  | rename
  | bind
  | listen
  | connect
  | exec
  | spawn
  | exit
  deriving DecidableEq, Repr

/-! ## The normaliser -/

structure NormalizationPolicy : Type where
  excludePrefixes : List Str := [str "/proc", str "/sys", str "/usr/lib", str "/lib", str "/System"]
  redactPaths : Bool := false
  hashSalt : Str := []
  repositoryRoot : Option Str := none
  includeReadonlySystem : Bool := false
  ignoredSuffixes : List Str := [str ".pyc", str ".so", str ".dylib"]
  loopbackAlias : Str := str "127.0.0.1"
  deriving DecidableEq

/-- Does one of `_EPHEMERAL_SEGMENTS` match the segment? A `$` also matches before a final
line break. -/
def isEphemeral (interpreter : Interpreter) (segment : Str) : Bool :=
  let body (rest : Str) : Str := if rest.getLast? = some 10 then rest.dropLast else rest
  (match segment.dropPrefix? (str "pytest-of-") with
    | some rest => rest ≠ [] && !rest.contains 47
    | none => false) ||
  (match segment.dropPrefix? (str "pytest-") with
    | some rest => body rest ≠ [] && (body rest).all fun c => (interpreter.decimal c).isSome
    | none => false) ||
  (match segment.dropPrefix? (str "tmp") with
    | some rest => 6 ≤ (body rest).length && (body rest).all fun c =>
        isAsciiDigit c || (65 ≤ c && c ≤ 90) || (97 ≤ c && c ≤ 122) || c = 95 || c = 45
    | none => false)

namespace NormalizationPolicy

variable (policy : NormalizationPolicy) (interpreter : Interpreter)

/-- Is the path the directory, or inside it? -/
def within (path directory : Str) : Bool :=
  path = directory || path.startsWith (directory ++ str "/")

/-- The absolute normal form of a path. -/
def absolute (value : Str) : Str :=
  Str.normpath (if value.startsWith (str "/") then value else str "/" ++ value)

/-- A read of a system path, or of a file with an ignored suffix, is filtered. -/
def excludes (value : Str) (operation : Operation) : Bool :=
  operation = .read && !policy.includeReadonlySystem &&
    ((policy.excludePrefixes.any fun start => within value (Str.normpath start)) ||
      policy.ignoredSuffixes.any fun finish => value.endsWith finish)

/-- A path inside the repository starts with `$REPO`. -/
def relative (value : Str) : Str :=
  match policy.repositoryRoot with
  | none => value
  | some root =>
    let directory := Str.normpath (root.replaceChar 92 47)
    if root ≠ [] && within value directory then str "$REPO" ++ value.drop directory.length else value

/-- The containers of a test run are all the same. -/
def canonical (value : Str) : Str :=
  Str.joinParts ((Str.pathParts value).map fun part =>
    if isEphemeral interpreter part then str "$RUN_TMP" else part)

/-- The path, or its salted hash. -/
def redact (value : Str) : Except ExceptionType Str :=
  if policy.redactPaths then
    let salted := policy.hashSalt ++ 0 :: value
    if salted.encodable then .ok (str "sha256:" ++ interpreter.sha256 salted) else .error .valueError
  else .ok value

/-- `_path`. -/
def path (raw : Str) (operation : Operation) : Except ExceptionType (Option Str) :=
  let value := raw.strip.replaceChar 92 47
  if value = [] ∨ value = str "(null)" ∨ value = str "<unknown>" then .ok none
  else if policy.excludes (absolute value) operation then .ok none
  else
    (policy.redact interpreter (canonical interpreter (policy.relative (absolute value)))).map some

/-- `_endpoint`; the protocol is that of the kind. -/
def endpoint (raw : Str) (protocol upper : String) : Option Str := do
  let value : Str := interpreter.lower raw.strip
  let value : Str := (value.dropPrefix? (str protocol ++ [58])).getD value
  let (host, port) ←
    if value.head? = some 91 then
      if 93 ∈ value then
        some (value.tail.takeWhile (· ≠ 93), (value.dropWhile (· ≠ 93)).tail.dropWhile (· = 58))
      else none
    else value.rpartition 58
  let parsedPort ← intOf interpreter port
  if parsedPort < 0 ∨ 65535 < parsedPort then none
  else
    let address ← interpreter.ipAddress (if host = [] then str "0.0.0.0" else host)
    let host := if address.isLoopback then policy.loopbackAlias else address.compressed
    some (str upper ++ [58] ++ host ++ [58] ++ Str.ofNat parsedPort.toNat)

/-- `_redis`. -/
def redis (raw : Str) : Option Str :=
  let value := raw.strip
  let first := value.takeWhile (· ≠ 58)
  let (db, key) :=
    if 58 ∈ value ∧ first ≠ [] ∧ first.all interpreter.isDigit then
      (first, (value.dropWhile (· ≠ 58)).tail)
    else (str "0", value)
  if key = [] then none else some (str "REDIS:" ++ db ++ [58] ++ key)

/-- `_process`: the first word before a NUL is the program. -/
def process (raw : Str) : Except ExceptionType (Option Str) :=
  let value := raw.strip
  if value = [] then .ok none
  else
    match (Str.words (value.takeWhile (· ≠ 0))).head? with
    | none => .error .indexError
    | some word =>
      let executable := Str.basename word
      .ok (if executable = [] then none else some (str "EXEC:" ++ executable))

/-- `normalize_identifier`. -/
def normalizeIdentifier (kind : ResourceType) (raw : Str) (operation : Operation) :
    Except ExceptionType (Option Str) :=
  match kind with
  | .file | .directory | .fileLock | .unixSocket | .databaseResource =>
    policy.path interpreter raw operation
  | .tcpEndpoint => .ok (policy.endpoint interpreter raw "tcp" "TCP")
  | .udpEndpoint => .ok (policy.endpoint interpreter raw "udp" "UDP")
  | .redisKey => .ok (redis interpreter raw)
  | .process => process raw
  | .otherLogicalResource => .ok (if raw.strip = [] then none else some raw.strip)

/-! ## What the normaliser raises -/

variable {policy interpreter}

/-- `_path` raises only the `UnicodeEncodeError` of a path that cannot be hashed. -/
theorem path_error {raw : Str} {operation : Operation} {e : ExceptionType}
    (h : policy.path interpreter raw operation = .error e) : e = .valueError := by
  simp only [path] at h
  split at h
  · cases h
  · split at h
    · cases h
    · have hredact := eq_error_of_map_eq_error h
      simp only [redact] at hredact
      split at hredact
      · split at hredact
        · cases hredact
        · exact (Except.error.inj hredact).symm
      · cases hredact

/-- `_process` raises exactly on a NUL that nothing precedes. -/
theorem process_error_iff {raw : Str} {e : ExceptionType} :
    process raw = .error e ↔ e = .indexError ∧ raw.strip.head? = some 0 := by
  rcases hraw : raw.strip with _ | ⟨c, rest⟩
  · simp [process, hraw]
  · by_cases hzero : c = 0
    · subst hzero
      have hwords : (Str.words ((0 :: rest).takeWhile (· ≠ 0))).head? = none := rfl
      simp only [process, hraw, hwords, List.head?_cons, and_true, if_false, reduceCtorEq,
        Except.error.injEq]
      exact eq_comm
    · have hwords : Str.words ((c :: rest).takeWhile (· ≠ 0)) ≠ [] := by
        rw [List.takeWhile_cons_of_pos (by simpa using hzero)]
        exact Str.words_cons_ne_nil (Str.isSpace_of_strip_eq_cons hraw)
      obtain ⟨word, words, hword⟩ := List.exists_cons_of_ne_nil hwords
      simp only [process, hraw, hword, List.head?_cons, if_false, reduceCtorEq,
        Option.some.injEq, hzero, and_false]

/-- What `normalize_identifier` raises: a `ValueError`, or the `IndexError` of a process. -/
theorem normalizeIdentifier_error {kind : ResourceType} {raw : Str} {operation : Operation}
    {e : ExceptionType} (h : policy.normalizeIdentifier interpreter kind raw operation = .error e) :
    e = .valueError ∨ (kind = .process ∧ e = .indexError ∧ raw.strip.head? = some 0) := by
  cases kind with
  | file => exact .inl (path_error h)
  | directory => exact .inl (path_error h)
  | fileLock => exact .inl (path_error h)
  | unixSocket => exact .inl (path_error h)
  | databaseResource => exact .inl (path_error h)
  | tcpEndpoint => cases h
  | udpEndpoint => cases h
  | redisKey => cases h
  | otherLogicalResource => cases h
  | process => exact .inr ⟨rfl, process_error_iff.mp h⟩

end NormalizationPolicy

end ConflictGraph.Py
