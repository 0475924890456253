import ConflictGraph.RustEvent

/-!
# The tracer's normalizer

`normalize.rs` rewrites the identifier of an event. A path is taken apart into its
components, which are put together again without `.` and with every `..` resolved; it is
then made relative to the repository, and hashed if paths are redacted. The one event that
is refused is the read of a path under an excluded prefix, or of the empty path.
-/

namespace ConflictGraph.Rust

/-! ## Paths -/

/-- `std::path::Component`. -/
inductive Component : Type where
  | rootDir
  | curDir
  | parentDir
  | normal (name : List Char)
  deriving DecidableEq

/-- The component that a part between two slashes is; an empty part is none, and neither is
a dot. -/
def Component.ofPart (part : List Char) : Option Component :=
  if part = [] ∨ part = ['.'] then none
  else if part = ['.', '.'] then some .parentDir
  else some (.normal part)

/-- `Path::components`. A dot counts only where it starts the path. -/
def components (path : List Char) : List Component :=
  let parts := path.splitOn '/'
  let named := parts.filterMap Component.ofPart
  if path.head? = some '/' then .rootDir :: named
  else if parts.head? = some ['.'] then .curDir :: named
  else named

/-- `PathBuf::pop`; the root and the empty path stay. -/
def pop (path : List Component) : List Component :=
  match path.getLast? with
  | none | some .rootDir => path
  | _ => path.dropLast

/-- One component, in the loop of `Normalizer::path`. -/
def pushComponent (normalized : List Component) : Component → List Component
  | .parentDir => pop normalized
  | .curDir => normalized
  | .rootDir => [.rootDir]
  | .normal name => normalized ++ [.normal name]

/-- The text of a component. -/
def Component.text : Component → List Char
  | .rootDir => []
  | .curDir => ['.']
  | .parentDir => ['.', '.']
  | .normal name => name

/-- `to_string_lossy`, of a path that was a text. -/
def pathText (path : List Component) : List Char :=
  if path = [.rootDir] then ['/'] else List.intercalate ['/'] (path.map Component.text)

/-- `Path::strip_prefix`. -/
def stripPrefix (path start : List Component) : Option (List Component) :=
  if start.isPrefixOf path then some (path.drop start.length) else none

/-! ## Policies -/

structure Policy : Type where
  excludedPrefixes : List String := ["/proc", "/sys", "/usr/lib", "/lib"]
  redactPaths : Bool := false
  hashSalt : String := ""
  repositoryRoot : Option String := none
  includeSystemReads : Bool := false
  deriving DecidableEq

/-- `Policy::validate`. -/
def Policy.validate (policy : Policy) : Except String Unit :=
  if policy.redactPaths = true ∧ policy.hashSalt = "" then
    .error "path redaction requires a non-empty salt"
  else .ok ()

/-- `Normalizer`: a policy that was validated. -/
structure Normalizer : Type where
  policy : Policy
  valid : policy.validate = .ok ()

/-- `Normalizer::new`. -/
def Normalizer.new (policy : Policy) : Except String Normalizer :=
  match h : policy.validate with
  | .ok () => .ok ⟨policy, h⟩
  | .error reason => .error reason

namespace Normalizer

-- the hexadecimal digest of SHA-256
variable (sha256 : List UInt8 → String)

/-- `Normalizer::path`. -/
def path (normalizer : Normalizer) (raw : String) (operation : Operation) : Option String :=
  let policy := normalizer.policy
  if raw = "" then none
  else
    let normalized := (components raw.toList).foldl pushComponent []
    if operation = .read ∧ policy.includeSystemReads = false ∧
        policy.excludedPrefixes.any fun excluded =>
          (components excluded.toList).isPrefixOf normalized then
      none
    else
      let value :=
        match policy.repositoryRoot with
        | none => String.ofList (pathText normalized)
        | some root =>
          match stripPrefix normalized (components root.toList) with
          | some relative => "$REPO/" ++ String.ofList (pathText relative)
          | none => String.ofList (pathText normalized)
      if policy.redactPaths then
        some ("sha256:" ++
          sha256 (policy.hashSalt.toUTF8.data.toList ++ 0 :: value.toUTF8.data.toList))
      else some value

/-- `Normalizer::normalize`; `none` stands for the result `false`. -/
def normalize (normalizer : Normalizer) (event : NormalizedEvent) : Option NormalizedEvent :=
  match event.resourceType with
  | .file | .directory | .unixSocket | .fileLock | .databaseResource =>
    (normalizer.path sha256 event.resourceIdentifier event.operation).map fun value =>
      { event with resourceIdentifier := value }
  | .tcpEndpoint | .udpEndpoint =>
    some { event with
      resourceIdentifier := String.ofList (event.resourceIdentifier.toList.map Char.toUpper) }
  | .redisKey =>
    if "REDIS:".toList.isPrefixOf event.resourceIdentifier.toList then some event
    else some { event with resourceIdentifier := "REDIS:" ++ event.resourceIdentifier }
  | _ => some event

end Normalizer

end ConflictGraph.Rust
