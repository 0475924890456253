import Mathlib.Data.List.DropRight
import ConflictGraph.RustTracer
import ConflictGraph.Utf8

/-!
# Kernel records

What the eBPF programs write to the ring buffer is the C layout of `KernelEvent`, which the
tracer reads on the same machine; it is taken to be little-endian. The decoders of
`event.rs` make a resource type, an operation and an identifier of it. Each can fail, and
`resourceType_isOk_iff`, `operationOf_isOk_iff` and `identifier_isOk_iff` say on which bytes.
-/

namespace ConflictGraph.Rust

inductive ResourceType : Type where
  | file
  | directory
  | tcpEndpoint
  | udpEndpoint
  | unixSocket
  | fileLock
  | process
  | redisKey
  | databaseResource
  | otherLogicalResource
  deriving DecidableEq

inductive Operation : Type where
  | read
  | write
  | create
  | delete
  | lock
  | rename
  | bind
  | listen
  | connect
  | exec
  | spawn
  | exit
  deriving DecidableEq

inductive AccessMode : Type where
  | read
  | write
  | exclusive
  | shared
  | execute
  | unknown
  deriving DecidableEq

structure NormalizedEvent : Type where
  executionID : String
  testID : String
  timestampNS : UInt64
  pid : UInt32
  tid : UInt32
  cgroupID : UInt64
  resourceType : ResourceType
  resourceIdentifier : String
  operation : Operation
  accessMode : AccessMode
  source : String
  /-- the members of the JSON object -/
  metadata : List (String × ℤ)
  sequence : UInt64
  deriving DecidableEq

inductive ParseError : Type where
  | unknownKind (kind : UInt8)
  | unknownOperation (operation : UInt8)
  | invalidIdentifier
  | unsupportedAddress (family : UInt16)
  | truncatedAddress
  deriving DecidableEq

/-! ## Records -/

/-- `IDENTIFIER_CAPACITY`. -/
def identifierCapacity : ℕ := 256

/-- `SOCKADDR_CAPACITY`. -/
def sockaddrCapacity : ℕ := 128

/-- `KernelEvent` with all its fields. -/
structure KernelRecord : Type extends KernelEvent where
  timestampNS : UInt64
  kind : UInt8
  accessMode : UInt8
  flags : UInt8
  identifierLen : UInt16
  sockaddrLen : UInt16
  identifier : List UInt8
  sockaddr : List UInt8
  deriving DecidableEq

/-- The number in `width` bytes from `offset` on. -/
def littleEndian (item : List UInt8) (offset width : ℕ) : ℕ :=
  ((item.drop offset).take width).foldr (fun b n => b.toNat + 0x100 * n) 0

/-- `mem::size_of::<KernelEvent>()`. -/
def KernelRecord.size : ℕ := 432

/-- The record in a ring-buffer item, if the item is long enough. -/
def KernelRecord.readUnaligned (item : List UInt8) : Option KernelRecord :=
  if item.length < KernelRecord.size then none
  else some {
    timestampNS := .ofNat (littleEndian item 0 8)
    cgroupID := .ofNat (littleEndian item 8 8)
    pid := .ofNat (littleEndian item 16 4)
    tid := .ofNat (littleEndian item 20 4)
    parentPID := .ofNat (littleEndian item 24 4)
    kind := .ofNat (littleEndian item 28 1)
    operation := .ofNat (littleEndian item 29 1)
    accessMode := .ofNat (littleEndian item 30 1)
    flags := .ofNat (littleEndian item 31 1)
    result := (UInt64.ofNat (littleEndian item 32 8)).toInt64
    identifierLen := .ofNat (littleEndian item 40 2)
    sockaddrLen := .ofNat (littleEndian item 42 2)
    identifier := (item.drop 44).take identifierCapacity
    sockaddr := (item.drop 300).take sockaddrCapacity }

/-- `&kernel.sockaddr[..usize::from(kernel.sockaddr_len).min(128)]`. -/
def KernelRecord.socket (kernel : KernelRecord) : List UInt8 :=
  kernel.sockaddr.take (min kernel.sockaddrLen.toNat sockaddrCapacity)

/-! ## Decoders -/

/-- `AF_UNIX`. -/
def afUnix : UInt16 := 1

/-- `AF_INET`. -/
def afInet : UInt16 := 2

/-- `AF_INET6`. -/
def afInet6 : UInt16 := 10

/-- `u16::from_ne_bytes([bytes[0], bytes[1]])`. -/
def familyOf (bytes : List UInt8) : UInt16 := .ofNat (littleEndian bytes 0 2)

/-- `resource_type`. -/
def resourceType (kind : UInt8) (socket : List UInt8) : Except ParseError ResourceType :=
  match kind with
  | 1 => .ok .file
  | 2 => .ok .directory
  | 3 => if 2 ≤ socket.length ∧ familyOf socket = afUnix then .ok .unixSocket else .ok .tcpEndpoint
  | 4 => .ok .udpEndpoint
  | 7 => .ok .process
  | value => .error (.unknownKind value)

/-- `operation`. -/
def operationOf (value : UInt8) : Except ParseError Operation :=
  match value with
  | 1 => .ok .read
  | 2 => .ok .write
  | 3 => .ok .create
  | 4 => .ok .delete
  | 5 => .ok .lock
  | 6 => .ok .rename
  | 7 => .ok .bind
  | 8 => .ok .listen
  | 9 => .ok .connect
  | 10 => .ok .exec
  | 11 => .ok .spawn
  | 12 => .ok .exit
  | other => .error (.unknownOperation other)

/-- The text of an `Ipv4Addr`. -/
def ipv4Text (a b c d : UInt8) : String :=
  toString a.toNat ++ "." ++ toString b.toNat ++ "." ++ toString c.toNat ++ "." ++ toString d.toNat

/-- The 16-bit groups of the octets of an `Ipv6Addr`. -/
def segments : List UInt8 → List ℕ
  | high :: low :: rest => (high.toNat * 0x100 + low.toNat) :: segments rest
  | _ => []

/-- The first of the longest runs of zero groups, as start and length, of those from index
`i` on; `current` is the run that ends at `i`, and `longest` the one found so far. -/
def longestZeroes : ℕ → ℕ × ℕ → ℕ × ℕ → List ℕ → ℕ × ℕ
  | _, _, longest, [] => longest
  | i, current, longest, segment :: rest =>
    if segment = 0 then
      let current := (if current.2 = 0 then i else current.1, current.2 + 1)
      longestZeroes (i + 1) current (if longest.2 < current.2 then current else longest) rest
    else longestZeroes (i + 1) (0, 0) longest rest

/-- `fmt_subslice`: the groups in hexadecimal with colons between them. -/
def groupsText (groups : List ℕ) : String :=
  String.intercalate ":" (groups.map fun group => String.ofList (Nat.toDigits 16 group))

/-- The text of an `Ipv6Addr`; an address that an IPv4 address is mapped to has that in it. -/
def ipv6Text (octets : List UInt8) : String :=
  if octets.take 12 = [0, 0, 0, 0, 0, 0, 0, 0, 0, 0, 255, 255] then
    "::ffff:" ++
      ipv4Text (octets.getD 12 0) (octets.getD 13 0) (octets.getD 14 0) (octets.getD 15 0)
  else
    let groups := segments octets
    let (start, length) := longestZeroes 0 (0, 0) (0, 0) groups
    if 1 < length then
      groupsText (groups.take start) ++ "::" ++ groupsText (groups.drop (start + length))
    else groupsText groups

/-- `u16::from_be_bytes([bytes[2], bytes[3]])`. -/
def portOf (bytes : List UInt8) : ℕ := (bytes.getD 2 0).toNat * 0x100 + (bytes.getD 3 0).toNat

/-- `socket_identifier`. -/
def socketIdentifier (bytes : List UInt8) : Except ParseError String :=
  if bytes.length < 2 then .error .truncatedAddress
  else if familyOf bytes = afInet then
    if bytes.length < 8 then .error .truncatedAddress
    else
      let address := ipv4Text (bytes.getD 4 0) (bytes.getD 5 0) (bytes.getD 6 0) (bytes.getD 7 0)
      .ok ("TCP:" ++ address ++ ":" ++ toString (portOf bytes))
  else if familyOf bytes = afInet6 then
    if bytes.length < 24 then .error .truncatedAddress
    else
      let octets := (bytes.drop 8).take 16
      .ok ("TCP:[" ++ ipv6Text octets ++ "]:" ++ toString (portOf bytes))
  else if familyOf bytes = afUnix then
    .ok ("UNIX:" ++ Utf8.lossy ((bytes.drop 2).takeWhile (· ≠ 0)))
  else .error (.unsupportedAddress (familyOf bytes))

/-- `trim_end_matches('\0')`. -/
def trimNuls (s : String) : String := String.ofList (s.toList.rdropWhile (· = Char.ofNat 0))

/-- `identifier`. -/
def identifierOf (kernel : KernelRecord) : Except ParseError String :=
  if kernel.sockaddrLen ≠ 0 then socketIdentifier kernel.socket
  else
    match Utf8.strict (kernel.identifier.take (min kernel.identifierLen.toNat identifierCapacity)) with
    | some value => .ok (trimNuls value)
    | none => .error .invalidIdentifier

/-- `access_mode`. -/
def accessModeOf (operation : Operation) (raw : UInt8) : AccessMode :=
  match raw with
  | 1 => .read
  | 2 => .write
  | 3 => .exclusive
  | 4 => .shared
  | 5 => .execute
  | _ =>
    match operation with
    | .read => .read
    | .exec => .execute
    | .bind | .lock => .exclusive
    | .write | .create | .delete | .rename => .write
    | _ => .unknown

example : socketIdentifier [2, 0, 0x1f, 0x90, 127, 0, 0, 1] = .ok "TCP:127.0.0.1:8080" := by
  decide +kernel

example : ipv6Text [0x20, 1, 0xd, 0xb8, 0, 0, 0, 0, 0, 0, 0, 0, 0, 0, 0, 1] = "2001:db8::1" := by
  decide +kernel

/-! ## What the decoders accept -/

theorem resourceType_isOk_iff {kind : UInt8} {socket : List UInt8} :
    (resourceType kind socket).isOk = true ↔ kind ∈ [1, 2, 3, 4, 7] := by
  refine ⟨fun h => ?_, fun hkind => ?_⟩
  · by_contra hkind
    simp only [List.mem_cons, List.not_mem_nil, or_false, not_or] at hkind
    obtain ⟨h1, h2, h3, h4, h7⟩ := hkind
    rw [resourceType.eq_6 kind socket h1 h2 h3 h4 h7] at h
    exact Bool.false_ne_true h
  · simp only [List.mem_cons, List.not_mem_nil, or_false] at hkind
    rcases hkind with rfl | rfl | rfl | rfl | rfl
    · rfl
    · rfl
    · rw [resourceType]
      split <;> rfl
    · rfl
    · rfl

theorem operationOf_isOk_iff {value : UInt8} :
    (operationOf value).isOk = true ↔ value ∈ [1, 2, 3, 4, 5, 6, 7, 8, 9, 10, 11, 12] := by
  refine ⟨fun h => ?_, fun hvalue => ?_⟩
  · by_contra hvalue
    simp only [List.mem_cons, List.not_mem_nil, or_false, not_or] at hvalue
    obtain ⟨h1, h2, h3, h4, h5, h6, h7, h8, h9, h10, h11, h12⟩ := hvalue
    rw [operationOf.eq_13 value h1 h2 h3 h4 h5 h6 h7 h8 h9 h10 h11 h12] at h
    exact Bool.false_ne_true h
  · simp only [List.mem_cons, List.not_mem_nil, or_false] at hvalue
    rcases hvalue with rfl | rfl | rfl | rfl | rfl | rfl | rfl | rfl | rfl | rfl | rfl | rfl <;> rfl

/-- The socket addresses that are decoded: of a known family, and with all the bytes that
the family reads. -/
def DecodableAddress (bytes : List UInt8) : Prop :=
  2 ≤ bytes.length ∧ ((familyOf bytes = afInet ∧ 8 ≤ bytes.length) ∨
    (familyOf bytes = afInet6 ∧ 24 ≤ bytes.length) ∨ familyOf bytes = afUnix)

theorem socketIdentifier_isOk_iff {bytes : List UInt8} :
    (socketIdentifier bytes).isOk = true ↔ DecodableAddress bytes := by
  rw [socketIdentifier, DecodableAddress]
  by_cases hlength : bytes.length < 2
  · rw [if_pos hlength]
    exact iff_of_false Bool.false_ne_true fun h => absurd h.1 (Nat.not_le_of_lt hlength)
  rw [if_neg hlength, and_iff_right (Nat.le_of_not_lt hlength)]
  by_cases hinet : familyOf bytes = afInet
  · rw [if_pos hinet, hinet]
    by_cases hshort : bytes.length < 8
    · rw [if_pos hshort]
      refine iff_of_false Bool.false_ne_true ?_
      rintro (⟨-, h⟩ | ⟨h, -⟩ | h)
      · exact absurd h (Nat.not_le_of_lt hshort)
      · exact absurd h (by decide)
      · exact absurd h (by decide)
    · rw [if_neg hshort]
      exact iff_of_true rfl (.inl ⟨rfl, Nat.le_of_not_lt hshort⟩)
  rw [if_neg hinet]
  by_cases hinet6 : familyOf bytes = afInet6
  · rw [if_pos hinet6, hinet6]
    by_cases hshort : bytes.length < 24
    · rw [if_pos hshort]
      refine iff_of_false Bool.false_ne_true ?_
      rintro (⟨h, -⟩ | ⟨-, h⟩ | h)
      · exact absurd h (by decide)
      · exact absurd h (Nat.not_le_of_lt hshort)
      · exact absurd h (by decide)
    · rw [if_neg hshort]
      exact iff_of_true rfl (.inr (.inl ⟨rfl, Nat.le_of_not_lt hshort⟩))
  rw [if_neg hinet6]
  by_cases hunix : familyOf bytes = afUnix
  · rw [if_pos hunix]
    exact iff_of_true rfl (.inr (.inr hunix))
  · rw [if_neg hunix]
    refine iff_of_false Bool.false_ne_true ?_
    rintro (⟨h, -⟩ | ⟨h, -⟩ | h)
    · exact hinet h
    · exact hinet6 h
    · exact hunix h

/-- The identifier of a record can be read: from the socket address if there is one, and
otherwise from a text that is UTF-8. -/
def DecodableIdentifier (kernel : KernelRecord) : Prop :=
  if kernel.sockaddrLen ≠ 0 then DecodableAddress kernel.socket
  else (Utf8.strict
    (kernel.identifier.take (min kernel.identifierLen.toNat identifierCapacity))).isSome = true

theorem identifierOf_isOk_iff {kernel : KernelRecord} :
    (identifierOf kernel).isOk = true ↔ DecodableIdentifier kernel := by
  rw [identifierOf, DecodableIdentifier]
  by_cases hsocket : kernel.sockaddrLen ≠ 0
  · rw [if_pos hsocket, if_pos hsocket, socketIdentifier_isOk_iff]
  · rw [if_neg hsocket, if_neg hsocket]
    split <;> rename_i htext <;> rw [htext] <;> rfl

end ConflictGraph.Rust
