import ConflictGraph.Outcome
import ConflictGraph.RustNormalize
import ConflictGraph.Transition

/-!
# What becomes of a kernel record

The loop of `run_ebpf` counts a record as captured, and then the record leaves the loop by
one of several exits. A record that is too short, that belongs to no execution, or that the
queue has no room for increments a counter. An event that the normalizer refuses is
filtered on purpose. But where one of the three decoders fails the loop just goes on, so
that a record of an attributed process can vanish: the connection to an address family
that is not decoded, or the opening of a path that is not UTF-8.

The program does not list the events that the policy rejected; the model does, so that the
exits can be told apart.
-/

namespace ConflictGraph.Rust

/-- Where captured records end up. -/
structure Ledger : Type where
  /-- the events in the queue, and those that the writer has taken from it -/
  sent : List NormalizedEvent := []
  /-- the events that the policy rejected -/
  rejected : List NormalizedEvent := []
  /-- `conflictgraph_tracer_parse_failures_total` -/
  parseFailures : ℕ := 0
  /-- `conflictgraph_tracer_unattributed_events_total` -/
  unattributed : ℕ := 0
  /-- `conflictgraph_tracer_events_dropped_total` of the source `ebpf` -/
  dropped : ℕ := 0
  deriving DecidableEq

/-- The state of `run_ebpf`. -/
structure Tracer : Type where
  registry : AttributionRegistry
  sequence : UInt64
  /-- `conflictgraph_tracer_events_captured_total` -/
  captured : ℕ
  ledger : Ledger

/-- What the loop reads: a record, where `room` says whether `try_send` finds a place in the
queue, or a control message for the registry in between. -/
inductive TracerInput : Type where
  | record (item : List UInt8) (room : Bool)
  | control (now : ℕ) (line : Option ControlMessage)

/-- The event of an attributed record. -/
def eventOf (registration : Registration) (kernel : KernelRecord) (sequence : UInt64) :
    Except ParseError NormalizedEvent := do
  let resourceType ← resourceType kernel.kind kernel.socket
  let operation ← operationOf kernel.operation
  let resourceIdentifier ← identifierOf kernel
  .ok {
    executionID := registration.executionID
    testID := registration.testID
    timestampNS := kernel.timestampNS
    pid := kernel.pid
    tid := kernel.tid
    cgroupID := kernel.cgroupID
    resourceType
    resourceIdentifier
    accessMode := accessModeOf operation kernel.accessMode
    operation
    source := "EBPF"
    metadata := [("result", kernel.result.toInt), ("flags", kernel.flags.toNat)]
    sequence }

namespace Tracer

variable (sha256 : List UInt8 → String) (normalizer : Normalizer)

/-- The body of the loop of `run_ebpf`. -/
def handleRecord (s : Tracer) (item : List UInt8) (room : Bool) : Tracer :=
  let s := { s with captured := s.captured + 1 }
  match KernelRecord.readUnaligned item with
  | none => { s with ledger.parseFailures := s.ledger.parseFailures + 1 }
  | some kernel =>
    let (registry, attributed) := s.registry.consume kernel.toKernelEvent
    let s := { s with registry }
    match attributed with
    | none => { s with ledger.unattributed := s.ledger.unattributed + 1 }
    | some registration =>
      match eventOf registration kernel s.sequence with
      | .error _ => s
      | .ok event =>
        let s := { s with sequence := s.sequence + 1 }
        match normalizer.normalize sha256 event with
        | none => { s with ledger.rejected := s.ledger.rejected ++ [event] }
        | some event =>
          if room then { s with ledger.sent := s.ledger.sent ++ [event] }
          else { s with ledger.dropped := s.ledger.dropped + 1 }

/-- The tracer after an input. -/
def process (s : Tracer) : TracerInput → Tracer
  | .record item room => s.handleRecord sha256 normalizer item room
  | .control now line => { s with registry := s.registry.handle now line }

/-- The loop as a machine all of whose actions are possible. -/
def step (s : Tracer) (input : TracerInput) : Option Tracer :=
  some (s.process sha256 normalizer input)

end Tracer

/-- One record more is accounted for, in exactly one of the five ways. -/
def Ledger.Accounts (before after : Ledger) : Prop :=
  (∃ event, after = { before with sent := before.sent ++ [event] }) ∨
  (∃ event, after = { before with rejected := before.rejected ++ [event] }) ∨
  after = { before with parseFailures := before.parseFailures + 1 } ∨
  after = { before with unattributed := before.unattributed + 1 } ∨
  after = { before with dropped := before.dropped + 1 }

/-- The property of a run: every record of it is captured and accounted for. -/
def AllAccounted (sha256 : List UInt8 → String) (normalizer : Normalizer) (s : Tracer)
    (inputs : List TracerInput) : Prop :=
  ∀ visit ∈ visits (Tracer.step sha256 normalizer) s inputs, ∀ item room,
    visit.2 = .record item room →
      (visit.1.handleRecord sha256 normalizer item room).captured = visit.1.captured + 1 ∧
      visit.1.ledger.Accounts (visit.1.handleRecord sha256 normalizer item room).ledger

/-! ## The records that vanish -/

/-- All three decoders accept a record. -/
def KernelRecord.Decodable (kernel : KernelRecord) : Prop :=
  kernel.kind ∈ [1, 2, 3, 4, 7] ∧ kernel.operation ∈ [1, 2, 3, 4, 5, 6, 7, 8, 9, 10, 11, 12] ∧
    DecodableIdentifier kernel

/-- A record that is long enough and attributed, and that is not decoded. -/
def Tracer.Loses (s : Tracer) (item : List UInt8) : Prop :=
  ∃ kernel registration, KernelRecord.readUnaligned item = some kernel ∧
    (s.registry.consume kernel.toKernelEvent).2 = some registration ∧ ¬ kernel.Decodable

section Accounting

variable {sha256 : List UInt8 → String} {normalizer : Normalizer} {s : Tracer}

/-- A record yields an event if all three decoders accept it. -/
theorem eventOf_isOk_iff {registration : Registration} {kernel : KernelRecord} {sequence : UInt64} :
    (eventOf registration kernel sequence).isOk = true ↔ kernel.Decodable := by
  rw [KernelRecord.Decodable, ← operationOf_isOk_iff, ← identifierOf_isOk_iff,
    ← @resourceType_isOk_iff _ kernel.socket, eventOf]
  rcases resourceType kernel.kind kernel.socket with _ | kind
  · exact iff_of_false Bool.false_ne_true fun h => Bool.false_ne_true h.1
  rcases operationOf kernel.operation with _ | operation
  · exact iff_of_false Bool.false_ne_true fun h => Bool.false_ne_true h.2.1
  rcases identifierOf kernel with _ | identifier
  · exact iff_of_false Bool.false_ne_true fun h => Bool.false_ne_true h.2.2
  · exact iff_of_true rfl ⟨rfl, rfl, rfl⟩

/-- Nothing is accounted for where the ledger stays. -/
theorem Ledger.not_accounts_self (ledger : Ledger) : ¬ ledger.Accounts ledger := by
  rintro (⟨event, h⟩ | ⟨event, h⟩ | h | h | h)
  · exact absurd (congrArg (·.sent.length) h) (by simp)
  · exact absurd (congrArg (·.rejected.length) h) (by simp)
  · exact absurd (congrArg (·.parseFailures) h) (Nat.succ_ne_self _).symm
  · exact absurd (congrArg (·.unattributed) h) (Nat.succ_ne_self _).symm
  · exact absurd (congrArg (·.dropped) h) (Nat.succ_ne_self _).symm

theorem handleRecord_captured (item : List UInt8) (room : Bool) :
    (s.handleRecord sha256 normalizer item room).captured = s.captured + 1 := by
  simp only [Tracer.handleRecord]
  split
  · rfl
  split
  · rfl
  split
  · rfl
  split
  · rfl
  split <;> rfl

/-- **One record** is accounted for unless it vanishes. -/
theorem accounts_handleRecord_iff {item : List UInt8} {room : Bool} :
    s.ledger.Accounts (s.handleRecord sha256 normalizer item room).ledger ↔ ¬ s.Loses item := by
  rcases hkernel : KernelRecord.readUnaligned item with _ | kernel
  · refine iff_of_true (.inr (.inr (.inl ?_))) fun ⟨kernel, _, hsome, _⟩ => ?_
    · simp only [Tracer.handleRecord, hkernel]
    · rw [hkernel] at hsome
      cases hsome
  rcases hattributed : (s.registry.consume kernel.toKernelEvent).2 with _ | registration
  · refine iff_of_true (.inr (.inr (.inr (.inl ?_)))) fun ⟨kernel', _, hsome, hregistered, _⟩ => ?_
    · simp only [Tracer.handleRecord, hkernel, hattributed]
    · obtain rfl := Option.some.inj (hkernel.symm.trans hsome)
      rw [hattributed] at hregistered
      cases hregistered
  by_cases hdecodable : kernel.Decodable
  · have hkept : ¬ s.Loses item := by
      rintro ⟨kernel', _, hsome, -, hnot⟩
      obtain rfl := Option.some.inj (hkernel.symm.trans hsome)
      exact hnot hdecodable
    refine iff_of_true ?_ hkept
    obtain ⟨event, hevent⟩ : ∃ event, eventOf registration kernel s.sequence = .ok event :=
      exists_eq_ok_of_isOk (eventOf_isOk_iff.mpr hdecodable)
    rcases hnormalized : normalizer.normalize sha256 event with _ | normalized
    · refine .inr (.inl ⟨event, ?_⟩)
      simp only [Tracer.handleRecord, hkernel, hattributed, hevent, hnormalized]
    · cases room with
      | true =>
        refine .inl ⟨normalized, ?_⟩
        simp only [Tracer.handleRecord, hkernel, hattributed, hevent, hnormalized, if_true]
      | false =>
        refine .inr (.inr (.inr (.inr ?_)))
        simp only [Tracer.handleRecord, hkernel, hattributed, hevent, hnormalized,
          Bool.false_eq_true, if_false]
  · refine iff_of_false ?_ (not_not_intro ⟨kernel, registration, hkernel, hattributed, hdecodable⟩)
    -- a decoder fails, and the loop goes on
    rcases hevent : eventOf registration kernel s.sequence with reason | event
    · simp only [Tracer.handleRecord, hkernel, hattributed, hevent]
      exact s.ledger.not_accounts_self
    · exact absurd (eventOf_isOk_iff.mp (by rw [hevent]; rfl)) hdecodable

/-- **Which runs account for every record**, from any state and under any policy. -/
theorem allAccounted_iff (sha256 : List UInt8 → String) (normalizer : Normalizer) (s : Tracer)
    (inputs : List TracerInput) :
    AllAccounted sha256 normalizer s inputs ↔
      ∀ visit ∈ visits (Tracer.step sha256 normalizer) s inputs, ∀ item room,
        visit.2 = .record item room → ¬ visit.1.Loses item := by
  refine forall₂_congr fun visit _ => forall₃_congr fun item room _ => ?_
  rw [accounts_handleRecord_iff, and_iff_right (handleRecord_captured item room)]

/-- The record of a `connect` to the address family 16 (netlink), from cgroup 5. -/
def netlinkRecord : List UInt8 :=
  List.replicate 8 0 ++ [5, 0, 0, 0, 0, 0, 0, 0] ++ [9, 0, 0, 0] ++ [9, 0, 0, 0] ++ [1, 0, 0, 0] ++
    [3, 9, 0, 0] ++ List.replicate 8 0 ++ [0, 0] ++ [12, 0] ++ List.replicate 256 0 ++
    16 :: List.replicate 127 0 ++ List.replicate 4 0

/-- The connection vanishes, although its cgroup is registered. -/
theorem not_allAccounted_netlink :
    ¬ AllAccounted (fun _ => "") ⟨{}, rfl⟩
      ⟨.reached [.register 0 "e" "t" 5 0], 0, 0, {}⟩ [.record netlinkRecord true] := by
  intro h
  have hledger := (h _ List.mem_cons_self _ _ rfl).2
  have hsame : ((⟨.reached [.register 0 "e" "t" 5 0], 0, 0, {}⟩ : Tracer).handleRecord (fun _ => "")
      ⟨{}, rfl⟩ netlinkRecord true).ledger = {} := by
    decide +kernel
  rw [hsame] at hledger
  exact Ledger.not_accounts_self _ hledger

end Accounting

end ConflictGraph.Rust
