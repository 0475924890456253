import ConflictGraph.RustAccounting
import ConflictGraph.SharedCounter

/-!
# The eBPF programs

Nine tracepoints each run a program that makes a `KernelEvent` of what it finds in the
tracepoint's record and in the memory of the process, and submits it to the ring buffer. An
`openat` takes two of them: its entry files the event in the map `ENTER_EVENTS` under the
thread, and its exit submits it if the call succeeded. Where the ring buffer has no room, the
map `DROPPED` is read and written back with one more; the CPUs that do so at the same time
are not kept apart.

A program of one CPU runs to its end before the next one of that CPU begins, so a *hit* of a
tracepoint is one action, up to the count of a dropped event, and writing that back is
another. `run_ebpf` looks at the count after each round. It is taken to have no bound, as
2⁶⁴ dropped events are out of reach.
-/

namespace ConflictGraph.Ebpf

open Rust

/-- The tracepoints that have a program. -/
inductive Tracepoint : Type where
  | sysEnterOpenat
  | sysExitOpenat
  | sysEnterUnlinkat
  | sysEnterRenameat2
  | sysEnterBind
  | sysEnterConnect
  | schedProcessExec
  | schedProcessFork
  | schedProcessExit
  deriving DecidableEq

/-- The memory of a process: the bytes at the addresses that can be read. -/
abbrev UserMemory : Type := UInt64 → Option UInt8

/-- A tracepoint that is hit: where, what the program can read, and how the maps answer it. -/
structure Hit : Type where
  cpu : ℕ
  tracepoint : Tracepoint
  /-- `bpf_get_current_pid_tgid` -/
  pidTgid : UInt64
  /-- `bpf_get_current_cgroup_id` -/
  cgroupID : UInt64
  /-- `bpf_ktime_get_ns` -/
  now : UInt64
  /-- the record of the tracepoint -/
  ctx : List UInt8
  memory : UserMemory
  /-- `ENTER_EVENTS` takes an insertion -/
  stored : Bool
  /-- `EVENTS` has room for a record -/
  room : Bool

/-! ## Reading -/

/-- `TracePointContext::read_at` of so many bytes. -/
def readAt (ctx : List UInt8) (offset width : ℕ) : Option ℕ :=
  if offset + width ≤ ctx.length then some (littleEndian ctx offset width) else none

/-- `bpf_probe_read_user_str`: the bytes up to a NUL, but at most `n`. -/
def readString (memory : UserMemory) : ℕ → UInt64 → Option (List UInt8)
  | 0, _ => some []
  | n + 1, pointer =>
    match memory pointer with
    | none => none
    | some b => if b = 0 then some [] else (readString memory n (pointer + 1)).map (b :: ·)

/-- `bpf_probe_read_user`: exactly `n` bytes. -/
def readBuffer (memory : UserMemory) : ℕ → UInt64 → Option (List UInt8)
  | 0, _ => some []
  | n + 1, pointer =>
    match memory pointer with
    | none => none
    | some b => (readBuffer memory n (pointer + 1)).map (b :: ·)

/-- An array of `capacity` zeroes that begins with these bytes. -/
def padded (capacity : ℕ) (bytes : List UInt8) : List UInt8 :=
  bytes ++ List.replicate (capacity - bytes.length) 0

/-! ## The programs -/

def kindFile : UInt8 := 1
def kindTCP : UInt8 := 3
def kindProcess : UInt8 := 7
def opRead : UInt8 := 1
def opWrite : UInt8 := 2
def opDelete : UInt8 := 4
def opRename : UInt8 := 6
def opBind : UInt8 := 7
def opConnect : UInt8 := 9
def opExec : UInt8 := 10
def opSpawn : UInt8 := 11
def opExit : UInt8 := 12

/-- `FLAG_WRONLY | FLAG_RDWR | FLAG_TRUNC | FLAG_CREATE`. -/
def writingFlags : UInt32 := 1 ||| 2 ||| 0o1000 ||| 0o100

/-- `capture_string`. -/
def captureString (memory : UserMemory) (event : KernelRecord) (pointer : UInt64) : KernelRecord :=
  if pointer = 0 then event
  else
    match readString memory (identifierCapacity - 1) pointer with
    | none => event
    | some bytes =>
      { event with
        identifier := padded identifierCapacity bytes
        identifierLen := .ofNat (min bytes.length 255) }

namespace Hit

variable (h : Hit)

/-- `argument`. -/
def argument (offset : ℕ) : Option UInt64 := (readAt h.ctx offset 8).map .ofNat

/-- `KernelEvent::new`. -/
def newEvent (kind operation : UInt8) : KernelRecord where
  timestampNS := h.now
  cgroupID := h.cgroupID
  pid := (h.pidTgid >>> 32).toUInt32
  tid := h.pidTgid.toUInt32
  parentPID := 0
  kind
  operation
  accessMode := 0
  flags := 0
  result := 0
  identifierLen := 0
  sockaddrLen := 0
  identifier := padded identifierCapacity []
  sockaddr := padded sockaddrCapacity []

/-- The event that `try_openat` files. -/
def openEvent (filename : UInt64) (flags : UInt32) : KernelRecord :=
  let operation := if flags &&& writingFlags ≠ 0 then opWrite else opRead
  captureString h.memory
    { h.newEvent kindFile operation with
      flags := (flags &&& 0xff).toUInt8
      accessMode := if operation = opWrite then 2 else 1 } filename

/-- `try_openat`, up to the insertion. -/
def tryOpenat : Option KernelRecord :=
  match h.argument 24, h.argument 32 with
  | some filename, some flags => some (h.openEvent filename flags.toUInt32)
  | _, _ => none

/-- `sys_exit_openat` for the event that the entry filed. -/
def exitOpenat (stored : KernelRecord) : KernelRecord :=
  { stored with result := ((readAt h.ctx 16 8).map fun n => (UInt64.ofNat n).toInt64).getD (-1) }

/-- The event of a system call whose path is the second argument. -/
def pathEvent (operation : UInt8) : Option KernelRecord :=
  (h.argument 24).map (captureString h.memory (h.newEvent kindFile operation))

def sysEnterUnlinkat : Option KernelRecord := h.pathEvent opDelete

def sysEnterRenameat2 : Option KernelRecord := h.pathEvent opRename

/-- `socket_event`. -/
def socketEvent (operation : UInt8) : Option KernelRecord :=
  match h.argument 24, h.argument 32 with
  | some pointer, some argument =>
    let length := (min argument 128).toNat
    let event := h.newEvent kindTCP operation
    if pointer ≠ 0 ∧ 0 < length then
      match readBuffer h.memory length pointer with
      | some bytes =>
        some { event with
          sockaddr := padded sockaddrCapacity bytes
          sockaddrLen := .ofNat length }
      | none => some event
    else some event
  | _, _ => none

def sysEnterBind : Option KernelRecord := h.socketEvent opBind

def sysEnterConnect : Option KernelRecord := h.socketEvent opConnect

def schedProcessExec : KernelRecord :=
  match h.argument 8 with
  | some pointer => captureString h.memory (h.newEvent kindProcess opExec) pointer
  | none => h.newEvent kindProcess opExec

def schedProcessFork : KernelRecord :=
  { h.newEvent kindProcess opSpawn with
    parentPID := .ofNat ((readAt h.ctx 24 4).getD 0)
    result := .ofNat ((readAt h.ctx 44 4).getD 0) }

def schedProcessExit : KernelRecord := h.newEvent kindProcess opExit

/-- What the program does to `ENTER_EVENTS`, and the event that it submits. -/
def program (enterEvents : PartialMap UInt64 KernelRecord) :
    PartialMap UInt64 KernelRecord × Option KernelRecord :=
  match h.tracepoint with
  | .sysEnterOpenat =>
    match h.tryOpenat with
    | some event => (if h.stored then enterEvents.insert h.pidTgid event else enterEvents, none)
    | none => (enterEvents, none)
  | .sysExitOpenat =>
    match enterEvents h.pidTgid with
    | some stored =>
      let event := h.exitOpenat stored
      (enterEvents.remove h.pidTgid, if 0 ≤ event.result then some event else none)
    | none => (enterEvents, none)
  | .sysEnterUnlinkat => (enterEvents, h.sysEnterUnlinkat)
  | .sysEnterRenameat2 => (enterEvents, h.sysEnterRenameat2)
  | .sysEnterBind => (enterEvents, h.sysEnterBind)
  | .sysEnterConnect => (enterEvents, h.sysEnterConnect)
  | .schedProcessExec => (enterEvents, some h.schedProcessExec)
  | .schedProcessFork => (enterEvents, some h.schedProcessFork)
  | .schedProcessExit => (enterEvents, some h.schedProcessExit)

end Hit

/-! ## The machine -/

/-- The maps of the programs, and what `run_ebpf` keeps of the count. The counts are `u64` in the
source, and natural numbers here: a run refuses fewer than 2^64 records. -/
structure Kernel : Type where
  /-- `ENTER_EVENTS` -/
  enterEvents : PartialMap UInt64 KernelRecord := .empty
  /-- what was submitted to `EVENTS`, the oldest first -/
  events : List KernelRecord := []
  /-- `DROPPED`, read and written by the CPUs -/
  dropped : SharedCounter ℕ := {}
  /-- `last_dropped` -/
  lastDropped : ℕ := 0
  /-- `conflictgraph_tracer_events_dropped_total` of the source `kernel` -/
  reported : ℕ := 0

inductive Action : Type where
  | hit (h : Hit)
  /-- the CPU inserts the count into `DROPPED` -/
  | write (cpu : ℕ)
  /-- `run_ebpf` looks at `DROPPED` -/
  | poll

/-- The hit of an action. -/
def Action.hit? : Action → Option Hit
  | .hit h => some h
  | _ => none

namespace Kernel

/-- `submit`, up to writing the count back. -/
def submit (s : Kernel) (h : Hit) (event : KernelRecord) : Kernel :=
  if h.room then { s with events := s.events ++ [event] }
  else { s with dropped := s.dropped.read h.cpu }

/-- A hit of a CPU whose program has ended. -/
def hit (s : Kernel) (h : Hit) : Kernel :=
  match h.program s.enterEvents with
  | (enterEvents, none) => { s with enterEvents }
  | (enterEvents, some event) => { s with enterEvents }.submit h event

def step (s : Kernel) : Action → Option Kernel
  | .hit h => if (s.dropped.pending? h.cpu).isSome then none else some (s.hit h)
  | .write cpu => (s.dropped.step (.write cpu)).map fun dropped => { s with dropped }
  | .poll =>
    some { s with
      reported := s.reported + (s.dropped.value - s.lastDropped)
      lastDropped := s.dropped.value }

end Kernel

/-! ## What a program makes -/

/-- The record was made by this thread. -/
def IsOf (event : KernelRecord) (thread : UInt64) : Prop :=
  event.pid = (thread >>> 32).toUInt32 ∧ event.tid = thread.toUInt32

instance (event : KernelRecord) (thread : UInt64) : Decidable (IsOf event thread) :=
  inferInstanceAs (Decidable (_ ∧ _))

/-- The record has a kind, an operation and arrays as the programs give them. -/
structure Formed (event : KernelRecord) : Prop where
  kind : event.kind ∈ [kindFile, kindTCP, kindProcess]
  operation : event.operation ∈
    [opRead, opWrite, opDelete, opRename, opBind, opConnect, opExec, opSpawn, opExit]
  identifier : event.identifier.length = identifierCapacity
  sockaddr : event.sockaddr.length = sockaddrCapacity

/-- Padding fills the capacity. -/
theorem padded_length {capacity : ℕ} {bytes : List UInt8} (h : bytes.length ≤ capacity) :
    (padded capacity bytes).length = capacity := by
  rw [padded, List.length_append, List.length_replicate, Nat.add_sub_cancel' h]

/-- No string is longer than what is read. -/
theorem readString_length {memory : UserMemory} {n : ℕ} :
    ∀ {pointer : UInt64} {bytes : List UInt8}, readString memory n pointer = some bytes →
      bytes.length ≤ n := by
  induction n with
  | zero =>
    intro pointer bytes hread
    obtain rfl := Option.some.inj hread
    exact Nat.le_refl 0
  | succ n ih =>
    intro pointer bytes hread
    rw [readString] at hread
    split at hread
    · cases hread
    split at hread
    · obtain rfl := Option.some.inj hread
      exact Nat.zero_le _
    · obtain ⟨rest, hrest, rfl⟩ := Option.map_eq_some_iff.mp hread
      exact Nat.succ_le_succ (ih hrest)

theorem readBuffer_length {memory : UserMemory} {n : ℕ} :
    ∀ {pointer : UInt64} {bytes : List UInt8}, readBuffer memory n pointer = some bytes →
      bytes.length = n := by
  induction n with
  | zero =>
    intro pointer bytes hread
    obtain rfl := Option.some.inj hread
    rfl
  | succ n ih =>
    intro pointer bytes hread
    rw [readBuffer] at hread
    split at hread
    · cases hread
    · obtain ⟨rest, hrest, rfl⟩ := Option.map_eq_some_iff.mp hread
      exact congrArg (· + 1) (ih hrest)

variable {memory : UserMemory} {event : KernelRecord} {pointer thread : UInt64}

theorem IsOf.captureString (h : IsOf event thread) :
    IsOf (captureString memory event pointer) thread := by
  rw [Ebpf.captureString]
  split
  · exact h
  split
  · exact h
  · exact h

theorem Formed.captureString (h : Formed event) : Formed (captureString memory event pointer) := by
  rw [Ebpf.captureString]
  split
  · exact h
  split
  · exact h
  · rename_i bytes hread
    have hlength := readString_length hread
    exact { h with identifier := padded_length (Nat.le_trans hlength (Nat.sub_le ..)) }

namespace Hit

variable {h : Hit} {kind operation : UInt8}

theorem isOf_newEvent : IsOf (h.newEvent kind operation) h.pidTgid := ⟨rfl, rfl⟩

theorem formed_newEvent (hkind : kind ∈ [kindFile, kindTCP, kindProcess])
    (hoperation : operation ∈
      [opRead, opWrite, opDelete, opRename, opBind, opConnect, opExec, opSpawn, opExit]) :
    Formed (h.newEvent kind operation) where
  kind := hkind
  operation := hoperation
  identifier := padded_length (Nat.zero_le _)
  sockaddr := padded_length (Nat.zero_le _)

/-- An event that the hit makes afresh. -/
def Makes (h : Hit) (event : KernelRecord) : Prop := IsOf event h.pidTgid ∧ Formed event

theorem makes_openEvent (filename : UInt64) (flags : UInt32) :
    h.Makes (h.openEvent filename flags) := by
  have hformed : Formed (h.newEvent kindFile
      (if flags &&& writingFlags ≠ 0 then opWrite else opRead)) :=
    formed_newEvent (by decide) (by split <;> decide)
  exact ⟨IsOf.captureString ⟨rfl, rfl⟩, Formed.captureString { hformed with }⟩

theorem makes_pathEvent (hoperation : operation ∈ [opDelete, opRename])
    (hevent : h.pathEvent operation = some event) : h.Makes event := by
  obtain ⟨pointer, -, rfl⟩ := Option.map_eq_some_iff.mp hevent
  refine ⟨isOf_newEvent.captureString, (formed_newEvent (by decide) ?_).captureString⟩
  simp only [List.mem_cons, List.not_mem_nil, or_false] at hoperation
  rcases hoperation with rfl | rfl <;> decide

theorem makes_socketEvent (hoperation : operation ∈ [opBind, opConnect])
    (hevent : h.socketEvent operation = some event) : h.Makes event := by
  have hformed : Formed (h.newEvent kindTCP operation) := by
    refine formed_newEvent (by decide) ?_
    simp only [List.mem_cons, List.not_mem_nil, or_false] at hoperation
    rcases hoperation with rfl | rfl <;> decide
  rw [socketEvent] at hevent
  split at hevent
  · rename_i pointer argument _ _
    simp only at hevent
    split at hevent
    · split at hevent
      · rename_i bytes hread
        obtain rfl := Option.some.inj hevent
        have hlength : bytes.length ≤ sockaddrCapacity := by
          rw [readBuffer_length hread, UInt64.toNat_min]
          exact Nat.min_le_right _ _
        exact ⟨⟨rfl, rfl⟩, { hformed with sockaddr := padded_length hlength }⟩
      · obtain rfl := Option.some.inj hevent
        exact ⟨isOf_newEvent, hformed⟩
    · obtain rfl := Option.some.inj hevent
      exact ⟨isOf_newEvent, hformed⟩
  · cases hevent

theorem makes_schedProcessExec : h.Makes h.schedProcessExec := by
  have hformed : Formed (h.newEvent kindProcess opExec) := formed_newEvent (by decide) (by decide)
  rw [schedProcessExec]
  split
  · exact ⟨isOf_newEvent.captureString, hformed.captureString⟩
  · exact ⟨isOf_newEvent, hformed⟩

/-- **What a program does**: it files an event, it is the exit of an `openat`, or it leaves
the map alone and submits at most what it makes. -/
theorem program_cases (h : Hit) :
    (h.tracepoint = .sysEnterOpenat ∧ h.stored = true ∧ ∃ event, h.tryOpenat = some event ∧
      h.Makes event ∧ ∀ m, h.program m = (m.insert h.pidTgid event, none)) ∨
    h.tracepoint = .sysExitOpenat ∨
    ∃ submitted, (∀ event ∈ submitted, h.Makes event) ∧ ∀ m, h.program m = (m, submitted) := by
  rcases htracepoint : h.tracepoint
  · rcases hopen : h.tryOpenat with _ | event
    · refine .inr (.inr ⟨none, fun _ h => (nomatch h), fun m => ?_⟩)
      simp only [program, htracepoint, hopen]
    rcases hstored : h.stored
    · refine .inr (.inr ⟨none, fun _ h => (nomatch h), fun m => ?_⟩)
      simp only [program, htracepoint, hopen, hstored, Bool.false_eq_true, if_false]
    refine .inl ⟨rfl, rfl, event, rfl, ?_, fun m => ?_⟩
    · rw [tryOpenat] at hopen
      split at hopen
      · obtain rfl := Option.some.inj hopen
        exact makes_openEvent ..
      · cases hopen
    · simp only [program, htracepoint, hopen, hstored, if_true]
  · exact .inr (.inl rfl)
  · refine .inr (.inr ⟨h.sysEnterUnlinkat, fun event => ?_, fun m => ?_⟩)
    · exact @makes_pathEvent event h opDelete (by decide)
    · simp only [program, htracepoint]
  · refine .inr (.inr ⟨h.sysEnterRenameat2, fun event => ?_, fun m => ?_⟩)
    · exact @makes_pathEvent event h opRename (by decide)
    · simp only [program, htracepoint]
  · refine .inr (.inr ⟨h.sysEnterBind, fun event => ?_, fun m => ?_⟩)
    · exact @makes_socketEvent event h opBind (by decide)
    · simp only [program, htracepoint]
  · refine .inr (.inr ⟨h.sysEnterConnect, fun event => ?_, fun m => ?_⟩)
    · exact @makes_socketEvent event h opConnect (by decide)
    · simp only [program, htracepoint]
  · refine .inr (.inr ⟨some h.schedProcessExec, fun event hevent => ?_, fun m => ?_⟩)
    · obtain rfl := Option.some.inj hevent
      exact makes_schedProcessExec
    · simp only [program, htracepoint]
  · refine .inr (.inr ⟨some h.schedProcessFork, fun event hevent => ?_, fun m => ?_⟩)
    · obtain rfl := Option.some.inj hevent
      have hformed : Formed (h.newEvent kindProcess opSpawn) :=
        formed_newEvent (by decide) (by decide)
      exact ⟨⟨rfl, rfl⟩, { hformed with }⟩
    · simp only [program, htracepoint]
  · refine .inr (.inr ⟨some h.schedProcessExit, fun event hevent => ?_, fun m => ?_⟩)
    · obtain rfl := Option.some.inj hevent
      exact ⟨isOf_newEvent, formed_newEvent (by decide) (by decide)⟩
    · simp only [program, htracepoint]

end Hit

end ConflictGraph.Ebpf
