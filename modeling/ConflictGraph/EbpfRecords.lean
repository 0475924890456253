import Mathlib.Algebra.BigOperators.Group.List.Basic
import Mathlib.Algebra.Ring.Nat
import ConflictGraph.EbpfRuns
import ConflictGraph.Utf8Text

/-!
# From the kernel to the tracer

The programs and the tracer each declare `KernelEvent` for themselves, and what passes between
them is the bytes of its C layout. `readUnaligned_bytes` is the round trip. Every record that a
program makes has a kind and an operation that the tracer knows, so the only thing of it that
may not be decoded is its identifier (`loses_iff`); and the path of a file that was opened
arrives as it stood in the memory of the process (`exists_event_of_opens`), unless it is longer
than the 255 bytes there is room for.
-/

namespace ConflictGraph.Ebpf

open Rust

/-! ## The layout -/

/-- A number in so many bytes, the lowest first. -/
def toLittleEndian : ℕ → ℕ → List UInt8
  | 0, _ => []
  | width + 1, n => .ofNat n :: toLittleEndian width (n / 0x100)

/-- The fields of a record in their order, and the bytes that round its size up. -/
def fieldsOf (record : KernelRecord) (padding : List UInt8) : List (List UInt8) :=
  [toLittleEndian 8 record.timestampNS.toNat, toLittleEndian 8 record.cgroupID.toNat,
    toLittleEndian 4 record.pid.toNat, toLittleEndian 4 record.tid.toNat,
    toLittleEndian 4 record.parentPID.toNat, toLittleEndian 1 record.kind.toNat,
    toLittleEndian 1 record.operation.toNat, toLittleEndian 1 record.accessMode.toNat,
    toLittleEndian 1 record.flags.toNat, toLittleEndian 8 record.result.toUInt64.toNat,
    toLittleEndian 2 record.identifierLen.toNat, toLittleEndian 2 record.sockaddrLen.toNat,
    record.identifier, record.sockaddr, padding]

/-- The memory of a record. -/
def bytesOf (record : KernelRecord) (padding : List UInt8) : List UInt8 :=
  (fieldsOf record padding).flatten

@[simp] theorem toLittleEndian_length (width n : ℕ) : (toLittleEndian width n).length = width := by
  induction width generalizing n with
  | zero => rfl
  | succ width ih => rw [toLittleEndian, List.length_cons, ih]

theorem foldr_toLittleEndian (width n : ℕ) :
    (toLittleEndian width n).foldr (fun b m => b.toNat + 0x100 * m) 0 = n % 0x100 ^ width := by
  induction width generalizing n with
  | zero => rw [Nat.pow_zero, Nat.mod_one]; rfl
  | succ width ih =>
    have hbyte : (UInt8.ofNat n).toNat = n % 0x100 := UInt8.toNat_ofNat'
    rw [toLittleEndian, List.foldr_cons, ih, hbyte, Nat.pow_succ', Nat.mod_mul]

/-- The number at the place of a field. -/
theorem littleEndian_flatten {fields : List (List UInt8)} (i : ℕ) {offset width n : ℕ}
    (hoffset : ((fields.map List.length).take i).sum = offset)
    (hfield : fields[i]? = some (toLittleEndian width n)) :
    littleEndian fields.flatten offset width = n % 0x100 ^ width := by
  obtain ⟨hi, hfield⟩ := List.getElem?_eq_some_iff.mp hfield
  rw [← hoffset, littleEndian, List.drop_sum_flatten, List.drop_eq_getElem_cons hi,
    List.flatten_cons, hfield, List.take_left' (toLittleEndian_length width n),
    foldr_toLittleEndian]

section Layout

variable {record : KernelRecord} {padding : List UInt8}

theorem bytesOf_length (h : Formed record) (hpadding : padding.length = 4) :
    (bytesOf record padding).length = KernelRecord.size := by
  simp [bytesOf, fieldsOf, h.identifier, h.sockaddr, hpadding, identifierCapacity, sockaddrCapacity,
    KernelRecord.size]

/-- **The layout** loses nothing. -/
theorem readUnaligned_bytesOf (h : Formed record) (hpadding : padding.length = 4) :
    KernelRecord.readUnaligned (bytesOf record padding) = some record := by
  have hoffsets : (fieldsOf record padding).map List.length =
      [8, 8, 4, 4, 4, 1, 1, 1, 1, 8, 2, 2, 256, 128, 4] := by
    simp [fieldsOf, h.identifier, h.sockaddr, hpadding, identifierCapacity, sockaddrCapacity]
  have hat : ∀ (i offset width n : ℕ),
      ([8, 8, 4, 4, 4, 1, 1, 1, 1, 8, 2, 2, 256, 128, 4].take i).sum = offset →
      (fieldsOf record padding)[i]? = some (toLittleEndian width n) →
      littleEndian (bytesOf record padding) offset width = n % 0x100 ^ width :=
    fun i _ _ _ hoffset hfield => littleEndian_flatten i (hoffsets ▸ hoffset) hfield
  have hidentifier : ((bytesOf record padding).drop 44).take identifierCapacity =
      record.identifier := by
    have hdrop := List.drop_sum_flatten (fieldsOf record padding) 12
    rw [hoffsets] at hdrop
    rw [bytesOf, ← h.identifier]
    exact (congrArg _ hdrop).trans List.take_left
  have hsockaddr : ((bytesOf record padding).drop 300).take sockaddrCapacity = record.sockaddr := by
    have hdrop := List.drop_sum_flatten (fieldsOf record padding) 13
    rw [hoffsets] at hdrop
    rw [bytesOf, ← h.sockaddr]
    exact (congrArg _ hdrop).trans List.take_left
  have hlong : ¬ (bytesOf record padding).length < KernelRecord.size := by
    rw [bytesOf_length h hpadding]
    exact Nat.lt_irrefl _
  rw [KernelRecord.readUnaligned, if_neg hlong, hidentifier, hsockaddr,
    hat 0 0 8 _ rfl rfl, hat 1 8 8 _ rfl rfl, hat 2 16 4 _ rfl rfl, hat 3 20 4 _ rfl rfl,
    hat 4 24 4 _ rfl rfl, hat 5 28 1 _ rfl rfl, hat 6 29 1 _ rfl rfl, hat 7 30 1 _ rfl rfl,
    hat 8 31 1 _ rfl rfl, hat 9 32 8 _ rfl rfl, hat 10 40 2 _ rfl rfl, hat 11 42 2 _ rfl rfl]
  simp

/-- What the tracer can make of a record depends on its identifier alone. -/
theorem decodable_iff (h : Formed record) :
    record.Decodable ↔ DecodableIdentifier record := by
  have hkind : ∀ kind ∈ [kindFile, kindTCP, kindProcess], kind ∈ [1, 2, 3, 4, 7] := by
    simp [kindFile, kindTCP, kindProcess]
  have hoperation : ∀ operation ∈
      [opRead, opWrite, opDelete, opRename, opBind, opConnect, opExec, opSpawn, opExit],
      operation ∈ [1, 2, 3, 4, 5, 6, 7, 8, 9, 10, 11, 12] := by
    simp [opRead, opWrite, opDelete, opRename, opBind, opConnect, opExec, opSpawn, opExit]
  rw [KernelRecord.Decodable, and_iff_right (hkind _ h.kind),
    and_iff_right (hoperation _ h.operation)]

end Layout

/-- Everything in the ring buffer was made by a program. -/
theorem formed_of_run {actions : List Action} {s : Kernel}
    (hrun : runFrom Kernel.step {} actions = some s) : ∀ record ∈ s.events, Formed record := by
  have hinv : s.Stamped ∧ ∀ record ∈ s.events, Formed record := by
    refine @invariant_of_steps _ _ Kernel.step
      (fun s => s.Stamped ∧ ∀ record ∈ s.events, Formed record) ?_ actions {} s hrun
      ⟨Kernel.stamped_empty, fun _ h => nomatch h⟩
    rintro s a t hstep ⟨hstamped, hformed⟩
    refine ⟨Kernel.stamped_step hstep hstamped, ?_⟩
    rcases Kernel.step_cases hstep with ⟨h, -, -, rfl⟩ | ⟨cpu, seen, -, -, rfl⟩ | ⟨-, rfl⟩
    · intro record hrecord
      rw [Kernel.hit_events, List.mem_append, Option.mem_toList, Option.filter_eq_some_iff,
        Kernel.submitted, program_eq_own.1] at hrecord
      rcases hrecord with hrecord | ⟨hrecord, -⟩
      · exact hformed record hrecord
      · exact (own_submitted (fun event => hstamped _ event) record hrecord).2
    · exact hformed
    · exact hformed
  exact hinv.2

/-- **What is lost between the kernel and the tracer.** In every run of the programs, each
record reads back as it was written, and a tracer in any state loses it exactly if it is
attributed and its identifier cannot be decoded. -/
theorem loses_iff {actions : List Action} {s : Kernel}
    (hrun : runFrom Kernel.step {} actions = some s) (tracer : Tracer) :
    ∀ record ∈ s.events, ∀ padding : List UInt8, padding.length = 4 →
      KernelRecord.readUnaligned (bytesOf record padding) = some record ∧
      (tracer.Loses (bytesOf record padding) ↔
        (tracer.registry.consume record.toKernelEvent).2.isSome = true ∧
          ¬ DecodableIdentifier record) := by
  intro record hrecord padding hpadding
  have hformed := formed_of_run hrun record hrecord
  have hread := readUnaligned_bytesOf hformed hpadding
  refine ⟨hread, ?_, fun ⟨hsome, hnot⟩ => ?_⟩
  · rintro ⟨kernel, registration, hkernel, hattributed, hnot⟩
    obtain rfl := Option.some.inj (hread.symm.trans hkernel)
    exact ⟨Option.isSome_iff_exists.mpr ⟨_, hattributed⟩,
      fun h => hnot ((decodable_iff hformed).mpr h)⟩
  · obtain ⟨registration, hattributed⟩ := Option.isSome_iff_exists.mp hsome
    exact ⟨record, registration, hread, hattributed, fun h => hnot ((decodable_iff hformed).mp h)⟩

/-- The process 7 opens the file `a` for writing, whose path is at the address 1. -/
def enterA : Hit where
  cpu := 0
  tracepoint := .sysEnterOpenat
  pidTgid := 0x700000007
  cgroupID := 5
  now := 1
  ctx := List.replicate 24 0 ++ [1, 0, 0, 0, 0, 0, 0, 0, 1, 0, 0, 0, 0, 0, 0, 0]
  memory := fun pointer => if pointer = 1 then some 97 else if pointer = 2 then some 0 else none
  stored := true
  room := true

/-- The call returns the descriptor 3, after the process was moved to another CPU. -/
def exitA : Hit where
  cpu := 1
  tracepoint := .sysExitOpenat
  pidTgid := 0x700000007
  cgroupID := 5
  now := 2
  ctx := List.replicate 16 0 ++ [3, 0, 0, 0, 0, 0, 0, 0]
  memory := fun _ => none
  stored := true
  room := true

/-- A path that is no text. -/
def enterUnreadable : Hit :=
  { enterA with memory := fun pointer =>
      if pointer = 1 then some 0xff else if pointer = 2 then some 0 else none }

/-- The actions of the process until it ends. -/
def opensUnreadable : List Action :=
  [.hit enterUnreadable, .hit exitA, .hit (processExit 1 0x700000007 true)]

/-- A tracer in which the control group of the process is registered. -/
def attributing : Tracer where
  registry := match AttributionRegistry.default.register 1 "e1" "t1" 5 0 with
    | .ok (_, registry) => registry
    | .error _ => .default
  sequence := 0
  captured := 0
  ledger := {}

/-- Of two records that are attributed, the tracer loses the one whose path is no text. -/
theorem loses_iff_unreadable :
    ∃ s, runFrom Kernel.step {} opensUnreadable = some s ∧
      s.events.map (fun record =>
        ((attributing.registry.consume record.toKernelEvent).2.isSome,
          (identifierOf record).isOk)) = [(true, false), (true, true)] ∧
      ∀ record ∈ s.events, ∀ padding : List UInt8, padding.length = 4 →
        KernelRecord.readUnaligned (bytesOf record padding) = some record ∧
        (attributing.Loses (bytesOf record padding) ↔
          (attributing.registry.consume record.toKernelEvent).2.isSome = true ∧
            ¬ DecodableIdentifier record) :=
  ⟨_, rfl, by decide +kernel, @loses_iff opensUnreadable _ rfl attributing⟩

/-! ## The path of an open file -/

/-- The memory of a process has these bytes at an address, and then a NUL. -/
def HoldsString (memory : UserMemory) : UInt64 → List UInt8 → Prop
  | pointer, [] => memory pointer = some 0
  | pointer, b :: rest => b ≠ 0 ∧ memory pointer = some b ∧ HoldsString memory (pointer + 1) rest

/-- What the memory holds is what is read. -/
theorem readString_of_holds {memory : UserMemory} {path : List UInt8} :
    ∀ {n : ℕ} {pointer : UInt64}, HoldsString memory pointer path → path.length ≤ n →
      readString memory n pointer = some path := by
  induction path with
  | nil =>
    intro n pointer h _
    cases n with
    | zero => rfl
    | succ n =>
      have hend : memory pointer = some 0 := h
      simp [readString, hend]
  | cons b rest ih =>
    intro n pointer h hlength
    obtain ⟨hb, hmemory, hrest⟩ := h
    cases n with
    | zero => exact absurd hlength (Nat.not_succ_le_zero _)
    | succ n => simp [readString, hmemory, hb, ih hrest (Nat.le_of_succ_le_succ hlength)]

theorem zero_not_mem_of_holds {memory : UserMemory} {path : List UInt8} :
    ∀ {pointer : UInt64}, HoldsString memory pointer path → 0 ∉ path := by
  induction path with
  | nil => exact fun _ h => nomatch h
  | cons b rest ih =>
    rintro pointer ⟨hb, -, hrest⟩ hmem
    rcases List.mem_cons.mp hmem with rfl | hmem
    · exact hb rfl
    · exact ih hrest hmem

/-- A thread opens the file at a path, and the programs see it: its entry has the path in
memory, `ENTER_EVENTS` takes it, and its exit returns a descriptor and finds room in the ring
buffer. -/
structure Opens (entry exit : Hit) (chars : List Char) (pointer flags : UInt64) (descriptor : ℕ) :
    Prop where
  entered : entry.tracepoint = .sysEnterOpenat
  exited : exit.tracepoint = .sysExitOpenat
  thread : exit.pidTgid = entry.pidTgid
  stored : entry.stored = true
  room : exit.room = true
  filename : entry.argument 24 = some pointer
  nonnull : pointer ≠ 0
  flags : entry.argument 32 = some flags
  holds : HoldsString entry.memory pointer (Utf8.encode chars)
  fits : (Utf8.encode chars).length ≤ 255
  result : readAt exit.ctx 16 8 = some descriptor
  succeeds : descriptor < 2 ^ 63

/-- The event of a file that was opened, as the tracer sends it. -/
def openedEvent (entry : Hit) (chars : List Char) (flags : UInt64) (descriptor : ℕ)
    (registration : Registration) (sequence : UInt64) : NormalizedEvent where
  executionID := registration.executionID
  testID := registration.testID
  timestampNS := entry.now
  pid := (entry.pidTgid >>> 32).toUInt32
  tid := entry.pidTgid.toUInt32
  cgroupID := entry.cgroupID
  resourceType := .file
  resourceIdentifier := String.ofList chars
  operation := if flags.toUInt32 &&& writingFlags ≠ 0 then .write else .read
  accessMode := if flags.toUInt32 &&& writingFlags ≠ 0 then .write else .read
  source := "EBPF"
  metadata := [("result", descriptor), ("flags", (flags.toUInt32 &&& 0xff).toUInt8.toNat)]
  sequence

theorem strict_encode (chars : List Char) :
    Utf8.strict (Utf8.encode chars) = some (String.ofList chars) := by
  have hnone : none ∉ Utf8.decode none (Utf8.encode chars) := Utf8.IsText.not_mem ⟨chars, rfl⟩
  rw [Utf8.strict, if_neg hnone, Utf8.decode_encode_nil]
  simp [List.reduceOption]

/-- A text without NUL bytes has no NUL to be trimmed. -/
theorem trimNuls_of_not_mem {chars : List Char} (h : 0 ∉ Utf8.encode chars) :
    trimNuls (String.ofList chars) = String.ofList chars := by
  have hchars : Char.ofNat 0 ∉ chars := fun hmem =>
    h (List.mem_flatMap.mpr ⟨_, hmem, (Utf8.mem_encodeChar_iff (by decide)).mpr rfl⟩)
  rw [trimNuls, String.toList_ofList, List.rdropWhile_eq_self_iff.mpr]
  intro hne hlast
  exact hchars (of_decide_eq_true hlast ▸ List.getLast_mem hne)

section Opened

variable {entry exit : Hit} {chars : List Char} {pointer flags : UInt64} {descriptor : ℕ}

/-- The text that `capture_string` takes is the one that the tracer decodes. -/
theorem identifierOf_captureString {memory : UserMemory} {event : KernelRecord}
    (hsocket : event.sockaddrLen = 0) (hpointer : pointer ≠ 0)
    (hholds : HoldsString memory pointer (Utf8.encode chars))
    (hfits : (Utf8.encode chars).length ≤ 255) :
    identifierOf (captureString memory event pointer) = .ok (String.ofList chars) := by
  have hread : readString memory (identifierCapacity - 1) pointer = some (Utf8.encode chars) :=
    readString_of_holds hholds hfits
  have hlength : (UInt16.ofNat (min (Utf8.encode chars).length 255)).toNat =
      (Utf8.encode chars).length := by
    rw [Nat.min_eq_left hfits, UInt16.toNat_ofNat']
    exact Nat.mod_eq_of_lt (by omega)
  have hmin : min (Utf8.encode chars).length identifierCapacity = (Utf8.encode chars).length :=
    Nat.min_eq_left (by rw [identifierCapacity]; omega)
  simp only [captureString, if_neg hpointer, hread, identifierOf, hsocket, ne_eq,
    not_true_eq_false, if_false, hlength, hmin, padded, List.take_left, strict_encode]
  rw [trimNuls_of_not_mem (zero_not_mem_of_holds hholds)]

/-- The record that the exit submits. -/
def openedRecord (entry exit : Hit) (pointer flags : UInt64) : KernelRecord :=
  exit.exitOpenat (entry.openEvent pointer flags.toUInt32)

theorem Opens.result_eq (h : Opens entry exit chars pointer flags descriptor) :
    (openedRecord entry exit pointer flags).result.toInt = descriptor := by
  rw [openedRecord, Hit.exitOpenat, h.result, Option.map_some, Option.getD_some,
    UInt64.toInt64_ofNat']
  exact Int64.toInt_ofNat_of_lt h.succeeds

/-- Capturing a string touches nothing but the identifier. -/
theorem exists_captureString (memory : UserMemory) (event : KernelRecord) (pointer : UInt64) :
    ∃ identifier identifierLen,
      captureString memory event pointer = { event with identifier, identifierLen } := by
  rw [captureString]
  split
  · exact ⟨_, _, rfl⟩
  split
  · exact ⟨_, _, rfl⟩
  · exact ⟨_, _, rfl⟩

/-- The record of an open decodes to its event. -/
theorem Opens.eventOf_eq (h : Opens entry exit chars pointer flags descriptor)
    (registration : Registration) (sequence : UInt64) :
    eventOf registration (openedRecord entry exit pointer flags) sequence =
      .ok (openedEvent entry chars flags descriptor registration sequence) := by
  have hidentifier : identifierOf (openedRecord entry exit pointer flags) =
      .ok (String.ofList chars) := identifierOf_captureString rfl h.nonnull h.holds h.fits
  have hresult := h.result_eq
  obtain ⟨identifier, identifierLen, hcapture⟩ := exists_captureString entry.memory
    { entry.newEvent kindFile (if flags.toUInt32 &&& writingFlags ≠ 0 then opWrite else opRead) with
      flags := (flags.toUInt32 &&& 0xff).toUInt8
      accessMode :=
        if (if flags.toUInt32 &&& writingFlags ≠ 0 then opWrite else opRead) = opWrite then 2
        else 1 } pointer
  simp only [openedRecord, Hit.exitOpenat, Hit.openEvent, hcapture] at hidentifier hresult ⊢
  rw [eventOf, hidentifier]
  by_cases hwrites : flags.toUInt32 &&& writingFlags ≠ 0
  · simp only [openedEvent, if_pos hwrites, hresult]
    rfl
  · simp only [openedEvent, if_neg hwrites, hresult]
    rfl

/-- The hits of a thread around an open. -/
theorem hitsOf_open {before between after : List Action}
    (h : Opens entry exit chars pointer flags descriptor)
    (hbetween : ∀ hit ∈ between.filterMap Action.hit?, hit.pidTgid ≠ entry.pidTgid) :
    hitsOf (before ++ .hit entry :: between ++ .hit exit :: after) entry.pidTgid =
      hitsOf before entry.pidTgid ++ entry :: exit :: hitsOf after entry.pidTgid := by
  have hnone : (between.filterMap Action.hit?).filter (·.pidTgid = entry.pidTgid) = [] :=
    List.filter_eq_nil_iff.mpr fun hit hmem => by simpa using hbetween hit hmem
  simp only [hitsOf, List.filterMap_append, List.filterMap_cons, Action.hit?, List.filter_append,
    List.filter_cons, h.thread, decide_true, if_true, hnone, List.append_assoc, List.cons_append,
    List.nil_append]

/-- The thread submits that record. -/
theorem Opens.mem_ownRecords (h : Opens entry exit chars pointer flags descriptor)
    (after : List Hit) : ∀ (before : List Hit) (kept : Option KernelRecord),
      openedRecord entry exit pointer flags ∈
        ownRecords kept (before ++ entry :: exit :: after) := by
  intro before
  induction before with
  | nil =>
    intro kept
    have hopen : entry.tryOpenat = some (entry.openEvent pointer flags.toUInt32) := by
      simp only [Hit.tryOpenat, h.filename, h.flags]
    have hkept : (entry.own kept).1 = some (entry.openEvent pointer flags.toUInt32) := by
      simp only [Hit.own, h.entered, h.stored, if_true, hopen]
      rfl
    have hsucceeds : 0 ≤ (openedRecord entry exit pointer flags).result := by
      rw [Int64.le_iff_toInt_le, h.result_eq]
      exact Int.natCast_nonneg _
    have hown : (exit.own (some (entry.openEvent pointer flags.toUInt32))).2 =
        some (openedRecord entry exit pointer flags) := by
      simp only [Hit.own, h.exited, Option.map_some, Option.filter_some]
      exact if_pos (decide_eq_true hsucceeds)
    rw [List.nil_append, ownRecords, hkept, ownRecords, hown, h.room]
    refine List.mem_append_right _ (List.mem_append_left _ ?_)
    simp [Option.filter]
  | cons hit before ih =>
    intro kept
    exact List.mem_append_right _ (ih _)

/-- **A file that is opened** reaches the tracer under its path. In every run, when a thread
opens a file whose path has room, and the map and the ring buffer have room too, with whatever
happens in other threads between the entry and the exit, the ring buffer has a record that
decodes to the event of this very open. -/
theorem exists_event_of_opens {before between after : List Action} {s : Kernel}
    (hrun : runFrom Kernel.step {} (before ++ .hit entry :: between ++ .hit exit :: after) = some s)
    (h : Opens entry exit chars pointer flags descriptor)
    (hbetween : ∀ hit ∈ between.filterMap Action.hit?, hit.pidTgid ≠ entry.pidTgid) :
    ∃ record ∈ s.events, ∀ padding : List UInt8, padding.length = 4 →
      KernelRecord.readUnaligned (bytesOf record padding) = some record ∧
      ∀ registration sequence, eventOf registration record sequence =
        .ok (openedEvent entry chars flags descriptor registration sequence) := by
  have hmem : openedRecord entry exit pointer flags ∈ s.eventsOf entry.pidTgid := by
    rw [eventsOf_run hrun Kernel.stamped_empty, hitsOf_open h hbetween]
    exact List.mem_append_right _ (h.mem_ownRecords _ _ _)
  have hevents := (List.mem_filter.mp hmem).1
  exact ⟨_, hevents, fun padding hpadding =>
    ⟨readUnaligned_bytesOf (formed_of_run hrun _ hevents) hpadding, h.eventOf_eq⟩⟩

end Opened

theorem opens_a : Opens enterA exitA ['a'] 1 1 3 where
  entered := rfl
  exited := rfl
  thread := rfl
  stored := rfl
  room := rfl
  filename := by decide +kernel
  nonnull := by decide
  flags := by decide +kernel
  holds := ⟨by decide, rfl, rfl⟩
  fits := by decide +kernel
  result := by decide +kernel
  succeeds := by decide

/-- In between, another process ends on the first CPU. -/
theorem exists_event_of_opens_a :
    ∃ s, runFrom Kernel.step {} [.hit enterA, .hit (processExit 0 0x800000008 true), .hit exitA] =
        some s ∧
      ∃ record ∈ s.events, ∀ padding : List UInt8, padding.length = 4 →
        KernelRecord.readUnaligned (bytesOf record padding) = some record ∧
        ∀ registration sequence, eventOf registration record sequence =
          .ok (openedEvent enterA ['a'] 1 3 registration sequence) :=
  ⟨_, rfl, @exists_event_of_opens enterA exitA ['a'] 1 1 3 []
    [.hit (processExit 0 0x800000008 true)] [] _ rfl opens_a (by decide)⟩

end ConflictGraph.Ebpf
