import ConflictGraph.RustTracer
import ConflictGraph.Transition

/-!
# Runner and tracer

The runner gives every execution a cgroup. `Register` creates it, sends a register message
to the tracer and moves the process into it; the cleanup sends an unregister message when
the process has exited. Every message goes over a connection of its own, nobody
acknowledges it, and the kernel's events reach the tracer through the ring buffer: nothing
orders the two channels, nor the messages among each other. An event of an execution is
attributed to it if the message of this execution that the tracer applied last is the
register message (`attributed_of_inForce`); it can be consumed before that message, or
after the unregister message, and is lost then.
-/

namespace ConflictGraph.Protocol

open Rust (ControlMessage KernelEvent AttributionRegistry Registration)

/-! ## Messages -/

/-- `tracerControlMessage` of the runner. -/
structure TracerControlMessage : Type where
  action : String
  executionID : String
  testID : String
  cgroupID : UInt64
  rootPID : UInt32
  deriving DecidableEq

/-- The message as the tracer parses it. Empty fields are omitted, and a register message
without one of its fields does not parse. -/
def TracerControlMessage.received (m : TracerControlMessage) : Option ControlMessage :=
  if m.action = "register" then
    if m.testID = "" ∨ m.cgroupID = 0 ∨ m.rootPID = 0 then none
    else some (.register m.executionID m.testID m.cgroupID m.rootPID)
  else if m.action = "unregister" then some (.unregister m.executionID)
  else none

/-- The unregister message of the runner. -/
def unregisterMessage (executionID : String) : TracerControlMessage :=
  ⟨"unregister", executionID, "", 0, 0⟩

/-- How `CgroupTracer.send` ends. A call that fails may have delivered its message. -/
inductive Send : Type where
  | ok
  | error (delivered : Bool)
  deriving DecidableEq

/-- The messages in flight after a send. -/
def Send.deliver (sent : Send) (inFlight : List TracerControlMessage)
    (m : TracerControlMessage) : List TracerControlMessage :=
  match sent with
  | .ok => inFlight ++ [m]
  | .error true => inFlight ++ [m]
  | .error false => inFlight

/-! ## States -/

/-- An execution for which `Register` was called, and the inode of its cgroup. -/
structure Execution : Type where
  executionID : String
  testID : String
  pid : ℤ
  cgroupID : UInt64
  deriving DecidableEq

/-- How far the runner is with an execution. -/
inductive Phase : Type where
  /-- the register message is sent, the process not moved yet -/
  | sent
  /-- `Register` has returned a cleanup -/
  | registered
  /-- the cleanup was called -/
  | cleanedUp
  /-- `Register` has returned an error -/
  | failed
  deriving DecidableEq

/-- An event in the ring buffer. `origin` is the execution that emitted it from inside its
cgroup, after `Register` had returned and before the cleanup was called. -/
structure RingEntry : Type where
  origin : Option String
  event : KernelEvent
  deriving DecidableEq

/-- Where runner, channels and tracer stand. -/
structure State : Type where
  executions : List Execution
  phase : PartialMap String Phase
  /-- the messages sent and not applied, each on its own connection -/
  inFlight : List TracerControlMessage
  /-- the ring buffer, oldest event first -/
  ring : List RingEntry
  registry : AttributionRegistry
  /-- the messages that `control_server` has applied, latest first -/
  applied : List ControlMessage

/-- Nothing is registered, sent or emitted. -/
def initial : State := ⟨[], .empty, [], [], .default, []⟩

/-! ## Steps -/

/-- A step of one of the parties, with the answers of its environment. -/
inductive Action : Type where
  /-- `Register` up to the return of `send`; the kernel gives the new cgroup its inode -/
  | register (x : Execution) (sent : Send)
  /-- `Register` from the write to `cgroup.procs` on -/
  | move (executionID : String) (moved : Bool) (sent : Send)
  /-- the kernel reports an event from inside the cgroup of an execution -/
  | emit (executionID : String) (event : KernelEvent)
  /-- the kernel reports any other event -/
  | emitElsewhere (event : KernelEvent)
  /-- the runner calls the cleanup -/
  | cleanup (executionID : String) (sent : Send)
  /-- `control_server` reads the message of some connection and applies it -/
  | apply (index now : ℕ)
  /-- `run_ebpf` consumes the oldest event of the ring buffer -/
  | consume
  deriving DecidableEq

/-- The message that `Register` sends. -/
def Execution.registerMessage (x : Execution) : TracerControlMessage :=
  ⟨"register", x.executionID, x.testID, x.cgroupID, UInt32.ofInt x.pid⟩

/-- One step, if it is possible. Execution ids are fresh UUIDs, and the inode of a cgroup
is an id that the kernel does not hand out twice. -/
def step (s : State) : Action → Option State
  | .register x sent =>
    if x.pid ≤ 0 ∨ x.executionID = "" ∨ x.testID = "" then some s
    else if (∃ y ∈ s.executions, y.executionID = x.executionID ∨ y.cgroupID = x.cgroupID) ∨
        x.cgroupID = 0 then none
    else some { s with
      executions := x :: s.executions
      phase := s.phase.insert x.executionID (if sent = .ok then .sent else .failed)
      inFlight := sent.deliver s.inFlight x.registerMessage }
  | .move executionID moved sent =>
    if s.phase executionID = some .sent then
      if moved then some { s with phase := s.phase.insert executionID .registered }
      else some { s with
        phase := s.phase.insert executionID .failed
        inFlight := sent.deliver s.inFlight (unregisterMessage executionID) }
    else none
  | .emit executionID event =>
    if s.phase executionID = some .registered ∧
        ∃ x ∈ s.executions, x.executionID = executionID ∧ x.cgroupID = event.cgroupID then
      some { s with ring := s.ring ++ [⟨some executionID, event⟩] }
    else none
  | .emitElsewhere event => some { s with ring := s.ring ++ [⟨none, event⟩] }
  | .cleanup executionID sent =>
    if s.phase executionID = some .registered then
      some { s with
        phase := s.phase.insert executionID .cleanedUp
        inFlight := sent.deliver s.inFlight (unregisterMessage executionID) }
    else none
  | .apply index now =>
    match s.inFlight[index]? with
    | none => none
    | some m => some { s with
        inFlight := s.inFlight.eraseIdx index
        registry := s.registry.handle now m.received
        applied := m.received.toList ++ s.applied }
  | .consume =>
    match s.ring with
    | [] => none
    | entry :: rest => some { s with ring := rest, registry := (s.registry.consume entry.event).1 }

/-! ## The messages in force -/

/-- The message of the execution that was applied last is its register message. -/
def State.InForce (s : State) (executionID : String) : Prop :=
  ∃ testID cgroupID rootPID, s.applied.find? (fun m => m.executionID = executionID) =
    some (.register executionID testID cgroupID rootPID)

/-- The property: the event that is consumed next is attributed to the execution that
emitted it. -/
def State.Attributed (s : State) : Prop :=
  ∀ executionID event, s.ring.head? = some ⟨some executionID, event⟩ →
    ∃ r, (s.registry.consume event).2 = some r ∧ r.executionID = executionID

/-- Two executions share neither id nor cgroup. -/
def Execution.Apart (x y : Execution) : Prop :=
  x.executionID ≠ y.executionID ∧ x.cgroupID ≠ y.cgroupID

instance : Std.Symm Execution.Apart where
  symm _ _ h := ⟨h.1.symm, h.2.symm⟩

/-- How runner, channels and tracer fit together. -/
structure Consistent (s : State) : Prop where
  apart : s.executions.Pairwise Execution.Apart
  valid : ∀ x ∈ s.executions, x.executionID ≠ "" ∧ x.testID ≠ "" ∧ x.cgroupID ≠ 0
  phase : ∀ executionID, s.phase executionID ≠ none →
    ∃ x ∈ s.executions, x.executionID = executionID
  inFlight : ∀ m ∈ s.inFlight, ∃ x ∈ s.executions,
    m = x.registerMessage ∨ m = unregisterMessage x.executionID
  ring : ∀ entry ∈ s.ring, ∀ executionID, entry.origin = some executionID →
    ∃ x ∈ s.executions, x.executionID = executionID ∧ x.cgroupID = entry.event.cgroupID
  applied : ∀ m ∈ s.applied, ∃ x ∈ s.executions, x.executionID = m.executionID
  /-- an execution whose register message is in force owns its cgroup in the registry -/
  owned : ∀ x ∈ s.executions, s.InForce x.executionID →
    ∃ r, s.registry.cgroups x.cgroupID = some r ∧ r.executionID = x.executionID

variable {s t : State}

theorem consistent_initial : Consistent initial where
  apart := .nil
  valid := fun _ h => nomatch h
  phase := fun _ h => absurd rfl h
  inFlight := fun _ h => nomatch h
  ring := fun _ h => nomatch h
  applied := fun _ h => nomatch h
  owned := fun _ h => nomatch h

/-- **An event is attributed while the register message of its execution is in force.** -/
theorem Consistent.attributed (h : Consistent s) {executionID : String} {event : KernelEvent}
    (hhead : s.ring.head? = some ⟨some executionID, event⟩) (hforce : s.InForce executionID) :
    ∃ r, (s.registry.consume event).2 = some r ∧ r.executionID = executionID := by
  obtain ⟨x, hx, rfl, hcgroup⟩ := h.ring _ (List.mem_of_mem_head? hhead) executionID rfl
  obtain ⟨r, hr, he⟩ := h.owned x hx hforce
  rw [hcgroup] at hr
  exact ⟨r, AttributionRegistry.consume_of_cgroup (hcgroup ▸ (h.valid x hx).2.2) hr, he⟩

theorem mem_deliver {sent : Send} {inFlight : List TracerControlMessage}
    {m m' : TracerControlMessage} (h : m' ∈ sent.deliver inFlight m) : m' ∈ inFlight ∨ m' = m := by
  rcases sent with _ | _ | _
  · exact (List.mem_append.mp h).imp_right List.mem_singleton.mp
  · exact .inl h
  · exact (List.mem_append.mp h).imp_right List.mem_singleton.mp

/-- A message about another execution leaves the messages in force. -/
theorem inForce_cons_of_ne {m : ControlMessage} {executionID : String}
    (hne : m.executionID ≠ executionID) {u : State} (happlied : u.applied = m :: s.applied) :
    u.InForce executionID ↔ s.InForce executionID := by
  simp only [State.InForce, happlied, List.find?_cons, hne, decide_false]

/-! ## The invariant -/

theorem Consistent.register (h : Consistent s) {x : Execution} {sent : Send}
    (hstep : step s (.register x sent) = some t) : Consistent t := by
  rw [step] at hstep
  split at hstep
  · obtain rfl := Option.some.inj hstep
    exact h
  · rename_i hvalid
    split at hstep
    · cases hstep
    · rename_i hfresh
      obtain rfl := Option.some.inj hstep
      obtain ⟨-, hid, htest⟩ := by simpa only [not_or] using hvalid
      obtain ⟨hfresh, hzero⟩ := not_or.mp hfresh
      refine ⟨?_, ?_, ?_, ?_, ?_, ?_, ?_⟩
      · refine List.pairwise_cons.mpr ⟨fun y hy => ?_, h.apart⟩
        exact ⟨fun heq => hfresh ⟨y, hy, .inl heq.symm⟩, fun heq => hfresh ⟨y, hy, .inr heq.symm⟩⟩
      · exact List.forall_mem_cons.mpr ⟨⟨hid, htest, hzero⟩, h.valid⟩
      · intro executionID hphase
        rcases PartialMap.eq_or_ne_none_of_insert hphase with rfl | hphase
        · exact ⟨x, List.mem_cons_self, rfl⟩
        · obtain ⟨y, hy, hyid⟩ := h.phase executionID hphase
          exact ⟨y, List.mem_cons_of_mem x hy, hyid⟩
      · intro m hm
        rcases mem_deliver hm with hm | rfl
        · obtain ⟨y, hy, hmsg⟩ := h.inFlight m hm
          exact ⟨y, List.mem_cons_of_mem x hy, hmsg⟩
        · exact ⟨x, List.mem_cons_self, .inl rfl⟩
      · intro entry hentry executionID horigin
        obtain ⟨y, hy, hyid⟩ := h.ring entry hentry executionID horigin
        exact ⟨y, List.mem_cons_of_mem x hy, hyid⟩
      · intro m hm
        obtain ⟨y, hy, hyid⟩ := h.applied m hm
        exact ⟨y, List.mem_cons_of_mem x hy, hyid⟩
      · refine List.forall_mem_cons.mpr ⟨fun hforce => ?_, h.owned⟩
        -- no message of a new execution was applied
        obtain ⟨_, _, _, hfind⟩ := hforce
        obtain ⟨y, hy, hyid⟩ := h.applied _ (List.mem_of_find?_eq_some hfind)
        exact absurd ⟨y, hy, .inl hyid⟩ hfresh

/-- The runner goes on with an execution, and may send its unregister message. -/
theorem Consistent.advance (h : Consistent s) {executionID : String} {p p' : Phase}
    {inFlight : List TracerControlMessage} (hphase : s.phase executionID = some p)
    (hinFlight : ∀ m ∈ inFlight, m ∈ s.inFlight ∨ m = unregisterMessage executionID) :
    Consistent { s with phase := s.phase.insert executionID p', inFlight } := by
  obtain ⟨x, hx, hid⟩ := h.phase executionID (by rw [hphase]; exact Option.some_ne_none p)
  refine { h with phase := fun id hsome => ?_, inFlight := fun m hm => ?_ }
  · rcases PartialMap.eq_or_ne_none_of_insert hsome with rfl | hsome
    · exact ⟨x, hx, hid⟩
    · exact h.phase id hsome
  · rcases hinFlight m hm with hm | rfl
    · exact h.inFlight m hm
    · exact ⟨x, hx, .inr (by rw [hid])⟩

theorem Consistent.emit (h : Consistent s) {entry : RingEntry}
    (horigin : ∀ executionID, entry.origin = some executionID →
      ∃ x ∈ s.executions, x.executionID = executionID ∧ x.cgroupID = entry.event.cgroupID) :
    Consistent { s with ring := s.ring ++ [entry] } := by
  refine { h with ring := fun e he => ?_ }
  rcases List.mem_append.mp he with he | he
  · exact h.ring e he
  · rw [List.mem_singleton.mp he]
    exact horigin

/-- The registry owns the cgroups of the executions in force also after the next message. -/
theorem Consistent.owned_of_apply (h : Consistent s) {x : Execution} (hx : x ∈ s.executions)
    {line : ControlMessage} (now : ℕ)
    (hline : line = .unregister x.executionID ∨
      line = .register x.executionID x.testID x.cgroupID (UInt32.ofInt x.pid))
    {u : State} (hexecutions : u.executions = s.executions) (happlied : u.applied = line :: s.applied)
    (hregistry : u.registry = s.registry.handle now (some line)) :
    ∀ y ∈ u.executions, u.InForce y.executionID →
      ∃ r, u.registry.cgroups y.cgroupID = some r ∧ r.executionID = y.executionID := by
  intro y hy hforce
  rw [hexecutions] at hy
  have hid : line.executionID = x.executionID := by
    rcases hline with rfl | rfl <;> rfl
  by_cases hyx : y = x
  · subst hyx
    rcases hline with rfl | rfl
    · -- the unregister message ends what was in force
      obtain ⟨_, _, _, hfind⟩ := hforce
      rw [happlied, List.find?_cons_of_pos (by simp [ControlMessage.executionID])] at hfind
      cases hfind
    · obtain ⟨hne, htest, hzero⟩ := h.valid y hx
      refine ⟨⟨y.executionID, y.testID, y.cgroupID, UInt32.ofInt y.pid, now⟩, ?_, rfl⟩
      have hids : ¬ (y.executionID = "" ∨ y.testID = "") := not_or.mpr ⟨hne, htest⟩
      have hroot : ¬ (y.cgroupID = 0 ∧ UInt32.ofInt y.pid = 0) := fun h => hzero h.1
      simp only [hregistry, AttributionRegistry.handle, AttributionRegistry.call,
        AttributionRegistry.register, if_neg hids, if_neg hroot, if_neg hzero,
        PartialMap.insert_self]
  · obtain ⟨hids, hcgroups⟩ := h.apart.forall hy hx hyx
    have hne : line.executionID ≠ y.executionID := hid ▸ hids.symm
    obtain ⟨r, hr, he⟩ := h.owned y hy ((inForce_cons_of_ne hne happlied).mp hforce)
    refine ⟨r, ?_, he⟩
    rcases hline with rfl | rfl
    · rw [hregistry]
      exact AttributionRegistry.unregister_cgroups_eq_some.mpr ⟨hr, he.symm ▸ hids⟩
    · obtain ⟨hxne, hxtest, hxzero⟩ := h.valid x hx
      have hxids : ¬ (x.executionID = "" ∨ x.testID = "") := not_or.mpr ⟨hxne, hxtest⟩
      have hroot : ¬ (x.cgroupID = 0 ∧ UInt32.ofInt x.pid = 0) := fun h => hxzero h.1
      simp only [hregistry, AttributionRegistry.handle, AttributionRegistry.call,
        AttributionRegistry.register, if_neg hxids, if_neg hroot, if_neg hxzero,
        PartialMap.insert_of_ne _ _ hcgroups, hr]

/-- What the tracer can receive of an execution. -/
theorem received_cases {m : TracerControlMessage} {x : Execution}
    (hm : m = x.registerMessage ∨ m = unregisterMessage x.executionID) :
    m.received = none ∨ ∃ line, m.received = some line ∧ line.executionID = x.executionID ∧
      (line = .unregister x.executionID ∨
        line = .register x.executionID x.testID x.cgroupID (UInt32.ofInt x.pid)) := by
  rcases hm with rfl | rfl
  · by_cases hempty : x.testID = "" ∨ x.cgroupID = 0 ∨ UInt32.ofInt x.pid = 0
    · exact .inl (if_pos hempty)
    · exact .inr ⟨_, if_neg hempty, rfl, .inr rfl⟩
  · exact .inr ⟨.unregister x.executionID, rfl, rfl, .inl rfl⟩

theorem Consistent.apply (h : Consistent s) {index now : ℕ}
    (hstep : step s (.apply index now) = some t) : Consistent t := by
  simp only [step] at hstep
  split at hstep
  · cases hstep
  · rename_i m hm
    obtain rfl := Option.some.inj hstep
    obtain ⟨x, hx, hmsg⟩ := h.inFlight m (List.mem_of_getElem? hm)
    have hinFlight : ∀ m' ∈ s.inFlight.eraseIdx index, ∃ x ∈ s.executions,
        m' = x.registerMessage ∨ m' = unregisterMessage x.executionID :=
      fun m' hm' => h.inFlight m' (List.mem_of_mem_eraseIdx hm')
    rcases received_cases hmsg with hnone | ⟨line, hline, hid, hkind⟩
    · rw [hnone]
      exact { h with inFlight := hinFlight }
    · rw [hline]
      refine { h with inFlight := hinFlight, applied := ?_, owned := ?_ }
      · exact List.forall_mem_cons.mpr ⟨⟨x, hx, hid.symm⟩, h.applied⟩
      · exact h.owned_of_apply hx now hkind rfl rfl rfl

theorem Consistent.consume (h : Consistent s) (hstep : step s .consume = some t) :
    Consistent t := by
  simp only [step] at hstep
  split at hstep
  · cases hstep
  · rename_i entry rest hring
    obtain rfl := Option.some.inj hstep
    refine { h with ring := fun e he => h.ring e ?_, owned := fun x hx hforce => ?_ }
    · rw [hring]
      exact List.mem_cons_of_mem entry he
    · rw [AttributionRegistry.consume_cgroups]
      exact h.owned x hx hforce

/-- Every step keeps the parties consistent. -/
theorem Consistent.step {action : Action} (hstep : step s action = some t) (h : Consistent s) :
    Consistent t := by
  cases action with
  | register x sent => exact h.register hstep
  | move executionID moved sent =>
    simp only [Protocol.step] at hstep
    split at hstep
    · rename_i hphase
      split at hstep
      · obtain rfl := Option.some.inj hstep
        exact h.advance hphase fun m hm => .inl hm
      · obtain rfl := Option.some.inj hstep
        exact h.advance hphase fun m hm => mem_deliver hm
    · cases hstep
  | emit executionID event =>
    simp only [Protocol.step] at hstep
    split at hstep
    · rename_i hguard
      obtain rfl := Option.some.inj hstep
      exact h.emit fun id hid => Option.some.inj hid ▸ hguard.2
    · cases hstep
  | emitElsewhere event =>
    obtain rfl := Option.some.inj hstep
    exact h.emit fun id hid => by cases hid
  | cleanup executionID sent =>
    simp only [Protocol.step] at hstep
    split at hstep
    · rename_i hphase
      obtain rfl := Option.some.inj hstep
      exact h.advance hphase fun m hm => mem_deliver hm
    · cases hstep
  | apply index now => exact h.apply hstep
  | consume => exact h.consume hstep

/-- Every run keeps the parties consistent. -/
theorem consistent_of_run {actions : List Action} (hrun : runFrom step initial actions = some s) :
    Consistent s :=
  invariant_of_steps (fun hstep h => h.step hstep) hrun consistent_initial

/-! ## Attribution over every run -/

/-- **Attribution in the window.** In every interleaving, an event that an execution emits
from inside its cgroup is attributed to it if, when it is consumed, the last message of the
execution that was applied is its register message. -/
theorem attributed_of_inForce (actions : List Action)
    (hrun : runFrom step initial actions = some s) {executionID : String} {event : KernelEvent}
    (hhead : s.ring.head? = some ⟨some executionID, event⟩) (hforce : s.InForce executionID) :
    ∃ r, (s.registry.consume event).2 = some r ∧ r.executionID = executionID :=
  (consistent_of_run hrun).attributed hhead hforce

/-- The runner registers an execution, and its process opens a file in its cgroup. -/
def opening : List Action :=
  [.register ⟨"e", "t", 100, 7⟩ .ok, .move "e" true .ok, .emit "e" ⟨7, 100, 100, 0, 1, 3⟩]

theorem opening_isSome : (runFrom step initial opening).isSome = true := by decide +kernel

theorem attributed_opening_applied :
    ∃ r, ((((runFrom step initial (opening ++ [.apply 0 0])).get (by decide +kernel)).registry.consume
      ⟨7, 100, 100, 0, 1, 3⟩).2 = some r) ∧ r.executionID = "e" :=
  attributed_of_inForce (opening ++ [.apply 0 0]) (Option.some_get _).symm (by decide +kernel)
    ⟨"t", 7, 100, by decide +kernel⟩

/-- **An event can overtake the register message** of its execution, and is not attributed
then. -/
theorem not_attributed_opening :
    ¬ ∀ actions s, runFrom step initial actions = some s → s.Attributed := by
  intro h
  have hnone : (((runFrom step initial opening).get opening_isSome).registry.consume
      ⟨7, 100, 100, 0, 1, 3⟩).2.isSome = false := by decide +kernel
  obtain ⟨r, hr, -⟩ := h opening _ (Option.some_get opening_isSome).symm "e"
    ⟨7, 100, 100, 0, 1, 3⟩ (by decide +kernel)
  rw [hr] at hnone
  cases hnone

end ConflictGraph.Protocol
