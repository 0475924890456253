import Mathlib.Data.List.Pairwise
import ConflictGraph.RustAttribution

/-!
# The tracer's two consumers

`control_server` applies the runner's control messages to the registry, and the loop of
`run_ebpf` consumes kernel events: a fork event is recorded, every event is resolved, and
an exit event that resolves to an execution removes its process. Both take the lock of the
registry for each call, so what they do together is a sequence of inputs.

A process descends from a registered root through the forks that were observed. The
registry finds the root for it as long as every process that the lookup passes through
keeps its parent link, and the first one with a registration keeps that. A process that
was forked after the registration has a copy of it, and one that was forked before has
only the link; `Undisturbed` says which inputs take neither away.
-/

namespace ConflictGraph.Rust

/-- `KernelEvent`, with what attribution reads. -/
structure KernelEvent : Type where
  cgroupID : UInt64
  pid : UInt32
  tid : UInt32
  parentPID : UInt32
  operation : UInt8
  result : Int64
  deriving DecidableEq

/-- `kernel.result.max(0) as u32`, the child of a fork event. -/
def KernelEvent.child (kernel : KernelEvent) : UInt32 := (max kernel.result 0).toUInt64.toUInt32

/-- `ControlMessage`. -/
inductive ControlMessage : Type where
  | register (executionID testID : String) (cgroupID : UInt64) (rootPID : UInt32)
  | unregister (executionID : String)
  deriving DecidableEq

/-- The execution a message is about. -/
def ControlMessage.executionID : ControlMessage → String
  | .register executionID _ _ _ => executionID
  | .unregister executionID => executionID

namespace AttributionRegistry

/-- What `control_server` does with one line, read at the instant `now`; `none` is a line
that does not parse. -/
def handle (s : AttributionRegistry) (now : ℕ) : Option ControlMessage → AttributionRegistry
  | some (.register executionID testID cgroupID rootPID) =>
    s.call (.register now executionID testID cgroupID rootPID)
  | some (.unregister executionID) => s.call (.unregister executionID)
  | none => s

/-- What the loop of `run_ebpf` does to the registry for one event, and the registration
that the event is attributed to. -/
def consume (s : AttributionRegistry) (kernel : KernelEvent) :
    AttributionRegistry × Option Registration :=
  let s := if kernel.operation = 11 then s.fork kernel.parentPID kernel.child else s
  match s.resolve kernel.cgroupID kernel.pid with
  | none => (s, none)
  | some registration =>
    (if kernel.operation = 12 then s.exit kernel.pid else s, some registration)

end AttributionRegistry

/-- What the tracer processes: a line from a control connection, or an event from the
ring buffer. -/
inductive Input : Type where
  | control (now : ℕ) (line : Option ControlMessage)
  | kernel (event : KernelEvent)
  deriving DecidableEq

namespace Input

/-- The parent and the child of a fork event; the pid 0 is no process. -/
def fork? : Input → Option (UInt32 × UInt32)
  | .kernel event =>
    if event.operation = 11 ∧ event.child ≠ 0 then some (event.parentPID, event.child) else none
  | .control _ _ => none

/-- The root process of a register message. -/
def root? : Input → Option UInt32
  | .control _ (some (.register _ _ _ rootPID)) => if rootPID = 0 then none else some rootPID
  | _ => none

/-- Two inputs fork different pids and register different roots. -/
def Apart (a b : Input) : Prop :=
  (∀ f ∈ a.fork?, ∀ g ∈ b.fork?, f.2 ≠ g.2) ∧ ∀ p ∈ a.root?, p ∉ b.root?

instance : Std.Symm Apart where
  symm _ _ h := ⟨fun f hf g hg heq => h.1 g hg f hf heq.symm, fun p hp hp' => h.2 p hp' hp⟩

end Input

/-- `q` was forked by `p`, as one of the inputs says. -/
def Forked (inputs : List Input) (q p : UInt32) : Prop :=
  ∃ input ∈ inputs, input.fork? = some (p, q)

/-- No pid is forked twice or registered twice. -/
def NoReuse (inputs : List Input) : Prop := inputs.Pairwise Input.Apart

-- the search must not range over all the numbers there are
instance (a b : Input) : Decidable (a.Apart b) :=
  @instDecidableAnd _ _
    (@Option.decidableForallMem _ _ (fun _ => Option.decidableForallMem b.fork?) a.fork?)
    (Option.decidableForallMem a.root?)

instance (inputs : List Input) (q p : UInt32) : Decidable (Forked inputs q p) :=
  inferInstanceAs (Decidable (∃ input ∈ inputs, _))

instance (inputs : List Input) : Decidable (NoReuse inputs) :=
  inferInstanceAs (Decidable (inputs.Pairwise _))

theorem Forked.ne_zero {inputs : List Input} {p q : UInt32} (h : Forked inputs q p) : q ≠ 0 := by
  obtain ⟨input, -, hfork⟩ := h
  cases input with
  | control now line => cases hfork
  | kernel event =>
    simp only [Input.fork?] at hfork
    split at hfork
    · rename_i hop
      obtain ⟨-, rfl⟩ := Prod.mk.inj (Option.some.inj hfork)
      exact hop.2
    · cases hfork

/-- Without reuse a process has one parent. -/
theorem Forked.unique {inputs : List Input} (h : NoReuse inputs) {p p' q : UInt32}
    (hp : Forked inputs q p) (hp' : Forked inputs q p') : p = p' := by
  obtain ⟨a, ha, hfa⟩ := hp
  obtain ⟨b, hb, hfb⟩ := hp'
  by_contra hne
  have hab : a ≠ b := by
    rintro rfl
    exact hne (congrArg Prod.fst (Option.some.inj (hfa.symm.trans hfb)))
  exact (h.forall ha hb hab).1 _ hfa _ hfb rfl

/-! ## Steps of the registry -/

namespace AttributionRegistry

/-- Consuming an event does not touch the cgroups. -/
@[simp] theorem consume_cgroups (s : AttributionRegistry) (kernel : KernelEvent) :
    (s.consume kernel).1.cgroups = s.cgroups := by
  simp only [consume]
  split
  · split <;> rfl
  · split <;> split <;> rfl

/-- An event from a registered cgroup is attributed to the registration of the cgroup. -/
theorem consume_of_cgroup {s : AttributionRegistry} {kernel : KernelEvent} {r : Registration}
    (hzero : kernel.cgroupID ≠ 0) (hcgroup : s.cgroups kernel.cgroupID = some r) :
    (s.consume kernel).2 = some r := by
  have hresolve : ∀ t : AttributionRegistry, t.cgroups = s.cgroups →
      t.resolve kernel.cgroupID kernel.pid = some r := by
    intro t ht
    exact resolve_eq_some_iff.mpr (.inl ⟨hzero, ht ▸ hcgroup⟩)
  by_cases hfork : kernel.operation = 11
  · simp only [consume, hfork, if_pos, hresolve (s.fork _ _) rfl]
  · simp only [consume, hfork, if_false, hresolve s rfl]

/-- The registry after an input. -/
def process (s : AttributionRegistry) : Input → AttributionRegistry
  | .control now line => s.handle now line
  | .kernel event => (s.consume event).1

variable {s t : AttributionRegistry} {input : Input} {e : String}

/-- What an input can do, with what is known when it does it. -/
theorem process_cases (s : AttributionRegistry) (input : Input) :
    (s.process input = s ∧ input.fork? = none) ∨
    (∃ event, input = .kernel event ∧ event.operation = 11 ∧
      s.process input = s.fork event.parentPID event.child) ∨
    (∃ event, input = .kernel event ∧ event.operation = 12 ∧
      (s.resolve event.cgroupID event.pid).isSome = true ∧ s.process input = s.exit event.pid) ∨
    (∃ now executionID testID cgroupID rootPID r,
      input = .control now (some (.register executionID testID cgroupID rootPID)) ∧
      s.register now executionID testID cgroupID rootPID = .ok (r, s.process input)) ∨
    ∃ now executionID, input = .control now (some (.unregister executionID)) ∧
      s.process input = s.unregister executionID := by
  cases input with
  | control now line =>
    rcases line with _ | ⟨executionID, testID, cgroupID, rootPID⟩ | executionID
    · exact .inl ⟨rfl, rfl⟩
    · rcases h : s.register now executionID testID cgroupID rootPID with reason | ⟨r, t⟩
      · exact .inl ⟨by simp only [process, handle, call, h], rfl⟩
      · exact .inr (.inr (.inr (.inl ⟨now, executionID, testID, cgroupID, rootPID, r, rfl,
          by simp only [process, handle, call, h]⟩)))
    · exact .inr (.inr (.inr (.inr ⟨now, executionID, rfl, rfl⟩)))
  | kernel event =>
    by_cases hfork : event.operation = 11
    · refine .inr (.inl ⟨event, rfl, hfork, ?_⟩)
      simp only [process, consume, hfork, if_pos]
      split <;> simp
    · have hno : (Input.kernel event).fork? = none := by simp [Input.fork?, hfork]
      rcases hr : s.resolve event.cgroupID event.pid with _ | r
      · exact .inl ⟨by simp [process, consume, hfork, hr], hno⟩
      · by_cases hexit : event.operation = 12
        · exact .inr (.inr (.inl ⟨event, rfl, hexit, by rw [hr]; rfl,
            by simp [process, consume, hexit, hr]⟩))
        · exact .inl ⟨by simp [process, consume, hfork, hexit, hr], hno⟩

end AttributionRegistry

end ConflictGraph.Rust
