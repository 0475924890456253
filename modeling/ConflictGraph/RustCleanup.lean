import ConflictGraph.RustDescendants
import ConflictGraph.Transition

/-!
# Exited processes

A fork event leaves entries for its child in the registry whether or not anything is known
of the parent, but an exit event removes the entries of its process only if it is
attributed: the loop of `run_ebpf` goes on to the next record before it comes to the call
of `exit`. So a process that belongs to no execution is never forgotten.

The registry forgets every process that was forked and has exited exactly if after the last
fork of each pid some exit event of that pid is attributed (`forgetsExited_iff`).
-/

namespace ConflictGraph.Rust

/-- A fork event of a child with this pid. -/
def KernelEvent.Forks (event : KernelEvent) (pid : UInt32) : Prop :=
  event.operation = 11 ∧ event.child = pid

/-- An exit event of this process, of the whole of it or of a thread. -/
def KernelEvent.Exits (event : KernelEvent) (pid : UInt32) : Prop :=
  event.operation = 12 ∧ event.pid = pid

instance (event : KernelEvent) (pid : UInt32) : Decidable (event.Forks pid) :=
  inferInstanceAs (Decidable (_ ∧ _))

instance (event : KernelEvent) (pid : UInt32) : Decidable (event.Exits pid) :=
  inferInstanceAs (Decidable (_ ∧ _))

/-- Every pid that is forked has its exit event later. -/
def AllExit (events : List KernelEvent) : Prop :=
  ∀ before fork after pid, events = before ++ fork :: after → fork.Forks pid →
    ∃ exit ∈ after, exit.Exits pid ∧ exit.tid = pid

namespace AttributionRegistry

/-- The loop of `run_ebpf` as a machine on the registry. -/
def consumed (s : AttributionRegistry) (event : KernelEvent) : Option AttributionRegistry :=
  some (s.consume event).1

/-- The registry when all the events have been consumed. -/
def drained (s : AttributionRegistry) (events : List KernelEvent) : AttributionRegistry :=
  events.foldl (fun s event => (s.consume event).1) s

/-- Neither map has an entry for the process. -/
def Forgotten (s : AttributionRegistry) (pid : UInt32) : Prop :=
  s.processes pid = none ∧ s.parents pid = none

/-- An exit event of the process that the registry attributes to an execution. -/
def AttributesExit (s : AttributionRegistry) (event : KernelEvent) (pid : UInt32) : Prop :=
  event.Exits pid ∧ (s.resolve event.cgroupID event.pid).isSome = true

/-- The property of one stream: if all pids exit, all are forgotten in the end. -/
def ForgetsExited (s : AttributionRegistry) (events : List KernelEvent) : Prop :=
  AllExit events → ∀ fork ∈ events, ∀ pid, fork.Forks pid → (s.drained events).Forgotten pid

/-- After the last fork of a pid, one of its exit events is attributed when it is consumed. -/
def LastExitsAttributed (s : AttributionRegistry) (events : List KernelEvent) : Prop :=
  ∀ before fork after pid, events = before ++ fork :: after → fork.Forks pid →
    (∀ later ∈ after, ¬ later.Forks pid) →
    ∃ visit ∈ visits consumed (s.drained (before ++ [fork])) after,
      visit.1.AttributesExit visit.2 pid

/-! ## One event -/

variable {s : AttributionRegistry} {event : KernelEvent} {pid : UInt32}

theorem consume_of_fork (h : event.operation = 11) :
    (s.consume event).1 = s.fork event.parentPID event.child := by
  rw [consume, if_pos h]
  split
  · rfl
  · rw [if_neg (by rw [h]; decide)]

theorem consume_of_exit (h : event.operation = 12)
    (hsome : (s.resolve event.cgroupID event.pid).isSome = true) :
    (s.consume event).1 = s.exit event.pid := by
  obtain ⟨r, hr⟩ := Option.isSome_iff_exists.mp hsome
  simp [consume, h, hr]

/-- A fork leaves a parent link for its child. -/
theorem not_forgotten_consume (h : event.Forks pid) : ¬ (s.consume event).1.Forgotten pid := by
  rintro ⟨-, hnone⟩
  rw [consume_of_fork h.1, fork_parents, if_pos h.2.symm] at hnone
  cases hnone

theorem exit_forgotten : (s.exit pid).Forgotten pid :=
  ⟨PartialMap.remove_self .., PartialMap.remove_self ..⟩

theorem forgotten_exit_of_ne {q : UInt32} (h : pid ≠ q) :
    (s.exit q).Forgotten pid ↔ s.Forgotten pid := by
  simp only [Forgotten, exit, PartialMap.remove_of_ne _ h]

theorem forgotten_fork_of_ne {parent child : UInt32} (h : child ≠ pid) :
    (s.fork parent child).Forgotten pid ↔ s.Forgotten pid := by
  rw [Forgotten, fork_processes, fork_parents, if_neg h.symm, if_neg h.symm, Forgotten]

/-- **One event** that does not fork the process: it is forgotten afterwards if it was
before, or if the event is its exit and attributed. -/
theorem forgotten_consume_iff (h : ¬ event.Forks pid) :
    (s.consume event).1.Forgotten pid ↔ s.Forgotten pid ∨ s.AttributesExit event pid := by
  by_cases hattributed : s.AttributesExit event pid
  · obtain ⟨⟨hexit, rfl⟩, hsome⟩ := hattributed
    rw [consume_of_exit hexit hsome]
    exact iff_of_true exit_forgotten (.inr ⟨⟨hexit, rfl⟩, hsome⟩)
  · rw [or_iff_left hattributed]
    rcases s.process_cases (.kernel event) with
      ⟨hsame, -⟩ | ⟨_, heq, hfork, hs⟩ | ⟨_, heq, hexit, hsome, hs⟩ | ⟨_, _, _, _, _, _, heq, -⟩ |
        ⟨_, _, heq, -⟩
    · exact Eq.to_iff (congrArg (Forgotten · pid) hsame)
    · obtain rfl := Input.kernel.inj heq
      refine (Eq.to_iff (congrArg (Forgotten · pid) hs)).trans (forgotten_fork_of_ne fun hchild => ?_)
      exact h ⟨hfork, hchild⟩
    · obtain rfl := Input.kernel.inj heq
      refine (Eq.to_iff (congrArg (Forgotten · pid) hs)).trans (forgotten_exit_of_ne fun hpid => ?_)
      exact hattributed ⟨⟨hexit, hpid.symm⟩, hsome⟩
    · cases heq
    · cases heq

/-! ## A stream of events -/

/-- **A stream** without a fork of the process. -/
theorem forgotten_drained_iff {events : List KernelEvent} :
    ∀ {s : AttributionRegistry}, (∀ event ∈ events, ¬ event.Forks pid) →
      ((s.drained events).Forgotten pid ↔
        s.Forgotten pid ∨ ∃ visit ∈ visits consumed s events, visit.1.AttributesExit visit.2 pid) := by
  induction events with
  | nil => exact fun _ => (or_iff_left fun ⟨_, hvisit, _⟩ => List.not_mem_nil hvisit).symm
  | cons event rest ih =>
    intro s h
    rw [List.forall_mem_cons] at h
    rw [visits_cons (rfl : consumed s event = some (s.consume event).1), List.exists_mem_cons_iff,
      ← or_assoc, ← forgotten_consume_iff h.1]
    exact ih h.2

/-- A stream that forks the pid has a last fork of it. -/
theorem exists_last_fork {events : List KernelEvent} :
    (∃ fork ∈ events, fork.Forks pid) → ∃ before last after, events = before ++ last :: after ∧
      last.Forks pid ∧ ∀ later ∈ after, ¬ later.Forks pid := by
  induction events with
  | nil => exact fun ⟨_, hmem, _⟩ => absurd hmem List.not_mem_nil
  | cons event rest ih =>
    intro h
    by_cases hrest : ∃ fork ∈ rest, fork.Forks pid
    · obtain ⟨before, last, after, rfl, hlast⟩ := ih hrest
      exact ⟨event :: before, last, after, rfl, hlast⟩
    · have hfork := ((List.exists_mem_cons_iff ..).mp h).resolve_right hrest
      exact ⟨[], event, rest, rfl, hfork, fun later hlater hforks => hrest ⟨later, hlater, hforks⟩⟩

/-- What is left of a pid after its last fork. -/
theorem forgotten_iff_of_last {before after : List KernelEvent} {last : KernelEvent}
    (hlast : last.Forks pid) (hafter : ∀ later ∈ after, ¬ later.Forks pid) :
    (s.drained (before ++ last :: after)).Forgotten pid ↔
      ∃ visit ∈ visits consumed (s.drained (before ++ [last])) after,
        visit.1.AttributesExit visit.2 pid := by
  have hsplit : s.drained (before ++ last :: after) = (s.drained (before ++ [last])).drained after := by
    rw [List.append_cons, drained, List.foldl_append]
    rfl
  have hleft : ¬ (s.drained (before ++ [last])).Forgotten pid := by
    rw [drained, List.foldl_append]
    exact not_forgotten_consume hlast
  rw [hsplit, forgotten_drained_iff hafter, or_iff_right hleft]

/-- **Which streams leave nothing behind**, from any registry. -/
theorem forgetsExited_iff (s : AttributionRegistry) (events : List KernelEvent) :
    s.ForgetsExited events ↔ (AllExit events → s.LastExitsAttributed events) := by
  refine forall_congr' fun _ => ⟨fun h before fork after pid heq hfork hafter => ?_, ?_⟩
  · subst heq
    exact (forgotten_iff_of_last hfork hafter).mp
      (h fork (List.mem_append_right _ List.mem_cons_self) pid hfork)
  · intro h fork hmem pid hfork
    obtain ⟨before, last, after, rfl, hlast, hafter⟩ := exists_last_fork ⟨fork, hmem, hfork⟩
    exact (forgotten_iff_of_last hlast hafter).mpr (h before last after pid rfl hlast hafter)

/-- Process 8 is forked by process 7, which belongs to no execution, and exits. -/
theorem not_forgetsExited_foreign :
    ¬ (reached [.register 0 "e" "test" 0 3]).ForgetsExited
      [⟨0, 7, 7, 7, 11, 8⟩, ⟨0, 8, 8, 0, 12, 0⟩] := by
  intro h
  have hexit : AllExit [⟨0, 7, 7, 7, 11, 8⟩, ⟨0, 8, 8, 0, 12, 0⟩] := by
    intro before fork after pid heq hfork
    rcases before with _ | ⟨_, _ | ⟨_, before⟩⟩
    · obtain ⟨rfl, rfl⟩ := List.cons.inj heq
      exact ⟨_, List.mem_singleton_self _, ⟨rfl, hfork.2⟩, hfork.2⟩
    · obtain ⟨rfl, -⟩ := List.cons.inj (List.cons.inj heq).2
      exact absurd hfork.1 (by decide)
    · simp at heq
  have hleft := h hexit _ List.mem_cons_self 8 ⟨rfl, by decide⟩
  exact absurd hleft.2 (by decide +kernel)

end AttributionRegistry

end ConflictGraph.Rust
