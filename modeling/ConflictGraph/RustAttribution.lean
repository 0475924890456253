import ConflictGraph.Ancestry
import ConflictGraph.Loop

/-!
# The attribution registry

The tracer attributes kernel events to executions. `AttributionRegistry` knows an
execution by its cgroup and by its root process, and learns the descendants of a process
from the forks it observes: a fork copies the parent's registration to the child, if it
has one, and records the parent link either way. `resolve` asks for the cgroup first, and
otherwise climbs the parent links to the nearest process with a registration.

`unregister` drops the registrations of one execution, and then every parent link neither
end of which has a registration. Such a link may be an inner link on the way from a
process to its nearest registered ancestor, so an execution that is not unregistered can
lose descendants. It loses none exactly if no process reaches a registration of another
execution over two or more links (`framesUnregister_iff_shallow`).
-/

namespace ConflictGraph.Rust

/-- `Registration`. -/
structure Registration : Type where
  executionID : String
  testID : String
  cgroupID : UInt64
  rootPID : UInt32
  /-- nanoseconds since the epoch -/
  registeredAtNS : ℕ
  deriving DecidableEq

/-- `AttributionRegistry`: the maps of `Inner`. Every method takes the lock once, so it
is one step on them. -/
structure AttributionRegistry : Type where
  cgroups : PartialMap UInt64 Registration
  processes : PartialMap UInt32 Registration
  parents : PartialMap UInt32 UInt32

namespace AttributionRegistry

/-- `AttributionRegistry::default`. -/
def default : AttributionRegistry := ⟨.empty, .empty, .empty⟩

/-- `register`, called at the instant `now`. -/
def register (s : AttributionRegistry) (now : ℕ) (executionID testID : String)
    (cgroupID : UInt64) (rootPID : UInt32) : Except String (Registration × AttributionRegistry) :=
  if executionID = "" ∨ testID = "" then .error "execution_id and test_id are required"
  else if cgroupID = 0 ∧ rootPID = 0 then .error "either cgroup_id or root_pid is required"
  else
    let registration : Registration := ⟨executionID, testID, cgroupID, rootPID, now⟩
    .ok (registration,
      { s with
        cgroups := if cgroupID = 0 then s.cgroups else s.cgroups.insert cgroupID registration
        processes := if rootPID = 0 then s.processes else s.processes.insert rootPID registration })

/-- `fork`. -/
def fork (s : AttributionRegistry) (parent child : UInt32) : AttributionRegistry :=
  { s with
    parents := s.parents.insert child parent
    processes :=
      match s.processes parent with
      | some registration => s.processes.insert child registration
      | none => s.processes }

/-- `resolve`. -/
def resolve (s : AttributionRegistry) (cgroupID : UInt64) (pid : UInt32) : Option Registration :=
  (if cgroupID = 0 then none else s.cgroups cgroupID).or (climb 0 s.processes s.parents 64 [] pid)

/-- `exit`. -/
def exit (s : AttributionRegistry) (pid : UInt32) : AttributionRegistry :=
  { s with processes := s.processes.remove pid, parents := s.parents.remove pid }

/-- `unregister`; `live` are the keys of `processes`. -/
def unregister (s : AttributionRegistry) (executionID : String) : AttributionRegistry :=
  let processes := s.processes.retain fun _ value => value.executionID ≠ executionID
  let live (pid : UInt32) : Bool := (processes pid).isSome
  { cgroups := s.cgroups.retain fun _ value => value.executionID ≠ executionID
    processes
    parents := s.parents.retain fun child parent => live child || live parent }

/-! ## Reachable states -/

/-- A call that changes the registry. -/
inductive Call : Type where
  | register (now : ℕ) (executionID testID : String) (cgroupID : UInt64) (rootPID : UInt32)
  | fork (parent child : UInt32)
  | exit (pid : UInt32)
  | unregister (executionID : String)

/-- The registry after a call; a rejected registration leaves it as it was. -/
def call (s : AttributionRegistry) : Call → AttributionRegistry
  | .register now executionID testID cgroupID rootPID =>
    match s.register now executionID testID cgroupID rootPID with
    | .ok (_, t) => t
    | .error _ => s
  | .fork parent child => s.fork parent child
  | .exit pid => s.exit pid
  | .unregister executionID => s.unregister executionID

/-- The registry after a sequence of calls. -/
def reached (calls : List Call) : AttributionRegistry := calls.foldl call default

/-! ## Lookups -/

variable {s : AttributionRegistry} {e : String} {cgroupID : UInt64} {pid : UInt32}
  {r : Registration}

/-- Without a cgroup, the registration is that of the nearest registered ancestor, at most
63 links away. -/
theorem resolve_zero_eq_some_iff :
    s.resolve 0 pid = some r ↔ ∃ n, n < 64 ∧ Nearest 0 s.processes s.parents n pid r := by
  rw [resolve, if_pos rfl, Option.none_or, climb_eq_some_iff]

/-- A registration comes from the cgroup or, if that has none, from the processes. -/
theorem resolve_eq_some_iff :
    s.resolve cgroupID pid = some r ↔
      (cgroupID ≠ 0 ∧ s.cgroups cgroupID = some r) ∨
      ((cgroupID = 0 ∨ s.cgroups cgroupID = none) ∧ s.resolve 0 pid = some r) := by
  by_cases hzero : cgroupID = 0
  · simp [hzero]
  · rcases hlookup : s.cgroups cgroupID with _ | v
    · simp [resolve, hzero, hlookup]
    · simp [resolve, hzero, hlookup]

/-! ## Forks -/

/-- The processes after a fork. -/
theorem fork_processes {parent child q : UInt32} :
    (s.fork parent child).processes q =
      if q = child then (s.processes parent).or (s.processes q) else s.processes q := by
  rcases h : s.processes parent with _ | r
  · simp [fork, h]
  · simp only [fork, h, PartialMap.insert_apply, Option.some_or]

theorem fork_parents {parent child q : UInt32} :
    (s.fork parent child).parents q = if q = child then some parent else s.parents q := by
  simp only [fork, PartialMap.insert_apply]

theorem isFork_fork (s : AttributionRegistry) (parent child : UInt32) :
    IsFork s.processes s.parents (s.fork parent child).processes (s.fork parent child).parents
      parent child :=
  ⟨fun _ => fork_processes, fun _ => fork_parents⟩

/-- The property of one fork: the child is attributed as its parent is. -/
def TakesAttribution (s : AttributionRegistry) (parent child : UInt32) : Prop :=
  (s.fork parent child).resolve 0 child = (s.fork parent child).resolve 0 parent

/-- A child is attributed as its parent is exactly if no stranger's registration is left at its
pid, provided that the parent is not at the end of what a lookup searches. -/
theorem takesAttribution_iff {parent child : UInt32} (hne : child ≠ parent)
    (habove : ¬ Above s.parents parent child)
    (hnear : ∀ n r, Nearest 0 s.processes s.parents n parent r → n < 63) :
    s.TakesAttribution parent child ↔ Fresh 0 s.processes s.parents parent child := by
  have hfork := isFork_fork s parent child
  have hchild : ∀ r, (s.fork parent child).resolve 0 child = some r ↔
      ∃ n, Nearest 0 (s.fork parent child).processes (s.fork parent child).parents n child r := by
    intro r
    rw [resolve_zero_eq_some_iff]
    refine exists_congr fun m => and_iff_right_of_imp fun h => ?_
    obtain rfl | ⟨n, rfl, hn⟩ := hfork.distance_child hne habove h
    · exact Nat.succ_pos _
    · exact Nat.succ_lt_succ (hnear n r hn)
  have hparent : ∀ r, (s.fork parent child).resolve 0 parent = some r ↔
      ∃ n, Nearest 0 (s.fork parent child).processes (s.fork parent child).parents n parent r := by
    intro r
    rw [resolve_zero_eq_some_iff]
    refine exists_congr fun n => and_iff_right_of_imp fun h => ?_
    exact Nat.lt_succ_of_lt (hnear n r ((hfork.nearest_parent_iff hne habove).mp h))
  rw [← hfork.forall_iff_fresh hne habove, TakesAttribution]
  refine ⟨fun heq r => ?_, fun hsame => ?_⟩
  · rw [← hchild, ← hparent, heq]
  · exact Option.ext fun r => (hchild r).trans ((hsame r).trans (hparent r).symm)

/-! ## Unregistering -/

/-- The property of one call: `unregister` leaves every answer that belongs to another
execution, and no answer that belongs to this one. -/
def FramesUnregister (s : AttributionRegistry) (e : String) : Prop :=
  (∀ cgroupID pid r, s.resolve cgroupID pid = some r → r.executionID ≠ e →
    (s.unregister e).resolve cgroupID pid = some r) ∧
  ∀ cgroupID pid r, (s.unregister e).resolve cgroupID pid = some r → r.executionID ≠ e

/-- Whoever finds a registration of another execution than `e` has it itself, or its
recorded parent has it. -/
def Shallow (s : AttributionRegistry) (e : String) : Prop :=
  ∀ n pid r, n < 64 → Nearest 0 s.processes s.parents n pid r → r.executionID ≠ e → n ≤ 1

theorem unregister_cgroups_eq_some :
    (s.unregister e).cgroups cgroupID = some r ↔ s.cgroups cgroupID = some r ∧ r.executionID ≠ e := by
  simp [unregister]

theorem unregister_processes_eq_some :
    (s.unregister e).processes pid = some r ↔ s.processes pid = some r ∧ r.executionID ≠ e := by
  simp [unregister]

theorem unregister_cgroups_eq_none (h : s.cgroups cgroupID = none) :
    (s.unregister e).cgroups cgroupID = none := by
  simp [unregister, PartialMap.retain, h]

theorem unregister_processes_eq_none (h : s.processes pid = none) :
    (s.unregister e).processes pid = none := by
  simp [unregister, PartialMap.retain, h]

/-- A parent link stays if one of its ends keeps a registration. -/
theorem unregister_parents_eq_some {parent : UInt32} :
    (s.unregister e).parents pid = some parent ↔
      s.parents pid = some parent ∧
        ((∃ r, (s.unregister e).processes pid = some r) ∨
          ∃ r, (s.unregister e).processes parent = some r) := by
  simp [unregister, Option.isSome_iff_exists]

/-- What is found after the call was there before it. -/
theorem executionID_ne_of_nearest_unregister {n : ℕ}
    (h : Nearest 0 (s.unregister e).processes (s.unregister e).parents n pid r) :
    r.executionID ≠ e := by
  induction h with
  | here _ hv => exact (unregister_processes_eq_some.mp hv).2
  | up _ _ _ _ ih => exact ih

/-- An ancestor of another execution, one link away or none, is found after the call. -/
theorem nearest_unregister {n : ℕ} (h : Nearest 0 s.processes s.parents n pid r) (hn : n ≤ 1)
    (hother : r.executionID ≠ e) :
    Nearest 0 (s.unregister e).processes (s.unregister e).parents n pid r := by
  cases h with
  | here hp hv => exact .here hp (unregister_processes_eq_some.mpr ⟨hv, hother⟩)
  | up hp hnone hparent h =>
    obtain rfl := Nat.le_zero.mp (Nat.le_of_succ_le_succ hn)
    cases h with
    | here hq hv =>
      have hkept := unregister_processes_eq_some.mpr ⟨hv, hother⟩
      exact .up hp (unregister_processes_eq_none hnone)
        (unregister_parents_eq_some.mpr ⟨hparent, .inr ⟨_, hkept⟩⟩) (.here hq hkept)

/-- An ancestor two or more links away is not found after the call: the first link is
gone, as neither of its ends has a registration. -/
theorem not_nearest_unregister {n m : ℕ} {w : Registration}
    (h : Nearest 0 s.processes s.parents (n + 2) pid r) :
    ¬ Nearest 0 (s.unregister e).processes (s.unregister e).parents m pid w := by
  intro hafter
  cases h with
  | up _ hnone hparent h =>
    cases h with
    | up _ hnone' _ _ =>
      obtain ⟨_, q, -, hlink, -⟩ := hafter.of_none (unregister_processes_eq_none hnone)
      obtain ⟨hlink, hlive⟩ := unregister_parents_eq_some.mp hlink
      obtain rfl := Option.some.inj (hparent.symm.trans hlink)
      rw [unregister_processes_eq_none hnone, unregister_processes_eq_none hnone'] at hlive
      rcases hlive with ⟨_, hsome⟩ | ⟨_, hsome⟩ <;> cases hsome

/-- **The exact frame of `unregister`**, in any state. -/
theorem framesUnregister_iff_shallow : s.FramesUnregister e ↔ s.Shallow e := by
  refine ⟨fun hframe n pid r hn hnear hother => ?_, fun hshallow => ⟨?_, ?_⟩⟩
  · by_contra hdeep
    obtain ⟨k, rfl⟩ := Nat.exists_eq_add_of_le' (Nat.lt_of_not_le hdeep)
    have hkept := hframe.1 0 pid r (resolve_zero_eq_some_iff.mpr ⟨_, hn, hnear⟩) hother
    obtain ⟨m, -, hafter⟩ := resolve_zero_eq_some_iff.mp hkept
    exact not_nearest_unregister hnear hafter
  · intro cgroupID pid r hbefore hother
    rw [resolve_eq_some_iff] at hbefore ⊢
    rcases hbefore with ⟨hzero, hcgroup⟩ | ⟨hcgroup, hprocess⟩
    · exact .inl ⟨hzero, unregister_cgroups_eq_some.mpr ⟨hcgroup, hother⟩⟩
    · obtain ⟨n, hn, hnear⟩ := resolve_zero_eq_some_iff.mp hprocess
      have hafter := nearest_unregister hnear (hshallow n pid r hn hnear hother) hother
      refine .inr ⟨hcgroup.imp_right fun hnone => ?_, resolve_zero_eq_some_iff.mpr ⟨n, hn, hafter⟩⟩
      exact unregister_cgroups_eq_none hnone
  · intro cgroupID pid r hafter
    rcases resolve_eq_some_iff.mp hafter with ⟨-, hcgroup⟩ | ⟨-, hprocess⟩
    · exact (unregister_cgroups_eq_some.mp hcgroup).2
    · obtain ⟨n, -, hnear⟩ := resolve_zero_eq_some_iff.mp hprocess
      exact executionID_ne_of_nearest_unregister hnear

/-- **When unregistering disturbs no other execution**, in every reachable state. -/
theorem framesUnregister_reached_iff (calls : List Call) (e : String) :
    (reached calls).FramesUnregister e ↔ (reached calls).Shallow e :=
  framesUnregister_iff_shallow

/-- Two forks seen before the registration of their ancestor: process 5 is a grandchild of
process 3, which is registered for `b`, and the end of `a` takes 5 away from it. -/
theorem not_framesUnregister_two_links :
    ¬ (reached [.fork 4 5, .fork 3 4, .register 0 "b" "test-b" 0 3,
      .register 1 "a" "test-a" 0 9]).FramesUnregister "a" := by
  intro h
  exact absurd (h.1 0 5 ⟨"b", "test-b", 0, 3, 0⟩ (by decide +kernel) (by decide)) (by decide +kernel)

end AttributionRegistry

end ConflictGraph.Rust
