import Mathlib.Data.Int.Notation
import Mathlib.Data.List.Basic

/-!
# Process groups

A process that starts a group of its own leads it. Its descendants are forked into the group and
may fork on, exit, ignore a signal or leave the group; they may also outlive the leader. A signal to
the group reaches all that are alive in it. What ends a group for good is `kill`: nobody is left who
could fork into it (`Deserted.of_act`).
-/

namespace ConflictGraph

/-- A living process that descends from the leader of a group, or is the leader. -/
structure Process : Type where
  pid : ℕ
  inGroup : Bool
  /-- SIGTERM does not end it: it ignores the signal, or handles it -/
  ignoresTerm : Bool
  /-- it has a writing end of the leader's output pipes -/
  holdsPipes : Bool
  deriving DecidableEq

structure ProcessGroup : Type where
  /-- the pid of the leader, which is the id of the group -/
  leader : ℕ
  /-- the leader and its descendants, as far as they are alive -/
  living : List Process
  /-- how the leader ended, once it has: its exit code, or minus the signal -/
  status : Option ℤ
  deriving DecidableEq

/-- What a living process does. -/
inductive Deed : Type where
  | fork (child : ℕ)
  | exit (code : ℤ)
  | setTerm (ignores : Bool)
  | closePipes
  | leaveGroup
  deriving DecidableEq

namespace ProcessGroup

/-- The group of a leader that has just been started. -/
def start (pid : ℕ) : ProcessGroup := ⟨pid, [⟨pid, true, false, true⟩], none⟩

/-- Only some processes stay alive. If the leader does not, it ends with this status. -/
def keep (g : ProcessGroup) (stays : Process → Bool) (code : ℤ) : ProcessGroup :=
  { g with
    living := g.living.filter stays
    status :=
      if g.status = none ∧ ∀ p ∈ g.living.filter stays, p.pid ≠ g.leader then some code
      else g.status }

/-- The process with this pid changes. -/
def change (g : ProcessGroup) (pid : ℕ) (f : Process → Process) : ProcessGroup :=
  { g with living := g.living.map fun p => if p.pid = pid then f p else p }

/-- A process does something, if it is alive. The pid of a child is not in use, be it as the id of
the group; the leader of a session cannot leave its group. -/
def act (g : ProcessGroup) (pid : ℕ) (deed : Deed) : Option ProcessGroup :=
  match g.living.find? (·.pid = pid) with
  | none => none
  | some p =>
    match deed with
    | .fork child =>
      if child = g.leader ∨ ∃ q ∈ g.living, q.pid = child then none
      else some { g with living := { p with pid := child } :: g.living }
    | .exit code => some (g.keep (·.pid ≠ pid) code)
    | .setTerm ignores => some (g.change pid fun q => { q with ignoresTerm := ignores })
    | .closePipes => some (g.change pid fun q => { q with holdsPipes := false })
    | .leaveGroup =>
      if pid = g.leader then none else some (g.change pid fun q => { q with inGroup := false })

/-- SIGTERM to the group. -/
def terminate (g : ProcessGroup) : ProcessGroup :=
  g.keep (fun p => !p.inGroup || p.ignoresTerm) (-15)

/-- SIGKILL to the group. -/
def kill (g : ProcessGroup) : ProcessGroup := g.keep (fun p => !p.inGroup) (-9)

/-- SIGKILL to the leader alone. -/
def killLeader (g : ProcessGroup) : ProcessGroup := g.keep (fun p => p.pid ≠ g.leader) (-9)

/-- No process of the group is alive. -/
def Deserted (g : ProcessGroup) : Prop := ∀ p ∈ g.living, p.inGroup = false

instance (g : ProcessGroup) : Decidable g.Deserted :=
  inferInstanceAs (Decidable (∀ p ∈ g.living, _))

/-- Nobody can write to the output pipes any more. -/
def PipesClosed (g : ProcessGroup) : Prop := ∀ p ∈ g.living, p.holdsPipes = false

instance (g : ProcessGroup) : Decidable g.PipesClosed :=
  inferInstanceAs (Decidable (∀ p ∈ g.living, _))

variable {g h : ProcessGroup} {pid : ℕ} {deed : Deed}

/-! ## What a deed does -/

/-- Every way in which a process can act. -/
theorem act_cases (hact : g.act pid deed = some h) : ∃ p ∈ g.living, p.pid = pid ∧
    ((∃ child, child ≠ g.leader ∧ h = { g with living := { p with pid := child } :: g.living }) ∨
      (∃ code, h = g.keep (·.pid ≠ pid) code) ∨
      ∃ f : Process → Process, h = g.change pid f ∧ (∀ q, (f q).pid = q.pid) ∧
        ∀ q, (f q).inGroup = q.inGroup ∨ (f q).inGroup = false ∧ pid ≠ g.leader) := by
  unfold act at hact
  split at hact
  · cases hact
  · rename_i p hfind
    refine ⟨p, List.mem_of_find?_eq_some hfind, by simpa using List.find?_some hfind, ?_⟩
    cases deed with
    | fork child =>
      dsimp only at hact
      split at hact
      · cases hact
      · rename_i hfresh
        exact .inl ⟨child, (not_or.mp hfresh).1, (Option.some.inj hact).symm⟩
    | exit code => exact .inr (.inl ⟨code, (Option.some.inj hact).symm⟩)
    | setTerm ignores =>
      exact .inr (.inr ⟨_, (Option.some.inj hact).symm, fun _ => rfl, fun _ => .inl rfl⟩)
    | closePipes =>
      exact .inr (.inr ⟨_, (Option.some.inj hact).symm, fun _ => rfl, fun _ => .inl rfl⟩)
    | leaveGroup =>
      dsimp only at hact
      split at hact
      · cases hact
      · rename_i hne
        exact .inr (.inr ⟨_, (Option.some.inj hact).symm, fun _ => rfl, fun _ => .inr ⟨rfl, hne⟩⟩)

theorem mem_change {f : Process → Process} {q : Process} (hq : q ∈ (g.change pid f).living) :
    ∃ p ∈ g.living, q = p ∨ p.pid = pid ∧ q = f p := by
  obtain ⟨p, hp, rfl⟩ := List.mem_map.mp hq
  refine ⟨p, hp, ?_⟩
  by_cases hpid : p.pid = pid
  · exact .inr ⟨hpid, if_pos hpid⟩
  · exact .inl (if_neg hpid)

/-! ## Deserted groups -/

theorem Deserted.keep (hg : g.Deserted) (stays : Process → Bool) (code : ℤ) :
    (g.keep stays code).Deserted := fun p hp => hg p (List.mem_filter.mp hp).1

/-- **Nobody enters a group that is deserted.** -/
theorem Deserted.of_act (hg : g.Deserted) (hact : g.act pid deed = some h) : h.Deserted := by
  obtain ⟨p, hp, -, ⟨child, -, rfl⟩ | ⟨code, rfl⟩ | ⟨f, rfl, -, hgroup⟩⟩ := act_cases hact
  · exact List.forall_mem_cons.mpr ⟨hg p hp, hg⟩
  · exact hg.keep _ _
  · intro q hq
    obtain ⟨p, hp, rfl | ⟨-, rfl⟩⟩ := mem_change hq
    · exact hg _ hp
    · rcases hgroup p with heq | ⟨hfalse, -⟩
      · exact heq.trans (hg p hp)
      · exact hfalse

theorem deserted_kill (g : ProcessGroup) : g.kill.Deserted := by
  intro p hp
  simpa using (List.mem_filter.mp hp).2

/-! ## The leader -/

/-- The leader is alive as long as it has no status, and it stays in its group. -/
structure Coherent (g : ProcessGroup) : Prop where
  status_iff : g.status = none ↔ ∃ p ∈ g.living, p.pid = g.leader
  leader_inGroup : ∀ p ∈ g.living, p.pid = g.leader → p.inGroup = true

theorem coherent_start (pid : ℕ) : (start pid).Coherent :=
  ⟨iff_of_true rfl ⟨_, List.mem_cons_self, rfl⟩, fun p hp _ => by
    rw [List.mem_singleton.mp hp]⟩

theorem Coherent.keep (hg : g.Coherent) (stays : Process → Bool) (code : ℤ) :
    (g.keep stays code).Coherent := by
  refine ⟨?_, fun p hp => hg.leader_inGroup p (List.mem_filter.mp hp).1⟩
  dsimp only [ProcessGroup.keep]
  split
  · rename_i hended
    exact iff_of_false (by simp) fun ⟨p, hp, hpid⟩ => hended.2 p hp hpid
  · rename_i hnot
    refine ⟨fun hnone => ?_, ?_⟩
    · by_contra hgone
      exact hnot ⟨hnone, fun p hp hpid => hgone ⟨p, hp, hpid⟩⟩
    · rintro ⟨p, hp, hpid⟩
      exact hg.status_iff.mpr ⟨p, (List.mem_filter.mp hp).1, hpid⟩

theorem Coherent.of_act (hg : g.Coherent) (hact : g.act pid deed = some h) : h.Coherent := by
  obtain ⟨p, hp, hpid, ⟨child, hchild, rfl⟩ | ⟨code, rfl⟩ | ⟨f, rfl, hf, hgroup⟩⟩ := act_cases hact
  · refine ⟨hg.status_iff.trans ?_, List.forall_mem_cons.mpr
      ⟨fun heq => absurd heq hchild, hg.leader_inGroup⟩⟩
    simp [List.mem_cons, hchild]
  · exact hg.keep _ _
  · refine ⟨?_, fun q hq hleader => ?_⟩
    · refine hg.status_iff.trans ⟨?_, ?_⟩
      · rintro ⟨q, hq, hleader⟩
        refine ⟨_, List.mem_map_of_mem hq, ?_⟩
        split
        · exact (hf q).trans hleader
        · exact hleader
      · rintro ⟨q, hq, hleader⟩
        obtain ⟨r, hr, rfl | ⟨-, rfl⟩⟩ := mem_change hq
        · exact ⟨_, hr, hleader⟩
        · exact ⟨r, hr, (hf r).symm.trans hleader⟩
    · obtain ⟨r, hr, rfl | ⟨hrpid, rfl⟩⟩ := mem_change hq
      · exact hg.leader_inGroup _ hr hleader
      · have hrleader : r.pid = g.leader := (hf r).symm.trans hleader
        rcases hgroup r with heq | ⟨-, hne⟩
        · exact heq.trans (hg.leader_inGroup r hr hrleader)
        · exact absurd (hrpid.symm.trans hrleader) hne

/-- The leader of a deserted group has ended. -/
theorem Coherent.status_ne_none (hg : g.Coherent) (hdeserted : g.Deserted) : g.status ≠ none := by
  intro hnone
  obtain ⟨p, hp, hpid⟩ := hg.status_iff.mp hnone
  have hfalse := hdeserted p hp
  rw [hg.leader_inGroup p hp hpid] at hfalse
  cases hfalse

/-- A status is for good. -/
theorem status_keep_of_eq_some {code : ℤ} (hg : g.status = some code) (stays : Process → Bool)
    (other : ℤ) : (g.keep stays other).status = some code :=
  (if_neg fun hnone => by rw [hg] at hnone; cases hnone.1).trans hg

theorem status_of_act {code : ℤ} (hg : g.status = some code) (hact : g.act pid deed = some h) :
    h.status = some code := by
  obtain ⟨p, -, -, ⟨child, -, rfl⟩ | ⟨code', rfl⟩ | ⟨f, rfl, -⟩⟩ := act_cases hact
  · exact hg
  · exact status_keep_of_eq_some hg _ _
  · exact hg

/-- The leader has ended once SIGKILL was sent to it. -/
theorem Coherent.status_killLeader (hg : g.Coherent) : g.killLeader.status ≠ none := by
  intro hnone
  obtain ⟨p, hp, hpid⟩ := (hg.keep _ _).status_iff.mp hnone
  have hne : p.pid ≠ g.leader := by simpa using (List.mem_filter.mp hp).2
  exact hne hpid

end ProcessGroup

end ConflictGraph
