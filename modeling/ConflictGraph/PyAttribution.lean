import ConflictGraph.Climb
import ConflictGraph.PyText
import ConflictGraph.Transition

/-!
# The Python attribution registry

`AttributionRegistry` of `tracing.py` is the sibling of the tracer's registry: cgroup
first, then the parent links up to the nearest process with a registration. The climb has
no bound here; it stops at pid 0 and at a pid it has seen, and goes on for as long as
there are links.

Unlike its sibling, `resolve` writes: a registration that it finds over parent links is
stored for the pid itself. The stored entry is no different from one that `register` or
`register_fork` made, so it stays when the ancestor gets another registration, and a later
lookup gives the old one. `undisturbed_iff` says which lookups are without effect on the
later ones.

`unregister` drops an execution and the parent links at the processes that had it, stored
entries included, and no others; so it leaves every other lookup as it was
(`exactUnregister`).

The parent links may form circles, as pids are used again. `Resolves` is `resolve` with its loop
as it is written, which nothing bounds; it comes to an end all the same, and to what `resolve`
computes (`resolves_first_entry`).
-/

namespace ConflictGraph.Py

structure ExecutionRegistration : Type where
  executionID : Str
  testID : Str
  cgroupID : ℤ := 0
  processGroupID : ℤ := 0
  rootPID : ℤ := 0
  registeredAtNS : ℤ := 0
  deriving DecidableEq

/-- `AttributionRegistry`. Every method holds the lock, so it is one step on the three
dictionaries; `children` lists the keys of `parents`, as their number bounds the climb. -/
structure AttributionRegistry : Type where
  cgroups : PartialMap ℤ ExecutionRegistration
  pids : PartialMap ℤ ExecutionRegistration
  parents : PartialMap ℤ ℤ
  children : List ℤ
  /-- every key of `parents` is listed -/
  mem_children : ∀ {child}, parents child ≠ none → child ∈ children

namespace AttributionRegistry

/-- `AttributionRegistry()`. -/
def new : AttributionRegistry :=
  ⟨.empty, .empty, .empty, [], fun h => absurd rfl h⟩

/-- `register`. -/
def register (s : AttributionRegistry) (registration : ExecutionRegistration) :
    AttributionRegistry :=
  { s with
    cgroups :=
      if registration.cgroupID = 0 then s.cgroups
      else s.cgroups.insert registration.cgroupID registration
    pids :=
      if registration.rootPID = 0 then s.pids else s.pids.insert registration.rootPID registration }

/-- `register_fork`. -/
def registerFork (s : AttributionRegistry) (parentPID childPID : ℤ) : AttributionRegistry where
  cgroups := s.cgroups
  parents := s.parents.insert childPID parentPID
  pids :=
    match s.pids parentPID with
    | some registration => s.pids.insert childPID registration
    | none => s.pids
  children := childPID :: s.children
  mem_children h :=
    (PartialMap.eq_or_ne_none_of_insert h).elim (fun heq => heq ▸ List.mem_cons_self)
      fun h => List.mem_cons_of_mem _ (s.mem_children h)

/-- `unregister`. -/
def unregister (s : AttributionRegistry) (executionID : Str) : AttributionRegistry :=
  let removed (pid : ℤ) : Bool := (s.pids pid).any (·.executionID = executionID)
  { cgroups := s.cgroups.retain fun _ value => value.executionID ≠ executionID
    pids := s.pids.retain fun _ value => value.executionID ≠ executionID
    parents := s.parents.retain fun child parent => !removed child && !removed parent
    children := s.children
    mem_children := fun h => s.mem_children fun hnone => h (by rw [PartialMap.retain, hnone]; rfl) }

/-- The `while` loop of `resolve`: the registration of the nearest registered ancestor. -/
def ancestor (s : AttributionRegistry) (pid : ℤ) : Option ExecutionRegistration :=
  climb 0 s.pids s.parents (s.children.length + 1) [] pid

/-- `resolve`. -/
def resolve (s : AttributionRegistry) (cgroupID pid : ℤ) :
    Option ExecutionRegistration × AttributionRegistry :=
  match if cgroupID = 0 then none else s.cgroups cgroupID with
  | some registration => (some registration, s)
  | none =>
    match s.ancestor pid with
    | some registration => (some registration, { s with pids := s.pids.insert pid registration })
    | none => (none, s)

/-! ## Runs -/

/-- A call of one of the four methods. -/
inductive Call : Type where
  | register (registration : ExecutionRegistration)
  | registerFork (parentPID childPID : ℤ)
  | unregister (executionID : Str)
  | resolve (cgroupID pid : ℤ)

/-- The registry after a call. -/
def call (s : AttributionRegistry) : Call → AttributionRegistry
  | .register registration => s.register registration
  | .registerFork parentPID childPID => s.registerFork parentPID childPID
  | .unregister executionID => s.unregister executionID
  | .resolve cgroupID pid => (s.resolve cgroupID pid).2

/-- What a call returns, if it is a lookup. -/
def answer (s : AttributionRegistry) : Call → List (Option ExecutionRegistration)
  | .resolve cgroupID pid => [(s.resolve cgroupID pid).1]
  | _ => []

/-- A call of the program, or a lookup that was put in between. -/
inductive Step : Type where
  | original (call : Call)
  | inserted (cgroupID pid : ℤ)

def Step.isOriginal : Step → Bool
  | .original _ => true
  | .inserted _ _ => false

/-- The registry after a step. -/
def next (s : AttributionRegistry) : Step → AttributionRegistry
  | .original call => s.call call
  | .inserted cgroupID pid => (s.resolve cgroupID pid).2

/-- The results of the original lookups of a run. -/
def answers : AttributionRegistry → List Step → List (Option ExecutionRegistration)
  | _, [] => []
  | s, .original call :: rest => s.answer call ++ answers (s.call call) rest
  | s, .inserted cgroupID pid :: rest => answers (s.resolve cgroupID pid).2 rest

/-- The property of one run: the inserted lookups leave the results of the others. -/
def Undisturbed (steps : List Step) : Prop :=
  answers new steps = answers new (steps.filter Step.isOriginal)

/-- The registry after a sequence of calls. -/
def reached (calls : List Call) : AttributionRegistry := calls.foldl call new

/-- A lookup is answered neither by the cgroup nor by the pid itself, but by an ancestor. -/
def Inherits (s : AttributionRegistry) (cgroupID pid : ℤ) : Prop :=
  (cgroupID = 0 ∨ s.cgroups cgroupID = none) ∧ s.pids pid = none ∧
    ∃ n r, Nearest 0 s.pids s.parents n pid r

/-! ## Lookups -/

variable {s : AttributionRegistry} {cgroupID pid : ℤ}

/-- The ancestor is the nearest process with a registration. -/
theorem ancestor_eq_some_iff {r : ExecutionRegistration} :
    s.ancestor pid = some r ↔ ∃ n, Nearest 0 s.pids s.parents n pid r :=
  climb_eq_some_iff_of_links s.mem_children

theorem cgroup_eq_none_iff :
    (if cgroupID = 0 then none else s.cgroups cgroupID) = none ↔
      cgroupID = 0 ∨ s.cgroups cgroupID = none := by
  by_cases hzero : cgroupID = 0
  · simp [hzero]
  · simp [hzero]

/-- A lookup that no ancestor answers leaves the registry as it is. -/
theorem resolve_of_not_inherits (h : ¬ s.Inherits cgroupID pid) : (s.resolve cgroupID pid).2 = s := by
  rw [resolve]
  split
  · rfl
  · rename_i hcgroup
    split
    · rename_i r hfound
      obtain ⟨n, hnear⟩ := ancestor_eq_some_iff.mp hfound
      rcases hentry : s.pids pid with _ | w
      · exact absurd ⟨cgroup_eq_none_iff.mp hcgroup, hentry, n, r, hnear⟩ h
      · -- the pid has an entry itself, which is stored again
        obtain ⟨-, rfl⟩ := hnear.eq_of_entry hentry
        rw [PartialMap.insert, ← hentry, Function.update_eq_self]
    · rfl

/-- A lookup that an ancestor answers stores the answer. -/
theorem resolve_of_inherits (h : s.Inherits cgroupID pid) :
    ∃ r, s.resolve cgroupID pid = (some r, { s with pids := s.pids.insert pid r }) := by
  obtain ⟨hcgroup, -, n, r, hnear⟩ := h
  refine ⟨r, ?_⟩
  rw [resolve, cgroup_eq_none_iff.mpr hcgroup, ancestor_eq_some_iff.mpr ⟨n, hnear⟩]

/-- Without a cgroup, a lookup gives the registration of the nearest ancestor. -/
theorem resolve_zero_fst {n : ℕ} {r : ExecutionRegistration}
    (h : Nearest 0 s.pids s.parents n pid r) : (s.resolve 0 pid).1 = some r := by
  rw [resolve, if_pos rfl, ancestor_eq_some_iff.mpr ⟨n, h⟩]

/-- Without a cgroup the ancestor decides. -/
theorem resolve_zero_eq_some_iff {r : ExecutionRegistration} :
    (s.resolve 0 pid).1 = some r ↔ ∃ n, Nearest 0 s.pids s.parents n pid r := by
  rw [← ancestor_eq_some_iff, resolve, if_pos rfl]
  rcases s.ancestor pid with _ | w
  · rfl
  · rfl

/-! ## Forks -/

/-- The pids after a fork. -/
theorem registerFork_pids {parentPID childPID q : ℤ} :
    (s.registerFork parentPID childPID).pids q =
      if q = childPID then (s.pids parentPID).or (s.pids q) else s.pids q := by
  rcases h : s.pids parentPID with _ | r
  · simp [registerFork, h]
  · simp only [registerFork, h, PartialMap.insert_apply, Option.some_or]

theorem isFork_registerFork (s : AttributionRegistry) (parentPID childPID : ℤ) :
    IsFork s.pids s.parents (s.registerFork parentPID childPID).pids
      (s.registerFork parentPID childPID).parents parentPID childPID :=
  ⟨fun _ => registerFork_pids, fun q => PartialMap.insert_apply s.parents childPID q parentPID⟩

/-- The property of one fork: the child is attributed as its parent is. -/
def TakesAttribution (s : AttributionRegistry) (parentPID childPID : ℤ) : Prop :=
  ((s.registerFork parentPID childPID).resolve 0 childPID).1 =
    ((s.registerFork parentPID childPID).resolve 0 parentPID).1

/-- A child is attributed as its parent is exactly if no stranger's registration is left at its
pid. -/
theorem takesAttribution_iff {parentPID childPID : ℤ} (hne : childPID ≠ parentPID)
    (habove : ¬ Above s.parents parentPID childPID) :
    s.TakesAttribution parentPID childPID ↔ Fresh 0 s.pids s.parents parentPID childPID := by
  rw [← (isFork_registerFork s parentPID childPID).forall_iff_fresh hne habove, TakesAttribution]
  refine ⟨fun heq r => ?_, fun hsame => ?_⟩
  · rw [← resolve_zero_eq_some_iff, ← resolve_zero_eq_some_iff, heq]
  · exact Option.ext fun r => resolve_zero_eq_some_iff.trans
      ((hsame r).trans resolve_zero_eq_some_iff.symm)

/-! ## Unregistering -/

variable {e : Str} {n : ℕ} {r : ExecutionRegistration}

/-- The entries of other executions stay. -/
theorem unregister_pids_eq_some :
    (s.unregister e).pids pid = some r ↔ s.pids pid = some r ∧ r.executionID ≠ e := by
  simp [unregister]

theorem unregister_pids_eq_none (h : s.pids pid = none) : (s.unregister e).pids pid = none := by
  simp [unregister, PartialMap.retain, h]

/-- A parent link stays if neither end has a registration of the execution. -/
theorem unregister_parents_eq_some {parent : ℤ} :
    (s.unregister e).parents pid = some parent ↔ s.parents pid = some parent ∧
      (∀ r, s.pids pid = some r → r.executionID ≠ e) ∧
      ∀ r, s.pids parent = some r → r.executionID ≠ e := by
  simp [unregister, Option.any_eq_false]

/-- The links below a process that finds another execution all stay, and no climb gets past a
process that had a registration of this one. -/
theorem nearest_unregister_iff :
    Nearest 0 (s.unregister e).pids (s.unregister e).parents n pid r ↔
      Nearest 0 s.pids s.parents n pid r ∧ r.executionID ≠ e := by
  refine ⟨fun h => ?_, ?_⟩
  · induction h with
    | here hp hv =>
      obtain ⟨hv, hother⟩ := unregister_pids_eq_some.mp hv
      exact ⟨.here hp hv, hother⟩
    | @up n p q r hp hnone hparent _ ih =>
      obtain ⟨hlink, hown, -⟩ := unregister_parents_eq_some.mp hparent
      -- the process had no registration before: one of another execution would have stayed
      have hbefore : s.pids p = none := by
        by_contra hsome
        obtain ⟨w, hw⟩ := Option.ne_none_iff_exists'.mp hsome
        rw [unregister_pids_eq_some.mpr ⟨hw, hown w hw⟩] at hnone
        cases hnone
      exact ⟨.up hp hbefore hlink ih.1, ih.2⟩
  · rintro ⟨h, hother⟩
    induction h with
    | here hp hv => exact .here hp (unregister_pids_eq_some.mpr ⟨hv, hother⟩)
    | @up n p q r hp hnone hparent hq ih =>
      have hend : ∀ w, s.pids q = some w → w.executionID ≠ e := fun w hw =>
        (hq.eq_of_entry hw).2 ▸ hother
      have hstart : ∀ w, s.pids p = some w → w.executionID ≠ e := fun w hw => by
        rw [hnone] at hw
        cases hw
      exact .up hp (unregister_pids_eq_none hnone)
        (unregister_parents_eq_some.mpr ⟨hparent, hstart, hend⟩) (ih hother)

/-- Without a cgroup, a lookup gives what it gave, as long as that is of another execution. -/
theorem resolve_zero_unregister :
    ((s.unregister e).resolve 0 pid).1 = some r ↔
      (s.resolve 0 pid).1 = some r ∧ r.executionID ≠ e := by
  simp only [resolve_zero_eq_some_iff, nearest_unregister_iff, exists_and_right]

/-- A registration comes from the cgroup or, if that has none, from the processes. -/
theorem resolve_eq_some_iff :
    (s.resolve cgroupID pid).1 = some r ↔
      (cgroupID ≠ 0 ∧ s.cgroups cgroupID = some r) ∨
      ((cgroupID = 0 ∨ s.cgroups cgroupID = none) ∧ (s.resolve 0 pid).1 = some r) := by
  by_cases hzero : cgroupID = 0
  · simp [hzero]
  · rcases hlookup : s.cgroups cgroupID with _ | v
    · simp [resolve, hzero, hlookup]
    · simp [resolve, hzero, hlookup]

/-- What `unregister` does to the lookups: those that gave another execution give it still, those
that gave nothing give nothing, those that found the execution over the processes give nothing,
and none gives the execution. -/
structure ExactUnregister (s : AttributionRegistry) (e : Str) : Prop where
  other : ∀ cgroupID pid r, (s.resolve cgroupID pid).1 = some r → r.executionID ≠ e →
    ((s.unregister e).resolve cgroupID pid).1 = some r
  unknown : ∀ cgroupID pid, (s.resolve cgroupID pid).1 = none →
    ((s.unregister e).resolve cgroupID pid).1 = none
  over_processes : ∀ pid r, (s.resolve 0 pid).1 = some r → r.executionID = e →
    ((s.unregister e).resolve 0 pid).1 = none
  gone : ∀ cgroupID pid r, ((s.unregister e).resolve cgroupID pid).1 = some r → r.executionID ≠ e

theorem unregister_cgroups_eq_some :
    (s.unregister e).cgroups cgroupID = some r ↔ s.cgroups cgroupID = some r ∧ r.executionID ≠ e := by
  simp [unregister]

theorem unregister_cgroups_eq_none (h : s.cgroups cgroupID = none) :
    (s.unregister e).cgroups cgroupID = none := by
  simp [unregister, PartialMap.retain, h]

/-- What a lookup gives after the call it gave before, unless the cgroup was in the way. -/
theorem resolve_of_unregister (h : ((s.unregister e).resolve cgroupID pid).1 = some r) :
    r.executionID ≠ e ∧ ((s.resolve cgroupID pid).1 = some r ∨
      cgroupID ≠ 0 ∧ ∃ w, s.cgroups cgroupID = some w ∧ w.executionID = e) := by
  rcases resolve_eq_some_iff.mp h with ⟨hzero, hcgroup⟩ | ⟨hcgroup, hprocess⟩
  · obtain ⟨hbefore, hother⟩ := unregister_cgroups_eq_some.mp hcgroup
    exact ⟨hother, .inl (resolve_eq_some_iff.mpr (.inl ⟨hzero, hbefore⟩))⟩
  · obtain ⟨hbefore, hother⟩ := resolve_zero_unregister.mp hprocess
    refine ⟨hother, ?_⟩
    by_cases hzero : cgroupID = 0
    · exact .inl (resolve_eq_some_iff.mpr (.inr ⟨.inl hzero, hbefore⟩))
    · rcases hentry : s.cgroups cgroupID with _ | w
      · exact .inl (resolve_eq_some_iff.mpr (.inr ⟨.inr hentry, hbefore⟩))
      · refine .inr ⟨hzero, w, rfl, ?_⟩
        by_contra hw
        rw [unregister_cgroups_eq_some.mpr ⟨hentry, hw⟩] at hcgroup
        exact hcgroup.elim hzero (Option.some_ne_none w)

/-- **`unregister` has the exact effect** in every state, reachable or not. -/
theorem exactUnregister (s : AttributionRegistry) (e : Str) : s.ExactUnregister e where
  other cgroupID pid r h hother := by
    rcases resolve_eq_some_iff.mp h with ⟨hzero, hcgroup⟩ | ⟨hcgroup, hprocess⟩
    · exact resolve_eq_some_iff.mpr
        (.inl ⟨hzero, unregister_cgroups_eq_some.mpr ⟨hcgroup, hother⟩⟩)
    · exact resolve_eq_some_iff.mpr (.inr ⟨hcgroup.imp_right unregister_cgroups_eq_none,
        resolve_zero_unregister.mpr ⟨hprocess, hother⟩⟩)
  unknown cgroupID pid h := by
    by_contra hsome
    obtain ⟨r, hr⟩ := Option.ne_none_iff_exists'.mp hsome
    obtain ⟨-, hbefore | ⟨hzero, w, hw, -⟩⟩ := resolve_of_unregister hr
    · rw [h] at hbefore
      cases hbefore
    · rw [resolve_eq_some_iff.mpr (.inl ⟨hzero, hw⟩)] at h
      cases h
  over_processes pid r h heq := by
    by_contra hsome
    obtain ⟨w, hw⟩ := Option.ne_none_iff_exists'.mp hsome
    obtain ⟨hbefore, hother⟩ := resolve_zero_unregister.mp hw
    obtain rfl := Option.some.inj (h.symm.trans hbefore)
    exact hother heq
  gone _ _ _ h := (resolve_of_unregister h).1

/-- A lookup repeated gives the same: what it stores is what it found. -/
theorem resolve_resolve (s : AttributionRegistry) (cgroupID pid : ℤ) :
    ((s.resolve cgroupID pid).2.resolve cgroupID pid).1 = (s.resolve cgroupID pid).1 := by
  by_cases hinherits : s.Inherits cgroupID pid
  · obtain ⟨r, hr⟩ := resolve_of_inherits hinherits
    obtain ⟨hcgroup, -, _, _, hnear⟩ := hinherits
    rw [hr]
    exact resolve_eq_some_iff.mpr (.inr ⟨hcgroup,
      resolve_zero_eq_some_iff.mpr ⟨0, .here hnear.ne_root (PartialMap.insert_self ..)⟩⟩)
  · rw [resolve_of_not_inherits hinherits]

/-- The exact effect as a caller sees it who looks up, unregisters and looks up again. -/
theorem exactUnregister_reached (calls : List Call) (e : Str) :
    (reached calls).ExactUnregister e ∧
      ∀ cgroupID pid, (reached (calls ++ [.resolve cgroupID pid])).ExactUnregister e ∧
        ((reached (calls ++ [.resolve cgroupID pid])).resolve cgroupID pid).1 =
          ((reached calls).resolve cgroupID pid).1 := by
  refine ⟨exactUnregister _ e, fun cgroupID pid => ⟨exactUnregister _ e, ?_⟩⟩
  rw [reached, List.foldl_append]
  exact resolve_resolve _ _ _

/-! ## Inserted lookups -/

/-- The step function, as a machine all of whose actions are possible. -/
def step (s : AttributionRegistry) (l : Step) : Option AttributionRegistry := some (s.next l)

/-- Every inserted lookup of a run is answered without an ancestor. -/
def NoneInherits (steps : List Step) : Prop :=
  ∀ visit ∈ visits step new steps, ∀ cgroupID pid, visit.2 = .inserted cgroupID pid →
    ¬ visit.1.Inherits cgroupID pid

/-- What is inserted without effect can be left out, from any state. -/
theorem answers_filter {steps : List Step} :
    ∀ {s : AttributionRegistry}, (∀ visit ∈ visits step s steps, ∀ cgroupID pid,
      visit.2 = .inserted cgroupID pid → ¬ visit.1.Inherits cgroupID pid) →
      answers s steps = answers s (steps.filter Step.isOriginal) := by
  induction steps with
  | nil => exact fun _ => rfl
  | cons l rest ih =>
    intro s h
    rw [visits_cons (rfl : step s l = some (s.next l)), List.forall_mem_cons] at h
    cases l with
    | original call =>
      rw [List.filter_cons_of_pos rfl, answers, answers]
      exact congrArg (s.answer call ++ ·) (ih h.2)
    | inserted cgroupID pid =>
      have hsame : (s.resolve cgroupID pid).2 = s := resolve_of_not_inherits (h.1 _ _ rfl)
      have hrest := ih h.2
      rw [next, hsame] at hrest
      rw [List.filter_cons_of_neg Bool.false_ne_true, answers, hsame]
      exact hrest

theorem filter_map_original (calls : List Call) :
    (calls.map Step.original).filter Step.isOriginal = calls.map Step.original :=
  List.filter_eq_self.mpr fun l hl => by
    obtain ⟨_, -, rfl⟩ := List.mem_map.mp hl
    rfl

theorem answers_map_append (calls : List Call) (rest : List Step) :
    ∀ s : AttributionRegistry, answers s (calls.map .original ++ rest) =
      answers s (calls.map .original) ++ answers (calls.foldl call s) rest := by
  induction calls with
  | nil => exact fun _ => rfl
  | cons c calls ih =>
    intro s
    rw [List.map_cons, List.cons_append, answers, answers, ih, List.append_assoc, List.foldl_cons]

/-- One inserted lookup is judged by the calls after it. -/
theorem undisturbed_insert_iff {before rest : List Call} :
    Undisturbed (before.map .original ++ .inserted cgroupID pid :: rest.map .original) ↔
      answers ((reached before).resolve cgroupID pid).2 (rest.map .original) =
        answers (reached before) (rest.map .original) := by
  rw [Undisturbed, List.filter_append, filter_map_original,
    List.filter_cons_of_neg Bool.false_ne_true, filter_map_original, answers_map_append,
    answers_map_append, List.append_cancel_left_eq, answers]
  rfl

/-- A registration that is none of the given one's. -/
def renamed (r : ExecutionRegistration) (rootPID : ℤ) : ExecutionRegistration :=
  { r with cgroupID := 0, rootPID, testID := 0 :: r.testID }

theorem renamed_ne (r : ExecutionRegistration) (rootPID : ℤ) : renamed r rootPID ≠ r := fun h =>
  List.cons_ne_self 0 r.testID (congrArg ExecutionRegistration.testID h)

/-- After a lookup that an ancestor answered, registering the parent anew tells the two
registries apart. -/
theorem exists_answers_ne (h : s.Inherits cgroupID pid) :
    ∃ rest : List Call, answers (s.resolve cgroupID pid).2 (rest.map .original) ≠
      answers s (rest.map .original) := by
  obtain ⟨r, hr⟩ := resolve_of_inherits h
  obtain ⟨-, hnone, n, w, hnear⟩ := h
  obtain ⟨m, parent, -, hparent, hup⟩ := hnear.of_none hnone
  have hroot := hup.ne_root
  -- the parent is another process, as it does not climb on to itself for ever
  have hother : pid ≠ parent := fun heq => by
    subst heq
    obtain ⟨hdistance, -⟩ := hnear.unique (.up hnear.ne_root hnone hparent hup)
    obtain ⟨hdistance', -⟩ := hnear.unique hup
    exact Nat.succ_ne_self m (hdistance.symm.trans hdistance')
  refine ⟨[.register (renamed r parent), .resolve 0 pid], ?_⟩
  have hbefore : ((s.register (renamed r parent)).resolve 0 pid).1 = some (renamed r parent) := by
    refine resolve_zero_fst (n := 1) (.up hnear.ne_root ?_ hparent (.here hroot ?_))
    · rw [register, if_neg (show (renamed r parent).rootPID ≠ 0 from hroot)]
      exact (PartialMap.insert_of_ne _ _ hother).trans hnone
    · rw [register, if_neg (show (renamed r parent).rootPID ≠ 0 from hroot)]
      exact PartialMap.insert_self ..
  have hafter : ((({ s with pids := s.pids.insert pid r } : AttributionRegistry).register
      (renamed r parent)).resolve 0 pid).1 = some r := by
    refine resolve_zero_fst (n := 0) (.here hnear.ne_root ?_)
    rw [register, if_neg (show (renamed r parent).rootPID ≠ 0 from hroot)]
    exact (PartialMap.insert_of_ne _ _ hother).trans (PartialMap.insert_self ..)
  intro hsame
  rw [hr] at hsame
  have hanswers : [((({ s with pids := s.pids.insert pid r } : AttributionRegistry).register
      (renamed r parent)).resolve 0 pid).1] =
      [((s.register (renamed r parent)).resolve 0 pid).1] := hsame
  rw [hbefore, hafter] at hanswers
  exact renamed_ne r parent (Option.some.inj (List.head_eq_of_cons_eq hanswers)).symm

/-- **Which lookups change no later one.** A run is undisturbed if none of its inserted
lookups is answered by an ancestor; and of the lookups that can be inserted after a
sequence of calls, those are the only ones without effect on every continuation. -/
theorem undisturbed_iff (steps : List Step) (before : List Call) (cgroupID pid : ℤ) :
    (NoneInherits steps → Undisturbed steps) ∧
    ((∀ rest : List Call,
        Undisturbed (before.map .original ++ .inserted cgroupID pid :: rest.map .original)) ↔
      ¬ (reached before).Inherits cgroupID pid) := by
  refine ⟨fun h => answers_filter h, fun h hinherits => ?_, ?_⟩
  · obtain ⟨rest, hne⟩ := exists_answers_ne hinherits
    exact hne (undisturbed_insert_iff.mp (h rest))
  · intro h rest
    rw [undisturbed_insert_iff, resolve_of_not_inherits h]

/-- A process that is its own root, looked up twice. -/
theorem undisturbed_root :
    Undisturbed [.original (.register ⟨str "e1", str "t1", 0, 0, 7, 0⟩), .inserted 0 7,
      .original (.register ⟨str "e2", str "t2", 0, 0, 7, 0⟩), .original (.resolve 0 7)] := by
  refine (undisturbed_iff _ [] 0 7).1 fun visit hvisit cgroupID pid heq => ?_
  rintro ⟨-, hnone, -⟩
  simp only [visits, step, List.mem_cons, List.not_mem_nil, or_false] at hvisit
  rcases hvisit with rfl | rfl | rfl | rfl
  · cases heq
  · cases heq
    exact Option.some_ne_none _ hnone
  · cases heq
  · cases heq

/-- Process 2 was forked by process 1, whose pid is registered a second time: a lookup in
between keeps the first registration for process 2. -/
theorem not_undisturbed_again :
    ¬ Undisturbed [.original (.registerFork 1 2),
      .original (.register ⟨str "e1", str "t1", 0, 0, 1, 0⟩), .inserted 0 2,
      .original (.register ⟨str "e2", str "t2", 0, 0, 1, 0⟩), .original (.resolve 0 2)] := by
  rw [Undisturbed]
  decide +kernel

/-! ## The loop as it is written -/

/-- `resolve(cgroup_id, pid)` returns `found` and leaves the registry `left`. -/
inductive Resolves (s : AttributionRegistry) (cgroupID pid : ℤ) :
    Option ExecutionRegistration → AttributionRegistry → Prop where
  | cgroup {r : ExecutionRegistration} (hne : cgroupID ≠ 0) (hentry : s.cgroups cgroupID = some r) :
      s.Resolves cgroupID pid (some r) s
  | ancestor {r : ExecutionRegistration} (hcgroup : cgroupID = 0 ∨ s.cgroups cgroupID = none)
      (hloop : Returns (climbTurn 0 s.pids s.parents) ([], pid) (some r)) :
      s.Resolves cgroupID pid (some r) { s with pids := s.pids.insert pid r }
  | unknown (hcgroup : cgroupID = 0 ∨ s.cgroups cgroupID = none)
      (hloop : Returns (climbTurn 0 s.pids s.parents) ([], pid) none) :
      s.Resolves cgroupID pid none s

/-- The loop returns what the bounded climb computes. -/
theorem returns_ancestor (s : AttributionRegistry) (pid : ℤ) :
    Returns (climbTurn 0 s.pids s.parents) ([], pid) (s.ancestor pid) := by
  obtain ⟨r, hr⟩ : ∃ r, Returns (climbTurn 0 s.pids s.parents) ([], pid) r :=
    exists_returns_climbTurn s.mem_children ([], pid)
  have heq : s.ancestor pid = r := by
    refine Option.ext fun v => ?_
    rw [ancestor_eq_some_iff, hr.first_entry.1]
    exact exists_congr fun n => nearest_iff_firstEntry
  rw [heq]
  exact hr

/-- `resolve` comes to an end, in one way. -/
theorem resolves_iff {found : Option ExecutionRegistration} {left : AttributionRegistry} :
    s.Resolves cgroupID pid found left ↔ s.resolve cgroupID pid = (found, left) := by
  have hloop := returns_ancestor s pid
  refine ⟨fun h => ?_, fun h => ?_⟩
  · cases h with
    | cgroup hne hentry => rw [resolve, if_neg hne, hentry]
    | ancestor hcgroup hfound =>
      rw [resolve, cgroup_eq_none_iff.mpr hcgroup, hloop.unique hfound]
    | unknown hcgroup hnone => rw [resolve, cgroup_eq_none_iff.mpr hcgroup, hloop.unique hnone]
  · rw [resolve] at h
    split at h
    · rename_i r hcgroup
      obtain ⟨rfl, rfl⟩ := Prod.mk.inj h
      have hne : cgroupID ≠ 0 := by
        rintro rfl
        cases hcgroup
      rw [if_neg hne] at hcgroup
      exact .cgroup hne hcgroup
    · rename_i hcgroup
      split at h
      · rename_i r hfound
        obtain ⟨rfl, rfl⟩ := Prod.mk.inj h
        exact .ancestor (cgroup_eq_none_iff.mp hcgroup) (hfound ▸ hloop)
      · rename_i hnone
        obtain ⟨rfl, rfl⟩ := Prod.mk.inj h
        exact .unknown (cgroup_eq_none_iff.mp hcgroup) (hnone ▸ hloop)

/-- A lookup changes nothing but the entry of the pid. -/
theorem resolve_frame (s : AttributionRegistry) (cgroupID pid : ℤ) :
    (s.resolve cgroupID pid).2.cgroups = s.cgroups ∧
      (s.resolve cgroupID pid).2.parents = s.parents ∧
      ∀ other, other ≠ pid → (s.resolve cgroupID pid).2.pids other = s.pids other := by
  rcases hresolve : s.resolve cgroupID pid with ⟨found, left⟩
  cases resolves_iff.mpr hresolve with
  | cgroup => exact ⟨rfl, rfl, fun _ _ => rfl⟩
  | ancestor => exact ⟨rfl, rfl, fun _ hother => PartialMap.insert_of_ne _ _ hother⟩
  | unknown => exact ⟨rfl, rfl, fun _ _ => rfl⟩

/-- **A lookup without a cgroup comes to an end at the nearest registered ancestor**, in every
registry, whatever circles its parent links form: it returns the registration of the first process
on the way up that has one, or nothing if the way comes to a dead end before, and changes no entry
but that of the pid. -/
theorem resolves_first_entry (s : AttributionRegistry) (pid : ℤ) :
    ∃ found left,
      (∀ found' left', s.Resolves 0 pid found' left' ↔ found' = found ∧ left' = left) ∧
      s.resolve 0 pid = (found, left) ∧
      (∀ r, found = some r ↔ ∃ k, FirstEntry 0 s.pids s.parents pid k r) ∧
      (found = none ↔ DeadEnd 0 s.pids s.parents pid) ∧
      left.cgroups = s.cgroups ∧ left.parents = s.parents ∧
      ∀ other, other ≠ pid → left.pids other = s.pids other := by
  have hfound : (s.resolve 0 pid).1 = s.ancestor pid := by
    refine Option.ext fun r => ?_
    rw [resolve_zero_eq_some_iff, ancestor_eq_some_iff]
  obtain ⟨hsome, hnone⟩ := (returns_ancestor s pid).first_entry
  refine ⟨(s.resolve 0 pid).1, (s.resolve 0 pid).2, fun found' left' => ?_, rfl, fun r => ?_, ?_,
    resolve_frame s 0 pid⟩
  · rw [resolves_iff, Prod.ext_iff]
    exact and_congr eq_comm eq_comm
  · rw [hfound]
    exact hsome r
  · rw [hfound]
    exact hnone

/-- Two processes, each of which was forked by the other, and neither of them by a test. -/
example : (((new.registerFork 1 2).registerFork 2 1).resolve 0 1).1 = none := by decide

end AttributionRegistry

end ConflictGraph.Py
