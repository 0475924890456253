import Mathlib.Data.List.Chain
import ConflictGraph.RustTracer

/-!
# Attribution of a live descendant

A lineage lists the pids from a process up to a registered root. While the inputs come in,
the part of it that a lookup searches, up to the first process with a registration, is
*traceable*: every process on it has a registration of the execution, or has none and its
parent link, once its fork was observed. `Traceable.of_harmless` says that an input keeps this
unless it is of one of four kinds, and `Traceable.run` that a run without such inputs does.
The four kinds are:

* an exit event of a process on the searched part, which also the exit of a mere thread is;
* a fork on the searched part from a process of another execution;
* the registration of a process on the searched part for another execution;
* the end of another execution that prunes a link of the searched part.
-/

namespace ConflictGraph.Rust

namespace AttributionRegistry

variable {s t : AttributionRegistry} {e executionID testID : String} {root parent child pid q : UInt32}
  {cgroupID : UInt64} {now : ℕ} {r : Registration} {done : List Input} {input : Input}
  {lineage : List UInt32}

/-! ## Registrations of a process -/

/-- The process is registered for the execution. -/
def holds (s : AttributionRegistry) (executionID : String) (pid : UInt32) : Bool :=
  (s.processes pid).any fun r => r.executionID = executionID

/-- The process is registered for another execution. -/
def holdsOther (s : AttributionRegistry) (executionID : String) (pid : UInt32) : Bool :=
  (s.processes pid).any fun r => r.executionID ≠ executionID

theorem holds_iff : s.holds e q = true ↔ ∃ r, s.processes q = some r ∧ r.executionID = e := by
  simp [holds, Option.any_eq_true]

theorem holdsOther_iff :
    s.holdsOther e q = true ↔ ∃ r, s.processes q = some r ∧ r.executionID ≠ e := by
  simp [holdsOther, Option.any_eq_true]

/-- A registry with the same entry for a process holds the same of it. -/
theorem holds_congr (h : t.processes q = s.processes q) : t.holds e q = s.holds e q := by
  simp only [holds, h]

/-- What an accepted registration does to the processes. -/
theorem of_register_eq_ok (h : s.register now executionID testID cgroupID root = .ok (r, t)) :
    r.executionID = executionID ∧ t.parents = s.parents ∧
      t.processes = if root = 0 then s.processes else s.processes.insert root r := by
  rw [register] at h
  split at h
  · cases h
  · split at h
    · cases h
    · obtain ⟨rfl, rfl⟩ := Prod.mk.inj (Except.ok.inj h)
      exact ⟨rfl, rfl, rfl⟩

/-! ## The searched part of a lineage -/

/-- The part of a lineage up to the first registered process. -/
def searched (s : AttributionRegistry) : List UInt32 → List UInt32
  | [] => []
  | q :: rest => q :: if (s.processes q).isSome then [] else s.searched rest

theorem mem_of_mem_searched : q ∈ s.searched lineage → q ∈ lineage := by
  induction lineage with
  | nil => exact id
  | cons p rest ih =>
    intro h
    simp only [searched, List.mem_cons] at h ⊢
    refine h.imp_right fun h => ih ?_
    split at h
    · cases h
    · exact h

theorem mem_searched_append_singleton (h : q ∈ s.searched (lineage ++ [root])) :
    q ∈ s.searched lineage ∨ q = root := by
  induction lineage with
  | nil => exact .inr (List.mem_singleton.mp (mem_of_mem_searched h))
  | cons p rest ih =>
    simp only [List.cons_append, searched, List.mem_cons] at h ⊢
    split at h
    · exact .inl (.inl (h.resolve_right (List.not_mem_nil)))
    · rename_i hnone
      rcases h with rfl | h
      · exact .inl (.inl rfl)
      · rw [if_neg hnone]
        exact (ih h).imp_left .inr

/-- No more is searched when the registrations that end the search stay. -/
theorem searched_subset
    (h : ∀ q ∈ s.searched lineage, (s.processes q).isSome = true → (t.processes q).isSome = true) :
    ∀ q ∈ t.searched lineage, q ∈ s.searched lineage := by
  induction lineage with
  | nil => exact fun _ hq => hq
  | cons p rest ih =>
    intro q hq
    simp only [searched, List.mem_cons] at h hq ⊢
    rcases hq with rfl | hq
    · exact .inl rfl
    · by_cases hp : (s.processes p).isSome = true
      · rw [if_pos (h p (.inl rfl) hp)] at hq
        cases hq
      · rw [if_neg hp] at h ⊢
        split at hq
        · cases hq
        · exact .inr (ih (fun x hx => h x (.inr hx)) q hq)

/-! ## Traceable lineages -/

/-- The process is registered for the execution, or it has no registration, is not the
root, and is linked to its parent as soon as its fork was observed. -/
def Settled (s : AttributionRegistry) (e : String) (root : UInt32) (done : List Input)
    (q : UInt32) : Prop :=
  s.holds e q = true ∨
    (q ≠ root ∧ s.processes q = none ∧ ∀ p, Forked done q p → s.parents q = some p)

/-- After the inputs `done`, a lookup meets settled processes only. -/
def Traceable (s : AttributionRegistry) (e : String) (root : UInt32) (done : List Input)
    (lineage : List UInt32) : Prop :=
  ∀ q ∈ s.searched lineage, s.Settled e root done q

/-- A lookup along a traceable lineage finds the execution. -/
theorem Traceable.exists_nearest {below : List UInt32}
    (h : s.Traceable e root done (below ++ [root]))
    (hchain : List.IsChain (Forked done) (below ++ [root])) (hroot : root ≠ 0) :
    ∃ n r, n ≤ below.length ∧ r.executionID = e ∧
      Nearest 0 s.processes s.parents n (below.headD root) r := by
  induction below with
  | nil =>
    rcases h root List.mem_cons_self with hhold | ⟨hne, -⟩
    · obtain ⟨r, hr, he⟩ := holds_iff.mp hhold
      exact ⟨0, r, Nat.le_refl 0, he, .here hroot hr⟩
    · exact absurd rfl hne
  | cons q rest ih =>
    obtain ⟨hlink, hchain⟩ := List.isChain_cons.mp hchain
    have hfork : Forked done q (rest.headD root) := hlink _ (by cases rest <;> rfl)
    rcases h q List.mem_cons_self with hhold | ⟨-, hnone, hparent⟩
    · obtain ⟨r, hr, he⟩ := holds_iff.mp hhold
      exact ⟨0, r, Nat.zero_le _, he, .here hfork.ne_zero hr⟩
    · have hrest : s.Traceable e root done (rest ++ [root]) := by
        intro p hp
        refine h p (List.mem_cons_of_mem q ?_)
        rwa [hnone, if_neg (by decide)]
      obtain ⟨n, r, hn, he, hnear⟩ := ih hrest hchain
      exact ⟨n + 1, r, Nat.succ_le_succ hn, he, .up hfork.ne_zero hnone (hparent _ hfork) hnear⟩

/-- What a step has to keep: the registrations of the execution, and that the processes
without one are settled. -/
theorem Traceable.step {done' : List Input} (h : s.Traceable e root done lineage)
    (hkeep : ∀ q ∈ s.searched lineage, s.holds e q = true → t.holds e q = true)
    (hopen : ∀ q ∈ s.searched lineage, q ≠ root → s.processes q = none →
      (∀ p, Forked done q p → s.parents q = some p) → t.Settled e root done' q) :
    t.Traceable e root done' lineage := by
  intro q hq
  have hsome : ∀ q ∈ s.searched lineage, (s.processes q).isSome = true →
      (t.processes q).isSome = true := by
    intro p hp hsome
    rcases h p hp with hhold | ⟨-, hnone, -⟩
    · obtain ⟨r, hr, -⟩ := holds_iff.mp (hkeep p hp hhold)
      rw [hr]
      rfl
    · rw [hnone] at hsome
      cases hsome
  have hq := searched_subset hsome q hq
  rcases h q hq with hhold | ⟨hne, hnone, hlink⟩
  · exact .inl (hkeep q hq hhold)
  · exact hopen q hq hne hnone hlink

/-! ## One input -/

/-- The input takes nothing from the searched part of the lineage. -/
def Harmless (s : AttributionRegistry) (e : String) (lineage : List UInt32) : Input → Prop
  | .kernel event =>
    (event.operation = 12 → (s.resolve event.cgroupID event.pid).isSome = true →
      event.pid ∉ s.searched lineage) ∧
    (event.operation = 11 → event.child ∈ s.searched lineage →
      s.holdsOther e event.parentPID = false)
  | .control now (some (.register executionID testID cgroupID rootPID)) =>
    (s.register now executionID testID cgroupID rootPID).isOk = true →
      rootPID ∈ s.searched lineage → executionID = e
  | .control _ (some (.unregister executionID)) =>
    ∀ q ∈ s.searched lineage, s.holds executionID q = false ∧
      (s.processes q = none → ∀ p ∈ s.parents q, s.holdsOther executionID p = true)
  | .control _ none => True

instance Harmless.decidable (s : AttributionRegistry) (e : String) (lineage : List UInt32) :
    ∀ input, Decidable (s.Harmless e lineage input)
  | .kernel _ => inferInstanceAs (Decidable (_ ∧ _))
  | .control _ (some (.register ..)) => inferInstanceAs (Decidable (_ → _ → _))
  | .control _ (some (.unregister _)) => inferInstanceAs (Decidable (∀ q ∈ _, _ ∧ (_ → _)))
  | .control _ none => inferInstanceAs (Decidable True)

/-- What has forked after one more input. -/
theorem forked_append_singleton :
    Forked (done ++ [input]) q parent ↔ Forked done q parent ∨ input.fork? = some (parent, q) := by
  simp [Forked, or_and_right, exists_or]

/-- An input that records no fork and changes nothing about a process leaves it settled. -/
theorem Settled.congr (hfork : ∀ p, input.fork? ≠ some (p, q)) (hne : q ≠ root)
    (hprocess : t.processes q = none) (hparents : t.parents q = s.parents q)
    (hlink : ∀ p, Forked done q p → s.parents q = some p) :
    t.Settled e root (done ++ [input]) q := by
  refine .inr ⟨hne, hprocess, fun p hp => ?_⟩
  rw [hparents]
  exact hlink p ((forked_append_singleton.mp hp).resolve_right (hfork p))

/-- A fork that harms nobody keeps the lineage traceable. -/
theorem Traceable.fork {event : KernelEvent} (h : s.Traceable e root done lineage)
    (hop : event.operation = 11) (hreuse : NoReuse (done ++ [.kernel event]))
    (hzero : ∀ q ∈ lineage, q ≠ 0) (hharm : s.Harmless e lineage (.kernel event)) :
    (s.fork event.parentPID event.child).Traceable e root (done ++ [.kernel event]) lineage := by
  have hparent := hharm.2 hop
  apply h.step
  · intro q hq hhold
    obtain ⟨r, hr, he⟩ := holds_iff.mp hhold
    rw [holds_iff, fork_processes]
    by_cases hchild : q = event.child
    · rw [if_pos hchild]
      rcases hp : s.processes event.parentPID with _ | r'
      · exact ⟨r, hr, he⟩
      · -- the copy is of the parent's registration, which is of the same execution
        refine ⟨r', rfl, ?_⟩
        by_contra hother
        have := holdsOther_iff.mpr ⟨r', hp, hother⟩
        rw [hparent (hchild ▸ hq)] at this
        cases this
    · rw [if_neg hchild]
      exact ⟨r, hr, he⟩
  · intro q hq hne hnone hlink
    by_cases hchild : q = event.child
    · have hfork : (Input.kernel event).fork? = some (event.parentPID, q) := by
        have hq0 : event.child ≠ 0 := hchild ▸ hzero q (mem_of_mem_searched hq)
        simp [Input.fork?, hop, hq0, hchild]
      rcases hp : s.processes event.parentPID with _ | r
      · refine .inr ⟨hne, by rw [fork_processes, if_pos hchild, hp, hnone]; rfl, fun p hforked => ?_⟩
        rw [fork_parents, if_pos hchild]
        exact congrArg some (Forked.unique hreuse (forked_append_singleton.mpr (.inr hfork)) hforked)
      · refine .inl (holds_iff.mpr ⟨r, by rw [fork_processes, if_pos hchild, hp]; rfl, ?_⟩)
        by_contra hother
        have := holdsOther_iff.mpr ⟨r, hp, hother⟩
        rw [hparent (hchild ▸ hq)] at this
        cases this
    · refine Settled.congr (fun p hfork => ?_) hne ?_ ?_ hlink
      · simp only [Input.fork?] at hfork
        split at hfork
        · exact hchild (Prod.mk.inj (Option.some.inj hfork)).2.symm
        · cases hfork
      · rw [fork_processes, if_neg hchild, hnone]
      · rw [fork_parents, if_neg hchild]

/-- So does the exit of a process that is not searched. -/
theorem Traceable.exit {event : KernelEvent} (h : s.Traceable e root done lineage)
    (hop : event.operation = 12) (hpid : event.pid ∉ s.searched lineage) :
    (s.exit event.pid).Traceable e root (done ++ [.kernel event]) lineage := by
  have hne : ∀ q ∈ s.searched lineage, q ≠ event.pid := fun q hq heq => hpid (heq ▸ hq)
  apply h.step
  · intro q hq hhold
    rwa [holds_congr (PartialMap.remove_of_ne _ (hne q hq))]
  · intro q hq hroot hnone hlink
    refine Settled.congr (fun p => ?_) hroot ?_ (PartialMap.remove_of_ne _ (hne q hq)) hlink
    · simp [Input.fork?, hop]
    · exact (PartialMap.remove_of_ne _ (hne q hq)).trans hnone

/-- So does a registration of another process, or of the same execution. -/
theorem Traceable.register {rootPID : UInt32} (h : s.Traceable e root done lineage)
    (hok : s.register now executionID testID cgroupID rootPID = .ok (r, t))
    (hpid : rootPID ∈ s.searched lineage → executionID = e) :
    t.Traceable e root
      (done ++ [.control now (some (.register executionID testID cgroupID rootPID))]) lineage := by
  obtain ⟨hr, hparents, hprocesses⟩ := of_register_eq_ok hok
  have hcases : ∀ q ∈ s.searched lineage, t.processes q = s.processes q ∨ t.holds e q = true := by
    intro q hq
    rw [holds_iff, hprocesses]
    split
    · exact .inl rfl
    · by_cases hroot : q = rootPID
      · rw [hroot, PartialMap.insert_self]
        exact .inr ⟨r, rfl, hr.trans (hpid (hroot ▸ hq))⟩
      · exact .inl (PartialMap.insert_of_ne _ _ hroot)
  apply h.step
  · intro q hq hhold
    rcases hcases q hq with hsame | hnew
    · rwa [holds_congr hsame]
    · exact hnew
  · intro q hq hroot hnone hlink
    rcases hcases q hq with hsame | hnew
    · exact Settled.congr (fun p hfork => by cases hfork) hroot (hsame.trans hnone)
        (congrFun hparents q) hlink
    · exact .inl hnew

/-- And the end of another execution. -/
theorem Traceable.unregister (h : s.Traceable e root done lineage)
    (hharm : s.Harmless e lineage (.control now (some (.unregister executionID)))) :
    (s.unregister executionID).Traceable e root
      (done ++ [.control now (some (.unregister executionID))]) lineage := by
  apply h.step
  · intro q hq hhold
    obtain ⟨r, hr, he⟩ := holds_iff.mp hhold
    refine holds_iff.mpr ⟨r, unregister_processes_eq_some.mpr ⟨hr, fun hsame => ?_⟩, he⟩
    have hno := (hharm q hq).1
    rw [holds_iff.mpr ⟨r, hr, hsame⟩] at hno
    cases hno
  · intro q hq hroot hnone hlink
    refine .inr ⟨hroot, unregister_processes_eq_none hnone, fun p hp => ?_⟩
    have hparent := hlink p ((forked_append_singleton.mp hp).resolve_right (fun h => nomatch h))
    obtain ⟨r, hr, hother⟩ := holdsOther_iff.mp ((hharm q hq).2 hnone p hparent)
    -- the link stays, as the parent's registration does
    exact unregister_parents_eq_some.mpr
      ⟨hparent, .inr ⟨r, unregister_processes_eq_some.mpr ⟨hr, hother⟩⟩⟩

/-- A harmless input keeps a lineage traceable. -/
theorem Traceable.of_harmless (h : s.Traceable e root done lineage)
    (hreuse : NoReuse (done ++ [input])) (hzero : ∀ q ∈ lineage, q ≠ 0)
    (hharm : s.Harmless e lineage input) :
    (s.process input).Traceable e root (done ++ [input]) lineage := by
  rcases s.process_cases input with ⟨hsame, hfork⟩ | ⟨event, rfl, hop, heq⟩ |
    ⟨event, rfl, hop, hresolve, heq⟩ | ⟨now, executionID, testID, cgroupID, rootPID, r, rfl, hok⟩ |
    ⟨now, executionID, rfl, heq⟩
  · rw [hsame]
    refine h.step (fun _ _ hhold => hhold) fun q _ hne hnone hlink => ?_
    exact Settled.congr (fun p hp => nomatch hfork.symm.trans hp) hne hnone rfl hlink
  · rw [heq]
    exact h.fork hop hreuse hzero hharm
  · rw [heq]
    exact h.exit hop (hharm.1 hop hresolve)
  · exact h.register hok (hharm (by rw [hok]; rfl))
  · rw [heq]
    exact h.unregister hharm

/-- A run of harmless inputs keeps a lineage traceable. -/
theorem Traceable.run (hzero : ∀ q ∈ lineage, q ≠ 0) :
    ∀ {rest done : List Input} {s : AttributionRegistry}, s.Traceable e root done lineage →
      NoReuse (done ++ rest) →
      (∀ visit ∈ foldTrace process s rest, visit.1.Harmless e lineage visit.2) →
      (rest.foldl process s).Traceable e root (done ++ rest) lineage := by
  intro rest
  induction rest with
  | nil =>
    intro done s h _ _
    rwa [List.append_nil]
  | cons input rest ih =>
    intro done s h hreuse hharm
    rw [foldTrace, List.forall_mem_cons] at hharm
    rw [List.append_cons] at hreuse ⊢
    have hprefix : NoReuse (done ++ [input]) := hreuse.sublist (List.sublist_append_left ..)
    exact ih (h.of_harmless hprefix hzero hharm.1) hreuse hharm.2

end AttributionRegistry

/-! ## Whole runs -/

/-- A run of the tracer in which a root process is registered. -/
structure RegisteredRoot : Type where
  before : List Input
  now : ℕ
  executionID : String
  testID : String
  cgroupID : UInt64
  root : UInt32
  after : List Input
  executionID_ne : executionID ≠ ""
  testID_ne : testID ≠ ""
  root_ne : root ≠ 0

namespace RegisteredRoot

variable (d : RegisteredRoot)

/-- The register message. -/
def message : Input := .control d.now (some (.register d.executionID d.testID d.cgroupID d.root))

/-- All inputs of the run. -/
def inputs : List Input := d.before ++ d.message :: d.after

/-- The registry when the register message comes in. -/
def found : AttributionRegistry := d.before.foldl .process .default

/-- The registry after the register message. -/
def registered : AttributionRegistry := d.found.process d.message

/-- The registry at the end of the run. -/
def registry : AttributionRegistry := d.after.foldl .process d.registered

/-- The root of the descent can be registered. -/
theorem register_found : ∃ r, d.found.register d.now d.executionID d.testID d.cgroupID d.root =
    .ok (r, d.registered) := by
  have hids : ¬ (d.executionID = "" ∨ d.testID = "") := not_or.mpr ⟨d.executionID_ne, d.testID_ne⟩
  have hroot : ¬ (d.cgroupID = 0 ∧ d.root = 0) := fun h => d.root_ne h.2
  refine ⟨⟨d.executionID, d.testID, d.cgroupID, d.root, d.now⟩, ?_⟩
  simp only [registered, AttributionRegistry.process, message, AttributionRegistry.handle,
    AttributionRegistry.call, AttributionRegistry.register, if_neg hids, if_neg hroot]

end RegisteredRoot

/-- A process that descends from a registered root over at most 63 observed forks, in a
run in which no pid is reused, and in which neither the execution was unregistered since
nor the main thread of the process has exited. `below` are the pids from the process up to
the root, the root left out. -/
structure Descendant extends RegisteredRoot where
  below : List UInt32
  chain : List.IsChain (Forked toRegisteredRoot.inputs) (below ++ [root])
  root_not_mem : root ∉ below
  near : below.length ≤ 63
  noReuse : NoReuse toRegisteredRoot.inputs
  not_unregistered : ∀ now, Input.control now (some (.unregister executionID)) ∉ after
  alive : ∀ event, Input.kernel event ∈ toRegisteredRoot.inputs → event.operation = 12 →
    ¬ (event.pid = below.headD root ∧ event.tid = below.headD root)

namespace Descendant

variable (d : Descendant)

/-- The pid of the descendant. -/
def pid : UInt32 := d.below.headD d.root

/-- The property of a run: the descendant resolves to the execution. -/
def Persists : Prop :=
  ∃ r, d.registry.resolve 0 d.pid = some r ∧ r.executionID = d.executionID

/-- Every input of the run is harmless: up to the register message to what a lookup
searches below the root, and from then on to what it searches up to the root. -/
def Undisturbed : Prop :=
  (∀ visit ∈ foldTrace AttributionRegistry.process .default d.before,
    visit.1.Harmless d.executionID d.below visit.2) ∧
  ∀ visit ∈ foldTrace AttributionRegistry.process d.registered d.after,
    visit.1.Harmless d.executionID (d.below ++ [d.root]) visit.2

theorem ne_zero_of_mem_below : ∀ q ∈ d.below, q ≠ 0 := by
  intro q hq
  have hchain := d.chain
  obtain ⟨front, back, hsplit⟩ := List.append_of_mem hq
  rw [hsplit, List.append_assoc, List.cons_append] at hchain
  obtain ⟨hlink, -⟩ := List.isChain_cons.mp (List.isChain_append.mp hchain).2.1
  rcases hhead : (back ++ [d.root]).head? with _ | p
  · simp at hhead
  · exact (hlink p hhead).ne_zero

theorem ne_zero_of_mem_lineage : ∀ q ∈ d.below ++ [d.root], q ≠ 0 := by
  intro q hq
  rcases List.mem_append.mp hq with hq | hq
  · exact d.ne_zero_of_mem_below q hq
  · rw [List.mem_singleton.mp hq]
    exact d.root_ne

/-- At the start there is nothing to search past. -/
theorem traceable_default :
    AttributionRegistry.default.Traceable d.executionID d.root [] d.below := by
  intro q hq
  refine .inr ⟨?_, rfl, fun p ⟨_, hmem, _⟩ => nomatch hmem⟩
  rintro rfl
  exact d.root_not_mem (AttributionRegistry.mem_of_mem_searched hq)

/-- From the register message on the root is settled too. -/
theorem traceable_registered (h : d.Undisturbed) :
    d.registered.Traceable d.executionID d.root (d.before ++ [d.message]) (d.below ++ [d.root]) := by
  have hreuse : NoReuse d.before := d.noReuse.sublist (List.sublist_append_left ..)
  have hfound : d.found.Traceable d.executionID d.root d.before d.below :=
    d.traceable_default.run d.ne_zero_of_mem_below hreuse h.1
  obtain ⟨r, hr⟩ := d.register_found
  intro q hq
  rcases AttributionRegistry.mem_searched_append_singleton hq with hq | rfl
  · exact hfound.register hr (fun _ => rfl) q hq
  · obtain ⟨he, -, hprocesses⟩ := AttributionRegistry.of_register_eq_ok hr
    refine .inl (AttributionRegistry.holds_iff.mpr ⟨r, ?_, he⟩)
    rw [hprocesses, if_neg d.root_ne, PartialMap.insert_self]

/-- **Attribution persists** for a live descendant in an undisturbed run. -/
theorem persists_of_undisturbed (d : Descendant) (h : d.Undisturbed) : d.Persists := by
  have hinputs : d.before ++ [d.message] ++ d.after = d.inputs := by
    rw [RegisteredRoot.inputs, ← List.append_cons]
  have hend : d.registry.Traceable d.executionID d.root d.inputs (d.below ++ [d.root]) := by
    rw [← hinputs]
    exact (d.traceable_registered h).run d.ne_zero_of_mem_lineage (hinputs ▸ d.noReuse) h.2
  obtain ⟨n, r, hn, he, hnear⟩ := hend.exists_nearest d.chain d.root_ne
  refine ⟨r, AttributionRegistry.resolve_zero_eq_some_iff.mpr ⟨n, ?_, hnear⟩, he⟩
  exact Nat.lt_of_le_of_lt hn (Nat.lt_succ_of_le d.near)

instance : Decidable d.Undisturbed := inferInstanceAs (Decidable (_ ∧ _))

/-- Process 102 was forked from 101 after the registration of 100, and 101 from 100 before
it; a third descendant of 100 exits. -/
def grandchild : Descendant where
  before := [.kernel ⟨1, 100, 100, 100, 11, 101⟩]
  now := 0
  executionID := "e"
  testID := "t"
  cgroupID := 7
  root := 100
  after := [.kernel ⟨7, 101, 101, 101, 11, 102⟩, .kernel ⟨7, 100, 100, 100, 11, 103⟩,
    .kernel ⟨7, 103, 103, 100, 12, 0⟩]
  executionID_ne := by decide
  testID_ne := by decide
  root_ne := by decide
  below := [102, 101]
  chain := by decide +kernel
  root_not_mem := by decide
  near := by decide
  noReuse := by decide +kernel
  not_unregistered := fun _ => by simp
  alive := by
    intro event hmem hop
    simp only [RegisteredRoot.inputs, RegisteredRoot.message, List.cons_append, List.nil_append,
      List.mem_cons, Input.kernel.injEq, reduceCtorEq, false_or, List.not_mem_nil, or_false] at hmem
    rcases hmem with rfl | rfl | rfl | rfl <;> simp_all

theorem persists_grandchild : grandchild.Persists :=
  persists_of_undisturbed grandchild (by decide +kernel)

/-- The root of an execution, one thread of which has exited. -/
def threaded : Descendant where
  before := []
  now := 0
  executionID := "e"
  testID := "t"
  cgroupID := 7
  root := 100
  after := [.kernel ⟨7, 100, 101, 0, 12, 0⟩]
  executionID_ne := by decide
  testID_ne := by decide
  root_ne := by decide
  below := []
  chain := by decide +kernel
  root_not_mem := by decide
  near := by decide
  noReuse := by decide +kernel
  not_unregistered := fun _ => by simp
  alive := by
    intro event hmem hop
    simp only [RegisteredRoot.inputs, RegisteredRoot.message, List.nil_append,
      List.mem_cons, Input.kernel.injEq, reduceCtorEq, false_or, List.not_mem_nil, or_false] at hmem
    rw [hmem]
    decide

/-- The exit event of a thread carries the pid of its process, and takes the registration
of the process away while its main thread runs on. -/
theorem not_persists_thread_exit : ¬ ∀ d : Descendant, d.Persists := by
  intro h
  obtain ⟨r, hr, -⟩ := h threaded
  have hnone : (threaded.registry.resolve 0 threaded.pid).isSome = false := by decide +kernel
  rw [hr] at hnone
  cases hnone

end Descendant

end ConflictGraph.Rust
