import ConflictGraph.ProcessGroup
import ConflictGraph.PyExecutor

/-!
# One test of the Python executor

`_run_one` starts the test as the leader of a process group of its own and waits in one of five
places until it returns or raises. Meanwhile, and afterwards, the processes of the group do what
they like. Four of the ways out send the group no SIGKILL: a process that nothing on the way has
ended is then left alive (`noneSurvives_iff`). On all of them the leader is dead
(`leader_not_alive`), and after SIGKILL it comes to its end (`exists_finish_of_killed`).

A run begins with the process started; where the system refuses to start it, there is no group.
Signals to the group are permitted, so that `killpg` raises `ProcessLookupError` at most.
-/

namespace ConflictGraph.Py

/-- Where `_run_one` waits, and how it comes to its end. -/
inductive RunOnePhase : Type where
  /-- in `create_subprocess_exec`; `process` is `None` -/
  | starting
  /-- in `create_subprocess_exec`, which was cancelled, has killed the leader and awaits its end -/
  | closing
  /-- in `wait_for(process.communicate(), timeout)` -/
  | communicating
  /-- in `wait_for(process.wait(), 5.0)`, after SIGTERM -/
  | terminating
  /-- in `process.wait()`, after SIGTERM and SIGKILL -/
  | killing
  /-- in `process.wait()` of the handler of the cancellation, after SIGKILL -/
  | cancelling
  | returned (status : ExecutionStatus) (exitCode : ℤ) (timedOut : Bool)
  /-- it re-raises `CancelledError` -/
  | raised
  deriving DecidableEq

/-- `_run_one` does not wait any more. -/
def RunOnePhase.isEnd : RunOnePhase → Bool
  | .returned _ _ _ | .raised => true
  | _ => false

structure RunOne : Type where
  phase : RunOnePhase
  group : ProcessGroup
  /-- `process.returncode`; the event loop sets it some time after the leader's end -/
  returncode : Option ℤ
  deriving DecidableEq

inductive RunOneAction : Type where
  /-- a process of the test does something -/
  | process (pid : ℕ) (deed : Deed)
  /-- the event loop notices the end of the leader -/
  | noticed
  /-- `create_subprocess_exec` returns -/
  | started
  /-- `communicate` returns: the leader has ended and the pipes are closed -/
  | communicated
  /-- the timeout of `communicate` -/
  | timeout
  /-- `process.wait()` returns -/
  | waited
  /-- the timeout of `process.wait()` -/
  | waitTimeout
  /-- the task is cancelled -/
  | cancel
  deriving DecidableEq

namespace RunOne

/-- The test has been started as the process `pid`. -/
def init (pid : ℕ) : RunOne := ⟨.starting, .start pid, none⟩

/-- The handler of the cancellation. -/
def handleCancel (s : RunOne) : RunOne :=
  match s.returncode with
  | none => { s with phase := .cancelling, group := s.group.kill }
  | some _ => { s with phase := .raised }

/-- One step of `_run_one`, of the event loop or of a process. -/
def step (s : RunOne) : RunOneAction → Option RunOne
  | .process pid deed => (s.group.act pid deed).map fun group => { s with group := group }
  | .noticed =>
    match s.returncode, s.group.status with
    | none, some code => some { s with returncode := some code }
    | _, _ => none
  | .started =>
    match s.phase with
    | .starting => some { s with phase := .communicating }
    | _ => none
  | .communicated =>
    match s.phase, s.returncode with
    | .communicating, some code =>
      if s.group.PipesClosed then
        some { s with phase := .returned (ScheduleExecutor.statusOf false code) code false }
      else none
    | _, _ => none
  | .timeout =>
    match s.phase, s.returncode with
    | .communicating, none => some { s with phase := .terminating, group := s.group.terminate }
    | .communicating, some code =>
      some { s with phase := .returned (ScheduleExecutor.statusOf true code) code true }
    | _, _ => none
  | .waited =>
    match s.phase, s.returncode with
    | .terminating, some code | .killing, some code =>
      some { s with phase := .returned (ScheduleExecutor.statusOf true code) code true }
    | .closing, some _ | .cancelling, some _ => some { s with phase := .raised }
    | _, _ => none
  | .waitTimeout =>
    match s.phase with
    | .terminating => some { s with phase := .killing, group := s.group.kill }
    | _ => none
  | .cancel =>
    match s.phase with
    | .starting => some { s with phase := .closing, group := s.group.killLeader }
    | .communicating | .terminating | .killing => some s.handleCancel
    | .closing | .cancelling => some { s with phase := .raised }
    | .returned _ _ _ | .raised => none

/-- `_run_one` has returned or raised. -/
def Finished (s : RunOne) : Prop := s.phase.isEnd = true

instance (s : RunOne) : Decidable s.Finished := inferInstanceAs (Decidable (_ = true))

/-- The group was sent SIGKILL. -/
def Killed (s : RunOne) : Prop := s.phase = .killing ∨ s.phase = .cancelling

/-! ## What a step does -/

/-- The effects that a step can have. -/
inductive Effect (s : RunOne) : RunOneAction → RunOne → Prop where
  | process {pid : ℕ} {deed : Deed} {group : ProcessGroup} (h : s.group.act pid deed = some group) :
    Effect s (.process pid deed) { s with group := group }
  | noticed {code : ℤ} (h : s.group.status = some code) :
    Effect s .noticed { s with returncode := some code }
  | started (h : s.phase = .starting) : Effect s .started { s with phase := .communicating }
  | completed {code : ℤ} (hcode : s.returncode = some code) (hclosed : s.group.PipesClosed) :
    Effect s .communicated
      { s with phase := .returned (ScheduleExecutor.statusOf false code) code false }
  | terminated (h : s.phase = .communicating) :
    Effect s .timeout { s with phase := .terminating, group := s.group.terminate }
  | timedOut {code : ℤ} (hcode : s.returncode = some code) :
    Effect s .timeout { s with phase := .returned (ScheduleExecutor.statusOf true code) code true }
  | waited {code : ℤ} (hphase : s.phase = .terminating ∨ s.phase = .killing)
      (hcode : s.returncode = some code) :
    Effect s .waited { s with phase := .returned (ScheduleExecutor.statusOf true code) code true }
  | waitedRaised {code : ℤ} (hphase : s.phase = .closing ∨ s.phase = .cancelling)
      (hcode : s.returncode = some code) : Effect s .waited { s with phase := .raised }
  | killed (h : s.phase = .terminating) :
    Effect s .waitTimeout { s with phase := .killing, group := s.group.kill }
  | closed (h : s.phase = .starting) :
    Effect s .cancel { s with phase := .closing, group := s.group.killLeader }
  | cancelled : Effect s .cancel { s with phase := .cancelling, group := s.group.kill }
  | raised {code : ℤ} (hcode : s.returncode = some code) :
    Effect s .cancel { s with phase := .raised }
  | raisedAgain (h : s.phase = .closing ∨ s.phase = .cancelling) :
    Effect s .cancel { s with phase := .raised }

variable {s t u : RunOne} {a : RunOneAction} {pid : ℕ} {ls : List RunOneAction}

/-- A cancellation while `process` is waited for has one of two effects. -/
theorem effect_handleCancel (s : RunOne) : Effect s .cancel s.handleCancel := by
  unfold handleCancel
  split
  · exact .cancelled
  · rename_i hcode
    exact .raised hcode

theorem effect_of_step (h : step s a = some t) : Effect s a t := by
  cases a with
  | process pid deed =>
    obtain ⟨group, hgroup, rfl⟩ := Option.map_eq_some_iff.mp h
    exact .process hgroup
  | noticed =>
    dsimp only [step] at h
    split at h
    · rename_i hstatus
      obtain rfl := Option.some.inj h
      exact .noticed hstatus
    · cases h
  | started =>
    dsimp only [step] at h
    split at h
    · rename_i hphase
      obtain rfl := Option.some.inj h
      exact .started hphase
    · cases h
  | communicated =>
    dsimp only [step] at h
    split at h
    · rename_i hcode
      split at h
      · rename_i hclosed
        obtain rfl := Option.some.inj h
        exact .completed hcode hclosed
      · cases h
    · cases h
  | timeout =>
    dsimp only [step] at h
    split at h
    · rename_i hphase _
      obtain rfl := Option.some.inj h
      exact .terminated hphase
    · rename_i hcode
      obtain rfl := Option.some.inj h
      exact .timedOut hcode
    · cases h
  | waited =>
    dsimp only [step] at h
    split at h
    · rename_i hphase hcode
      obtain rfl := Option.some.inj h
      exact .waited (.inl hphase) hcode
    · rename_i hphase hcode
      obtain rfl := Option.some.inj h
      exact .waited (.inr hphase) hcode
    · rename_i hphase hcode
      obtain rfl := Option.some.inj h
      exact .waitedRaised (.inl hphase) hcode
    · rename_i hphase hcode
      obtain rfl := Option.some.inj h
      exact .waitedRaised (.inr hphase) hcode
    · cases h
  | waitTimeout =>
    dsimp only [step] at h
    split at h
    · rename_i hphase
      obtain rfl := Option.some.inj h
      exact .killed hphase
    · cases h
  | cancel =>
    dsimp only [step] at h
    split at h
    · rename_i hphase
      obtain rfl := Option.some.inj h
      exact .closed hphase
    · obtain rfl := Option.some.inj h
      exact effect_handleCancel s
    · obtain rfl := Option.some.inj h
      exact effect_handleCancel s
    · obtain rfl := Option.some.inj h
      exact effect_handleCancel s
    · rename_i hphase
      obtain rfl := Option.some.inj h
      exact .raisedAgain (.inl hphase)
    · rename_i hphase
      obtain rfl := Option.some.inj h
      exact .raisedAgain (.inr hphase)
    · cases h
    · cases h

/-! ## What holds in every run -/

/-- The return code is the leader's status, a killed group is deserted, and the leader is dead when
`_run_one` has come to its end, or is about to after `create_subprocess_exec` was cancelled. -/
structure Sound (s : RunOne) : Prop where
  coherent : s.group.Coherent
  status_eq : ∀ code, s.returncode = some code → s.group.status = some code
  deserted : s.Killed → s.group.Deserted
  leader_ended : s.phase = .closing ∨ s.Finished → s.group.status ≠ none

theorem sound_init (pid : ℕ) : (init pid).Sound where
  coherent := ProcessGroup.coherent_start pid
  status_eq := fun _ h => by cases h
  deserted := fun h => by rcases h with h | h <;> cases h
  leader_ended := fun h => by
    rcases h with h | h
    · cases h
    · cases h

/-- `_run_one` gets somewhere else. -/
theorem Sound.goto (hs : s.Sound) {phase : RunOnePhase}
    (hdeserted : phase = .killing ∨ phase = .cancelling → s.group.Deserted)
    (hended : phase = .closing ∨ ({ s with phase := phase } : RunOne).Finished →
      s.group.status ≠ none) : Sound { s with phase := phase } :=
  ⟨hs.coherent, hs.status_eq, hdeserted, hended⟩

/-- `_run_one` gets somewhere else with a signal. -/
theorem Sound.signal (hs : s.Sound) {phase : RunOnePhase} (stays : Process → Bool) (code : ℤ)
    (hdeserted : phase = .killing ∨ phase = .cancelling → (s.group.keep stays code).Deserted)
    (hended : phase = .closing ∨ ({ s with phase := phase } : RunOne).Finished →
      (s.group.keep stays code).status ≠ none) :
    Sound { s with phase := phase, group := s.group.keep stays code } :=
  ⟨hs.coherent.keep stays code,
    fun c hc => ProcessGroup.status_keep_of_eq_some (hs.status_eq c hc) stays code,
    hdeserted, hended⟩

theorem Sound.status_ne_none (hs : s.Sound) {code : ℤ} (h : s.returncode = some code) :
    s.group.status ≠ none := by
  rw [hs.status_eq code h]
  exact Option.some_ne_none code

/-- **Every step keeps a run sound.** -/
theorem Sound.of_step (hs : s.Sound) (h : step s a = some t) : t.Sound := by
  cases effect_of_step h with
  | process hact =>
    refine ⟨hs.coherent.of_act hact,
      fun code hcode => ProcessGroup.status_of_act (hs.status_eq code hcode) hact,
      fun hkilled => (hs.deserted hkilled).of_act hact, fun hended => ?_⟩
    obtain ⟨code, hcode⟩ := Option.ne_none_iff_exists'.mp (hs.leader_ended hended)
    rw [ProcessGroup.status_of_act hcode hact]
    exact Option.some_ne_none code
  | noticed hstatus =>
    exact ⟨hs.coherent, fun code hcode => hstatus.trans hcode, hs.deserted, hs.leader_ended⟩
  | started hphase => exact hs.goto (by simp) (by simp [Finished, RunOnePhase.isEnd])
  | completed hcode hclosed => exact hs.goto (by simp) fun _ => hs.status_ne_none hcode
  | terminated hphase => exact hs.signal _ _ (by simp) (by simp [Finished, RunOnePhase.isEnd])
  | timedOut hcode => exact hs.goto (by simp) fun _ => hs.status_ne_none hcode
  | waited hphase hcode => exact hs.goto (by simp) fun _ => hs.status_ne_none hcode
  | waitedRaised hphase hcode => exact hs.goto (by simp) fun _ => hs.status_ne_none hcode
  | killed hphase =>
    exact hs.signal _ _ (fun _ => ProcessGroup.deserted_kill s.group)
      (by simp [Finished, RunOnePhase.isEnd])
  | closed hphase => exact hs.signal _ _ (by simp) fun _ => hs.coherent.status_killLeader
  | cancelled =>
    exact hs.signal _ _ (fun _ => ProcessGroup.deserted_kill s.group)
      (by simp [Finished, RunOnePhase.isEnd])
  | raised hcode => exact hs.goto (by simp) fun _ => hs.status_ne_none hcode
  | raisedAgain hphase =>
    refine hs.goto (by simp) fun _ => ?_
    rcases hphase with hphase | hphase
    · exact hs.leader_ended (.inl hphase)
    · exact hs.coherent.status_ne_none (hs.deserted (.inr hphase))

/-- A run is sound wherever it gets. -/
theorem Sound.of_run (hs : s.Sound) (h : runFrom step s ls = some t) : t.Sound :=
  invariant_of_steps (fun hstep hI => hI.of_step hstep) h hs

/-- A deserted group stays deserted, whatever `_run_one` does. -/
theorem deserted_of_step (h : step s a = some t) (hs : s.group.Deserted) : t.group.Deserted := by
  cases effect_of_step h with
  | process hact => exact hs.of_act hact
  | noticed | started | completed | timedOut | waited | waitedRaised | raised | raisedAgain =>
    exact hs
  | terminated | killed | closed | cancelled => exact hs.keep _ _

/-! ## Who is left alive -/

/-- The leader is dead on every way out of `_run_one`. -/
theorem leader_not_alive (h : runFrom step (init pid) ls = some s) (hs : s.Finished) :
    ∀ p ∈ s.group.living, p.pid ≠ s.group.leader := by
  have hsound : s.Sound := (sound_init pid).of_run h
  intro p hp hpid
  exact hsound.leader_ended (.inr hs) (hsound.coherent.status_iff.mpr ⟨p, hp, hpid⟩)

theorem exists_step_waited (hs : s.Killed) {code : ℤ} (hcode : s.returncode = some code) :
    ∃ t, step s .waited = some t ∧ t.Finished := by
  rcases hs with hphase | hphase
  · exact ⟨{ s with phase := .returned (ScheduleExecutor.statusOf true code) code true },
      by rw [step, hphase, hcode], rfl⟩
  · exact ⟨{ s with phase := .raised }, by rw [step, hphase, hcode], rfl⟩

/-- **After SIGKILL nothing keeps `_run_one` from its end**: the event loop notices that the leader
is dead, and the wait is over. -/
theorem exists_finish_of_killed (h : runFrom step (init pid) ls = some s) (hkilled : s.Killed) :
    ∃ later t, runFrom step s later = some t ∧ t.Finished := by
  have hs : s.Sound := (sound_init pid).of_run h
  rcases hcode : s.returncode with _ | code
  · obtain ⟨code, hstatus⟩ := Option.ne_none_iff_exists'.mp
      (hs.coherent.status_ne_none (hs.deserted hkilled))
    have hnoticed : step s .noticed = some { s with returncode := some code } := by
      rw [step, hcode, hstatus]
    obtain ⟨t, hwaited, ht⟩ := @exists_step_waited { s with returncode := some code } hkilled _ rfl
    exact ⟨[.noticed, .waited], t,
      runFrom_cons.mpr ⟨_, hnoticed, runFrom_cons.mpr ⟨t, hwaited, rfl⟩⟩, ht⟩
  · obtain ⟨t, hwaited, ht⟩ := exists_step_waited hkilled hcode
    exact ⟨[.waited], t, runFrom_cons.mpr ⟨t, hwaited, rfl⟩, ht⟩

/-- With this step `_run_one` comes to its end and leaves the process to itself. -/
def Overlooks (s : RunOne) (p : Process) : RunOneAction → Prop
  -- the process has detached from the pipes
  | .communicated => p.holdsPipes = false
  -- no signal is sent as the end of the leader has been noticed
  | .timeout => s.returncode ≠ none
  -- the leader ended on SIGTERM, or was killed alone
  | .waited => s.phase = .terminating ∨ s.phase = .closing
  -- no signal is sent as the end of the leader has been noticed, or as `process` is `None`
  | .cancel => s.returncode ≠ none ∨ s.phase = .closing
  | _ => False

/-- If a step overlooks everybody, who is overlooked is who is alive. -/
theorem deserted_iff_of_overlooks (h : ∀ p ∈ s.group.living, s.Overlooks p a) :
    s.group.Deserted ↔ ∀ p ∈ s.group.living, p.inGroup = true → ¬ s.Overlooks p a := by
  refine ⟨fun hdeserted p hp hgroup => ?_, fun hnone p hp => ?_⟩
  · rw [hdeserted p hp] at hgroup
    cases hgroup
  · by_contra hgroup
    exact hnone p hp (Bool.not_eq_false _ ▸ hgroup) (h p hp)

/-- Nobody is overlooked in a deserted group. -/
theorem iff_of_deserted (h : s.group.Deserted) :
    s.group.Deserted ↔ ∀ p ∈ s.group.living, p.inGroup = true → ¬ s.Overlooks p a := by
  refine iff_of_true h fun p hp hgroup => ?_
  rw [h p hp] at hgroup
  cases hgroup

/-- **No process of the group is alive when `_run_one` returns or raises, and none ever after,
exactly if its last step overlooks no living process of the group.** -/
theorem noneSurvives_iff (h : runFrom step (init pid) ls = some s) (hs : ¬ s.Finished)
    (hlast : step s a = some t) (ht : t.Finished) :
    (∀ later u, runFrom step t later = some u → u.group.Deserted) ↔
      ∀ p ∈ s.group.living, p.inGroup = true → ¬ s.Overlooks p a := by
  have hsound : s.Sound := (sound_init pid).of_run h
  have hstays : (∀ later u, runFrom step t later = some u → u.group.Deserted) ↔
      t.group.Deserted := by
    refine ⟨fun hlater => hlater [] t rfl, fun hdeserted later u hrun => ?_⟩
    exact @invariant_of_steps _ _ step (fun s => s.group.Deserted) deserted_of_step _ _ _ hrun
      hdeserted
  rw [hstays]
  have hnoticed : ∀ {code : ℤ}, s.returncode = some code → s.returncode ≠ none := by
    intro code hcode
    rw [hcode]
    exact Option.some_ne_none code
  cases effect_of_step hlast with
  | process | noticed => exact absurd ht hs
  | started | terminated | killed | closed | cancelled => cases ht
  | completed hcode hclosed =>
    -- whoever is alive has detached, as the pipes are closed
    have hall : ∀ p ∈ s.group.living, s.Overlooks p .communicated := fun p hp => hclosed p hp
    exact deserted_iff_of_overlooks hall
  | timedOut hcode =>
    have hall : ∀ p ∈ s.group.living, s.Overlooks p .timeout := fun _ _ => hnoticed hcode
    exact deserted_iff_of_overlooks hall
  | waited hphase hcode =>
    rcases hphase with hphase | hphase
    · have hall : ∀ p ∈ s.group.living, s.Overlooks p .waited := fun _ _ => .inl hphase
      exact deserted_iff_of_overlooks hall
    · exact iff_of_deserted (hsound.deserted (.inl hphase))
  | waitedRaised hphase hcode =>
    rcases hphase with hphase | hphase
    · have hall : ∀ p ∈ s.group.living, s.Overlooks p .waited := fun _ _ => .inr hphase
      exact deserted_iff_of_overlooks hall
    · exact iff_of_deserted (hsound.deserted (.inr hphase))
  | raised hcode =>
    have hall : ∀ p ∈ s.group.living, s.Overlooks p .cancel := fun _ _ => .inl (hnoticed hcode)
    exact deserted_iff_of_overlooks hall
  | raisedAgain hphase =>
    rcases hphase with hphase | hphase
    · have hall : ∀ p ∈ s.group.living, s.Overlooks p .cancel := fun _ _ => .inr hphase
      exact deserted_iff_of_overlooks hall
    · exact iff_of_deserted (hsound.deserted (.inr hphase))

/-- A test forks a process and ignores SIGTERM, as the process does. Both get SIGKILL. -/
def stubbornRun : List RunOneAction :=
  [.started, .process 1 (.setTerm true), .process 1 (.fork 2), .timeout, .waitTimeout, .noticed]

theorem noneSurvives_iff_stubborn :
    runFrom step (init 1) stubbornRun = some ⟨.killing, ⟨1, [], some (-9)⟩, some (-9)⟩ ∧
      ∀ later u,
        runFrom step ⟨.returned .timedOut (-9) true, ⟨1, [], some (-9)⟩, some (-9)⟩ later = some u →
          u.group.Deserted :=
  ⟨by decide, (@noneSurvives_iff ⟨.killing, ⟨1, [], some (-9)⟩, some (-9)⟩ _ .waited 1 stubbornRun
    (by decide) (by decide) (by decide) (by decide)).mpr fun p hp => absurd hp List.not_mem_nil⟩

/-- A test passes and leaves a server behind that has redirected its output. -/
def serverRun : List RunOneAction :=
  [.started, .process 1 (.fork 2), .process 2 .closePipes, .process 1 (.exit 0), .noticed,
    .communicated]

/-- A test has a child that ignores SIGTERM, and times out. -/
def deafRun : List RunOneAction :=
  [.started, .process 1 (.fork 2), .process 2 (.setTerm true), .timeout, .noticed, .waited]

/-- The server and the child are alive when `_run_one` has returned. -/
theorem not_deserted_serverRun :
    (∃ s, runFrom step (init 1) serverRun = some s ∧ s.phase = .returned .passed 0 false ∧
      ¬ s.group.Deserted) ∧
    ∃ s, runFrom step (init 1) deafRun = some s ∧ s.phase = .returned .timedOut (-15) true ∧
      ¬ s.group.Deserted :=
  ⟨⟨_, rfl, by decide, by decide⟩, ⟨_, rfl, by decide, by decide⟩⟩

end RunOne

end ConflictGraph.Py
