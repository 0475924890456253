import ConflictGraph.EbpfProgram

/-!
# The programs on several CPUs

However the hits of the tracepoints interleave, a thread's records depend on its own hits
alone: the entry of `ENTER_EVENTS` that a program reads and writes is the thread's, and an
`openat` submits at its exit what its entry filed. So what the ring buffer has of a thread is
what that thread's hits make one after the other (`events_of_thread`).

A record that finds no room is counted in `DROPPED`. Every record that is submitted is in the
ring buffer or refused, and the count is never too high; it is right exactly if no record is
refused while a CPU has still to write an earlier count back (`dropped_value_eq_iff`).
-/

namespace ConflictGraph.Ebpf

open Rust

/-! ## One thread -/

/-- What a hit leaves of the event that its thread has filed, and what it submits. -/
def Hit.own (h : Hit) (kept : Option KernelRecord) : Option KernelRecord × Option KernelRecord :=
  match h.tracepoint with
  | .sysEnterOpenat => (if h.stored then h.tryOpenat <|> kept else kept, none)
  | .sysExitOpenat => (none, (kept.map h.exitOpenat).filter fun event => 0 ≤ event.result)
  | _ => (kept, (h.program .empty).2)

/-- The records of the hits of one thread that find room, when `kept` has been filed. -/
def ownRecords : Option KernelRecord → List Hit → List KernelRecord
  | _, [] => []
  | kept, h :: rest =>
    ((h.own kept).2.filter fun _ => h.room).toList ++ ownRecords (h.own kept).1 rest

/-- The hits of a thread, in the order of the run. -/
def hitsOf (actions : List Action) (thread : UInt64) : List Hit :=
  (actions.filterMap Action.hit?).filter (·.pidTgid = thread)

/-- The submitted records of a thread, in the order of the ring buffer. -/
def Kernel.eventsOf (s : Kernel) (thread : UInt64) : List KernelRecord :=
  s.events.filter (IsOf · thread)

/-- What is filed under a thread was made by it. -/
def Kernel.Stamped (s : Kernel) : Prop :=
  ∀ thread event, s.enterEvents thread = some event → IsOf event thread ∧ Formed event

/-- A record is of one thread. -/
theorem IsOf.unique {event : KernelRecord} {thread thread' : UInt64} (h : IsOf event thread)
    (h' : IsOf event thread') : thread = thread' := by
  have hpid := congrArg UInt32.toNat (h.1.symm.trans h'.1)
  have htid := congrArg UInt32.toNat (h.2.symm.trans h'.2)
  simp only [UInt64.toNat_toUInt32, UInt64.toNat_shiftRight, UInt64.reduceToNat, Nat.reduceMod,
    Nat.shiftRight_eq_div_pow] at hpid htid
  have := thread.toNat_lt
  have := thread'.toNat_lt
  refine UInt64.toNat_inj.mp ?_
  omega

section Program

variable {h : Hit} {m : PartialMap UInt64 KernelRecord}

/-- A program submits what the thread's own entry makes it submit, and changes no other. -/
theorem program_eq_own :
    (h.program m).2 = (h.own (m h.pidTgid)).2 ∧
      (h.program m).1 h.pidTgid = (h.own (m h.pidTgid)).1 ∧
      ∀ thread, thread ≠ h.pidTgid → (h.program m).1 thread = m thread := by
  rcases htracepoint : h.tracepoint
  case sysEnterOpenat =>
    simp only [Hit.program, Hit.own, htracepoint]
    rcases h.tryOpenat with _ | event
    · exact ⟨rfl, (ite_self _).symm, fun _ _ => rfl⟩
    · rcases h.stored
      · exact ⟨rfl, rfl, fun _ _ => rfl⟩
      · exact ⟨rfl, PartialMap.insert_self .., fun _ hne => PartialMap.insert_of_ne _ _ hne⟩
  case sysExitOpenat =>
    simp only [Hit.program, Hit.own, htracepoint]
    rcases hkept : m h.pidTgid with _ | event
    · exact ⟨rfl, hkept, fun _ _ => rfl⟩
    · refine ⟨?_, PartialMap.remove_self .., fun _ hne => PartialMap.remove_of_ne _ hne⟩
      simp only [Option.map_some, Option.filter_some, decide_eq_true_eq]
  all_goals simp [Hit.program, Hit.own, htracepoint]

/-- What is submitted was made by the thread, if what it has filed was. -/
theorem own_submitted {kept : Option KernelRecord}
    (hkept : ∀ event ∈ kept, IsOf event h.pidTgid ∧ Formed event) :
    ∀ event ∈ (h.own kept).2, IsOf event h.pidTgid ∧ Formed event := by
  intro event hevent
  rcases h.program_cases with ⟨htracepoint, -⟩ | htracepoint | ⟨submitted, hmakes, hprogram⟩
  · simp only [Hit.own, htracepoint] at hevent
    cases hevent
  · simp only [Hit.own, htracepoint, Option.mem_def, Option.filter_eq_some_iff,
      Option.map_eq_some_iff] at hevent
    obtain ⟨⟨stored, hstored, rfl⟩, -⟩ := hevent
    obtain ⟨hisOf, hformed⟩ := hkept stored hstored
    exact ⟨hisOf, { hformed with }⟩
  · have hown := (@program_eq_own h (fun _ => kept)).1
    rw [hprogram] at hown
    exact hmakes event (hown.trans hevent)

/-- What the map holds for a thread is always of the thread. -/
theorem own_kept {kept : Option KernelRecord}
    (hkept : ∀ event ∈ kept, IsOf event h.pidTgid ∧ Formed event) :
    ∀ event ∈ (h.own kept).1, IsOf event h.pidTgid ∧ Formed event := by
  intro event hevent
  rw [← (@program_eq_own h (fun _ => kept)).2.1] at hevent
  rcases h.program_cases with ⟨-, -, filed, -, hmakes, hprogram⟩ | htracepoint |
      ⟨submitted, -, hprogram⟩
  · rw [hprogram] at hevent
    have hfiled : PartialMap.insert (fun _ => kept) h.pidTgid filed h.pidTgid = some event := hevent
    rw [PartialMap.insert_self] at hfiled
    obtain rfl := Option.some.inj hfiled
    exact hmakes
  · rw [(@program_eq_own h (fun _ => kept)).2.1] at hevent
    simp only [Hit.own, htracepoint] at hevent
    cases hevent
  · rw [hprogram] at hevent
    exact hkept event hevent

end Program

namespace Kernel

variable {s t : Kernel} {h : Hit} {a : Action} {thread : UInt64}

/-- What a hit submits. -/
def submitted (s : Kernel) (h : Hit) : Option KernelRecord := (h.program s.enterEvents).2

theorem hit_enterEvents : (s.hit h).enterEvents = (h.program s.enterEvents).1 := by
  rw [hit]
  rcases h.program s.enterEvents with ⟨m, _ | event⟩
  · rfl
  · simp only [submit]
    split <;> rfl

theorem hit_events :
    (s.hit h).events = s.events ++ ((s.submitted h).filter fun _ => h.room).toList := by
  rw [hit, submitted]
  rcases h.program s.enterEvents with ⟨m, _ | event⟩
  · exact (List.append_nil _).symm
  · rcases hroom : h.room
    · simp [submit, hroom]
    · simp [submit, hroom, Option.filter]

/-- A record that finds no room is counted on the CPU that refuses it. -/
theorem hit_dropped : (s.hit h).dropped =
    if (s.submitted h).isSome ∧ h.room = false then s.dropped.read h.cpu else s.dropped := by
  rw [hit, submitted]
  rcases h.program s.enterEvents with ⟨m, _ | event⟩
  · rfl
  · rcases hroom : h.room
    · simp [submit, hroom]
    · simp [submit, hroom]

/-- The three kinds of steps. -/
theorem step_cases (hstep : s.step a = some t) :
    (∃ h, a = .hit h ∧ s.dropped.pending? h.cpu = none ∧ t = s.hit h) ∨
    (∃ cpu seen, a = .write cpu ∧ s.dropped.pending? cpu = some seen ∧
      t = { s with dropped := s.dropped.write cpu seen }) ∨
    (a = .poll ∧ t = { s with
      reported := s.reported + (s.dropped.value - s.lastDropped)
      lastDropped := s.dropped.value }) := by
  cases a with
  | hit h =>
    simp only [step, Option.ite_none_left_eq_some, Option.some.injEq] at hstep
    exact .inl ⟨h, rfl, Option.not_isSome_iff_eq_none.mp hstep.1, hstep.2.symm⟩
  | write cpu =>
    simp only [step, SharedCounter.step, Option.map_map, Option.map_eq_some_iff] at hstep
    obtain ⟨seen, hseen, rfl⟩ := hstep
    exact .inr (.inl ⟨cpu, seen, rfl, hseen, rfl⟩)
  | poll =>
    obtain rfl := Option.some.inj hstep
    exact .inr (.inr ⟨rfl, rfl⟩)

theorem stamped_hit (hs : s.Stamped) : (s.hit h).Stamped := by
  intro thread event hevent
  rw [hit_enterEvents] at hevent
  by_cases hthread : thread = h.pidTgid
  · subst hthread
    rw [program_eq_own.2.1] at hevent
    exact own_kept (fun event => hs _ event) event hevent
  · rw [program_eq_own.2.2 thread hthread] at hevent
    exact hs _ _ hevent

/-- So does every step. -/
theorem stamped_step (hstep : s.step a = some t) (hs : s.Stamped) : t.Stamped := by
  rcases step_cases hstep with ⟨h, -, -, rfl⟩ | ⟨cpu, seen, -, -, rfl⟩ | ⟨-, rfl⟩
  · exact stamped_hit hs
  · exact hs
  · exact hs

/-- A hit adds to the records of its own thread. -/
theorem eventsOf_hit_self (hs : s.Stamped) :
    (s.hit h).eventsOf h.pidTgid = s.eventsOf h.pidTgid ++
      ((h.own (s.enterEvents h.pidTgid)).2.filter fun _ => h.room).toList := by
  rw [eventsOf, hit_events, List.filter_append, submitted, program_eq_own.1]
  refine congrArg _ (List.filter_eq_self.mpr fun event hevent => ?_)
  rw [Option.mem_toList, Option.filter_eq_some_iff] at hevent
  exact decide_eq_true (own_submitted (fun event => hs _ event) event hevent.1).1

/-- A program adds no record to another thread's. -/
theorem eventsOf_hit_of_ne (hs : s.Stamped) (hne : h.pidTgid ≠ thread) :
    (s.hit h).eventsOf thread = s.eventsOf thread := by
  rw [eventsOf, hit_events, List.filter_append, submitted, program_eq_own.1]
  refine (congrArg _ (List.filter_eq_nil_iff.mpr fun event hevent => ?_)).trans (List.append_nil _)
  rw [Option.mem_toList, Option.filter_eq_some_iff] at hevent
  refine fun hisOf => hne ?_
  exact (own_submitted (fun event => hs _ event) event hevent.1).1.unique (of_decide_eq_true hisOf)

end Kernel

/-- The records of a thread after a run, from any state. -/
theorem eventsOf_run {actions : List Action} {thread : UInt64} :
    ∀ {s t : Kernel}, runFrom Kernel.step s actions = some t → s.Stamped →
      t.eventsOf thread =
        s.eventsOf thread ++ ownRecords (s.enterEvents thread) (hitsOf actions thread) := by
  induction actions with
  | nil =>
    intro s t hrun _
    obtain rfl := Option.some.inj hrun
    exact (List.append_nil _).symm
  | cons a rest ih =>
    intro s t hrun hs
    obtain ⟨m, hstep, hrest⟩ := runFrom_cons.mp hrun
    rw [ih hrest (Kernel.stamped_step hstep hs)]
    rcases Kernel.step_cases hstep with ⟨h, rfl, -, rfl⟩ | ⟨cpu, seen, rfl, -, rfl⟩ | ⟨rfl, rfl⟩
    · rw [Kernel.hit_enterEvents]
      by_cases hthread : h.pidTgid = thread
      · subst hthread
        have hhits : hitsOf (.hit h :: rest) h.pidTgid = h :: hitsOf rest h.pidTgid :=
          List.filter_cons_of_pos (decide_eq_true rfl)
        rw [Kernel.eventsOf_hit_self hs, program_eq_own.2.1, hhits, ownRecords, List.append_assoc]
      · have hhits : hitsOf (.hit h :: rest) thread = hitsOf rest thread :=
          List.filter_cons_of_neg (by simpa using hthread)
        rw [Kernel.eventsOf_hit_of_ne hs hthread, program_eq_own.2.2 thread (Ne.symm hthread),
          hhits]
    · rfl
    · rfl

theorem Kernel.stamped_empty : ({} : Kernel).Stamped := fun _ _ h => nomatch h

/-- **Threads do not disturb each other.** In every interleaving of the programs, the ring
buffer has of a thread the records that its own hits make, in their order, as far as they
found room. -/
theorem events_of_thread {actions : List Action} {s : Kernel}
    (hrun : runFrom Kernel.step {} actions = some s) (thread : UInt64) :
    s.eventsOf thread = ownRecords none (hitsOf actions thread) :=
  eventsOf_run hrun Kernel.stamped_empty

/-- The end of the last thread of a process. -/
def processExit (cpu : ℕ) (pidTgid : UInt64) (room : Bool) : Hit where
  cpu
  tracepoint := .schedProcessExit
  pidTgid
  cgroupID := 5
  now := 0
  ctx := []
  memory := fun _ => none
  stored := true
  room

/-- Two processes end at the same time. -/
theorem events_of_thread_two :
    ∃ s, runFrom Kernel.step {} [.hit (processExit 0 0x700000007 true),
        .hit (processExit 1 0x800000008 true)] = some s ∧
      s.eventsOf 0x700000007 = ownRecords none (hitsOf [.hit (processExit 0 0x700000007 true),
        .hit (processExit 1 0x800000008 true)] 0x700000007) :=
  ⟨_, rfl, events_of_thread rfl 0x700000007⟩

/-! ## The count of what is dropped -/

/-- A hit submits a record for which there is no room. -/
def Kernel.refuses (s : Kernel) (h : Hit) : Bool := (s.submitted h).isSome && !h.room

/-- How many records a run submits. -/
def submissions (visited : List (Kernel × Action)) : ℕ :=
  visited.countP fun visit => visit.2.hit?.any fun h => (visit.1.submitted h).isSome

/-- How many of them find no room. -/
def refusals (visited : List (Kernel × Action)) : ℕ :=
  visited.countP fun visit => visit.2.hit?.any visit.1.refuses

/-- No record is refused while a CPU has still to write an earlier count back. -/
def RefusesAlone (visited : List (Kernel × Action)) : Prop :=
  ∀ visit ∈ visited, visit.2.hit?.any visit.1.refuses = true → visit.1.dropped.reads = []

instance (visited : List (Kernel × Action)) : Decidable (RefusesAlone visited) :=
  inferInstanceAs (Decidable (∀ visit ∈ visited, _))

/-- What an action is for the counter. -/
def counted? (visit : Kernel × Action) : Option (SharedCounter ℕ × CounterAction ℕ) :=
  match visit.2 with
  | .hit h => if visit.1.refuses h then some (visit.1.dropped, .read h.cpu) else none
  | .write cpu => some (visit.1.dropped, .write cpu)
  | .poll => none

theorem isRead_counted {visit : Kernel × Action} :
    ((counted? visit).map (·.2.isRead)).getD false = visit.2.hit?.any visit.1.refuses := by
  rcases visit with ⟨s, h | cpu | -⟩
  · rcases hrefuses : s.refuses h
    · simp [counted?, Action.hit?, hrefuses]
    · simp [counted?, Action.hit?, hrefuses, CounterAction.isRead]
  · rfl
  · rfl

theorem eq_dropped_of_counted {visit : Kernel × Action}
    {counted : SharedCounter ℕ × CounterAction ℕ} (h : counted? visit = some counted) :
    counted.1 = visit.1.dropped ∧ counted.2.isRead = visit.2.hit?.any visit.1.refuses := by
  refine ⟨?_, by rw [← isRead_counted, h]; rfl⟩
  rcases visit with ⟨s, h' | cpu | -⟩
  · rcases hrefuses : s.refuses h'
    · simp [counted?, hrefuses] at h
    · simp only [counted?, hrefuses, if_true, Option.some.injEq] at h
      rw [← h]
  · rw [← Option.some.inj h]
  · cases h

/-- The counter is begun once for each refusal. -/
theorem begun_counted (visited : List (Kernel × Action)) :
    SharedCounter.begun (visited.filterMap counted?) = refusals visited := by
  rw [SharedCounter.begun, List.countP_filterMap, refusals]
  exact congrArg (List.countP · visited) (funext fun visit => isRead_counted)

/-- Nobody else counts meanwhile, in either sense. -/
theorem alone_counted {visited : List (Kernel × Action)} :
    SharedCounter.Alone (visited.filterMap counted?) ↔ RefusesAlone visited := by
  simp only [SharedCounter.Alone, List.mem_filterMap, forall_exists_index, and_imp]
  refine ⟨fun h visit hvisit hrefuses => ?_, fun h counted visit hvisit hcounted hread => ?_⟩
  · rcases hcounted : counted? visit with _ | counted
    · rw [← isRead_counted, hcounted] at hrefuses
      cases hrefuses
    · obtain ⟨hdropped, hread⟩ := eq_dropped_of_counted hcounted
      rw [← hdropped]
      exact h counted visit hvisit hcounted (hread.trans hrefuses)
  · obtain ⟨hdropped, hisRead⟩ := eq_dropped_of_counted hcounted
    rw [hdropped]
    exact h visit hvisit (hisRead.symm.trans hread)

/-- What the kernel's history says of its counter, and where the submitted records are. -/
structure Accounted (visited : List (Kernel × Action)) (s : Kernel) : Prop where
  known : SharedCounter.Known (visited.filterMap counted?) s.dropped
  records : s.events.length + refusals visited = submissions visited
  /-- as long as nothing is missed the count only grows -/
  reported : RefusesAlone visited →
    s.reported = s.lastDropped ∧ s.lastDropped ≤ s.dropped.value

theorem refusals_concat (visited : List (Kernel × Action)) (visit : Kernel × Action) :
    refusals (visited ++ [visit]) =
      refusals visited + (visit.2.hit?.any visit.1.refuses).toNat := by
  rw [refusals, List.countP_append, List.countP_singleton, refusals]
  rcases visit.2.hit?.any visit.1.refuses <;> rfl

theorem submissions_concat (visited : List (Kernel × Action)) (visit : Kernel × Action) :
    submissions (visited ++ [visit]) =
      submissions visited + (visit.2.hit?.any fun h => (visit.1.submitted h).isSome).toNat := by
  rw [submissions, List.countP_append, List.countP_singleton, submissions]
  rcases visit.2.hit?.any fun h => (visit.1.submitted h).isSome <;> rfl

theorem refusesAlone_concat {visited : List (Kernel × Action)} {visit : Kernel × Action} :
    RefusesAlone (visited ++ [visit]) ↔ RefusesAlone visited ∧
      (visit.2.hit?.any visit.1.refuses = true → visit.1.dropped.reads = []) := by
  simp only [RefusesAlone, List.forall_mem_append, List.forall_mem_singleton]

/-- One record more is submitted, and it is in the ring buffer or refused. -/
theorem records_hit (s : Kernel) (h : Hit) :
    (s.hit h).events.length + (s.refuses h).toNat =
      s.events.length + (s.submitted h).isSome.toNat := by
  rw [Kernel.hit_events, List.length_append, Kernel.refuses]
  rcases s.submitted h with _ | event
  · rfl
  · rcases h.room <;> rfl

/-- The step lemma of the accounts. -/
theorem Accounted.step {visited : List (Kernel × Action)} {s t : Kernel} {a : Action}
    (hstep : s.step a = some t) (h : Accounted visited s) : Accounted (visited ++ [(s, a)]) t := by
  rcases Kernel.step_cases hstep with ⟨hit, rfl, hnone, rfl⟩ | ⟨cpu, seen, rfl, hseen, rfl⟩ |
      ⟨rfl, rfl⟩
  · have hkeeps : (s.hit hit).reported = s.reported ∧ (s.hit hit).lastDropped = s.lastDropped := by
      rw [Kernel.hit]
      rcases hit.program s.enterEvents with ⟨m, _ | event⟩
      · exact ⟨rfl, rfl⟩
      · simp only [Kernel.submit]
        split <;> exact ⟨rfl, rfl⟩
    have hvalue : (s.hit hit).dropped.value = s.dropped.value := by
      rw [Kernel.hit_dropped]
      split <;> rfl
    refine ⟨?_, ?_, fun halone => ?_⟩
    · rw [filterMap_concat]
      rcases hrefuses : s.refuses hit
      · have hsame : (s.hit hit).dropped = s.dropped := by
          rw [Kernel.hit_dropped, if_neg]
          simpa [Kernel.refuses] using hrefuses
        simp only [counted?, hrefuses, Bool.false_eq_true, if_false, Option.toList_none,
          List.append_nil, hsame]
        exact h.known
      · have hread : (s.hit hit).dropped = s.dropped.read hit.cpu := by
          rw [Kernel.hit_dropped, if_pos]
          simpa [Kernel.refuses] using hrefuses
        simp only [counted?, hrefuses, if_true, Option.toList_some, hread]
        refine h.known.step ?_
        rw [SharedCounter.step, hnone]
        rfl
    · rw [refusals_concat, submissions_concat]
      have hrecords := records_hit s hit
      have := h.records
      simp only [Action.hit?, Option.any_some]
      omega
    · rw [hkeeps.1, hkeeps.2, hvalue]
      exact h.reported (refusesAlone_concat.mp halone).1
  · refine ⟨?_, ?_, fun halone => ?_⟩
    · rw [filterMap_concat]
      exact h.known.step (by rw [SharedCounter.step, hseen]; rfl)
    · rw [refusals_concat, submissions_concat]
      exact h.records
    · -- the only CPU that is counting has read the count as it is
      have halone' := (refusesAlone_concat.mp halone).1
      obtain ⟨hreported, hlast⟩ := h.reported halone'
      have hexact := h.known.2.1 (alone_counted.mpr halone')
      obtain ⟨hmem, -⟩ := SharedCounter.exists_read_of_pending hseen
      rcases hexact with ⟨hnil, -⟩ | ⟨r, hone, -, hread⟩
      · rw [hnil] at hmem
        cases hmem
      · rw [hone] at hmem
        obtain rfl := List.mem_singleton.mp hmem
        exact ⟨hreported, Nat.le_succ_of_le (Nat.le_trans hlast (Nat.le_of_eq hread))⟩
  · refine ⟨?_, ?_, fun halone => ?_⟩
    · rw [filterMap_concat]
      simp only [counted?, Option.toList_none, List.append_nil]
      exact h.known
    · rw [refusals_concat, submissions_concat]
      exact h.records
    · obtain ⟨hreported, hlast⟩ := h.reported (refusesAlone_concat.mp halone).1
      refine ⟨?_, Nat.le_refl _⟩
      simp only [hreported]
      omega

/-- **The accounts hold in every run.** -/
theorem accounted_run {actions : List Action} {s : Kernel}
    (hrun : runFrom Kernel.step {} actions = some s) :
    Accounted (visits Kernel.step {} actions) s :=
  @history_of_run _ _ Kernel.step Accounted (fun hstep h => h.step hstep) actions [] {} s hrun
    ⟨SharedCounter.known_empty, rfl, fun _ => ⟨rfl, Nat.le_refl 0⟩⟩

/-- **Nothing that is submitted is lost without a trace.** In every interleaving each record
is in the ring buffer or refused, and the count of the refused ones is never too high; when
no CPU is counting it is right exactly if each record was refused alone. -/
theorem dropped_value_eq_iff {actions : List Action} {s : Kernel}
    (hrun : runFrom Kernel.step {} actions = some s) :
    s.events.length + refusals (visits Kernel.step {} actions) =
        submissions (visits Kernel.step {} actions) ∧
      s.dropped.value + s.dropped.reads.length ≤ refusals (visits Kernel.step {} actions) ∧
      (s.dropped.reads = [] → (s.dropped.value = refusals (visits Kernel.step {} actions) ↔
        RefusesAlone (visits Kernel.step {} actions))) := by
  have h := accounted_run hrun
  refine ⟨h.records, ?_, fun hdone => ?_⟩
  · rw [← begun_counted]
    exact h.known.1.value
  · rw [← begun_counted, ← alone_counted]
    exact h.known.value_eq_iff hdone

/-- Two ends of processes that the ring buffer has no room for: with `overlap` the second CPU
reads the count before the first has written it. -/
def twoRefused (overlap : Bool) : List Action :=
  if overlap then
    [.hit (processExit 0 0x700000007 false), .hit (processExit 1 0x800000008 false),
      .write 0, .write 1]
  else
    [.hit (processExit 0 0x700000007 false), .write 0,
      .hit (processExit 1 0x800000008 false), .write 1]

theorem dropped_value_eq_iff_two :
    ∃ s, runFrom Kernel.step {} (twoRefused false) = some s ∧
      s.events.length + refusals (visits Kernel.step {} (twoRefused false)) =
          submissions (visits Kernel.step {} (twoRefused false)) ∧
        s.dropped.value + s.dropped.reads.length ≤
          refusals (visits Kernel.step {} (twoRefused false)) ∧
        (s.dropped.reads = [] → (s.dropped.value =
            refusals (visits Kernel.step {} (twoRefused false)) ↔
          RefusesAlone (visits Kernel.step {} (twoRefused false)))) :=
  ⟨_, rfl, dropped_value_eq_iff rfl⟩

/-- With an overlap one of the two is missed. -/
example : (runFrom Kernel.step {} (twoRefused true)).map (·.dropped.value) = some 1 ∧
    refusals (visits Kernel.step {} (twoRefused true)) = 2 := by
  decide

/-- **The metric** of the dropped records is right when `run_ebpf` has looked at the count,
if each record was refused alone. -/
theorem reported_eq_refusals {actions : List Action} {s t : Kernel}
    (hrun : runFrom Kernel.step {} actions = some s) (hpoll : s.step .poll = some t)
    (hdone : s.dropped.reads = []) (halone : RefusesAlone (visits Kernel.step {} actions)) :
    t.reported = refusals (visits Kernel.step {} actions) := by
  have h := accounted_run hrun
  obtain ⟨hreported, hlast⟩ := h.reported halone
  have hvalue := (h.known.value_eq_iff hdone).mpr (alone_counted.mpr halone)
  obtain rfl := Option.some.inj hpoll
  rw [← begun_counted, ← hvalue, hreported]
  exact Nat.add_sub_cancel' hlast

theorem reported_eq_refusals_two :
    ∃ s t, runFrom Kernel.step {} (twoRefused false) = some s ∧ s.step .poll = some t ∧
      t.reported = refusals (visits Kernel.step {} (twoRefused false)) :=
  ⟨_, _, rfl, rfl, reported_eq_refusals rfl rfl rfl (by decide)⟩

end ConflictGraph.Ebpf
