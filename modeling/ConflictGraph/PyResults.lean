import ConflictGraph.PyExecutor

/-!
# What the Python executor returns

A coroutine works through its queue in order and records a result for each test that it is done
with, whatever became of the process. So the results of a worker are of the first tests of its
queue. When it has returned they are of all of them, unless it found the flag set
(`Accounts`); and if nobody calls `cancel`, the flag is set only after a result that did not pass,
with `fail_fast` (`Excused`).
-/

namespace ConflictGraph.Py

/-- The test that a result is of, with its worker. -/
def ExecutionResult.target (result : ExecutionResult) : String × String × ℤ :=
  (result.testID, result.nodeID, result.worker)

/-- What the result of a test has of it. -/
def ScheduledTest.target (item : ScheduledTest) : String × String × ℤ :=
  (item.testID, item.nodeID, item.worker)

/-- The tests that the coroutine has still to record a result for, if it goes on. -/
def Coroutine.ahead : Coroutine → List ScheduledTest
  | .created rest => rest
  | .asleep item rest => item :: rest
  | .running item rest => item :: rest
  | .done => []

namespace ScheduleExecutor

/-- The results of a worker, in the order in which it has recorded them. -/
def resultsOf (s : ScheduleExecutor) (worker : ℕ) : List ExecutionResult :=
  s.results.filter (·.worker = worker)

/-- The worker has recorded results for the first tests of its queue; the others are ahead of its
coroutine, or were left there because of the flag. -/
def Accounts (e : Execution) (s : ScheduleExecutor) (worker : ℕ) : Prop :=
  ∃ coroutine, s.workers[worker]? = some coroutine ∧ ∃ finished left,
    finished ++ (coroutine.ahead ++ left) = e.queue worker ∧
      (s.resultsOf worker).map ExecutionResult.target = finished.map ScheduledTest.target ∧
        (left = [] ∨ (coroutine = .done ∧ s.cancelled = true))

/-- What a worker, with these tests before it, has left alone from `s` to `t`. -/
structure Leaves (e : Execution) (worker : ℕ) (tests : List ScheduledTest)
    (s t : ScheduleExecutor) : Prop where
  length : t.workers.length = s.workers.length
  others : ∀ other ≠ worker,
    t.workers[other]? = s.workers[other]? ∧ t.resultsOf other = s.resultsOf other
  cancelled : s.cancelled = true → t.cancelled = true
  results : ∀ result ∈ t.results, result ∈ s.results ∨
    (result.runID = e.schedule.runID ∧ ∃ item ∈ tests, result.target = item.target)

variable {e : Execution} {s t u : ScheduleExecutor} {worker : ℕ} {item : ScheduledTest}
  {rest finished tests : List ScheduledTest} {starts : ScheduledTest → Bool}

/-- What is done one after the other leaves the results of all. -/
theorem Leaves.trans (h : Leaves e worker [item] s t) (h' : Leaves e worker rest t u) :
    Leaves e worker (item :: rest) s u where
  length := h'.length.trans h.length
  others other hother :=
    ⟨(h'.others other hother).1.trans (h.others other hother).1,
      (h'.others other hother).2.trans (h.others other hother).2⟩
  cancelled hcancelled := h'.cancelled (h.cancelled hcancelled)
  results result hresult := by
    rcases h'.results result hresult with hbefore | ⟨hrun, later, hlater, htarget⟩
    · refine (h.results result hbefore).imp_right fun ⟨hrun, first, hfirst, htarget⟩ => ?_
      exact ⟨hrun, item, List.mem_cons_self, List.mem_singleton.mp hfirst ▸ htarget⟩
    · exact .inr ⟨hrun, later, List.mem_cons_of_mem _ hlater, htarget⟩

theorem leaves_goto (e : Execution) (tests : List ScheduledTest) (s : ScheduleExecutor)
    (worker : ℕ) (coroutine : Coroutine) : Leaves e worker tests s (s.goto worker coroutine) :=
  ⟨List.length_set .., fun _ hother => ⟨List.getElem?_set_ne hother.symm, rfl⟩, id,
    fun _ hresult => .inl hresult⟩

theorem leaves_launch (e : Execution) (tests : List ScheduledTest) (s : ScheduleExecutor)
    (worker : ℕ) (item : ScheduledTest) (rest : List ScheduledTest) :
    Leaves e worker tests s (s.launch worker item rest) :=
  ⟨List.length_set .., fun _ hother => ⟨List.getElem?_set_ne hother.symm, rfl⟩, id,
    fun _ hresult => .inl hresult⟩

/-- A result that is recorded is of its item. -/
theorem leaves_record (hitem : item.worker = worker) (status : ExecutionStatus) (exitCode : ℤ) :
    Leaves e worker [item] s (s.record e item status exitCode) := by
  refine ⟨rfl, fun other hother => ⟨rfl, ?_⟩, fun h => ?_, fun result hresult => ?_⟩
  · have hne : item.worker ≠ other := by omega
    simp [resultsOf, record, hne]
  · simp [record, h]
  · refine (List.mem_append.mp hresult).imp_right fun hlast => ?_
    obtain rfl := List.mem_singleton.mp hlast
    exact ⟨rfl, item, List.mem_cons_self, rfl⟩

/-- It is the last of its worker. -/
theorem resultsOf_record (hitem : item.worker = worker) (status : ExecutionStatus)
    (exitCode : ℤ) :
    ((s.record e item status exitCode).resultsOf worker).map ExecutionResult.target =
      (s.resultsOf worker).map ExecutionResult.target ++ [item.target] := by
  simp [resultsOf, record, hitem, ExecutionResult.target, ScheduledTest.target]

/-- The tests of a queue are those of the schedule for its worker. -/
theorem mem_queue_iff : item ∈ e.queue worker ↔ item ∈ e.schedule.tests ∧ item.worker = worker := by
  rw [Execution.queue, List.mem_filter, decide_eq_true_eq,
    (List.perm_insertionSort ScheduledTest.queuedBefore e.schedule.tests).mem_iff]

/-- What is in the queue of a worker is planned for it. -/
theorem worker_of_queue (h : finished ++ item :: rest = e.queue worker) : item.worker = worker :=
  (mem_queue_iff.mp (h ▸ List.mem_append_right _ List.mem_cons_self)).2

/-- **From the head of its loop on**, a worker goes on accounting for its queue. -/
theorem accounts_loop : ∀ {s : ScheduleExecutor} {finished : List ScheduledTest},
    worker < s.workers.length → finished ++ rest = e.queue worker →
    (s.resultsOf worker).map ExecutionResult.target = finished.map ScheduledTest.target →
    Accounts e (s.loop e starts worker rest) worker ∧
      Leaves e worker rest s (s.loop e starts worker rest) := by
  -- by induction on the queue, as the loop goes on only after an `OSError`
  induction rest with
  | nil =>
    intro s finished hlt hqueue hresults
    exact ⟨⟨.done, List.getElem?_set_self hlt, finished, [], hqueue, hresults, .inl rfl⟩,
      leaves_goto ..⟩
  | cons item rest ih =>
    intro s finished hlt hqueue hresults
    rw [loop]
    split
    · rename_i hcancelled
      exact ⟨⟨.done, List.getElem?_set_self hlt, finished, item :: rest, hqueue, hresults,
        .inr ⟨rfl, hcancelled⟩⟩, leaves_goto ..⟩
    split
    · exact ⟨⟨.asleep item rest, List.getElem?_set_self hlt, finished, [],
        (List.append_nil _).symm ▸ hqueue, hresults, .inl rfl⟩, leaves_goto ..⟩
    split
    · exact ⟨⟨.running item rest, List.getElem?_set_self hlt, finished, [],
        (List.append_nil _).symm ▸ hqueue, hresults, .inl rfl⟩, leaves_launch ..⟩
    · have hitem := worker_of_queue hqueue
      obtain ⟨haccounts, hleaves⟩ := @ih (s.record e item .infraError (-1)) (finished ++ [item])
        hlt (by rw [List.append_assoc]; exact hqueue)
        (by rw [resultsOf_record hitem, hresults, List.map_append]; rfl)
      exact ⟨haccounts, (leaves_record hitem _ _).trans hleaves⟩

/-- The same after a test that is done with. -/
theorem accounts_record_loop (hlt : worker < s.workers.length)
    (hqueue : finished ++ item :: rest = e.queue worker)
    (hresults : (s.resultsOf worker).map ExecutionResult.target =
      finished.map ScheduledTest.target) (status : ExecutionStatus) (exitCode : ℤ) :
    Accounts e ((s.record e item status exitCode).loop e starts worker rest) worker ∧
      Leaves e worker (item :: rest) s
        ((s.record e item status exitCode).loop e starts worker rest) := by
  have hitem := worker_of_queue hqueue
  obtain ⟨haccounts, hleaves⟩ := @accounts_loop e worker rest starts
    (s.record e item status exitCode) (finished ++ [item])
    hlt (by rw [List.append_assoc]; exact hqueue)
    (by rw [resultsOf_record hitem, hresults, List.map_append]; rfl)
  exact ⟨haccounts, (leaves_record hitem _ _).trans hleaves⟩

/-! ## Runs -/

/-- All workers account for their queues, and there are no other results. -/
structure Recorded (e : Execution) (s : ScheduleExecutor) : Prop where
  length : s.workers.length = e.schedule.workers.toNat
  accounts : ∀ worker < s.workers.length, Accounts e s worker
  results : ∀ result ∈ s.results, result.runID = e.schedule.runID ∧
    ∃ item ∈ e.schedule.tests, result.target = item.target

theorem recorded_init (e : Execution) : Recorded e e.init := by
  have hlength : e.init.workers.length = e.schedule.workers.toNat := by
    rw [Execution.init, List.length_map, List.length_range]
  refine ⟨hlength, fun worker hlt => ?_, fun _ h => absurd h List.not_mem_nil⟩
  refine ⟨.created (e.queue worker), ?_, [], [], List.append_nil _, rfl, .inl rfl⟩
  rw [Execution.init, List.getElem?_map, List.getElem?_range (hlength ▸ hlt), Option.map_some]

/-- The records stay in order if a worker leaves what it owes. -/
theorem Recorded.of_leaves (hs : Recorded e s) (htests : ∀ item ∈ tests, item ∈ e.queue worker)
    (haccounts : Accounts e t worker) (hleaves : Leaves e worker tests s t) : Recorded e t := by
  refine ⟨hleaves.length.trans hs.length, fun other hlt => ?_, fun result hresult => ?_⟩
  · rw [hleaves.length] at hlt
    by_cases hother : other = worker
    · exact hother ▸ haccounts
    · obtain ⟨hworkers, hresults⟩ := hleaves.others other hother
      obtain ⟨coroutine, hcoroutine, finished, left, hqueue, htargets, hleft⟩ :=
        hs.accounts other hlt
      exact ⟨coroutine, hworkers.trans hcoroutine, finished, left, hqueue, hresults ▸ htargets,
        hleft.imp_right fun h => ⟨h.1, hleaves.cancelled h.2⟩⟩
  · rcases hleaves.results result hresult with hbefore | ⟨hrun, item, hitem, htarget⟩
    · exact hs.results result hbefore
    · exact ⟨hrun, item, (mem_queue_iff.mp (htests item hitem)).1, htarget⟩

/-- What is before a coroutine that has not returned. -/
theorem Recorded.before {coroutine : Coroutine} (hs : Recorded e s)
    (h : s.workers[worker]? = some coroutine) (hnot : coroutine ≠ .done) :
    worker < s.workers.length ∧ ∃ finished, finished ++ coroutine.ahead = e.queue worker ∧
      (s.resultsOf worker).map ExecutionResult.target = finished.map ScheduledTest.target := by
  obtain ⟨hlt, -⟩ := List.getElem?_eq_some_iff.mp h
  obtain ⟨found, hfound, finished, left, hqueue, htargets, hleft⟩ := hs.accounts worker hlt
  obtain rfl := Option.some.inj (hfound.symm.trans h)
  obtain rfl := hleft.resolve_right fun hdone => hnot hdone.1
  exact ⟨hlt, finished, (List.append_nil found.ahead) ▸ hqueue, htargets⟩

/-- The step lemma. -/
theorem Recorded.of_step {l : ExecutorAction} (h : s.step e l = some t) (hs : Recorded e s) :
    Recorded e t := by
  cases l with
  | advance elapsed =>
    simp only [step] at h
    split at h <;> cases h
    exact ⟨hs.length, hs.accounts, hs.results⟩
  | cancel =>
    obtain rfl := Option.some.inj h
    refine ⟨hs.length, fun worker hlt => ?_, hs.results⟩
    obtain ⟨coroutine, hcoroutine, finished, left, hqueue, htargets, hleft⟩ :=
      hs.accounts worker hlt
    exact ⟨coroutine, hcoroutine, finished, left, hqueue, htargets,
      hleft.imp_right fun h => ⟨h.1, rfl⟩⟩
  | begin worker starts =>
    simp only [step] at h
    split at h <;> cases h
    rename_i rest hworker
    obtain ⟨hlt, finished, hqueue, htargets⟩ := hs.before hworker (by simp)
    obtain ⟨haccounts, hleaves⟩ :=
      @accounts_loop e worker rest starts s finished hlt hqueue htargets
    exact hs.of_leaves (fun item hitem => hqueue ▸ List.mem_append_right _ hitem) haccounts hleaves
  | wake worker starts =>
    simp only [step] at h
    split at h
    · rename_i item rest hworker
      split at h <;> cases h
      obtain ⟨hlt, finished, hqueue, htargets⟩ := hs.before hworker (by simp)
      have hmem : ∀ test ∈ item :: rest, test ∈ e.queue worker := fun test htest =>
        hqueue ▸ List.mem_append_right _ htest
      rw [wakeUp]
      split
      · exact hs.of_leaves hmem ⟨.running item rest, List.getElem?_set_self hlt, finished, [],
          (List.append_nil _).symm ▸ hqueue, htargets, .inl rfl⟩ (leaves_launch ..)
      · obtain ⟨haccounts, hleaves⟩ :=
          @accounts_record_loop e s worker item rest finished starts hlt hqueue htargets
            .infraError (-1)
        exact hs.of_leaves hmem haccounts hleaves
    · cases h
  | finish worker timedOut exitCode starts =>
    simp only [step] at h
    split at h <;> cases h
    rename_i item rest hworker
    obtain ⟨hlt, finished, hqueue, htargets⟩ := hs.before hworker (by simp)
    obtain ⟨haccounts, hleaves⟩ :=
      @accounts_record_loop e s worker item rest finished starts hlt hqueue htargets
        (statusOf timedOut exitCode) exitCode
    exact hs.of_leaves (fun test htest => hqueue ▸ List.mem_append_right _ htest) haccounts hleaves

/-- The flag is set only because a test has not passed. -/
def Excused (e : Execution) (s : ScheduleExecutor) : Prop :=
  s.cancelled = true → e.failFast = true ∧ ∃ result ∈ s.results, result.status ≠ .passed

theorem Excused.record (hs : Excused e s) (item : ScheduledTest) (status : ExecutionStatus)
    (exitCode : ℤ) : Excused e (s.record e item status exitCode) := by
  intro hcancelled
  simp only [ScheduleExecutor.record, Bool.or_eq_true, Bool.and_eq_true, decide_eq_true_eq]
    at hcancelled
  rcases hcancelled with hbefore | ⟨hfast, hstatus⟩
  · obtain ⟨hfast, result, hresult, hstatus⟩ := hs hbefore
    exact ⟨hfast, result, List.mem_append_left _ hresult, hstatus⟩
  · exact ⟨hfast, _, List.mem_append_right _ List.mem_cons_self, hstatus⟩

theorem Excused.loop : ∀ {s : ScheduleExecutor}, Excused e s →
    Excused e (s.loop e starts worker rest) := by
  induction rest with
  | nil => exact fun hs => hs
  | cons item rest ih =>
    intro s hs
    rw [ScheduleExecutor.loop]
    split
    · exact hs
    split
    · exact hs
    split
    · exact hs
    · exact ih (hs.record item _ _)

/-- Nothing but `cancel` excuses a missing test anew. -/
theorem Excused.of_step {l : ExecutorAction} (h : s.step e l = some t) (hl : l ≠ .cancel)
    (hs : Excused e s) : Excused e t := by
  cases l with
  | advance elapsed =>
    simp only [step] at h
    split at h <;> cases h
    exact hs
  | cancel => exact absurd rfl hl
  | begin worker starts =>
    simp only [step] at h
    split at h <;> cases h
    exact hs.loop
  | wake worker starts =>
    simp only [step] at h
    split at h
    · rename_i item rest hworker
      split at h <;> cases h
      rw [wakeUp]
      split
      · exact hs
      · exact (hs.record item _ _).loop
    · cases h
  | finish worker timedOut exitCode starts =>
    simp only [step] at h
    split at h <;> cases h
    rename_i item rest hworker
    exact (hs.record item _ _).loop

section Run

variable {ls : List ExecutorAction}

/-- The run lemma. -/
theorem recorded_of_steps (h : runFrom (step e) e.init ls = some s) : Recorded e s :=
  invariant_of_steps Recorded.of_step h (recorded_init e)

theorem excused_of_steps (h : runFrom (step e) e.init ls = some s) (hcancel : .cancel ∉ ls) :
    Excused e s := by
  refine @invariant_of_run _ _ (step e) (Excused e) (fun _ l => l ≠ .cancel)
    (fun hstep hl hs => hs.of_step hstep hl) ls _ _ h (fun visit hvisit heq => ?_)
    (fun hcancelled => absurd hcancelled Bool.false_ne_true)
  exact hcancel (heq ▸ mem_of_mem_visits hvisit)

/-- All coroutines have returned, so `gather` does. -/
def Finished (s : ScheduleExecutor) : Prop := ∀ coroutine ∈ s.workers, coroutine = .done

instance (s : ScheduleExecutor) : Decidable s.Finished :=
  inferInstanceAs (Decidable (∀ coroutine ∈ s.workers, coroutine = .done))

/-- The results of a worker are those of the first tests of its queue. -/
theorem Recorded.resultsOf_prefix (hs : Recorded e s) (hlt : worker < s.workers.length) :
    (s.resultsOf worker).map ExecutionResult.target <+:
      (e.queue worker).map ScheduledTest.target := by
  obtain ⟨coroutine, -, finished, left, hqueue, htargets, -⟩ := hs.accounts worker hlt
  rw [htargets, ← hqueue, List.map_append]
  exact List.prefix_append ..

/-- They are those of all of them when it has returned without the flag. -/
theorem Recorded.resultsOf_eq (hs : Recorded e s) (hfinished : Finished s)
    (hcancelled : s.cancelled = false) (hlt : worker < s.workers.length) :
    (s.resultsOf worker).map ExecutionResult.target =
      (e.queue worker).map ScheduledTest.target := by
  obtain ⟨coroutine, hcoroutine, finished, left, hqueue, htargets, hleft⟩ := hs.accounts worker hlt
  obtain rfl := hfinished coroutine (List.mem_of_getElem? hcoroutine)
  obtain rfl := hleft.resolve_right fun h => Bool.false_ne_true (hcancelled.symm.trans h.2)
  rw [htargets, ← hqueue]
  simp [Coroutine.ahead]

section Count

variable {target : String × String × ℤ} (hworker : target.2.2 = worker)

include hworker

/-- A target has the worker, so it can be counted among the results of that. -/
theorem count_results (s : ScheduleExecutor) :
    (s.results.map ExecutionResult.target).count target =
      ((s.resultsOf worker).map ExecutionResult.target).count target := by
  simp only [resultsOf, List.count, List.countP_map, List.countP_filter]
  refine List.countP_congr fun result _ => ?_
  simp only [Function.comp_apply, beq_iff_eq, Bool.and_eq_true, decide_eq_true_eq]
  exact ⟨fun h => ⟨h, (congrArg (·.2.2) h).trans hworker⟩, And.left⟩

theorem count_queue (e : Execution) :
    ((e.queue worker).map ScheduledTest.target).count target =
      (e.schedule.tests.map ScheduledTest.target).count target := by
  refine Eq.trans ?_ (((List.perm_insertionSort ScheduledTest.queuedBefore
    e.schedule.tests).map ScheduledTest.target).count_eq target)
  simp only [Execution.queue, List.count, List.countP_map, List.countP_filter]
  refine List.countP_congr fun item _ => ?_
  simp only [Function.comp_apply, beq_iff_eq, Bool.and_eq_true, decide_eq_true_eq]
  exact ⟨And.left, fun h => ⟨h, (congrArg (·.2.2) h).trans hworker⟩⟩

end Count

/-- The worker of a test of the schedule is there. -/
theorem Recorded.exists_worker (hs : Recorded e s) (hitem : item ∈ e.schedule.tests) :
    ∃ worker < s.workers.length, item.target.2.2 = (worker : ℤ) := by
  obtain ⟨hlow, hhigh⟩ := e.inRange item hitem
  obtain ⟨worker, hworker⟩ := Int.eq_ofNat_of_zero_le hlow
  refine ⟨worker, ?_, hworker⟩
  rw [hs.length]
  omega

/-- No test has more results than it was scheduled. -/
theorem Recorded.results_subperm (hs : Recorded e s) :
    (s.results.map ExecutionResult.target).Subperm
      (e.schedule.tests.map ScheduledTest.target) := by
  rw [List.subperm_ext_iff]
  intro target htarget
  obtain ⟨result, hresult, rfl⟩ := List.mem_map.mp htarget
  obtain ⟨-, item, hitem, hsame⟩ := hs.results result hresult
  obtain ⟨worker, hlt, hworker⟩ := hs.exists_worker hitem
  rw [← hsame] at hworker
  rw [count_results hworker, ← count_queue hworker]
  exact (hs.resultsOf_prefix hlt).sublist.count_le _

/-- Without the flag, every test of the schedule has its results. -/
theorem Recorded.results_perm (hs : Recorded e s) (hfinished : Finished s)
    (hcancelled : s.cancelled = false) :
    (s.results.map ExecutionResult.target).Perm (e.schedule.tests.map ScheduledTest.target) := by
  refine hs.results_subperm.antisymm (List.subperm_ext_iff.mpr fun target htarget => ?_)
  obtain ⟨item, hitem, rfl⟩ := List.mem_map.mp htarget
  obtain ⟨worker, hlt, hworker⟩ := hs.exists_worker hitem
  rw [count_results hworker, ← count_queue hworker, hs.resultsOf_eq hfinished hcancelled hlt]

/-- **What `execute` returns.** The results of each worker are those of the first tests of its
queue, in order, and no test has more of them than it was scheduled; and if some test has fewer,
`cancel` was called, or a test has not passed and `fail_fast` is set. -/
theorem results_of_execute (h : runFrom (step e) e.init ls = some s) (hfinished : Finished s) :
    (∀ worker < e.schedule.workers.toNat, (s.resultsOf worker).map ExecutionResult.target <+:
      (e.queue worker).map ScheduledTest.target) ∧
    (s.results.map ExecutionResult.target).Subperm (e.schedule.tests.map ScheduledTest.target) ∧
    (¬ (s.results.map ExecutionResult.target).Perm (e.schedule.tests.map ScheduledTest.target) →
      .cancel ∈ ls ∨ (e.failFast = true ∧ ∃ result ∈ s.results, result.status ≠ .passed)) := by
  have hs := recorded_of_steps h
  refine ⟨fun worker hlt => hs.resultsOf_prefix (hs.length.symm ▸ hlt), hs.results_subperm,
    fun hmissing => or_iff_not_imp_left.mpr fun hcancel => excused_of_steps h hcancel ?_⟩
  exact Bool.eq_true_of_not_eq_false fun hcancelled =>
    hmissing (hs.results_perm hfinished hcancelled)

/-- `failingRun` goes on: the second worker wakes up and runs its test. -/
def failingRunToEnd : List ExecutorAction :=
  failingRun ++ [.advance 1, .wake 1 fun _ => true, .finish 1 false 0 fun _ => true]

theorem results_of_execute_failingFirst : ∃ s,
    runFrom (step failingFirst) failingFirst.init failingRunToEnd = some s ∧
    (∀ worker < 2, (s.resultsOf worker).map ExecutionResult.target <+:
      (failingFirst.queue worker).map ScheduledTest.target) ∧
    (s.results.map ExecutionResult.target).Subperm
      (failingFirst.schedule.tests.map ScheduledTest.target) ∧
    (¬ (s.results.map ExecutionResult.target).Perm
        (failingFirst.schedule.tests.map ScheduledTest.target) →
      .cancel ∈ failingRunToEnd ∨
        (failingFirst.failFast = true ∧ ∃ result ∈ s.results, result.status ≠ .passed)) :=
  ⟨_, by rfl, @results_of_execute failingFirst _ failingRunToEnd (by rfl) (by decide)⟩

end Run

end ScheduleExecutor

end ConflictGraph.Py
