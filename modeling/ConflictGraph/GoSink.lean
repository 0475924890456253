import ConflictGraph.GoExecution

/-!
# Finished executions and the sink

A goroutine hands its result to the sink under the context that also stops the tests. So
a result reaches the store only if the context was not cancelled between the end of the
process and the save, by the parent or by another worker's fail-fast. A run in which that
never happens saves every result that `Execute` returns, once, under a live context, and
a run in which it does happen does not.
-/

namespace ConflictGraph.Go

/-! ## Results on their way -/

/-- The result of a process that has ended and is not saved yet. -/
def Stage.unsaved : Stage → List ExecutionResult
  | .returned _ result _ => if result.executionID = "" then [] else [result]
  | .saving _ result _ => [result]
  | _ => []

/-- The result that is on the channel and not saved yet. -/
def Stage.unhanded : Stage → List ExecutionResult
  | .saving _ result _ => [result]
  | _ => []

/-- The result that `SaveExecution` is called with in the step, and whether its context is
cancelled. -/
def handed? (visit : ExecutorState × Action) : Option (ExecutionResult × Bool) :=
  match visit.2 with
  | .worker index (.save _) =>
    match visit.1.stages[index]? with
    | some (.saving _ result _) => some (result, visit.1.cancelled)
    | _ => none
  | _ => none

/-- The action cancels the context. -/
def Execution.Cancels (e : Execution) (s : ExecutorState) (a : Action) : Prop :=
  a = .parentCancel ∨ ∃ index,
    (a = .worker index .cancel ∧ ∃ rest, s.stages[index]? = some (.cancelling rest)) ∨
    (a = .worker index .judge ∧ ∃ rest result,
      s.stages[index]? = some (.judging rest result none) ∧ e.failFast = true ∧
        result.status ≠ .passed)

/-- The action ends a process. -/
def Action.finishes : Action → Bool
  | .worker _ (.finish _ _ _ _) => true
  | _ => false

/-- No process has ended whose result is not saved. -/
def ExecutorState.AllSaved (s : ExecutorState) : Prop := ∀ stage ∈ s.stages, stage.unsaved = []

/-- The step cuts off no result from the sink: the context is not cancelled while a worker
has a result that is not saved, and no process ends after the context is cancelled. -/
structure Execution.Spares (e : Execution) (s : ExecutorState) (a : Action) : Prop where
  cancel : s.cancelled = false → e.Cancels s a → s.AllSaved
  finish : s.cancelled = true → a.finishes = false

/-- Every result that `Execute` returns was handed to the sink exactly once, under a
context that was not cancelled. -/
def Execution.Persisted (e : Execution) (rt : Runtime) (actions : List Action)
    (s : ExecutorState) : Prop :=
  ((visits e.step (e.init rt) actions).filterMap handed?).Perm
    ((s.output rt).map fun result => (result, false))

/-! ## What a move does -/

/-- What a move of a goroutine from `old` to `new` does to the result that it carries. -/
inductive Delivery (s : ExecutorState) (old : Stage) (a : Action) (new : Stage)
    (t : ExecutorState) : Prop where
  /-- nothing happens to it -/
  | idle (results : t.results = s.results) (unsaved : new.unsaved = old.unsaved)
      (unhanded : new.unhanded = old.unhanded) (handed : handed? (s, a) = none)
      (finishes : a.finishes = false)
  /-- the process has ended, and there is one -/
  | ended (results : t.results = s.results) (unsaved : new.unsaved ≠ [])
      (unhanded : new.unhanded = old.unhanded) (handed : handed? (s, a) = none)
      (finishes : a.finishes = true)
  /-- it is sent -/
  | sent (result : ExecutionResult) (results : t.results = s.results ++ [result])
      (unsaved : new.unsaved = old.unsaved) (unhanded : old.unhanded = [])
      (unhanded' : new.unhanded = [result]) (handed : handed? (s, a) = none)
      (finishes : a.finishes = false)
  /-- it is handed to the sink -/
  | saved (result : ExecutionResult) (results : t.results = s.results)
      (unsaved : old.unsaved = [result]) (unsaved' : new.unsaved = [])
      (unhanded : old.unhanded = [result]) (unhanded' : new.unhanded = [])
      (handed : handed? (s, a) = some (result, s.cancelled)) (finishes : a.finishes = false)

/-- With a sink, every move of a goroutine delivers in one of these ways. -/
theorem move_delivery {e : Execution} {s t : ExecutorState} {index : ℕ} {old : Stage}
    {move : Move} (hsink : e.hasSink = true) (hold : s.stages[index]? = some old)
    (h : e.move s index old move = some t) :
    ∃ new, t.stages = s.stages.set index new ∧ Delivery s old (.worker index move) new t := by
  unfold Execution.move at h
  split at h
  · obtain rfl := Option.some.inj h
    exact ⟨_, rfl, .idle rfl rfl rfl rfl rfl⟩
  · split at h <;> obtain rfl := Option.some.inj h <;> exact ⟨_, rfl, .idle rfl rfl rfl rfl rfl⟩
  · obtain rfl := Option.some.inj h
    exact ⟨_, rfl, .idle rfl rfl rfl rfl rfl⟩
  · split at h
    · obtain rfl := Option.some.inj h
      exact ⟨_, rfl, .idle rfl rfl rfl rfl rfl⟩
    · cases h
  · split at h <;> obtain rfl := Option.some.inj h <;> exact ⟨_, rfl, .idle rfl rfl rfl rfl rfl⟩
  · obtain rfl := Option.some.inj h
    exact ⟨_, rfl, .idle rfl rfl rfl rfl rfl⟩
  · obtain rfl := Option.some.inj h
    exact ⟨_, rfl, .idle rfl rfl rfl rfl rfl⟩
  · obtain rfl := Option.some.inj h
    exact ⟨_, rfl, .idle rfl rfl rfl rfl rfl⟩
  · rename_i test rest executionID startedAt deadline exit endedAt problem
    obtain rfl := Option.some.inj h
    refine ⟨_, rfl, .ended rfl ?_ rfl rfl rfl⟩
    rw [Stage.unsaved, if_neg executionID.2]
    exact List.cons_ne_nil _ _
  · rename_i rest result err
    by_cases hzero : result.executionID = ""
    · rw [if_pos hzero] at h
      obtain rfl := Option.some.inj h
      exact ⟨_, rfl, .idle rfl (if_pos hzero).symm rfl rfl rfl⟩
    · rw [if_neg hzero] at h
      rcases hsend : e.sendResult s result with _ | sent
      · simp only [hsend, reduceCtorEq] at h
      · simp only [hsend, hsink, if_true, Option.some.injEq] at h
        obtain rfl := sendResult_eq_some hsend
        subst h
        exact ⟨_, rfl, .sent result rfl (if_neg hzero).symm rfl rfl rfl rfl⟩
  · rename_i rest result err answer
    have hhanded : handed? (s, .worker index (.save answer)) = some (result, s.cancelled) := by
      simp only [handed?, hold]
    rcases answer with _ | text
    · obtain rfl := Option.some.inj h
      exact ⟨_, rfl, .saved result rfl rfl rfl rfl rfl hhanded rfl⟩
    · simp only at h
      split at h
      · cases h
      · rename_i sent hsend
        obtain rfl := sendError_eq_some hsend
        obtain rfl := Option.some.inj h
        exact ⟨_, rfl, .saved result rfl rfl rfl rfl rfl hhanded rfl⟩
  · rename_i rest result err
    rcases err with _ | text
    · simp only at h
      split at h <;> obtain rfl := Option.some.inj h <;> exact ⟨_, rfl, .idle rfl rfl rfl rfl rfl⟩
    · simp only at h
      split at h
      · cases h
      · rename_i sent hsend
        obtain rfl := sendError_eq_some hsend
        obtain rfl := Option.some.inj h
        refine ⟨_, rfl, .idle rfl ?_ ?_ rfl rfl⟩ <;> split <;> rfl
  · obtain rfl := Option.some.inj h
    exact ⟨_, rfl, .idle rfl rfl rfl rfl rfl⟩
  · cases h

/-- The context is cancelled if it was, or if the action cancels it. -/
theorem move_cancels_iff {e : Execution} {s t : ExecutorState} {index : ℕ} {old : Stage}
    {move : Move} (hold : s.stages[index]? = some old) (h : e.move s index old move = some t) :
    t.cancelled = true ↔ s.cancelled = true ∨ e.Cancels s (.worker index move) := by
  unfold Execution.move Execution.sendResult Execution.sendError ExecutorState.goto at h
  grind [Execution.Cancels]

theorem Execution.Cancels.finishes {e : Execution} {s : ExecutorState} {a : Action}
    (h : e.Cancels s a) : a.finishes = false := by
  rcases h with rfl | ⟨index, ⟨rfl, -⟩ | ⟨rfl, -⟩⟩ <;> rfl

/-- A goroutine that cancels has nothing to save. -/
theorem Execution.Cancels.unsaved {e : Execution} {s : ExecutorState} {index : ℕ} {move : Move}
    (h : e.Cancels s (.worker index move)) {old : Stage} (hold : s.stages[index]? = some old) :
    old.unsaved = [] := by
  rcases h with h | ⟨i, ⟨heq, rest, hstage⟩ | ⟨heq, rest, result, hstage, -⟩⟩
  · cases h
  · obtain ⟨rfl, -⟩ := Action.worker.inj heq
    rw [← Option.some.inj (hstage.symm.trans hold)]
    rfl
  · obtain ⟨rfl, -⟩ := Action.worker.inj heq
    rw [← Option.some.inj (hstage.symm.trans hold)]
    rfl

/-! ## Whole runs -/

theorem allSaved_iff {s : ExecutorState} :
    s.AllSaved ↔ ∀ result, result ∉ s.stages.flatMap Stage.unsaved := by
  rw [← List.eq_nil_iff_forall_not_mem, List.flatMap_eq_nil_iff]
  rfl

/-- States with the same results to save. -/
theorem allSaved_congr {s t : ExecutorState}
    (h : (t.stages.flatMap Stage.unsaved).Perm (s.stages.flatMap Stage.unsaved)) :
    t.AllSaved ↔ s.AllSaved := by
  simp only [allSaved_iff, h.mem_iff]

/-- So far nothing was handed over under a cancelled context, and after a cancellation
nothing is left to hand over. -/
structure Intact (done : List (ExecutorState × Action)) (s : ExecutorState) : Prop where
  handed : ∀ call ∈ done.filterMap handed?, call.2 = false
  allSaved : s.cancelled = true → s.AllSaved

/-- The step lemma: a run stays intact exactly by the steps that spare the results. -/
theorem intact_concat_iff {e : Execution} (hsink : e.hasSink = true)
    {done : List (ExecutorState × Action)} {s t : ExecutorState} {a : Action}
    (hstep : e.step s a = some t) :
    Intact (done ++ [(s, a)]) t ↔ Intact done s ∧ e.Spares s a := by
  have hhanded : (∀ call ∈ (done ++ [(s, a)]).filterMap handed?, call.2 = false) ↔
      (∀ call ∈ done.filterMap handed?, call.2 = false) ∧
        ∀ call ∈ handed? (s, a), call.2 = false := by
    rw [filterMap_concat, List.forall_mem_append]
    simp only [Option.mem_toList, Option.mem_def]
  have hintact : Intact (done ++ [(s, a)]) t ↔ ((∀ call ∈ done.filterMap handed?, call.2 = false) ∧
      ∀ call ∈ handed? (s, a), call.2 = false) ∧ (t.cancelled = true → t.AllSaved) := by
    rw [← hhanded]
    exact ⟨fun h => ⟨h.handed, h.allSaved⟩, fun h => ⟨h.1, h.2⟩⟩
  have hsplit : Intact done s ∧ e.Spares s a ↔ ((∀ call ∈ done.filterMap handed?, call.2 = false) ∧
      (s.cancelled = true → s.AllSaved)) ∧ (s.cancelled = false → e.Cancels s a → s.AllSaved) ∧
        (s.cancelled = true → a.finishes = false) :=
    and_congr ⟨fun h => ⟨h.handed, h.allSaved⟩, fun h => ⟨h.1, h.2⟩⟩
      ⟨fun h => ⟨h.cancel, h.finish⟩, fun h => ⟨h.1, h.2⟩⟩
  rw [hintact, hsplit]
  rcases a with _ | ⟨index, move⟩
  · obtain rfl := Option.some.inj hstep
    have hcancels : e.Cancels s .parentCancel := .inl rfl
    have hnone : handed? (s, .parentCancel) = none := rfl
    cases hcancelled : s.cancelled <;> grind [Action.finishes, ExecutorState.AllSaved]
  · obtain ⟨old, hold, hmove⟩ := step_worker hstep
    obtain ⟨new, hstages, hdelivery⟩ := move_delivery hsink hold hmove
    have hcancels := move_cancels_iff hold hmove
    have hlt : index < s.stages.length := (List.getElem?_eq_some_iff.mp hold).1
    have htrade := flatMap_set_perm new Stage.unsaved hold
    rw [← hstages] at htrade
    cases hdelivery with
    | idle results unsaved unhanded handed finishes =>
      rw [unsaved, List.perm_append_left_iff] at htrade
      have hsame := allSaved_congr htrade
      grind
    | sent result results unsaved unhanded unhanded' handed finishes =>
      rw [unsaved, List.perm_append_left_iff] at htrade
      have hsame := allSaved_congr htrade
      grind
    | ended results unsaved unhanded handed finishes =>
      -- the new result is not saved, so the context must not be cancelled
      have hnot : ¬ t.AllSaved := fun hall =>
        unsaved (hall new (hstages ▸ List.mem_set hlt new))
      have hquiet : ¬ e.Cancels s (.worker index move) := fun h =>
        absurd finishes (by rw [h.finishes]; exact Bool.false_ne_true)
      grind
    | saved result results unsaved unsaved' unhanded unhanded' handed finishes =>
      -- the result was not saved before, so the context must not be cancelled
      have hnot : ¬ s.AllSaved := fun hall => by
        rw [hall old (List.mem_of_getElem? hold)] at unsaved
        cases unsaved
      have hquiet : ¬ e.Cancels s (.worker index move) := fun h => by
        rw [h.unsaved hold] at unsaved
        cases unsaved
      have hcall : (∀ call ∈ handed? (s, .worker index move), call.2 = false) ↔
          s.cancelled = false := by
        simp only [handed, Option.mem_def, Option.some.injEq, forall_eq']
      have hcancelled : t.cancelled = s.cancelled := by
        rw [Bool.eq_iff_iff, hcancels, or_iff_left hquiet]
      rw [hcall, hcancelled, finishes]
      cases s.cancelled <;> simp [hnot, hquiet]

/-- A run stays intact exactly if all its steps spare the results. -/
theorem intact_iff {e : Execution} {rt : Runtime} {actions : List Action} {s : ExecutorState}
    (hsink : e.hasSink = true) (hrun : runFrom e.step (e.init rt) actions = some s) :
    Intact (visits e.step (e.init rt) actions) s ↔
      ∀ visit ∈ visits e.step (e.init rt) actions, e.Spares visit.1 visit.2 := by
  have hinit : Intact [] (e.init rt) ↔
      ∀ visit ∈ ([] : List (ExecutorState × Action)), e.Spares visit.1 visit.2 := by
    refine iff_of_true ⟨?_, ?_⟩ ?_
    · exact fun call hcall => absurd hcall List.not_mem_nil
    · exact fun hcancelled => absurd hcancelled Bool.false_ne_true
    · exact fun visit hvisit => absurd hvisit List.not_mem_nil
  refine history_of_run (J := fun done s => Intact done s ↔ ∀ visit ∈ done, e.Spares visit.1 visit.2)
    (fun {done s a t} hstep h => ?_) hrun hinit
  rw [intact_concat_iff hsink hstep, h, List.forall_mem_append, List.forall_mem_singleton]

/-- The results on the channel were handed to the sink, or are about to be. -/
def Handing (done : List (ExecutorState × Action)) (s : ExecutorState) : Prop :=
  s.results.Perm ((done.filterMap handed?).map Prod.fst ++ s.stages.flatMap Stage.unhanded)

theorem Handing.init (e : Execution) (rt : Runtime) : Handing [] (e.init rt) := by
  have hnone : (e.init rt).stages.flatMap Stage.unhanded = [] := by
    rw [List.flatMap_eq_nil_iff]
    intro stage hstage
    obtain ⟨worker, -, rfl⟩ := List.mem_map.mp hstage
    rfl
  rw [Handing, hnone]
  exact List.Perm.refl []

theorem Handing.step {e : Execution} (hsink : e.hasSink = true)
    {done : List (ExecutorState × Action)} {s t : ExecutorState} {a : Action}
    (hstep : e.step s a = some t) (h : Handing done s) : Handing (done ++ [(s, a)]) t := by
  rw [Handing] at h ⊢
  rw [filterMap_concat, List.map_append]
  rcases a with _ | ⟨index, move⟩
  · obtain rfl := Option.some.inj hstep
    exact (List.append_nil _).symm ▸ h
  · obtain ⟨old, hold, hmove⟩ := step_worker hstep
    obtain ⟨new, hstages, hdelivery⟩ := move_delivery hsink hold hmove
    have htrade := flatMap_set_perm new Stage.unhanded hold
    rw [← hstages] at htrade
    rw [List.perm_iff_count] at h htrade ⊢
    intro r
    have hh := h r
    have ht := htrade r
    cases hdelivery with
    | idle results unsaved unhanded handed =>
      rw [unhanded] at ht
      simp only [results, handed, Option.toList_none, List.map_nil, List.count_append,
        List.count_nil] at hh ht ⊢
      omega
    | ended results unsaved unhanded handed =>
      rw [unhanded] at ht
      simp only [results, handed, Option.toList_none, List.map_nil, List.count_append,
        List.count_nil] at hh ht ⊢
      omega
    | sent result results unsaved unhanded unhanded' handed =>
      simp only [results, handed, unhanded, unhanded', Option.toList_none, List.map_nil,
        List.count_append, List.count_nil] at hh ht ⊢
      omega
    | saved result results unsaved unsaved' unhanded unhanded' handed =>
      simp only [results, handed, unhanded, unhanded', Option.toList_some, List.map_cons,
        List.map_nil, List.count_append, List.count_nil] at hh ht ⊢
      omega

/-! ## What the sink gets -/

/-- **When finished executions reach the store.** -/
theorem persisted_iff_spares {e : Execution} {rt : Runtime} {actions : List Action}
    {s : ExecutorState} (hsink : e.hasSink = true)
    (hrun : runFrom e.step (e.init rt) actions = some s) (hfinished : s.Finished) :
    e.Persisted rt actions s ↔
      ∀ visit ∈ visits e.step (e.init rt) actions, e.Spares visit.1 visit.2 := by
  have hnone : s.stages.flatMap Stage.unhanded = [] := by
    rw [List.flatMap_eq_nil_iff]
    intro stage hstage
    rw [hfinished stage hstage]
    rfl
  have hhanding : Handing (visits e.step (e.init rt) actions) s :=
    history_of_run (J := Handing) (Handing.step hsink) hrun (.init e rt)
  rw [Handing, hnone, List.append_nil] at hhanding
  have houtput : (s.output rt).Perm
      (((visits e.step (e.init rt) actions).filterMap handed?).map Prod.fst) :=
    (rt.sortSlice_perm ..).trans hhanding
  rw [← intact_iff hsink hrun]
  refine ⟨fun hperm => ?_, fun hintact => ?_⟩
  · refine ⟨fun call hcall => ?_, fun _ stage hstage => ?_⟩
    · obtain ⟨result, -, rfl⟩ := List.mem_map.mp (hperm.mem_iff.mp hcall)
      rfl
    · rw [hfinished stage hstage]
      rfl
  · have hsame : (visits e.step (e.init rt) actions).filterMap handed? =
        (((visits e.step (e.init rt) actions).filterMap handed?).map Prod.fst).map
          fun result => (result, false) := by
      rw [List.map_map]
      refine (List.map_id _).symm.trans (List.map_congr_left fun call hcall => ?_)
      exact Prod.ext rfl (hintact.handed call hcall)
    rw [Execution.Persisted, hsame]
    exact (houtput.map _).symm

/-- A run in which `b` fails, and each result is saved while the other worker goes on. -/
def Execution.savedRun : List Action :=
  [.worker 0 .take, .worker 1 .take, .worker 0 .begin, .worker 1 .begin,
    .worker 1 (.start Execution.eb 0), .worker 0 (.start Execution.ea 1),
    .worker 1 (.finish false (.code 1) 4 none), .worker 0 (.finish false .success 5 none),
    .worker 1 .report, .worker 0 .report, .worker 0 (.save none), .worker 0 .judge,
    .worker 1 (.save none), .worker 1 .judge, .worker 1 .take,
    .worker 0 .take, .worker 0 .begin, .worker 0 (.start Execution.ec 6),
    .worker 0 (.finish false .success 9 none), .worker 0 .report, .worker 0 (.save none),
    .worker 0 .judge, .worker 0 .take]

theorem persisted_iff_spares_pair :
    ∃ s, runFrom (Execution.pair false true).step ((Execution.pair false true).init .reference)
        Execution.savedRun = some s ∧
      ((Execution.pair false true).Persisted .reference Execution.savedRun s ↔
        ∀ visit ∈ visits (Execution.pair false true).step
          ((Execution.pair false true).init .reference) Execution.savedRun,
          (Execution.pair false true).Spares visit.1 visit.2) :=
  ⟨⟨[.done, .done], false,
      [⟨"eb", "run", "b", "b", 1, .failed, 0, 4, 1, false⟩,
        ⟨"ea", "run", "a", "a", 0, .passed, 1, 5, 0, false⟩,
        ⟨"ec", "run", "c", "c", 0, .passed, 6, 9, 0, false⟩], [],
      [⟨"ea", "run", "a", "a", 0, .passed, 1, 5, 0, false⟩,
        ⟨"eb", "run", "b", "b", 1, .failed, 0, 4, 1, false⟩,
        ⟨"ec", "run", "c", "c", 0, .passed, 6, 9, 0, false⟩]⟩,
    by decide +kernel, persisted_iff_spares rfl (by decide +kernel) (by decide +kernel)⟩

/-- One test on one worker, with a sink. -/
def Execution.singleSaved : Execution := { Execution.single with hasSink := true }

/-- A run in which the parent context is cancelled after the process has ended. -/
def Execution.singleCutRun : List Action :=
  [.worker 0 .take, .worker 0 .begin, .worker 0 (.start ⟨"e", Execution.single_id_ne⟩ 0),
    .worker 0 (.finish false .success 1 none), .parentCancel, .worker 0 .report,
    .worker 0 (.save (some "context canceled")), .worker 0 .judge, .worker 0 .take]

/-- **A test that passed is not stored.** The parent context is cancelled between the end of
the process and the save, so `SaveExecution` is called with a cancelled context. -/
theorem not_persisted_cut :
    Execution.singleSaved.schedule.validate = .ok () ∧
      ∃ s, runFrom Execution.singleSaved.step (Execution.singleSaved.init .reference)
          Execution.singleCutRun = some s ∧
        s.Finished ∧ (s.output .reference).map ExecutionResult.status = [.passed] ∧
        ¬ Execution.singleSaved.Persisted .reference Execution.singleCutRun s :=
  ⟨by decide +kernel,
    ⟨[.done], true, [⟨"e", "run", "a", "a", 0, .passed, 0, 1, 0, false⟩],
      ["persist execution e: context canceled"],
      [⟨"e", "run", "a", "a", 0, .passed, 0, 1, 0, false⟩]⟩,
    by decide +kernel, by decide +kernel, by decide +kernel, by
      unfold Execution.Persisted
      decide +kernel⟩

end ConflictGraph.Go
