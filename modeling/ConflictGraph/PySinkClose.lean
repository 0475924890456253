import ConflictGraph.PySinkThread

/-!
# What closing an event sink can do

Two consequences of how the parties of an `EventSink` work together. `close` hands the writer
its sentinel through the queue that it shares with the events, and a writer that has failed
makes no room there. And `submit` counts every event as captured, also the one that it then
drops, while `completeness` divides by the captured and the dropped events together.
-/

namespace ConflictGraph.Py

namespace EventSink

variable {interpreter : Interpreter} {policy : NormalizationPolicy} {capacity : ℕ}
  {s t : EventSink} {ls : List SinkAction} {quality : TraceQuality}

/-! ## Blocking -/

/-- `close` was called and has neither returned nor raised. -/
def ClosePending (s : EventSink) : Prop := s.close = .putting ∨ s.close = .joining

/-- The thread in `close` or the writer has a step to do. -/
def CanMove (interpreter : Interpreter) (policy : NormalizationPolicy) (capacity : ℕ)
    (s : EventSink) : Prop :=
  ∃ l : SinkAction, (l.isClose = true ∨ l.isWriter = true) ∧
    (step interpreter policy capacity s l).isSome = true

/-- The writer has failed, and its queue has no room for the sentinel. -/
def Stuck (capacity : ℕ) (s : EventSink) : Prop :=
  s.writer = .failed ∧ s.close = .putting ∧ ¬ s.HasRoom capacity

/-- Waiting for the writer comes to an end. -/
theorem canMove_of_joining (h : s.close = .joining) : CanMove interpreter policy capacity s := by
  by_cases hended : s.writer = .finished ∨ s.writer = .failed
  · refine ⟨.join, .inl rfl, ?_⟩
    rcases hended with hwriter | hwriter <;> simp [step, h, hwriter]
  · obtain ⟨hfinished, hfailed⟩ := not_or.mp hended
    refine ⟨.timeout, .inl rfl, ?_⟩
    simp [step, h]

/-- A writer that has not come to its end makes room in a full queue. -/
theorem canMove_of_full (hfull : ¬ s.HasRoom capacity) (hfinished : s.writer ≠ .finished)
    (hfailed : s.writer ≠ .failed) : CanMove interpreter policy capacity s := by
  rcases hwriter : s.writer with _ | _ | event | _ | _ | _
  · exact ⟨.openFile true, .inr rfl, by simp [step, hwriter]⟩
  · obtain ⟨hbounded, hlength⟩ := not_or.mp hfull
    obtain ⟨item, queue, hqueue⟩ := List.exists_cons_of_ne_nil (l := s.queue) fun hnil => by
      rw [hnil] at hlength
      exact hlength (Nat.pos_of_ne_zero hbounded)
    exact ⟨.get, .inr rfl, by cases item <;> simp [step, hwriter, hqueue]⟩
  · exact ⟨.write true, .inr rfl, by simp [step, hwriter]⟩
  · exact ⟨.closeFile true, .inr rfl, by simp [step, hwriter]⟩
  · exact absurd hwriter hfinished
  · exact absurd hwriter hfailed

theorem not_canMove_of_stuck (h : s.Stuck capacity) : ¬ CanMove interpreter policy capacity s := by
  obtain ⟨hwriter, hclose, hfull⟩ := h
  rintro ⟨l, hparty, hmoves⟩
  obtain ⟨t, hstep⟩ := Option.isSome_iff_exists.mp hmoves
  cases effect_of_step hstep with
  | submit | accept | refuse | drop | callClose => rcases hparty with h | h <;> cases h
  | openFile _ h | getSentinel h | getEvent h | filter _ h | write h | fail _ h | closeFile _ h =>
    rw [hwriter] at h
    cases h
  | putSentinel _ hroom => exact hfull hroom
  | returns h | raises h | timeout h =>
    rw [hclose] at h
    cases h

/-- **When closing can go on**: in every state that is reached, unless the writer has failed and
the sentinel does not fit into the queue. -/
theorem canMove_iff (hrun : runFrom (step interpreter policy capacity) started ls = some s)
    (hpending : s.ClosePending) :
    CanMove interpreter policy capacity s ↔ ¬ s.Stuck capacity := by
  refine ⟨fun hmoves hstuck => not_canMove_of_stuck hstuck hmoves, fun hfree => ?_⟩
  rcases hpending with hputting | hjoining
  · by_cases hroom : s.HasRoom capacity
    · exact ⟨.putSentinel, .inl rfl, by simp [step, hputting, hroom]⟩
    · refine canMove_of_full hroom (opened_of_run hrun (.inr hputting)).finished fun hfailed => ?_
      exact hfree ⟨hfailed, hputting, hroom⟩
  · exact canMove_of_joining hjoining

/-- The file cannot be opened, and one event fills the queue. -/
def stuckRun : List SinkAction :=
  [.openFile false, .submit writeOfFile, .put 0, .callClose]

/-- A writer that works goes on where the queue is full. -/
theorem canMove_fullRun :
    ∃ s, runFrom (step asciiInterpreter {} 1) started
        [.openFile true, .submit writeOfFile, .put 0, .callClose] = some s ∧
      CanMove asciiInterpreter {} 1 s := by
  have hrun : runFrom (step asciiInterpreter {} 1) started
      [.openFile true, .submit writeOfFile, .put 0, .callClose] = some _ := rfl
  exact ⟨_, hrun, (canMove_iff hrun (.inl rfl)).mpr fun h => WriterPhase.noConfusion h.1⟩

/-- **`close` waits for ever** where the writer has failed and left the queue full. -/
theorem not_canMove_stuckRun :
    ¬ ∀ s, runFrom (step asciiInterpreter {} 1) started stuckRun = some s → s.ClosePending →
      CanMove asciiInterpreter {} 1 s := by
  intro h
  have hmoves := h _ rfl (.inl rfl)
  exact not_canMove_of_stuck ⟨rfl, rfl, by decide⟩ hmoves

/-! ## Counting twice -/

/-- The property of a run that has come to its end: the completeness is the part of the calls of
`submit` that a line was written for. -/
def CountsOnce (t : EventSink) (quality : TraceQuality) : Prop :=
  t.submits ≠ 0 → quality.completeness = t.lines.length / t.submits

/-- Nothing was dropped exactly if no call of `submit` came to count a drop. -/
theorem dropped_eq_zero_iff (hrun : runFrom (step interpreter policy capacity) started ls = some s) :
    s.quality.dropped = 0 ↔ ∀ l ∈ ls, l.isDrop = false := by
  have hstart : started.quality.dropped = 0 ↔
      ∀ visit ∈ ([] : List (EventSink × SinkAction)), visit.2.isDrop = false :=
    iff_of_true rfl fun _ h => absurd h List.not_mem_nil
  have hhistory := history_of_run
    (J := fun done s => s.quality.dropped = 0 ↔ ∀ visit ∈ done, visit.2.isDrop = false)
    (fun {done s l t} hstep hs => by
      rw [List.forall_mem_append, ← hs, List.forall_mem_singleton]
      cases effect_of_step hstep with
      | drop => exact iff_of_false (Nat.succ_ne_zero _) fun h => Bool.noConfusion h.2
      | submit | accept | refuse | openFile | getSentinel | getEvent | filter | write | fail
      | closeFile | callClose | putSentinel | returns | raises | timeout =>
        exact (and_iff_left rfl).symm) hrun hstart
  rw [List.nil_append] at hhistory
  refine hhistory.trans ?_
  conv_rhs => rw [← map_snd_visits hrun]
  rw [List.forall_mem_map]

/-- A writer that has not failed is done with an event exactly if it wrote or filtered one. -/
theorem handled_eq_nil_iff (hrun : runFrom (step interpreter policy capacity) started ls = some s)
    (hfailed : s.writer ≠ .failed) : s.handled = [] ↔ ∀ l ∈ ls, l.isWrite = false := by
  have hstart : started.writer ≠ .failed → (started.handled = [] ↔
      ∀ visit ∈ ([] : List (EventSink × SinkAction)), visit.2.isWrite = false) :=
    fun _ => iff_of_true rfl fun _ h => absurd h List.not_mem_nil
  have hhistory := history_of_run
    (J := fun done s => s.writer ≠ .failed →
      (s.handled = [] ↔ ∀ visit ∈ done, visit.2.isWrite = false))
    (fun {done s l t} hstep hs hfailed => by
      rw [List.forall_mem_append, List.forall_mem_singleton]
      cases effect_of_step hstep with
      | filter | write =>
        exact iff_of_false (List.append_ne_nil_of_right_ne_nil _ (List.cons_ne_nil _ _))
          fun h => Bool.noConfusion h.2
      | fail => exact absurd rfl hfailed
      | openFile _ h | getSentinel h | getEvent h | closeFile _ h =>
        rw [← hs (by rw [h]; exact WriterPhase.noConfusion)]
        exact (and_iff_left rfl).symm
      | submit | accept | refuse | drop | callClose | putSentinel | returns | raises | timeout =>
        rw [← hs hfailed]
        exact (and_iff_left rfl).symm) hrun hstart
  rw [List.nil_append] at hhistory
  refine (hhistory hfailed).trans ?_
  conv_rhs => rw [← map_snd_visits hrun]
  rw [List.forall_mem_map]

/-- A quotient stays the same with a larger denominator exactly if one of the two that this
depends on is zero. -/
theorem div_add_eq_div_iff {processed captured dropped : ℕ} (h : captured ≠ 0) :
    (processed : ℚ) / (captured + dropped : ℕ) = processed / captured ↔
      dropped = 0 ∨ processed = 0 := by
  have hcaptured : (captured : ℚ) ≠ 0 := by exact_mod_cast h
  have hsum : ((captured + dropped : ℕ) : ℚ) ≠ 0 := by
    exact_mod_cast fun hzero => h (Nat.eq_zero_of_add_eq_zero hzero).1
  rw [div_eq_div_iff hsum hcaptured, Nat.cast_add, mul_add, eq_comm, add_eq_left, mul_eq_zero]
  norm_cast
  exact or_comm

/-- **When each submitted event is counted once**, where the normaliser filters nothing: if
nothing is dropped, or nothing is written. -/
theorem countsOnce_iff (hreturns : Returns interpreter policy capacity ls t quality)
    (hkept : filtered interpreter policy t.accepted = []) :
    CountsOnce t quality ↔ (∀ l ∈ ls, l.isDrop = false) ∨ ∀ l ∈ ls, l.isWrite = false := by
  obtain ⟨s, hrun, -, hwriter, rfl, rfl⟩ := hreturns.exists_run
  have hfailed : s.writer ≠ .failed := by
    rw [hwriter]
    exact WriterPhase.noConfusion
  obtain ⟨hsubmits, hcaptured⟩ := counts_of_run hrun
  have hwrites := writes_of_run hrun
  -- as nothing is filtered, there is a line for each event that was handled
  have hlines : s.handled.length = s.lines.length := by
    have hnone : filtered interpreter policy s.handled = [] := by
      change filtered interpreter policy s.accepted = [] at hkept
      rw [hwrites.accepted hfailed, List.append_assoc, filtered, List.filter_append] at hkept
      exact (List.append_eq_nil_iff.mp hkept).1
    have hforms := length_forms (exists_form_of_consume hwrites.consume)
    rw [hforms, hnone, hwrites.lines, List.length_map]
    rfl
  have hhandled : s.handled = [] ↔ s.quality.processed = 0 := by
    rw [← List.length_eq_zero_iff, hlines, hwrites.processed]
  rw [← dropped_eq_zero_iff hrun, ← handled_eq_nil_iff hrun hfailed, hhandled, CountsOnce]
  change (s.submits ≠ 0 → s.quality.completeness = s.lines.length / s.submits) ↔ _
  rw [hsubmits, ← hwrites.processed]
  by_cases hzero : s.quality.captured = 0
  · exact iff_of_true (fun h => absurd hzero h) (.inl (by omega))
  · rw [TraceQuality.completeness, if_neg fun h => hzero (Nat.eq_zero_of_add_eq_zero h).1,
      div_add_eq_div_iff hzero]
    exact ⟨fun h => h hzero, fun h _ => h⟩

/-- Two events, neither of which is dropped. -/
def unhurriedRun : List SinkAction :=
  [.submit writeOfFile, .openFile true, .put 0, .get, .write true, .submit writeOfFile, .put 0,
    .get, .write true, .callClose, .putSentinel, .get, .closeFile true]

/-- Both of them are written, and the quality says so. -/
theorem countsOnce_unhurriedRun :
    ∃ t quality, Returns asciiInterpreter {} 1 unhurriedRun t quality ∧ CountsOnce t quality := by
  obtain ⟨t, quality, h⟩ := @exists_returns asciiInterpreter {} 1 unhurriedRun (by decide +kernel)
  refine ⟨t, quality, h, (countsOnce_iff h ?_).mpr (.inl (by decide))⟩
  obtain ⟨s, hrun, -, -, rfl, rfl⟩ := h.exists_run
  have hfiltered : (runFrom (step asciiInterpreter {} 1) started unhurriedRun).all
      (fun s => filtered asciiInterpreter {} s.accepted = []) = true := by decide +kernel
  rw [hrun] at hfiltered
  exact of_decide_eq_true hfiltered

/-- **A drop counts twice**: of two events one is written, and the completeness is a third. -/
theorem not_countsOnce_refusedRun :
    ¬ ∀ t quality, Returns asciiInterpreter {} 1 refusedRun t quality →
      filtered asciiInterpreter {} t.accepted = [] → CountsOnce t quality := by
  intro h
  obtain ⟨t, quality, hreturns⟩ := @exists_returns asciiInterpreter {} 1 refusedRun
    (by decide +kernel)
  obtain ⟨s, hrun, -, -, rfl, rfl⟩ := hreturns.exists_run
  have hcounts : (runFrom (step asciiInterpreter {} 1) started refusedRun).all (fun s =>
      filtered asciiInterpreter {} s.accepted = [] ∧ s.submits = 2 ∧ s.lines.length = 1 ∧
        s.quality = ⟨2, 1, 1, 0, 0⟩) = true := by decide +kernel
  rw [hrun] at hcounts
  obtain ⟨hfiltered, hsubmits, hlines, hquality⟩ := of_decide_eq_true hcounts
  have hcounts := h _ _ hreturns hfiltered
  rw [CountsOnce] at hcounts
  simp only [hsubmits, hlines, hquality] at hcounts
  exact absurd (hcounts (by decide)) (by decide +kernel)

end EventSink

end ConflictGraph.Py
