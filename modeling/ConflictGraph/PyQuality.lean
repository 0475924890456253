import Mathlib.Algebra.Order.Field.Rat
import Mathlib.Tactic.Linarith
import Mathlib.Tactic.Positivity
import ConflictGraph.PyReplay

/-!
# What the quality gate accepts

`TraceQuality.score` multiplies the part of the trace that was processed by the part of that
which was attributed. It is one exactly if nothing that was captured or dropped is missing from
what was processed, and all of that is attributed (`score_eq_one_iff`). What the policy filters
was captured and is not processed, so a trace that nothing is lost of can score anything from
zero to one.

Quotients are exact. A Python `float` rounds them, but to one only if they are one, for traces
of fewer than `2 ^ 53` lines.
-/

namespace ConflictGraph.Py

/-! ## The score -/

namespace TraceQuality

variable (quality : TraceQuality)

/-- `completeness`. -/
def completeness : ℚ :=
  if quality.captured + quality.dropped = 0 then 1
  else quality.processed / (quality.captured + quality.dropped : ℕ)

/-- `attribution_rate`. -/
def attributionRate : ℚ :=
  if quality.processed = 0 then 1 else 1 - quality.unattributed / quality.processed

/-- `score`. -/
def score : ℚ := max 0 (min 1 (quality.completeness * quality.attributionRate))

variable {quality}

theorem completeness_nonneg : 0 ≤ quality.completeness := by
  rw [completeness]
  split
  · exact zero_le_one
  · positivity

theorem attributionRate_le_one : quality.attributionRate ≤ 1 := by
  rw [attributionRate]
  split
  · exact le_refl 1
  · exact sub_le_self 1 (by positivity)

theorem completeness_le_one (h : quality.processed ≤ quality.captured + quality.dropped) :
    quality.completeness ≤ 1 := by
  rw [completeness]
  split
  · exact le_refl 1
  · exact div_le_one_of_le₀ (by exact_mod_cast h) (by positivity)

theorem completeness_eq_one_iff :
    quality.completeness = 1 ↔
      quality.captured + quality.dropped = 0 ∨
        quality.processed = quality.captured + quality.dropped := by
  rw [completeness]
  split
  · rename_i hzero
    exact iff_of_true rfl (.inl hzero)
  · rename_i hpos
    rw [or_iff_right hpos, div_eq_one_iff_eq (by exact_mod_cast hpos)]
    norm_cast

theorem attributionRate_eq_one_iff (h : quality.unattributed ≤ quality.processed) :
    quality.attributionRate = 1 ↔ quality.unattributed = 0 := by
  rw [attributionRate]
  split
  · rename_i hzero
    exact iff_of_true rfl (Nat.le_zero.mp (hzero ▸ h))
  · rename_i hpos
    have hne : (quality.processed : ℚ) ≠ 0 := by exact_mod_cast hpos
    rw [sub_eq_self, div_eq_zero_iff, or_iff_left hne]
    norm_cast

/-- **A perfect score**: all that was captured or dropped is processed and attributed. -/
theorem score_eq_one_iff (hprocessed : quality.processed ≤ quality.captured + quality.dropped)
    (hunattributed : quality.unattributed ≤ quality.processed) :
    quality.score = 1 ↔
      quality.processed = quality.captured + quality.dropped ∧ quality.unattributed = 0 := by
  have hcomplete := completeness_le_one hprocessed
  have hrate : quality.attributionRate ≤ 1 := attributionRate_le_one
  refine ⟨?_, ?_⟩
  · intro h
    -- a product of two factors that are at most one is one
    have hproduct : 1 ≤ quality.completeness * quality.attributionRate := by
      by_contra hlt
      have hmin : min 1 (quality.completeness * quality.attributionRate) < 1 :=
        (min_le_right _ _).trans_lt (not_le.mp hlt)
      exact (max_lt zero_lt_one hmin).ne h
    have hleft : quality.completeness * quality.attributionRate ≤ quality.completeness :=
      mul_le_of_le_one_right completeness_nonneg hrate
    have hone : quality.completeness = 1 := le_antisymm hcomplete (hproduct.trans hleft)
    rw [hone, one_mul] at hproduct
    refine ⟨?_, (attributionRate_eq_one_iff hunattributed).mp (le_antisymm hrate hproduct)⟩
    rcases completeness_eq_one_iff.mp hone with hzero | heq
    · omega
    · exact heq
  · rintro ⟨heq, hzero⟩
    have hone : quality.completeness = 1 := completeness_eq_one_iff.mpr (.inr heq)
    have hrate' : quality.attributionRate = 1 := (attributionRate_eq_one_iff hunattributed).mpr hzero
    rw [score, hone, hrate', mul_one, min_self]
    exact max_eq_right zero_le_one

end TraceQuality

/-- The `TraceQualityError` of `require_quality`: the numbers that its text gives. -/
structure TraceQualityError : Type where
  score : ℚ
  minimum : ℚ
  dropped : ℕ
  unattributed : ℕ
  parseFailures : ℕ
  deriving DecidableEq

/-- `require_quality`. -/
def requireQuality (quality : TraceQuality) (minimum : ℚ) : Except TraceQualityError Unit :=
  if quality.score < minimum then
    .error ⟨quality.score, minimum, quality.dropped, quality.unattributed, quality.parseFailures⟩
  else .ok ()

/-- A perfect score passes every gate. -/
theorem requireQuality_of_score_eq_one {quality : TraceQuality} (h : quality.score = 1)
    {minimum : ℚ} (hle : minimum ≤ 1) : requireQuality quality minimum = .ok () :=
  if_neg (h.symm ▸ hle.not_gt)

/-! ## The events of a trace -/

/-- `TraceEvent.from_dict(json.loads(stripped))`. -/
def parseEvent (interpreter : Interpreter) (stripped : Str) : Except ExceptionType TraceEvent :=
  loads interpreter.loadsDepth stripped >>= TraceEvent.fromDict interpreter

namespace ReplayTracer

variable {tracer : ReplayTracer}

theorem ingest_eq (stripped : Str) :
    tracer.ingest stripped = parseEvent tracer.interpreter stripped >>= tracer.normalizeEvent :=
  (bind_assoc ..).symm

theorem verdict_of_parse {line : Str} (hline : line.strip ≠ []) {event : TraceEvent}
    (h : parseEvent tracer.interpreter line.strip = .ok event) :
    tracer.verdict line = match tracer.normalizeEvent event with
      | .error e => if caught e then .parseFailure else .aborts e
      | .ok none => .filtered
      | .ok (some event) => .processed event := by
  rw [verdict, if_neg hline, ingest_eq, h]
  rfl

/-- The line is processed exactly if the policy keeps its event. -/
theorem isSome_event?_iff {line : Str} (hline : line.strip ≠ []) {event : TraceEvent}
    (h : parseEvent tracer.interpreter line.strip = .ok event) :
    (tracer.verdict line).event?.isSome = true ↔
      ∃ normalized, tracer.normalizeEvent event = .ok (some normalized) := by
  rw [verdict_of_parse hline h]
  rcases tracer.normalizeEvent event with e | (_ | normalized)
  · rcases hcaught : caught e <;> simp [hcaught, Verdict.event?]
  · simp [Verdict.event?]
  · simp [Verdict.event?]

/-- The line is given to the consumer without a test. -/
def isUnattributed (tracer : ReplayTracer) (line : Str) : Bool :=
  (tracer.verdict line).event?.any fun event => event.testID = []

/-- A replay drops nothing, and counts the events without a test. -/
theorem replay_unattributed {lines : List Str} {s : ReplayState}
    (h : tracer.replay lines = .ok s) :
    s.quality.dropped = 0 ∧ s.quality.unattributed = lines.countP tracer.isUnattributed := by
  have hstep : ∀ {done : List Str} {line : Str} {s s' : ReplayState},
      s.quality.dropped = 0 ∧ s.quality.unattributed = done.countP tracer.isUnattributed →
        tracer.line s line = .ok s' →
          s'.quality.dropped = 0 ∧
            s'.quality.unattributed = (done ++ [line]).countP tracer.isUnattributed := by
    rintro done line s s' ⟨hdropped, hcount⟩ hline
    rw [List.countP_append, List.countP_singleton, ← hcount, isUnattributed]
    rw [line_eq] at hline
    rcases hverdict : tracer.verdict line with _ | _ | _ | event | e <;> rw [hverdict] at hline
    · obtain rfl := Except.ok.inj hline
      exact ⟨hdropped, rfl⟩
    · obtain rfl := Except.ok.inj hline
      exact ⟨hdropped, rfl⟩
    · obtain rfl := Except.ok.inj hline
      exact ⟨hdropped, rfl⟩
    · obtain ⟨-, -, rfl⟩ := eq_ok_of_map_eq_ok hline
      refine ⟨hdropped, ?_⟩
      simp [Verdict.event?]
    · cases hline
  exact @foldlM_invariant _ _ _ _
    (fun done s => s.quality.dropped = 0 ∧
      s.quality.unattributed = done.countP tracer.isUnattributed)
    hstep lines [] _ _ ⟨rfl, rfl⟩ h

/-- A replay without pauses returns if no line aborts. -/
theorem paced_of_speed_eq_zero (h : tracer.speed = .finite 0) (lines : List Str) :
    tracer.Paced lines := by
  rw [Paced, h]
  exact (List.pairwise_of_forall fun last next => .inl rfl).isChain

/-- A line that is not blank is processed, unless it fails, is filtered or aborts. -/
theorem isSome_event?_of_verdict {line : Str} (hline : line.strip ≠ [])
    (hfailure : (tracer.verdict line).isParseFailure = false)
    (hfiltered : (tracer.verdict line).isFiltered = false) (habort : ¬ tracer.Aborts line) :
    (tracer.verdict line).event?.isSome = true := by
  have hblank : (tracer.verdict line).isBlank = false := by
    rw [isBlank_verdict]
    exact decide_eq_false hline
  cases hverdict : tracer.verdict line with
  | blank =>
    rw [hverdict] at hblank
    cases hblank
  | parseFailure =>
    rw [hverdict] at hfailure
    cases hfailure
  | filtered =>
    rw [hverdict] at hfiltered
    cases hfiltered
  | processed event => rfl
  | aborts e => exact absurd (verdict_aborts_iff.mp ⟨e, hverdict⟩) habort

/-- What is not attributed is processed. -/
theorem countP_isUnattributed_le (lines : List Str) :
    lines.countP tracer.isUnattributed ≤
      lines.countP fun line => (tracer.verdict line).event?.isSome := by
  refine List.countP_mono_left fun line _ h => ?_
  rw [isUnattributed] at h
  cases hevent : (tracer.verdict line).event? with
  | none =>
    rw [hevent] at h
    cases h
  | some event => rfl

/-- **A perfect replay**: it returns with a score of one exactly if every line that is not blank
is processed, with a test. -/
theorem replay_score_eq_one_iff (hspeed : tracer.speed = .finite 0) {lines : List Str} :
    (∃ s, tracer.replay lines = .ok s ∧ s.quality.score = 1) ↔
      ∀ line ∈ lines, line.strip ≠ [] →
        (tracer.verdict line).event?.isSome = true ∧ tracer.isUnattributed line = false := by
  have hpaced := paced_of_speed_eq_zero hspeed lines
  have hscore : ∀ {s}, tracer.replay lines = .ok s → (s.quality.score = 1 ↔
      s.quality.processed = s.quality.captured ∧ lines.countP tracer.isUnattributed = 0) := by
    intro s hs
    have haccounts := replay_accounts hs
    obtain ⟨hdropped, hcount⟩ := replay_unattributed hs
    have hprocessed := haccounts.filtered
    rw [TraceQuality.score_eq_one_iff (by omega), hdropped, hcount, add_zero]
    rw [hcount, haccounts.processed]
    exact countP_isUnattributed_le lines
  refine ⟨?_, fun h => ?_⟩
  · rintro ⟨s, hs, hone⟩
    have haccounts := replay_accounts hs
    obtain ⟨hall, hattributed⟩ := (hscore hs).mp hone
    have hfilled := haccounts.filtered
    have hfailures : lines.countP (fun line => (tracer.verdict line).isParseFailure) = 0 := by
      rw [← haccounts.parseFailures]
      omega
    have hfiltered : lines.countP (fun line => (tracer.verdict line).isFiltered) = 0 := by
      omega
    rw [List.countP_eq_zero] at hfailures hfiltered hattributed
    have haborts := ((replay_accounts_iff tracer lines).mp ⟨s, hs, haccounts⟩).1
    intro line hmem hline
    exact ⟨isSome_event?_of_verdict hline (Bool.eq_false_of_not_eq_true (hfailures line hmem))
      (Bool.eq_false_of_not_eq_true (hfiltered line hmem)) (haborts line hmem),
      Bool.eq_false_of_not_eq_true (hattributed line hmem)⟩
  · have haborts : ∀ line ∈ lines, ¬ tracer.Aborts line := by
      intro line hmem habort
      obtain ⟨hsome, -⟩ := h line hmem habort.1
      obtain ⟨e, he⟩ := verdict_aborts_iff.mpr habort
      rw [he] at hsome
      cases hsome
    obtain ⟨s, hs, haccounts⟩ := (replay_accounts_iff tracer lines).mpr ⟨haborts, hpaced⟩
    refine ⟨s, hs, (hscore hs).mpr ⟨?_, ?_⟩⟩
    · rw [haccounts.processed, haccounts.captured]
      refine List.countP_congr fun line hmem => ?_
      rw [decide_eq_true_eq]
      refine ⟨fun hsome hblank => ?_, fun hline => (h line hmem hline).1⟩
      have hverdict : tracer.verdict line = .blank := if_pos hblank
      rw [hverdict] at hsome
      cases hsome
    · refine List.countP_eq_zero.mpr fun line hmem htrue => ?_
      by_cases hline : line.strip = []
      · have hverdict : tracer.verdict line = .blank := if_pos hline
        rw [isUnattributed, hverdict] at htrue
        cases htrue
      · rw [(h line hmem hline).2] at htrue
        cases htrue

end ReplayTracer

/-! ## Lossless traces -/

section Lossless

variable (interpreter : Interpreter) (policy : NormalizationPolicy) (lines : List Str)

/-- `read_events`, which replays without pauses. -/
def readEvents : Except ExceptionType (List TraceEvent × TraceQuality) :=
  (ReplayTracer.replay ⟨interpreter, policy, .finite 0⟩ lines).map fun s =>
    (s.consumed, s.quality)

/-- Every line that is not blank is an event of a test. -/
def Lossless : Prop :=
  ∀ line ∈ lines, line.strip ≠ [] →
    ∃ event, parseEvent interpreter line.strip = .ok event ∧ event.testID ≠ []

/-- The policy keeps the event of every line. -/
def KeepsAll : Prop :=
  ∀ line ∈ lines, line.strip ≠ [] → ∀ event, parseEvent interpreter line.strip = .ok event →
    ∃ identifier, policy.normalizeIdentifier interpreter event.resourceType
      event.resourceIdentifier event.operation = .ok (some identifier)

variable {interpreter policy lines}

/-- **When a lossless trace passes the gate**: exactly if the policy keeps all of its events. -/
theorem readEvents_perfect_iff (h : Lossless interpreter lines) :
    (∃ events quality, readEvents interpreter policy lines = .ok (events, quality) ∧
        quality.score = 1 ∧
        ∀ minimum : ℚ, 0 ≤ minimum → minimum ≤ 1 → requireQuality quality minimum = .ok ()) ↔
      KeepsAll interpreter policy lines := by
  have hgate : (∃ events quality, readEvents interpreter policy lines = .ok (events, quality) ∧
        quality.score = 1 ∧
        ∀ minimum : ℚ, 0 ≤ minimum → minimum ≤ 1 → requireQuality quality minimum = .ok ()) ↔
      ∃ s, ReplayTracer.replay ⟨interpreter, policy, .finite 0⟩ lines = .ok s ∧
        s.quality.score = 1 := by
    refine ⟨?_, ?_⟩
    · rintro ⟨events, quality, hread, hscore, -⟩
      obtain ⟨s, hs, heq⟩ := eq_ok_of_map_eq_ok hread
      obtain ⟨-, rfl⟩ := Prod.mk.inj heq
      exact ⟨s, hs, hscore⟩
    · rintro ⟨s, hs, hscore⟩
      exact ⟨s.consumed, s.quality, by rw [readEvents, hs]; rfl, hscore,
        fun minimum _ hle => requireQuality_of_score_eq_one hscore hle⟩
  rw [hgate, ReplayTracer.replay_score_eq_one_iff rfl]
  refine forall₃_congr fun line hmem hline => ?_
  obtain ⟨event, hparse, htest⟩ := h line hmem hline
  rw [ReplayTracer.isSome_event?_iff hline hparse]
  refine ⟨?_, fun hkeeps => ?_⟩
  · rintro ⟨⟨normalized, hnormalized⟩, -⟩ event' hparse'
    obtain rfl := Except.ok.inj (hparse.symm.trans hparse')
    obtain ⟨identifier, hidentifier, hmap⟩ := eq_ok_of_map_eq_ok hnormalized
    obtain ⟨identifier, rfl, -⟩ := Option.map_eq_some_iff.mp hmap
    exact ⟨identifier, hidentifier⟩
  · obtain ⟨identifier, hidentifier⟩ := hkeeps event hparse
    have hnormalized : ReplayTracer.normalizeEvent ⟨interpreter, policy, .finite 0⟩ event =
        .ok (some { event with resourceIdentifier := identifier }) := by
      rw [ReplayTracer.normalizeEvent, hidentifier]
      rfl
    refine ⟨⟨_, hnormalized⟩, ?_⟩
    rw [ReplayTracer.isUnattributed, ReplayTracer.verdict_of_parse hline hparse, hnormalized]
    exact decide_eq_false htest

theorem lossless_singleton {line test : Str}
    (h : (parseEvent interpreter line.strip).map TraceEvent.testID = .ok test) (htest : test ≠ []) :
    Lossless interpreter [line] := by
  intro line' hmem _
  obtain rfl := List.mem_singleton.mp hmem
  obtain ⟨event, hevent, rfl⟩ := eq_ok_of_map_eq_ok h
  exact ⟨event, hevent, htest⟩

/-- A line of an access to a shared library by a test. -/
def libraryAccess (operation : String) : Str :=
  str ("\x7b\"execution_id\": \"e\", \"test_id\": \"t\", \"timestamp_ns\": 1, " ++
    "\"resource_type\": \"FILE\", \"resource_identifier\": \"/usr/lib/libc.so\", " ++
    "\"operation\": \"" ++ operation ++ "\", \"access_mode\": \"" ++ operation ++ "\"\x7d")

/-- The trace of one event that the default policy filters is refused. -/
theorem not_perfect_libraryRead :
    ¬ (Lossless ReplayTracer.ascii.interpreter [libraryAccess "READ"] →
      ∃ events quality, readEvents ReplayTracer.ascii.interpreter {} [libraryAccess "READ"] =
          .ok (events, quality) ∧ quality.score = 1 ∧
        ∀ minimum : ℚ, 0 ≤ minimum → minimum ≤ 1 →
          requireQuality quality minimum = .ok ()) := by
  have hquality : (readEvents ReplayTracer.ascii.interpreter {}
      [libraryAccess "READ"]).map Prod.snd = .ok ⟨1, 0, 0, 0, 0⟩ := by
    simp only [libraryAccess, str_append]
    decide +kernel
  have htest : (parseEvent ReplayTracer.ascii.interpreter (libraryAccess "READ").strip).map
      TraceEvent.testID = .ok (str "t") := by
    simp only [libraryAccess, str_append]
    decide +kernel
  intro h
  obtain ⟨events, quality, hread, hscore, -⟩ := h (lossless_singleton htest (by decide))
  rw [hread] at hquality
  obtain rfl : quality = ⟨1, 0, 0, 0, 0⟩ := Except.ok.inj hquality
  exact absurd hscore (by decide +kernel)

/-- A mutation is kept, and its trace passes. -/
theorem readEvents_perfect_iff_write :
    (∃ events quality, readEvents ReplayTracer.ascii.interpreter {} [libraryAccess "WRITE"] =
        .ok (events, quality) ∧ quality.score = 1 ∧
      ∀ minimum : ℚ, 0 ≤ minimum → minimum ≤ 1 → requireQuality quality minimum = .ok ()) ↔
      KeepsAll ReplayTracer.ascii.interpreter {} [libraryAccess "WRITE"] := by
  have htest : (parseEvent ReplayTracer.ascii.interpreter (libraryAccess "WRITE").strip).map
      TraceEvent.testID = .ok (str "t") := by
    simp only [libraryAccess, str_append]
    decide +kernel
  exact readEvents_perfect_iff (lossless_singleton htest (by decide))

end Lossless

end ConflictGraph.Py
