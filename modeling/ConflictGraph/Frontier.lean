import ConflictGraph.Chain
import ConflictGraph.Lanes

/-!
# The frontier of a board

Where each new item goes to the lane that is free first, a lane is only taken again when
no other is free earlier. So everything but the last item of a lane has stopped before any
lane is free (`Overtaken`), and at the instant at which the next item can start, the only
items that are still to stop are the last ones of their lanes.
-/

namespace ConflictGraph

universe u v

variable {α : Type u} {K : Type v} [LinearOrder K]

/-- At most one item of a lane stops later than an instant, and that is the last one. -/
def OnlyLastAfter (stop : α → K) (instant : K) (lane : List α) : Prop :=
  (lane.filter fun a => instant < stop a).length ≤ 1 ∧
    ∀ a ∈ lane, instant < stop a → lane.getLast? = some a

/-- What is not the last item of its lane has stopped before any lane is free. -/
def Overtaken (stop : α → K) (origin : K) (lanes : List (List α)) : Prop :=
  ∀ lane ∈ lanes, ∀ a ∈ lane.dropLast, ∀ lane' ∈ lanes, stop a ≤ lastStop stop origin lane'

variable {stop : α → K} {origin instant : K} {lanes : List (List α)} {lane : List α} {worker : ℕ}
  {a : α}

theorem onlyLastAfter_of_dropLast (h : ∀ a ∈ lane.dropLast, stop a ≤ instant) :
    OnlyLastAfter stop instant lane := by
  rcases List.eq_nil_or_concat' lane with rfl | ⟨init, last, rfl⟩
  · exact ⟨Nat.zero_le 1, fun a ha => absurd ha List.not_mem_nil⟩
  · rw [List.dropLast_concat] at h
    refine ⟨?_, fun a ha hlater => ?_⟩
    · have hinit : init.filter (fun a => instant < stop a) = [] := by
        apply List.filter_eq_nil_iff.mpr
        exact fun a ha => by simpa using h a ha
      rw [List.filter_append, hinit, List.nil_append]
      exact List.length_filter_le _ _
    · rcases List.mem_append.mp ha with hinit | hlast
      · exact absurd hlater (h a hinit).not_gt
      · rw [List.getLast?_concat, List.mem_singleton.mp hlast]

theorem overtaken_replicate (n : ℕ) : Overtaken stop origin (List.replicate n []) := by
  intro lane hlane a ha
  rw [List.eq_of_mem_replicate hlane] at ha
  exact absurd ha List.not_mem_nil

/-- **Only the last items are still to stop** when the lane that is free first is. -/
theorem Overtaken.onlyLastAfter (h : Overtaken stop origin lanes) {first : List α}
    (hfirst : first ∈ lanes) (hlane : lane ∈ lanes) :
    OnlyLastAfter stop (lastStop stop origin first) lane :=
  onlyLastAfter_of_dropLast fun a ha => h lane hlane a ha first hfirst

/-- A lane is a lane of the board before or the one that was pushed to. -/
theorem mem_push (hlane : lanes[worker]? = some lane) {lane' : List α}
    (h : lane' ∈ push lanes worker a) : lane' ∈ lanes ∨ lane' = lane ++ [a] := by
  obtain ⟨i, hi⟩ := List.mem_iff_getElem?.mp h
  rcases eq_or_ne i worker with rfl | hne
  · rw [getElem?_push_self hlane] at hi
    exact Or.inr (Option.some.inj hi).symm
  · rw [getElem?_push_ne hne] at hi
    exact Or.inl (List.mem_of_getElem? hi)

/-- **The push rule.** An item that goes to the lane that is free first, and stops no
earlier than that, keeps the rest overtaken. -/
theorem Overtaken.push (h : Overtaken stop origin lanes) (hlane : lanes[worker]? = some lane)
    (hstop : ∀ b ∈ lane, stop b ≤ lastStop stop origin lane)
    (hfirst : ∀ lane' ∈ lanes, lastStop stop origin lane ≤ lastStop stop origin lane')
    (hlater : lastStop stop origin lane ≤ stop a) :
    Overtaken stop origin (push lanes worker a) := by
  have hmem := List.mem_of_getElem? hlane
  intro lane₁ hlane₁ b hb lane₂ hlane₂
  -- what is not last on a lane now stopped before any lane was free before
  have hbefore : ∀ lane' ∈ lanes, stop b ≤ lastStop stop origin lane' := by
    intro lane' hlane'
    rcases mem_push hlane hlane₁ with hold | rfl
    · exact h lane₁ hold b hb lane' hlane'
    · rw [List.dropLast_concat] at hb
      exact (hstop b hb).trans (hfirst lane' hlane')
  rcases mem_push hlane hlane₂ with hold | rfl
  · exact hbefore lane₂ hold
  · rw [lastStop_concat]
    exact (hbefore lane hmem).trans hlater

end ConflictGraph
