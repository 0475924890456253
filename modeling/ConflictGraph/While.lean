import Mathlib.Data.Nat.Notation

/-!
# Loops that may go on for ever

A turn of a loop returns, or goes on with other values of the variables. What a loop returns is
what its first turn that returns does, and a loop that never comes to one returns nothing
(`Returns`). Two rules are all that is used of it: a loop with a variant returns
(`exists_returns`), and what every turn keeps holds at the last one (`Returns.exists_last`).
-/

namespace ConflictGraph

universe u v

/-- What a turn of a loop comes to. -/
inductive Turn (σ : Type u) (ρ : Type v) : Type (max u v) where
  /-- the next turn begins with these variables -/
  | again (s : σ)
  | done (r : ρ)

variable {σ : Type u} {ρ : Type v} {turn : σ → Turn σ ρ} {s : σ} {r : ρ}

/-- The loop that begins with these variables returns `r`. -/
inductive Returns (turn : σ → Turn σ ρ) : σ → ρ → Prop where
  | done {s : σ} {r : ρ} (h : turn s = .done r) : Returns turn s r
  | again {s t : σ} {r : ρ} (h : turn s = .again t) (hrest : Returns turn t r) : Returns turn s r

/-- A loop returns one thing. -/
theorem Returns.unique (h : Returns turn s r) : ∀ {r' : ρ}, Returns turn s r' → r = r' := by
  induction h with
  | done hdone =>
    intro r' h'
    cases h' with
    | done hdone' => exact Turn.done.inj (hdone.symm.trans hdone')
    | again hagain' => cases hdone.symm.trans hagain'
  | again hagain _ ih =>
    intro r' h'
    cases h' with
    | done hdone' => cases hagain.symm.trans hdone'
    | again hagain' hrest' =>
      obtain rfl := Turn.again.inj (hagain.symm.trans hagain')
      exact ih hrest'

/-- **The variant rule.** A loop returns if a number gets less from every turn to the next. -/
theorem exists_returns (variant : σ → ℕ)
    (hless : ∀ {s t : σ}, turn s = .again t → variant t < variant s) (s : σ) :
    ∃ r, Returns turn s r := by
  induction hn : variant s using Nat.strongRecOn generalizing s with
  | ind n ih =>
    rcases hturn : turn s with t | r
    · obtain ⟨r, hr⟩ := ih (variant t) (hn ▸ hless hturn) t rfl
      exact ⟨r, .again hturn hr⟩
    · exact ⟨r, .done hturn⟩

/-- **The invariant rule.** What holds at first, and of the next turn if of one, holds of the turn
that returns. -/
theorem Returns.exists_last {invariant : σ → Prop} (h : Returns turn s r) (hs : invariant s)
    (hkeeps : ∀ {s t : σ}, invariant s → turn s = .again t → invariant t) :
    ∃ t, invariant t ∧ turn t = .done r := by
  induction h with
  | done hdone => exact ⟨_, hs, hdone⟩
  | again hagain _ ih => exact ih (hkeeps hs hagain)

end ConflictGraph
