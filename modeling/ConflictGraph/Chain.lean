import Mathlib.Data.List.Basic
import ConflictGraph.Interval

/-!
# Chains of intervals

A machine works on one item after the other, so the items it was given form a
*chain*: each stops before every later one starts. `lastStop` is the instant the
machine becomes free. Everything here is about lists of items with a start and a
stop on some ordered axis.
-/

namespace ConflictGraph

universe u v

variable {α : Type u} {K : Type v}

/-- When the last item stops; `origin` if there is none. -/
def lastStop (stop : α → K) (origin : K) (l : List α) : K :=
  match l.getLast? with
  | none => origin
  | some a => stop a

@[simp] theorem lastStop_nil (stop : α → K) (origin : K) : lastStop stop origin [] = origin := rfl

@[simp] theorem lastStop_concat (stop : α → K) (origin : K) (l : List α) (a : α) :
    lastStop stop origin (l ++ [a]) = stop a := by
  rw [lastStop, List.getLast?_concat]

theorem lastStop_cons (stop : α → K) (origin : K) (a : α) (l : List α) :
    lastStop stop origin (a :: l) = lastStop stop (stop a) l := by
  rcases List.eq_nil_or_concat' l with rfl | ⟨init, last, rfl⟩
  · rfl
  · rw [← List.cons_append, lastStop_concat, lastStop_concat]

variable [LinearOrder K] {start stop : α → K} {l : List α}

/-- Each item stops before every later one starts. -/
def Chained (start stop : α → K) (l : List α) : Prop := l.Pairwise fun a b => stop a ≤ start b

theorem chained_nil : Chained start stop [] := List.Pairwise.nil

theorem chained_cons {a : α} :
    Chained start stop (a :: l) ↔ (∀ b ∈ l, stop a ≤ start b) ∧ Chained start stop l :=
  List.pairwise_cons

theorem chained_concat {a : α} :
    Chained start stop (l ++ [a]) ↔
      Chained start stop l ∧ ∀ b ∈ l, stop b ≤ start a := by
  rw [Chained, List.pairwise_append]
  refine ⟨?_, ?_⟩
  · rintro ⟨hl, -, h⟩
    exact ⟨hl, fun b hb => h b hb a (List.mem_singleton_self a)⟩
  · rintro ⟨hl, h⟩
    refine ⟨hl, List.pairwise_singleton .., fun b hb c hc => ?_⟩
    rw [List.mem_singleton.mp hc]
    exact h b hb

/-- In a chain of non-empty items, nothing stops after the last one. -/
theorem Chained.stop_le_lastStop {origin : K} (h : Chained start stop l)
    (hpos : ∀ a ∈ l, start a < stop a) : ∀ a ∈ l, stop a ≤ lastStop stop origin l := by
  intro a ha
  rcases List.eq_nil_or_concat' l with rfl | ⟨init, last, rfl⟩
  · cases ha
  · rw [lastStop_concat]
    rcases List.mem_append.mp ha with hinit | hlast
    · have hstop : stop a ≤ start last := (chained_concat.mp h).2 a hinit
      have hlast : last ∈ init ++ [last] := List.mem_append_right _ (List.mem_singleton_self last)
      exact hstop.trans (hpos last hlast).le
    · rw [List.mem_singleton.mp hlast]

/-- A machine that is free from `lastStop` on can take an item that starts then or
later. -/
theorem Chained.concat {origin : K} (h : Chained start stop l)
    (hpos : ∀ a ∈ l, start a < stop a) {b : α} (hb : lastStop stop origin l ≤ start b) :
    Chained start stop (l ++ [b]) :=
  chained_concat.mpr ⟨h, fun a ha => (h.stop_le_lastStop hpos a ha).trans hb⟩

/-- Two items of a chain do not meet. -/
theorem Chained.not_meets (h : Chained start stop l) :
    l.Pairwise fun a b => ¬ Meets (start a) (stop a) (start b) (stop b) :=
  h.imp fun hab => not_meets_of_le hab

end ConflictGraph
