import Mathlib.Data.List.Basic
import ConflictGraph.Transition

/-!
# A counter without a lock

Several parties count in one place: each reads the counter and later writes back one more
than it read. Nothing keeps two of them apart, so a party can overwrite what another has
counted since. The counter never runs ahead of the number of counts that were begun. Once
nobody is between reading and writing, it has missed none of them exactly if no party ever
read it while another had still to write (`Known.value_eq_iff`).
-/

namespace ConflictGraph

universe u

/-- The counter, and the parties that have read it and not written back, with what they read. -/
structure SharedCounter (π : Type u) : Type u where
  value : ℕ := 0
  reads : List (π × ℕ) := []
  deriving DecidableEq

inductive CounterAction (π : Type u) : Type u where
  | read (party : π)
  | write (party : π)
  deriving DecidableEq

/-- A count that begins. -/
def CounterAction.isRead {π : Type u} : CounterAction π → Bool
  | .read _ => true
  | .write _ => false

namespace SharedCounter

variable {π : Type u}

/-- What the party has read, if it has still to write. -/
def pending? [DecidableEq π] (s : SharedCounter π) (party : π) : Option ℕ := s.reads.lookup party

def read (s : SharedCounter π) (party : π) : SharedCounter π :=
  { s with reads := (party, s.value) :: s.reads }

/-- Write back one more than what was read. -/
def write [DecidableEq π] (s : SharedCounter π) (party : π) (seen : ℕ) : SharedCounter π :=
  { value := seen + 1, reads := s.reads.eraseP (·.1 == party) }

/-- A party reads if it has nothing to write, and writes if it has. -/
def step [DecidableEq π] (s : SharedCounter π) : CounterAction π → Option (SharedCounter π)
  | .read party => if (s.pending? party).isSome then none else some (s.read party)
  | .write party => (s.pending? party).map (s.write party)

/-- Every count of a run begins when no other is unfinished. -/
def Alone (visited : List (SharedCounter π × CounterAction π)) : Prop :=
  ∀ visit ∈ visited, visit.2.isRead = true → visit.1.reads = []

/-- How many counts a run has begun. -/
def begun (visited : List (SharedCounter π × CounterAction π)) : ℕ :=
  visited.countP (·.2.isRead)

/-- After `n` counts: neither the counter nor what a party has yet to write can make up for
the counts that are unfinished. -/
structure Bounded (n : ℕ) (s : SharedCounter π) : Prop where
  value : s.value + s.reads.length ≤ n
  read : ∀ r ∈ s.reads, r.2 + s.reads.length ≤ n

/-- Nothing has been missed: at most one count is unfinished, and it has read all the others. -/
def Exact (n : ℕ) (s : SharedCounter π) : Prop :=
  (s.reads = [] ∧ s.value = n) ∨ ∃ r, s.reads = [r] ∧ r.2 + 1 = n ∧ s.value = r.2

/-- Something has been missed, or will have been when all have written. -/
structure Behind (n : ℕ) (s : SharedCounter π) : Prop where
  none : s.reads = [] → s.value < n
  one : ∀ r, s.reads = [r] → r.2 + 1 < n

/-! ## One action -/

variable {s t : SharedCounter π} {n : ℕ} {party : π} {seen : ℕ}

theorem Bounded.read_step (h : s.Bounded n) : (s.read party).Bounded (n + 1) where
  value := Nat.add_le_add_right h.value 1
  read := by
    intro r hr
    rcases List.mem_cons.mp hr with rfl | hr
    · exact Nat.add_le_add_right h.value 1
    · exact Nat.add_le_add_right (h.read r hr) 1

/-- **A read** finds nothing missed if it is alone, and else something is missed. -/
theorem read_exact_or_behind :
    (s.Exact n → s.reads = [] → (s.read party).Exact (n + 1)) ∧
      ((s.Exact n ∧ s.reads ≠ [] ∨ s.Behind n) → (s.read party).Behind (n + 1)) := by
  refine ⟨fun hexact hnone => .inr ⟨(party, s.value), ?_, ?_, rfl⟩, fun hcases => ⟨?_, ?_⟩⟩
  · rw [read, hnone]
  · rcases hexact with ⟨-, hvalue⟩ | ⟨r, hone, -⟩
    · exact congrArg (· + 1) hvalue
    · rw [hnone] at hone
      cases hone
  · exact fun hnil => nomatch hnil
  · intro r hr
    obtain ⟨rfl, hnone⟩ := List.cons.inj hr
    rcases hcases with ⟨-, hsome⟩ | hbehind
    · exact absurd hnone hsome
    · exact Nat.succ_lt_succ (hbehind.none hnone)

variable [DecidableEq π]

/-- What a party writes back is one of the reads, and the others stay. -/
theorem exists_read_of_pending (h : s.pending? party = some seen) :
    (party, seen) ∈ s.reads ∧ (s.reads.eraseP (·.1 == party)).length + 1 = s.reads.length := by
  obtain ⟨front, rest, heq, -⟩ := List.lookup_eq_some_iff.mp h
  have hmem : (party, seen) ∈ s.reads := heq ▸ List.mem_append_right _ List.mem_cons_self
  refine ⟨hmem, ?_⟩
  rw [List.length_eraseP_of_mem hmem (by simp), Nat.sub_add_cancel (List.length_pos_of_mem hmem)]

theorem Bounded.write_step (h : s.Bounded n) (hseen : s.pending? party = some seen) :
    (s.write party seen).Bounded n := by
  obtain ⟨hmem, hlength⟩ := exists_read_of_pending hseen
  refine ⟨?_, fun r hr => ?_⟩
  · have := h.read _ hmem
    simp only [write]
    omega
  · have := h.read r (List.mem_of_mem_eraseP hr)
    simp only [write]
    omega

/-- **A write** keeps what is exact exact, and what is behind behind. -/
theorem write_exact_or_behind (h : s.Bounded n) (hseen : s.pending? party = some seen) :
    (s.Exact n → (s.write party seen).Exact n) ∧ (s.Behind n → (s.write party seen).Behind n) := by
  obtain ⟨hmem, hlength⟩ := exists_read_of_pending hseen
  refine ⟨fun hexact => ?_, fun hbehind => ⟨fun hnil => ?_, fun r hr => ?_⟩⟩
  · rcases hexact with ⟨hnone, -⟩ | ⟨r, hone, hvalue, -⟩
    · rw [hnone] at hmem
      cases hmem
    · rw [hone] at hmem
      obtain rfl := List.mem_singleton.mp hmem
      exact .inl ⟨by simp [write, hone], hvalue⟩
  · -- the last unfinished count writes, and it was behind
    have hnone : s.reads.eraseP (·.1 == party) = [] := hnil
    have hone : s.reads.length = 1 := by rw [← hlength, hnone, List.length_nil]
    obtain ⟨r, hr⟩ := List.length_eq_one_iff.mp hone
    rw [hr, List.mem_singleton] at hmem
    subst hmem
    exact hbehind.one _ hr
  · -- two were unfinished, so neither can count both
    have hr' : s.reads.eraseP (·.1 == party) = [r] := hr
    have := h.read r (List.mem_of_mem_eraseP (hr' ▸ List.mem_singleton_self r))
    rw [hr', List.length_singleton] at hlength
    omega

/-! ## A run -/

omit [DecidableEq π] in
theorem alone_append_singleton {visited : List (SharedCounter π × CounterAction π)}
    {visit : SharedCounter π × CounterAction π} :
    Alone (visited ++ [visit]) ↔ Alone visited ∧ (visit.2.isRead = true → visit.1.reads = []) := by
  simp only [Alone, List.forall_mem_append, List.forall_mem_singleton]

/-- What is known of the counter after a history. -/
def Known (visited : List (SharedCounter π × CounterAction π)) (s : SharedCounter π) : Prop :=
  s.Bounded (begun visited) ∧ (Alone visited → s.Exact (begun visited)) ∧
    (¬ Alone visited → s.Behind (begun visited))

theorem Known.step {visited : List (SharedCounter π × CounterAction π)} {a : CounterAction π}
    (hstep : s.step a = some t) (h : Known visited s) : Known (visited ++ [(s, a)]) t := by
  obtain ⟨hbounded, hexact, hbehind⟩ := h
  cases a with
  | read party =>
    simp only [SharedCounter.step, Option.ite_none_left_eq_some, Option.some.injEq] at hstep
    obtain ⟨-, rfl⟩ := hstep
    have hn : begun (visited ++ [(s, .read party)]) = begun visited + 1 := by
      simp [begun, CounterAction.isRead]
    rw [Known, hn, alone_append_singleton]
    obtain ⟨hsame, hmissed⟩ := @read_exact_or_behind _ s (begun visited) party
    refine ⟨hbounded.read_step, fun halone => ?_, fun hnot => ?_⟩
    · exact hsame (hexact halone.1) (halone.2 rfl)
    by_cases halone : Alone visited
    · exact hmissed (.inl ⟨hexact halone, fun hnone => hnot ⟨halone, fun _ => hnone⟩⟩)
    · exact hmissed (.inr (hbehind halone))
  | write party =>
    obtain ⟨seen, hseen, rfl⟩ := Option.map_eq_some_iff.mp hstep
    have hn : begun (visited ++ [(s, .write party)]) = begun visited := by
      simp [begun, CounterAction.isRead]
    have halone : Alone (visited ++ [(s, .write party)]) ↔ Alone visited := by
      rw [alone_append_singleton]
      exact and_iff_left fun h => nomatch h
    rw [Known, hn, halone]
    obtain ⟨hsame, hmissed⟩ := write_exact_or_behind hbounded hseen
    exact ⟨hbounded.write_step hseen, hsame ∘ hexact, hmissed ∘ hbehind⟩

omit [DecidableEq π] in
theorem known_empty : Known [] ({} : SharedCounter π) :=
  ⟨⟨Nat.le_refl 0, fun _ h => nomatch h⟩, fun _ => .inl ⟨rfl, rfl⟩,
    fun h => absurd (fun _ h => nomatch h) h⟩

omit [DecidableEq π] in
/-- **What is missed.** When no count is unfinished, the counter is right exactly if every
count began alone. -/
theorem Known.value_eq_iff {visited : List (SharedCounter π × CounterAction π)}
    (h : Known visited s) (hdone : s.reads = []) : s.value = begun visited ↔ Alone visited := by
  refine ⟨fun hvalue => ?_, fun halone => ?_⟩
  · by_contra hnot
    exact absurd hvalue (Nat.ne_of_lt ((h.2.2 hnot).none hdone))
  · rcases h.2.1 halone with ⟨-, hvalue⟩ | ⟨r, hone, -⟩
    · exact hvalue
    · rw [hdone] at hone
      cases hone

end SharedCounter

end ConflictGraph
