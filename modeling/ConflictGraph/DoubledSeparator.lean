import Mathlib.Data.List.Chain
import Mathlib.Data.List.Infix

/-!
# Texts split at a doubled character

A separator that is a character twice, such as two colons, may begin one character earlier than it
was meant to: after a part that ends with the character. So a part comes out as it went in exactly
if no separator begins in it, not even with the first half of the separator after it.
-/

namespace ConflictGraph

variable {α : Type*} {c x : α} {front rest text : List α}

/-- No separator begins in the text. -/
def Undoubled (c : α) (text : List α) : Prop := text.IsChain fun x y => ¬(x = c ∧ y = c)

/-- A text has no separator exactly if the doubled character is no part of it. -/
theorem undoubled_iff : Undoubled c text ↔ ¬ [c, c] <:+: text := by
  rw [Undoubled, List.isChain_iff_forall_rel_of_append_cons_cons]
  refine ⟨?_, fun h x y before after heq => ?_⟩
  · rintro h ⟨before, after, heq⟩
    have htext : text = before ++ c :: c :: after := by
      rw [← heq, List.append_assoc]
      rfl
    exact h htext ⟨rfl, rfl⟩
  · rintro ⟨rfl, rfl⟩
    exact h ⟨before, after, by rw [heq, List.append_assoc]; rfl⟩

theorem undoubled_append_cons (hx : x ≠ c) :
    Undoubled c (front ++ x :: rest) ↔ Undoubled c front ∧ Undoubled c rest := by
  rw [Undoubled, List.isChain_append, List.isChain_cons]
  refine ⟨fun h => ⟨h.1, h.2.1.2⟩, fun h => ⟨h.1, ⟨fun _ _ hboth => hx hboth.1, h.2⟩, ?_⟩⟩
  rintro y - z hz ⟨-, rfl⟩
  exact hx (Option.some.inj hz)

/-- A separator may begin in a text that is followed by its first half. -/
theorem undoubled_append_singleton : Undoubled c (text ++ [c]) ↔
    Undoubled c text ∧ text.getLast? ≠ some c := by
  rw [Undoubled, List.isChain_append]
  refine and_congr_right fun _ => ⟨fun h hlast => ?_, fun h => ⟨List.isChain_singleton c, ?_⟩⟩
  · exact h.2 c hlast c rfl ⟨rfl, rfl⟩
  · rintro y hy z - ⟨rfl, -⟩
    exact h hy

variable [DecidableEq α]

/-- The parts of a text between the separators, which are taken from the left. -/
def splitDouble (c : α) : List α → List (List α)
  | [] => [[]]
  | [x] => [[x]]
  | x :: y :: rest =>
    if x = c ∧ y = c then [] :: splitDouble c rest
    else (splitDouble c (y :: rest)).modifyHead (x :: ·)

theorem splitDouble_of_undoubled (h : Undoubled c text) : splitDouble c text = [text] := by
  fun_induction splitDouble c text with
  | case1 => rfl
  | case2 => rfl
  | case3 x y rest hboth ih => exact absurd hboth (List.isChain_cons_cons.mp h).1
  | case4 x y rest hnot ih =>
    rw [ih (List.isChain_cons_cons.mp h).2]
    rfl

/-- **The first part** comes out as it went in, if no separator begins in it. -/
theorem splitDouble_append (h : Undoubled c (front ++ [c])) :
    splitDouble c (front ++ c :: c :: rest) = front :: splitDouble c rest := by
  induction front with
  | nil => rw [List.nil_append, splitDouble, if_pos ⟨rfl, rfl⟩]
  | cons x front ih =>
    cases front with
    | nil =>
      have hx : ¬(x = c ∧ c = c) := (List.isChain_cons_cons.mp h).1
      rw [List.cons_append, List.nil_append, splitDouble, if_neg hx, splitDouble,
        if_pos ⟨rfl, rfl⟩]
      rfl
    | cons y front =>
      have hxy : ¬(x = c ∧ y = c) := (List.isChain_cons_cons.mp h).1
      rw [List.cons_append, List.cons_append, splitDouble, if_neg hxy, ← List.cons_append,
        ih (List.isChain_cons_cons.mp h).2]
      rfl

/-- A text without a separator is its only part; another has a first part, in which no separator
begins. -/
theorem undoubled_or_exists (c : α) (text : List α) : Undoubled c text ∨
    ∃ front rest, text = front ++ c :: c :: rest ∧ Undoubled c (front ++ [c]) := by
  fun_induction splitDouble c text with
  | case1 => exact .inl List.isChain_nil
  | case2 x => exact .inl (List.isChain_singleton x)
  | case3 x y rest hboth ih =>
    exact .inr ⟨[], rest, by rw [hboth.1, hboth.2, List.nil_append], List.isChain_singleton c⟩
  | case4 x y rest hnot ih =>
    rcases ih with h | ⟨front, after, heq, hfront⟩
    · exact .inl (List.isChain_cons_cons.mpr ⟨hnot, h⟩)
    · refine .inr ⟨x :: front, after, by rw [heq, List.cons_append], ?_⟩
      cases front with
      | nil =>
        obtain ⟨rfl, -⟩ := List.cons.inj heq
        exact List.isChain_cons_cons.mpr ⟨hnot, hfront⟩
      | cons z front =>
        obtain ⟨rfl, -⟩ := List.cons.inj heq
        exact List.isChain_cons_cons.mpr ⟨hnot, hfront⟩

/-- The first part, if there is another, comes out as it went in only if no separator begins in
it. -/
theorem undoubled_of_head (h : (splitDouble c (front ++ c :: c :: rest)).head? = some front) :
    Undoubled c (front ++ [c]) := by
  rcases undoubled_or_exists c (front ++ c :: c :: rest) with hno | ⟨first, more, heq, hfirst⟩
  · rw [undoubled_iff] at hno
    exact absurd ⟨front, rest, by rw [List.append_assoc]; rfl⟩ hno
  · rw [heq, splitDouble_append hfirst, List.head?_cons] at h
    rwa [← Option.some.inj h]

theorem splitDouble_ne_nil (c : α) (text : List α) : splitDouble c text ≠ [] := by
  rcases undoubled_or_exists c text with h | ⟨front, rest, rfl, hfront⟩
  · rw [splitDouble_of_undoubled h]
    exact List.cons_ne_nil _ _
  · rw [splitDouble_append hfront]
    exact List.cons_ne_nil _ _

/-- A text with a separator has two parts at least. -/
theorem two_le_length_splitDouble (h : ¬ Undoubled c text) : 2 ≤ (splitDouble c text).length := by
  obtain ⟨front, rest, rfl, hfront⟩ := (undoubled_or_exists c text).resolve_left h
  have hpos := List.length_pos_of_ne_nil (splitDouble_ne_nil c rest)
  rw [splitDouble_append hfront, List.length_cons]
  omega

/-- No part is longer than the text. -/
theorem length_le_of_mem_splitDouble {part : List α} (h : part ∈ splitDouble c text) :
    part.length ≤ text.length := by
  fun_induction splitDouble c text generalizing part with
  | case1 => rw [List.mem_singleton.mp h]
  | case2 => rw [List.mem_singleton.mp h]
  | case3 x y rest hboth ih =>
    rcases List.mem_cons.mp h with rfl | h
    · exact Nat.zero_le _
    · exact (ih h).trans ((Nat.le_succ _).trans (Nat.le_succ _))
  | case4 x y rest hnot ih =>
    cases hparts : splitDouble c (y :: rest) with
    | nil => exact absurd hparts (splitDouble_ne_nil c _)
    | cons first more =>
      rw [hparts] at h ih
      rcases List.mem_cons.mp h with rfl | h
      · exact Nat.succ_le_succ (ih List.mem_cons_self)
      · exact (ih (List.mem_cons_of_mem _ h)).trans (Nat.le_succ _)

/-- The last part is the text, or shorter by a separator. -/
theorem length_getLast_splitDouble {part : List α}
    (hlast : (splitDouble c text).getLast? = some part) (h : ¬ Undoubled c text) :
    part.length + 2 ≤ text.length := by
  obtain ⟨front, rest, rfl, hfront⟩ := (undoubled_or_exists c text).resolve_left h
  rw [splitDouble_append hfront, List.getLast?_cons_of_ne_nil (splitDouble_ne_nil c rest)] at hlast
  have hle := length_le_of_mem_splitDouble (List.mem_of_getLast? hlast)
  rw [List.length_append, List.length_cons, List.length_cons]
  omega

end ConflictGraph
