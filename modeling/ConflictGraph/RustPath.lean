import Mathlib.Data.List.Infix
import ConflictGraph.RustNormalize

/-!
# Normal paths of the tracer

`Normalizer::path` takes a path apart into components and pushes them on another path. What comes out
is a root, or none, and names; the names are those of a stack machine over the parts between the
slashes (`normalForm_eq`). The text of a normal path has the path for its components
(`components_pathText`), so a normal path is its own normal form.
-/

namespace ConflictGraph.Rust

/-! ## Names -/

/-- A part of a path that is a normal component. -/
structure IsName (part : List Char) : Prop where
  ne_nil : part ≠ []
  ne_dot : part ≠ ['.']
  ne_dots : part ≠ ['.', '.']
  slash : '/' ∉ part

/-- The loop of `Normalizer::path` over the parts of a path; `kept` is reversed. -/
def resolve : List (List Char) → List (List Char) → List (List Char)
  | kept, [] => kept.reverse
  | kept, part :: rest =>
    if part = [] ∨ part = ['.'] then resolve kept rest
    else if part = ['.', '.'] then resolve kept.tail rest
    else resolve (part :: kept) rest

/-- A root, or none, and names. -/
def rooted (absolute : Bool) (names : List (List Char)) : List Component :=
  (if absolute then [.rootDir] else []) ++ names.map .normal

/-- `normalized`, of the path with this text. -/
def normalForm (raw : String) : List Component := (components raw.toList).foldl pushComponent []

/-- A name is a normal component. -/
theorem ofPart_eq_normal {part : List Char} (h : IsName part) :
    Component.ofPart part = some (.normal part) := by
  rw [Component.ofPart, if_neg (not_or.mpr ⟨h.ne_nil, h.ne_dot⟩), if_neg h.ne_dots]

/-- Taking off the last component, which the root does not have. -/
theorem pop_rooted (absolute : Bool) (kept : List (List Char)) :
    pop (rooted absolute kept.reverse) = rooted absolute kept.tail.reverse := by
  rcases kept with _ | ⟨name, kept⟩
  · cases absolute <;> rfl
  · have hsnoc : rooted absolute (name :: kept).reverse =
        rooted absolute kept.reverse ++ [.normal name] := by
      simp [rooted]
    rw [hsnoc, pop, List.getLast?_concat]
    exact List.dropLast_concat

/-- A name goes to the end. -/
theorem push_rooted (absolute : Bool) (kept : List (List Char)) (name : List Char) :
    pushComponent (rooted absolute kept.reverse) (.normal name) =
      rooted absolute (name :: kept).reverse := by
  simp [pushComponent, rooted]

/-- The components of the parts, one after the other, are what the stack machine makes of them. -/
theorem foldl_pushComponent (absolute : Bool) (parts : List (List Char)) :
    ∀ kept : List (List Char),
      (parts.filterMap Component.ofPart).foldl pushComponent (rooted absolute kept.reverse) =
        rooted absolute (resolve kept parts) := by
  induction parts with
  | nil => exact fun _ => rfl
  | cons part rest ih =>
    intro kept
    rw [List.filterMap_cons, resolve, Component.ofPart]
    split_ifs with hskip hdots
    · exact ih kept
    · rw [List.foldl_cons, pushComponent, pop_rooted]
      exact ih kept.tail
    · rw [List.foldl_cons, push_rooted]
      exact ih (part :: kept)

/-- **Resolving a path** by components is resolving its segments. -/
theorem foldl_components (path : List Char) :
    (components path).foldl pushComponent [] =
      rooted (path.head? = some '/') (resolve [] (path.splitOn '/')) := by
  have hrun : ∀ absolute, ((path.splitOn '/').filterMap Component.ofPart).foldl pushComponent
      (rooted absolute []) = rooted absolute (resolve [] (path.splitOn '/')) :=
    fun absolute => foldl_pushComponent absolute (path.splitOn '/') []
  rw [components]
  split
  · rename_i hroot
    rw [decide_eq_true hroot]
    exact hrun true
  · rename_i hroot
    rw [decide_eq_false hroot, ← hrun false]
    split
    · rfl
    · rfl

/-- What the loop keeps are names, of those before or of the path. -/
theorem mem_resolve {parts : List (List Char)} : ∀ {kept : List (List Char)},
    (∀ name ∈ kept, IsName name) → (∀ part ∈ parts, '/' ∉ part) →
      ∀ name ∈ resolve kept parts, IsName name ∧ (name ∈ kept ∨ name ∈ parts) := by
  induction parts with
  | nil =>
    intro kept hkept _ name hname
    rw [resolve, List.mem_reverse] at hname
    exact ⟨hkept name hname, .inl hname⟩
  | cons part rest ih =>
    intro kept hkept hparts name hname
    rw [List.forall_mem_cons] at hparts
    rw [resolve] at hname
    split_ifs at hname with hskip hdots
    · obtain ⟨hisname, hmem⟩ := ih hkept hparts.2 name hname
      exact ⟨hisname, hmem.imp_right (List.mem_cons_of_mem _)⟩
    · obtain ⟨hisname, hmem⟩ := ih (fun n hn => hkept n (List.mem_of_mem_tail hn)) hparts.2 name hname
      exact ⟨hisname, hmem.imp List.mem_of_mem_tail (List.mem_cons_of_mem _)⟩
    · rw [not_or] at hskip
      obtain ⟨hisname, hmem⟩ := ih (List.forall_mem_cons.mpr
        ⟨⟨hskip.1, hskip.2, hdots, hparts.1⟩, hkept⟩) hparts.2 name hname
      refine ⟨hisname, hmem.elim (fun hkeep => ?_) fun hrest => .inr (List.mem_cons_of_mem _ hrest)⟩
      exact (List.mem_cons.mp hkeep).elim (fun heq => .inr (heq ▸ List.mem_cons_self)) .inl

theorem slash_not_mem_of_mem_splitOn {path part : List Char} (h : part ∈ path.splitOn '/') :
    '/' ∉ part := by
  induction path generalizing part with
  | nil =>
    obtain rfl : part = [] := by simpa using h
    exact List.not_mem_nil
  | cons c rest ih =>
    rw [List.splitOn_cons_eq_if_modifyHead] at h
    split at h
    · exact (List.mem_cons.mp h).elim (fun heq => heq ▸ List.not_mem_nil) ih
    · rename_i hne
      obtain ⟨first, others, heq⟩ := List.exists_cons_of_ne_nil (List.splitOn_ne_nil '/' rest)
      rw [heq, List.modifyHead_cons, List.mem_cons] at h
      rcases h with rfl | h
      · have hfirst := ih (heq ▸ List.mem_cons_self)
        intro hmem
        rcases List.mem_cons.mp hmem with rfl | hmem
        · exact hne (beq_self_eq_true '/')
        · exact hfirst hmem
      · exact ih (heq ▸ List.mem_cons_of_mem _ h)

/-- **The normal form of a path** is a root, if the path has one, and names of its parts. -/
theorem normalForm_eq (raw : String) : ∃ names, (∀ name ∈ names, IsName name) ∧
    normalForm raw = rooted (raw.toList.head? = some '/') names :=
  ⟨_, fun name hname => (mem_resolve (fun _ hn => absurd hn List.not_mem_nil)
    (fun _ hpart => slash_not_mem_of_mem_splitOn hpart) name hname).1, foldl_components raw.toList⟩

/-! ## Texts of normal paths -/

section Text

variable {names : List (List Char)} (h : ∀ name ∈ names, IsName name)
include h

theorem filterMap_ofPart : names.filterMap Component.ofPart = names.map .normal := by
  rw [← List.filterMap_eq_map]
  exact List.filterMap_congr fun name hname => ofPart_eq_normal (h name hname)

theorem head?_intercalate : (List.intercalate ['/'] names).head? ≠ some '/' := by
  rcases names with _ | ⟨first, rest⟩
  · exact fun hnone => by cases hnone
  · rw [List.forall_mem_cons] at h
    obtain ⟨c, tail, rfl⟩ := List.exists_cons_of_ne_nil h.1.ne_nil
    have hc : (List.intercalate ['/'] ((c :: tail) :: rest)).head? = some c := by
      rcases eq_or_ne rest [] with rfl | hne
      · simp
      · rw [List.intercalate_cons_of_ne_nil hne]
        rfl
    rw [hc]
    rintro ⟨⟩
    exact h.1.slash List.mem_cons_self

/-- Names that are joined come apart again. -/
theorem splitOn_intercalate_names (hne : names ≠ []) :
    (List.intercalate ['/'] names).splitOn '/' = names :=
  List.splitOn_intercalate '/' (fun name hname => (h name hname).slash) hne

/-- The components of names between single slashes. -/
theorem components_intercalate : components (List.intercalate ['/'] names) = names.map .normal := by
  rw [components]
  simp only [if_neg (head?_intercalate h)]
  rcases eq_or_ne names [] with rfl | hne
  · rfl
  · rw [splitOn_intercalate_names h hne, if_neg, filterMap_ofPart h]
    intro hdot
    exact (h _ (List.mem_of_mem_head? hdot)).ne_dot rfl

/-- The components of an absolute path of names. -/
theorem components_slash_intercalate :
    components ('/' :: List.intercalate ['/'] names) = .rootDir :: names.map .normal := by
  have hparts : ('/' :: List.intercalate ['/'] names).splitOn '/' =
      [] :: (List.intercalate ['/'] names).splitOn '/' := by
    rw [List.splitOn_cons_eq_if_modifyHead, if_pos (beq_self_eq_true '/')]
  rw [components, hparts]
  simp only [List.head?_cons, if_pos]
  refine congrArg (Component.rootDir :: ·) ?_
  rcases eq_or_ne names [] with rfl | hne
  · rfl
  · rw [splitOn_intercalate_names h hne]
    exact filterMap_ofPart h

end Text

theorem map_text_normal (names : List (List Char)) :
    (names.map Component.normal).map Component.text = names := by
  rw [List.map_map]
  exact List.map_id names

theorem pathText_relative (names : List (List Char)) :
    pathText (rooted false names) = List.intercalate ['/'] names := by
  have hnormal : rooted false names = names.map .normal := rfl
  rw [hnormal, pathText, if_neg, map_text_normal]
  rcases names with _ | ⟨first, rest⟩ <;> intro heq <;> cases heq

theorem pathText_absolute (names : List (List Char)) :
    pathText (rooted true names) = '/' :: List.intercalate ['/'] names := by
  have hrooted : rooted true names = .rootDir :: names.map .normal := rfl
  rw [hrooted, pathText]
  rcases eq_or_ne names [] with rfl | hne
  · rfl
  · rw [if_neg, List.map_cons, map_text_normal, List.intercalate_cons_of_ne_nil hne]
    · rfl
    · intro heq
      exact hne (List.map_eq_nil_iff.mp (List.cons.inj heq).2)

/-- **The text of a normal path** has the path for its components. -/
theorem components_pathText {absolute : Bool} {names : List (List Char)}
    (h : ∀ name ∈ names, IsName name) :
    components (pathText (rooted absolute names)) = rooted absolute names := by
  cases absolute with
  | true => rw [pathText_absolute, components_slash_intercalate h]; rfl
  | false => rw [pathText_relative, components_intercalate h]; rfl

/-- What is resolved stays as it is. -/
theorem foldl_rooted {absolute : Bool} {names : List (List Char)} :
    (rooted absolute names).foldl pushComponent [] = rooted absolute names := by
  have hrun : ∀ kept : List (List Char), (names.map Component.normal).foldl pushComponent
      (rooted absolute kept.reverse) = rooted absolute (kept.reverse ++ names) := by
    induction names with
    | nil => exact fun kept => by rw [List.append_nil]; rfl
    | cons name rest ih =>
      intro kept
      rw [List.map_cons, List.foldl_cons, push_rooted, ih, List.reverse_cons, List.append_assoc]
      rfl
  cases absolute <;> exact hrun []

end ConflictGraph.Rust
