import Mathlib.Data.List.Perm.Subperm
import Mathlib.Logic.Relation
import ConflictGraph.PartialMap

/-!
# Nearest ancestor

A forest is given by a partial map from nodes to parents, and some nodes carry an
entry. A lookup climbs from a node towards the root and returns the first entry it
meets. It is bounded, and stops when it comes back to a node it has seen.

`Nearest` is the specification: the entry found and how many links lead to it. The
number of links is determined by the node, so a climb that succeeds never meets a node
twice, and the bound is all that the visited set leaves to say. Where the links are
finitely many, a climb with one step more than there are links has no bound either
(`climb_eq_some_iff_of_links`).

A fork puts a child under a parent and gives it the parent's own entry, if there is one. It
does not take from the child an entry of its own. `Fresh` says when that makes no difference
to what the child finds.
-/

namespace ConflictGraph

universe u v

variable {κ : Type u} {ν : Type v}

/-- The first entry on the way up from a node, and how many links lead there; the
sentinel `root` is no node. -/
inductive Nearest (root : κ) (entries : PartialMap κ ν) (parents : PartialMap κ κ) :
    ℕ → κ → ν → Prop where
  /-- the node has an entry itself -/
  | here {p : κ} {v : ν} (hp : p ≠ root) (hv : entries p = some v) : Nearest root entries parents 0 p v
  /-- the node has none, and its parent finds one -/
  | up {n : ℕ} {p q : κ} {v : ν} (hp : p ≠ root) (hnone : entries p = none)
      (hparent : parents p = some q) (h : Nearest root entries parents n q v) :
      Nearest root entries parents (n + 1) p v

section Nearest

variable {root : κ} {entries : PartialMap κ ν} {parents : PartialMap κ κ} {p : κ} {v : ν} {n : ℕ}

theorem Nearest.ne_root (h : Nearest root entries parents n p v) : p ≠ root := by
  cases h with
  | here hp => exact hp
  | up hp => exact hp

/-- A node with an entry finds that entry. -/
theorem Nearest.eq_of_entry (h : Nearest root entries parents n p v) {w : ν}
    (hw : entries p = some w) : n = 0 ∧ v = w := by
  cases h with
  | here _ hv => exact ⟨rfl, Option.some.inj (hv.symm.trans hw)⟩
  | up _ hnone => exact nomatch hnone.symm.trans hw

/-- A node without an entry finds what its parent finds. -/
theorem Nearest.of_none (h : Nearest root entries parents n p v) (hnone : entries p = none) :
    ∃ m q, n = m + 1 ∧ parents p = some q ∧ Nearest root entries parents m q v := by
  cases h with
  | here _ hv => exact nomatch hnone.symm.trans hv
  | up _ _ hparent h => exact ⟨_, _, rfl, hparent, h⟩

/-- The entry found and its distance are determined. -/
theorem Nearest.unique (h : Nearest root entries parents n p v) :
    ∀ {m : ℕ} {w : ν}, Nearest root entries parents m p w → n = m ∧ v = w := by
  induction h with
  | here _ hv =>
    intro m w h'
    obtain ⟨hm, hw⟩ := h'.eq_of_entry hv
    exact ⟨hm.symm, hw.symm⟩
  | up _ hnone hparent _ ih =>
    intro m w h'
    obtain ⟨m', q, rfl, hparent', hq⟩ := h'.of_none hnone
    obtain rfl := Option.some.inj (hparent.symm.trans hparent')
    obtain ⟨hn, hv⟩ := ih hq
    exact ⟨congrArg (· + 1) hn, hv⟩

/-- A node with neither an entry nor a parent finds nothing. -/
theorem not_nearest_of_eq_none (hentry : entries p = none) (hparent : parents p = none) :
    ¬ Nearest root entries parents n p v := by
  intro h
  obtain ⟨_, q, -, hq, -⟩ := h.of_none hentry
  rw [hparent] at hq
  cases hq

/-- The nodes below the entry that the way up goes through: no two are the same, and each
has a parent. -/
theorem Nearest.exists_path (h : Nearest root entries parents n p v) :
    ∃ path : List κ, path.length = n ∧ path.Nodup ∧
      ∀ q ∈ path, parents q ≠ none ∧ ∃ m, m ≤ n ∧ Nearest root entries parents m q v := by
  induction h with
  | here => exact ⟨[], rfl, List.nodup_nil, fun q hq => absurd hq List.not_mem_nil⟩
  | @up n p q v hp hnone hparent hq ih =>
    have hnear : Nearest root entries parents (n + 1) p v := .up hp hnone hparent hq
    obtain ⟨path, hlength, hnodup, hpath⟩ := ih
    refine ⟨p :: path, congrArg (· + 1) hlength, List.nodup_cons.mpr ⟨fun hmem => ?_, hnodup⟩, ?_⟩
    · -- on the way up from its parent, the node would be nearer than it is
      obtain ⟨-, m, hm, hagain⟩ := hpath p hmem
      obtain ⟨rfl, -⟩ := hnear.unique hagain
      exact Nat.not_succ_le_self n hm
    · intro r hr
      rcases List.mem_cons.mp hr with rfl | hr
      · exact ⟨by rw [hparent]; exact Option.some_ne_none q, _, Nat.le_refl _, hnear⟩
      · obtain ⟨hlink, m, hm, hagain⟩ := hpath r hr
        exact ⟨hlink, m, Nat.le_succ_of_le hm, hagain⟩

/-- An entry is at most as many links away as there are links. -/
theorem Nearest.le_length (h : Nearest root entries parents n p v) {links : List κ}
    (hlinks : ∀ {q}, parents q ≠ none → q ∈ links) : n ≤ links.length := by
  obtain ⟨path, hlength, hnodup, hpath⟩ := h.exists_path
  rw [← hlength]
  exact (hnodup.subperm fun q hq => hlinks (hpath q hq).1).length_le

/-- `q` is above `p`, one link or more. -/
def Above (parents : PartialMap κ κ) (p q : κ) : Prop :=
  Relation.TransGen (fun a b => parents a = some b) p q

/-- Nothing is above a node without a parent. -/
theorem not_above_of_eq_none {q : κ} (h : parents p = none) : ¬ Above parents p q := by
  intro habove
  obtain ⟨r, hr, -⟩ := Relation.TransGen.head'_iff.mp habove
  rw [h] at hr
  cases hr

variable [DecidableEq κ]

/-- Climb at most `fuel` nodes, the first one included, and stop at the root and at
nodes already seen. -/
def climb (root : κ) (entries : PartialMap κ ν) (parents : PartialMap κ κ) :
    ℕ → List κ → κ → Option ν
  | 0, _, _ => none
  | fuel + 1, seen, current =>
    if current = root ∨ current ∈ seen then none
    else
      match entries current with
      | some v => some v
      | none => climb root entries parents fuel (current :: seen) ((parents current).getD root)

/-- Soundness of the climb: what it returns is the nearest entry. -/
theorem nearest_of_climb :
    ∀ {fuel : ℕ} {seen : List κ} {p : κ}, climb root entries parents fuel seen p = some v →
      ∃ n, n < fuel ∧ Nearest root entries parents n p v := by
  intro fuel
  induction fuel with
  | zero => exact fun h => nomatch h
  | succ fuel ih =>
    intro seen p h
    rw [climb] at h
    by_cases hstop : p = root ∨ p ∈ seen
    · rw [if_pos hstop] at h
      cases h
    · rw [if_neg hstop] at h
      obtain ⟨hp, -⟩ := not_or.mp hstop
      rcases hentry : entries p with _ | w
      · rw [hentry] at h
        obtain ⟨n, hn, hnear⟩ := ih h
        rcases hparent : parents p with _ | q
        · -- no parent: the climb went on to the root
          rw [hparent] at hnear
          exact absurd rfl hnear.ne_root
        · rw [hparent] at hnear
          exact ⟨n + 1, Nat.succ_lt_succ hn, .up hp hentry hparent hnear⟩
      · rw [hentry] at h
        obtain rfl := Option.some.inj h
        exact ⟨0, Nat.succ_pos fuel, .here hp hentry⟩

/-- Completeness of the climb: it finds an entry that is near enough, as long as the
nodes seen are farther from theirs. -/
theorem climb_of_nearest (h : Nearest root entries parents n p v) :
    ∀ {fuel : ℕ} {seen : List κ}, n < fuel →
      (∀ q ∈ seen, ∀ m w, Nearest root entries parents m q w → n < m) →
      climb root entries parents fuel seen p = some v := by
  induction h with
  | @here p v hp hv =>
    intro fuel seen hfuel hseen
    obtain ⟨fuel, rfl⟩ := Nat.exists_eq_succ_of_ne_zero (Nat.ne_zero_of_lt hfuel)
    have hfresh : p ∉ seen := fun hmem => Nat.lt_irrefl 0 (hseen p hmem 0 v (.here hp hv))
    rw [climb, if_neg (not_or.mpr ⟨hp, hfresh⟩), hv]
  | @up n p q v hp hnone hparent hq ih =>
    intro fuel seen hfuel hseen
    obtain ⟨fuel, rfl⟩ := Nat.exists_eq_succ_of_ne_zero (Nat.ne_zero_of_lt hfuel)
    have hnear : Nearest root entries parents (n + 1) p v := .up hp hnone hparent hq
    have hfresh : p ∉ seen := fun hmem => Nat.lt_irrefl _ (hseen p hmem _ v hnear)
    rw [climb, if_neg (not_or.mpr ⟨hp, hfresh⟩), hnone, hparent]
    refine ih (Nat.lt_of_succ_lt_succ hfuel) fun r hr m w hm => ?_
    rcases List.mem_cons.mp hr with rfl | hr
    · -- the node just left is one link farther
      rw [← (hnear.unique hm).1]
      exact Nat.lt_succ_self n
    · exact Nat.lt_of_succ_lt (hseen r hr m w hm)

/-- **The climb computes the nearest entry** within its bound. -/
theorem climb_eq_some_iff {fuel : ℕ} :
    climb root entries parents fuel [] p = some v ↔
      ∃ n, n < fuel ∧ Nearest root entries parents n p v := by
  refine ⟨?_, ?_⟩
  · exact nearest_of_climb
  · rintro ⟨n, hn, h⟩
    exact climb_of_nearest h hn fun _ hq => nomatch hq

/-- **The climb over finitely many links** finds the nearest entry, however far it is. -/
theorem climb_eq_some_iff_of_links {links : List κ}
    (hlinks : ∀ {q}, parents q ≠ none → q ∈ links) :
    climb root entries parents (links.length + 1) [] p = some v ↔
      ∃ n, Nearest root entries parents n p v := by
  rw [climb_eq_some_iff]
  exact exists_congr fun n => and_iff_right_of_imp fun h => Nat.lt_succ_of_le (h.le_length hlinks)

/-! ## Forks -/

variable {entries' : PartialMap κ ν} {parents' : PartialMap κ κ} {parent child : κ}

/-- The forest after a fork of `parent` into `child`. -/
structure IsFork (entries : PartialMap κ ν) (parents : PartialMap κ κ) (entries' : PartialMap κ ν)
    (parents' : PartialMap κ κ) (parent child : κ) : Prop where
  entries_eq : ∀ q, entries' q = if q = child then (entries parent).or (entries q) else entries q
  parents_eq : ∀ q, parents' q = if q = child then some parent else parents q

/-- A fork changes nothing for a node that the child is not above. -/
theorem IsFork.nearest_iff (h : IsFork entries parents entries' parents' parent child)
    (hp : ¬ Relation.ReflTransGen (fun a b => parents a = some b) p child) :
    Nearest root entries' parents' n p v ↔ Nearest root entries parents n p v := by
  refine ⟨fun hnear => ?_, fun hnear => ?_⟩
  · induction hnear with
    | @here p v hroot hv =>
      have hne : p ≠ child := fun heq => hp (heq ▸ .refl)
      rw [h.entries_eq, if_neg hne] at hv
      exact .here hroot hv
    | @up n p q v hroot hnone hparent _ ih =>
      have hne : p ≠ child := fun heq => hp (heq ▸ .refl)
      rw [h.entries_eq, if_neg hne] at hnone
      rw [h.parents_eq, if_neg hne] at hparent
      exact .up hroot hnone hparent (ih fun hq => hp (.head hparent hq))
  · induction hnear with
    | @here p v hroot hv =>
      have hne : p ≠ child := fun heq => hp (heq ▸ .refl)
      exact .here hroot ((h.entries_eq p).trans (if_neg hne) |>.trans hv)
    | @up n p q v hroot hnone hparent _ ih =>
      have hne : p ≠ child := fun heq => hp (heq ▸ .refl)
      exact .up hroot ((h.entries_eq p).trans (if_neg hne) |>.trans hnone)
        ((h.parents_eq p).trans (if_neg hne) |>.trans hparent) (ih fun hq => hp (.head hparent hq))

/-- The parent finds what it found. -/
theorem IsFork.nearest_parent_iff (h : IsFork entries parents entries' parents' parent child)
    (hne : child ≠ parent) (habove : ¬ Above parents parent child) :
    Nearest root entries' parents' n parent v ↔ Nearest root entries parents n parent v :=
  h.nearest_iff fun hreach => (Relation.reflTransGen_iff_eq_or_transGen.mp hreach).elim hne habove

/-- A child with an entry of its own, or of its parent's own, finds that. -/
theorem IsFork.nearest_child_of_entry (h : IsFork entries parents entries' parents' parent child)
    (hroot : child ≠ root) (hentry : (entries parent).or (entries child) = some v) :
    Nearest root entries' parents' 0 child v :=
  .here hroot ((h.entries_eq child).trans (if_pos rfl) |>.trans hentry)

/-- Any other child finds what its parent finds, one link farther away. -/
theorem IsFork.nearest_child_of_none (h : IsFork entries parents entries' parents' parent child)
    (hne : child ≠ parent) (habove : ¬ Above parents parent child) (hroot : child ≠ root)
    (hnone : (entries parent).or (entries child) = none) {m : ℕ} :
    Nearest root entries' parents' m child v ↔
      ∃ n, m = n + 1 ∧ Nearest root entries parents n parent v := by
  have hentry : entries' child = none := ((h.entries_eq child).trans (if_pos rfl)).trans hnone
  have hparent : parents' child = some parent := (h.parents_eq child).trans (if_pos rfl)
  refine ⟨fun hnear => ?_, ?_⟩
  · obtain ⟨n, q, hn, hq, hup⟩ := hnear.of_none hentry
    obtain rfl := Option.some.inj (hparent.symm.trans hq)
    exact ⟨n, hn, (h.nearest_parent_iff hne habove).mp hup⟩
  · rintro ⟨n, rfl, hnear⟩
    exact .up hroot hentry hparent ((h.nearest_parent_iff hne habove).mpr hnear)

/-- A child finds nothing from farther away than one link above its parent's find. -/
theorem IsFork.distance_child (h : IsFork entries parents entries' parents' parent child)
    (hne : child ≠ parent) (habove : ¬ Above parents parent child) {m : ℕ}
    (hnear : Nearest root entries' parents' m child v) :
    m = 0 ∨ ∃ n, m = n + 1 ∧ Nearest root entries parents n parent v := by
  rcases hentry : (entries parent).or (entries child) with _ | w
  · exact .inr ((h.nearest_child_of_none hne habove hnear.ne_root hentry).mp hnear)
  · exact .inl (hnear.unique (h.nearest_child_of_entry hnear.ne_root hentry)).1

/-- No stranger's entry is left at the child: the entry that it has after the fork, if it has
one, is what the parent finds. (The sentinel as a child finds nothing.) -/
structure Fresh (root : κ) (entries : PartialMap κ ν) (parents : PartialMap κ κ)
    (parent child : κ) : Prop where
  entry : child ≠ root → ∀ v, (entries parent).or (entries child) = some v →
    ∃ n, Nearest root entries parents n parent v
  sentinel : child = root → ∀ n v, ¬ Nearest root entries parents n parent v

/-- **After a fork the child finds what its parent finds exactly if it is fresh.** -/
theorem IsFork.forall_iff_fresh (h : IsFork entries parents entries' parents' parent child)
    (hne : child ≠ parent) (habove : ¬ Above parents parent child) :
    (∀ v, (∃ n, Nearest root entries' parents' n child v) ↔
      ∃ n, Nearest root entries' parents' n parent v) ↔
      Fresh root entries parents parent child := by
  simp only [h.nearest_parent_iff hne habove]
  refine ⟨fun hsame => ?_, fun hfresh v => ?_⟩
  · refine ⟨fun hroot v hentry => ?_, fun hroot n v hnear => ?_⟩
    · exact (hsame v).mp ⟨0, h.nearest_child_of_entry hroot hentry⟩
    · obtain ⟨m, hchild⟩ := (hsame v).mpr ⟨n, hnear⟩
      exact hchild.ne_root hroot
  · by_cases hroot : child = root
    · refine iff_of_false (fun ⟨n, hchild⟩ => hchild.ne_root hroot) ?_
      exact fun ⟨n, hnear⟩ => hfresh.sentinel hroot n v hnear
    · rcases hentry : (entries parent).or (entries child) with _ | w
      · simp only [h.nearest_child_of_none hne habove hroot hentry]
        refine ⟨?_, ?_⟩
        · rintro ⟨_, n, -, hnear⟩
          exact ⟨n, hnear⟩
        · rintro ⟨n, hnear⟩
          exact ⟨n + 1, n, rfl, hnear⟩
      · obtain ⟨m, hparent⟩ := hfresh.entry hroot w hentry
        have hchild : Nearest root entries' parents' 0 child w :=
          h.nearest_child_of_entry hroot hentry
        refine ⟨?_, ?_⟩
        · rintro ⟨n, hnear⟩
          exact ⟨m, (hnear.unique hchild).2 ▸ hparent⟩
        · rintro ⟨n, hnear⟩
          exact ⟨0, (hnear.unique hparent).2 ▸ hchild⟩

end Nearest

end ConflictGraph
