import ConflictGraph.Ancestry
import ConflictGraph.While

/-!
# The climb as a loop

The climb towards the root, with nothing to bound it but the nodes it has seen. Each turn that
goes on has seen one more node with a parent, or comes to the root; so where the links are
finitely many it returns, whatever circles they form.

What it returns is read off the way up, node by node: the entry of the first node that has one
(`FirstEntry`), or nothing if the way comes to a dead end before.
-/

namespace ConflictGraph

universe u v

variable {κ : Type u} {ν : Type v}

/-! ## The way up -/

/-- The node `k` links up. -/
def nodeAt (parents : PartialMap κ κ) (p : κ) : ℕ → Option κ
  | 0 => some p
  | k + 1 => (nodeAt parents p k).bind parents

/-- The first `k` nodes of the way up are no root and have no entry. -/
def Bare (root : κ) (entries : PartialMap κ ν) (parents : PartialMap κ κ) (p : κ) (k : ℕ) : Prop :=
  ∀ j < k, ∃ q, nodeAt parents p j = some q ∧ q ≠ root ∧ entries q = none

/-- The first node of the way up that has an entry is `k` links up, and the entry is `v`. -/
structure FirstEntry (root : κ) (entries : PartialMap κ ν) (parents : PartialMap κ κ) (p : κ)
    (k : ℕ) (v : ν) : Prop where
  bare : Bare root entries parents p k
  found : ∃ q, nodeAt parents p k = some q ∧ q ≠ root ∧ entries q = some v

/-- The way up ends, or begins again, before any entry. -/
inductive DeadEnd (root : κ) (entries : PartialMap κ ν) (parents : PartialMap κ κ) (p : κ) :
    Prop where
  /-- at the root -/
  | root {k : ℕ} (hbare : Bare root entries parents p k) (hnode : nodeAt parents p k = some root)
  /-- at a node of which nothing is known, neither entry nor parent -/
  | unknown {k : ℕ} {q : κ} (hbare : Bare root entries parents p (k + 1))
      (hnode : nodeAt parents p k = some q) (hparent : parents q = none)
  /-- at a node that was on the way before -/
  | repeated {j k : ℕ} (hbare : Bare root entries parents p k) (hjk : j < k)
      (hnode : nodeAt parents p k = nodeAt parents p j)

section Way

variable {root : κ} {entries : PartialMap κ ν} {parents : PartialMap κ κ} {p q : κ} {v : ν}
  {j k n : ℕ}

/-- The way up from a node is the way up from its parent, one link farther. -/
theorem nodeAt_succ (hparent : parents p = some q) (k : ℕ) :
    nodeAt parents p (k + 1) = nodeAt parents q k := by
  induction k with
  | zero => exact hparent
  | succ k ih => rw [nodeAt, ih, nodeAt]

/-- Without a parent the way up ends. -/
theorem nodeAt_eq_none (hparent : parents p = none) : nodeAt parents p (k + 1) = none := by
  induction k with
  | zero => exact hparent
  | succ k ih => rw [nodeAt, ih, Option.bind_none]

theorem Bare.succ (h : Bare root entries parents p k) (hnode : nodeAt parents p k = some q)
    (hq : q ≠ root) (hnone : entries q = none) : Bare root entries parents p (k + 1) := by
  intro j hj
  rcases Nat.lt_succ_iff_lt_or_eq.mp hj with hj | rfl
  · exact h j hj
  · exact ⟨q, hnode, hq, hnone⟩

theorem bare_succ_iff (hp : p ≠ root) (hnone : entries p = none) (hparent : parents p = some q) :
    Bare root entries parents p (k + 1) ↔ Bare root entries parents q k := by
  refine ⟨fun h j hj => ?_, fun h j hj => ?_⟩
  · rw [← nodeAt_succ hparent]
    exact h (j + 1) (Nat.succ_lt_succ hj)
  · cases j with
    | zero => exact ⟨p, rfl, hp, hnone⟩
    | succ j =>
      rw [nodeAt_succ hparent]
      exact h j (Nat.lt_of_succ_lt_succ hj)

/-- **The nearest entry is the first one of the way up.** -/
theorem nearest_iff_firstEntry :
    Nearest root entries parents k p v ↔ FirstEntry root entries parents p k v := by
  refine ⟨fun h => ?_, fun h => ?_⟩
  · induction h with
    | @here p v hp hv => exact ⟨fun j hj => absurd hj (Nat.not_lt_zero j), p, rfl, hp, hv⟩
    | up hp hnone hparent _ ih =>
      refine ⟨(bare_succ_iff hp hnone hparent).mpr ih.bare, ?_⟩
      rw [nodeAt_succ hparent]
      exact ih.found
  · induction k generalizing p with
    | zero =>
      obtain ⟨q, hnode, hq, hv⟩ := h.found
      obtain rfl := Option.some.inj hnode
      exact .here hq hv
    | succ k ih =>
      obtain ⟨q, hnode, hp, hnone⟩ := h.bare 0 (Nat.succ_pos k)
      obtain rfl := Option.some.inj hnode
      rcases hparent : parents p with _ | parent
      · obtain ⟨q, hnode, -⟩ := h.found
        rw [nodeAt_eq_none hparent] at hnode
        cases hnode
      · refine .up hp hnone hparent (ih ⟨(bare_succ_iff hp hnone hparent).mp h.bare, ?_⟩)
        rw [← nodeAt_succ hparent]
        exact h.found

/-- A node on the way to an entry is nearer to it. -/
theorem Nearest.of_nodeAt (h : Nearest root entries parents n p v) :
    ∀ {j : ℕ} {q : κ}, j ≤ n → nodeAt parents p j = some q →
      Nearest root entries parents (n - j) q v := by
  induction h with
  | @here p v hp hv =>
    intro j q hj hnode
    obtain rfl := Nat.le_zero.mp hj
    obtain rfl := Option.some.inj hnode
    exact .here hp hv
  | @up n p parent v hp hnone hparent h ih =>
    intro j q hj hnode
    cases j with
    | zero =>
      obtain rfl := Option.some.inj hnode
      exact .up hp hnone hparent h
    | succ j =>
      rw [nodeAt_succ hparent] at hnode
      rw [Nat.succ_sub_succ]
      exact ih (Nat.le_of_succ_le_succ hj) hnode

/-- No entry is nearer than the bare nodes are far. -/
theorem Bare.le_of_nearest (h : Bare root entries parents p k)
    (hnear : Nearest root entries parents n p v) : k ≤ n := by
  by_contra hlt
  obtain ⟨q, hnode, -, hv⟩ := (nearest_iff_firstEntry.mp hnear).found
  obtain ⟨q', hnode', -, hnone⟩ := h n (Nat.lt_of_not_le hlt)
  obtain rfl := Option.some.inj (hnode.symm.trans hnode')
  rw [hnone] at hv
  cases hv

/-- A way that comes to a dead end comes to no entry. -/
theorem DeadEnd.not_nearest (h : DeadEnd root entries parents p) :
    ¬ Nearest root entries parents n p v := by
  intro hnear
  cases h with
  | root hbare hnode => exact (hnear.of_nodeAt (hbare.le_of_nearest hnear) hnode).ne_root rfl
  | @unknown k q hbare hnode hparent =>
    obtain ⟨q', hnode', -, hnone⟩ := hbare k (Nat.lt_succ_self k)
    obtain rfl := Option.some.inj (hnode.symm.trans hnode')
    have hle := Nat.le_of_succ_le (hbare.le_of_nearest hnear)
    exact not_nearest_of_eq_none hnone hparent (hnear.of_nodeAt hle hnode)
  | @repeated j k hbare hjk hnode =>
    obtain ⟨q, hnode', -⟩ := hbare j hjk
    have hle := hbare.le_of_nearest hnear
    -- one node would be at two distances from its entry
    obtain ⟨heq, -⟩ := (hnear.of_nodeAt hle (hnode.trans hnode')).unique
      (hnear.of_nodeAt (Nat.le_trans (Nat.le_of_lt hjk) hle) hnode')
    omega

end Way

/-! ## The loop -/

section Loop

variable {root : κ} {entries : PartialMap κ ν} {parents : PartialMap κ κ} {p : κ} {v : ν}
  [DecidableEq κ]

/-- A turn of the climb, whose variables are the nodes seen and the current one. -/
def climbTurn (root : κ) (entries : PartialMap κ ν) (parents : PartialMap κ κ)
    (s : List κ × κ) : Turn (List κ × κ) (Option ν) :=
  if s.2 = root ∨ s.2 ∈ s.1 then .done none
  else
    match entries s.2 with
    | some v => .done (some v)
    | none => .again (s.2 :: s.1, (parents s.2).getD root)

/-- What a turn comes to. -/
theorem climbTurn_eq_again_iff {s t : List κ × κ} :
    climbTurn root entries parents s = .again t ↔
      (s.2 ≠ root ∧ s.2 ∉ s.1) ∧ entries s.2 = none ∧
        (s.2 :: s.1, (parents s.2).getD root) = t := by
  rw [climbTurn]
  by_cases hstop : s.2 = root ∨ s.2 ∈ s.1
  · simp [hstop, ← not_or]
  · rcases hentry : entries s.2 with _ | v
    · simp [hstop, ← not_or]
    · simp [hstop]

theorem climbTurn_eq_done_iff {s : List κ × κ} {r : Option ν} :
    climbTurn root entries parents s = .done r ↔
      (s.2 = root ∨ s.2 ∈ s.1) ∧ none = r ∨
        (s.2 ≠ root ∧ s.2 ∉ s.1) ∧ ∃ v, entries s.2 = some v ∧ some v = r := by
  rw [climbTurn]
  by_cases hstop : s.2 = root ∨ s.2 ∈ s.1
  · simp [hstop, ← not_or]
  · rcases hentry : entries s.2 with _ | v
    · simp [hstop]
    · simp [hstop, ← not_or]

/-- The links that the climb has not taken, and one more turn for the root. -/
def unseenLinks (root : κ) (links : List κ) (s : List κ × κ) : ℕ :=
  (links.filter (· ∉ s.1)).length + if s.2 = root then 0 else 1

/-- A turn takes a link, or comes to the root. -/
theorem unseenLinks_lt {links : List κ} (hlinks : ∀ {q}, parents q ≠ none → q ∈ links)
    {s t : List κ × κ} (h : climbTurn root entries parents s = .again t) :
    unseenLinks root links t < unseenLinks root links s := by
  obtain ⟨⟨hroot, hseen⟩, -, rfl⟩ := climbTurn_eq_again_iff.mp h
  rw [unseenLinks, unseenLinks, if_neg hroot]
  have hfilter : links.filter (· ∉ s.2 :: s.1) = (links.filter (· ∉ s.1)).filter (· ≠ s.2) := by
    rw [List.filter_filter]
    exact List.filter_congr fun q _ => by simp
  rw [hfilter]
  rcases hparent : parents s.2 with _ | q
  · rw [Option.getD_none, if_pos rfl]
    exact Nat.lt_succ_of_le (List.length_filter_le ..)
  · have hlink : s.2 ∈ links := hlinks (by rw [hparent]; exact Option.some_ne_none q)
    have hless : ((links.filter (· ∉ s.1)).filter (· ≠ s.2)).length <
        (links.filter (· ∉ s.1)).length :=
      List.length_filter_lt_length_iff_exists.mpr
        ⟨s.2, List.mem_filter.mpr ⟨hlink, by simpa using hseen⟩, by simp⟩
    split
    · omega
    · omega

/-- **The climb returns**, from any node and whatever it has seen. -/
theorem exists_returns_climbTurn {links : List κ} (hlinks : ∀ {q}, parents q ≠ none → q ∈ links)
    (s : List κ × κ) : ∃ r, Returns (climbTurn root entries parents) s r :=
  exists_returns (unseenLinks root links) (unseenLinks_lt hlinks) s

/-- The way so far: the current node is the next one, and those seen are before it. (Where the
climb goes on from an unknown node, it goes on to the root.) -/
inductive OnTheWay (root : κ) (entries : PartialMap κ ν) (parents : PartialMap κ κ) (p : κ)
    (s : List κ × κ) : Prop where
  | climbing {k : ℕ} (hbare : Bare root entries parents p k) (hnode : nodeAt parents p k = some s.2)
      (hseen : ∀ q ∈ s.1, ∃ j < k, nodeAt parents p j = some q)
  | ended (hend : DeadEnd root entries parents p) (hroot : s.2 = root)

theorem OnTheWay.again {s t : List κ × κ} (h : OnTheWay root entries parents p s)
    (hturn : climbTurn root entries parents s = .again t) : OnTheWay root entries parents p t := by
  obtain ⟨⟨hroot, -⟩, hnone, rfl⟩ := climbTurn_eq_again_iff.mp hturn
  cases h with
  | @climbing k hbare hnode hseen =>
    have hnext := hbare.succ hnode hroot hnone
    rcases hparent : parents s.2 with _ | q
    · exact .ended (.unknown hnext hnode hparent) rfl
    · refine .climbing hnext (by rw [nodeAt, hnode, Option.bind_some, hparent]; rfl) ?_
      refine List.forall_mem_cons.mpr ⟨⟨k, Nat.lt_succ_self k, hnode⟩, fun q hq => ?_⟩
      obtain ⟨j, hj, hnodeq⟩ := hseen q hq
      exact ⟨j, Nat.lt_succ_of_lt hj, hnodeq⟩
  | ended _ hend => exact absurd hend hroot

theorem OnTheWay.done {s : List κ × κ} {r : Option ν} (h : OnTheWay root entries parents p s)
    (hturn : climbTurn root entries parents s = .done r) :
    (∃ k v, r = some v ∧ FirstEntry root entries parents p k v) ∨
      r = none ∧ DeadEnd root entries parents p := by
  rcases climbTurn_eq_done_iff.mp hturn with ⟨hstop, rfl⟩ | ⟨⟨hroot, -⟩, v, hv, rfl⟩
  · refine .inr ⟨rfl, ?_⟩
    cases h with
    | climbing hbare hnode hseen =>
      rcases hstop with hroot | hmem
      · exact .root hbare (hroot ▸ hnode)
      · obtain ⟨j, hj, hbefore⟩ := hseen s.2 hmem
        exact .repeated hbare hj (hnode.trans hbefore.symm)
    | ended hend => exact hend
  · refine .inl ?_
    cases h with
    | @climbing k hbare hnode => exact ⟨k, v, rfl, hbare, s.2, hnode, hroot, hv⟩
    | ended _ hend => exact absurd hend hroot

/-- **What the climb returns**: the first entry of the way up, or nothing at a dead end. -/
theorem Returns.first_entry {r : Option ν}
    (h : Returns (climbTurn root entries parents) ([], p) r) :
    (∀ v, r = some v ↔ ∃ k, FirstEntry root entries parents p k v) ∧
      (r = none ↔ DeadEnd root entries parents p) := by
  have hstart : OnTheWay root entries parents p ([], p) :=
    .climbing (k := 0) (fun j hj => absurd hj (Nat.not_lt_zero j)) rfl fun q hq =>
      absurd hq List.not_mem_nil
  obtain ⟨s, hs, hturn⟩ := h.exists_last hstart OnTheWay.again
  rcases hs.done hturn with ⟨k, v, rfl, hfirst⟩ | ⟨rfl, hend⟩
  · have hnear := nearest_iff_firstEntry.mpr hfirst
    refine ⟨fun w => ⟨fun heq => ?_, fun hw => ?_⟩, iff_of_false (Option.some_ne_none v) ?_⟩
    · exact ⟨k, Option.some.inj heq ▸ hfirst⟩
    · obtain ⟨n, hn⟩ := hw
      exact congrArg some (hnear.unique (nearest_iff_firstEntry.mpr hn)).2
    · exact fun hend => hend.not_nearest hnear
  · refine ⟨fun w => iff_of_false (Option.some_ne_none w).symm ?_, iff_of_true rfl hend⟩
    rintro ⟨n, hn⟩
    exact hend.not_nearest (nearest_iff_firstEntry.mpr hn)

end Loop

end ConflictGraph
