import Mathlib.Data.List.Basic
import Mathlib.Data.List.Perm.Basic
import ConflictGraph.Interval

/-!
# Items on lanes

A board has one lane for each worker, and an item is placed by pushing it to the end
of a lane. What a new item has to be compared with are the items of the *other*
lanes: for a relation that holds inside a lane anyway, the board stays pairwise
related exactly when the new item is related to those. The relation of interest is
not to clash, where two items clash if they run at the same time on different
workers and are risky together.
-/

namespace ConflictGraph

universe u v

variable {α : Type u}

/-! ## Boards -/

/-- The items on the lanes of the other workers, lane by lane. -/
def others (lanes : List (List α)) (worker : ℕ) : List α := (lanes.eraseIdx worker).flatten

/-- Put an item at the end of a worker's lane. -/
def push (lanes : List (List α)) (worker : ℕ) (a : α) : List (List α) :=
  lanes.modify worker (· ++ [a])

variable {lanes : List (List α)} {worker : ℕ} {a b : α}

theorem mem_others : b ∈ others lanes worker ↔
    ∃ i : ℕ, ∃ lane : List α, i ≠ worker ∧ lanes[i]? = some lane ∧ b ∈ lane := by
  simp only [others, List.mem_flatten, List.mem_eraseIdx_iff_getElem?]
  refine ⟨?_, ?_⟩
  · rintro ⟨lane, ⟨i, hi, hlane⟩, hb⟩
    exact ⟨i, lane, hi, hlane, hb⟩
  · rintro ⟨i, lane, hi, hlane, hb⟩
    exact ⟨lane, ⟨i, hi, hlane⟩, hb⟩

theorem mem_flatten_iff_getElem? : b ∈ lanes.flatten ↔
    ∃ i : ℕ, ∃ lane : List α, lanes[i]? = some lane ∧ b ∈ lane := by
  rw [List.mem_flatten]
  refine ⟨?_, ?_⟩
  · rintro ⟨lane, hmem, hb⟩
    obtain ⟨i, hlane⟩ := List.mem_iff_getElem?.mp hmem
    exact ⟨i, lane, hlane, hb⟩
  · rintro ⟨i, lane, hlane, hb⟩
    exact ⟨lane, List.mem_of_getElem? hlane, hb⟩

@[simp] theorem length_push (lanes : List (List α)) (worker : ℕ) (a : α) :
    (push lanes worker a).length = lanes.length :=
  List.length_modify ..

theorem getElem?_push_self {lane : List α} (h : lanes[worker]? = some lane) (a : α) :
    (push lanes worker a)[worker]? = some (lane ++ [a]) := by
  rw [push, List.getElem?_modify_eq, h]
  rfl

theorem getElem?_push_ne {i : ℕ} (h : i ≠ worker) (a : α) :
    (push lanes worker a)[i]? = lanes[i]? := by
  simp only [push, List.getElem?_modify_ne _ _ (Ne.symm h)]

/-- Pushing adds exactly the new item to the board. -/
theorem flatten_push_perm (h : worker < lanes.length) (a : α) :
    (push lanes worker a).flatten.Perm (a :: lanes.flatten) := by
  obtain ⟨before, lane, after, hsplit, -, hmodify⟩ := List.exists_of_modify (· ++ [a]) h
  rw [push, hmodify, hsplit]
  simp only [List.flatten_append, List.flatten_cons, List.append_assoc, List.singleton_append]
  rw [← List.append_assoc, ← List.append_assoc before.flatten]
  exact List.perm_middle

/-- The board is one lane and the others. -/
theorem flatten_perm_others {lane : List α} (h : lanes[worker]? = some lane) :
    lanes.flatten.Perm (lane ++ others lanes worker) := by
  obtain ⟨hlt, rfl⟩ := List.getElem?_eq_some_iff.mp h
  have hsplit := (List.getElem_cons_eraseIdx_perm hlt).flatten
  rw [List.flatten_cons] at hsplit
  exact hsplit.symm

/-- Replacing an element trades what it contributes. -/
theorem flatMap_set_perm {β : Type v} (b : α) (f : α → List β) {l : List α} :
    ∀ {i : ℕ}, l[i]? = some a → (f a ++ (l.set i b).flatMap f).Perm (f b ++ l.flatMap f) := by
  induction l with
  | nil => exact fun h => nomatch h
  | cons x rest ih =>
    intro i h
    rcases i with _ | i
    · obtain rfl := Option.some.inj h
      rw [List.set_cons_zero, List.flatMap_cons, List.flatMap_cons]
      exact List.perm_append_comm_assoc ..
    · rw [List.getElem?_cons_succ] at h
      rw [List.set_cons_succ, List.flatMap_cons, List.flatMap_cons]
      refine (List.perm_append_comm_assoc ..).trans (((ih h).append_left _).trans ?_)
      exact List.perm_append_comm_assoc ..

/-- Items grouped by a key are the items, if every key has its group. -/
theorem flatMap_filter_perm {κ : Type v} [DecidableEq κ] (key : α → κ) {keys : List κ}
    (hnodup : keys.Nodup) :
    ∀ l : List α, (∀ a ∈ l, key a ∈ keys) →
      (keys.flatMap fun k => l.filter fun a => key a = k).Perm l := by
  induction keys with
  | nil =>
    intro l h
    rw [List.eq_nil_iff_forall_not_mem.mpr fun a ha => List.not_mem_nil (h a ha)]
    exact List.Perm.refl _
  | cons k keys ih =>
    intro l h
    obtain ⟨hk, hnodup⟩ := List.nodup_cons.mp hnodup
    have hrest : (keys.flatMap fun k' => l.filter fun a => key a = k') =
        keys.flatMap fun k' => (l.filter fun a => key a ≠ k).filter fun a => key a = k' := by
      refine List.flatMap_congr fun k' hk' => ?_
      rw [List.filter_filter]
      refine List.filter_congr fun a _ => ?_
      have hne : k' ≠ k := fun heq => hk (heq ▸ hk')
      by_cases hkey : key a = k'
      · simp [hkey, hne]
      · simp [hkey]
    have hl : ∀ a ∈ l.filter fun a => key a ≠ k, key a ∈ keys := by
      intro a ha
      obtain ⟨hmem, hne⟩ := List.mem_filter.mp ha
      exact (List.mem_cons.mp (h a hmem)).resolve_left (by simpa using hne)
    rw [List.flatMap_cons, hrest]
    refine ((ih hnodup _ hl).append_left _).trans ?_
    have hsplit := List.filter_append_perm (fun a => decide (key a = k)) l
    simpa only [decide_not] using hsplit

/-! ## Clashes -/

section Clash

variable {K : Type v} [LinearOrder K] {workerOf : α → ℤ} {start stop : α → K}
  {risky : α → α → Prop}

/-- The items run at the same time on different workers, and are risky together. -/
def Clash (workerOf : α → ℤ) (start stop : α → K) (risky : α → α → Prop) (a b : α) : Prop :=
  workerOf a ≠ workerOf b ∧ Meets (start a) (stop a) (start b) (stop b) ∧ risky a b

instance [∀ a b, Decidable (risky a b)] (a b : α) :
    Decidable (Clash workerOf start stop risky a b) :=
  inferInstanceAs (Decidable (_ ∧ _ ∧ _))

theorem Clash.symm (hrisky : ∀ a b, risky a b → risky b a)
    (h : Clash workerOf start stop risky a b) : Clash workerOf start stop risky b a :=
  ⟨h.1.symm, h.2.1.symm, hrisky a b h.2.2⟩

/-- No two items clash. -/
def Separated (workerOf : α → ℤ) (start stop : α → K) (risky : α → α → Prop) (l : List α) :
    Prop :=
  l.Pairwise fun a b => ¬ Clash workerOf start stop risky a b

instance [∀ a b, Decidable (risky a b)] (l : List α) :
    Decidable (Separated workerOf start stop risky l) :=
  inferInstanceAs (Decidable (l.Pairwise _))

/-- The order of a list is nothing to that. -/
theorem Separated.perm_iff {l l' : List α} (hrisky : ∀ a b, risky a b → risky b a)
    (h : l.Perm l') :
    Separated workerOf start stop risky l ↔ Separated workerOf start stop risky l' :=
  h.pairwise_iff fun hab hba => hab (hba.symm hrisky)

/-- The items of lane `i` carry the worker `i`. -/
def Indexed (workerOf : α → ℤ) (lanes : List (List α)) : Prop :=
  ∀ (i : ℕ) (lane : List α), lanes[i]? = some lane → ∀ a ∈ lane, workerOf a = i

theorem indexed_replicate (workerOf : α → ℤ) (n : ℕ) : Indexed workerOf (List.replicate n []) := by
  intro i lane h a ha
  rw [List.eq_of_mem_replicate (List.mem_of_getElem? h)] at ha
  cases ha

/-- The lanes stay indexed. -/
theorem Indexed.push {lane : List α} (h : Indexed workerOf lanes)
    (hlane : lanes[worker]? = some lane) (ha : workerOf a = worker) :
    Indexed workerOf (push lanes worker a) := by
  intro i lane' hi b hb
  by_cases hne : i = worker
  · subst hne
    rw [getElem?_push_self hlane] at hi
    obtain rfl := Option.some.inj hi
    rcases List.mem_append.mp hb with hold | hnew
    · exact h i lane hlane b hold
    · rw [List.mem_singleton.mp hnew, ha]
  · rw [getElem?_push_ne hne] at hi
    exact h i lane' hi b hb

/-- An item clashes with nothing on the board if it clashes with nothing on the other
lanes. -/
theorem forall_not_clash_iff (h : Indexed workerOf lanes) (ha : workerOf a = worker) :
    (∀ b ∈ lanes.flatten, ¬ Clash workerOf start stop risky a b) ↔
      ∀ b ∈ others lanes worker, risky a b → ¬ Meets (start a) (stop a) (start b) (stop b) := by
  refine ⟨fun hall b hb hrisk hmeets => ?_, ?_⟩
  · obtain ⟨i, lane, hi, hlane, hmem⟩ := mem_others.mp hb
    refine hall b (mem_flatten_iff_getElem?.mpr ⟨i, lane, hlane, hmem⟩) ⟨?_, hmeets, hrisk⟩
    rw [ha, h i lane hlane b hmem]
    omega
  · rintro hall b hb ⟨hne, hmeets, hrisk⟩
    obtain ⟨i, lane, hlane, hmem⟩ := mem_flatten_iff_getElem?.mp hb
    rw [ha, h i lane hlane b hmem] at hne
    have hi : i ≠ worker := fun heq => hne (by rw [heq])
    exact hall b (mem_others.mpr ⟨i, lane, hi, hlane, hmem⟩) hrisk hmeets

/-- **The push rule.** Pushing an item keeps a board separated exactly when nothing
risky on the other lanes runs during the item. -/
theorem separated_push (hrisky : ∀ a b, risky a b → risky b a) (h : Indexed workerOf lanes)
    (hworker : worker < lanes.length) (ha : workerOf a = worker) :
    Separated workerOf start stop risky (push lanes worker a).flatten ↔
      Separated workerOf start stop risky lanes.flatten ∧
        ∀ b ∈ others lanes worker, risky a b →
          ¬ Meets (start a) (stop a) (start b) (stop b) := by
  rw [Separated.perm_iff hrisky (flatten_push_perm hworker a), Separated, List.pairwise_cons,
    forall_not_clash_iff h ha, and_comm]
  rfl

/-- **The lane rule.** A board is separated exactly when the other lanes are, and no item of
the one lane runs at the same time as a risky item of another. -/
theorem separated_iff_others {lane : List α} (hrisky : ∀ a b, risky a b → risky b a)
    (h : Indexed workerOf lanes) (hlane : lanes[worker]? = some lane) :
    Separated workerOf start stop risky lanes.flatten ↔
      Separated workerOf start stop risky (others lanes worker) ∧
        ∀ a ∈ lane, ∀ b ∈ others lanes worker, risky a b →
          ¬ Meets (start a) (stop a) (start b) (stop b) := by
  rw [Separated.perm_iff hrisky (flatten_perm_others hlane), Separated, List.pairwise_append]
  have hlanes : ∀ a ∈ lane, workerOf a = worker := h worker lane hlane
  have hsame : lane.Pairwise fun a b => ¬ Clash workerOf start stop risky a b :=
    List.pairwise_of_forall_mem_list fun a ha b hb hclash =>
      hclash.1 ((hlanes a ha).trans (hlanes b hb).symm)
  refine (and_iff_right hsame).trans (and_congr_right fun _ => ?_)
  refine ⟨fun hall a ha b hb hrisk hmeets => ?_, ?_⟩
  · obtain ⟨i, other, hi, hother, hmem⟩ := mem_others.mp hb
    refine hall a ha b hb ⟨?_, hmeets, hrisk⟩
    rw [hlanes a ha, h i other hother b hmem]
    omega
  · exact fun hall a ha b hb hclash => hall a ha b hb hclash.2.2 hclash.2.1

end Clash

end ConflictGraph
