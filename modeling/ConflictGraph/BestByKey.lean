import Mathlib.Data.List.Induction
import Mathlib.Order.Lattice

/-!
# The best item of every key

A loop that keeps, for every key, the item of the highest score, and of equal ones the first.
`IsBest` says which items these are by their place in the list, and `mem_bestByKey` that the
loop keeps just them.
-/

namespace ConflictGraph

universe u v w

variable {α : Type u} {κ : Type v} {σ : Type w} [LinearOrder σ] (key : α → κ) (score : α → σ)

/-- Of the items with its key, `q` is the first of the highest score. -/
def IsBest (items : List α) (q : α) : Prop :=
  ∃ before after, items = before ++ q :: after ∧
    (∀ p ∈ before, key p = key q → score p < score q) ∧
    ∀ p ∈ after, key p = key q → score p ≤ score q

variable {key score}

theorem IsBest.mem {items : List α} {q : α} (h : IsBest key score items q) : q ∈ items := by
  obtain ⟨before, after, rfl, -, -⟩ := h
  exact List.mem_append_right _ List.mem_cons_self

theorem IsBest.score_le {items : List α} {p q : α} (h : IsBest key score items q) (hp : p ∈ items)
    (hkey : key p = key q) : score p ≤ score q := by
  obtain ⟨before, after, rfl, hbefore, hafter⟩ := h
  rcases List.mem_append.mp hp with hp | hp
  · exact (hbefore p hp hkey).le
  · rcases List.mem_cons.mp hp with rfl | hp
    · exact le_refl _
    · exact hafter p hp hkey

/-- There is one best item of a key. -/
theorem IsBest.eq {items : List α} {q q' : α} (h : IsBest key score items q)
    (h' : IsBest key score items q') (hkey : key q = key q') : q = q' := by
  have hscore : score q = score q' :=
    le_antisymm (h'.score_le h.mem hkey) (h.score_le h'.mem hkey.symm)
  obtain ⟨before, after, hitems, hbefore, -⟩ := h
  obtain ⟨before', after', hitems', hbefore', -⟩ := h'
  -- whichever comes first, the other one is not strictly better
  rcases List.append_eq_append_iff.mp (hitems.symm.trans hitems') with
    ⟨between, hbetween, hrest⟩ | ⟨between, hbetween, hrest⟩
  · rcases between with _ | ⟨c, rest⟩
    · exact (List.cons.inj hrest).1
    · obtain rfl := (List.cons.inj hrest).1
      have hmem : q ∈ before' := hbetween ▸ List.mem_append_right _ List.mem_cons_self
      exact absurd hscore (hbefore' q hmem hkey).ne
  · rcases between with _ | ⟨c, rest⟩
    · exact (List.cons.inj hrest).1.symm
    · obtain rfl := (List.cons.inj hrest).1
      have hmem : q' ∈ before := hbetween ▸ List.mem_append_right _ List.mem_cons_self
      exact absurd hscore.symm (hbefore q' hmem hkey.symm).ne

/-- One more item: it is the best of its key if it is strictly better, and else changes nothing. -/
theorem isBest_concat_iff {items : List α} {a q : α} :
    IsBest key score (items ++ [a]) q ↔
      (IsBest key score items q ∧ (key a = key q → score a ≤ score q)) ∨
        (q = a ∧ ∀ p ∈ items, key p = key a → score p < score a) := by
  refine ⟨?_, ?_⟩
  · rintro ⟨before, after, hitems, hbefore, hafter⟩
    rcases List.eq_nil_or_concat after with rfl | ⟨rest, last, rfl⟩
    · obtain ⟨rfl, heq⟩ := List.append_inj' hitems rfl
      obtain rfl := (List.cons.inj heq).1
      exact .inr ⟨rfl, hbefore⟩
    · rw [List.concat_eq_append, ← List.cons_append, ← List.append_assoc] at hitems
      obtain ⟨rfl, heq⟩ := List.append_inj' hitems rfl
      obtain rfl := (List.cons.inj heq).1
      rw [List.concat_eq_append, List.forall_mem_append] at hafter
      exact .inl ⟨⟨before, rest, rfl, hbefore, hafter.1⟩, hafter.2 a List.mem_cons_self⟩
  · rintro (⟨⟨before, after, rfl, hbefore, hafter⟩, hlast⟩ | ⟨rfl, hall⟩)
    · refine ⟨before, after ++ [a], by rw [List.append_assoc, List.cons_append], hbefore, ?_⟩
      rw [List.forall_mem_append]
      exact ⟨hafter, List.forall_mem_singleton.mpr hlast⟩
    · exact ⟨items, [], rfl, hall, fun p hp => absurd hp List.not_mem_nil⟩

/-- Every key that occurs has a best item. -/
theorem exists_isBest {items : List α} :
    ∀ {p}, p ∈ items → ∃ q, IsBest key score items q ∧ key q = key p := by
  induction items using List.reverseRecOn with
  | nil => exact fun hp => absurd hp List.not_mem_nil
  | append_singleton items a ih =>
    have hlast : ∃ q, IsBest key score (items ++ [a]) q ∧ key q = key a := by
      by_cases hold : ∃ p ∈ items, key p = key a ∧ score a ≤ score p
      · obtain ⟨p, hp, hkey, hle⟩ := hold
        obtain ⟨q, hq, hkeyq⟩ := ih hp
        refine ⟨q, isBest_concat_iff.mpr (.inl ⟨hq, fun _ => ?_⟩), hkeyq.trans hkey⟩
        exact hle.trans (hq.score_le hp hkeyq.symm)
      · refine ⟨a, isBest_concat_iff.mpr (.inr ⟨rfl, fun p hp hkey => ?_⟩), rfl⟩
        exact not_le.mp fun hle => hold ⟨p, hp, hkey, hle⟩
    intro p hp
    by_cases hkey : key p = key a
    · rwa [hkey]
    · rcases List.mem_append.mp hp with hp | hp
      · obtain ⟨q, hq, hkeyq⟩ := ih hp
        refine ⟨q, isBest_concat_iff.mpr (.inl ⟨hq, fun hsame => ?_⟩), hkeyq⟩
        exact absurd (hsame.trans hkeyq).symm hkey
      · exact absurd (congrArg key (List.mem_singleton.mp hp)) hkey

/-- What keeps keys and scores maps the best items to the best ones. -/
theorem isBest_map_iff {f : α → α} (hkey : ∀ a, key (f a) = key a)
    (hscore : ∀ a, score (f a) = score a) {items : List α} {q : α} :
    IsBest key score (items.map f) q ↔ ∃ p, IsBest key score items p ∧ f p = q := by
  refine ⟨?_, ?_⟩
  · rintro ⟨before, after, hitems, hbefore, hafter⟩
    obtain ⟨before, rest, rfl, rfl, hrest⟩ := List.map_eq_append_iff.mp hitems
    obtain ⟨p, after, rfl, rfl, rfl⟩ := List.map_eq_cons_iff.mp hrest
    simp only [List.forall_mem_map, hkey, hscore] at hbefore hafter
    exact ⟨p, ⟨before, after, rfl, hbefore, hafter⟩, rfl⟩
  · rintro ⟨p, ⟨before, after, rfl, hbefore, hafter⟩, rfl⟩
    refine ⟨before.map f, after.map f, by rw [List.map_append, List.map_cons], ?_, ?_⟩
    · simpa only [List.forall_mem_map, hkey, hscore] using hbefore
    · simpa only [List.forall_mem_map, hkey, hscore] using hafter

section Loop

variable (key score) [DecidableEq κ]

/-- An iteration: the item replaces the one of its key if it is better. -/
def keepBest (kept : List α) (a : α) : List α :=
  match kept.find? fun p => key p = key a with
  | none => kept ++ [a]
  | some current =>
    if score current < score a then kept.map fun p => if key p = key a then a else p else kept

/-- The best item of every key, in the order in which the keys first occur. -/
def bestByKey (items : List α) : List α := items.foldl (keepBest key score) []

variable {key score}

/-- An iteration on the items that are kept. -/
theorem mem_keepBest {kept : List α} {a q : α}
    (hkept : ∀ p ∈ kept, ∀ p' ∈ kept, key p = key p' → p = p') :
    q ∈ keepBest key score kept a ↔
      (q ∈ kept ∧ (key a = key q → score a ≤ score q)) ∨
        (q = a ∧ ∀ p ∈ kept, key p = key a → score p < score a) := by
  rw [keepBest]
  cases hfind : kept.find? fun p => key p = key a with
  | none =>
    have hnew : ∀ p ∈ kept, key p ≠ key a := by
      simpa using List.find?_eq_none.mp hfind
    rw [List.mem_append, List.mem_singleton]
    refine or_congr ?_ ?_
    · exact (and_iff_left_of_imp fun hq hkey => absurd hkey.symm (hnew q hq)).symm
    · exact (and_iff_left fun p hp hkey => absurd hkey (hnew p hp)).symm
  | some current =>
    have hmem : current ∈ kept := List.mem_of_find?_eq_some hfind
    have hkey : key current = key a := by simpa using List.find?_some hfind
    have honly : ∀ p ∈ kept, key p = key a → p = current :=
      fun p hp hp' => hkept p hp current hmem (hp'.trans hkey.symm)
    dsimp only
    split
    · -- the item replaces the one that is kept
      rename_i hlt
      rw [List.mem_map]
      refine ⟨?_, ?_⟩
      · rintro ⟨p, hp, rfl⟩
        split
        · exact .inr ⟨rfl, fun p' hp' hkey' => by rwa [honly p' hp' hkey']⟩
        · rename_i hne
          exact .inl ⟨hp, fun hsame => absurd hsame.symm hne⟩
      · rintro (⟨hq, hle⟩ | ⟨rfl, -⟩)
        · refine ⟨q, hq, if_neg fun hsame => ?_⟩
          have hscore := hle hsame.symm
          rw [honly q hq hsame] at hscore
          exact absurd hlt hscore.not_gt
        · exact ⟨current, hmem, if_pos hkey⟩
    · rename_i hle
      refine ⟨fun hq => ?_, ?_⟩
      · refine .inl ⟨hq, fun hsame => ?_⟩
        rw [honly q hq hsame.symm]
        exact not_lt.mp hle
      · rintro (⟨hq, -⟩ | ⟨-, hall⟩)
        · exact hq
        · exact absurd (hall current hmem hkey) hle

/-- **The loop keeps the best items.** -/
theorem mem_bestByKey {items : List α} :
    ∀ {q}, q ∈ bestByKey key score items ↔ IsBest key score items q := by
  induction items using List.reverseRecOn with
  | nil => exact ⟨fun h => absurd h List.not_mem_nil, fun h => absurd h.mem List.not_mem_nil⟩
  | append_singleton items a ih =>
    intro q
    have hstep : bestByKey key score (items ++ [a]) =
        keepBest key score (bestByKey key score items) a := by
      rw [bestByKey, List.foldl_append]
      rfl
    have hkept : ∀ p ∈ bestByKey key score items, ∀ p' ∈ bestByKey key score items,
        key p = key p' → p = p' := fun p hp p' hp' => (ih.mp hp).eq (ih.mp hp')
    rw [hstep, mem_keepBest hkept, isBest_concat_iff, ih]
    refine or_congr_right (and_congr_right fun _ => ⟨fun h p hp hkey => ?_, fun h p hp => ?_⟩)
    · obtain ⟨best, hbest, hkeyb⟩ : ∃ best, IsBest key score items best ∧ key best = key p :=
        exists_isBest hp
      exact (hbest.score_le hp hkeyb.symm).trans_lt (h best (ih.mpr hbest) (hkeyb.trans hkey))
    · exact h p (ih.mp hp).mem

theorem nodup_keepBest {kept : List α} (h : (kept.map key).Nodup) (a : α) :
    ((keepBest key score kept a).map key).Nodup := by
  rw [keepBest]
  cases hfind : kept.find? fun p => key p = key a with
  | none =>
    have hnew : key a ∉ kept.map key := by
      simpa using List.find?_eq_none.mp hfind
    rw [List.map_append]
    exact (List.perm_append_singleton (key a) (kept.map key)).nodup_iff.mpr
      (List.nodup_cons.mpr ⟨hnew, h⟩)
  | some current =>
    dsimp only
    split
    · -- what is replaced has the key of what replaces it
      have hkeys : (kept.map fun p => if key p = key a then a else p).map key = kept.map key := by
        rw [List.map_map]
        refine List.map_congr_left fun p _ => ?_
        rw [Function.comp_apply]
        split
        · rename_i hkey
          exact hkey.symm
        · rfl
      rwa [hkeys]
    · exact h

/-- No key is kept twice. -/
theorem nodup_bestByKey (items : List α) : ((bestByKey key score items).map key).Nodup := by
  induction items using List.reverseRecOn with
  | nil => exact List.nodup_nil
  | append_singleton items a ih =>
    rw [bestByKey, List.foldl_append]
    exact nodup_keepBest ih a

end Loop

end ConflictGraph
