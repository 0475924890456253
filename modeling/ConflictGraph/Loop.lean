import Mathlib.Data.List.Basic
import Mathlib.Order.Bounds.Basic
import Mathlib.Order.MinMax
import ConflictGraph.Outcome

/-!
# Loops and their traces

A `for` loop over a list is a left fold. Its *trace* pairs every element with the
loop state in which its iteration begins, so that a statement about every
iteration is a statement about the members of a list. An invariant only has to be
kept by the iterations that the trace really contains.
-/

namespace ConflictGraph

universe u v w

variable {σ : Type u} {α : Type v}

/-- The iterations of `xs.foldl f s`, each with the state it begins in. -/
def foldTrace (f : σ → α → σ) : σ → List α → List (σ × α)
  | _, [] => []
  | s, a :: rest => (s, a) :: foldTrace f (f s a) rest

variable {f : σ → α → σ} {I : σ → Prop}

/-- An iteration is the iteration of an element of the list. -/
theorem mem_of_mem_foldTrace {xs : List α} :
    ∀ {s : σ} {t : σ × α}, t ∈ foldTrace f s xs → t.2 ∈ xs := by
  induction xs with
  | nil => exact fun h => absurd h List.not_mem_nil
  | cons a rest ih =>
    intro s t h
    rcases List.mem_cons.mp h with rfl | hrest
    · exact List.mem_cons_self
    · exact List.mem_cons_of_mem _ (ih hrest)

/-- An invariant that every iteration of the trace keeps holds after the loop. -/
theorem foldl_invariant {xs : List α} :
    ∀ {s : σ}, I s → (∀ t ∈ foldTrace f s xs, I t.1 → I (f t.1 t.2)) → I (xs.foldl f s) := by
  induction xs with
  | nil => exact fun hs _ => hs
  | cons a rest ih =>
    intro s hs hstep
    rw [foldTrace, List.forall_mem_cons] at hstep
    exact ih (hstep.1 hs) hstep.2

/-- An invariant that every iteration of the trace keeps holds whenever one begins. -/
theorem foldTrace_invariant {xs : List α} :
    ∀ {s : σ}, I s → (∀ t ∈ foldTrace f s xs, I t.1 → I (f t.1 t.2)) →
      ∀ t ∈ foldTrace f s xs, I t.1 := by
  induction xs with
  | nil => exact fun _ _ => List.forall_mem_nil _
  | cons a rest ih =>
    intro s hs hstep
    rw [foldTrace, List.forall_mem_cons] at hstep ⊢
    exact ⟨hs, ih (hstep.1 hs) hstep.2⟩

/-- What holds of the elements done, and of the state after them, holds after the loop. -/
theorem foldl_prefix_invariant {I : List α → σ → Prop} {xs : List α} {s : σ} (hs : I [] s)
    (hstep : ∀ {done a rest s}, xs = done ++ a :: rest → I done s → I (done ++ [a]) (f s a)) :
    I xs (xs.foldl f s) := by
  have hrun : ∀ (rest done : List α) (s : σ), xs = done ++ rest → I done s →
      I xs (rest.foldl f s) := by
    intro rest
    induction rest with
    | nil =>
      intro done s hxs hdone
      rwa [hxs, List.append_nil]
    | cons a rest ih =>
      intro done s hxs hdone
      exact ih (done ++ [a]) (f s a) (by rw [hxs, List.append_cons]) (hstep hxs hdone)
  exact hrun xs [] s rfl hs

/-! ## Loops that can fail -/

/-- What holds of the elements done, and of the state after them, holds after a loop that
did not fail. -/
theorem foldlM_invariant {ε : Type w} {f : σ → α → Except ε σ} {I : List α → σ → Prop}
    (hstep : ∀ {done a s s'}, I done s → f s a = .ok s' → I (done ++ [a]) s') {rest : List α} :
    ∀ {done : List α} {s s' : σ}, I done s → rest.foldlM f s = .ok s' → I (done ++ rest) s' := by
  induction rest with
  | nil =>
    intro done s s' hs hrun
    obtain rfl := Except.ok.inj hrun
    rwa [List.append_nil]
  | cons a rest ih =>
    intro done s s' hs hrun
    rw [List.foldlM_cons] at hrun
    obtain ⟨next, hnext, hrest⟩ := bind_eq_ok_iff.mp hrun
    rw [List.append_cons]
    exact ih (hstep hs hnext) hrest

/-- What is collected of a list is what the calls return, one by one. -/
theorem forall₂_of_mapM_eq_ok {ε : Type u} {β : Type w} {f : α → Except ε β} {l : List α} :
    ∀ {bs : List β}, l.mapM f = .ok bs → List.Forall₂ (fun a b => f a = .ok b) l bs := by
  induction l with
  | nil =>
    intro bs h
    obtain rfl := Except.ok.inj h
    exact List.Forall₂.nil
  | cons a rest ih =>
    intro bs h
    rw [List.mapM_cons] at h
    obtain ⟨b, hb, hbs⟩ := bind_eq_ok_iff.mp h
    obtain ⟨others, hothers, hcons⟩ := bind_eq_ok_iff.mp hbs
    obtain rfl := Except.ok.inj hcons
    exact List.Forall₂.cons hb (ih hothers)

theorem mapM_eq_ok_of_forall₂ {ε : Type u} {β : Type w} {f : α → Except ε β} {l : List α}
    {bs : List β} (h : List.Forall₂ (fun a b => f a = .ok b) l bs) : l.mapM f = .ok bs := by
  induction h with
  | nil => rfl
  | cons hb _ ih =>
    rw [List.mapM_cons, hb, ih]
    rfl

/-- What is collected comes of one of the calls. -/
theorem exists_of_mem_mapM {ε : Type u} {β : Type w} {f : α → Except ε β} {l : List α}
    {bs : List β} (h : l.mapM f = .ok bs) : ∀ b ∈ bs, ∃ a ∈ l, f a = .ok b := by
  have hall := forall₂_of_mapM_eq_ok h
  clear h
  induction hall with
  | nil => exact List.forall_mem_nil _
  | @cons a b _ _ hb _ ih =>
    refine List.forall_mem_cons.mpr ⟨⟨a, List.mem_cons_self, hb⟩, fun c hc => ?_⟩
    obtain ⟨a', ha', hc⟩ := ih c hc
    exact ⟨a', List.mem_cons_of_mem _ ha', hc⟩

/-- If collecting fails, one of the calls has failed. -/
theorem exists_of_mapM_eq_error {ε : Type u} {β : Type w} {f : α → Except ε β} {e : ε}
    {l : List α} : l.mapM f = .error e → ∃ a ∈ l, f a = .error e := by
  induction l with
  | nil => exact fun h => by cases h
  | cons a rest ih =>
    intro h
    rw [List.mapM_cons] at h
    rcases bind_eq_error_iff.mp h with ha | ⟨b, -, hrest⟩
    · exact ⟨a, List.mem_cons_self, ha⟩
    · rcases bind_eq_error_iff.mp hrest with hrest | ⟨bs, -, hpure⟩
      · obtain ⟨b, hb, hfail⟩ := ih hrest
        exact ⟨b, List.mem_cons_of_mem _ hb, hfail⟩
      · cases hpure

/-- The calls collect something exactly if none of them fails. -/
theorem exists_mapM_eq_ok_iff {ε : Type u} {β : Type v} {f : α → Except ε β} {l : List α} :
    (∃ bs, l.mapM f = .ok bs) ↔ ∀ a ∈ l, ∃ b, f a = .ok b := by
  refine ⟨?_, fun h => ⟨_, mapM_eq_ok h⟩⟩
  rintro ⟨bs, hbs⟩
  have hall := forall₂_of_mapM_eq_ok hbs
  clear hbs
  induction hall with
  | nil => exact List.forall_mem_nil _
  | cons hb _ ih => exact List.forall_mem_cons.mpr ⟨⟨_, hb⟩, ih⟩

/-! ## Running maxima -/

/-- The loop `m = max(m, f(a))` computes the greatest value seen, the initial one
included. -/
theorem isGreatest_foldl_max {K : Type u} [LinearOrder K] (f : α → K) (xs : List α) :
    ∀ first : K, IsGreatest {x | x = first ∨ ∃ a ∈ xs, f a = x}
      (xs.foldl (fun m a => max m (f a)) first) := by
  induction xs with
  | nil => exact fun first => ⟨Or.inl rfl, fun x hx => (hx.resolve_right (by simp)).le⟩
  | cons a rest ih =>
    intro first
    obtain ⟨hmem, hbound⟩ := ih (max first (f a))
    rw [List.foldl_cons]
    refine ⟨?_, fun x hx => ?_⟩
    · rcases hmem with hmax | ⟨b, hb, hfb⟩
      · rw [hmax]
        rcases max_choice first (f a) with h | h
        · exact Or.inl h
        · exact Or.inr ⟨a, List.mem_cons_self, h.symm⟩
      · exact Or.inr ⟨b, List.mem_cons_of_mem _ hb, hfb⟩
    · have hstart := hbound (Or.inl rfl)
      rcases hx with rfl | ⟨b, hb, rfl⟩
      · exact (le_max_left _ _).trans hstart
      · rcases List.mem_cons.mp hb with rfl | hb
        · exact (le_max_right _ _).trans hstart
        · exact hbound (Or.inr ⟨b, hb, rfl⟩)

end ConflictGraph
