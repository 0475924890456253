import Mathlib.Init

/-!
# Partial correctness of a fallible call

`OnOk r P` says that `P` holds of the value that `r` returns, if it returns one. On
a concrete call it is decided by running the call.
-/

namespace ConflictGraph

universe u v w

variable {ε : Type u} {α : Type v}

/-- `P` holds of the value of `r`, if there is one. -/
def OnOk (r : Except ε α) (P : α → Prop) : Prop := ∀ a, r = .ok a → P a

@[simp] theorem onOk_ok {a : α} {P : α → Prop} : OnOk (.ok a : Except ε α) P ↔ P a :=
  ⟨fun h => h a rfl, fun h _ hb => Except.ok.inj hb ▸ h⟩

@[simp] theorem onOk_error {e : ε} {P : α → Prop} : OnOk (.error e : Except ε α) P ↔ True :=
  ⟨fun _ => trivial, fun _ _ h => nomatch h⟩

instance OnOk.decidable (P : α → Prop) [∀ a, Decidable (P a)] :
    ∀ r : Except ε α, Decidable (OnOk r P)
  | .ok a => decidable_of_iff (P a) onOk_ok.symm
  | .error _ => isTrue (onOk_error.mpr trivial)

/-- A consequence of what is returned holds of it. -/
theorem OnOk.imp {r : Except ε α} {P Q : α → Prop} (h : OnOk r P)
    (himp : ∀ a, r = .ok a → P a → Q a) : OnOk r Q :=
  fun a ha => himp a ha (h a ha)

theorem exists_eq_ok_of_isOk {r : Except ε α} (h : r.isOk = true) : ∃ a, r = .ok a := by
  rcases r with e | a
  · cases h
  · exact ⟨a, rfl⟩

theorem eq_error_of_map_eq_error {β : Type w} {r : Except ε α} {f : α → β} {e : ε}
    (h : r.map f = .error e) : r = .error e := by
  rcases r with e' | a
  · exact congrArg Except.error (Except.error.inj h)
  · cases h

theorem eq_ok_of_map_eq_ok {β : Type w} {r : Except ε α} {f : α → β} {b : β}
    (h : r.map f = .ok b) : ∃ a, r = .ok a ∧ f a = b := by
  rcases r with e | a
  · cases h
  · exact ⟨a, rfl, Except.ok.inj h⟩

/-- They fail where one of them does. -/
theorem bind_eq_error_iff {β : Type v} {r : Except ε α} {f : α → Except ε β} {e : ε} :
    r >>= f = .error e ↔ r = .error e ∨ ∃ a, r = .ok a ∧ f a = .error e := by
  rcases r with e' | a <;> simp [bind, Except.bind]

/-- Two steps succeed if the first does, and then the second. -/
theorem bind_eq_ok_iff {β : Type v} {r : Except ε α} {f : α → Except ε β} {b : β} :
    r >>= f = .ok b ↔ ∃ a, r = .ok a ∧ f a = .ok b := by
  rcases r with e' | a <;> simp [bind, Except.bind]

theorem toOption_map {β : Type w} (f : α → β) (r : Except ε α) :
    (r.map f).toOption = r.toOption.map f := by
  rcases r with e | a <;> rfl

theorem toOption_bind {β : Type v} (r : Except ε α) (f : α → Except ε β) :
    (r >>= f).toOption = r.toOption.bind fun a => (f a).toOption := by
  rcases r with e | a <;> rfl

/-- What is collected of a list, if no call fails. -/
theorem mapM_eq_ok {β : Type v} {f : α → Except ε β} {l : List α} (h : ∀ a ∈ l, ∃ b, f a = .ok b) :
    l.mapM f = .ok (l.filterMap fun a => (f a).toOption) := by
  induction l with
  | nil => rfl
  | cons a rest ih =>
    rw [List.forall_mem_cons] at h
    obtain ⟨⟨b, hb⟩, hrest⟩ := h
    have hhead : (f a).toOption = some b := by
      rw [hb]
      rfl
    rw [@List.filterMap_cons_some _ _ (fun a => (f a).toOption) a rest b hhead, List.mapM_cons,
      ih hrest, hb]
    rfl

end ConflictGraph
