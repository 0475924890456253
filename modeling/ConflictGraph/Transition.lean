import Mathlib.Data.List.Basic

/-!
# Runs of a labelled machine

A machine is a partial step function: `step s l = some t` when the action `l` is
possible in `s` and leads to `t`. All nondeterminism, which party moves and how the
environment answers, is in the label, so a run is a list of labels and can be
executed. The *visits* of a run are its steps, each with the state it starts in; a
condition on how a run unfolds is a condition on its visits.
-/

namespace ConflictGraph

universe u v

variable {σ : Type u} {ℓ : Type v}

/-- Where a run ends, if every action of it is possible. -/
def runFrom (step : σ → ℓ → Option σ) : σ → List ℓ → Option σ
  | s, [] => some s
  | s, l :: rest =>
    match step s l with
    | none => none
    | some t => runFrom step t rest

/-- The steps of a run, each with the state it starts in. -/
def visits (step : σ → ℓ → Option σ) : σ → List ℓ → List (σ × ℓ)
  | _, [] => []
  | s, l :: rest =>
    match step s l with
    | none => [(s, l)]
    | some t => (s, l) :: visits step t rest

variable {step : σ → ℓ → Option σ} {I : σ → Prop} {Ok : σ → ℓ → Prop}

theorem runFrom_cons {s t : σ} {l : ℓ} {rest : List ℓ} :
    runFrom step s (l :: rest) = some t ↔ ∃ m, step s l = some m ∧ runFrom step m rest = some t := by
  rw [runFrom]
  rcases step s l with _ | m
  · simp
  · simp

theorem visits_cons {s m : σ} {l : ℓ} (h : step s l = some m) (rest : List ℓ) :
    visits step s (l :: rest) = (s, l) :: visits step m rest := by
  rw [visits, h]

/-- **The invariant rule.** What every step of a certain kind preserves holds after a
run all of whose steps are of that kind. -/
theorem invariant_of_run (hstep : ∀ {s l t}, step s l = some t → Ok s l → I s → I t) :
    ∀ {ls : List ℓ} {s t : σ}, runFrom step s ls = some t →
      (∀ visit ∈ visits step s ls, Ok visit.1 visit.2) → I s → I t := by
  intro ls
  induction ls with
  | nil =>
    intro s t hrun _ hs
    obtain rfl := Option.some.inj hrun
    exact hs
  | cons l rest ih =>
    intro s t hrun hok hs
    obtain ⟨m, hm, hrest⟩ := runFrom_cons.mp hrun
    rw [visits_cons hm, List.forall_mem_cons] at hok
    exact ih hrest hok.2 (hstep hm hok.1 hs)

/-- What every step preserves holds after every run. -/
theorem invariant_of_steps (hstep : ∀ {s l t}, step s l = some t → I s → I t) {ls : List ℓ}
    {s t : σ} (hrun : runFrom step s ls = some t) (hs : I s) : I t :=
  @invariant_of_run _ _ step I (fun _ _ => True) (fun h _ => hstep h) _ _ _ hrun
    (fun _ _ => trivial) hs

/-- What every step of a certain kind preserves holds in every state that a run of such
steps visits. -/
theorem invariant_of_visits (hstep : ∀ {s l t}, step s l = some t → Ok s l → I s → I t) :
    ∀ {ls : List ℓ} {s : σ}, (∀ visit ∈ visits step s ls, Ok visit.1 visit.2) → I s →
      ∀ visit ∈ visits step s ls, I visit.1 := by
  intro ls
  induction ls with
  | nil => exact fun _ _ _ h => nomatch h
  | cons l rest ih =>
    intro s hok hs visit hvisit
    rcases hm : step s l with _ | m
    · simp only [visits, hm, List.mem_singleton] at hvisit
      rw [hvisit]
      exact hs
    · rw [visits_cons hm, List.forall_mem_cons] at hok
      rw [visits_cons hm, List.mem_cons] at hvisit
      rcases hvisit with rfl | hvisit
      · exact hs
      · exact ih hok.2 (hstep hm hok.1 hs) visit hvisit

/-- A run that goes through visits all its actions. -/
theorem map_snd_visits {ls : List ℓ} :
    ∀ {s t : σ}, runFrom step s ls = some t → (visits step s ls).map Prod.snd = ls := by
  induction ls with
  | nil => exact fun _ => rfl
  | cons l rest ih =>
    intro s t hrun
    obtain ⟨m, hm, hrest⟩ := runFrom_cons.mp hrun
    rw [visits_cons hm, List.map_cons, ih hrest]

/-- **The history rule.** What holds of a state together with the steps that led to it holds
after a run, with the visits of the run. -/
theorem history_of_run {J : List (σ × ℓ) → σ → Prop}
    (hstep : ∀ {done s l t}, step s l = some t → J done s → J (done ++ [(s, l)]) t) :
    ∀ {ls : List ℓ} {done : List (σ × ℓ)} {s t : σ}, runFrom step s ls = some t → J done s →
      J (done ++ visits step s ls) t := by
  intro ls
  induction ls with
  | nil =>
    intro done s t hrun hs
    obtain rfl := Option.some.inj hrun
    rwa [visits, List.append_nil]
  | cons l rest ih =>
    intro done s t hrun hs
    obtain ⟨m, hm, hrest⟩ := runFrom_cons.mp hrun
    rw [visits_cons hm, List.append_cons]
    exact ih hrest (hstep hm hs)

/-- What is read off a history grows with its last step. -/
theorem filterMap_concat {α : Type u} {β : Type v} (f : α → Option β) (done : List α) (a : α) :
    (done ++ [a]).filterMap f = done.filterMap f ++ (f a).toList := by
  rw [List.filterMap_append]
  rcases h : f a with _ | b
  · rw [List.filterMap_cons_none h, List.filterMap_nil, Option.toList_none]
  · rw [List.filterMap_cons_some h, List.filterMap_nil, Option.toList_some]

/-- The actions of the visits are actions of the run. -/
theorem mem_of_mem_visits {ls : List ℓ} :
    ∀ {s : σ} {visit : σ × ℓ}, visit ∈ visits step s ls → visit.2 ∈ ls := by
  induction ls with
  | nil => exact fun h => nomatch h
  | cons l rest ih =>
    intro s visit h
    rcases hm : step s l with _ | m
    · simp only [visits, hm, List.mem_singleton] at h
      rw [h]
      exact List.mem_cons_self
    · rw [visits_cons hm, List.mem_cons] at h
      rcases h with rfl | h
      · exact List.mem_cons_self
      · exact List.mem_cons_of_mem _ (ih h)

end ConflictGraph
