import ConflictGraph.FileWrite

/-!
# Documents in files

A shelf keeps one document for each key, in a file of its own that is written through a
temporary one. One document is saved at a time, and the one who saves it may give up at any
moment. The files then have of each key the document that was last saved under it, as a whole,
and they are as old as the documents (`shelved_of_run`).
-/

namespace ConflictGraph

universe u v w x

/-- Where the documents are: each key has a path of its own, and no temporary file is at one. -/
structure ShelfPaths (κ : Type u) (π : Type v) : Type (max u v) where
  path : κ → π
  temporary : κ → π
  path_injective : Function.Injective path
  path_ne_temporary : ∀ k k', path k ≠ temporary k'

/-- A save that has begun. -/
structure Saving (κ : Type u) (π : Type v) (δ : Type w) (α : Type x) : Type (max u v w x) where
  key : κ
  document : δ
  todo : List (FileStep π α)

/-- The files with the times of their last changes, and the save that is going on. -/
structure Shelf (κ : Type u) (π : Type v) (δ : Type w) (α : Type x) : Type (max u v w x) where
  files : PartialMap π (List α) := .empty
  mtimes : PartialMap π ℕ := .empty
  saving : Option (Saving κ π δ α) := none
  clock : ℕ := 0

inductive ShelfAction (κ : Type u) (δ : Type w) (α : Type x) : Type (max u w x) where
  /-- begin to save a document, whose text gets into the file in these chunks -/
  | save (key : κ) (document : δ) (chunks : List (List α))
  /-- the next file operation, at this time -/
  | write (now : ℕ)
  | abandon

/-- A document that was saved, and when the last of it was written. -/
structure SavedDocument (κ : Type u) (δ : Type w) : Type (max u w) where
  key : κ
  document : δ
  mtime : ℕ

section Shelf

variable {κ : Type u} {π : Type v} {δ : Type w} {α : Type x} [DecidableEq κ] [DecidableEq π]
  [DecidableEq α]

/-- The times of the files after an operation. -/
def FileStep.touch (now : ℕ) (mtimes : PartialMap π ℕ) : FileStep π α → PartialMap π ℕ
  | .truncate path => mtimes.insert path now
  | .append path _ => mtimes.insert path now
  | .replace source target =>
    match mtimes source with
    | some mtime => (mtimes.remove source).insert target mtime
    | none => mtimes

/-- What was last saved under a key. -/
def latest (log : List (SavedDocument κ δ)) (k : κ) : Option (SavedDocument κ δ) :=
  (log.filter (·.key = k)).getLast?

namespace Shelf

variable (P : ShelfPaths κ π) (render : δ → List α)

def step (s : Shelf κ π δ α) : ShelfAction κ δ α → Option (Shelf κ π δ α)
  | .save key document chunks =>
    if s.saving.isNone ∧ chunks.flatten = render document then
      some { s with
        saving := some ⟨key, document, writeThrough (P.temporary key) (P.path key) chunks⟩ }
    else none
  | .write now =>
    match s.saving with
    | some ⟨key, document, op :: todo⟩ =>
      if s.clock ≤ now then
        some { files := op.apply s.files, mtimes := op.touch now s.mtimes,
               saving := if todo.isEmpty then none else some ⟨key, document, todo⟩, clock := now }
      else none
    | _ => none
  | .abandon => if s.saving.isSome then some { s with saving := none } else none

/-- What a step has saved, if it is the last one of a save. -/
def completed? : Shelf κ π δ α × ShelfAction κ δ α → Option (SavedDocument κ δ)
  | (s, .write _) =>
    match s.saving with
    | some ⟨key, document, [_]⟩ => some ⟨key, document, (s.mtimes (P.temporary key)).getD 0⟩
    | _ => none
  | _ => none

/-- The documents that a run has saved, in their order. -/
def savedOf (visited : List (Shelf κ π δ α × ShelfAction κ δ α)) : List (SavedDocument κ δ) :=
  visited.filterMap (completed? P)

/-- How far a save is: it has written nothing yet, or this much to the temporary file, since
all the earlier ones. -/
inductive Stage (log : List (SavedDocument κ δ)) (s : Shelf κ π δ α) (w : Saving κ π δ α) :
    Prop where
  | opening (chunks : List (List α)) (hchunks : chunks.flatten = render w.document)
      (htodo : w.todo = writeThrough (P.temporary w.key) (P.path w.key) chunks)
  | writing (done rest : List (List α)) (mtime : ℕ)
      (hchunks : (done ++ rest).flatten = render w.document)
      (hfile : s.files (P.temporary w.key) = some done.flatten)
      (hmtime : s.mtimes (P.temporary w.key) = some mtime) (hclock : mtime ≤ s.clock)
      (hlater : ∀ e ∈ log, e.mtime ≤ mtime)
      (htodo : w.todo =
        rest.map (.append (P.temporary w.key)) ++ [.replace (P.temporary w.key) (P.path w.key)])

/-- The files have what was last saved, and nothing else but temporary files. -/
structure Shelved (log : List (SavedDocument κ δ)) (s : Shelf κ π δ α) : Prop where
  files : ∀ k, s.files (P.path k) = (latest log k).map fun e => render e.document
  mtimes : ∀ k, s.mtimes (P.path k) = (latest log k).map (·.mtime)
  only : ∀ p, (s.files p).isSome = true → (∃ k, p = P.path k) ∨ ∃ k, p = P.temporary k
  saving : ∀ w ∈ s.saving, Stage P render log s w
  clock : ∀ e ∈ log, e.mtime ≤ s.clock
  /-- what was saved later is not older -/
  ordered : log.Pairwise (·.mtime ≤ ·.mtime)

variable {P render} {log : List (SavedDocument κ δ)} {s t : Shelf κ π δ α}

theorem latest_concat (e : SavedDocument κ δ) (k : κ) :
    latest (log ++ [e]) k = if e.key = k then some e else latest log k := by
  rw [latest, List.filter_append, List.filter_singleton]
  by_cases hkey : e.key = k
  · rw [decide_eq_true hkey, if_pos hkey]
    exact List.getLast?_concat
  · rw [decide_eq_false hkey, if_neg hkey]
    exact congrArg List.getLast? (List.append_nil _)

theorem mem_of_latest {k : κ} {e : SavedDocument κ δ} (h : latest log k = some e) :
    e ∈ log ∧ e.key = k := by
  have hmem := List.mem_filter.mp (List.mem_of_getLast? h)
  exact ⟨hmem.1, of_decide_eq_true hmem.2⟩

/-! ## One operation -/

variable {now : ℕ} {key : κ} {document : δ} {chunks : List (List α)}

omit [DecidableEq α] in
/-- An operation on a temporary file is none on the documents. -/
theorem Shelved.of_temporary (hs : Shelved P render log s) {op : FileStep π α}
    {saving : Option (Saving κ π δ α)}
    (hop : ∃ contents, op.apply s.files = s.files.insert (P.temporary key) contents)
    (htouch : op.touch now s.mtimes = s.mtimes.insert (P.temporary key) now)
    (hnow : s.clock ≤ now)
    (hsaving : ∀ w ∈ saving,
      Stage P render log ⟨op.apply s.files, op.touch now s.mtimes, saving, now⟩ w) :
    Shelved P render log ⟨op.apply s.files, op.touch now s.mtimes, saving, now⟩ := by
  obtain ⟨contents, hop⟩ := hop
  refine ⟨fun k => (congrFun hop _).trans ?_, fun k => (congrFun htouch _).trans ?_,
    fun p hp => ?_, hsaving, fun e he => ?_, hs.ordered⟩
  · rw [PartialMap.insert_of_ne _ _ (P.path_ne_temporary k key)]
    exact hs.files k
  · rw [PartialMap.insert_of_ne _ _ (P.path_ne_temporary k key)]
    exact hs.mtimes k
  · have hpath : (s.files.insert (P.temporary key) contents p).isSome = true := hop ▸ hp
    by_cases htemporary : p = P.temporary key
    · exact .inr ⟨key, htemporary⟩
    · rw [PartialMap.insert_of_ne _ _ htemporary] at hpath
      exact hs.only p hpath
  · exact Nat.le_trans (hs.clock e he) hnow

omit [DecidableEq α] in
/-- **The last operation** puts the whole document in the place of the one before. -/
theorem Shelved.of_replace (hs : Shelved P render log s) {mtime : ℕ} (hnow : s.clock ≤ now)
    (hfile : s.files (P.temporary key) = some (render document))
    (hmtime : s.mtimes (P.temporary key) = some mtime) (hclock : mtime ≤ s.clock)
    (hlater : ∀ e ∈ log, e.mtime ≤ mtime) :
    Shelved P render (log ++ [⟨key, document, mtime⟩])
      ⟨(FileStep.replace (P.temporary key) (P.path key)).apply s.files,
        (FileStep.replace (P.temporary key) (P.path key) : FileStep π α).touch now s.mtimes,
        none, now⟩ := by
  have hfiles : (FileStep.replace (P.temporary key) (P.path key)).apply s.files =
      (s.files.remove (P.temporary key)).insert (P.path key) (render document) := by
    simp only [FileStep.apply, hfile]
  have hmtimes : (FileStep.replace (P.temporary key) (P.path key) : FileStep π α).touch now
      s.mtimes = (s.mtimes.remove (P.temporary key)).insert (P.path key) mtime := by
    simp only [FileStep.touch, hmtime]
  refine ⟨fun k => (congrFun hfiles _).trans ?_, fun k => (congrFun hmtimes _).trans ?_,
    fun p hp => ?_, fun w hw => absurd hw (Option.some_ne_none w).symm, ?_, ?_⟩
  · rw [latest_concat]
    by_cases hkey : key = k
    · rw [if_pos hkey, ← hkey, PartialMap.insert_self]
      rfl
    · rw [if_neg hkey, PartialMap.insert_of_ne _ _ fun h => hkey (P.path_injective h).symm,
        PartialMap.remove_of_ne _ (P.path_ne_temporary k key)]
      exact hs.files k
  · rw [latest_concat]
    by_cases hkey : key = k
    · rw [if_pos hkey, ← hkey, PartialMap.insert_self]
      rfl
    · rw [if_neg hkey, PartialMap.insert_of_ne _ _ fun h => hkey (P.path_injective h).symm,
        PartialMap.remove_of_ne _ (P.path_ne_temporary k key)]
      exact hs.mtimes k
  · have hsome : ((s.files.remove (P.temporary key)).insert (P.path key) (render document)
        p).isSome = true := hfiles ▸ hp
    by_cases hpath : p = P.path key
    · exact .inl ⟨key, hpath⟩
    · rw [PartialMap.insert_of_ne _ _ hpath] at hsome
      by_cases htemporary : p = P.temporary key
      · exact .inr ⟨key, htemporary⟩
      · rw [PartialMap.remove_of_ne _ htemporary] at hsome
        exact hs.only p hsome
  · refine List.forall_mem_append.mpr ⟨fun e he => Nat.le_trans (hs.clock e he) hnow, ?_⟩
    exact List.forall_mem_singleton.mpr (Nat.le_trans hclock hnow)
  · refine List.pairwise_append.mpr ⟨hs.ordered, List.pairwise_singleton .., fun e he f hf => ?_⟩
    rw [List.mem_singleton.mp hf]
    exact hlater e he

omit [DecidableEq κ] in
/-- The three kinds of steps. -/
theorem step_cases {a : ShelfAction κ δ α} (h : step P render s a = some t) :
    (∃ key document chunks, a = .save key document chunks ∧ s.saving = none ∧
      chunks.flatten = render document ∧ t = { s with
        saving := some ⟨key, document, writeThrough (P.temporary key) (P.path key) chunks⟩ }) ∨
    (∃ now key document op todo, a = .write now ∧ s.saving = some ⟨key, document, op :: todo⟩ ∧
      s.clock ≤ now ∧ t = ⟨op.apply s.files, op.touch now s.mtimes,
        if todo.isEmpty then none else some ⟨key, document, todo⟩, now⟩) ∨
    (a = .abandon ∧ t = { s with saving := none }) := by
  cases a with
  | save key document chunks =>
    simp only [step, Option.ite_none_right_eq_some, Option.some.injEq] at h
    obtain ⟨⟨hnone, hchunks⟩, rfl⟩ := h
    exact .inl ⟨key, document, chunks, rfl, Option.isNone_iff_eq_none.mp hnone, hchunks, rfl⟩
  | write now =>
    simp only [step] at h
    split at h
    · rename_i key document op todo hsaving
      simp only [Option.ite_none_right_eq_some, Option.some.injEq] at h
      exact .inr (.inl ⟨now, key, document, op, todo, rfl, hsaving, h.1, h.2.symm⟩)
    · cases h
  | abandon =>
    simp only [step, Option.ite_none_right_eq_some, Option.some.injEq] at h
    exact .inr (.inr ⟨rfl, h.2.symm⟩)

omit [DecidableEq κ] [DecidableEq π] [DecidableEq α] in
theorem isEmpty_concat {β : Type u} (l : List β) (b : β) : (l ++ [b]).isEmpty = false := by
  cases l <;> rfl

omit [DecidableEq α] [DecidableEq κ] [DecidableEq π] in
/-- A save that goes on has saved nothing yet. -/
theorem completed_eq_none {op : FileStep π α} {todo : List (FileStep π α)}
    (hsaving : s.saving = some ⟨key, document, op :: todo⟩) (hmore : todo.isEmpty = false) :
    completed? P (s, .write now) = none := by
  cases todo with
  | nil => cases hmore
  | cons next todo => simp only [completed?, hsaving]

/-- **A step** keeps the files true to the log. -/
theorem Shelved.step {visited : List (Shelf κ π δ α × ShelfAction κ δ α)}
    {a : ShelfAction κ δ α} (hstep : Shelf.step P render s a = some t)
    (hs : Shelved P render (savedOf P visited) s) :
    Shelved P render (savedOf P (visited ++ [(s, a)])) t := by
  rw [savedOf, filterMap_concat]
  rcases step_cases hstep with ⟨key, document, chunks, rfl, -, hchunks, rfl⟩ |
      ⟨now, key, document, op, todo, rfl, hsaving, hnow, rfl⟩ | ⟨rfl, rfl⟩
  · have hopening : Stage P render (savedOf P visited) { s with
        saving := some ⟨key, document, writeThrough (P.temporary key) (P.path key) chunks⟩ }
        ⟨key, document, writeThrough (P.temporary key) (P.path key) chunks⟩ :=
      .opening chunks hchunks rfl
    simp only [completed?, Option.toList_none, List.append_nil]
    exact { hs with saving := fun w hw => Option.some.inj hw ▸ hopening }
  · have hstage := hs.saving _ hsaving
    cases hstage with
    | opening chunks hchunks htodo =>
      dsimp only at hchunks htodo
      obtain ⟨rfl, hrest⟩ := List.cons.inj htodo
      have hmore : todo.isEmpty = false := by
        rw [hrest]
        exact isEmpty_concat _ _
      rw [completed_eq_none hsaving hmore, Option.toList_none, List.append_nil, hmore]
      refine hs.of_temporary ⟨[], rfl⟩ rfl hnow fun w hw => ?_
      obtain rfl := Option.some.inj hw
      exact .writing [] chunks now hchunks (PartialMap.insert_self ..) (PartialMap.insert_self ..)
        (Nat.le_refl now) (fun e he => Nat.le_trans (hs.clock e he) hnow) hrest
    | writing done rest mtime hchunks hfile hmtime hclock hlater htodo =>
      dsimp only at hchunks hfile hmtime htodo
      rcases rest with _ | ⟨chunk, rest⟩
      · obtain ⟨rfl, rfl⟩ := List.cons.inj htodo
        have hsome : completed? P (s, .write now) = some ⟨key, document, mtime⟩ := by
          simp only [completed?, hsaving, hmtime, Option.getD_some]
        rw [hsome, Option.toList_some]
        rw [List.append_nil] at hchunks
        exact hs.of_replace hnow (hchunks ▸ hfile) hmtime hclock hlater
      · obtain ⟨rfl, hrest⟩ := List.cons.inj htodo
        have hmore : todo.isEmpty = false := by
          rw [hrest]
          exact isEmpty_concat _ _
        rw [completed_eq_none hsaving hmore, Option.toList_none, List.append_nil, hmore]
        refine hs.of_temporary ⟨_, rfl⟩ rfl hnow fun w hw => ?_
        obtain rfl := Option.some.inj hw
        exact .writing (done ++ [chunk]) rest now (by rwa [← List.append_cons])
          (FileStep.apply_append hfile chunk) (PartialMap.insert_self ..) (Nat.le_refl now)
          (fun e he => Nat.le_trans (hs.clock e he) hnow) hrest
  · simp only [completed?, Option.toList_none, List.append_nil]
    exact { hs with saving := fun w hw => nomatch hw }

omit [DecidableEq π] [DecidableEq α] in
theorem shelved_empty : Shelved P render [] ({} : Shelf κ π δ α) where
  files _ := rfl
  mtimes _ := rfl
  only _ h := nomatch h
  saving _ h := nomatch h
  clock _ h := nomatch h
  ordered := .nil

/-- **What the files have after a run** that starts with an empty shelf. -/
theorem shelved_of_run {actions : List (ShelfAction κ δ α)}
    (hrun : runFrom (Shelf.step P render) {} actions = some s) :
    Shelved P render (savedOf P (visits (Shelf.step P render) {} actions)) s :=
  @history_of_run _ _ (Shelf.step P render)
    (fun visited s => Shelved P render (savedOf P visited) s)
    (fun hstep h => h.step hstep) actions [] {} s hrun shelved_empty

end Shelf

end Shelf

end ConflictGraph
