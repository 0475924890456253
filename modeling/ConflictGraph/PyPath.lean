import ConflictGraph.PyText

/-!
# Normal paths

The absolute paths that `posixpath.normpath` returns: a root of one slash or two, and components
between single slashes, none of which is empty, a dot or two dots (`IsNormal`). `normpath` and
the parts of `PurePosixPath` leave them alone. A path can only get shorter on its way there.
-/

namespace ConflictGraph.Py.Str

/-! ## Components -/

/-- A component that `normpath` keeps. -/
structure IsSegment (s : Str) : Prop where
  ne_nil : s ≠ []
  ne_dot : s ≠ str "."
  ne_dots : s ≠ str ".."
  slash : 47 ∉ s

/-- The room that components take, with the slash before each. -/
def span : List Str → ℕ
  | [] => 0
  | comp :: comps => comp.length + 1 + span comps

@[simp] theorem span_nil : span [] = 0 := rfl

@[simp] theorem span_cons (comp : Str) (comps : List Str) :
    span (comp :: comps) = comp.length + 1 + span comps := rfl

@[simp] theorem span_append (comps comps' : List Str) :
    span (comps ++ comps') = span comps + span comps' := by
  induction comps with
  | nil => exact (Nat.zero_add _).symm
  | cons comp comps ih =>
    rw [List.cons_append, span_cons, span_cons, ih]
    omega

@[simp] theorem span_reverse (comps : List Str) : span comps.reverse = span comps := by
  induction comps with
  | nil => rfl
  | cons comp comps ih =>
    rw [List.reverse_cons, span_append, ih, span_cons, span_cons, span_nil]
    omega

theorem span_sublist {comps comps' : List Str} (h : comps.Sublist comps') :
    span comps ≤ span comps' := by
  induction h with
  | slnil => exact Nat.le_refl _
  | cons comp _ ih => exact ih.trans (Nat.le_add_left ..)
  | cons_cons comp _ ih => exact Nat.add_le_add_left ih _

@[simp] theorem joinSlash_nil : joinSlash [] = [] := rfl

@[simp] theorem joinSlash_singleton (comp : Str) : joinSlash [comp] = comp :=
  List.intercalate_singleton

theorem joinSlash_cons {comp : Str} {comps : List Str} (h : comps ≠ []) :
    joinSlash (comp :: comps) = comp ++ 47 :: joinSlash comps := by
  rw [joinSlash, List.intercalate_cons_of_ne_nil h, List.append_assoc]
  rfl

/-- Joined by slashes, some segments take their span less one slash. -/
theorem length_joinSlash {comps : List Str} (h : comps ≠ []) :
    (joinSlash comps).length + 1 = span comps := by
  induction comps with
  | nil => exact absurd rfl h
  | cons comp rest ih =>
    rcases rest with _ | ⟨next, rest⟩
    · simp
    · have hrest := ih (List.cons_ne_nil next rest)
      rw [joinSlash_cons (List.cons_ne_nil next rest), List.length_append, List.length_cons,
        span_cons comp]
      omega

theorem length_joinSlash_le (comps : List Str) : (joinSlash comps).length ≤ span comps := by
  rcases eq_or_ne comps [] with rfl | hne
  · exact Nat.le_refl 0
  · exact (Nat.le_succ _).trans (length_joinSlash hne).le

theorem span_splitOn (s : Str) : span (s.splitOn 47) = s.length + 1 := by
  rw [← length_joinSlash (List.splitOn_ne_nil 47 s), joinSlash, List.intercalate_splitOn]

theorem mem_joinSlash {comps : List Str} {c : ℕ} (h : c ∈ joinSlash comps) :
    c = 47 ∨ ∃ comp ∈ comps, c ∈ comp := by
  induction comps with
  | nil => exact absurd h List.not_mem_nil
  | cons comp rest ih =>
    rcases eq_or_ne rest [] with rfl | hne
    · rw [joinSlash_singleton] at h
      exact .inr ⟨comp, List.mem_cons_self, h⟩
    · rw [joinSlash_cons hne, List.mem_append, List.mem_cons] at h
      rcases h with h | rfl | h
      · exact .inr ⟨comp, List.mem_cons_self, h⟩
      · exact .inl rfl
      · rcases ih h with rfl | ⟨comp', hmem, hc⟩
        · exact .inl rfl
        · exact .inr ⟨comp', List.mem_cons_of_mem _ hmem, hc⟩

/-- The components of a path have no slash, and the characters of the path. -/
theorem mem_splitOn (s : Str) : ∀ {comp}, comp ∈ s.splitOn 47 → 47 ∉ comp ∧ ∀ c ∈ comp, c ∈ s := by
  induction s with
  | nil =>
    intro comp h
    obtain rfl : comp = [] := by simpa using h
    exact ⟨List.not_mem_nil, fun c hc => absurd hc List.not_mem_nil⟩
  | cons c rest ih =>
    intro comp h
    have hrest : ∀ comp', comp' ∈ rest.splitOn 47 →
        47 ∉ comp' ∧ ∀ d ∈ comp', d ∈ c :: rest := fun comp' h' =>
      ⟨(ih h').1, fun d hd => List.mem_cons_of_mem _ ((ih h').2 d hd)⟩
    rw [List.splitOn_cons_eq_if_modifyHead] at h
    split at h
    · rcases List.mem_cons.mp h with rfl | h
      · exact ⟨List.not_mem_nil, fun c hc => absurd hc List.not_mem_nil⟩
      · exact hrest comp h
    · rename_i hne
      obtain ⟨first, others, heq⟩ := List.exists_cons_of_ne_nil (List.splitOn_ne_nil 47 rest)
      rw [heq, List.modifyHead_cons, List.mem_cons] at h
      rcases h with rfl | h
      · have hfirst := hrest first (heq ▸ List.mem_cons_self)
        refine ⟨fun hmem => ?_, List.forall_mem_cons.mpr ⟨List.mem_cons_self, hfirst.2⟩⟩
        rcases List.mem_cons.mp hmem with rfl | hmem
        · exact hne (beq_self_eq_true 47)
        · exact hfirst.1 hmem
      · exact hrest comp (heq ▸ List.mem_cons_of_mem _ h)

/-- Segments that are joined come apart again. -/
theorem splitOn_joinSlash {comps : List Str} (h : ∀ comp ∈ comps, IsSegment comp)
    (hne : comps ≠ []) : (joinSlash comps).splitOn 47 = comps :=
  List.splitOn_intercalate 47 (fun comp hcomp => (h comp hcomp).slash) hne

/-! ## Dots -/

@[simp] theorem resolveDots_nil (absolute : Bool) (kept : List Str) :
    resolveDots absolute kept [] = kept.reverse := rfl

@[simp] theorem resolveDots_empty (absolute : Bool) (kept comps : List Str) :
    resolveDots absolute kept ([] :: comps) = resolveDots absolute kept comps :=
  if_pos (.inl rfl)

/-- What a component does to those that are kept of an absolute path: nothing, or it is kept,
or it removes the last one. -/
theorem resolveDots_cons {kept : List Str} (hkept : ∀ comp ∈ kept, comp ≠ str "..") (comp : Str)
    (comps : List Str) :
    resolveDots true kept (comp :: comps) = resolveDots true kept comps ∨
      (comp ≠ [] ∧ comp ≠ str "." ∧ comp ≠ str ".." ∧
        resolveDots true kept (comp :: comps) = resolveDots true (comp :: kept) comps) ∨
      resolveDots true kept (comp :: comps) = resolveDots true kept.tail comps := by
  rw [resolveDots]
  split
  · exact .inl rfl
  · rename_i hskip
    rw [not_or] at hskip
    split
    · rename_i hkeep
      refine .inr (.inl ⟨hskip.1, hskip.2, ?_, rfl⟩)
      rcases hkeep with hne | ⟨h, -⟩ | hhead
      · exact hne
      · cases h
      · exact absurd rfl (hkept _ (List.mem_of_mem_head? hhead))
    · exact .inr (.inr rfl)

/-- Among segments there are no dots to resolve. -/
theorem resolveDots_segments {kept comps : List Str} (h : ∀ comp ∈ comps, IsSegment comp) :
    resolveDots true kept comps = kept.reverse ++ comps := by
  induction comps generalizing kept with
  | nil => rw [resolveDots_nil, List.append_nil]
  | cons comp rest ih =>
    rw [List.forall_mem_cons] at h
    have hkeep : resolveDots true kept (comp :: rest) = resolveDots true (comp :: kept) rest := by
      rw [resolveDots, if_neg (not_or.mpr ⟨h.1.ne_nil, h.1.ne_dot⟩), if_pos (.inl h.1.ne_dots)]
    rw [hkeep, ih h.2, List.reverse_cons, List.append_assoc]
    rfl

/-- What is left are components that are kept: of those before, or of the path. -/
theorem mem_resolveDots {comps : List Str} :
    ∀ {kept : List Str}, (∀ comp ∈ kept, IsSegment comp) → (∀ comp ∈ comps, 47 ∉ comp) →
      ∀ comp ∈ resolveDots true kept comps, IsSegment comp ∧ (comp ∈ kept ∨ comp ∈ comps) := by
  induction comps with
  | nil =>
    intro kept hkept _ comp hcomp
    rw [resolveDots_nil, List.mem_reverse] at hcomp
    exact ⟨hkept comp hcomp, .inl hcomp⟩
  | cons first rest ih =>
    intro kept hkept hcomps comp hcomp
    rw [List.forall_mem_cons] at hcomps
    rcases resolveDots_cons (fun c hc => (hkept c hc).ne_dots) first rest with heq | heq | heq
    · rw [heq] at hcomp
      obtain ⟨hseg, hmem⟩ := ih hkept hcomps.2 comp hcomp
      exact ⟨hseg, hmem.imp_right (List.mem_cons_of_mem _)⟩
    · obtain ⟨hne, hdot, hdots, heq⟩ := heq
      rw [heq] at hcomp
      obtain ⟨hseg, hmem⟩ := ih (List.forall_mem_cons.mpr
        ⟨⟨hne, hdot, hdots, hcomps.1⟩, hkept⟩) hcomps.2 comp hcomp
      refine ⟨hseg, ?_⟩
      rcases hmem with hmem | hmem
      · rcases List.mem_cons.mp hmem with rfl | hmem
        · exact .inr List.mem_cons_self
        · exact .inl hmem
      · exact .inr (List.mem_cons_of_mem _ hmem)
    · rw [heq] at hcomp
      obtain ⟨hseg, hmem⟩ := ih (fun c hc => hkept c (List.mem_of_mem_tail hc)) hcomps.2 comp hcomp
      exact ⟨hseg, hmem.imp List.mem_of_mem_tail (List.mem_cons_of_mem _)⟩

/-- Dots make a path shorter. -/
theorem span_resolveDots_le {comps : List Str} :
    ∀ {kept : List Str}, (∀ comp ∈ kept, comp ≠ str "..") →
      span (resolveDots true kept comps) ≤ span kept + span comps := by
  induction comps with
  | nil =>
    intro kept _
    rw [resolveDots_nil, span_reverse]
    exact Nat.le_add_right ..
  | cons first rest ih =>
    intro kept hkept
    rw [span_cons]
    rcases resolveDots_cons hkept first rest with heq | ⟨-, -, hdots, heq⟩ | heq <;> rw [heq]
    · exact (ih hkept).trans (by omega)
    · refine (ih (List.forall_mem_cons.mpr ⟨hdots, hkept⟩)).trans ?_
      rw [span_cons]
      omega
    · have htail := span_sublist (List.tail_sublist kept)
      exact (ih fun c hc => hkept c (List.mem_of_mem_tail hc)).trans (by omega)

/-- The first component stays, or what is left is as short as if it had not been there. -/
theorem resolveDots_first {first : Str} {comps : List Str} (hfirst : first ≠ str "..") :
    ∀ {kept : List Str}, (∀ comp ∈ kept, comp ≠ str "..") →
      (∃ rest, resolveDots true (kept ++ [first]) comps = first :: rest) ∨
        span (resolveDots true (kept ++ [first]) comps) ≤ span kept + span comps := by
  induction comps with
  | nil =>
    intro kept _
    exact .inl ⟨kept.reverse, by rw [resolveDots_nil, List.reverse_append]; rfl⟩
  | cons comp rest ih =>
    intro kept hkept
    have hall : ∀ c ∈ kept ++ [first], c ≠ str ".." :=
      List.forall_mem_append.mpr ⟨hkept, List.forall_mem_singleton.mpr hfirst⟩
    rw [span_cons]
    rcases resolveDots_cons hall comp rest with heq | ⟨-, -, hdots, heq⟩ | heq <;> rw [heq]
    · exact (ih hkept).imp_right fun h => h.trans (by omega)
    · refine (ih (List.forall_mem_cons.mpr ⟨hdots, hkept⟩)).imp_right fun h => h.trans ?_
      rw [span_cons]
      omega
    · rcases kept with _ | ⟨last, kept⟩
      · refine .inr ((span_resolveDots_le ?_).trans ?_)
        · exact fun c hc => absurd hc List.not_mem_nil
        · simp only [List.nil_append, List.tail_cons, span_nil]
          omega
      · refine (ih (List.forall_mem_cons.mp hkept).2).imp_right fun h => h.trans ?_
        rw [span_cons]
        omega

/-! ## Normal paths -/

/-- A root, and components that are kept: the parts of a normal absolute path. -/
structure IsNormal (root : Str) (comps : List Str) : Prop where
  root : root = str "/" ∨ root = str "//"
  segments : ∀ comp ∈ comps, IsSegment comp

/-- What is joined does not begin with a slash. -/
theorem head?_joinSlash {comps : List Str} (h : ∀ comp ∈ comps, IsSegment comp) :
    (joinSlash comps).head? ≠ some 47 := by
  intro hhead
  rcases comps with _ | ⟨first, rest⟩
  · cases hhead
  · rw [List.forall_mem_cons] at h
    have hfirst : (joinSlash (first :: rest)).head? = first.head? := by
      obtain ⟨c, tail, rfl⟩ := List.exists_cons_of_ne_nil h.1.ne_nil
      rcases eq_or_ne rest [] with rfl | hne
      · rw [joinSlash_singleton]
      · rw [joinSlash_cons hne]
        rfl
    rw [hfirst] at hhead
    exact h.1.slash (List.mem_of_mem_head? hhead)

/-- The root of a path of one slash, or of two and no third one. -/
theorem rootOf_append {root s : Str} (hroot : root = str "/" ∨ root = str "//")
    (hs : s.head? ≠ some 47) : rootOf (root ++ s) = root := by
  rcases s with _ | ⟨c, s⟩
  · rcases hroot with rfl | rfl <;> rfl
  · have hc : ¬ 47 = c := fun heq => hs (congrArg some heq.symm)
    rcases hroot with rfl | rfl <;> simp [rootOf, startsWith, str, hc]

/-- A path that starts with a slash starts with its root. -/
theorem exists_rootOf {path : Str} (h : path.head? = some 47) :
    (rootOf path = str "/" ∨ rootOf path = str "//") ∧ ∃ rest, path = rootOf path ++ rest := by
  obtain ⟨rest, rfl⟩ : ∃ rest, path = 47 :: rest := by
    rcases path with _ | ⟨c, rest⟩
    · cases h
    · exact ⟨rest, by rw [Option.some.inj h]⟩
  rw [rootOf]
  split
  · rename_i htwo
    rw [Bool.and_eq_true] at htwo
    obtain ⟨after, hafter⟩ := List.isPrefixOf_iff_prefix.mp htwo.1
    exact ⟨.inr rfl, after, hafter.symm⟩
  · rw [if_pos (by simp [startsWith, str])]
    exact ⟨.inl rfl, rest, rfl⟩

/-- The components of a path after its root. -/
theorem splitOn_rooted {root s : Str} (hroot : root = str "/" ∨ root = str "//") :
    (root ++ s).splitOn 47 = List.replicate root.length [] ++ s.splitOn 47 := by
  have hslash : ∀ t : Str, (47 :: t).splitOn 47 = [] :: t.splitOn 47 := fun t => by
    rw [List.splitOn_cons_eq_if_modifyHead, if_pos (beq_self_eq_true 47)]
  rcases hroot with rfl | rfl
  · exact hslash s
  · exact (hslash (47 :: s)).trans (congrArg _ (hslash s))

/-- Doubled slashes are nothing to `normpath`. -/
theorem resolveDots_replicate (absolute : Bool) (n : ℕ) (kept comps : List Str) :
    resolveDots absolute kept (List.replicate n [] ++ comps) = resolveDots absolute kept comps := by
  induction n with
  | zero => rfl
  | succ n ih => rw [List.replicate_succ, List.cons_append, resolveDots_empty, ih]

theorem root_ne_nil {root : Str} (h : root = str "/" ∨ root = str "//") : root ≠ [] := by
  rcases h with rfl | rfl <;> exact List.cons_ne_nil _ _

/-- `normpath` of a path after its root. -/
theorem normpath_rooted {path root rest : Str} (hroot : root = str "/" ∨ root = str "//")
    (hrootOf : rootOf path = root) (hpath : path = root ++ rest) :
    normpath path = root ++ joinSlash (resolveDots true [] (rest.splitOn 47)) := by
  have hne := root_ne_nil hroot
  have hpathne : path ≠ [] := hpath ▸ List.append_ne_nil_of_left_ne_nil hne rest
  rw [normpath, if_neg hpathne, hrootOf]
  simp only [hne, decide_true, ne_eq, not_false_eq_true]
  rw [if_neg (List.append_ne_nil_of_left_ne_nil hne _), hpath, splitOn_rooted hroot,
    resolveDots_replicate]

/-- **What `normpath` returns is normal**, made of components of the path, and not longer. -/
theorem exists_normal {path : Str} (h : path.head? = some 47) :
    ∃ comps, IsNormal (rootOf path) comps ∧ normpath path = rootOf path ++ joinSlash comps ∧
      (∀ comp ∈ comps, comp ∈ path.splitOn 47) ∧ (normpath path).length ≤ path.length := by
  obtain ⟨hroot, rest, hrest⟩ := exists_rootOf h
  have hnormpath := normpath_rooted hroot rfl hrest
  have hcomps : ∀ comp ∈ resolveDots true [] (rest.splitOn 47),
      IsSegment comp ∧ (comp ∈ [] ∨ comp ∈ rest.splitOn 47) :=
    mem_resolveDots (fun c hc => absurd hc List.not_mem_nil) fun comp hcomp =>
      (mem_splitOn rest hcomp).1
  refine ⟨_, ⟨hroot, fun comp hcomp => (hcomps comp hcomp).1⟩, hnormpath, fun comp hcomp => ?_, ?_⟩
  · rw [hrest, splitOn_rooted hroot]
    exact List.mem_append_right _
      ((hcomps comp hcomp).2.resolve_left List.not_mem_nil)
  · have hspan : span (resolveDots true [] (rest.splitOn 47)) ≤ rest.length + 1 := by
      refine (span_resolveDots_le fun c hc => absurd hc List.not_mem_nil).trans ?_
      rw [span_nil, span_splitOn, Nat.zero_add]
    have hlength : path.length = (rootOf path).length + rest.length := by
      rw [← List.length_append, ← hrest]
    rw [hnormpath, List.length_append, hlength]
    refine Nat.add_le_add_left ?_ _
    rcases eq_or_ne (resolveDots true [] (rest.splitOn 47)) [] with hnil | hne
    · rw [hnil]
      exact Nat.zero_le _
    · have := length_joinSlash hne
      omega

section Normal

variable {root : Str} {comps : List Str} (h : IsNormal root comps)
include h

/-- **Normal paths are fixed.** -/
theorem normpath_normal : normpath (root ++ joinSlash comps) = root ++ joinSlash comps := by
  rw [normpath_rooted h.root (rootOf_append h.root (head?_joinSlash h.segments)) rfl]
  rcases eq_or_ne comps [] with rfl | hne
  · rfl
  · rw [splitOn_joinSlash h.segments hne, resolveDots_segments h.segments]
    rfl

/-- The parts of a normal path are its root and its segments. -/
theorem pathParts_normal : pathParts (root ++ joinSlash comps) = root :: comps := by
  have hkept : ∀ comp ∈ comps, comp ≠ [] ∧ comp ≠ str "." :=
    fun comp hcomp => ⟨(h.segments comp hcomp).ne_nil, (h.segments comp hcomp).ne_dot⟩
  have hnone : ∀ n, (List.replicate n ([] : Str)).filter
      (fun comp => comp ≠ [] ∧ comp ≠ str ".") = [] := by
    intro n
    rw [List.filter_eq_nil_iff]
    intro comp hcomp
    simp [List.eq_of_mem_replicate hcomp]
  rw [pathParts, rootOf_append h.root (head?_joinSlash h.segments)]
  simp only [if_neg (root_ne_nil h.root)]
  rw [splitOn_rooted h.root, List.filter_append, hnone]
  rcases eq_or_ne comps [] with rfl | hne
  · simp
  · rw [splitOn_joinSlash h.segments hne, List.filter_eq_self.mpr fun comp hcomp =>
      decide_eq_true (hkept comp hcomp)]
    rfl

/-- Put together they are the path. -/
theorem joinParts_normal : joinParts (root :: comps) = root ++ joinSlash comps := by
  rw [joinParts, if_pos]
  rcases h.root with rfl | rfl <;> rfl

end Normal

/-- The parts of a path that starts with a component. -/
theorem pathParts_relative {first rest : Str} (hfirst : IsSegment first)
    (hrest : rest = [] ∨ rest.head? = some 47) :
    pathParts (first ++ rest) =
      first :: ((rest.splitOn 47).filter fun comp => comp ≠ [] ∧ comp ≠ str ".") := by
  obtain ⟨c, tail, rfl⟩ := List.exists_cons_of_ne_nil hfirst.ne_nil
  have hc : ¬ 47 = c := fun heq => hfirst.slash (heq ▸ List.mem_cons_self)
  have hroot : rootOf ((c :: tail) ++ rest) = [] := by simp [rootOf, startsWith, str, hc]
  have hkeep : ∀ comps : List Str, ((c :: tail) :: comps).filter
      (fun comp => comp ≠ [] ∧ comp ≠ str ".") =
        (c :: tail) :: comps.filter fun comp => comp ≠ [] ∧ comp ≠ str "." :=
    fun comps => List.filter_cons_of_pos (decide_eq_true ⟨hfirst.ne_nil, hfirst.ne_dot⟩)
  rw [pathParts, hroot]
  simp only [if_true, List.nil_append]
  rcases hrest with rfl | hrest
  · rw [List.append_nil, List.splitOn_eq_singleton hfirst.slash, hkeep]
    rfl
  · obtain ⟨rest, rfl⟩ : ∃ rest', rest = 47 :: rest' := by
      rcases rest with _ | ⟨d, rest⟩
      · cases hrest
      · exact ⟨rest, by rw [Option.some.inj hrest]⟩
    rw [List.splitOn_append_cons_self_of_not_mem hfirst.slash, hkeep,
      List.splitOn_cons_eq_if_modifyHead, if_pos (beq_self_eq_true 47)]
    rfl

theorem joinParts_relative {first : Str} {comps : List Str} (hfirst : IsSegment first) :
    joinParts (first :: comps) = joinSlash (first :: comps) := by
  rw [joinParts, if_neg]
  intro hstart
  obtain ⟨after, hafter⟩ := List.isPrefixOf_iff_prefix.mp hstart
  exact hfirst.slash (hafter ▸ List.mem_append_left _ List.mem_cons_self)

end ConflictGraph.Py.Str
