import ConflictGraph.PyPredictor

/-!
# Candidate generation is exact

`candidate_pairs` walks the inverted index of a graph and remembers what it yielded; the
pairs with a history come last. On a graph that was built, with any history, it yields every
pair that the recorded events or the history call for, no other, and none of them twice, in
either order (`candidatePairs_exact`).
-/

namespace ConflictGraph.Py

/-! ## Accesses -/

/-- A call records that a test accesses a resource. -/
def GraphCall.accesses (sha256 : Str → Str) (testID id : Str) : GraphCall → Bool
  | .addTest _ _ => false
  | .addEvent event =>
    Str.encodable event.resourceIdentifier && event.testID = testID &&
      (ResourceIdentity.of sha256 event.resourceType event.resourceIdentifier).id = id

/-- **What a built graph knows of accesses**: those that were recorded. -/
theorem KeyedGraph.mem_testResources_build (sha256 : Str → Str) (calls : List GraphCall)
    (testID id : Str) : id ∈ (build sha256 calls).graph.testResources testID ↔
      ∃ call ∈ calls, call.accesses sha256 testID id = true := by
  have hrun : ∀ k : KeyedGraph,
      id ∈ (calls.foldl (KeyedGraph.apply sha256) k).graph.testResources testID ↔
        (∃ call ∈ calls, call.accesses sha256 testID id = true) ∨
          id ∈ k.graph.testResources testID := by
    induction calls with
    | nil => simp
    | cons call rest ih =>
      intro k
      rw [List.foldl_cons, ih, List.exists_mem_cons_iff, or_comm (a := _ = true), or_assoc]
      refine or_congr_right ?_
      cases call with
      | addTest test stats => exact (or_iff_right Bool.false_ne_true).symm
      | addEvent event =>
        rw [KeyedGraph.apply, ResourceIdentity.create, GraphCall.accesses]
        by_cases hencodable : Str.encodable event.resourceIdentifier = true
        · rw [if_pos hencodable, hencodable]
          simp only [TestResourceGraph.mem_testResources_record, Bool.true_and, Bool.and_eq_true,
            decide_eq_true_eq]
          exact or_congr_left (and_congr eq_comm eq_comm)
        · rw [if_neg hencodable, Bool.eq_false_iff.mpr hencodable]
          exact (or_iff_right Bool.false_ne_true).symm
  rw [build, hrun empty]
  exact or_iff_left (Finset.notMem_empty _)

/-! ## Histories -/

/-- A `pair_history` whose keys are in the order of `stable_pair`. -/
structure StableHistory : Type where
  pairHistory : PartialMap (Str × Str) (ℤ × ℤ)
  /-- its keys, in the order in which they were added -/
  pairs : List (Str × Str)
  nodup : pairs.Nodup
  mem_pairs : ∀ pair, pair ∈ pairs ↔ (pairHistory pair).isSome = true
  stable : ∀ pair ∈ pairs, pair.1 ≤ pair.2

/-- Nothing ran before. -/
def StableHistory.empty : StableHistory where
  pairHistory := PartialMap.empty
  pairs := []
  nodup := List.nodup_nil
  mem_pairs _ := iff_of_false List.not_mem_nil Bool.false_ne_true
  stable := List.forall_mem_nil _

namespace KeyedGraph

/-- The graph with a history. -/
def withHistory (k : KeyedGraph) (history : StableHistory) : KeyedGraph where
  graph := { k.graph with pairHistory := history.pairHistory }
  resourceIDs := k.resourceIDs
  historyPairs := history.pairs

theorem Keyed.withHistory {k : KeyedGraph} (h : k.Keyed) (history : StableHistory) :
    (k.withHistory history).Keyed :=
  ⟨h.linked.of_eq rfl rfl rfl rfl, h.mem_resourceIDs⟩

end KeyedGraph

/-! ## Once each -/

/-- No pair comes twice, in whatever order. -/
def EachOnce (pairs : List (Str × Str)) : Prop := pairs.Pairwise fun p q => q ≠ p ∧ q ≠ p.swap

theorem nodup_emit {α : Type} [DecidableEq α] {emitted : List α} (h : emitted.Nodup) (pair : α) :
    (emit emitted pair).Nodup := by
  rw [emit]
  split
  · exact h
  · rename_i hnew
    rw [← List.concat_eq_append]
    exact h.concat hnew

theorem nodup_foldl_emit {α : Type} [DecidableEq α] {items : List α} :
    ∀ {emitted : List α}, emitted.Nodup → (items.foldl emit emitted).Nodup := by
  induction items with
  | nil => exact id
  | cons pair rest ih => exact fun h => ih (nodup_emit h pair)

theorem KeyedGraph.nodup_candidatePairs {k : KeyedGraph} (hhistory : k.historyPairs.Nodup)
    {includeReadonly : Bool} {pairs : List (Str × Str)}
    (h : k.candidatePairs includeReadonly = .ok pairs) : pairs.Nodup := by
  obtain ⟨found, -, hfound⟩ := bind_eq_ok_iff.mp h
  obtain rfl := Except.ok.inj hfound
  have hsorted : (k.historyPairs.insertionSort pairLE).Nodup :=
    (List.perm_insertionSort ..).nodup_iff.mpr hhistory
  refine List.Nodup.append (nodup_foldl_emit List.nodup_nil) (hsorted.filter _) ?_
  -- what comes at the end was not yielded before
  intro pair hemitted hrest
  exact of_decide_eq_true (List.mem_filter.mp hrest).2 hemitted

/-- Pairs in stable order come once each if none comes twice. -/
theorem eachOnce_of_nodup {pairs : List (Str × Str)} (hnodup : pairs.Nodup)
    (hstable : ∀ pair ∈ pairs, pair.1 ≤ pair.2) : EachOnce pairs := by
  refine List.Pairwise.imp_of_mem ?_ hnodup
  rintro p q hp hq hne
  refine ⟨hne.symm, fun hswap => hne ?_⟩
  have hle := hstable q hq
  rw [hswap] at hle
  have heq := le_antisymm (hstable p hp) hle
  rw [hswap]
  exact Prod.ext heq heq.symm

/-- With such a history all pairs come once, in stable order. -/
theorem KeyedGraph.Keyed.candidatePairs_stable {k : KeyedGraph} (h : k.Keyed)
    (history : StableHistory) {includeReadonly : Bool} {pairs : List (Str × Str)}
    (hpairs : (k.withHistory history).candidatePairs includeReadonly = .ok pairs) :
    pairs.Nodup ∧ ∀ pair ∈ pairs, pair.1 ≤ pair.2 := by
  obtain ⟨found, hfound, hmem⟩ := (h.withHistory history).candidatePairs_eq includeReadonly
  obtain rfl := Except.ok.inj (hpairs.symm.trans hfound)
  refine ⟨KeyedGraph.nodup_candidatePairs history.nodup hpairs, ?_⟩
  rintro ⟨a, b⟩ hpair
  rcases (hmem a b).mp hpair with ⟨hlt, -⟩ | hhistory
  · exact hlt.le
  · exact history.stable _ hhistory

/-! ## Exactly these -/

/-- What the recorded events say of two tests: there is a resource that both access, and, if the
read-only pairs are left out, that one of them mutates. -/
def Concurs (sha256 : Str → Str) (calls : List GraphCall) (includeReadonly : Bool) (a b : Str) :
    Prop :=
  ∃ id, (∃ call ∈ calls, call.accesses sha256 a id = true) ∧
    (∃ call ∈ calls, call.accesses sha256 b id = true) ∧
    (includeReadonly = false →
      ∃ call ∈ calls, call.mutates sha256 a id = true ∨ call.mutates sha256 b id = true)

/-- **Candidate generation is exact**: nothing twice, and all that the events or the history call
for. -/
theorem candidatePairs_exact (sha256 : Str → Str) (calls : List GraphCall) (history : StableHistory)
    (includeReadonly : Bool) :
    ∃ pairs, ((KeyedGraph.build sha256 calls).withHistory history).candidatePairs includeReadonly =
        .ok pairs ∧
      EachOnce pairs ∧
      ∀ a b, (a, b) ∈ pairs ↔
        (a, b) ∈ history.pairs ∨ (a < b ∧ Concurs sha256 calls includeReadonly a b) := by
  have hkeyed := (KeyedGraph.built_build sha256 calls).toKeyed.withHistory history
  obtain ⟨pairs, hpairs, hmem⟩ := hkeyed.candidatePairs_eq includeReadonly
  have hexact : ∀ a b, (a, b) ∈ pairs ↔
      (a, b) ∈ history.pairs ∨ (a < b ∧ Concurs sha256 calls includeReadonly a b) := by
    intro a b
    rw [hmem, or_comm]
    refine or_congr Iff.rfl (and_congr_right fun _ => exists_congr fun id => ?_)
    refine and_congr (KeyedGraph.mem_testResources_build ..) ?_
    refine and_congr (KeyedGraph.mem_testResources_build ..) ?_
    have ha := KeyedGraph.mutated_build sha256 calls a id
    have hb := KeyedGraph.mutated_build sha256 calls b id
    cases includeReadonly with
    | true => simp
    | false =>
      refine (or_iff_right Bool.false_ne_true).trans ((or_congr ha hb).trans ?_)
      simp only [and_or_left, exists_or, forall_const]
  obtain ⟨hnodup, hstable⟩ :=
    (KeyedGraph.built_build sha256 calls).toKeyed.candidatePairs_stable history hpairs
  exact ⟨pairs, hpairs, eachOnce_of_nodup hnodup hstable, hexact⟩

end ConflictGraph.Py
