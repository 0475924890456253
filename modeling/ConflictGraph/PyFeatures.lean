import ConflictGraph.PyEvidence

/-!
# The features of a pair go together

`pair_features` counts a dozen things in one loop over the resources that two tests share. On a
graph that was built the counts are not independent: what is created, bound or locked by both is
mutated by both, what is mutated by both is a shared write, and so on
(`consistent_pairFeatures`). The comparisons hold resource by resource (`SharedResource.Sound`);
the ratios are in bounds because each edge has a window (`AccessAggregate.Windowed`) and a shared
resource has at least two users.
-/

namespace ConflictGraph.Py

/-! ## Means -/

theorem meanOrZero_le {values : List ℚ} {bound : ℚ} (hbound : 0 ≤ bound)
    (h : ∀ x ∈ values, x ≤ bound) : meanOrZero values ≤ bound := by
  rw [meanOrZero]
  split
  · exact hbound
  · rename_i hne
    have hlength : (0 : ℚ) < values.length := Nat.cast_pos.mpr (List.length_pos_iff.mpr hne)
    rw [div_le_iff₀ hlength, mul_comm, ← nsmul_eq_mul]
    exact List.sum_le_card_nsmul values bound h

/-- The least of some values is at most their mean. -/
theorem min?_le_meanOrZero (values : List ℚ) : values.min?.getD 0 ≤ meanOrZero values := by
  rw [meanOrZero]
  split
  · rename_i hnil
    simp [hnil]
  · rename_i hne
    obtain ⟨least, hleast⟩ := Option.isSome_iff_exists.mp (List.isSome_min?_of_ne_nil hne)
    have hlength : (0 : ℚ) < values.length := Nat.cast_pos.mpr (List.length_pos_iff.mpr hne)
    rw [hleast, Option.getD_some, le_div_iff₀ hlength, mul_comm, ← nsmul_eq_mul]
    exact List.card_nsmul_le_sum values least fun x hx => (List.min?_eq_some_iff.mp hleast).2 x hx

theorem min?_nonneg {values : List ℚ} (h : ∀ x ∈ values, 0 ≤ x) : 0 ≤ values.min?.getD 0 := by
  cases hleast : values.min? with
  | none => exact le_rfl
  | some least => exact h least (List.min?_mem hleast)

/-! ## Windows -/

/-- The window of an edge is not turned round. -/
def AccessAggregate.Windowed (a : AccessAggregate) : Prop := a.firstNS ≤ a.lastNS

theorem earlier_le (first timestamp : ℤ) : earlier first timestamp ≤ timestamp := by
  rw [earlier]
  split
  · exact le_rfl
  · exact min_le_right ..

/-- Whatever was observed before, the event is in the window; that holds for the sentinel too. -/
theorem AccessAggregate.windowed_observe (a : AccessAggregate) (event : TraceEvent) :
    (a.observe event).Windowed :=
  (earlier_le a.firstNS event.timestampNS).trans (le_max_right ..)

namespace KeyedGraph

/-- Every edge has a window. -/
def Windowed (k : KeyedGraph) : Prop :=
  ∀ key edge, k.graph.edges key = some edge → edge.Windowed

theorem Windowed.apply {sha256 : Str → Str} {k : KeyedGraph} (h : k.Windowed) (call : GraphCall) :
    (k.apply sha256 call).Windowed := by
  cases call with
  | addTest test stats => exact h
  | addEvent event =>
    rw [KeyedGraph.apply]
    split
    · intro key edge hedge
      simp only [TestResourceGraph.record, PartialMap.insert_apply] at hedge
      split at hedge
      · obtain rfl := Option.some.inj hedge
        exact AccessAggregate.windowed_observe ..
      · exact h key edge hedge
    · exact h

theorem windowed_build (sha256 : Str → Str) (calls : List GraphCall) :
    (build sha256 calls).Windowed := by
  rw [build]
  have hrun : ∀ k : KeyedGraph, k.Windowed → (calls.foldl (KeyedGraph.apply sha256) k).Windowed := by
    induction calls with
    | nil => exact fun _ h => h
    | cons call rest ih => exact fun _ h => ih _ (h.apply call)
  refine hrun _ fun _ edge hedge => ?_
  cases hedge

end KeyedGraph

/-! ## One shared resource -/

/-- What `pair_features` finds of a resource that two tests share. -/
structure SharedResource.Sound (s : SharedResource) : Prop where
  observed_left : s.left.Observed
  observed_right : s.right.Observed
  windowed_left : s.left.Windowed
  windowed_right : s.right.Windowed
  two_le_users : 2 ≤ s.users

namespace SharedResource

variable {s : SharedResource} {operation : Operation}

/-- What both do with an operation that mutates, both mutate. -/
theorem Sound.mutating_of_both (h : s.Sound) (hmutating : ∀ mode, isMutating operation mode = true)
    (hboth : s.both operation = true) : (s.left.mutating && s.right.mutating) = true := by
  rw [both, Bool.and_eq_true, decide_eq_true_eq, decide_eq_true_eq] at hboth
  rw [h.observed_left.mutating hboth.1 hmutating, h.observed_right.mutating hboth.2 hmutating]
  rfl

/-- A deletion mutates, so it stands against a read only if a mutation does. -/
theorem Sound.againstRead_of_delete (h : s.Sound)
    (hdelete : s.againstRead (.delete ∈ s.left.operations) (.delete ∈ s.right.operations) = true) :
    s.againstRead s.left.mutating s.right.mutating = true := by
  simp only [againstRead, Bool.or_eq_true, Bool.and_eq_true, decide_eq_true_eq] at hdelete ⊢
  refine hdelete.imp (fun hleft => ⟨?_, hleft.2⟩) fun hright => ⟨?_, hright.2⟩
  · exact h.observed_left.mutating hleft.1 fun _ => rfl
  · exact h.observed_right.mutating hright.1 fun _ => rfl

/-- What stands against a read is there. -/
theorem or_of_againstRead {left right : Bool} (h : s.againstRead left right = true) :
    (left || right) = true := by
  simp only [againstRead, Bool.or_eq_true, Bool.and_eq_true] at h
  rw [Bool.or_eq_true]
  exact h.imp And.left And.left

theorem rarity_nonneg (s : SharedResource) : 0 ≤ s.rarity :=
  div_nonneg zero_le_one (Nat.cast_nonneg _)

/-- What two tests share is at most half rare. -/
theorem Sound.rarity_le (h : s.Sound) : s.rarity ≤ 1 / 2 := by
  have hmax : max 1 s.users = s.users := max_eq_right (one_le_two.trans h.two_le_users)
  have husers : (2 : ℚ) ≤ s.users := Nat.ofNat_le_cast.mpr h.two_le_users
  rw [rarity, hmax]
  exact one_div_le_one_div_of_le two_pos husers

/-- The part that both use is inside of the envelope. -/
theorem Sound.overlap_mem (h : s.Sound) : 0 ≤ s.overlap ∧ s.overlap ≤ 1 := by
  have hleft : s.left.firstNS ≤ s.left.lastNS := h.windowed_left
  have hright : s.right.firstNS ≤ s.right.lastNS := h.windowed_right
  have henvelope : 0 ≤ max s.left.lastNS s.right.lastNS - min s.left.firstNS s.right.firstNS := by
    omega
  have hpart : max 0 (min s.left.lastNS s.right.lastNS - max s.left.firstNS s.right.firstNS) ≤
      max s.left.lastNS s.right.lastNS - min s.left.firstNS s.right.firstNS := by
    omega
  rw [overlap]
  split
  · exact ⟨le_rfl, zero_le_one⟩
  · refine ⟨div_nonneg (Int.cast_nonneg (le_max_left ..)) (Int.cast_nonneg henvelope), ?_⟩
    exact div_le_one_of_le₀ (Int.cast_le.mpr hpart) (Int.cast_nonneg henvelope)

end SharedResource

namespace TestResourceGraph

variable {g : TestResourceGraph} {a b : Str}

/-- On a graph whose edges have windows, what two tests share is sound. -/
theorem Linked.sound_of_mem (h : g.Linked)
    (hwindowed : ∀ key edge, g.edges key = some edge → edge.Windowed) (hab : a ≠ b)
    {s : SharedResource} (hs : s ∈ g.sharedList a b) : s.Sound := by
  obtain ⟨id, hid, hshared⟩ := mem_sharedList.mp hs
  obtain ⟨hleft, hright, -, husers⟩ := shared_eq_ok.mp hshared
  obtain ⟨ha, hb⟩ := mem_sharedIDs.mp hid
  refine ⟨h.observed _ _ hleft, h.observed _ _ hright, hwindowed _ _ hleft, hwindowed _ _ hright, ?_⟩
  rw [← husers]
  refine Finset.one_lt_card.mpr ⟨a, (h.test_iff a id).mpr ha, b, (h.test_iff b id).mpr hb, hab⟩

theorem length_sharedList_le (g : TestResourceGraph) (a b : Str) :
    (g.sharedList a b).length ≤ (g.testResources a ∩ g.testResources b).card :=
  (List.length_filterMap_le ..).trans_eq (length_sortedIDs _)

end TestResourceGraph

/-! ## All of them -/

/-- The features of a pair go together. -/
structure PairFeatures.Consistent (f : PairFeatures) : Prop where
  createCreate_le : f.createCreate ≤ f.writeWrite
  sharedBind_le : f.sharedBind ≤ f.writeWrite
  sharedLocks_le : f.sharedLocks ≤ f.writeWrite
  sharedRedisWrites_le : f.sharedRedisWrites ≤ f.writeWrite
  writeWrite_le : f.writeWrite ≤ f.sharedWrites
  readWrite_le : f.readWrite ≤ f.sharedWrites
  sharedWrites_le : f.sharedWrites ≤ f.sharedResources
  deleteRead_le : f.deleteRead ≤ f.readWrite
  sharedFiles_le : f.sharedFiles ≤ f.sharedResources
  sharedUnixSockets_le : f.sharedUnixSockets ≤ f.sharedResources
  sharedDatabases_le : f.sharedDatabases ≤ f.sharedResources
  length_evidence : f.evidence.length = f.sharedResources
  resourceJaccard_nonneg : 0 ≤ f.resourceJaccard
  resourceJaccard_le_one : f.resourceJaccard ≤ 1
  temporalOverlap_nonneg : 0 ≤ f.temporalOverlap
  temporalOverlap_le_one : f.temporalOverlap ≤ 1
  minimumRarity_nonneg : 0 ≤ f.minimumRarity
  minimumRarity_le : f.minimumRarity ≤ f.meanRarity
  meanRarity_le : f.meanRarity ≤ 1 / 2

namespace TestResourceGraph

variable {g : TestResourceGraph} {a b : Str}

/-- **The features of a linked graph are consistent.** -/
theorem Linked.consistent (h : g.Linked)
    (hwindowed : ∀ key edge, g.edges key = some edge → edge.Windowed) (hab : a < b) :
    ∃ f, g.pairFeatures a b = .ok f ∧ f.Consistent := by
  have hsound : ∀ s ∈ g.sharedList a b, s.Sound := fun s hs => h.sound_of_mem hwindowed hab.ne hs
  have hcount : ∀ {p q : SharedResource → Bool}, (∀ s : SharedResource, s.Sound → p s = true →
      q s = true) → (g.sharedList a b).countP p ≤ (g.sharedList a b).countP q := fun hpq =>
    List.countP_mono_left fun s hs => hpq s (hsound s hs)
  have hrarity : ∀ x ∈ (g.sharedList a b).map SharedResource.rarity, 0 ≤ x ∧ x ≤ 1 / 2 := by
    intro x hx
    obtain ⟨s, hs, rfl⟩ := List.mem_map.mp hx
    exact ⟨s.rarity_nonneg, (hsound s hs).rarity_le⟩
  have hoverlap : ∀ x ∈ (g.sharedList a b).map SharedResource.overlap, 0 ≤ x ∧ x ≤ 1 := by
    intro x hx
    obtain ⟨s, hs, rfl⟩ := List.mem_map.mp hx
    exact (hsound s hs).overlap_mem
  have hjaccard : ((g.sharedList a b).length : ℚ) ≤ (g.testResources a ∪ g.testResources b).card := by
    have hinter := Finset.card_le_card
      (@Finset.inter_subset_union _ _ (g.testResources a) (g.testResources b))
    exact Nat.cast_le.mpr ((g.length_sharedList_le a b).trans hinter)
  refine ⟨_, by simp only [pairFeatures, if_pos hab.le, h.mapM_shared]; rfl, ?_⟩
  exact {
    createCreate_le := hcount fun s hs => hs.mutating_of_both fun _ => rfl
    sharedBind_le := hcount fun s hs => hs.mutating_of_both fun _ => rfl
    sharedLocks_le := hcount fun s hs => hs.mutating_of_both fun _ => rfl
    sharedRedisWrites_le := hcount fun s _ hredis => by
      rw [Bool.and_assoc, Bool.and_eq_true] at hredis
      exact hredis.2
    writeWrite_le := hcount fun s _ hboth => by
      rw [Bool.and_eq_true] at hboth
      rw [hboth.1, Bool.true_or]
    readWrite_le := hcount fun s _ hread => SharedResource.or_of_againstRead hread
    sharedWrites_le := List.countP_le_length
    deleteRead_le := hcount fun s hs => hs.againstRead_of_delete
    sharedFiles_le := List.countP_le_length
    sharedUnixSockets_le := List.countP_le_length
    sharedDatabases_le := List.countP_le_length
    length_evidence := List.length_map _
    resourceJaccard_nonneg := by
      simp only
      split
      · exact le_rfl
      · exact div_nonneg (Nat.cast_nonneg _) (Nat.cast_nonneg _)
    resourceJaccard_le_one := by
      simp only
      split
      · exact zero_le_one
      · exact div_le_one_of_le₀ hjaccard (Nat.cast_nonneg _)
    temporalOverlap_nonneg := PairFeatures.meanOrZero_nonneg fun x hx => (hoverlap x hx).1
    temporalOverlap_le_one := meanOrZero_le zero_le_one fun x hx => (hoverlap x hx).2
    minimumRarity_nonneg := min?_nonneg fun x hx => (hrarity x hx).1
    minimumRarity_le := min?_le_meanOrZero _
    meanRarity_le := meanOrZero_le (by norm_num) fun x hx => (hrarity x hx).2 }

end TestResourceGraph

/-- **The features of a pair go together**, whatever calls built the graph. -/
theorem consistent_pairFeatures (sha256 : Str → Str) (calls : List GraphCall) {a b : Str}
    (hab : a ≠ b) : ∃ f, (KeyedGraph.build sha256 calls).graph.pairFeatures a b = .ok f ∧
      f.Consistent := by
  have hlinked := (KeyedGraph.built_build sha256 calls).linked
  have hwindowed := KeyedGraph.windowed_build sha256 calls
  rcases lt_or_gt_of_ne hab with hlt | hgt
  · exact hlinked.consistent hwindowed hlt
  · rw [TestResourceGraph.pairFeatures_comm]
    exact hlinked.consistent hwindowed hgt

theorem consistent_pairFeatures_bothConnect :
    ∃ f, (KeyedGraph.build digestOfSocket bothConnect).graph.pairFeatures (str "b") (str "a") =
      .ok f ∧ f.Consistent :=
  consistent_pairFeatures digestOfSocket bothConnect (by decide)

end ConflictGraph.Py
