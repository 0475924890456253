import Mathlib.Data.List.DropRight
import Mathlib.Data.List.Lemmas
import ConflictGraph.RustEvent

/-!
# Texts of addresses

What `Display` writes of an IP address determines the address. A text is taken apart at its dots or
colons; of an IPv6 address the parts on both sides of the two colons are found again, and the zeroes
between them are as many as are missing to eight groups (`ipv6Text_injective`).
-/

namespace ConflictGraph.Rust

/-! ## Numerals -/

theorem exists_of_mem_toDigits {b : ℕ} (hb : 1 < b) {c : Char} (n : ℕ) (h : c ∈ Nat.toDigits b n) :
    ∃ d < b, c = Nat.digitChar d := by
  induction n using Nat.strong_induction_on with
  | _ n ih =>
    rw [Nat.toDigits_eq_if hb] at h
    split at h
    · rename_i hlt
      exact ⟨n, hlt, List.mem_singleton.mp h⟩
    · rename_i hge
      rcases List.mem_append.mp h with h | h
      · exact ih (n / b) (Nat.div_lt_self (by omega) hb) h
      · exact ⟨n % b, Nat.mod_lt n (by omega), List.mem_singleton.mp h⟩

/-- Below sixteen a digit tells the number. -/
theorem digitChar_inj {m n : ℕ} (hm : m < 16) (hn : n < 16) (h : Nat.digitChar m = Nat.digitChar n) :
    m = n := by
  have hall : ∀ m < 16, ∀ n < 16, Nat.digitChar m = Nat.digitChar n → m = n := by decide
  exact hall m hm n hn h

/-- A numeral to a base of at most sixteen determines its number. -/
theorem toDigits_injective {b : ℕ} (hb : 1 < b) (hb' : b ≤ 16) :
    Function.Injective (Nat.toDigits b) := by
  intro m
  induction m using Nat.strong_induction_on with
  | _ m ih =>
    intro n h
    rw [Nat.toDigits_eq_if (n := m) hb, Nat.toDigits_eq_if (n := n) hb] at h
    split_ifs at h with hm hn hn
    · exact digitChar_inj (by omega) (by omega) (List.singleton_inj.mp h)
    · have hlength := congrArg List.length h
      have hpos := @Nat.length_toDigits_pos b (n / b)
      simp at hlength
    · have hlength := congrArg List.length h
      simp at hlength
    · obtain ⟨hquot, hrem⟩ := List.append_inj' h rfl
      have hquot := ih (m / b) (Nat.div_lt_self (by omega) hb) hquot
      have hrem := digitChar_inj ((Nat.mod_lt m (by omega)).trans_le hb')
        ((Nat.mod_lt n (by omega)).trans_le hb') (List.singleton_inj.mp hrem)
      rw [← Nat.div_add_mod m b, ← Nat.div_add_mod n b, hquot, hrem]

/-- No numeral has a separator in it. -/
theorem not_mem_toDigits {b : ℕ} (hb : 1 < b) (hb' : b ≤ 16) {c : Char} (hc : c ∈ ['.', ':', '[', ']'])
    (n : ℕ) : c ∉ Nat.toDigits b n := fun hmem => by
  obtain ⟨d, hd, rfl⟩ := exists_of_mem_toDigits hb n hmem
  have hall : ∀ d < 16, Nat.digitChar d ∉ ['.', ':', '[', ']'] := by decide
  exact hall d (by omega) hc

/-! ## IPv4 -/

theorem toList_toString (n : ℕ) : (toString n).toList = Nat.toDigits 10 n := Nat.toList_repr

theorem toList_ipv4Text (a b c d : UInt8) : (ipv4Text a b c d).toList =
    Nat.toDigits 10 a.toNat ++ '.' :: (Nat.toDigits 10 b.toNat ++ '.' ::
      (Nat.toDigits 10 c.toNat ++ '.' :: Nat.toDigits 10 d.toNat)) := by
  simp only [ipv4Text, String.toList_append, toList_toString, List.append_assoc]
  rfl

/-- At its dots the text of an IPv4 address comes apart into the octets. -/
theorem splitOn_ipv4Text (a b c d : UInt8) : (ipv4Text a b c d).toList.splitOn '.' =
    [a, b, c, d].map fun octet => Nat.toDigits 10 octet.toNat := by
  have hdot : ∀ n, '.' ∉ Nat.toDigits 10 n := not_mem_toDigits (by decide) (by decide) (by decide)
  rw [toList_ipv4Text, List.splitOn_append_cons_self_of_not_mem (hdot _),
    List.splitOn_append_cons_self_of_not_mem (hdot _),
    List.splitOn_append_cons_self_of_not_mem (hdot _), List.splitOn_eq_singleton (hdot _)]
  rfl

/-- **An IPv4 address** is determined by its text. -/
theorem ipv4Text_injective {a b c d a' b' c' d' : UInt8}
    (h : ipv4Text a b c d = ipv4Text a' b' c' d') : [a, b, c, d] = [a', b', c', d'] := by
  have hparts := congrArg (fun text : String => text.toList.splitOn '.') h
  simp only [splitOn_ipv4Text] at hparts
  exact List.map_injective_iff.mpr (fun _ _ hdigits =>
    UInt8.toNat_inj.mp (toDigits_injective (by decide) (by decide) hdigits)) hparts

theorem mem_ipv4Text {a b c d : UInt8} {x : Char} (h : x ∈ (ipv4Text a b c d).toList) :
    x = '.' ∨ ∃ n, x ∈ Nat.toDigits 10 n := by
  rw [toList_ipv4Text] at h
  simp only [List.mem_append, List.mem_cons] at h
  rcases h with h | h | h | h | h | h | h
  · exact .inr ⟨_, h⟩
  · exact .inl h
  · exact .inr ⟨_, h⟩
  · exact .inl h
  · exact .inr ⟨_, h⟩
  · exact .inl h
  · exact .inr ⟨_, h⟩

theorem dot_mem_ipv4Text (a b c d : UInt8) : '.' ∈ (ipv4Text a b c d).toList := by
  rw [toList_ipv4Text]
  exact List.mem_append_right _ List.mem_cons_self

/-! ## Runs of zeroes -/

/-- The groups from `run.1` on, `run.2` of them, are zeroes. -/
def IsRun (groups : List ℕ) (run : ℕ × ℕ) : Prop :=
  run.1 + run.2 ≤ groups.length ∧ ∀ j < run.2, groups[run.1 + j]? = some 0

theorem IsRun.append {groups : List ℕ} {run : ℕ × ℕ} (h : IsRun groups run) (more : List ℕ) :
    IsRun (groups ++ more) run := by
  refine ⟨h.1.trans (by rw [List.length_append]; exact Nat.le_add_right ..), fun j hj => ?_⟩
  rw [List.getElem?_append_left (by have := h.1; omega)]
  exact h.2 j hj

theorem IsRun.ite {groups : List ℕ} {run run' : ℕ × ℕ} {p : Prop} [Decidable p]
    (h : IsRun groups run) (h' : IsRun groups run') : IsRun groups (if p then run else run') := by
  split
  · exact h
  · exact h'

/-- A zero makes the run that ends before it one longer, or begins a new one. -/
theorem IsRun.zero {groups : List ℕ} {current : ℕ × ℕ} (h : IsRun groups current)
    (hends : current.2 = 0 ∨ current.1 + current.2 = groups.length) :
    IsRun (groups ++ [0]) (if current.2 = 0 then groups.length else current.1, current.2 + 1) ∧
      (if current.2 = 0 then groups.length else current.1) + (current.2 + 1) =
        groups.length + 1 := by
  have hlength : (groups ++ [0]).length = groups.length + 1 := List.length_append
  split
  · rename_i hnone
    rw [hnone]
    refine ⟨⟨by rw [hlength], fun j hj => ?_⟩, rfl⟩
    obtain rfl : j = 0 := by omega
    simp
  · rename_i hsome
    have hend := hends.resolve_left hsome
    refine ⟨⟨by rw [hlength]; dsimp only; omega, fun j hj => ?_⟩, by omega⟩
    rcases Nat.lt_or_eq_of_le (Nat.le_of_lt_succ hj) with hlt | heq
    · exact (h.append [0]).2 j hlt
    · subst heq
      dsimp only
      rw [hend, List.getElem?_concat_length]

/-- What is found is a run, if what was found before is, and the current run ends here. -/
theorem isRun_longestZeroes (rest : List ℕ) : ∀ {groups : List ℕ} {current longest : ℕ × ℕ},
    IsRun groups current → (current.2 = 0 ∨ current.1 + current.2 = groups.length) →
      IsRun groups longest →
        IsRun (groups ++ rest) (longestZeroes groups.length current longest rest) := by
  induction rest with
  | nil =>
    intro groups current longest _ _ hlongest
    rwa [longestZeroes, List.append_nil]
  | cons segment rest ih =>
    intro groups current longest hcurrent hends hlongest
    have hsplit : groups ++ segment :: rest = (groups ++ [segment]) ++ rest := by simp
    have hlength : (groups ++ [segment]).length = groups.length + 1 := by simp
    rw [longestZeroes, hsplit, ← hlength]
    split
    · rename_i hzero
      obtain ⟨hrun, hend⟩ := hcurrent.zero hends
      rw [hzero] at hlength ⊢
      exact ih hrun (.inr (hend.trans hlength.symm)) (hrun.ite (hlongest.append _))
    · exact ih ⟨Nat.zero_le _, fun j hj => absurd hj (Nat.not_lt_zero j)⟩ (.inl rfl)
        (hlongest.append _)

/-- Groups are what is before a run, the zeroes, and what is after it. -/
theorem IsRun.eq_append {groups : List ℕ} {start length : ℕ} (h : IsRun groups (start, length)) :
    groups = groups.take start ++ (List.replicate length 0 ++ groups.drop (start + length)) := by
  have hzeroes : (groups.drop start).take length = List.replicate length 0 := by
    refine List.ext_getElem? fun j => ?_
    rcases Nat.lt_or_ge j length with hj | hj
    · rw [List.getElem?_take_of_lt hj, List.getElem?_drop, h.2 j hj,
        List.getElem?_replicate_of_lt hj]
    · rw [List.getElem?_eq_none (by simp; omega), List.getElem?_eq_none (by simpa using hj)]
  rw [← hzeroes, ← List.drop_drop, List.take_append_drop, List.take_append_drop]

/-! ## IPv6 -/

/-- The parts between the colons of a text of groups; a text without groups is one empty part. -/
def groupParts (groups : List ℕ) : List (List Char) :=
  if groups = [] then [[]] else groups.map (Nat.toDigits 16)

theorem mem_intercalate {α : Type} {sep x : α} {parts : List (List α)}
    (h : x ∈ List.intercalate [sep] parts) : x = sep ∨ ∃ part ∈ parts, x ∈ part := by
  induction parts with
  | nil => exact absurd h List.not_mem_nil
  | cons part rest ih =>
    rcases eq_or_ne rest [] with rfl | hne
    · rw [List.intercalate_singleton] at h
      exact .inr ⟨part, List.mem_cons_self, h⟩
    · rw [List.intercalate_cons_of_ne_nil hne, List.mem_append, List.mem_append,
        List.mem_singleton] at h
      rcases h with (h | h) | h
      · exact .inr ⟨part, List.mem_cons_self, h⟩
      · exact .inl h
      · exact (ih h).imp_right fun ⟨part', hpart', hx⟩ => ⟨part', List.mem_cons_of_mem _ hpart', hx⟩

theorem toList_groupsText (groups : List ℕ) : (groupsText groups).toList =
    List.intercalate [':'] (groups.map (Nat.toDigits 16)) := by
  rw [groupsText, String.toList_intercalate, List.map_map]
  exact congrArg _ (List.map_congr_left fun group _ => String.toList_ofList)

/-- A text of groups has no characters but colons and digits. -/
theorem not_mem_groupsText {x : Char} (hx : x ∈ ['.', '[', ']']) (groups : List ℕ) :
    x ∉ (groupsText groups).toList := fun hmem => by
  rw [toList_groupsText] at hmem
  rcases mem_intercalate hmem with rfl | ⟨part, hpart, hmem⟩
  · exact absurd hx (by decide)
  · obtain ⟨group, -, rfl⟩ := List.mem_map.mp hpart
    have hsubset : ['.', '[', ']'] ⊆ ['.', ':', '[', ']'] := by decide
    exact not_mem_toDigits (by decide) (by decide) (hsubset hx) group hmem

/-- At its colons a text of groups comes apart into the groups. -/
theorem splitOn_groupsText (groups : List ℕ) :
    (groupsText groups).toList.splitOn ':' = groupParts groups := by
  rw [toList_groupsText, groupParts]
  split
  · rename_i hnil
    rw [hnil]
    rfl
  · rename_i hne
    refine List.splitOn_intercalate ':' (List.forall_mem_map.mpr fun group _ => ?_)
      (fun hnil => hne (List.map_eq_nil_iff.mp hnil))
    exact not_mem_toDigits (by decide) (by decide) (by decide) group

theorem takeWhile_groupParts (groups : List ℕ) (rest : List (List Char)) :
    (groupParts groups ++ [] :: rest).takeWhile (· ≠ []) = groups.map (Nat.toDigits 16) := by
  rw [groupParts]
  split
  · rename_i hnil
    rw [hnil]
    rfl
  · rw [List.takeWhile_append_of_pos]
    · simp
    · intro part hpart
      obtain ⟨group, -, rfl⟩ := List.mem_map.mp hpart
      exact decide_eq_true Nat.toDigits_ne_nil

/-- Groups with two colons between them are found again. -/
theorem groupParts_inj {before after before' after' : List ℕ}
    (h : groupParts before ++ [] :: groupParts after =
      groupParts before' ++ [] :: groupParts after') : before = before' ∧ after = after' := by
  have hinj := List.map_injective_iff.mpr
    (toDigits_injective (b := 16) (by decide) (by decide))
  have hreverse : ∀ groups : List ℕ,
      (groupParts groups).reverse = groupParts groups.reverse := by
    intro groups
    rw [groupParts, groupParts]
    simp only [List.reverse_eq_nil_iff]
    split
    · rfl
    · rw [List.map_reverse]
  refine ⟨?_, ?_⟩
  · have htake := congrArg (List.takeWhile (· ≠ [])) h
    rw [takeWhile_groupParts, takeWhile_groupParts] at htake
    exact hinj htake
  · have hback := congrArg List.reverse h
    rw [List.reverse_append, List.reverse_append, List.reverse_cons, List.reverse_cons,
      List.append_assoc, List.append_assoc, hreverse, hreverse, hreverse, hreverse] at hback
    have htake := congrArg (List.takeWhile (· ≠ [])) hback
    rw [List.singleton_append, List.singleton_append, takeWhile_groupParts,
      takeWhile_groupParts] at htake
    exact List.reverse_injective (hinj htake)

theorem exists_two {octets : List UInt8} {n : ℕ} (h : octets.length = 2 * (n + 1)) :
    ∃ high low rest, octets = high :: low :: rest ∧ rest.length = 2 * n := by
  rcases octets with _ | ⟨high, _ | ⟨low, rest⟩⟩
  · simp at h
  · simp at h
    omega
  · exact ⟨high, low, rest, rfl, by simp at h; omega⟩

/-- Every two octets make a segment. -/
theorem length_segments : ∀ {n : ℕ} {octets : List UInt8}, octets.length = 2 * n →
    (segments octets).length = n := by
  intro n
  induction n with
  | zero =>
    intro octets h
    rw [List.eq_nil_of_length_eq_zero h]
    rfl
  | succ n ih =>
    intro octets h
    obtain ⟨high, low, rest, rfl, hrest⟩ := exists_two h
    rw [segments, List.length_cons, ih hrest]

/-- The segments tell the octets. -/
theorem segments_injective : ∀ {n : ℕ} {octets octets' : List UInt8}, octets.length = 2 * n →
    octets'.length = 2 * n → segments octets = segments octets' → octets = octets' := by
  intro n
  induction n with
  | zero =>
    intro octets octets' h h' _
    rw [List.eq_nil_of_length_eq_zero h, List.eq_nil_of_length_eq_zero h']
  | succ n ih =>
    intro octets octets' h h' heq
    obtain ⟨high, low, rest, rfl, hrest⟩ := exists_two h
    obtain ⟨high', low', rest', rfl, hrest'⟩ := exists_two h'
    rw [segments, segments] at heq
    obtain ⟨hgroup, hgroups⟩ := List.cons.inj heq
    have hlow := low.toNat_lt
    have hlow' := low'.toNat_lt
    obtain rfl : high = high' := UInt8.toNat_inj.mp (by omega)
    obtain rfl : low = low' := UInt8.toNat_inj.mp (by omega)
    rw [ih hrest hrest' hgroups]

/-- The text of an address that no IPv4 address is mapped to: groups, or groups around the zeroes
that two colons stand for. -/
theorem exists_ipv6Text {octets : List UInt8}
    (hmapped : octets.take 12 ≠ [0, 0, 0, 0, 0, 0, 0, 0, 0, 0, 255, 255]) :
    ipv6Text octets = groupsText (segments octets) ∨
      ∃ before zeroes after, segments octets = before ++ (List.replicate zeroes 0 ++ after) ∧
        ipv6Text octets = groupsText before ++ "::" ++ groupsText after := by
  have hempty : IsRun [] (0, 0) := ⟨Nat.le_refl 0, fun j hj => absurd hj (Nat.not_lt_zero j)⟩
  have hrun := isRun_longestZeroes (segments octets) hempty (.inl rfl) hempty
  rw [List.nil_append, List.length_nil] at hrun
  rw [ipv6Text, if_neg hmapped]
  generalize hfound : longestZeroes 0 (0, 0) (0, 0) (segments octets) = found at hrun
  obtain ⟨start, length⟩ := found
  simp only [hfound]
  split
  · exact .inr ⟨_, length, _, hrun.eq_append, rfl⟩
  · exact .inl rfl

/-- An address that is not mapped has no dot or bracket in its text. -/
theorem not_mem_ipv6Text_of_ne {x : Char} (hx : x ∈ ['.', '[', ']']) {octets : List UInt8}
    (hmapped : octets.take 12 ≠ [0, 0, 0, 0, 0, 0, 0, 0, 0, 0, 255, 255]) :
    x ∉ (ipv6Text octets).toList := by
  rcases exists_ipv6Text hmapped with htext | ⟨before, zeroes, after, -, htext⟩
  · rw [htext]
    exact not_mem_groupsText hx _
  · rw [htext, String.toList_append, String.toList_append, List.mem_append, List.mem_append, not_or,
      not_or]
    refine ⟨⟨not_mem_groupsText hx _, fun hmem => ?_⟩, not_mem_groupsText hx _⟩
    obtain rfl : x = ':' := by simpa using hmem
    exact absurd hx (by decide)

/-- The parts between the colons, around two of them. -/
theorem splitOn_compressed (before after : List ℕ) :
    (groupsText before ++ "::" ++ groupsText after).toList.splitOn ':' =
      groupParts before ++ [] :: groupParts after := by
  have htext : (groupsText before ++ "::" ++ groupsText after).toList =
      (groupsText before).toList ++ ':' :: ([] ++ ':' :: (groupsText after).toList) := by
    simp [String.toList_append]
  rw [htext, List.splitOn_append_cons_self, splitOn_groupsText, List.splitOn_append_cons_self,
    splitOn_groupsText, List.splitOn_nil]
  rfl

theorem nil_not_mem_groupParts {groups : List ℕ} (h : groups ≠ []) : [] ∉ groupParts groups := by
  rw [groupParts, if_neg h]
  intro hmem
  obtain ⟨group, -, hdigits⟩ := List.mem_map.mp hmem
  exact Nat.toDigits_ne_nil hdigits

/-- Sixteen octets are the first twelve and the last four. -/
theorem eq_getD {octets : List UInt8} (h : octets.length = 16) : octets =
    octets.take 12 ++ [octets.getD 12 0, octets.getD 13 0, octets.getD 14 0, octets.getD 15 0] := by
  have hdrop : octets.drop 12 =
      [octets.getD 12 0, octets.getD 13 0, octets.getD 14 0, octets.getD 15 0] := by
    rw [List.drop_eq_getElem_cons (by omega), List.drop_eq_getElem_cons (by omega),
      List.drop_eq_getElem_cons (by omega), List.drop_eq_getElem_cons (by omega),
      List.drop_eq_nil_of_le (by omega)]
    simp [h]
  rw [← hdrop, List.take_append_drop]

/-- **An IPv6 address** is determined by its text. -/
theorem ipv6Text_injective {octets octets' : List UInt8} (h : octets.length = 16)
    (h' : octets'.length = 16) (heq : ipv6Text octets = ipv6Text octets') : octets = octets' := by
  have hdot : ∀ {octets : List UInt8},
      octets.take 12 = [0, 0, 0, 0, 0, 0, 0, 0, 0, 0, 255, 255] → '.' ∈ (ipv6Text octets).toList := by
    intro octets hmapped
    rw [ipv6Text, if_pos hmapped, String.toList_append]
    exact List.mem_append_right _ (dot_mem_ipv4Text ..)
  by_cases hmapped : octets.take 12 = [0, 0, 0, 0, 0, 0, 0, 0, 0, 0, 255, 255]
  · by_cases hmapped' : octets'.take 12 = [0, 0, 0, 0, 0, 0, 0, 0, 0, 0, 255, 255]
    · rw [ipv6Text, if_pos hmapped, ipv6Text, if_pos hmapped', String.append_right_inj] at heq
      rw [eq_getD h, eq_getD h', hmapped, hmapped', ipv4Text_injective heq]
    · exact absurd (heq ▸ hdot hmapped) (not_mem_ipv6Text_of_ne (by decide) hmapped')
  · by_cases hmapped' : octets'.take 12 = [0, 0, 0, 0, 0, 0, 0, 0, 0, 0, 255, 255]
    · exact absurd (heq ▸ hdot hmapped') (not_mem_ipv6Text_of_ne (by decide) hmapped)
    · have hlength := length_segments (n := 8) h
      have hlength' := length_segments (n := 8) h'
      have hne : segments octets ≠ [] := List.ne_nil_of_length_pos (by omega)
      have hne' : segments octets' ≠ [] := List.ne_nil_of_length_pos (by omega)
      refine segments_injective (n := 8) h h' ?_
      have hparts := congrArg (fun text : String => text.toList.splitOn ':') heq
      rcases exists_ipv6Text hmapped with htext | ⟨before, zeroes, after, hgroups, htext⟩ <;>
        rcases exists_ipv6Text hmapped' with htext' | ⟨before', zeroes', after', hgroups', htext'⟩ <;>
          simp only [htext, htext', splitOn_groupsText, splitOn_compressed] at hparts
      · rw [groupParts, if_neg hne, groupParts, if_neg hne'] at hparts
        exact List.map_injective_iff.mpr (toDigits_injective (by decide) (by decide)) hparts
      · refine absurd ?_ (nil_not_mem_groupParts hne)
        rw [hparts]
        exact List.mem_append_right _ List.mem_cons_self
      · refine absurd ?_ (nil_not_mem_groupParts hne')
        rw [← hparts]
        exact List.mem_append_right _ List.mem_cons_self
      · -- as many zeroes are missing to eight groups
        obtain ⟨rfl, rfl⟩ := groupParts_inj hparts
        rw [hgroups, List.length_append, List.length_append, List.length_replicate] at hlength
        rw [hgroups', List.length_append, List.length_append, List.length_replicate] at hlength'
        obtain rfl : zeroes = zeroes' := by omega
        rw [hgroups, hgroups']

end ConflictGraph.Rust
