import ConflictGraph.PyArtifactFile
import ConflictGraph.PyDatasetRows

/-!
# Indented JSON that is read back

`dump_json` and `ArtifactStore.save` write their documents with an indentation of two, so a line
break may follow a value where `json.dumps` without an indentation has none. A number goes on as
long as it can, and a line break ends it (`scanNumber_append`); everything else ends by itself.
So what is read of an indented text is the value it was written of (`scanOnce_encodeIndented`),
with the members of its objects in the order of their names (`load_artifactText`).
-/

namespace ConflictGraph.Py

open Str

/-! ## What stops a number -/

/-- What follows a value in an indented text. -/
def Stops (rest : Str) : Prop := ∀ c, rest.head? = some c → c = 44 ∨ c = 93 ∨ c = 125 ∨ c = 10

theorem stops_nil : Stops [] := by
  intro c hc
  cases hc

theorem stops_cons {c : ℕ} (h : c = 44 ∨ c = 93 ∨ c = 125 ∨ c = 10) (rest : Str) :
    Stops (c :: rest) := by
  intro d hd
  obtain rfl := Option.some.inj hd
  exact h

section Number

variable {rest : Str}

theorem Stops.head?_ne (h : Stops rest) {c : ℕ} (hc : c ≠ 44 ∧ c ≠ 93 ∧ c ≠ 125 ∧ c ≠ 10) :
    rest.head? ≠ some c := fun hhead => by
  rcases h c hhead with rfl | rfl | rfl | rfl <;> simp at hc

/-- A scanner of digits stops where the text before `rest` ends. -/
theorem Stops.digits (h : Stops rest) (s : Str) :
    (s ++ rest).takeWhile isAsciiDigit = s.takeWhile isAsciiDigit ∧
      (s ++ rest).dropWhile isAsciiDigit = s.dropWhile isAsciiDigit ++ rest := by
  induction s with
  | nil =>
    rcases rest with _ | ⟨c, rest⟩
    · exact ⟨rfl, rfl⟩
    · have hc : ¬ isAsciiDigit c = true := by
        rcases h c rfl with rfl | rfl | rfl | rfl <;> decide
      exact ⟨List.takeWhile_cons_of_neg hc, List.dropWhile_cons_of_neg hc⟩
  | cons c s ih =>
    rw [List.cons_append]
    by_cases hc : isAsciiDigit c = true
    · rw [List.takeWhile_cons_of_pos hc, List.takeWhile_cons_of_pos hc,
        List.dropWhile_cons_of_pos hc, List.dropWhile_cons_of_pos hc, ih.1]
      exact ⟨rfl, ih.2⟩
    · rw [List.takeWhile_cons_of_neg hc, List.takeWhile_cons_of_neg hc,
        List.dropWhile_cons_of_neg hc, List.dropWhile_cons_of_neg hc]
      exact ⟨rfl, rfl⟩

theorem Stops.head?_append_iff (h : Stops rest) {c : ℕ}
    (hc : c ≠ 44 ∧ c ≠ 93 ∧ c ≠ 125 ∧ c ≠ 10) (s : Str) :
    (s ++ rest).head? = some c ↔ s.head? = some c := by
  rcases s with _ | ⟨d, s⟩
  · exact iff_of_false (h.head?_ne hc) (Option.some_ne_none c).symm
  · exact Iff.rfl

theorem scanSign_append (h : Stops rest) (s : Str) :
    scanSign (s ++ rest) = ((scanSign s).1, (scanSign s).2 ++ rest) := by
  simp only [scanSign, h.head?_append_iff (c := 45) (by decide)]
  split
  · rename_i hhead
    obtain ⟨s, rfl⟩ := List.head?_eq_some_iff.mp hhead
    rfl
  · rfl

/-- What is after a number does not change how it is read. -/
theorem scanWhole_append (h : Stops rest) (s : Str) :
    scanWhole (s ++ rest) = ((scanWhole s).1, (scanWhole s).2 ++ rest) := by
  simp only [scanWhole, h.head?_append_iff (c := 48) (by decide), h.digits]
  split
  · rename_i hhead
    obtain ⟨s, rfl⟩ := List.head?_eq_some_iff.mp hhead
    rfl
  · rfl

theorem scanFraction_append (h : Stops rest) (s : Str) :
    scanFraction (s ++ rest) = ((scanFraction s).1, (scanFraction s).2 ++ rest) := by
  rcases s with _ | ⟨c, s⟩
  · have hhead : ¬ rest.head? = some 46 := h.head?_ne (by decide)
    simp [scanFraction, hhead]
  · have hpoint : scanFraction (c :: s) = if c = 46 ∧ s.takeWhile isAsciiDigit ≠ [] then
        (s.takeWhile isAsciiDigit, s.dropWhile isAsciiDigit) else ([], c :: s) := by
      simp only [scanFraction, List.head?_cons, Option.some.injEq, List.tail_cons]
    have hpoint' : scanFraction (c :: s ++ rest) = if c = 46 ∧ s.takeWhile isAsciiDigit ≠ [] then
        (s.takeWhile isAsciiDigit, s.dropWhile isAsciiDigit ++ rest)
        else ([], c :: (s ++ rest)) := by
      simp only [scanFraction, List.cons_append, List.head?_cons, Option.some.injEq,
        List.tail_cons, h.digits]
    rw [hpoint, hpoint']
    split <;> rfl

theorem scanExponent_append (h : Stops rest) (s : Str) :
    scanExponent (s ++ rest) = ((scanExponent s).1, (scanExponent s).2 ++ rest) := by
  rcases s with _ | ⟨c, s⟩
  · have hlower : ¬ rest.head? = some 101 := h.head?_ne (by decide)
    have hupper : ¬ rest.head? = some 69 := h.head?_ne (by decide)
    simp [scanExponent, hlower, hupper]
  · have hplus := h.head?_append_iff (c := 43) (by decide) s
    by_cases hhead : s.head? = some 43
    · obtain ⟨s, rfl⟩ := List.head?_eq_some_iff.mp hhead
      simp only [scanExponent, List.cons_append, List.head?_cons, List.tail_cons, if_true, h.digits]
      split <;> rfl
    · simp only [scanExponent, List.cons_append, List.head?_cons, List.tail_cons, hplus, hhead,
        if_false, scanSign_append h, h.digits]
      split <;> rfl

/-- **A number** ends where what stops it begins. -/
theorem scanNumber_append (h : Stops rest) {s : Str} {value : Json}
    (hs : scanNumber s = .ok (value, [])) : scanNumber (s ++ rest) = .ok (value, rest) := by
  have hsame : scanNumber (s ++ rest) =
      (scanNumber s).map fun found => (found.1, found.2 ++ rest) := by
    simp only [scanNumber, scanSign_append h, scanWhole_append h, scanFraction_append h,
      scanExponent_append h]
    split
    · rfl
    · rcases numberOf _ _ _ _ with e | value
      · rfl
      · rfl
  rw [hsame, hs]
  rfl

end Number

/-! ## Containers -/

/-- A line break and its blanks are skipped. -/
theorem skipSpace_lineBreak (level : ℕ) (text : Str) :
    skipSpace (lineBreak level ++ text) = skipSpace text := by
  refine List.dropWhile_append_of_pos fun c hc => ?_
  rcases List.mem_cons.mp hc with rfl | hc
  · rfl
  · rw [List.eq_of_mem_replicate hc]
    rfl

/-- What comes after an element, when these are still to come. -/
def afterElement (level : ℕ) (texts : List Str) : Str :=
  if texts = [] then lineBreak level else 44 :: onLines level texts

/-- The first element is on a line of its own. -/
theorem onLines_cons (level : ℕ) (text : Str) (texts : List Str) :
    onLines level (text :: texts) =
      lineBreak (level + 1) ++ (text ++ afterElement level texts) := by
  rcases texts with _ | ⟨other, texts⟩ <;> simp [onLines, afterElement]

theorem skipSpace_close {close : ℕ} (hclose : close = 93 ∨ close = 125) (rest : Str) :
    skipSpace (close :: rest) = close :: rest := by
  rcases hclose with rfl | rfl <;> rfl

section Containers

variable {α : Type} {element : Str → Except ExceptionType (α × Str)} {close : ℕ}

/-- The element is what the scanner reads of its text, also before a line break. -/
structure ReadsOn (element : Str → Except ExceptionType (α × Str)) (found : α × Str) : Prop where
  begins : Begins found.2
  reads : ∀ rest, Stops rest → element (found.2 ++ rest) = .ok (found.1, rest)

/-- The scanner comes to the first element, and what follows it stops a number. -/
theorem skipSpace_onLines {p : α × Str} (h : ReadsOn element p) (level : ℕ) (texts : List Str)
    (rest : Str) :
    skipSpace (onLines level (p.2 :: texts) ++ rest) = p.2 ++ (afterElement level texts ++ rest) ∧
      Stops (afterElement level texts ++ rest) := by
  refine ⟨?_, ?_⟩
  · rw [onLines_cons, List.append_assoc, skipSpace_lineBreak, List.append_assoc,
      skipSpace_begins h.begins]
  · rw [afterElement]
    split
    · exact stops_cons (.inr (.inr (.inr rfl))) _
    · exact stops_cons (.inl rfl) _

/-- Elements on lines of their own are read one by one. -/
theorem scanElements_onLines (helement : Consumes element) (hclose : close = 93 ∨ close = 125)
    (level : ℕ) (rest : Str) :
    ∀ {found : List (α × Str)}, found ≠ [] → (∀ p ∈ found, ReadsOn element p) →
      scanElements element close
          ((skipSpace (onLines level (found.map Prod.snd) ++ close :: rest)).length + 1)
          (skipSpace (onLines level (found.map Prod.snd) ++ close :: rest)) =
        .ok (found.map Prod.fst, rest) := by
  intro found
  induction found with
  | nil => exact fun hne => absurd rfl hne
  | cons p others ih =>
    intro _ hall
    rw [List.forall_mem_cons] at hall
    obtain ⟨hskip, hstops⟩ :=
      skipSpace_onLines hall.1 level (others.map Prod.snd) (close :: rest)
    have hread := hall.1.reads _ hstops
    rw [List.map_cons, hskip]
    rcases eq_or_ne others [] with rfl | hne
    · have hafter : skipSpace (afterElement level [] ++ close :: rest) = close :: rest :=
        (skipSpace_lineBreak level _).trans (skipSpace_close hclose rest)
      rw [scanElements, hread]
      simp only [List.map_nil, hafter, if_true]
      rfl
    · have hcomma : ¬ 44 = close := by
        rcases hclose with rfl | rfl <;> decide
      have hafter : afterElement level (others.map Prod.snd) ++ close :: rest =
          44 :: (onLines level (others.map Prod.snd) ++ close :: rest) := by
        rw [afterElement, if_neg (by simpa using hne)]
        rfl
      rw [hafter] at hread ⊢
      rw [scanElements_comma helement hread hcomma, ih hne hall.2]
      rfl

/-- **A container on lines of its own is read back** if its elements are. -/
theorem scanContainer_onLines (helement : Consumes element) (hclose : close = 93 ∨ close = 125)
    (level : ℕ) (rest : Str) {found : List (α × Str)} (hall : ∀ p ∈ found, ReadsOn element p) :
    scanContainer element close
        (skipSpace (onLines level (found.map Prod.snd) ++ close :: rest)) =
      .ok (found.map Prod.fst, rest) := by
  rcases found with _ | ⟨p, others⟩
  · change scanContainer element close (skipSpace (close :: rest)) = _
    rw [skipSpace_close hclose]
    exact if_pos rfl
  · obtain ⟨hskip, -⟩ := skipSpace_onLines (hall p List.mem_cons_self) level
      (others.map Prod.snd) (close :: rest)
    rw [← List.map_cons] at hskip
    obtain ⟨c, tail, htail, -, -, -, -, hbracket, hbrace⟩ := (hall p List.mem_cons_self).begins
    have hhead : ¬ (skipSpace (onLines level ((p :: others).map Prod.snd) ++ close :: rest)).head? =
        some close := by
      rw [hskip, htail]
      intro heq
      obtain rfl : c = close := Option.some.inj heq
      exact hclose.elim hbracket hbrace
    rw [scanContainer, if_neg hhead]
    exact scanElements_onLines helement hclose level rest (List.cons_ne_nil _ _) hall

end Containers

/-! ## Values -/

section Values

variable {interpreter : Interpreter}

/-- The elements of an array with their texts. -/
theorem exists_indentedItems {level : ℕ} {items : List Json} :
    ∀ {texts}, encodeIndentedItems interpreter level items = some texts →
      ∃ found : List (Json × Str), found.map Prod.fst = items ∧ found.map Prod.snd = texts ∧
        ∀ p ∈ found, encodeIndented interpreter (level + 1) p.1 = some p.2 := by
  induction items with
  | nil =>
    intro texts h
    exact ⟨[], rfl, Option.some.inj h, fun p hp => absurd hp List.not_mem_nil⟩
  | cons item rest ih =>
    intro texts h
    obtain ⟨text, htext, h⟩ := Option.bind_eq_some_iff.mp h
    obtain ⟨texts', htexts, rfl⟩ := Option.map_eq_some_iff.mp h
    obtain ⟨found, hfst, hsnd, hall⟩ := ih htexts
    exact ⟨(item, text) :: found, by rw [List.map_cons, hfst], by rw [List.map_cons, hsnd],
      List.forall_mem_cons.mpr ⟨htext, hall⟩⟩

/-- The members of an object with their texts. -/
theorem exists_indentedMembers {level : ℕ} {members : List (Str × Json)} :
    ∀ {texts}, encodeIndentedMembers interpreter level members = some texts →
      ∃ found : List ((Str × Json) × Str), found.map Prod.fst = members ∧
        found.map Prod.snd = texts ∧ ∀ p ∈ found, ∃ text,
          encodeIndented interpreter (level + 1) p.1.2 = some text ∧
            p.2 = encodeString p.1.1 ++ 58 :: 32 :: text := by
  induction members with
  | nil =>
    intro texts h
    exact ⟨[], rfl, Option.some.inj h, fun p hp => absurd hp List.not_mem_nil⟩
  | cons member rest ih =>
    intro texts h
    obtain ⟨text, htext, h⟩ := Option.bind_eq_some_iff.mp h
    obtain ⟨texts', htexts, rfl⟩ := Option.map_eq_some_iff.mp h
    obtain ⟨found, hfst, hsnd, hall⟩ := ih htexts
    exact ⟨(member, _) :: found, by rw [List.map_cons, hfst], by rw [List.map_cons, hsnd],
      List.forall_mem_cons.mpr ⟨⟨text, htext, rfl⟩, hall⟩⟩

/-- A member is read back if its value is. -/
theorem readsOn_member {scan : Str → Except ExceptionType (Json × Str)} {key : Str} {value : Json}
    {text : Str} (hkey : Unpaired key) (h : ReadsOn scan (value, text)) :
    ReadsOn (scanMember scan) ((key, value), encodeString key ++ 58 :: 32 :: text) := by
  refine ⟨begins_cons (by decide), fun rest hrest => ?_⟩
  have hvalue : skipSpace (32 :: (text ++ rest)) = text ++ rest := skipSpace_begins h.begins rest
  change scanMember scan (encodeString key ++ 58 :: 32 :: text ++ rest) = _
  rw [List.append_assoc]
  change scanMember scan (encodeString key ++ 58 :: 32 :: (text ++ rest)) = _
  rw [scanMember_encodeString scan hkey, hvalue, h.reads rest hrest]
  rfl

/-- A value is a container, or its text is the one without an indentation. -/
theorem encodeIndented_cases (level : ℕ) (value : Json) :
    (∃ items, value = .array items) ∨ (∃ members, value = .object members) ∨
      encodeIndented interpreter level value = encode interpreter value := by
  cases value with
  | array items => exact .inl ⟨items, rfl⟩
  | object members => exact .inr (.inl ⟨members, rfl⟩)
  | null => exact .inr (.inr rfl)
  | bool b => exact .inr (.inr rfl)
  | int n => exact .inr (.inr rfl)
  | float value => exact .inr (.inr rfl)
  | string s => exact .inr (.inr rfl)

/-- The text of a value does not begin with white space or a bracket that closes. -/
theorem begins_encodeIndented {depth level : ℕ} {value : Json}
    (h : Carried interpreter depth value) {text : Str}
    (htext : encodeIndented interpreter level value = some text) : Begins text := by
  rcases @encodeIndented_cases interpreter level value with ⟨items, rfl⟩ | ⟨members, rfl⟩ | hsame
  · obtain ⟨texts, -, rfl⟩ := Option.map_eq_some_iff.mp htext
    exact begins_cons (by decide)
  · obtain ⟨texts, -, rfl⟩ := Option.map_eq_some_iff.mp htext
    exact begins_cons (by decide)
  · exact begins_encode h (hsame ▸ htext)

/-- A number that takes its whole text is read where something stops it. -/
theorem scanOnce_wholeNumber (depth : ℕ) {text rest : Str} {value : Json}
    (hstarts : StartsNumber text) (hread : scanNumber text = .ok (value, [])) (hrest : Stops rest) :
    scanOnce depth (text ++ rest) = .ok (value, rest) := by
  rw [scanOnce_number depth hstarts, scanNumber_append hrest hread]

/-- **A value is read back** from its indented text, up to what follows it. -/
theorem scanOnce_encodeIndented {depth : ℕ} {value : Json} (h : Carried interpreter depth value) :
    ∀ {level : ℕ} {text : Str}, encodeIndented interpreter level value = some text →
      ∀ rest, Stops rest → scanOnce depth (text ++ rest) = .ok (value, rest) := by
  induction h with
  | @null depth =>
    intro level text htext rest _
    obtain rfl := Option.some.inj htext
    exact scanOnce_constant depth rest ("null", .null) (by simp [constants])
  | @bool depth b =>
    intro level text htext rest _
    cases b <;> obtain rfl := Option.some.inj htext
    · exact scanOnce_constant depth rest ("false", .bool false) (by simp [constants])
    · exact scanOnce_constant depth rest ("true", .bool true) (by simp [constants])
  | @int depth n =>
    intro level text htext rest hrest
    have hread := scanNumber_encodeInt htext ends_nil
    rw [List.append_nil] at hread
    exact scanOnce_wholeNumber depth (startsNumber_encodeInt htext) hread hrest
  | @nan depth =>
    intro level text htext rest _
    obtain rfl := Option.some.inj htext
    exact scanOnce_constant depth rest ("NaN", .float .nan) (by simp [constants])
  | @inf depth negative =>
    intro level text htext rest _
    cases negative <;> obtain rfl := Option.some.inj htext
    · exact scanOnce_constant depth rest ("Infinity", .float (.inf false)) (by simp [constants])
    · exact scanOnce_constant depth rest ("-Infinity", .float (.inf true)) (by simp [constants])
  | @finite depth value h =>
    intro level text htext rest hrest
    have hread := (h text htext).reads [] ends_nil
    rw [List.append_nil] at hread
    exact scanOnce_wholeNumber depth (h text htext).starts hread hrest
  | @string depth s h =>
    intro level text htext rest _
    obtain rfl := Option.some.inj htext
    exact scanOnce_encodeString depth h rest
  | @array depth items h ih =>
    intro level text htext rest _
    obtain ⟨texts, htexts, rfl⟩ := Option.map_eq_some_iff.mp htext
    obtain ⟨found, rfl, rfl, hall⟩ := exists_indentedItems htexts
    have hread : ∀ p ∈ found, ReadsOn (scanOnce depth) p := fun p hp =>
      ⟨begins_encodeIndented (h p.1 (List.mem_map_of_mem hp)) (hall p hp),
        ih p.1 (List.mem_map_of_mem hp) (hall p hp)⟩
    have hscan := scanContainer_onLines (consumes_scanOnce depth) (.inl rfl) level rest hread
    have htext : 91 :: (onLines level (found.map Prod.snd) ++ [93]) ++ rest =
        91 :: (onLines level (found.map Prod.snd) ++ 93 :: rest) := by simp
    rw [htext, scanOnce_bracket, hscan]
    rfl
  | @object depth members hkeys h ih =>
    intro level text htext rest _
    obtain ⟨texts, htexts, rfl⟩ := Option.map_eq_some_iff.mp htext
    obtain ⟨found, rfl, rfl, hall⟩ := exists_indentedMembers htexts
    have hread : ∀ p ∈ found, ReadsOn (scanMember (scanOnce depth)) p := by
      rintro ⟨⟨key, value⟩, text⟩ hp
      obtain ⟨text', htext', htext⟩ := hall _ hp
      have hmem : (key, value) ∈ found.map Prod.fst := List.mem_map_of_mem hp
      obtain rfl : text = encodeString key ++ 58 :: 32 :: text' := htext
      exact readsOn_member (hkeys _ hmem)
        ⟨begins_encodeIndented (h _ hmem) htext', ih _ hmem htext'⟩
    have hscan := scanContainer_onLines (consumes_scanMember (consumes_scanOnce depth))
      (.inr rfl) level rest hread
    have htext : 123 :: (onLines level (found.map Prod.snd) ++ [125]) ++ rest =
        123 :: (onLines level (found.map Prod.snd) ++ 125 :: rest) := by simp
    rw [htext, scanOnce_brace, hscan]
    rfl

end Values

/-! ## Sorting -/

theorem keyLE_total (s t : Str) : keyLE s t = true ∨ keyLE t s = true := by
  induction s generalizing t with
  | nil => exact .inl rfl
  | cons c s ih =>
    cases t with
    | nil => exact .inr rfl
    | cons d t =>
      simp only [keyLE, Bool.or_eq_true, Bool.and_eq_true, decide_eq_true_eq]
      rcases Nat.lt_trichotomy c d with hlt | rfl | hgt
      · exact .inl (.inl hlt)
      · exact (ih t).imp (fun h => .inr ⟨rfl, h⟩) fun h => .inr ⟨rfl, h⟩
      · exact .inr (.inl hgt)

theorem keyLE_trans {s t u : Str} (h : keyLE s t = true) (h' : keyLE t u = true) :
    keyLE s u = true := by
  induction s generalizing t u with
  | nil => rfl
  | cons c s ih =>
    cases t with
    | nil => cases h
    | cons d t =>
      cases u with
      | nil => cases h'
      | cons e u =>
        simp only [keyLE, Bool.or_eq_true, Bool.and_eq_true, decide_eq_true_eq] at h h' ⊢
        rcases h with hlt | ⟨rfl, h⟩
        · rcases h' with hlt' | ⟨rfl, -⟩
          · exact .inl (hlt.trans hlt')
          · exact .inl hlt
        · rcases h' with hlt' | ⟨rfl, h'⟩
          · exact .inl hlt'
          · exact .inr ⟨rfl, ih h h'⟩

/-- Where no key comes twice, the last member of each key is its only one. -/
theorem lastMembers_of_nodup {members : List (Str × Json)} (h : (members.map Prod.fst).Nodup) :
    lastMembers members = members := by
  induction members with
  | nil => rfl
  | cons member rest ih =>
    rw [List.map_cons, List.nodup_cons] at h
    rw [lastMembers, if_neg, ih h.2]
    intro hany
    obtain ⟨other, hother, hkey⟩ := List.any_eq_true.mp hany
    exact h.1 (List.mem_map.mpr ⟨other, hother, of_decide_eq_true hkey⟩)

/-- What is sorted stays as it is. -/
theorem sortMembers_sortMembers (members : List (Str × Json)) :
    sortMembers (sortMembers members) = sortMembers members := by
  have hnodup : ((sortMembers members).map Prod.fst).Nodup :=
    ((perm_sortMembers members).map Prod.fst).nodup_iff.mpr (nodup_lastMembers members)
  have : Std.Total fun a b : Str × Json => keyLE a.1 b.1 = true := ⟨fun a b => keyLE_total a.1 b.1⟩
  have : IsTrans (Str × Json) fun a b => keyLE a.1 b.1 = true := ⟨fun _ _ _ => keyLE_trans⟩
  have hpairwise : (sortMembers members).Pairwise fun a b => keyLE a.1 b.1 = true := by
    rw [sortMembers]
    exact List.pairwise_insertionSort _ _
  rw [sortMembers, lastMembers_of_nodup hnodup]
  exact hpairwise.insertionSort_eq

theorem sortedMembers_eq_self {members : List (Str × Json)}
    (h : ∀ member ∈ members, sorted member.2 = member.2) : sortedMembers members = members := by
  induction members with
  | nil => rfl
  | cons member rest ih =>
    rw [List.forall_mem_cons] at h
    rw [sortedMembers, h.1, ih h.2]

mutual

/-- Sorting twice is sorting once. -/
theorem sorted_sorted : ∀ value : Json, sorted (sorted value) = sorted value
  | .null => rfl
  | .bool _ => rfl
  | .int _ => rfl
  | .float _ => rfl
  | .string _ => rfl
  | .array items => congrArg Json.array (sortedItems_sortedItems items)
  | .object members => by
    rw [sorted, sorted, sortedMembers_eq_self, sortMembers_sortMembers]
    exact fun member hmember =>
      sorted_of_mem_sortedMembers members member (mem_of_mem_sortMembers hmember)

theorem sortedItems_sortedItems : ∀ items : List Json,
    sortedItems (sortedItems items) = sortedItems items
  | [] => rfl
  | item :: rest => by
    rw [sortedItems, sortedItems, sorted_sorted item, sortedItems_sortedItems rest]

theorem sorted_of_mem_sortedMembers : ∀ members : List (Str × Json),
    ∀ member ∈ sortedMembers members, sorted member.2 = member.2
  | [], _, hmember => nomatch hmember
  | (key, value) :: rest, member, hmember => by
    rw [sortedMembers] at hmember
    rcases List.mem_cons.mp hmember with rfl | hmember
    · exact sorted_sorted value
    · exact sorted_of_mem_sortedMembers rest member hmember

end

/-- A sorted value is the same but for the order of its keys. -/
theorem same_sorted (value : Json) : Json.Same (sorted value) value := sorted_sorted value

/-- A value is carried in whatever order the members of its objects are. -/
theorem carried_sorted {interpreter : Interpreter} {depth : ℕ} {value : Json}
    (h : Carried interpreter depth value) : Carried interpreter depth (sorted value) := by
  have hitem : ∀ {items : List Json} {item : Json}, item ∈ sortedItems items →
      ∃ other ∈ items, item = sorted other := by
    intro items item hmem
    induction items with
    | nil => cases hmem
    | cons other rest ih =>
      rcases List.mem_cons.mp hmem with rfl | hmem
      · exact ⟨other, List.mem_cons_self, rfl⟩
      · obtain ⟨found, hfound, heq⟩ := ih hmem
        exact ⟨found, List.mem_cons_of_mem _ hfound, heq⟩
  have hmember : ∀ {members : List (Str × Json)} {member : Str × Json},
      member ∈ sortedMembers members → ∃ other ∈ members, member = (other.1, sorted other.2) := by
    intro members member hmem
    induction members with
    | nil => cases hmem
    | cons other rest ih =>
      rcases List.mem_cons.mp hmem with rfl | hmem
      · exact ⟨other, List.mem_cons_self, rfl⟩
      · obtain ⟨found, hfound, heq⟩ := ih hmem
        exact ⟨found, List.mem_cons_of_mem _ hfound, heq⟩
  induction h with
  | null => exact .null
  | bool b => exact .bool b
  | int n => exact .int n
  | nan => exact .nan
  | inf negative => exact .inf negative
  | finite h => exact .finite h
  | string h => exact .string h
  | array h ih =>
    refine .array fun item hmem => ?_
    obtain ⟨other, hother, rfl⟩ := hitem hmem
    exact ih other hother
  | object hkeys h ih =>
    refine .object (fun member hmem => ?_) fun member hmem => ?_
    · obtain ⟨other, hother, rfl⟩ := hmember (mem_of_mem_sortMembers hmem)
      exact hkeys other hother
    · obtain ⟨other, hother, rfl⟩ := hmember (mem_of_mem_sortMembers hmem)
      exact ih other hother

/-! ## Documents -/

section Documents

variable {interpreter : Interpreter} {value : Json} {text : Str}

/-- **The text of an artifact is read back**, with its keys in order. -/
theorem loads_artifactText {depth : ℕ} (h : Carried interpreter depth value)
    (htext : artifactText interpreter value = some text) :
    loads depth text = .ok (sorted value) := by
  obtain ⟨indented, hindented, rfl⟩ := Option.map_eq_some_iff.mp htext
  have hcarried := carried_sorted h
  have hbegins := begins_encodeIndented hcarried hindented
  have hskip := skipSpace_begins hbegins [10]
  have hread := scanOnce_encodeIndented hcarried hindented [10]
    (stops_cons (.inr (.inr (.inr rfl))) [])
  have hmark : (indented ++ [10]).head? ≠ some 0xFEFF := by
    -- a container starts with its bracket, and everything else is ASCII
    rcases @encodeIndented_cases interpreter 0 (sorted value) with ⟨items, hitems⟩ |
        ⟨members, hmembers⟩ | hsame
    · rw [hitems] at hindented
      obtain ⟨texts, -, rfl⟩ := Option.map_eq_some_iff.mp hindented
      exact fun h => absurd (Option.some.inj h) (by decide)
    · rw [hmembers] at hindented
      obtain ⟨texts, -, rfl⟩ := Option.map_eq_some_iff.mp hindented
      exact fun h => absurd (Option.some.inj h) (by decide)
    · intro hhead
      obtain ⟨c, tail, rfl, -⟩ := hbegins
      obtain rfl : c = 0xFEFF := Option.some.inj hhead
      have hprintable := printable_encode hcarried (hsame ▸ hindented) 0xFEFF List.mem_cons_self
      omega
  rw [loads, if_neg hmark, hskip, hread]
  rfl

/-- **What is written of a document is read as the same document.** -/
theorem load_artifactText {members : List (Str × Json)}
    (h : Carried interpreter interpreter.loadsDepth (.object members))
    (htext : artifactText interpreter (.object members) = some text) :
    ∃ found, load interpreter (some text) = .ok (some found) ∧
      Json.Same (.object found) (.object members) := by
  refine ⟨sortMembers (sortedMembers members), ?_, same_sorted (.object members)⟩
  rw [load, loads_artifactText h htext, sorted]

end Documents

/-! ## Plain values -/

/-- Strings of ASCII, integers, these numbers and containers of them, nested at most `depth`
deep. -/
def isPlain (numbers : List Float64) : ℕ → Json → Bool
  | _, .null => true
  | _, .bool _ => true
  | _, .int _ => true
  | _, .float x => numbers.contains x
  | _, .string s => s.all (· < 128)
  | 0, .array _ => false
  | depth + 1, .array items => items.all (isPlain numbers depth)
  | 0, .object _ => false
  | depth + 1, .object members =>
    members.all fun member => member.1.all (· < 128) && isPlain numbers depth member.2

/-- They are carried. -/
theorem carried_of_isPlain {interpreter : Interpreter} {numbers : List Float64}
    (hnumbers : ∀ x ∈ numbers, ∀ depth, Carried interpreter depth (.float x)) {depth : ℕ} :
    ∀ {value : Json}, isPlain numbers depth value = true → Carried interpreter depth value := by
  have hstring : ∀ {s : Str}, s.all (· < 128) = true → Unpaired s := fun h =>
    unpaired_ascii fun c hc => of_decide_eq_true (List.all_eq_true.mp h c hc)
  induction depth with
  | zero =>
    intro value h
    cases value with
    | null => exact .null
    | bool b => exact .bool b
    | int n => exact .int n
    | float x => exact hnumbers x (List.contains_iff_mem.mp h) _
    | string s => exact .string (hstring h)
    | _ => cases h
  | succ depth ih =>
    intro value h
    cases value with
    | null => exact .null
    | bool b => exact .bool b
    | int n => exact .int n
    | float x => exact hnumbers x (List.contains_iff_mem.mp h) _
    | string s => exact .string (hstring h)
    | array items => exact .array fun item hitem => ih (List.all_eq_true.mp h item hitem)
    | object members =>
      have hmember : ∀ member ∈ members, member.1.all (· < 128) = true ∧
          isPlain numbers depth member.2 = true := fun member hmember =>
        (Bool.and_eq_true ..).mp (List.all_eq_true.mp h member hmember)
      exact .object (fun member hmem => hstring (hmember member hmem).1) fun member hmem =>
        ih (hmember member hmem).2

/-- An interpreter that writes these numbers. -/
def numberInterpreter (numbers : List (Float64 × Str)) : Interpreter :=
  { asciiInterpreter with
    repr := fun
      | .float x => (numbers.find? fun number => number.1 == x).map Prod.snd
      | _ => none }

/-- A number and its text, with a point after the first digit. -/
def isPointed : Float64 × Str → Bool
  | (x, c :: 46 :: fraction) => isAsciiDigit c && fraction.all isAsciiDigit && fraction ≠ [] &&
      .ofRat (decimalOf (c :: fraction) * 10 ^ (-(fraction.length : ℤ))) = x
  | _ => false

/-- Such numbers are carried. -/
theorem carried_numbers {numbers : List (Float64 × Str)} (h : numbers.all isPointed = true) :
    ∀ x, ∀ depth, Carried (numberInterpreter numbers) depth (.float x) := by
  rintro (_ | negative | value) depth
  · exact .nan
  · exact .inf negative
  refine .finite fun text htext => ?_
  obtain ⟨number, hfound, rfl⟩ := Option.map_eq_some_iff.mp htext
  have hpointed := List.all_eq_true.mp h number (List.mem_of_find?_eq_some hfound)
  have hvalue : number.1 = .finite value := by simpa using List.find?_some hfound
  rw [isPointed.eq_def] at hpointed
  split at hpointed
  · rename_i x c fraction
    simp only [Bool.and_eq_true, decide_eq_true_eq] at hpointed
    obtain ⟨⟨⟨hc, hfraction⟩, hne⟩, hx⟩ := hpointed
    exact floatText_point hc (List.all_eq_true.mp hfraction) hne (hx.trans hvalue)
  · cases hpointed

theorem carried_emptyGraph : Carried asciiInterpreter asciiInterpreter.loadsDepth emptyGraph :=
  carried_of_isPlain (fun _ h => absurd h List.not_mem_nil)
    (by decide +kernel : isPlain [] 900 emptyGraph = true)

/-- A prediction as a document, with its keys in no order. -/
def predictionDocument : Json := .object
  [(str "test_b", .string (str "u")), (str "test_a", .string (str "t")),
    (str "probability", .float (.ofRat (1 / 2))),
    (str "shared_resources", .array [.string (str "/tmp/x"), .string (str "a\nb")]),
    (str "counts", .object [(str "writes", .int (-3)), (str "last", .null)]),
    (str "certain", .bool false)]

/-- Its text, with the keys in order. -/
def predictionText : Str := str ("\x7b\n  \"certain\": false,\n" ++
  "  \"counts\": \x7b\n    \"last\": null,\n    \"writes\": -3\n  \x7d,\n" ++
  "  \"probability\": 0.5,\n" ++
  "  \"shared_resources\": [\n    \"/tmp/x\",\n    \"a\\nb\"\n  ],\n" ++
  "  \"test_a\": \"t\",\n  \"test_b\": \"u\"\n\x7d\n")

/-- An interpreter that can write a half. -/
def halfInterpreter : Interpreter := numberInterpreter [(.ofRat (1 / 2), str "0.5")]

theorem carried_predictionDocument :
    Carried halfInterpreter halfInterpreter.loadsDepth predictionDocument :=
  carried_of_isPlain (fun x _ => carried_numbers (by decide +kernel) x)
    (by decide +kernel : isPlain [.ofRat (1 / 2)] 900 predictionDocument = true)

theorem artifactText_predictionDocument :
    artifactText halfInterpreter predictionDocument = some predictionText := by
  simp only [predictionText, str_append]
  decide +kernel

/-- It is read back. -/
theorem load_artifactText_prediction :
    ∃ found, load halfInterpreter (some predictionText) = .ok (some found) ∧
      Json.Same (.object found) predictionDocument :=
  @load_artifactText halfInterpreter _ _ carried_predictionDocument artifactText_predictionDocument

end ConflictGraph.Py
