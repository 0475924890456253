import ConflictGraph.PyIndented

/-!
# Beginnings of JSON texts

Whoever looks at a file that is being written finds a beginning of its text. A string or a
container that is cut is not closed, and `json.loads` raises `JSONDecodeError` for it. What is
left of a number that is cut may be a number, but nothing comes after it with which a container
could go on (`Torn`); and it has no more digits than the number had. So of a beginning of an
object, unless it has the last bracket, `json.loads` reads nothing and raises `JSONDecodeError`
(`loads_beginning`).
-/

namespace ConflictGraph.Py

open Str

/-- What a scanner leaves of a text that was cut: no white space, and nothing that ends a
container or goes on with it. -/
def Leftover (rest : Str) : Prop :=
  ∀ c, rest.head? = some c → c ≠ 32 ∧ c ≠ 9 ∧ c ≠ 10 ∧ c ≠ 13 ∧ c ≠ 44 ∧ c ≠ 93 ∧ c ≠ 125

section Scanner

variable {α : Type} (scan : Str → Except ExceptionType (α × Str)) (text : Str)

/-- A text that has to be closed. -/
def Unclosed : Prop := ∀ p, p <+: text → p ≠ text → scan p = .error .jsonDecodeError

/-- A text that may be cut, such that no container goes on after what is left. -/
def Torn : Prop := ∀ p, p <+: text → p ≠ text →
  scan p = .error .jsonDecodeError ∨ ∃ a rest, scan p = .ok (a, rest) ∧ Leftover rest

variable {scan text}

theorem Unclosed.torn (h : Unclosed scan text) : Torn scan text :=
  fun p hp hne => .inl (h p hp hne)

end Scanner

/-- A beginning of two texts one after the other ends in the first or in the second. -/
theorem prefix_append_cases {p s t : Str} (h : p <+: s ++ t) :
    (p <+: s ∧ p ≠ s) ∨ ∃ r, p = s ++ r ∧ r <+: t := by
  by_cases hp : p <+: s ∧ p ≠ s
  · exact .inl hp
  · obtain ⟨r, rfl⟩ : s <+: p := by
      rcases List.prefix_or_prefix_of_prefix h (List.prefix_append s t) with hps | hsp
      · rw [not_and_not_right.mp hp hps]
      · exact hsp
    exact .inr ⟨r, rfl, (List.prefix_append_right_inj s).mp h⟩

/-! ## Numbers -/

/-- The characters of numbers. -/
def isNumberChar (c : ℕ) : Bool :=
  isAsciiDigit c || c = 43 || c = 45 || c = 46 || c = 69 || c = 101

/-- A scanner has taken characters of numbers, and this is the rest. -/
def TakesNumber (s rest : Str) : Prop :=
  ∃ taken, s = taken ++ rest ∧ ∀ c ∈ taken, isNumberChar c = true

section Number

variable {s rest : Str}

theorem TakesNumber.refl (s : Str) : TakesNumber s s := ⟨[], rfl, List.forall_mem_nil _⟩

/-- What takes characters of numbers, again and again. -/
theorem TakesNumber.trans {middle : Str} (h : TakesNumber s middle)
    (h' : TakesNumber middle rest) : TakesNumber s rest := by
  obtain ⟨taken, rfl, hall⟩ := h
  obtain ⟨taken', rfl, hall'⟩ := h'
  exact ⟨taken ++ taken', (List.append_assoc ..).symm, List.forall_mem_append.mpr ⟨hall, hall'⟩⟩

theorem takesNumber_head {c : ℕ} (h : s.head? = some c) (hc : isNumberChar c = true) :
    TakesNumber s s.tail := by
  obtain ⟨tail, rfl⟩ := List.head?_eq_some_iff.mp h
  exact ⟨[c], rfl, List.forall_mem_singleton.mpr hc⟩

theorem takesNumber_digits (s : Str) : TakesNumber s (s.dropWhile isAsciiDigit) := by
  refine ⟨_, List.takeWhile_append_dropWhile.symm, fun c hc => ?_⟩
  rw [isNumberChar, List.mem_takeWhile_imp hc]
  rfl

theorem takesNumber_scanSign (s : Str) : TakesNumber s (scanSign s).2 := by
  rw [scanSign]
  split
  · rename_i hminus
    exact takesNumber_head hminus rfl
  · exact .refl s

/-- The digits before the point. -/
theorem takesNumber_scanWhole (s : Str) : TakesNumber s (scanWhole s).2 := by
  rw [scanWhole]
  split
  · rename_i hzero
    exact takesNumber_head hzero rfl
  · exact takesNumber_digits s

theorem takesNumber_scanFraction (s : Str) : TakesNumber s (scanFraction s).2 := by
  rw [scanFraction]
  split
  · rename_i hpoint
    exact (takesNumber_head hpoint.1 rfl).trans (takesNumber_digits _)
  · exact .refl s

/-- The exponent. -/
theorem takesNumber_scanExponent (s : Str) : TakesNumber s (scanExponent s).2 := by
  rw [scanExponent]
  split
  rename_i negative digits hdigits
  split
  · rename_i hexponent
    have hmark : TakesNumber s s.tail :=
      hexponent.1.elim (fun h => takesNumber_head h rfl) fun h => takesNumber_head h rfl
    have hsign : TakesNumber s.tail digits := by
      split at hdigits
      · rename_i hplus
        obtain ⟨-, rfl⟩ := Prod.mk.inj hdigits
        exact takesNumber_head hplus rfl
      · have hminus := takesNumber_scanSign s.tail
        rwa [hdigits] at hminus
    exact (hmark.trans hsign).trans (takesNumber_digits _)
  · exact .refl s

/-- The whole part is made of digits of the text. -/
theorem length_scanWhole_le (s : Str) :
    (scanWhole (scanSign s).2).1.length ≤ s.countP isAsciiDigit := by
  have hwhole : ∀ s : Str, (scanWhole s).1.length ≤ s.countP isAsciiDigit := by
    intro s
    rw [scanWhole]
    split
    · rename_i hzero
      obtain ⟨tail, rfl⟩ := List.head?_eq_some_iff.mp hzero
      rw [List.countP_cons_of_pos rfl]
      exact Nat.succ_le_succ (Nat.zero_le _)
    · rw [← List.countP_eq_length.mpr fun c hc => List.mem_takeWhile_imp hc]
      exact (List.takeWhile_sublist _).countP_le
  refine (hwhole _).trans ?_
  obtain ⟨taken, hs, -⟩ := takesNumber_scanSign s
  conv_rhs => rw [hs]
  exact (List.sublist_append_right _ _).countP_le

/-- A text without too many digits is a number and a rest, or raises `JSONDecodeError`. -/
theorem scanNumber_cases (h : s.countP isAsciiDigit ≤ maxStrDigits) :
    scanNumber s = .error .jsonDecodeError ∨
      ∃ value rest, scanNumber s = .ok (value, rest) ∧ TakesNumber s rest := by
  have htakes := (((takesNumber_scanSign s).trans (takesNumber_scanWhole _)).trans
    (takesNumber_scanFraction _)).trans (takesNumber_scanExponent _)
  have hdigits := (length_scanWhole_le s).trans h
  simp only [scanNumber]
  split
  · exact .inl rfl
  · refine .inr ?_
    simp only [numberOf, if_neg (Nat.not_lt.mpr hdigits)]
    split <;> exact ⟨_, _, rfl, htakes⟩

/-- A number that takes its whole text is made of characters of numbers. -/
theorem isNumberChar_of_scanNumber {value : Json} (h : scanNumber s = .ok (value, [])) :
    ∀ c ∈ s, isNumberChar c = true := by
  obtain ⟨taken, hs, hall⟩ := (((takesNumber_scanSign s).trans (takesNumber_scanWhole _)).trans
    (takesNumber_scanFraction _)).trans (takesNumber_scanExponent _)
  have hrest : (scanExponent (scanFraction (scanWhole (scanSign s).2).2).2).2 = [] := by
    simp only [scanNumber] at h
    split at h
    · cases h
    · obtain ⟨value, -, heq⟩ := eq_ok_of_map_eq_ok h
      exact (Prod.mk.inj heq).2
  rw [hrest, List.append_nil] at hs
  exact hs ▸ hall

/-- Where there is nothing, there is no value. -/
theorem scanOnce_nil (depth : ℕ) : scanOnce depth [] = .error .jsonDecodeError := by
  cases depth <;> rfl

/-- A beginning of a number is scanned as one, or is its sign. -/
theorem scanOnce_numberCut (depth : ℕ) {p : Str} (hstarts : StartsNumber s) (hp : p <+: s) :
    scanOnce depth p = .error .jsonDecodeError ∨ scanOnce depth p = scanNumber p := by
  have hnumber : StartsNumber p → scanOnce depth p = scanNumber p := fun h => by
    simpa using scanOnce_number depth h []
  have hsign : scanOnce depth [45] = .error .jsonDecodeError := by cases depth <;> rfl
  cases hstarts with
  | @digit c tail hc =>
    rcases List.prefix_cons_iff.mp hp with rfl | ⟨p, rfl, -⟩
    · exact .inl (scanOnce_nil depth)
    · exact .inr (hnumber (.digit hc))
  | @minus c tail hc =>
    rcases List.prefix_cons_iff.mp hp with rfl | ⟨tail', rfl, htail⟩
    · exact .inl (scanOnce_nil depth)
    · rcases List.prefix_cons_iff.mp htail with rfl | ⟨tail'', rfl, -⟩
      · exact .inl hsign
      · exact .inr (hnumber (.minus hc))

/-- **A number that is cut** leaves nothing that belongs to a container. -/
theorem torn_number {depth : ℕ} {value : Json} (hstarts : StartsNumber s)
    (hread : scanNumber s = .ok (value, [])) (hdigits : s.countP isAsciiDigit ≤ maxStrDigits) :
    Torn (scanOnce depth) s := by
  intro p hp _
  rcases scanOnce_numberCut depth hstarts hp with herror | hnumber
  · exact .inl herror
  rw [hnumber]
  refine (scanNumber_cases (hp.sublist.countP_le.trans hdigits)).imp_right ?_
  rintro ⟨found, rest, hok, taken, rfl, -⟩
  refine ⟨found, rest, hok, fun c hc => ?_⟩
  have hchar := isNumberChar_of_scanNumber hread c
    (hp.subset (List.mem_append_right _ (List.mem_of_mem_head? hc)))
  simp only [isNumberChar, isAsciiDigit, Bool.or_eq_true, Bool.and_eq_true,
    decide_eq_true_eq] at hchar
  omega

end Number

/-! ## Words and strings -/

/-- A beginning of a word is no value. -/
theorem unclosed_word (depth : ℕ) :
    ∀ entry ∈ constants, Unclosed (scanOnce depth) (str entry.1) := by
  have hvalue : ∀ inner, ∀ entry ∈ constants, ∀ n < (str entry.1).length,
      scanValue inner ((str entry.1).take n) = .error .jsonDecodeError := by
    intro inner
    simp only [constants, List.forall_mem_cons]
    refine ⟨?_, ?_, ?_, ?_, ?_, ?_, List.forall_mem_nil _⟩ <;>
    · intro n hn
      simp [str] at hn
      interval_cases n <;> rfl
  intro entry hentry p hp hne
  rw [List.prefix_iff_eq_take.mp hp]
  have hlt : p.length < (str entry.1).length :=
    lt_of_le_of_ne hp.length_le fun h => hne (hp.eq_of_length h)
  cases depth with
  | zero => exact hvalue _ entry hentry _ hlt
  | succ depth => exact hvalue _ entry hentry _ hlt

/-- A closed string is read alike whatever comes after it. -/
theorem scanUnits_append {s : Str} :
    ∀ {rest units}, scanUnits s = .ok (units, rest) →
      ∀ q, scanUnits (s ++ q) = .ok (units, rest ++ q) := by
  fun_induction scanUnits s with
  | case2 rest =>
    intro rest' units h q
    obtain ⟨rfl, rfl⟩ := Prod.mk.inj (Except.ok.inj h)
    rw [List.cons_append, scanUnits.eq_def]
    rfl
  | case4 h₁ h₂ h₃ h₄ rest unit hunit h34 ih =>
    intro rest' units h q
    obtain ⟨⟨units', rest''⟩, hunits, heq⟩ := eq_ok_of_map_eq_ok h
    obtain ⟨rfl, rfl⟩ := Prod.mk.inj heq
    rw [List.cons_append, scanUnits.eq_def]
    simp [hunit, ih hunits q, Except.map]
  | case7 e rest he unit hunit h34 ih =>
    intro rest' units h q
    obtain ⟨⟨units', rest''⟩, hunits, heq⟩ := eq_ok_of_map_eq_ok h
    obtain ⟨rfl, rfl⟩ := Prod.mk.inj heq
    rw [List.cons_append, scanUnits.eq_def]
    simp [he, hunit, ih hunits q, Except.map]
  | case10 c rest h34 h92 h32 ih =>
    intro rest' units h q
    obtain ⟨⟨units', rest''⟩, hunits, heq⟩ := eq_ok_of_map_eq_ok h
    obtain ⟨rfl, rfl⟩ := Prod.mk.inj heq
    rw [List.cons_append, scanUnits.eq_def]
    simp [h34, h92, h32, ih hunits q, Except.map]
  | _ => exact fun h => by cases h

/-- A string that takes its whole text is not closed before its end. -/
theorem unclosed_string {s text : Str} (h : scanString text = .ok (s, [])) :
    Unclosed scanString text := by
  rintro p ⟨q, rfl⟩ hne
  rcases hp : scanString p with e | ⟨found, rest⟩
  · rw [scanString_error hp]
  · obtain ⟨⟨units, rest'⟩, hunits, heq⟩ := eq_ok_of_map_eq_ok hp
    obtain ⟨-, rfl⟩ := Prod.mk.inj heq
    rw [scanString, scanUnits_append hunits] at h
    obtain ⟨-, hrest⟩ := Prod.mk.inj (Except.ok.inj h)
    rw [(List.append_eq_nil_iff.mp hrest).2, List.append_nil] at hne
    exact absurd rfl hne

/-! ## Containers -/

/-- Skipping space keeps beginnings. -/
theorem skipSpace_mono {p s : Str} (h : p <+: s) : skipSpace p <+: skipSpace s := by
  obtain ⟨q, rfl⟩ := h
  rw [skipSpace, skipSpace, List.dropWhile_append]
  split
  · rename_i hempty
    rw [List.isEmpty_iff.mp hempty]
    exact List.nil_prefix
  · exact List.prefix_append _ _

/-- A beginning of a value has no white space before it. -/
theorem skipSpace_of_prefix {p text : Str} (h : Begins text) (hp : p <+: text) :
    skipSpace p = p := by
  obtain ⟨c, tail, rfl, hc⟩ := h
  rcases List.prefix_cons_iff.mp hp with rfl | ⟨p, rfl, -⟩
  · rfl
  · have hbegins : Begins (c :: p) := ⟨c, p, rfl, hc⟩
    simpa using skipSpace_begins hbegins []

theorem Leftover.skipSpace_eq {rest : Str} (h : Leftover rest) : skipSpace rest = rest := by
  rcases rest with _ | ⟨c, rest⟩
  · rfl
  · obtain ⟨hspace, htab, hline, hreturn, -⟩ := h c rfl
    rw [skipSpace, List.dropWhile_cons_of_neg]
    simp only [Bool.or_eq_true, Bool.and_eq_true, decide_eq_true_eq]
    omega

section Containers

variable {α : Type} {element : Str → Except ExceptionType (α × Str)} {close level : ℕ} {p : Str}

/-- Elements on lines of their own, cut before the container is closed. -/
theorem scanElements_cut (hempty : element [] = .error .jsonDecodeError)
    (hclose : close = 93 ∨ close = 125) {found : List (α × Str)}
    (hreads : ∀ e ∈ found, ReadsOn element e) (htorn : ∀ e ∈ found, Torn element e.2) :
    ∀ {fuel : ℕ} {p : Str}, p <+: skipSpace (onLines level (found.map Prod.snd)) →
      scanElements element close fuel p = .error .jsonDecodeError := by
  have hcomma : ¬ 44 = close := by
    rcases hclose with rfl | rfl <;> decide
  induction found with
  | nil =>
    intro fuel p hp
    rw [List.prefix_nil.mp hp]
    cases fuel with
    | zero => rfl
    | succ fuel => rw [scanElements, hempty]
  | cons first others ih =>
    intro fuel p hp
    rw [List.forall_mem_cons] at hreads htorn
    obtain ⟨hskip, -⟩ := skipSpace_onLines hreads.1 level (others.map Prod.snd) []
    rw [List.append_nil, List.append_nil] at hskip
    rw [List.map_cons, hskip] at hp
    cases fuel with
    | zero => rfl
    | succ fuel =>
      rw [scanElements]
      rcases prefix_append_cases hp with ⟨hcut, hne⟩ | ⟨rest, rfl, hrest⟩
      · -- the first element is cut
        rcases htorn.1 p hcut hne with herror | ⟨item, rest, hok, hleft⟩
        · rw [herror]
        · simp only [hok, hleft.skipSpace_eq]
          rcases rest with _ | ⟨c, rest⟩
          · rfl
          · obtain ⟨-, -, -, -, hgoes, hbracket, hbrace⟩ := hleft c rfl
            have hopen : ¬ c = close := by
              rcases hclose with rfl | rfl <;> assumption
            simp only [if_neg hopen, if_neg hgoes]
      · have hstops : Stops rest := by
          intro c hc
          obtain ⟨rest, rfl⟩ := List.head?_eq_some_iff.mp hc
          rw [afterElement] at hrest
          split at hrest
          · exact .inr (.inr (.inr (List.cons_prefix_cons.mp hrest).1))
          · exact .inl (List.cons_prefix_cons.mp hrest).1
        simp only [hreads.1.reads rest hstops]
        rw [afterElement] at hrest
        split at hrest
        · -- there is no other, and the bracket is missing
          have hspace : skipSpace rest = [] := by
            have hprefix := skipSpace_mono hrest
            have hbreak := skipSpace_lineBreak level []
            rw [List.append_nil] at hbreak
            rw [hbreak] at hprefix
            exact List.prefix_nil.mp hprefix
          simp only [hspace]
        · rcases List.prefix_cons_iff.mp hrest with rfl | ⟨more, rfl, hmore⟩
          · rfl
          · have hspace : skipSpace (44 :: more) = 44 :: more := rfl
            simp only [hspace, if_neg hcomma, if_true,
              ih hreads.2 htorn.2 (skipSpace_mono hmore)]
            rfl

/-- **A container is not closed** before its bracket. -/
theorem scanContainer_cut (hempty : element [] = .error .jsonDecodeError)
    (hclose : close = 93 ∨ close = 125) {found : List (α × Str)}
    (hreads : ∀ e ∈ found, ReadsOn element e) (htorn : ∀ e ∈ found, Torn element e.2)
    (hp : p <+: onLines level (found.map Prod.snd) ++ [close])
    (hne : p ≠ onLines level (found.map Prod.snd) ++ [close]) :
    scanContainer element close (skipSpace p) = .error .jsonDecodeError := by
  have hcut : p <+: onLines level (found.map Prod.snd) :=
    (List.prefix_concat_iff.mp hp).resolve_left hne
  have hspace := skipSpace_mono hcut
  have hhead : ¬ (skipSpace p).head? = some close := by
    intro hhead
    obtain ⟨rest, hrest⟩ := List.head?_eq_some_iff.mp hhead
    rw [hrest] at hspace
    rcases found with _ | ⟨first, others⟩
    · exact absurd (List.prefix_nil.mp hspace) (List.cons_ne_nil _ _)
    · have hfirst := hreads first List.mem_cons_self
      obtain ⟨hskip, -⟩ := skipSpace_onLines hfirst level (others.map Prod.snd) []
      obtain ⟨c, tail, htail, -, -, -, -, hbracket, hbrace⟩ := hfirst.begins
      rw [List.append_nil, List.append_nil] at hskip
      rw [List.map_cons, hskip, htail] at hspace
      obtain rfl := (List.cons_prefix_cons.mp hspace).1
      exact hclose.elim hbracket hbrace
  rw [scanContainer, if_neg hhead]
  exact scanElements_cut hempty hclose hreads htorn hspace

end Containers

/-! ## Values -/

/-- A member is cut in its name, or in its value. -/
theorem torn_member {scan : Str → Except ExceptionType (Json × Str)} {key text : Str}
    (hempty : scan [] = .error .jsonDecodeError) (hkey : Unpaired key) (hbegins : Begins text)
    (h : Torn scan text) : Torn (scanMember scan) (encodeString key ++ 58 :: 32 :: text) := by
  have hname := scanString_encode hkey []
  intro p hp hne
  rcases prefix_append_cases hp with ⟨hcut, hnot⟩ | ⟨rest, rfl, hrest⟩
  · -- the name is not closed
    refine .inl ?_
    rcases List.prefix_cons_iff.mp hcut with rfl | ⟨name, rfl, hcutName⟩
    · rfl
    · have herror := unclosed_string hname name hcutName fun h => hnot (congrArg (34 :: ·) h)
      simp only [scanMember, List.head?_cons, if_true, List.tail_cons, herror]
  rcases List.prefix_cons_iff.mp hrest with rfl | ⟨colon, rfl, hcolon⟩
  · refine .inl ?_
    have hspace : skipSpace [] = [] := rfl
    rw [encodeString_append, scanMember]
    simp only [List.head?_cons, if_true, List.tail_cons, hname, hspace]
  rw [scanMember_encodeString scan hkey]
  rcases List.prefix_cons_iff.mp hcolon with rfl | ⟨value, rfl, hvalue⟩
  · refine .inl ?_
    change (scan []).map _ = _
    rw [hempty]
    rfl
  have hskip : skipSpace (32 :: value) = value := skipSpace_of_prefix hbegins hvalue
  rw [hskip]
  have hcut : value ≠ text := by
    rintro rfl
    exact hne rfl
  rcases h value hvalue hcut with herror | ⟨a, rest, hok, hleft⟩
  · exact .inl (by rw [herror]; rfl)
  · exact .inr ⟨(key, a), rest, by rw [hok]; rfl, hleft⟩

section Values

variable {interpreter : Interpreter}

/-- `float.__repr__` writes no more digits than an integer may have. -/
def Interpreter.ShortFloats (interpreter : Interpreter) : Prop :=
  ∀ x text, interpreter.repr (.float x) = some text → text.length ≤ maxStrDigits

/-- What `scanOnce` reads of the text of a value. -/
theorem readsOn_encodeIndented {depth level : ℕ} {value : Json} {text : Str}
    (h : Carried interpreter depth value)
    (htext : encodeIndented interpreter level value = some text) :
    ReadsOn (scanOnce depth) (value, text) :=
  ⟨begins_encodeIndented h htext, scanOnce_encodeIndented h htext⟩

/-- An array whose items may be cut is not closed. -/
theorem unclosed_array {depth level : ℕ} {items : List Json} {text : Str}
    (h : ∀ item ∈ items, Carried interpreter depth item)
    (htorn : ∀ item ∈ items, ∀ {text}, encodeIndented interpreter (level + 1) item = some text →
      Torn (scanOnce depth) text)
    (htext : encodeIndented interpreter level (.array items) = some text) :
    Unclosed (scanOnce (depth + 1)) text := by
  obtain ⟨texts, htexts, rfl⟩ := Option.map_eq_some_iff.mp htext
  obtain ⟨found, rfl, rfl, hall⟩ := exists_indentedItems htexts
  intro p hp hne
  rcases List.prefix_cons_iff.mp hp with rfl | ⟨lines, rfl, hlines⟩
  · rfl
  have hcut := scanContainer_cut (scanOnce_nil depth) (.inl rfl)
    (fun e he => readsOn_encodeIndented (h e.1 (List.mem_map_of_mem he)) (hall e he))
    (fun e he => htorn e.1 (List.mem_map_of_mem he) (hall e he)) hlines
    fun heq => hne (congrArg (91 :: ·) heq)
  rw [scanOnce_bracket, hcut]
  rfl

/-- An object whose members may be cut is not closed. -/
theorem unclosed_object {depth level : ℕ} {members : List (Str × Json)} {text : Str}
    (hkeys : ∀ member ∈ members, Unpaired member.1)
    (h : ∀ member ∈ members, Carried interpreter depth member.2)
    (htorn : ∀ member ∈ members, ∀ {text},
      encodeIndented interpreter (level + 1) member.2 = some text → Torn (scanOnce depth) text)
    (htext : encodeIndented interpreter level (.object members) = some text) :
    Unclosed (scanOnce (depth + 1)) text := by
  obtain ⟨texts, htexts, rfl⟩ := Option.map_eq_some_iff.mp htext
  obtain ⟨found, rfl, rfl, hall⟩ := exists_indentedMembers htexts
  intro p hp hne
  rcases List.prefix_cons_iff.mp hp with rfl | ⟨lines, rfl, hlines⟩
  · rfl
  have hcut := @scanContainer_cut _ (scanMember (scanOnce depth)) 125 level lines rfl (.inr rfl)
    found
    (by
      rintro ⟨⟨key, value⟩, text⟩ he
      have hmem : (key, value) ∈ found.map Prod.fst := List.mem_map_of_mem he
      obtain ⟨text', htext', htext⟩ := hall _ he
      obtain rfl : text = encodeString key ++ 58 :: 32 :: text' := htext
      exact readsOn_member (hkeys _ hmem) (readsOn_encodeIndented (h _ hmem) htext'))
    (by
      rintro ⟨⟨key, value⟩, text⟩ he
      have hmem : (key, value) ∈ found.map Prod.fst := List.mem_map_of_mem he
      obtain ⟨text', htext', htext⟩ := hall _ he
      obtain rfl : text = encodeString key ++ 58 :: 32 :: text' := htext
      exact torn_member (scanOnce_nil depth) (hkeys _ hmem)
        (begins_encodeIndented (h _ hmem) htext') (htorn _ hmem htext'))
    hlines fun heq => hne (congrArg (123 :: ·) heq)
  rw [scanOnce_brace, hcut]
  rfl

/-- **A value that is cut** raises `JSONDecodeError`, or leaves nothing that belongs to a
container. -/
theorem torn_encodeIndented (hshort : interpreter.ShortFloats) {depth : ℕ} {value : Json}
    (h : Carried interpreter depth value) :
    ∀ {level : ℕ} {text : Str}, encodeIndented interpreter level value = some text →
      Torn (scanOnce depth) text := by
  induction h with
  | @null depth =>
    intro level text htext
    obtain rfl := Option.some.inj htext
    exact (unclosed_word depth ("null", .null) (by simp [constants])).torn
  | @bool depth b =>
    intro level text htext
    cases b <;> obtain rfl := Option.some.inj htext
    · exact (unclosed_word depth ("false", .bool false) (by simp [constants])).torn
    · exact (unclosed_word depth ("true", .bool true) (by simp [constants])).torn
  | @int depth n =>
    intro level text htext
    have hread := scanNumber_encodeInt htext ends_nil
    rw [List.append_nil] at hread
    refine torn_number (startsNumber_encodeInt htext) hread ?_
    obtain ⟨hlength, ⟨-, rfl⟩ | ⟨-, rfl⟩⟩ := encodeInt_eq_some htext
    · exact List.countP_le_length.trans hlength
    · rw [List.countP_cons_of_neg (by decide)]
      exact List.countP_le_length.trans hlength
  | @nan depth =>
    intro level text htext
    obtain rfl := Option.some.inj htext
    exact (unclosed_word depth ("NaN", .float .nan) (by simp [constants])).torn
  | @inf depth negative =>
    intro level text htext
    cases negative <;> obtain rfl := Option.some.inj htext
    · exact (unclosed_word depth ("Infinity", .float (.inf false)) (by simp [constants])).torn
    · exact (unclosed_word depth ("-Infinity", .float (.inf true)) (by simp [constants])).torn
  | @finite depth value h =>
    intro level text htext
    have hread := (h text htext).reads [] ends_nil
    rw [List.append_nil] at hread
    exact torn_number (h text htext).starts hread
      (List.countP_le_length.trans (hshort _ _ htext))
  | @string depth s h =>
    intro level text htext
    obtain rfl := Option.some.inj htext
    refine Unclosed.torn fun p hp hne => ?_
    rcases List.prefix_cons_iff.mp hp with rfl | ⟨content, rfl, hcontent⟩
    · exact scanOnce_nil depth
    have herror := unclosed_string (scanString_encode h []) content hcontent fun heq =>
      hne (congrArg (34 :: ·) heq)
    rw [scanOnce_quote, herror]
    rfl
  | array h ih => exact fun htext => (unclosed_array h (fun item hmem _ => ih item hmem) htext).torn
  | object hkeys h ih =>
    exact fun htext => (unclosed_object hkeys h (fun member hmem _ => ih member hmem) htext).torn

/-- **A beginning of a document** is no document: `json.loads` raises `JSONDecodeError`, unless
only the last line break is missing. -/
theorem loads_beginning {depth : ℕ} {members : List (Str × Json)} {text p : Str}
    (hshort : interpreter.ShortFloats) (h : Carried interpreter depth (.object members))
    (htext : artifactText interpreter (.object members) = some text) (hp : p <+: text) :
    loads depth p = .error .jsonDecodeError ∨
      loads depth p = .ok (.object (sortMembers (sortedMembers members))) := by
  have hwhole := loads_artifactText h htext
  obtain ⟨indented, hindented, rfl⟩ := Option.map_eq_some_iff.mp htext
  have hcarried := carried_sorted h
  rw [sorted] at hwhole hindented hcarried
  rcases List.prefix_concat_iff.mp hp with rfl | hp
  · exact .inr hwhole
  have hbegins := begins_encodeIndented hcarried hindented
  have hskip := skipSpace_of_prefix hbegins hp
  have hmark : p.head? ≠ some 0xFEFF := by
    obtain ⟨texts, -, rfl⟩ := Option.map_eq_some_iff.mp hindented
    rcases List.prefix_cons_iff.mp hp with rfl | ⟨lines, rfl, -⟩
    · decide
    · exact fun h => absurd (Option.some.inj h) (by decide)
  rw [loads, if_neg hmark, hskip]
  by_cases hall : p = indented
  · have hread := scanOnce_encodeIndented hcarried hindented [] stops_nil
    rw [List.append_nil] at hread
    rw [hall, hread]
    exact .inr rfl
  · refine .inl ?_
    have hcut : scanOnce depth p = .error .jsonDecodeError := by
      cases hcarried with
      | object hkeys h =>
        exact unclosed_object hkeys h
          (fun member hmem _ => torn_encodeIndented hshort (h member hmem)) hindented p hp hall
    rw [hcut]
    rfl

end Values

end ConflictGraph.Py
