import Mathlib.Tactic.IntervalCases
import ConflictGraph.PyNumeral

/-!
# JSON that is written

`json.dumps` with its default of ASCII output, and that `json.loads` reads its text back
(`loads_encode`). What JSON does not carry is not `Carried`: two surrogates next to each other,
which are read as one character, and a container that is nested deeper than `loads` goes.
-/

namespace ConflictGraph.Py

open Str

/-! ## Strings -/

/-- A hexadecimal digit, in lower case. -/
def hexChar (d : ℕ) : ℕ := if d < 10 then 48 + d else 87 + d

/-- A code unit as a backslash, a `u` and four hexadecimal digits. -/
def unicodeEscape (unit : ℕ) : Str :=
  [92, 117, hexChar (unit / 4096), hexChar (unit / 256 % 16), hexChar (unit / 16 % 16),
    hexChar (unit % 16)]

/-- The characters that have a short escape, with its letter. -/
def shortEscapes : List (ℕ × ℕ) :=
  [(34, 34), (92, 92), (10, 110), (13, 114), (9, 116), (12, 102), (8, 98)]

/-- The code units of a character, each with whether it is written as a `\u` escape. -/
def unitsOf (c : ℕ) : List (ℕ × Bool) :=
  if (shortEscapes.lookup c).isSome ∨ (32 ≤ c ∧ c ≤ 126) then [(c, false)]
  else if c < 0x10000 then [(c, true)]
  else [(0xD800 + (c - 0x10000) / 1024, true), (0xDC00 + (c - 0x10000) % 1024, true)]

/-- `ascii_escape_char`. -/
def escape (c : ℕ) : Str :=
  match shortEscapes.lookup c with
  | some letter => [92, letter]
  | none =>
    if 32 ≤ c ∧ c ≤ 126 then [c]
    else if c < 0x10000 then unicodeEscape c
    else unicodeEscape (0xD800 + (c - 0x10000) / 1024) ++
      unicodeEscape (0xDC00 + (c - 0x10000) % 1024)

/-- `py_encode_basestring_ascii`. -/
def encodeString (s : Str) : Str := 34 :: (s.flatMap escape ++ [34])

/-- Two code points that are read as one. -/
def IsPair (high low : ℕ) : Prop :=
  0xD800 ≤ high ∧ high ≤ 0xDBFF ∧ 0xDC00 ≤ low ∧ low ≤ 0xDFFF

/-- A text that JSON carries: code points, and no surrogate that pairs with the next one. -/
structure Unpaired (s : Str) : Prop where
  codePoints : ∀ c ∈ s, c < 0x110000
  chain : s.IsChain fun c d => ¬ IsPair c d

theorem hexDigit_hexChar : ∀ d < 16, hexDigit (hexChar d) = some d := by decide

/-- Four hexadecimal digits of a code unit are read as the code unit. -/
theorem hex4_hexChar {unit : ℕ} (h : unit < 0x10000) :
    hex4 (hexChar (unit / 4096)) (hexChar (unit / 256 % 16)) (hexChar (unit / 16 % 16))
      (hexChar (unit % 16)) = some unit := by
  rw [hex4, hexDigit_hexChar _ (by omega), hexDigit_hexChar _ (by omega),
    hexDigit_hexChar _ (by omega), hexDigit_hexChar _ (by omega)]
  exact congrArg some (by omega)

/-- An escaped unit is read as that unit. -/
theorem scanUnits_unicodeEscape {unit : ℕ} (h : unit < 0x10000) (rest : Str) :
    scanUnits (unicodeEscape unit ++ rest) =
      (scanUnits rest).map fun found => ((unit, true) :: found.1, found.2) := by
  change scanUnits (92 :: 117 :: hexChar (unit / 4096) :: hexChar (unit / 256 % 16) ::
    hexChar (unit / 16 % 16) :: hexChar (unit % 16) :: rest) = _
  rw [scanUnits]
  simp [hex4_hexChar h]

/-- **An escaped character is read as its code units.** -/
theorem scanUnits_escape {c : ℕ} (hc : c < 0x110000) (rest : Str) :
    scanUnits (escape c ++ rest) =
      (scanUnits rest).map fun found => (unitsOf c ++ found.1, found.2) := by
  rcases hshort : shortEscapes.lookup c with _ | letter
  · by_cases hplain : 32 ≤ c ∧ c ≤ 126
    · have hescape : escape c = [c] := by simp only [escape, hshort, if_pos hplain]
      have hunits : unitsOf c = [(c, false)] := by rw [unitsOf, if_pos (.inr hplain)]
      have hquote : c ≠ 34 := by
        rintro rfl
        cases hshort
      have hback : c ≠ 92 := by
        rintro rfl
        cases hshort
      rw [hescape, hunits, List.singleton_append, scanUnits.eq_def]
      simp only [if_neg hquote, if_neg hback, if_neg (show ¬ c < 32 by omega)]
      rfl
    · have hnone : ¬ ((shortEscapes.lookup c).isSome = true ∨ (32 ≤ c ∧ c ≤ 126)) := by
        rw [hshort]
        simpa using hplain
      by_cases hunit : c < 0x10000
      · have hescape : escape c = unicodeEscape c := by
          simp only [escape, hshort, if_neg hplain, if_pos hunit]
        have hunits : unitsOf c = [(c, true)] := by rw [unitsOf, if_neg hnone, if_pos hunit]
        rw [hescape, hunits, scanUnits_unicodeEscape hunit]
        rfl
      · have hescape : escape c = unicodeEscape (0xD800 + (c - 0x10000) / 1024) ++
            unicodeEscape (0xDC00 + (c - 0x10000) % 1024) := by
          simp only [escape, hshort, if_neg hplain, if_neg hunit]
        have hunits : unitsOf c = [(0xD800 + (c - 0x10000) / 1024, true),
            (0xDC00 + (c - 0x10000) % 1024, true)] := by
          rw [unitsOf, if_neg hnone, if_neg hunit]
        rw [hescape, hunits, List.append_assoc, scanUnits_unicodeEscape (by omega),
          scanUnits_unicodeEscape (by omega)]
        cases scanUnits rest <;> rfl
  · have hescape : escape c = [92, letter] := by simp only [escape, hshort]
    have hunits : unitsOf c = [(c, false)] := by
      rw [unitsOf, if_pos (.inl (by rw [hshort]; rfl))]
    have hmem : (c, letter) ∈ shortEscapes := by
      obtain ⟨l₁, l₂, heq, -⟩ := List.lookup_eq_some_iff.mp hshort
      rw [heq]
      exact List.mem_append_right l₁ List.mem_cons_self
    have hread : ∀ entry ∈ shortEscapes, entry.2 ≠ 117 ∧ simpleEscape entry.2 = some entry.1 := by
      decide
    obtain ⟨hletter, hsimple⟩ := hread _ hmem
    rw [hescape, hunits]
    change scanUnits (92 :: letter :: rest) = _
    rw [scanUnits.eq_def]
    simp only [show ¬ 92 = 34 by decide, if_false, if_true, if_neg hletter, hsimple]
    rfl

/-- An escaped string is read up to its quote, as its units. -/
theorem scanUnits_encode {s : Str} (h : ∀ c ∈ s, c < 0x110000) (rest : Str) :
    scanUnits (s.flatMap escape ++ 34 :: rest) = .ok (s.flatMap unitsOf, rest) := by
  induction s with
  | nil => rw [List.flatMap_nil, List.nil_append, scanUnits.eq_def]; rfl
  | cons c s ih =>
    rw [List.forall_mem_cons] at h
    rw [List.flatMap_cons, List.append_assoc, scanUnits_escape h.1, ih h.2]
    rfl

/-- A low surrogate that is written as such comes from a character of its own. -/
theorem head?_flatMap_unitsOf {s : Str} {unit : ℕ} (h : ∀ c ∈ s, c < 0x110000)
    (hhead : (s.flatMap unitsOf).head? = some (unit, true)) (hlow : 0xDC00 ≤ unit) :
    s.head? = some unit := by
  rcases s with _ | ⟨c, s⟩
  · cases hhead
  · have hc := h c List.mem_cons_self
    rw [List.flatMap_cons, unitsOf] at hhead
    split at hhead
    · cases hhead
    · split at hhead
      · obtain ⟨rfl, -⟩ := Prod.mk.inj (Option.some.inj hhead)
        rfl
      · obtain ⟨rfl, -⟩ := Prod.mk.inj (Option.some.inj hhead)
        omega

/-- A code unit is a character, unless it pairs with the next one. -/
theorem joinSurrogates_cons {unit : ℕ × Bool} {units : List (ℕ × Bool)}
    (h : ∀ low, units.head? = some (low, true) → ¬ IsPair unit.1 low) :
    joinSurrogates (unit :: units) = unit.1 :: joinSurrogates units := by
  obtain ⟨high, escaped⟩ := unit
  rcases units with _ | ⟨⟨low, escaped'⟩, units⟩
  · cases escaped <;> rfl
  · cases escaped with
    | false => rfl
    | true =>
      cases escaped' with
      | false => rfl
      | true =>
        exact if_neg (h low rfl)

/-- A pair of surrogates is one character. -/
theorem joinSurrogates_pair {high low : ℕ} {units : List (ℕ × Bool)} (h : IsPair high low) :
    joinSurrogates ((high, true) :: (low, true) :: units) =
      (0x10000 + 1024 * (high - 0xD800) + (low - 0xDC00)) :: joinSurrogates units :=
  if_pos h

/-- The characters of their code units. -/
theorem joinSurrogates_flatMap {s : Str} (h : Unpaired s) :
    joinSurrogates (s.flatMap unitsOf) = s := by
  obtain ⟨hcodes, hchain⟩ := h
  induction s with
  | nil => rfl
  | cons c s ih =>
    have hrest : ∀ d ∈ s, d < 0x110000 := (List.forall_mem_cons.mp hcodes).2
    have hc := (List.forall_mem_cons.mp hcodes).1
    have hsingle : ∀ low, (s.flatMap unitsOf).head? = some (low, true) → ¬ IsPair c low := by
      intro low hhead hpair
      obtain ⟨rest, rfl⟩ := List.head?_eq_some_iff.mp
        (head?_flatMap_unitsOf hrest hhead hpair.2.2.1)
      exact (List.isChain_cons_cons.mp hchain).1 hpair
    have hs := ih hrest hchain.of_cons
    rw [List.flatMap_cons, unitsOf]
    split
    · rw [List.singleton_append, joinSurrogates_cons hsingle, hs]
    · split
      · rw [List.singleton_append, joinSurrogates_cons hsingle, hs]
      · have hpair : IsPair (0xD800 + (c - 0x10000) / 1024) (0xDC00 + (c - 0x10000) % 1024) :=
          ⟨by omega, by omega, by omega, by omega⟩
        rw [List.cons_append, List.cons_append, List.nil_append, joinSurrogates_pair hpair, hs]
        exact congrArg (· :: s) (by omega)

/-- **A string is read back.** -/
theorem scanString_encode {s : Str} (h : Unpaired s) (rest : Str) :
    scanString (s.flatMap escape ++ 34 :: rest) = .ok (s, rest) := by
  rw [scanString, scanUnits_encode h.codePoints]
  exact congrArg (fun s => Except.ok (s, rest)) (joinSurrogates_flatMap h)

theorem encodeString_append (s rest : Str) :
    encodeString s ++ rest = 34 :: (s.flatMap escape ++ 34 :: rest) := by
  simp [encodeString]

/-- What is read of a member after its name. -/
theorem scanMember_encodeString (scan : Str → Except ExceptionType (Json × Str)) {key : Str}
    (h : Unpaired key) (rest : Str) :
    scanMember scan (encodeString key ++ 58 :: rest) =
      (scan (skipSpace rest)).map fun (value, rest) => ((key, value), rest) := by
  have hspace : skipSpace (58 :: rest) = 58 :: rest := rfl
  rw [encodeString_append, scanMember]
  simp only [List.head?_cons, if_true, List.tail_cons, scanString_encode h, hspace]

/-! ## Numbers -/

/-- What follows a value: the text ends, or a container goes on or ends. -/
def Ends (rest : Str) : Prop := ∀ c, rest.head? = some c → c = 44 ∨ c = 93 ∨ c = 125

theorem ends_nil : Ends [] := by
  intro c hc
  cases hc

/-- How a number starts. -/
inductive StartsNumber : Str → Prop where
  | digit {c : ℕ} {rest : Str} (h : isAsciiDigit c = true) : StartsNumber (c :: rest)
  | minus {c : ℕ} {rest : Str} (h : isAsciiDigit c = true) : StartsNumber (45 :: c :: rest)

/-- The text of a `float`: printable ASCII that `json.loads` reads as that number. -/
structure FloatText (text : Str) (value : ℚ) : Prop where
  starts : StartsNumber text
  printable : ∀ c ∈ text, 32 ≤ c ∧ c ≤ 126
  reads : ∀ rest, Ends rest → scanNumber (text ++ rest) = .ok (.float (.finite value), rest)

/-- `int.__repr__`, which refuses integers of too many digits. -/
def encodeInt (n : ℤ) : Option Str :=
  if maxStrDigits < (Str.ofNat n.natAbs).length then none
  else some ((if n < 0 then [45] else []) ++ Str.ofNat n.natAbs)

/-- A numeral is read whole. -/
theorem scanWhole_ofNat {rest : Str} (h : Ends rest) (n : ℕ) :
    scanWhole (Str.ofNat n ++ rest) = (Str.ofNat n, rest) := by
  rcases eq_or_ne n 0 with rfl | hne
  · rfl
  · have hhead : (Str.ofNat n ++ rest).head? ≠ some 48 := by
      rw [List.head?_append_of_ne_nil _ (ofNat_ne_nil n)]
      exact head?_ofNat hne
    have hdigits : ∀ c ∈ Str.ofNat n, isAsciiDigit c = true := fun c hc => isAsciiDigit_of_mem_ofNat hc
    have hstop : ∀ c, rest.head? = some c → ¬ isAsciiDigit c = true := by
      intro c hc
      rcases h c hc with rfl | rfl | rfl <;> decide
    rw [scanWhole, if_neg hhead, List.takeWhile_append_of_pos hdigits,
      List.dropWhile_append_of_pos hdigits]
    rcases rest with _ | ⟨c, rest⟩
    · rw [List.takeWhile_nil, List.dropWhile_nil, List.append_nil]
    · rw [List.takeWhile_cons_of_neg (hstop c rfl), List.dropWhile_cons_of_neg (hstop c rfl),
        List.append_nil]

theorem scanFraction_ends {rest : Str} (h : Ends rest) : scanFraction rest = ([], rest) := by
  rw [scanFraction, if_neg]
  rintro ⟨hhead, -⟩
  rcases h 46 hhead with heq | heq | heq <;> cases heq

theorem scanExponent_ends {rest : Str} (h : Ends rest) : scanExponent rest = (none, rest) := by
  have hhead : ¬ (rest.head? = some 101 ∨ rest.head? = some 69) := by
    rintro (hhead | hhead)
    · rcases h 101 hhead with heq | heq | heq <;> cases heq
    · rcases h 69 hhead with heq | heq | heq <;> cases heq
  simp only [scanExponent, hhead, false_and, if_false]

/-- The numeral of an integer after its sign. -/
theorem scanNumber_ofNat {rest : Str} (h : Ends rest) {n : ℕ}
    (hlength : (Str.ofNat n).length ≤ maxStrDigits) :
    scanNumber (Str.ofNat n ++ rest) = .ok (.int n, rest) ∧
      scanNumber (45 :: (Str.ofNat n ++ rest)) = .ok (.int (-n), rest) := by
  have hsign : scanSign (Str.ofNat n ++ rest) = (false, Str.ofNat n ++ rest) := by
    rw [scanSign, if_neg]
    rw [List.head?_append_of_ne_nil _ (ofNat_ne_nil n)]
    exact fun hhead => not_mem_ofNat (c := 45) rfl (List.mem_of_mem_head? hhead)
  have hminus : scanSign (45 :: (Str.ofNat n ++ rest)) = (true, Str.ofNat n ++ rest) := rfl
  refine ⟨?_, ?_⟩
  · simp only [scanNumber, hsign, scanWhole_ofNat h, scanFraction_ends h, scanExponent_ends h,
      if_neg (ofNat_ne_nil n), numberOf, and_self, if_true, if_neg (Nat.not_lt.mpr hlength),
      decimalOf_ofNat, Bool.false_eq_true, if_false, one_mul]
    rfl
  · simp only [scanNumber, hminus, scanWhole_ofNat h, scanFraction_ends h, scanExponent_ends h,
      if_neg (ofNat_ne_nil n), numberOf, and_self, if_true, if_neg (Nat.not_lt.mpr hlength),
      decimalOf_ofNat, neg_mul, one_mul]
    rfl

/-- An integer of few enough digits is written as its digits, after its sign. -/
theorem encodeInt_eq_some {n : ℤ} {text : Str} (h : encodeInt n = some text) :
    (Str.ofNat n.natAbs).length ≤ maxStrDigits ∧
      ((0 ≤ n ∧ text = Str.ofNat n.natAbs) ∨ (n < 0 ∧ text = 45 :: Str.ofNat n.natAbs)) := by
  rw [encodeInt] at h
  split at h
  · cases h
  · rename_i hlength
    refine ⟨Nat.not_lt.mp hlength, ?_⟩
    rw [← Option.some.inj h]
    split
    · rename_i hneg
      exact .inr ⟨hneg, rfl⟩
    · rename_i hneg
      exact .inl ⟨Int.not_lt.mp hneg, rfl⟩

/-- **An integer is read back.** -/
theorem scanNumber_encodeInt {n : ℤ} {text : Str} (h : encodeInt n = some text) {rest : Str}
    (hrest : Ends rest) : scanNumber (text ++ rest) = .ok (.int n, rest) := by
  obtain ⟨hlength, ⟨hn, rfl⟩ | ⟨hn, rfl⟩⟩ := encodeInt_eq_some h
  · rw [(scanNumber_ofNat hrest hlength).1, Int.natAbs_of_nonneg hn]
  · rw [List.cons_append, (scanNumber_ofNat hrest hlength).2, Int.ofNat_natAbs_of_nonpos hn.le,
      Int.neg_neg]

/-- It starts like a number. -/
theorem startsNumber_encodeInt {n : ℤ} {text : Str} (h : encodeInt n = some text) :
    StartsNumber text := by
  obtain ⟨c, rest, hcons⟩ := List.exists_cons_of_ne_nil (ofNat_ne_nil n.natAbs)
  have hdigit : isAsciiDigit c = true :=
    isAsciiDigit_of_mem_ofNat (hcons ▸ List.mem_cons_self : c ∈ Str.ofNat n.natAbs)
  obtain ⟨-, ⟨-, rfl⟩ | ⟨-, rfl⟩⟩ := encodeInt_eq_some h <;> rw [hcons]
  · exact .digit hdigit
  · exact .minus hdigit

/-- The text of a number with a point after its first digit. -/
theorem floatText_point {c : ℕ} {fraction : Str} {value : ℚ} (hc : isAsciiDigit c = true)
    (hfraction : ∀ c ∈ fraction, isAsciiDigit c = true) (hne : fraction ≠ [])
    (hvalue : .ofRat (decimalOf (c :: fraction) * 10 ^ (-(fraction.length : ℤ))) =
      Float64.finite value) : FloatText (c :: 46 :: fraction) value := by
  have hprintable : ∀ c, isAsciiDigit c = true → 32 ≤ c ∧ c ≤ 126 := fun c h => by
    simp only [isAsciiDigit, Bool.and_eq_true, decide_eq_true_eq] at h
    omega
  refine ⟨.digit hc, fun c' hmem => ?_, fun rest hrest => ?_⟩
  · rcases List.mem_cons.mp hmem with rfl | hmem
    · exact hprintable _ hc
    · rcases List.mem_cons.mp hmem with rfl | hmem
      · decide
      · exact hprintable _ (hfraction c' hmem)
  · have hsign : scanSign (c :: 46 :: (fraction ++ rest)) =
        (false, c :: 46 :: (fraction ++ rest)) := by
      rw [scanSign, if_neg]
      rintro ⟨⟩
      cases hc
    have hwhole : scanWhole (c :: 46 :: (fraction ++ rest)) = ([c], 46 :: (fraction ++ rest)) := by
      rw [scanWhole]
      split
      · rename_i hzero
        obtain rfl := Option.some.inj hzero
        rfl
      · rw [List.takeWhile_cons_of_pos hc, List.dropWhile_cons_of_pos hc]
        rfl
    have hstop : ∀ c, rest.head? = some c → ¬ isAsciiDigit c = true := by
      intro c hc
      rcases hrest c hc with rfl | rfl | rfl <;> decide
    have htake : (fraction ++ rest).takeWhile isAsciiDigit = fraction ∧
        (fraction ++ rest).dropWhile isAsciiDigit = rest := by
      rw [List.takeWhile_append_of_pos hfraction, List.dropWhile_append_of_pos hfraction]
      rcases rest with _ | ⟨c, rest⟩
      · exact ⟨List.append_nil _, rfl⟩
      · rw [List.takeWhile_cons_of_neg (hstop c rfl), List.dropWhile_cons_of_neg (hstop c rfl),
          List.append_nil]
        exact ⟨rfl, rfl⟩
    have hpoint : scanFraction (46 :: (fraction ++ rest)) = (fraction, rest) := by
      rw [scanFraction, List.head?_cons, List.tail_cons, htake.1, htake.2, if_pos ⟨rfl, hne⟩]
    have hnumber : numberOf false [c] fraction none = .ok (.float (.finite value)) := by
      rw [numberOf, if_neg fun h => hne h.1, ← hvalue]
      simp
    rw [List.cons_append, List.cons_append]
    simp only [scanNumber, hsign, hwhole, hpoint, scanExponent_ends hrest, hnumber]
    rfl

/-- What starts like a number is scanned as one. -/
theorem scanValue_number (inner : Option (Str → Except ExceptionType (Json × Str))) {text : Str}
    (h : StartsNumber text) (rest : Str) :
    scanValue inner (text ++ rest) = scanNumber (text ++ rest) := by
  have hdigit : ∀ c, isAsciiDigit c = true → ∃ d < 10, c = 48 + d := by
    intro c hc
    rw [isAsciiDigit, Bool.and_eq_true, decide_eq_true_eq, decide_eq_true_eq] at hc
    exact ⟨c - 48, by omega, by omega⟩
  cases h with
  | @digit c tail h =>
    obtain ⟨d, hd, rfl⟩ := hdigit c h
    interval_cases d <;> rfl
  | @minus c tail h =>
    obtain ⟨d, hd, rfl⟩ := hdigit c h
    interval_cases d <;> rfl

/-- A word is read as what it stands for. -/
theorem scanValue_constant (inner : Option (Str → Except ExceptionType (Json × Str))) (rest : Str) :
    ∀ entry ∈ constants, scanValue inner (str entry.1 ++ rest) = .ok (entry.2, rest) := by
  simp [constants, scanValue, dropWord, str, List.dropPrefix?]

theorem scanOnce_number (depth : ℕ) {text : Str} (h : StartsNumber text) (rest : Str) :
    scanOnce depth (text ++ rest) = scanNumber (text ++ rest) := by
  cases depth with
  | zero => exact scanValue_number _ h rest
  | succ depth => exact scanValue_number _ h rest

theorem scanOnce_constant (depth : ℕ) (rest : Str) :
    ∀ entry ∈ constants, scanOnce depth (str entry.1 ++ rest) = .ok (entry.2, rest) := by
  cases depth with
  | zero => exact scanValue_constant _ rest
  | succ depth => exact scanValue_constant _ rest

/-- A quotation mark opens a string. -/
theorem scanOnce_quote (depth : ℕ) (s : Str) :
    scanOnce depth (34 :: s) = (scanString s).map fun (value, rest) => (.string value, rest) := by
  cases depth <;> rfl

theorem scanOnce_encodeString (depth : ℕ) {s : Str} (h : Unpaired s) (rest : Str) :
    scanOnce depth (encodeString s ++ rest) = .ok (.string s, rest) := by
  rw [encodeString_append, scanOnce_quote, scanString_encode h]
  rfl

/-- A bracket opens an array. -/
theorem scanOnce_bracket (depth : ℕ) (s : Str) :
    scanOnce (depth + 1) (91 :: s) =
      (scanContainer (scanOnce depth) 93 (skipSpace s)).map fun (items, rest) =>
        (.array items, rest) :=
  rfl

/-- A brace opens an object. -/
theorem scanOnce_brace (depth : ℕ) (s : Str) :
    scanOnce (depth + 1) (123 :: s) =
      (scanContainer (scanMember (scanOnce depth)) 125 (skipSpace s)).map fun (members, rest) =>
        (.object members, rest) :=
  rfl

/-! ## Containers -/

/-- How a value begins: with no white space, and not with the end of a container. -/
def Begins (text : Str) : Prop :=
  ∃ c rest, text = c :: rest ∧ c ≠ 32 ∧ c ≠ 9 ∧ c ≠ 10 ∧ c ≠ 13 ∧ c ≠ 93 ∧ c ≠ 125

/-- Before a value there is nothing to skip. -/
theorem skipSpace_begins {text : Str} (h : Begins text) (rest : Str) :
    skipSpace (text ++ rest) = text ++ rest := by
  obtain ⟨c, tail, rfl, hspace, htab, hline, hreturn, -, -⟩ := h
  rw [skipSpace, List.cons_append, List.dropWhile_cons_of_neg]
  simp only [Bool.or_eq_true, Bool.and_eq_true, decide_eq_true_eq]
  omega

/-- The elements of a container, with the separator of `json.dumps`. -/
def joinTexts (texts : List Str) : Str := List.intercalate (str ", ") texts

theorem joinTexts_cons {text : Str} {texts : List Str} (h : texts ≠ []) :
    joinTexts (text :: texts) = text ++ 44 :: 32 :: joinTexts texts := by
  rw [joinTexts, List.intercalate_cons_of_ne_nil h, List.append_assoc]
  rfl

section Containers

variable {α : Type} {element : Str → Except ExceptionType (α × Str)} {close : ℕ}

/-- The element is what the scanner reads of its text. -/
structure ReadsBack (element : Str → Except ExceptionType (α × Str)) (found : α × Str) : Prop where
  begins : Begins found.2
  reads : ∀ rest, Ends rest → element (found.2 ++ rest) = .ok (found.1, rest)

/-- A container's text begins as that of its first element does. -/
theorem ReadsBack.begins_joinTexts {p : α × Str} (h : ReadsBack element p)
    (others : List (α × Str)) : Begins (joinTexts ((p :: others).map Prod.snd)) := by
  obtain ⟨c, tail, htail, hc⟩ := h.begins
  rcases eq_or_ne (others.map Prod.snd) [] with hnil | hmore
  · rw [List.map_cons, hnil]
    exact ⟨c, tail, List.intercalate_singleton.trans htail, hc⟩
  · rw [List.map_cons, joinTexts_cons hmore, htail]
    exact ⟨c, _, rfl, hc⟩

theorem ends_close (hclose : close = 93 ∨ close = 125) (rest : Str) : Ends (close :: rest) := by
  intro c hc
  rw [← Option.some.inj hc]
  exact .inr hclose

/-- Elements with commas between them are read one by one. -/
theorem scanElements_join (helement : Consumes element) (hclose : close = 93 ∨ close = 125)
    (rest : Str) :
    ∀ {found : List (α × Str)}, found ≠ [] → (∀ p ∈ found, ReadsBack element p) →
      scanElements element close ((joinTexts (found.map Prod.snd) ++ close :: rest).length + 1)
          (joinTexts (found.map Prod.snd) ++ close :: rest) =
        .ok (found.map Prod.fst, rest) := by
  intro found
  induction found with
  | nil => exact fun hne => absurd rfl hne
  | cons p others ih =>
    intro _ hall
    rw [List.forall_mem_cons] at hall
    rcases eq_or_ne others [] with rfl | hne
    · have hread := hall.1.reads (close :: rest) (ends_close hclose rest)
      have hskip : skipSpace (close :: rest) = close :: rest := by
        rcases hclose with rfl | rfl <;> rfl
      have hjoin : joinTexts ([p].map Prod.snd) = p.2 := List.intercalate_singleton
      rw [hjoin, scanElements, hread]
      simp only [hskip, if_true]
      rfl
    · obtain ⟨q, others', rfl⟩ := List.exists_cons_of_ne_nil hne
      have hbegins := (hall.2 q List.mem_cons_self).begins_joinTexts others'
      have hread := hall.1.reads
        (44 :: 32 :: (joinTexts ((q :: others').map Prod.snd) ++ close :: rest))
        fun c hc => .inl (Option.some.inj hc).symm
      have hcomma : ¬ 44 = close := by
        rcases hclose with rfl | rfl <;> decide
      have hspace : skipSpace (32 :: (joinTexts ((q :: others').map Prod.snd) ++ close :: rest)) =
          joinTexts ((q :: others').map Prod.snd) ++ close :: rest :=
        skipSpace_begins hbegins _
      rw [List.map_cons, joinTexts_cons (by simp), List.append_assoc, List.cons_append,
        List.cons_append, scanElements_comma helement hread hcomma, hspace, ih hne hall.2]
      rfl

/-- **A container is read back** if its elements are. -/
theorem scanContainer_join (helement : Consumes element) (hclose : close = 93 ∨ close = 125)
    (rest : Str) {found : List (α × Str)} (hall : ∀ p ∈ found, ReadsBack element p) :
    scanContainer element close (skipSpace (joinTexts (found.map Prod.snd) ++ close :: rest)) =
      .ok (found.map Prod.fst, rest) := by
  rcases eq_or_ne found [] with rfl | hne
  · have hskip : skipSpace (close :: rest) = close :: rest := by
      rcases hclose with rfl | rfl <;> rfl
    change scanContainer element close (skipSpace (close :: rest)) = _
    rw [hskip]
    exact if_pos rfl
  · obtain ⟨p, others, rfl⟩ := List.exists_cons_of_ne_nil hne
    have hbegins := (hall p List.mem_cons_self).begins_joinTexts others
    have hhead : ¬ (joinTexts ((p :: others).map Prod.snd) ++ close :: rest).head? = some close := by
      obtain ⟨c, tail, htail, -, -, -, -, hbracket, hbrace⟩ := hbegins
      rw [htail]
      intro heq
      obtain rfl : c = close := Option.some.inj heq
      exact hclose.elim hbracket hbrace
    rw [skipSpace_begins hbegins, scanContainer, if_neg hhead]
    exact scanElements_join helement hclose rest hne hall

end Containers

/-! ## Values -/

section Values

variable (interpreter : Interpreter)

mutual

/-- `json.dumps` of a value; `none` is the `ValueError` of an integer of too many digits. -/
def encode : Json → Option Str
  | .null => some (str "null")
  | .bool true => some (str "true")
  | .bool false => some (str "false")
  | .int n => encodeInt n
  | .float .nan => some (str "NaN")
  | .float (.inf false) => some (str "Infinity")
  | .float (.inf true) => some (str "-Infinity")
  -- `float.__repr__`
  | .float (.finite value) => interpreter.repr (.float (.finite value))
  | .string s => some (encodeString s)
  | .array items => (encodeItems items).map fun texts => 91 :: (joinTexts texts ++ [93])
  | .object members => (encodeMembers members).map fun texts => 123 :: (joinTexts texts ++ [125])

def encodeItems : List Json → Option (List Str)
  | [] => some []
  | item :: rest => (encode item).bind fun text => (encodeItems rest).map (text :: ·)

def encodeMembers : List (Str × Json) → Option (List Str)
  | [] => some []
  | (key, value) :: rest => (encode value).bind fun text =>
    (encodeMembers rest).map ((encodeString key ++ 58 :: 32 :: text) :: ·)

end

/-- The values that JSON carries to a reader that can nest `depth` containers. -/
inductive Carried : ℕ → Json → Prop where
  | null {depth : ℕ} : Carried depth .null
  | bool {depth : ℕ} (b : Bool) : Carried depth (.bool b)
  | int {depth : ℕ} (n : ℤ) : Carried depth (.int n)
  | nan {depth : ℕ} : Carried depth (.float .nan)
  | inf {depth : ℕ} (negative : Bool) : Carried depth (.float (.inf negative))
  /-- the interpreter writes the number such that it is read back -/
  | finite {depth : ℕ} {value : ℚ} (h : ∀ text, interpreter.repr (.float (.finite value)) = some text →
      FloatText text value) : Carried depth (.float (.finite value))
  | string {depth : ℕ} {s : Str} (h : Unpaired s) : Carried depth (.string s)
  | array {depth : ℕ} {items : List Json} (h : ∀ item ∈ items, Carried depth item) :
      Carried (depth + 1) (.array items)
  | object {depth : ℕ} {members : List (Str × Json)} (hkeys : ∀ member ∈ members, Unpaired member.1)
      (h : ∀ member ∈ members, Carried depth member.2) : Carried (depth + 1) (.object members)

variable {interpreter}

/-- The elements of an array with their texts. -/
theorem exists_items {items : List Json} : ∀ {texts}, encodeItems interpreter items = some texts →
    ∃ found : List (Json × Str), found.map Prod.fst = items ∧ found.map Prod.snd = texts ∧
      ∀ p ∈ found, encode interpreter p.1 = some p.2 := by
  induction items with
  | nil =>
    intro texts h
    exact ⟨[], rfl, Option.some.inj h, fun p hp => absurd hp List.not_mem_nil⟩
  | cons item rest ih =>
    intro texts h
    obtain ⟨text, htext, h⟩ := Option.bind_eq_some_iff.mp h
    obtain ⟨texts', htexts, rfl⟩ := Option.map_eq_some_iff.mp h
    obtain ⟨found, hfst, hsnd, hall⟩ := ih htexts
    exact ⟨(item, text) :: found, by rw [List.map_cons, hfst], by rw [List.map_cons, hsnd],
      List.forall_mem_cons.mpr ⟨htext, hall⟩⟩

/-- The members of an object with their texts. -/
theorem exists_members {members : List (Str × Json)} : ∀ {texts},
    encodeMembers interpreter members = some texts →
    ∃ found : List ((Str × Json) × Str), found.map Prod.fst = members ∧
      found.map Prod.snd = texts ∧ ∀ p ∈ found, ∃ text, encode interpreter p.1.2 = some text ∧
        p.2 = encodeString p.1.1 ++ 58 :: 32 :: text := by
  induction members with
  | nil =>
    intro texts h
    exact ⟨[], rfl, Option.some.inj h, fun p hp => absurd hp List.not_mem_nil⟩
  | cons member rest ih =>
    intro texts h
    obtain ⟨text, htext, h⟩ := Option.bind_eq_some_iff.mp h
    obtain ⟨texts', htexts, rfl⟩ := Option.map_eq_some_iff.mp h
    obtain ⟨found, hfst, hsnd, hall⟩ := ih htexts
    exact ⟨(member, _) :: found, by rw [List.map_cons, hfst], by rw [List.map_cons, hsnd],
      List.forall_mem_cons.mpr ⟨⟨text, htext, rfl⟩, hall⟩⟩

theorem begins_of_startsNumber {text : Str} (h : StartsNumber text) : Begins text := by
  cases h with
  | @digit c rest h =>
    rw [isAsciiDigit, Bool.and_eq_true, decide_eq_true_eq, decide_eq_true_eq] at h
    exact ⟨c, rest, rfl, by omega, by omega, by omega, by omega, by omega, by omega⟩
  | @minus c rest h =>
    exact ⟨45, c :: rest, rfl, by decide, by decide, by decide, by decide, by decide, by decide⟩

theorem begins_cons {c : ℕ} {rest : Str}
    (h : c ≠ 32 ∧ c ≠ 9 ∧ c ≠ 10 ∧ c ≠ 13 ∧ c ≠ 93 ∧ c ≠ 125) : Begins (c :: rest) :=
  ⟨c, rest, rfl, h⟩

/-- The text of a value begins like one. -/
theorem begins_encode {depth : ℕ} {value : Json} (h : Carried interpreter depth value) {text : Str}
    (htext : encode interpreter value = some text) : Begins text := by
  cases h with
  | null =>
    obtain rfl := Option.some.inj htext
    exact begins_cons (by decide)
  | bool b =>
    cases b <;> obtain rfl := Option.some.inj htext <;> exact begins_cons (by decide)
  | int n => exact begins_of_startsNumber (startsNumber_encodeInt htext)
  | nan =>
    obtain rfl := Option.some.inj htext
    exact begins_cons (by decide)
  | inf negative =>
    cases negative <;> obtain rfl := Option.some.inj htext <;> exact begins_cons (by decide)
  | finite h => exact begins_of_startsNumber (h text htext).starts
  | string h =>
    obtain rfl := Option.some.inj htext
    exact begins_cons (by decide)
  | array h =>
    obtain ⟨texts, -, rfl⟩ := Option.map_eq_some_iff.mp htext
    exact begins_cons (by decide)
  | object hkeys h =>
    obtain ⟨texts, -, rfl⟩ := Option.map_eq_some_iff.mp htext
    exact begins_cons (by decide)

/-! ### ASCII -/

theorem printable_escape {c : ℕ} (hc : c < 0x110000) : ∀ d ∈ escape c, 32 ≤ d ∧ d ≤ 126 := by
  have hhex : ∀ digit < 16, 32 ≤ hexChar digit ∧ hexChar digit ≤ 126 := by decide
  have hunit : ∀ unit < 0x10000, ∀ d ∈ unicodeEscape unit, 32 ≤ d ∧ d ≤ 126 := by
    intro unit hunit
    simp only [unicodeEscape, List.forall_mem_cons, List.not_mem_nil, false_implies, implies_true,
      and_true]
    exact ⟨by decide, by decide, hhex _ (by omega), hhex _ (by omega), hhex _ (by omega),
      hhex _ (by omega)⟩
  have hletters : ∀ entry ∈ shortEscapes, 32 ≤ entry.2 ∧ entry.2 ≤ 126 := by decide
  rw [escape]
  split
  · rename_i letter hshort
    obtain ⟨l₁, l₂, heq, -⟩ := List.lookup_eq_some_iff.mp hshort
    have hletter := hletters (c, letter) (heq ▸ List.mem_append_right l₁ List.mem_cons_self)
    simp only [List.forall_mem_cons, List.not_mem_nil, false_implies, implies_true, and_true]
    exact ⟨by decide, hletter⟩
  · split
    · rename_i hplain
      exact List.forall_mem_singleton.mpr hplain
    · split
      · rename_i hlt
        exact hunit c hlt
      · exact List.forall_mem_append.mpr ⟨hunit _ (by omega), hunit _ (by omega)⟩

theorem printable_encodeString {s : Str} (h : Unpaired s) :
    ∀ c ∈ encodeString s, 32 ≤ c ∧ c ≤ 126 := by
  refine List.forall_mem_cons.mpr ⟨by decide, List.forall_mem_append.mpr ⟨fun d hd => ?_, by decide⟩⟩
  obtain ⟨c, hc, hd⟩ := List.mem_flatMap.mp hd
  exact printable_escape (h.codePoints c hc) d hd

theorem printable_encodeInt {n : ℤ} {text : Str} (h : encodeInt n = some text) :
    ∀ c ∈ text, 32 ≤ c ∧ c ≤ 126 := by
  have hdigits : ∀ c ∈ Str.ofNat n.natAbs, 32 ≤ c ∧ c ≤ 126 := by
    intro c hc
    have hdigit := isAsciiDigit_of_mem_ofNat hc
    rw [isAsciiDigit, Bool.and_eq_true, decide_eq_true_eq, decide_eq_true_eq] at hdigit
    omega
  obtain ⟨-, ⟨-, rfl⟩ | ⟨-, rfl⟩⟩ := encodeInt_eq_some h
  · exact hdigits
  · exact List.forall_mem_cons.mpr ⟨by decide, hdigits⟩

theorem printable_joinTexts {texts : List Str} (h : ∀ text ∈ texts, ∀ c ∈ text, 32 ≤ c ∧ c ≤ 126) :
    ∀ c ∈ joinTexts texts, 32 ≤ c ∧ c ≤ 126 := by
  induction texts with
  | nil => exact fun c hc => absurd hc List.not_mem_nil
  | cons text texts ih =>
    rw [List.forall_mem_cons] at h
    rcases eq_or_ne texts [] with rfl | hne
    · have hjoin : joinTexts [text] = text := List.intercalate_singleton
      rw [hjoin]
      exact h.1
    · rw [joinTexts_cons hne]
      exact List.forall_mem_append.mpr ⟨h.1, List.forall_mem_cons.mpr ⟨by decide,
        List.forall_mem_cons.mpr ⟨by decide, ih h.2⟩⟩⟩

/-- **What is written is printable ASCII.** -/
theorem printable_encode {depth : ℕ} {value : Json} (h : Carried interpreter depth value) :
    ∀ {text}, encode interpreter value = some text → ∀ c ∈ text, 32 ≤ c ∧ c ≤ 126 := by
  induction h with
  | null =>
    intro text htext
    obtain rfl := Option.some.inj htext
    decide
  | bool b =>
    intro text htext
    cases b <;> obtain rfl := Option.some.inj htext <;> decide
  | int n => exact fun htext => printable_encodeInt htext
  | nan =>
    intro text htext
    obtain rfl := Option.some.inj htext
    decide
  | inf negative =>
    intro text htext
    cases negative <;> obtain rfl := Option.some.inj htext <;> decide
  | finite h => exact fun htext => (h _ htext).printable
  | string h =>
    intro text htext
    obtain rfl := Option.some.inj htext
    exact printable_encodeString h
  | array h ih =>
    intro text htext
    obtain ⟨texts, htexts, rfl⟩ := Option.map_eq_some_iff.mp htext
    obtain ⟨found, rfl, rfl, hall⟩ := exists_items htexts
    refine List.forall_mem_cons.mpr ⟨by decide, List.forall_mem_append.mpr ⟨?_, by decide⟩⟩
    exact printable_joinTexts (List.forall_mem_map.mpr fun p hp =>
      ih p.1 (List.mem_map_of_mem hp) (hall p hp))
  | object hkeys h ih =>
    intro text htext
    obtain ⟨texts, htexts, rfl⟩ := Option.map_eq_some_iff.mp htext
    obtain ⟨found, rfl, rfl, hall⟩ := exists_members htexts
    refine List.forall_mem_cons.mpr ⟨by decide, List.forall_mem_append.mpr ⟨?_, by decide⟩⟩
    refine printable_joinTexts (List.forall_mem_map.mpr fun p hp => ?_)
    obtain ⟨text, htext, heq⟩ := hall p hp
    rw [heq]
    exact List.forall_mem_append.mpr ⟨printable_encodeString (hkeys _ (List.mem_map_of_mem hp)),
      List.forall_mem_cons.mpr ⟨by decide, List.forall_mem_cons.mpr ⟨by decide,
        ih _ (List.mem_map_of_mem hp) htext⟩⟩⟩

/-! ### Round trip -/

/-- A member is read back if its value is. -/
theorem readsBack_member {scan : Str → Except ExceptionType (Json × Str)} {key : Str} {value : Json}
    {text : Str} (hkey : Unpaired key) (h : ReadsBack scan (value, text)) :
    ReadsBack (scanMember scan) ((key, value), encodeString key ++ 58 :: 32 :: text) := by
  refine ⟨begins_cons (by decide), fun rest hrest => ?_⟩
  have hvalue : skipSpace (32 :: (text ++ rest)) = text ++ rest := skipSpace_begins h.begins rest
  change scanMember scan (encodeString key ++ 58 :: 32 :: text ++ rest) = _
  rw [List.append_assoc]
  change scanMember scan (encodeString key ++ 58 :: 32 :: (text ++ rest)) = _
  rw [scanMember_encodeString scan hkey, hvalue, h.reads rest hrest]
  rfl

/-- **A value is read back**, up to what follows it. -/
theorem scanOnce_encode {depth : ℕ} {value : Json} (h : Carried interpreter depth value) :
    ∀ {text}, encode interpreter value = some text → ∀ rest, Ends rest →
      scanOnce depth (text ++ rest) = .ok (value, rest) := by
  induction h with
  | @null depth =>
    intro text htext rest _
    obtain rfl := Option.some.inj htext
    exact scanOnce_constant depth rest ("null", .null) (by simp [constants])
  | @bool depth b =>
    intro text htext rest _
    cases b <;> obtain rfl := Option.some.inj htext
    · exact scanOnce_constant depth rest ("false", .bool false) (by simp [constants])
    · exact scanOnce_constant depth rest ("true", .bool true) (by simp [constants])
  | @int depth n =>
    intro text htext rest hrest
    rw [scanOnce_number depth (startsNumber_encodeInt htext), scanNumber_encodeInt htext hrest]
  | @nan depth =>
    intro text htext rest _
    obtain rfl := Option.some.inj htext
    exact scanOnce_constant depth rest ("NaN", .float .nan) (by simp [constants])
  | @inf depth negative =>
    intro text htext rest _
    cases negative <;> obtain rfl := Option.some.inj htext
    · exact scanOnce_constant depth rest ("Infinity", .float (.inf false)) (by simp [constants])
    · exact scanOnce_constant depth rest ("-Infinity", .float (.inf true)) (by simp [constants])
  | @finite depth value h =>
    intro text htext rest hrest
    rw [scanOnce_number depth (h text htext).starts, (h text htext).reads rest hrest]
  | @string depth s h =>
    intro text htext rest _
    obtain rfl := Option.some.inj htext
    exact scanOnce_encodeString depth h rest
  | @array depth items h ih =>
    intro text htext rest _
    obtain ⟨texts, htexts, rfl⟩ := Option.map_eq_some_iff.mp htext
    obtain ⟨found, rfl, rfl, hall⟩ := exists_items htexts
    have hread : ∀ p ∈ found, ReadsBack (scanOnce depth) p := fun p hp =>
      ⟨begins_encode (h p.1 (List.mem_map_of_mem hp)) (hall p hp),
        ih p.1 (List.mem_map_of_mem hp) (hall p hp)⟩
    have hscan := scanContainer_join (consumes_scanOnce depth) (.inl rfl) rest hread
    have htext : 91 :: (joinTexts (found.map Prod.snd) ++ [93]) ++ rest =
        91 :: (joinTexts (found.map Prod.snd) ++ 93 :: rest) := by simp
    rw [htext, scanOnce_bracket, hscan]
    rfl
  | @object depth members hkeys h ih =>
    intro text htext rest _
    obtain ⟨texts, htexts, rfl⟩ := Option.map_eq_some_iff.mp htext
    obtain ⟨found, rfl, rfl, hall⟩ := exists_members htexts
    have hread : ∀ p ∈ found, ReadsBack (scanMember (scanOnce depth)) p := by
      rintro ⟨⟨key, value⟩, text⟩ hp
      obtain ⟨text', htext', htext⟩ := hall _ hp
      have hmem : (key, value) ∈ found.map Prod.fst := List.mem_map_of_mem hp
      obtain rfl : text = encodeString key ++ 58 :: 32 :: text' := htext
      exact readsBack_member (hkeys _ hmem)
        ⟨begins_encode (h _ hmem) htext', ih _ hmem htext'⟩
    have hscan := scanContainer_join (consumes_scanMember (consumes_scanOnce depth))
      (.inr rfl) rest hread
    have htext : 123 :: (joinTexts (found.map Prod.snd) ++ [125]) ++ rest =
        123 :: (joinTexts (found.map Prod.snd) ++ 125 :: rest) := by simp
    rw [htext, scanOnce_brace, hscan]
    rfl

/-- **`json.loads` reads what `json.dumps` writes.** -/
theorem loads_encode {depth : ℕ} {value : Json} (h : Carried interpreter depth value) {text : Str}
    (htext : encode interpreter value = some text) : loads depth text = .ok value := by
  have hskip := skipSpace_begins (begins_encode h htext) []
  have hread := scanOnce_encode h htext [] ends_nil
  have hascii : text.head? ≠ some 0xFEFF := by
    intro hhead
    have hprintable := printable_encode h htext 0xFEFF (List.mem_of_mem_head? hhead)
    omega
  rw [List.append_nil] at hskip hread
  rw [loads, if_neg hascii, hskip, hread]
  rfl

end Values

end ConflictGraph.Py
