import Mathlib.Algebra.Order.Ring.Rat
import Mathlib.Data.Rat.Floor
import ConflictGraph.Outcome
import ConflictGraph.PyText
import ConflictGraph.PyTypes

/-!
# JSON

`json.loads` as CPython computes it: the dialect with `NaN`, `Infinity` and `-Infinity`, a
limit on the digits of an integer, beyond which it raises a plain `ValueError`, and a limit on the
depth of nesting, beyond which it raises `RecursionError`. All its other failures are
`JSONDecodeError`s.
-/

namespace ConflictGraph.Py

/-- A `float`; the sign of a zero is left out. -/
inductive Float64 : Type where
  | nan
  | inf (negative : Bool)
  | finite (value : ℚ)
  deriving DecidableEq

/-- What `json.loads` returns. A later member of an object replaces an earlier one of the
same name; the list has both. -/
inductive Json : Type where
  | null
  | bool (value : Bool)
  | int (value : ℤ)
  | float (value : Float64)
  | string (value : Str)
  | array (items : List Json)
  | object (members : List (Str × Json))

/-- `dict.get`. -/
def Json.lookup (members : List (Str × Json)) (key : String) : Option Json :=
  members.reverse.lookup (str key)

/-! ## Numbers -/

/-- Round to the nearest integer, ties to even. -/
def roundEven (q : ℚ) : ℤ :=
  let down := q.floor
  let rest := q - down
  if 1 / 2 < rest ∨ (rest = 1 / 2 ∧ down % 2 = 1) then down + 1 else down

/-- The exponent of the last bit of the double nearest to a positive number. -/
def ulpExponent (q : ℚ) : ℤ :=
  let guess := (Nat.log2 q.num.natAbs : ℤ) - Nat.log2 q.den
  let exponent := if q < 2 ^ guess then guess - 1 else guess
  max (exponent - 52) (-1074)

/-- The double nearest to a number. -/
def Float64.ofRat (q : ℚ) : Float64 :=
  if q = 0 then .finite 0
  else
    let ulp : ℚ := 2 ^ ulpExponent |q|
    let magnitude := roundEven (|q| / ulp) * ulp
    if 2 ^ (1024 : ℕ) ≤ magnitude then .inf (q < 0)
    else .finite (if q < 0 then -magnitude else magnitude)

/-- An ASCII digit. -/
def isAsciiDigit (c : ℕ) : Bool := 48 ≤ c && c ≤ 57

/-- The number that ASCII digits denote. -/
def decimalOf (digits : Str) : ℕ := digits.foldl (fun n c => 10 * n + (c - 48)) 0

/-- `sys.get_int_max_str_digits()`. -/
def maxStrDigits : ℕ := 4300

/-- A minus sign, if there is one. -/
def scanSign (s : Str) : Bool × Str := if s.head? = some 45 then (true, s.tail) else (false, s)

/-- The whole part of a number: a zero, or digits. -/
def scanWhole (s : Str) : Str × Str :=
  if s.head? = some 48 then ([48], s.tail)
  else (s.takeWhile isAsciiDigit, s.dropWhile isAsciiDigit)

/-- The digits of a fraction part, if there is one. -/
def scanFraction (s : Str) : Str × Str :=
  if s.head? = some 46 ∧ s.tail.takeWhile isAsciiDigit ≠ [] then
    (s.tail.takeWhile isAsciiDigit, s.tail.dropWhile isAsciiDigit)
  else ([], s)

/-- An exponent part, if there is one. -/
def scanExponent (s : Str) : Option ℤ × Str :=
  let (negative, digits) :=
    if s.tail.head? = some 43 then (false, s.tail.tail) else scanSign s.tail
  if (s.head? = some 101 ∨ s.head? = some 69) ∧ digits.takeWhile isAsciiDigit ≠ [] then
    let exponent : ℤ := decimalOf (digits.takeWhile isAsciiDigit)
    (some (if negative then -exponent else exponent), digits.dropWhile isAsciiDigit)
  else (none, s)

/-- The number of its parts, unless it is an integer of too many digits. -/
def numberOf (negative : Bool) (whole fraction : Str) (exponent : Option ℤ) :
    Except ExceptionType Json :=
  let sign : ℤ := if negative then -1 else 1
  if fraction = [] ∧ exponent = none then
    if maxStrDigits < whole.length then .error .valueError
    else .ok (.int (sign * decimalOf whole))
  else
    .ok (.float (.ofRat
      (sign * decimalOf (whole ++ fraction) * 10 ^ (exponent.getD 0 - fraction.length))))

/-- `_match_number_unicode`. -/
def scanNumber (s : Str) : Except ExceptionType (Json × Str) :=
  let (negative, s) := scanSign s
  let (whole, s) := scanWhole s
  let (fraction, s) := scanFraction s
  let (exponent, s) := scanExponent s
  if whole = [] then .error .jsonDecodeError
  else (numberOf negative whole fraction exponent).map fun value => (value, s)

/-! ## Strings -/

/-- The value of a hexadecimal digit. -/
def hexDigit (c : ℕ) : Option ℕ :=
  if isAsciiDigit c then some (c - 48)
  else if 97 ≤ c ∧ c ≤ 102 then some (c - 87)
  else if 65 ≤ c ∧ c ≤ 70 then some (c - 55)
  else none

/-- The value of four hexadecimal digits. -/
def hex4 (a b c d : ℕ) : Option ℕ := do
  return 4096 * (← hexDigit a) + 256 * (← hexDigit b) + 16 * (← hexDigit c) + (← hexDigit d)

/-- The character of a one-letter escape. -/
def simpleEscape (c : ℕ) : Option ℕ :=
  if c = 34 ∨ c = 92 ∨ c = 47 then some c
  else if c = 98 then some 8
  else if c = 102 then some 12
  else if c = 110 then some 10
  else if c = 114 then some 13
  else if c = 116 then some 9
  else none

/-- A string after its opening quote, as code units, each with whether it was written as
a `\u` escape. -/
def scanUnits : Str → Except ExceptionType (List (ℕ × Bool) × Str)
  | [] => .error .jsonDecodeError
  | c :: rest =>
    if c = 34 then .ok ([], rest)
    else if c = 92 then
      match rest with
      | [] => .error .jsonDecodeError
      | e :: rest =>
        if e = 117 then
          match rest with
          | h₁ :: h₂ :: h₃ :: h₄ :: rest =>
            match hex4 h₁ h₂ h₃ h₄ with
            | some unit => (scanUnits rest).map fun (units, rest) => ((unit, true) :: units, rest)
            | none => .error .jsonDecodeError
          | _ => .error .jsonDecodeError
        else
          match simpleEscape e with
          | some unit => (scanUnits rest).map fun (units, rest) => ((unit, false) :: units, rest)
          | none => .error .jsonDecodeError
    else if c < 32 then .error .jsonDecodeError
    else (scanUnits rest).map fun (units, rest) => ((c, false) :: units, rest)

/-- An escaped high surrogate and an escaped low one right after it are one character. -/
def joinSurrogates : List (ℕ × Bool) → Str
  | (high, true) :: (low, true) :: rest =>
    if 0xD800 ≤ high ∧ high ≤ 0xDBFF ∧ 0xDC00 ≤ low ∧ low ≤ 0xDFFF then
      (0x10000 + 1024 * (high - 0xD800) + (low - 0xDC00)) :: joinSurrogates rest
    else high :: joinSurrogates ((low, true) :: rest)
  | (c, _) :: rest => c :: joinSurrogates rest
  | [] => []

/-- `scanstring_unicode`. -/
def scanString (s : Str) : Except ExceptionType (Str × Str) :=
  (scanUnits s).map fun (units, rest) => (joinSurrogates units, rest)

/-! ## Values -/

/-- Skip JSON white space. -/
def skipSpace (s : Str) : Str := s.dropWhile fun c => c = 32 || (9 ≤ c && c ≤ 10) || c = 13

/-- The elements of a container after its opening bracket, of which there is at least one.
Each takes some text, so `fuel` bounds their number. -/
def scanElements {α : Type} (element : Str → Except ExceptionType (α × Str)) (close : ℕ) :
    ℕ → Str → Except ExceptionType (List α × Str)
  | 0, _ => .error .jsonDecodeError
  | fuel + 1, s =>
    match element s with
    | .error e => .error e
    | .ok (item, rest) =>
      match skipSpace rest with
      | [] => .error .jsonDecodeError
      | c :: rest =>
        if c = close then .ok ([item], rest)
        else if c = 44 then
          (scanElements element close fuel (skipSpace rest)).map fun (items, rest) =>
            (item :: items, rest)
        else .error .jsonDecodeError

/-- A member of an object: a name, a colon and a value. -/
def scanMember (value : Str → Except ExceptionType (Json × Str)) (s : Str) :
    Except ExceptionType ((Str × Json) × Str) :=
  if s.head? = some 34 then
    match scanString s.tail with
    | .error e => .error e
    | .ok (name, rest) =>
      match skipSpace rest with
      | [] => .error .jsonDecodeError
      | c :: rest =>
        if c = 58 then
          (value (skipSpace rest)).map fun (value, rest) => ((name, value), rest)
        else .error .jsonDecodeError
  else .error .jsonDecodeError

/-- The rest of the text after a word. -/
def dropWord (s : Str) (word : String) : Option Str := s.dropPrefix? (str word)

/-- The rest of a container after its opening bracket. -/
def scanContainer {α : Type} (element : Str → Except ExceptionType (α × Str)) (close : ℕ)
    (s : Str) : Except ExceptionType (List α × Str) :=
  if s.head? = some close then .ok ([], s.tail) else scanElements element close (s.length + 1) s

/-- The words that are values. -/
def constants : List (String × Json) :=
  [("null", .null), ("true", .bool true), ("false", .bool false), ("NaN", .float .nan),
    ("Infinity", .float (.inf false)), ("-Infinity", .float (.inf true))]

/-- `scan_once_unicode`; `inner` scans the values inside a container, unless the limit of
nesting is reached. -/
def scanValue (inner : Option (Str → Except ExceptionType (Json × Str))) (s : Str) :
    Except ExceptionType (Json × Str) :=
  match s with
  | [] => .error .jsonDecodeError
  | c :: rest =>
    if c = 34 then (scanString rest).map fun (value, rest) => (.string value, rest)
    else if c = 123 then
      match inner with
      | none => .error .recursionError
      | some value =>
        (scanContainer (scanMember value) 125 (skipSpace rest)).map fun (members, rest) =>
          (.object members, rest)
    else if c = 91 then
      match inner with
      | none => .error .recursionError
      | some value =>
        (scanContainer value 93 (skipSpace rest)).map fun (items, rest) => (.array items, rest)
    else
      match constants.findSome? fun (word, value) => (dropWord s word).map fun rest => (value, rest) with
      | some found => .ok found
      | none => scanNumber s

/-- A value in which at most `depth` containers are nested. -/
def scanOnce : ℕ → Str → Except ExceptionType (Json × Str)
  | 0 => scanValue none
  | depth + 1 => scanValue (some (scanOnce depth))

/-- `json.loads`, called where the interpreter's stack has room for `depth` containers. -/
def loads (depth : ℕ) (s : Str) : Except ExceptionType Json := do
  if s.head? = some 0xFEFF then .error .jsonDecodeError
  else
    let (value, rest) ← scanOnce depth (skipSpace s)
    if skipSpace rest = [] then .ok value else .error .jsonDecodeError

/-! ## The scanner takes text -/

/-- Whatever `scan` reads, it takes some text. -/
def Consumes {α : Type} (scan : Str → Except ExceptionType (α × Str)) : Prop :=
  ∀ {s rest a}, scan s = .ok (a, rest) → rest.length < s.length

theorem skipSpace_length_le (s : Str) : (skipSpace s).length ≤ s.length :=
  List.length_dropWhile_le ..

/-- What is done with a value leaves the rest of the text. -/
theorem exists_eq_ok_of_map {α β : Type} {r : Except ExceptionType (α × Str)}
    {f : α × Str → β × Str} {b : β} {rest : Str} (h : r.map f = .ok (b, rest))
    (hf : ∀ p, (f p).2 = p.2) : ∃ a, r = .ok (a, rest) := by
  rcases r with e | ⟨a, rest'⟩
  · cases h
  · have hrest : (f (a, rest')).2 = rest := congrArg Prod.snd (Except.ok.inj h)
    rw [hf] at hrest
    exact ⟨a, hrest ▸ rfl⟩

theorem consumes_scanUnits : Consumes scanUnits := by
  intro s
  fun_induction scanUnits s with
  | case2 rest =>
    intro rest' a h
    obtain ⟨-, rfl⟩ := Prod.mk.inj (Except.ok.inj h)
    exact Nat.lt_succ_self _
  | case4 h₁ h₂ h₃ h₄ rest unit hunit h34 ih =>
    intro rest' a h
    obtain ⟨units, hunits⟩ := exists_eq_ok_of_map h fun _ => rfl
    have := ih hunits
    simp only [List.length_cons]
    omega
  | case7 e rest he unit hunit h34 ih =>
    intro rest' a h
    obtain ⟨units, hunits⟩ := exists_eq_ok_of_map h fun _ => rfl
    have := ih hunits
    simp only [List.length_cons]
    omega
  | case10 c rest h34 h92 h32 ih =>
    intro rest' a h
    obtain ⟨units, hunits⟩ := exists_eq_ok_of_map h fun _ => rfl
    exact Nat.lt_succ_of_lt (ih hunits)
  | _ => exact fun h => nomatch h

/-- A string takes at least its quote. -/
theorem consumes_scanString : Consumes scanString := by
  intro s rest a h
  obtain ⟨units, hunits⟩ := exists_eq_ok_of_map h fun _ => rfl
  exact consumes_scanUnits hunits

theorem scanSign_length_le (s : Str) : (scanSign s).2.length ≤ s.length := by
  rw [scanSign]
  split
  · exact (List.tail_sublist s).length_le
  · exact Nat.le_refl _

theorem scanFraction_length_le (s : Str) : (scanFraction s).2.length ≤ s.length := by
  rw [scanFraction]
  split
  · exact (List.length_dropWhile_le ..).trans ((List.tail_sublist s).length_le)
  · exact Nat.le_refl _

theorem scanExponent_length_le (s : Str) : (scanExponent s).2.length ≤ s.length := by
  rw [scanExponent]
  split
  rename_i negative digits hdigits
  split
  · have hle : digits.length ≤ s.tail.length := by
      split at hdigits
      · obtain ⟨-, rfl⟩ := Prod.mk.inj hdigits
        exact (List.tail_sublist _).length_le
      · have hlen := scanSign_length_le s.tail
        rwa [hdigits] at hlen
    exact (List.length_dropWhile_le ..).trans (hle.trans ((List.tail_sublist s).length_le))
  · exact Nat.le_refl _

/-- A whole part is as long as the text it takes. -/
theorem scanWhole_length (s : Str) :
    (scanWhole s).1.length + (scanWhole s).2.length = s.length := by
  rw [scanWhole]
  split
  · rename_i hzero
    cases s with
    | nil => cases hzero
    | cons c rest => exact Nat.add_comm ..
  · rw [← List.length_append, List.takeWhile_append_dropWhile]

/-- A number takes at least a digit. -/
theorem consumes_scanNumber : Consumes scanNumber := by
  intro s rest a h
  have hsign := scanSign_length_le s
  have hwhole := scanWhole_length (scanSign s).2
  have hfraction := scanFraction_length_le (scanWhole (scanSign s).2).2
  have hexponent := scanExponent_length_le (scanFraction (scanWhole (scanSign s).2).2).2
  simp only [scanNumber] at h
  split at h
  · cases h
  · rename_i hne
    have hpos := List.length_pos_iff.mpr hne
    rcases hn : numberOf (scanSign s).1 (scanWhole (scanSign s).2).1
        (scanFraction (scanWhole (scanSign s).2).2).1
        (scanExponent (scanFraction (scanWhole (scanSign s).2).2).2).1 with e | value
    · rw [hn] at h
      cases h
    · rw [hn] at h
      obtain ⟨-, rfl⟩ := Prod.mk.inj (Except.ok.inj h)
      omega

theorem constants_ne_nil : ∀ entry ∈ constants, str entry.1 ≠ [] := by decide

theorem dropWord_length_lt {s rest : Str} {word : String} (h : dropWord s word = some rest)
    (hword : str word ≠ []) : rest.length < s.length := by
  obtain ⟨front, rfl, hfront⟩ := List.dropPrefix?_eq_some_iff.mp h
  obtain rfl := eq_of_beq hfront
  rw [List.length_append]
  exact Nat.lt_add_of_pos_left (List.length_pos_iff.mpr hword)

/-- Elements take at least the bracket that closes them. -/
theorem consumes_scanElements {α : Type} {element : Str → Except ExceptionType (α × Str)}
    (helement : Consumes element) (close fuel : ℕ) : Consumes (scanElements element close fuel) := by
  induction fuel with
  | zero => exact fun h => nomatch h
  | succ fuel ih =>
    intro s rest a h
    rw [scanElements] at h
    split at h
    · cases h
    · rename_i item after hitem
      have hlt := helement hitem
      have hskip := skipSpace_length_le after
      split at h
      · cases h
      · rename_i c after' hafter
        rw [hafter, List.length_cons] at hskip
        split at h
        · obtain ⟨-, rfl⟩ := Prod.mk.inj (Except.ok.inj h)
          omega
        · split at h
          · obtain ⟨items, hitems⟩ := exists_eq_ok_of_map h fun _ => rfl
            have hskip' := skipSpace_length_le after'
            have := ih hitems
            omega
          · cases h

theorem scanContainer_length_le {α : Type} {element : Str → Except ExceptionType (α × Str)}
    (helement : Consumes element) {close : ℕ} {s rest : Str} {items : List α}
    (h : scanContainer element close s = .ok (items, rest)) : rest.length ≤ s.length := by
  rw [scanContainer] at h
  split at h
  · obtain ⟨-, rfl⟩ := Prod.mk.inj (Except.ok.inj h)
    exact (List.tail_sublist s).length_le
  · exact (consumes_scanElements helement _ _ h).le

theorem consumes_scanMember {value : Str → Except ExceptionType (Json × Str)}
    (hvalue : Consumes value) : Consumes (scanMember value) := by
  intro s rest a h
  rw [scanMember] at h
  split at h
  · split at h
    · cases h
    · rename_i name after hname
      have hlt := consumes_scanString hname
      have htail := (List.tail_sublist s).length_le
      have hskip := skipSpace_length_le after
      split at h
      · cases h
      · rename_i c after' hafter
        rw [hafter, List.length_cons] at hskip
        split at h
        · obtain ⟨v, hv⟩ := exists_eq_ok_of_map h fun _ => rfl
          have hskip' := skipSpace_length_le after'
          have := hvalue hv
          omega
        · cases h
  · cases h

/-- As soon as it exceeds the text, the fuel of a container does not matter. -/
theorem scanElements_fuel {α : Type} {element : Str → Except ExceptionType (α × Str)}
    (helement : Consumes element) (close : ℕ) :
    ∀ {n m : ℕ} {s : Str}, s.length < n → s.length < m →
      scanElements element close n s = scanElements element close m s := by
  intro n
  induction n with
  | zero => exact fun h => absurd h (Nat.not_lt_zero _)
  | succ n ih =>
    intro m s hn hm
    obtain ⟨m, rfl⟩ := Nat.exists_eq_succ_of_ne_zero (Nat.ne_zero_of_lt hm)
    rw [scanElements, scanElements]
    rcases hitem : element s with e | ⟨item, after⟩
    · rfl
    · have hlt := helement hitem
      have hskip := skipSpace_length_le after
      rcases hafter : skipSpace after with _ | ⟨c, after'⟩
      · simp only [hafter]
      · rw [hafter, List.length_cons] at hskip
        have hskip' := skipSpace_length_le after'
        have hrest : scanElements element close n (skipSpace after') =
            scanElements element close m (skipSpace after') := ih (by omega) (by omega)
        simp only [hafter, hrest]

/-- **The loop of a container**, with the fuel that it is given: what follows a comma is scanned
with as much as it needs itself. -/
theorem scanElements_comma {α : Type} {element : Str → Except ExceptionType (α × Str)}
    (helement : Consumes element) {close : ℕ} {s after : Str} {item : α}
    (hitem : element s = .ok (item, 44 :: after)) (hclose : ¬ 44 = close) :
    scanElements element close (s.length + 1) s =
      (scanElements element close ((skipSpace after).length + 1) (skipSpace after)).map
        fun (items, rest) => (item :: items, rest) := by
  have hlt := helement hitem
  have hskip := skipSpace_length_le after
  have hcomma : skipSpace (44 :: after) = 44 :: after := rfl
  rw [List.length_cons] at hlt
  rw [scanElements, hitem]
  simp only [hcomma, if_neg hclose, if_true]
  rw [scanElements_fuel helement close (m := (skipSpace after).length + 1) (by omega) (by omega)]

/-- A value takes something. -/
theorem consumes_scanValue {inner : Option (Str → Except ExceptionType (Json × Str))}
    (hinner : ∀ value ∈ inner, Consumes value) : Consumes (scanValue inner) := by
  intro s rest a h
  rw [scanValue.eq_def] at h
  split at h
  · cases h
  · rename_i c after
    have hskip := skipSpace_length_le after
    split at h
    · obtain ⟨value, hvalue⟩ := exists_eq_ok_of_map h fun _ => rfl
      exact Nat.lt_succ_of_lt (consumes_scanString hvalue)
    · split at h
      · split at h
        · cases h
        · rename_i value
          obtain ⟨members, hmembers⟩ := exists_eq_ok_of_map h fun _ => rfl
          have hle := scanContainer_length_le (consumes_scanMember (hinner value rfl)) hmembers
          exact Nat.lt_succ_of_le (hle.trans hskip)
      · split at h
        · split at h
          · cases h
          · rename_i value
            obtain ⟨items, hitems⟩ := exists_eq_ok_of_map h fun _ => rfl
            exact Nat.lt_succ_of_le ((scanContainer_length_le (hinner value rfl) hitems).trans hskip)
        · split at h
          · rename_i found hfound
            obtain rfl := Except.ok.inj h
            obtain ⟨⟨word, value⟩, hmem, hword⟩ := List.exists_of_findSome?_eq_some hfound
            obtain ⟨rest', hdrop, heq⟩ := Option.map_eq_some_iff.mp hword
            obtain ⟨-, rfl⟩ := Prod.mk.inj heq
            exact dropWord_length_lt hdrop (constants_ne_nil _ hmem)
          · exact consumes_scanNumber h

/-- **The scanner terminates by consuming its text.** -/
theorem consumes_scanOnce (depth : ℕ) : Consumes (scanOnce depth) := by
  induction depth with
  | zero => exact consumes_scanValue fun _ h => absurd h (Option.not_mem_none _)
  | succ depth ih => exact consumes_scanValue fun _ h => Option.some.inj h ▸ ih

/-! ## What the scanner raises -/

/-- Whatever goes wrong is a `ValueError`, which mostly is a `JSONDecodeError`, or a
`RecursionError`. -/
def Raises {α : Type} (scan : Str → Except ExceptionType (α × Str)) : Prop :=
  ∀ {s e}, scan s = .error e → e = .jsonDecodeError ∨ e = .valueError ∨ e = .recursionError

/-- A string cannot go wrong otherwise than by its text. -/
theorem scanUnits_error : ∀ {s e}, scanUnits s = .error e → e = .jsonDecodeError := by
  intro s
  fun_induction scanUnits s with
  | case2 => exact fun h => nomatch h
  | case4 _ _ _ _ _ _ _ _ ih => exact fun h => ih (eq_error_of_map_eq_error h)
  | case7 _ _ _ _ _ _ ih => exact fun h => ih (eq_error_of_map_eq_error h)
  | case10 _ _ _ _ _ ih => exact fun h => ih (eq_error_of_map_eq_error h)
  | _ => exact fun h => (Except.error.inj h).symm

theorem scanString_error {s : Str} {e : ExceptionType} (h : scanString s = .error e) :
    e = .jsonDecodeError :=
  scanUnits_error (eq_error_of_map_eq_error h)

/-- A number can be too long, or miss. -/
theorem raises_scanNumber : Raises scanNumber := by
  intro s e h
  simp only [scanNumber] at h
  split at h
  · exact .inl (Except.error.inj h).symm
  · have hnumber := eq_error_of_map_eq_error h
    simp only [numberOf] at hnumber
    split at hnumber
    · split at hnumber
      · exact .inr (.inl (Except.error.inj hnumber).symm)
      · cases hnumber
    · cases hnumber

/-- Elements raise what one of them raises, or miss something. -/
theorem raises_scanElements {α : Type} {element : Str → Except ExceptionType (α × Str)}
    (helement : Raises element) (close fuel : ℕ) : Raises (scanElements element close fuel) := by
  induction fuel with
  | zero => exact fun h => .inl (Except.error.inj h).symm
  | succ fuel ih =>
    intro s e h
    rw [scanElements] at h
    split at h
    · rename_i hitem
      exact Except.error.inj h ▸ helement hitem
    · split at h
      · exact .inl (Except.error.inj h).symm
      · split at h
        · cases h
        · split at h
          · exact ih (eq_error_of_map_eq_error h)
          · exact .inl (Except.error.inj h).symm

theorem raises_scanContainer {α : Type} {element : Str → Except ExceptionType (α × Str)}
    (helement : Raises element) (close : ℕ) : Raises (scanContainer element close) := by
  intro s e h
  rw [scanContainer] at h
  split at h
  · cases h
  · exact raises_scanElements helement _ _ h

theorem raises_scanMember {value : Str → Except ExceptionType (Json × Str)}
    (hvalue : Raises value) : Raises (scanMember value) := by
  intro s e h
  rw [scanMember] at h
  split at h
  · split at h
    · rename_i hname
      exact Except.error.inj h ▸ .inl (scanString_error hname)
    · split at h
      · exact .inl (Except.error.inj h).symm
      · split at h
        · exact hvalue (eq_error_of_map_eq_error h)
        · exact .inl (Except.error.inj h).symm
  · exact .inl (Except.error.inj h).symm

/-- Nothing else is raised of a value. -/
theorem raises_scanValue {inner : Option (Str → Except ExceptionType (Json × Str))}
    (hinner : ∀ value ∈ inner, Raises value) : Raises (scanValue inner) := by
  intro s e h
  rw [scanValue.eq_def] at h
  split at h
  · exact .inl (Except.error.inj h).symm
  · split at h
    · exact .inl (scanString_error (eq_error_of_map_eq_error h))
    · split at h
      · split at h
        · exact .inr (.inr (Except.error.inj h).symm)
        · exact raises_scanContainer (raises_scanMember (hinner _ rfl)) _ (eq_error_of_map_eq_error h)
      · split at h
        · split at h
          · exact .inr (.inr (Except.error.inj h).symm)
          · exact raises_scanContainer (hinner _ rfl) _ (eq_error_of_map_eq_error h)
        · split at h
          · cases h
          · exact raises_scanNumber h

/-- At whatever depth. -/
theorem raises_scanOnce (depth : ℕ) : Raises (scanOnce depth) := by
  induction depth with
  | zero => exact raises_scanValue fun _ h => absurd h (Option.not_mem_none _)
  | succ depth ih => exact raises_scanValue fun _ h => Option.some.inj h ▸ ih

/-- **`json.loads` raises `ValueError` or `RecursionError`**, and nothing else. -/
theorem loads_error {depth : ℕ} {s : Str} {e : ExceptionType} (h : loads depth s = .error e) :
    e = .jsonDecodeError ∨ e = .valueError ∨ e = .recursionError := by
  rw [loads] at h
  split at h
  · exact .inl (Except.error.inj h).symm
  · rcases bind_eq_error_iff.mp h with h | ⟨⟨value, rest⟩, -, h⟩
    · exact raises_scanOnce depth h
    · by_cases hrest : skipSpace rest = []
      · simp only [hrest, if_pos] at h
        cases h
      · simp only [hrest, if_false] at h
        exact .inl (Except.error.inj h).symm

end ConflictGraph.Py
