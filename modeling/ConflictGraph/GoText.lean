import Mathlib.Data.List.DropRight
import ConflictGraph.Utf8Text

/-!
# Go's text functions

What the executor uses of `bufio`, `strings` and `unicode`. A string of Go is a sequence of bytes,
which may not be a text: output that is cut is none. Where the executor has texts only, its strings
are sequences of characters.
-/

namespace ConflictGraph.Go

/-! ## Lines -/

/-- `bufio.MaxScanTokenSize`. -/
def maxScanTokenSize : ℕ := 65536

section Scanner

variable {α : Type*} [DecidableEq α]

/-- `dropCR`. -/
def dropCR (cr : α) (line : List α) : List α :=
  if line.getLast? = some cr then line.dropLast else line

/-- The lines of the data, each with its line feed taken off. What follows the last line feed is a
line if it is not empty. -/
def rawLines (newline : α) (data : List α) : List (List α) :=
  let parts := data.splitOn newline
  if parts.getLast? = some [] then parts.dropLast else parts

/-- The tokens of a `bufio.Scanner` with `bufio.ScanLines`, and whether it stops with
`bufio.ErrTooLong`. A line has to fit into its buffer together with one more byte: the line feed, or
what is read to see that there is none. -/
def scanLines (newline cr : α) (size : List α → ℕ) (data : List α) : List (List α) × Bool :=
  (((rawLines newline data).takeWhile fun line => size line < maxScanTokenSize).map (dropCR cr),
    (rawLines newline data).any fun line => maxScanTokenSize ≤ size line)

/-- A line is followed by the lines of the rest. -/
theorem rawLines_append_cons {newline : α} {line : List α} (h : newline ∉ line) (rest : List α) :
    rawLines newline (line ++ newline :: rest) = line :: rawLines newline rest := by
  have hline : ∀ c ∈ line, (c == newline) = false := by
    intro c hc
    exact beq_false_of_ne fun heq => h (heq ▸ hc)
  have hsplit : (line ++ newline :: rest).splitOn newline = line :: rest.splitOn newline := by
    rw [List.splitOn_eq_splitOnP, List.splitOn_eq_splitOnP,
      List.splitOnP_append_cons_of_forall_mem hline _ (BEq.refl newline)]
  obtain ⟨first, others, hrest⟩ := List.exists_cons_of_ne_nil (List.splitOn_ne_nil newline rest)
  simp only [rawLines, hsplit, hrest, List.getLast?_cons_cons, List.dropLast_cons_cons]
  split
  · rfl
  · rfl

end Scanner

/-! ## White space -/

/-- The code points with the property `White_Space`. -/
def whiteSpace : List Char :=
  [9, 10, 11, 12, 13, 32, 0x85, 0xA0, 0x1680, 0x2000, 0x2001, 0x2002, 0x2003, 0x2004, 0x2005,
    0x2006, 0x2007, 0x2008, 0x2009, 0x200A, 0x2028, 0x2029, 0x202F, 0x205F, 0x3000].map Char.ofNat

/-- `unicode.IsSpace`. -/
def isSpace (c : Char) : Bool := c ∈ whiteSpace

/-- `strings.TrimSpace` of a text. -/
def trimSpace (text : List Char) : List Char := (text.dropWhile isSpace).rdropWhile isSpace

/-- Take off white space with `drop`, which takes one character off, `fuel` times at most. -/
def trimWith (drop : List UInt8 → List UInt8 → Option (List UInt8)) :
    ℕ → List UInt8 → List UInt8
  | 0, bytes => bytes
  | fuel + 1, bytes =>
    (whiteSpace.findSome? fun c => drop bytes (String.utf8EncodeChar c)).elim bytes
      (trimWith drop fuel)

/-- `strings.TrimSpace` of bytes. What is ill-formed is no white space. -/
def trimSpaceBytes (bytes : List UInt8) : List UInt8 :=
  let left := trimWith List.dropPrefix? bytes.length bytes
  trimWith List.dropSuffix? left.length left

/-! ## Words -/

/-- `unicode.ToLower`, up to what is lowered to no ASCII letter. Of the characters beyond ASCII, two
are lowered to one: `İ` and the sign of kelvin. -/
def toLower (c : Char) : Char :=
  if c.toNat = 0x130 then 'i' else if c.toNat = 0x212A then 'k' else c.toLower

/-- `strings.Contains(strings.ToLower(line), word)` for a word in lower ASCII letters. What is
ill-formed, `none` here, is U+FFFD in the result of `ToLower`. -/
def mentions (word : String) (line : List UInt8) : Bool :=
  decide (word.toList.map some <:+: (Utf8.decode none line).map (Option.map toLower))

example : mentions "failed" "FAİLED".toUTF8.toList = true := by decide +kernel

/-! ## Bytes that are a text -/

open Utf8

/-- The length of a line in bytes. -/
def lineSize (line : List Char) : ℕ := (encode line).length

theorem encode_eq_nil_iff {text : List Char} : encode text = [] ↔ text = [] :=
  encode_injective.eq_iff (b := [])

theorem rawLines_encode (text : List Char) :
    rawLines 10 (encode text) = (rawLines '\n' text).map encode := by
  have hsplit : (encode text).splitOn 10 = (text.splitOn '\n').map encode :=
    splitOn_encode (d := '\n') (by decide) text
  have hlast : ((text.splitOn '\n').map encode).getLast? = some [] ↔
      (text.splitOn '\n').getLast? = some [] := by
    rw [List.getLast?_map]
    cases (text.splitOn '\n').getLast? with
    | none => simp
    | some line => simp [encode_eq_nil_iff]
  rw [rawLines, rawLines, hsplit]
  simp only [hlast]
  split
  · rw [List.map_dropLast]
  · rfl

theorem dropCR_encode (line : List Char) : dropCR 13 (encode line) = encode (dropCR '\r' line) := by
  have hlast : (encode line).getLast? = some 13 ↔ line.getLast? = some '\r' := by
    refine ⟨fun h => ?_, fun h => ?_⟩
    · have hline : (encode line).dropLast ++ String.utf8EncodeChar '\r' = encode line :=
        List.dropLast_append_getLast? _ h
      obtain ⟨before, rfl, -⟩ := exists_of_append_encodeChar hline
      exact List.getLast?_concat
    · rw [← List.dropLast_append_getLast? _ h, encode_append]
      exact List.getLast?_concat
  rw [dropCR, dropCR]
  simp only [hlast]
  split
  · rename_i h
    rw [← List.dropLast_append_getLast? _ h, encode_append, List.dropLast_concat]
    exact List.dropLast_concat
  · rfl

/-- **The tokens of a text** are the bytes of its lines. -/
theorem scanLines_encode (text : List Char) : scanLines 10 13 List.length (encode text) =
    ((scanLines '\n' '\r' lineSize text).1.map encode, (scanLines '\n' '\r' lineSize text).2) := by
  rw [scanLines, rawLines_encode, List.takeWhile_map, List.map_map, List.any_map, scanLines,
    List.map_map]
  exact congrArg₂ Prod.mk (List.map_congr_left fun line _ => dropCR_encode line) rfl

/-- White space is looked for in order, and at most one character is found. -/
theorem findSome?_eq_ite {f : Char → Option (List UInt8)} {c : Char} {rest : List UInt8}
    (h : ∀ d, f d = if d = c then some rest else none) (chars : List Char) :
    chars.findSome? f = if c ∈ chars then some rest else none := by
  induction chars with
  | nil => rfl
  | cons d chars ih =>
    rw [List.findSome?_cons, h, ih]
    by_cases hd : d = c
    · simp [hd]
    · simp [hd, Ne.symm hd]

theorem dropPrefix?_encode (c d : Char) (text : List Char) :
    (encode (c :: text)).dropPrefix? (String.utf8EncodeChar d) =
      if d = c then some (encode text) else none := by
  split
  · rename_i h
    rw [h, List.dropPrefix?_eq_some_iff]
    exact ⟨_, encode_cons c text, BEq.refl _⟩
  · rename_i h
    refine Option.eq_none_iff_forall_ne_some.mpr fun rest hrest => ?_
    obtain ⟨word, heq, hword⟩ := List.dropPrefix?_eq_some_iff.mp hrest
    have happend : encode [d] ++ rest = encode (c :: text) := by
      rw [heq, eq_of_beq hword, encode_cons, encode_nil, List.append_nil]
    exact h (List.cons_prefix_cons.mp (prefix_of_encode_append happend)).1

theorem dropSuffix?_encode (c d : Char) (text : List Char) :
    (encode (text ++ [c])).dropSuffix? (String.utf8EncodeChar d) =
      if d = c then some (encode text) else none := by
  split
  · rename_i h
    rw [h, List.dropSuffix?_eq_some_iff]
    exact ⟨_, by rw [encode_append, encode_cons, encode_nil, List.append_nil], BEq.refl _⟩
  · rename_i h
    refine Option.eq_none_iff_forall_ne_some.mpr fun rest hrest => ?_
    obtain ⟨word, heq, hword⟩ := List.dropSuffix?_eq_some_iff.mp hrest
    rw [eq_of_beq hword] at heq
    obtain ⟨before, hbefore, -⟩ := exists_of_append_encodeChar heq.symm
    exact h (List.append_inj_right' hbefore rfl |> List.cons.inj).1.symm

section Trim

variable {drop : List UInt8 → List UInt8 → Option (List UInt8)} {bytes rest : List UInt8} {c : Char}

/-- White space is taken off if it is found where `drop` looks. -/
theorem trimWith_succ
    (h : ∀ d, drop bytes (String.utf8EncodeChar d) = if d = c then some rest else none)
    (fuel : ℕ) : trimWith drop (fuel + 1) bytes =
      if isSpace c = true then trimWith drop fuel rest else bytes := by
  rw [trimWith, findSome?_eq_ite h, isSpace]
  by_cases hspace : c ∈ whiteSpace
  · simp [hspace]
  · simp [hspace]

theorem trimWith_nil (h : ∀ d, drop [] (String.utf8EncodeChar d) = none) (fuel : ℕ) :
    trimWith drop fuel [] = [] := by
  cases fuel with
  | zero => rfl
  | succ fuel =>
    rw [trimWith, List.findSome?_eq_none_iff.mpr fun d _ => h d]
    rfl

end Trim

theorem trimWith_dropPrefix? (text : List Char) : ∀ fuel, (encode text).length ≤ fuel →
    trimWith List.dropPrefix? fuel (encode text) = encode (text.dropWhile isSpace) := by
  induction text with
  | nil =>
    refine fun fuel _ => trimWith_nil (fun d => ?_) fuel
    cases hd : String.utf8EncodeChar d with
    | nil => exact absurd hd (List.ne_nil_of_length_pos (encodeChar_length_pos d))
    | cons first more => rfl
  | cons c text ih =>
    intro fuel hfuel
    have hpos := encodeChar_length_pos c
    rw [encode_cons, List.length_append] at hfuel
    obtain ⟨fuel, rfl⟩ := Nat.exists_eq_add_of_le' (show 1 ≤ fuel by omega)
    rw [trimWith_succ (fun d => dropPrefix?_encode c d text), List.dropWhile_cons]
    split
    · exact ih fuel (by omega)
    · rfl

theorem trimWith_dropSuffix? (text : List Char) : ∀ fuel, (encode text).length ≤ fuel →
    trimWith List.dropSuffix? fuel (encode text) = encode (text.rdropWhile isSpace) := by
  induction text using List.reverseRecOn with
  | nil =>
    refine fun fuel _ => trimWith_nil (fun d => ?_) fuel
    refine Option.eq_none_iff_forall_ne_some.mpr fun rest hrest => ?_
    obtain ⟨word, heq, hword⟩ := List.dropSuffix?_eq_some_iff.mp hrest
    rw [eq_of_beq hword] at heq
    have hempty := (List.append_eq_nil_iff.mp heq.symm).2
    exact absurd hempty (List.ne_nil_of_length_pos (encodeChar_length_pos d))
  | append_singleton text c ih =>
    intro fuel hfuel
    have hpos := encodeChar_length_pos c
    rw [encode_append, encode_cons, encode_nil, List.append_nil, List.length_append] at hfuel
    obtain ⟨fuel, rfl⟩ := Nat.exists_eq_add_of_le' (show 1 ≤ fuel by omega)
    rw [trimWith_succ (fun d => dropSuffix?_encode c d text), List.rdropWhile_concat]
    split
    · exact ih fuel (by omega)
    · rfl

/-- **A trimmed text** is the bytes of the trimmed characters. -/
theorem trimSpaceBytes_encode (text : List Char) :
    trimSpaceBytes (encode text) = encode (trimSpace text) := by
  rw [trimSpaceBytes, trimWith_dropPrefix? text _ le_rfl]
  exact trimWith_dropSuffix? _ _ le_rfl

end ConflictGraph.Go
