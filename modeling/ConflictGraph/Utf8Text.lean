import Mathlib.Data.List.Infix
import ConflictGraph.Utf8

/-!
# Texts in UTF-8

The bytes of a text, and what the decoder makes of them: character by character what was encoded
(`decode_encode`). So the encoding is injective, and a text that starts with a text starts with its
characters: a sequence of bytes is cut into two texts only between two characters
(`isText_take_iff`).
-/

namespace ConflictGraph.Utf8

/-- The bytes of a text. -/
def encode (chars : List Char) : List UInt8 := chars.flatMap String.utf8EncodeChar

/-- The bytes are those of a text. -/
def IsText (bytes : List UInt8) : Prop := ∃ chars, bytes = encode chars

@[simp] theorem encode_nil : encode [] = [] := rfl

@[simp] theorem encode_cons (c : Char) (chars : List Char) :
    encode (c :: chars) = String.utf8EncodeChar c ++ encode chars := List.flatMap_cons

@[simp] theorem encode_append (chars chars' : List Char) :
    encode (chars ++ chars') = encode chars ++ encode chars' := List.flatMap_append

theorem isText_nil : IsText [] := ⟨[], rfl⟩

/-- One text after the other is a text. -/
theorem IsText.append {bytes bytes' : List UInt8} (h : IsText bytes) (h' : IsText bytes') :
    IsText (bytes ++ bytes') := by
  obtain ⟨chars, rfl⟩ := h
  obtain ⟨chars', rfl⟩ := h'
  exact ⟨chars ++ chars', (encode_append ..).symm⟩

/-! ## First bytes -/

/-- The first byte of two. -/
theorem first_two {b : ℕ} (hlow : 0xC2 ≤ b) (hhigh : b ≤ 0xDF) :
    first b = ([], some ⟨0, 0x80, 0xBF, b % 0x20⟩) := by
  rw [first, if_neg (by omega), if_pos ⟨hlow, hhigh⟩]

/-- The first byte of three. -/
theorem first_three {b : ℕ} (hlow : 0xE0 ≤ b) (hhigh : b ≤ 0xEF) :
    first b = ([], some ⟨1, if b = 0xE0 then 0xA0 else 0x80, if b = 0xED then 0x9F else 0xBF,
      b % 0x10⟩) := by
  rw [first, if_neg (by omega), if_neg (by omega)]
  split_ifs with hE0 hED hED hrest
  · omega
  · rw [hE0]
  · rw [hED]
  · rfl
  · omega
  · omega
  · omega
  · omega

/-- The first byte of four. -/
theorem first_four {b : ℕ} (hlow : 0xF0 ≤ b) (hhigh : b ≤ 0xF4) :
    first b = ([], some ⟨2, if b = 0xF0 then 0x90 else 0x80, if b = 0xF4 then 0x8F else 0xBF,
      b % 8⟩) := by
  rw [first, if_neg (by omega), if_neg (by omega), if_neg (by omega), if_neg (by omega),
    if_neg (by omega)]
  split_ifs with hF0 hF4 hF4 hrest
  · omega
  · rw [hF0]
  · rw [hF4]
  · rfl
  · omega

/-! ## Sequences -/

/-- A first byte waits for its continuation. -/
theorem decode_lead {b : UInt8} {p : Pending} (h : first b.toNat = ([], some p))
    (rest : List UInt8) : decode none (b :: rest) = decode (some p) rest := by
  rw [decode, next, h]
  rfl

/-- A continuation byte adds six bits. -/
theorem decode_continue {b : UInt8} {more low high bits : ℕ} (hlow : low ≤ b.toNat)
    (hhigh : b.toNat ≤ high) (rest : List UInt8) :
    decode (some ⟨more + 1, low, high, bits⟩) (b :: rest) =
      decode (some ⟨more, 0x80, 0xBF, bits * 0x40 + b.toNat % 0x40⟩) rest := by
  rw [decode, next, if_pos ⟨hlow, hhigh⟩]
  rfl

/-- The last one yields the character. -/
theorem decode_last {b : UInt8} {low high bits : ℕ} (hlow : low ≤ b.toNat) (hhigh : b.toNat ≤ high)
    (rest : List UInt8) : decode (some ⟨0, low, high, bits⟩) (b :: rest) =
      some (Char.ofNat (bits * 0x40 + b.toNat % 0x40)) :: decode none rest := by
  rw [decode, next, if_pos ⟨hlow, hhigh⟩]
  rfl

theorem toNat_ofNat {n : ℕ} (h : n < 0x100) : (UInt8.ofNat n).toNat = n :=
  UInt8.toNat_ofNat_of_lt' h

/-- **A character that was encoded** is decoded. -/
theorem decode_encodeChar (c : Char) (rest : List UInt8) :
    decode none (String.utf8EncodeChar c ++ rest) = some c :: decode none rest := by
  have hvalid : c.toNat < 0xD800 ∨ (0xDFFF < c.toNat ∧ c.toNat < 0x110000) := c.valid
  have hc : ∀ n, n = c.toNat → Char.ofNat n = c := by
    rintro _ rfl
    exact Char.ofNat_toNat c
  rw [String.utf8EncodeChar]
  simp only [Char.toNat_val]
  generalize c.toNat = v at hvalid hc
  have hlast := toNat_ofNat (show v % 64 + 128 < 0x100 by omega)
  have hmiddle := toNat_ofNat (show v / 64 % 64 + 128 < 0x100 by omega)
  split_ifs with hone htwo hthree
  · have hb := toNat_ofNat (show v < 0x100 by omega)
    rw [List.singleton_append, decode_ascii (by rw [hb]; omega), hb, hc v rfl]
  · have hb := toNat_ofNat (show v / 64 % 32 + 192 < 0x100 by omega)
    have hlead := first_two (b := v / 64 % 32 + 192) (by omega) (by omega)
    rw [List.cons_append, decode_lead (hb ▸ hlead), List.singleton_append,
      decode_last (by rw [hlast]; omega) (by rw [hlast]; omega), hlast, hc _ (by omega)]
  · have hb := toNat_ofNat (show v / 4096 % 16 + 224 < 0x100 by omega)
    have hlead := first_three (b := v / 4096 % 16 + 224) (by omega) (by omega)
    rw [List.cons_append, decode_lead (hb ▸ hlead), List.cons_append,
      decode_continue (by rw [hmiddle]; split <;> omega) (by rw [hmiddle]; split <;> omega),
      List.singleton_append, decode_last (by rw [hlast]; omega) (by rw [hlast]; omega), hmiddle,
      hlast, hc _ (by omega)]
  · have hb := toNat_ofNat (show v / 262144 % 8 + 240 < 0x100 by omega)
    have hsecond := toNat_ofNat (show v / 4096 % 64 + 128 < 0x100 by omega)
    have hlead := first_four (b := v / 262144 % 8 + 240) (by omega) (by omega)
    rw [List.cons_append, decode_lead (hb ▸ hlead), List.cons_append,
      decode_continue (by rw [hsecond]; split <;> omega) (by rw [hsecond]; split <;> omega),
      List.cons_append, decode_continue (by rw [hmiddle]; omega) (by rw [hmiddle]; omega),
      List.singleton_append, decode_last (by rw [hlast]; omega) (by rw [hlast]; omega), hsecond,
      hmiddle, hlast, hc _ (by omega)]

/-- **A text that was encoded** is decoded, whatever follows. -/
theorem decode_encode (chars : List Char) (rest : List UInt8) :
    decode none (encode chars ++ rest) = chars.map some ++ decode none rest := by
  induction chars with
  | nil => rfl
  | cons c chars ih =>
    rw [encode_cons, List.append_assoc, decode_encodeChar, ih]
    rfl

/-- **Decoding undoes encoding.** -/
theorem decode_encode_nil (chars : List Char) : decode none (encode chars) = chars.map some := by
  have h := decode_encode chars []
  rwa [List.append_nil, decode, List.append_nil] at h

@[simp] theorem lossy_encode (chars : List Char) : lossy (encode chars) = String.ofList chars := by
  rw [lossy, decode_encode_nil, List.map_map]
  exact congrArg String.ofList (List.map_id chars)

/-- What is ill-formed is no text. -/
theorem IsText.not_mem {bytes : List UInt8} (h : IsText bytes) : none ∉ decode none bytes := by
  obtain ⟨chars, rfl⟩ := h
  rw [decode_encode_nil]
  simp

/-- A text that starts with a text starts with its characters. -/
theorem prefix_of_encode_append {chars chars' : List Char} {rest : List UInt8}
    (h : encode chars ++ rest = encode chars') : chars <+: chars' := by
  have hdecode := congrArg (decode none) h
  rw [decode_encode, decode_encode_nil] at hdecode
  have hprefix : chars.map some <+: chars'.map some := ⟨_, hdecode⟩
  exact (List.prefix_map_iff_of_injective fun _ _ => Option.some.inj).mp hprefix

/-- The bytes tell the text. -/
theorem encode_injective : Function.Injective encode := fun chars chars' h => by
  have hdecode := congrArg (decode none) h
  rw [decode_encode_nil, decode_encode_nil] at hdecode
  exact List.map_injective_iff.mpr (fun _ _ => Option.some.inj) hdecode

/-- What is left of a text after a text is a text. -/
theorem IsText.of_append_left {bytes rest : List UInt8} (h : IsText bytes)
    (happend : IsText (bytes ++ rest)) : IsText rest := by
  obtain ⟨chars, rfl⟩ := h
  obtain ⟨chars', hchars'⟩ := happend
  obtain ⟨after, rfl⟩ := prefix_of_encode_append hchars'
  rw [encode_append] at hchars'
  exact ⟨after, List.append_cancel_left hchars'⟩

/-- **A text is cut into texts** only between two characters. -/
theorem isText_take_iff (chars : List Char) (n : ℕ) :
    IsText ((encode chars).take n) ↔ ∃ k, (encode chars).take n = encode (chars.take k) := by
  refine ⟨?_, fun ⟨k, hk⟩ => ⟨_, hk⟩⟩
  rintro ⟨front, hfront⟩
  have happend : encode front ++ (encode chars).drop n = encode chars := by
    rw [← hfront, List.take_append_drop]
  obtain ⟨after, rfl⟩ := prefix_of_encode_append happend
  exact ⟨front.length, by rw [hfront, List.take_left]⟩

/-! ## Where characters begin -/

/-- The text of a character is not empty, and only its first byte begins a character. -/
theorem isUTF8FirstByte_getElem?_encodeChar {c : Char} {n : ℕ} {b : UInt8}
    (h : (String.utf8EncodeChar c)[n]? = some b) : b.IsUTF8FirstByte ↔ n = 0 := by
  obtain ⟨hlt, rfl⟩ := List.getElem?_eq_some_iff.mp h
  exact UInt8.isUTF8FirstByte_getElem_utf8EncodeChar

theorem encodeChar_length_pos (c : Char) : 0 < (String.utf8EncodeChar c).length := by
  rw [String.length_utf8EncodeChar]
  exact c.utf8Size_pos

/-- A character does not end within another. -/
theorem eq_nil_of_encodeChar_eq_append {c d : Char} {front : List UInt8}
    (h : String.utf8EncodeChar c = front ++ String.utf8EncodeChar d) : front = [] := by
  obtain ⟨b, hb⟩ : ∃ b, (String.utf8EncodeChar d)[0]? = some b :=
    ⟨_, List.getElem?_eq_getElem (encodeChar_length_pos d)⟩
  have hfirst := (isUTF8FirstByte_getElem?_encodeChar hb).mpr rfl
  have hat : (String.utf8EncodeChar c)[front.length]? = some b := by
    rw [h, List.getElem?_append_right le_rfl, Nat.sub_self, hb]
  exact List.length_eq_zero_iff.mp ((isUTF8FirstByte_getElem?_encodeChar hat).mp hfirst)

/-- A text that ends with the bytes of a character ends with the character. -/
theorem exists_of_append_encodeChar {front : List UInt8} {c : Char} {chars : List Char}
    (h : front ++ String.utf8EncodeChar c = encode chars) :
    ∃ before, chars = before ++ [c] ∧ front = encode before := by
  rcases List.eq_nil_or_concat chars with rfl | ⟨before, d, rfl⟩
  · have hempty := (List.append_eq_nil_iff.mp h).2
    exact absurd hempty (List.ne_nil_of_length_pos (encodeChar_length_pos c))
  · rw [List.concat_eq_append, encode_append, encode_cons, encode_nil, List.append_nil] at h
    have hfront : front = encode before ∧ String.utf8EncodeChar c = String.utf8EncodeChar d := by
      rcases List.append_eq_append_iff.mp h with ⟨rest, hbefore, hc⟩ | ⟨rest, hfront, hd⟩
      · obtain rfl := eq_nil_of_encodeChar_eq_append hc
        rw [List.append_nil] at hbefore
        exact ⟨hbefore.symm, hc⟩
      · obtain rfl := eq_nil_of_encodeChar_eq_append hd
        rw [List.append_nil] at hfront
        exact ⟨hfront, hd.symm⟩
    have hc : [c] = [d] := encode_injective <| by
      rw [encode_cons, encode_cons, hfront.2]
    exact ⟨before, by rw [List.concat_eq_append, hc], hfront.1⟩

/-- What comes before a text in a text is a text. -/
theorem IsText.of_append_right {bytes rest : List UInt8} (h : IsText rest)
    (happend : IsText (bytes ++ rest)) : IsText bytes := by
  obtain ⟨chars, rfl⟩ := h
  induction chars using List.reverseRecOn with
  | nil => rwa [encode_nil, List.append_nil] at happend
  | append_singleton front c ih =>
    rw [encode_append, encode_cons, encode_nil, List.append_nil, ← List.append_assoc] at happend
    obtain ⟨chars', hchars'⟩ := happend
    obtain ⟨before, -, hbefore⟩ := exists_of_append_encodeChar hchars'
    exact ih ⟨before, hbefore⟩

/-- **Bytes may be cut at `n`**: a character begins there, or nothing does. -/
def CutsBetween (n : ℕ) (bytes : List UInt8) : Prop := ∀ b ∈ bytes[n]?, b.IsUTF8FirstByte

instance (n : ℕ) (bytes : List UInt8) : Decidable (CutsBetween n bytes) :=
  inferInstanceAs (Decidable (∀ b ∈ bytes[n]?, b.IsUTF8FirstByte))

theorem cutsBetween_of_length_le {n : ℕ} {bytes : List UInt8} (h : bytes.length ≤ n) :
    CutsBetween n bytes := by
  rw [CutsBetween, List.getElem?_eq_none h]
  exact fun b hb => absurd hb (Option.not_mem_none b)

/-- **A text is cut into texts** exactly where a character begins. -/
theorem isText_take_iff_cutsBetween {bytes : List UInt8} (h : IsText bytes) (n : ℕ) :
    IsText (bytes.take n) ↔ CutsBetween n bytes := by
  obtain ⟨chars, rfl⟩ := h
  induction chars generalizing n with
  | nil => exact iff_of_true ⟨[], List.take_nil⟩ (cutsBetween_of_length_le (Nat.zero_le n))
  | cons c chars ih =>
    have hsize := encodeChar_length_pos c
    rw [encode_cons]
    rcases Nat.lt_or_ge n (String.utf8EncodeChar c).length with hlt | hge
    · -- within the first character
      have hcut : CutsBetween n (String.utf8EncodeChar c ++ encode chars) ↔ n = 0 := by
        rw [CutsBetween, List.getElem?_append_left hlt, List.getElem?_eq_getElem hlt]
        simp
      rw [hcut]
      refine ⟨fun htake => ?_, fun hzero => ?_⟩
      · obtain ⟨k, hk⟩ := (isText_take_iff (c :: chars) n).mp (by rwa [encode_cons])
        rw [encode_cons] at hk
        have hlength := congrArg List.length hk
        cases k with
        | zero =>
          rw [List.take_zero, encode_nil, List.length_take, List.length_append] at hlength
          rw [List.length_nil] at hlength
          omega
        | succ k =>
          rw [List.take_succ_cons, encode_cons, List.length_take, List.length_append] at hlength
          rw [List.length_append] at hlength
          omega
      · rw [hzero, List.take_zero]
        exact isText_nil
    · have hcut : CutsBetween n (String.utf8EncodeChar c ++ encode chars) ↔
          CutsBetween (n - (String.utf8EncodeChar c).length) (encode chars) := by
        rw [CutsBetween, CutsBetween, List.getElem?_append_right hge]
      have hfirst : IsText (String.utf8EncodeChar c) := ⟨[c], by simp⟩
      rw [hcut, ← ih, List.take_append, List.take_of_length_le hge]
      exact ⟨hfirst.of_append_left, hfirst.append⟩

/-! ## Splitting at an ASCII character -/

theorem encodeChar_of_ascii {c : Char} (h : c.toNat < 0x80) :
    String.utf8EncodeChar c = [UInt8.ofNat c.toNat] := by
  rw [String.utf8EncodeChar]
  simp only [Char.toNat_val]
  rw [if_pos (by omega)]

/-- The bytes of the other characters are not ASCII. -/
theorem not_mem_encodeChar {c : Char} (h : 0x80 ≤ c.toNat) {b : UInt8} (hb : b.toNat < 0x80) :
    b ∉ String.utf8EncodeChar c := by
  have hbyte : ∀ n, 0x80 ≤ n → n < 0x100 → b ≠ UInt8.ofNat n := by
    rintro n hlow hhigh rfl
    rw [toNat_ofNat hhigh] at hb
    omega
  have hvalid : c.toNat < 0xD800 ∨ (0xDFFF < c.toNat ∧ c.toNat < 0x110000) := c.valid
  rw [String.utf8EncodeChar]
  simp only [Char.toNat_val]
  generalize c.toNat = v at h hvalid
  split_ifs with hone htwo hthree
  · omega
  all_goals
    simp only [List.mem_cons, List.not_mem_nil, or_false, not_or]
    repeat' apply And.intro
    all_goals exact hbyte _ (by omega) (by omega)

/-- An ASCII byte stands for its own character only. -/
theorem mem_encodeChar_iff {c d : Char} (hd : d.toNat < 0x80) :
    UInt8.ofNat d.toNat ∈ String.utf8EncodeChar c ↔ c = d := by
  have hbyte : (UInt8.ofNat d.toNat).toNat = d.toNat := toNat_ofNat (by omega)
  rcases Nat.lt_or_ge c.toNat 0x80 with hc | hc
  · rw [encodeChar_of_ascii hc, List.mem_singleton]
    refine ⟨fun h => Char.toNat_inj.mp ?_, fun h => by rw [h]⟩
    rw [← hbyte, h, toNat_ofNat (by omega)]
  · refine iff_of_false (not_mem_encodeChar hc (by omega)) ?_
    rintro rfl
    omega

/-- What has no separator stays in front of the first part. -/
theorem splitOn_append {α : Type*} [BEq α] [LawfulBEq α] {a : α} {front : List α} (h : a ∉ front)
    (rest : List α) : (front ++ rest).splitOn a = (rest.splitOn a).modifyHead (front ++ ·) := by
  induction front with
  | nil =>
    rw [List.nil_append]
    cases rest.splitOn a <;> rfl
  | cons x front ih =>
    rw [List.mem_cons, not_or] at h
    rw [List.cons_append, List.splitOn_cons_eq_if_modifyHead, if_neg (by simpa using Ne.symm h.1),
      ih h.2, List.modifyHead_modifyHead]
    rfl

/-- **The bytes of a text, split at an ASCII character**, are the bytes of its parts. -/
theorem splitOn_encode {d : Char} (hd : d.toNat < 0x80) (chars : List Char) :
    (encode chars).splitOn (UInt8.ofNat d.toNat) = (chars.splitOn d).map encode := by
  induction chars with
  | nil => rfl
  | cons c chars ih =>
    rw [encode_cons, List.splitOn_cons_eq_if_modifyHead]
    by_cases hc : c = d
    · rw [if_pos (beq_iff_eq.mpr hc), List.map_cons, ← ih, hc, encodeChar_of_ascii hd,
        List.singleton_append, List.splitOn_cons_eq_if_modifyHead, if_pos (BEq.refl _)]
      rfl
    · have hnot : UInt8.ofNat d.toNat ∉ String.utf8EncodeChar c := fun h =>
        hc ((mem_encodeChar_iff hd).mp h)
      rw [if_neg (by rwa [beq_iff_eq]), splitOn_append hnot, ih]
      cases chars.splitOn d with
      | nil => rfl
      | cons first more => simp

end ConflictGraph.Utf8
