import ConflictGraph.PyNormalize

/-!
# Decimal numerals

What `str` writes of a non-negative integer, and `int` and `json.loads` read back: digits, and
no more of them than the number needs.
-/

namespace ConflictGraph.Py

namespace Str

theorem isAsciiDigit_of_mem_ofNat {n c : ℕ} (h : c ∈ ofNat n) : isAsciiDigit c = true := by
  obtain ⟨digit, hdigit, rfl⟩ := List.mem_map.mp h
  have hrange := Nat.isDigit_of_mem_toDigits (by decide) (Nat.le_refl 10) hdigit
  rw [Char.isDigit, Bool.and_eq_true, decide_eq_true_eq, decide_eq_true_eq] at hrange
  rw [isAsciiDigit, Bool.and_eq_true, decide_eq_true_eq, decide_eq_true_eq]
  exact ⟨UInt32.le_iff_toNat_le.mp hrange.1, UInt32.le_iff_toNat_le.mp hrange.2⟩

theorem ofNat_ne_nil (n : ℕ) : ofNat n ≠ [] := fun h =>
  Nat.toDigits_ne_nil (List.map_eq_nil_iff.mp h)

/-- A numeral denotes its number. -/
@[simp] theorem decimalOf_ofNat (n : ℕ) : decimalOf (ofNat n) = n := by
  rw [decimalOf, ofNat, List.foldl_map]
  exact Nat.ofDigitChars_eq_foldl.symm.trans Nat.ofDigitChars_ten_toDigits

theorem length_ofNat_le_iff {n k : ℕ} (hk : 0 < k) : (ofNat n).length ≤ k ↔ n < 10 ^ k := by
  rw [ofNat, List.length_map]
  exact Nat.length_toDigits_le_iff (by decide) hk

/-- A numeral has none of the characters that are not digits. -/
theorem not_mem_ofNat {n c : ℕ} (h : isAsciiDigit c = false) : c ∉ ofNat n := fun hmem => by
  rw [isAsciiDigit_of_mem_ofNat hmem] at h
  cases h

theorem ofNat_of_lt {n : ℕ} (h : n < 10) : ofNat n = [48 + n] := by
  have hall : ∀ n < 10, ofNat n = [48 + n] := by decide
  exact hall n h

theorem ofNat_of_le {n : ℕ} (h : 10 ≤ n) : ofNat n = ofNat (n / 10) ++ [48 + n % 10] := by
  have hlast := ofNat_of_lt (Nat.mod_lt n (show 0 < 10 by decide))
  rw [ofNat] at hlast
  have happend := @Nat.toDigits_append_toDigits 10 (n / 10) (n % 10) (by decide)
    (Nat.div_pos h (by decide)) (Nat.mod_lt n (by decide))
  rw [Nat.div_add_mod] at happend
  rw [ofNat, ← happend, List.map_append, hlast, ofNat]

/-- No numeral but zero starts with a zero. -/
theorem head?_ofNat {n : ℕ} (h : n ≠ 0) : (ofNat n).head? ≠ some 48 := by
  induction n using Nat.strong_induction_on with
  | _ n ih =>
    rcases Nat.lt_or_ge n 10 with hlt | hge
    · rw [ofNat_of_lt hlt]
      intro hhead
      have := Option.some.inj hhead
      omega
    · rw [ofNat_of_le hge, List.head?_append_of_ne_nil _ (ofNat_ne_nil _)]
      exact ih (n / 10) (by omega) (by omega)

end Str

open Str

variable {interpreter : Interpreter}

/-- The digits of Unicode include those of ASCII. -/
def Interpreter.ReadsDigits (interpreter : Interpreter) : Prop :=
  ∀ d < 10, interpreter.decimal (48 + d) = some d

theorem decimal_of_isAsciiDigit (h : interpreter.ReadsDigits) {c : ℕ}
    (hc : isAsciiDigit c = true) : interpreter.decimal c = some (c - 48) := by
  rw [isAsciiDigit, Bool.and_eq_true, decide_eq_true_eq, decide_eq_true_eq] at hc
  obtain ⟨d, rfl⟩ := Nat.exists_eq_add_of_le hc.1
  rw [h d (by omega), Nat.add_sub_cancel_left]

theorem digitsOf_ascii (h : interpreter.ReadsDigits) {s : Str} (hne : s ≠ [])
    (hs : ∀ c ∈ s, isAsciiDigit c = true) : digitsOf interpreter s = some (s.map (· - 48)) := by
  induction s with
  | nil => exact absurd rfl hne
  | cons c rest ih =>
    rw [List.forall_mem_cons] at hs
    have hc := decimal_of_isAsciiDigit h hs.1
    rcases rest with _ | ⟨d, rest⟩
    · rw [digitsOf, hc]
      rfl
    · have hrest := ih (List.cons_ne_nil d rest) hs.2
      have hd : d ≠ 95 := by
        rintro rfl
        exact absurd (hs.2 95 List.mem_cons_self) (by decide)
      rw [digitsOf, hc, hrest]
      · rfl
      · exact List.cons_ne_nil d rest
      · exact fun rest' heq => hd (List.cons.inj heq).1

/-- **`int` reads a numeral**, unless it is too long. -/
theorem intOf_ofNat (h : interpreter.ReadsDigits) {n : ℕ} (hn : n < 10 ^ maxStrDigits) :
    intOf interpreter (ofNat n) = some (n : ℤ) := by
  have hspace : ∀ c ∈ ofNat n, ¬ isIntSpace c = true := by
    intro c hc
    have hdigit := isAsciiDigit_of_mem_ofNat hc
    rw [isAsciiDigit, Bool.and_eq_true, decide_eq_true_eq, decide_eq_true_eq] at hdigit
    have hnone : ∀ d < 10, isSpace (48 + d) = false := by decide
    obtain ⟨d, rfl⟩ := Nat.exists_eq_add_of_le hdigit.1
    rw [isIntSpace, hnone d (by omega)]
    exact Bool.false_ne_true
  obtain ⟨c, rest, hcons⟩ := List.exists_cons_of_ne_nil (ofNat_ne_nil n)
  have hstrip : ((ofNat n).dropWhile isIntSpace).rdropWhile isIntSpace = ofNat n := by
    have hdrop : (ofNat n).dropWhile isIntSpace = ofNat n := by
      rw [hcons, List.dropWhile_cons_of_neg (hspace c (hcons ▸ List.mem_cons_self))]
    rw [hdrop, List.rdropWhile_eq_self_iff]
    exact fun hne => hspace _ (List.getLast_mem hne)
  have hsign : ∀ d, isAsciiDigit d = false → (ofNat n).head? ≠ some d := fun d hd hhead =>
    not_mem_ofNat hd (List.mem_of_mem_head? hhead)
  have hlength : ¬ maxStrDigits < ((ofNat n).map (· - 48)).length := by
    rw [List.length_map, Nat.not_lt, length_ofNat_le_iff (by decide)]
    exact hn
  have hvalue : ((ofNat n).map (· - 48)).foldl (fun n d => 10 * n + d) 0 = n := by
    rw [List.foldl_map]
    exact decimalOf_ofNat n
  simp only [intOf, hstrip, hsign 45 (by decide), hsign 43 (by decide), or_self, if_false,
    digitsOf_ascii h (ofNat_ne_nil n) fun c hc => isAsciiDigit_of_mem_ofNat hc, hlength, hvalue]

end ConflictGraph.Py
