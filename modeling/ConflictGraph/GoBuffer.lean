import Mathlib.Algebra.Order.Ring.Int
import Mathlib.Data.List.Basic

/-!
# The buffer of the captured output

`limitedBuffer` keeps the first bytes that are written to it and throws the rest away, while it
reports every write as complete. What it keeps depends on the concatenation of the slices alone.
Whether it says that something was thrown away does not: a slice that comes when the buffer is full
is taken for output that is lost, even if it is empty (`captures_iff`).
-/

namespace ConflictGraph.Go

/-! ## The buffer -/

/-- `limitedBuffer`; its lock makes the calls a sequence. -/
structure LimitedBuffer : Type where
  buffer : List UInt8
  remaining : ℤ
  truncated : Bool
  deriving DecidableEq

/-- The limit, with its default of a million bytes. -/
def effectiveLimit (limit : ℤ) : ℤ := if limit ≤ 0 then 1000000 else limit

/-- `newLimitedBuffer`. -/
def newLimitedBuffer (limit : ℤ) : LimitedBuffer := ⟨[], effectiveLimit limit, false⟩

/-- The text that stands for what was thrown away, in ASCII. -/
def truncationMarker : List UInt8 :=
  "\n...[output truncated by ConflictGraph]".toList.map fun c => UInt8.ofNat c.toNat

namespace LimitedBuffer

/-- `bytes.Buffer.Write`, whose error is always nil. -/
def append (b : LimitedBuffer) (value : List UInt8) : LimitedBuffer :=
  { b with buffer := b.buffer ++ value, remaining := b.remaining - value.length }

/-- `limitedBuffer.Write`, with the count and the error that it returns. -/
def write (b : LimitedBuffer) (value : List UInt8) : LimitedBuffer × ℕ × Option String :=
  if b.remaining ≤ 0 then ({ b with truncated := true }, value.length, none)
  else if b.remaining < value.length then
    ({ b.append (value.take b.remaining.toNat) with truncated := true }, value.length, none)
  else (b.append value, value.length, none)

/-- A sequence of writes: the buffer after them, and what they returned. -/
def writeAll (b : LimitedBuffer) : List (List UInt8) → LimitedBuffer × List (ℕ × Option String)
  | [] => (b, [])
  | value :: rest =>
    let after := (b.write value).1.writeAll rest
    (after.1, (b.write value).2 :: after.2)

/-- `limitedBuffer.String`. -/
def string (b : LimitedBuffer) : List UInt8 :=
  if b.truncated then b.buffer ++ truncationMarker else b.buffer

end LimitedBuffer

/-- What the buffer says of a sequence of writes. -/
def captured (limit : ℤ) (values : List (List UInt8)) : List UInt8 :=
  ((newLimitedBuffer limit).writeAll values).1.string

/-! ## What is kept -/

theorem effectiveLimit_pos (limit : ℤ) : 0 < effectiveLimit limit := by
  rw [effectiveLimit]
  split
  · decide
  · exact not_le.mp ‹_›

namespace LimitedBuffer

variable {limit : ℕ} {values : List (List UInt8)} {b : LimitedBuffer}

/-- After these slices the buffer holds the first bytes of them, knows how many more it takes, and
says that something was thrown away if that is so or if the last slice found it full. -/
structure Holds (limit : ℕ) (values : List (List UInt8)) (b : LimitedBuffer) : Prop where
  buffer : b.buffer = values.flatten.take limit
  remaining : b.remaining = ↑(limit - values.flatten.length)
  truncated : b.truncated = true ↔ limit < values.flatten.length ∨
    limit = values.flatten.length ∧ values.getLast? = some []

theorem holds_new (limit : ℤ) : Holds (effectiveLimit limit).toNat [] (newLimitedBuffer limit) where
  buffer := List.take_nil.symm
  remaining := (Int.toNat_of_nonneg (effectiveLimit_pos limit).le).symm
  truncated := by
    simp [newLimitedBuffer]

/-- **A write appends its slice.** -/
theorem Holds.write (h : Holds limit values b) (value : List UInt8) :
    Holds limit (values ++ [value]) (b.write value).1 := by
  have hremaining := h.remaining
  have hflatten : (values ++ [value]).flatten = values.flatten ++ value := by simp
  have hlast : (values ++ [value]).getLast? = some [] ↔ value.length = 0 := by simp
  have htotal : (values ++ [value]).flatten.length = values.flatten.length + value.length := by
    rw [hflatten, List.length_append]
  rw [LimitedBuffer.write]
  split_ifs with hfull hcut
  · -- the buffer is full
    refine ⟨?_, ?_, iff_of_true rfl ?_⟩
    · rw [hflatten, List.take_append_of_le_length (by omega)]
      exact h.buffer
    · rw [htotal]
      show b.remaining = _
      omega
    · rw [hlast, htotal]
      omega
  · -- the slice is cut
    have htoNat : b.remaining.toNat = limit - values.flatten.length := by omega
    refine ⟨?_, ?_, iff_of_true rfl (.inl (by omega))⟩
    · rw [hflatten, List.take_append, ← h.buffer, ← htoNat]
      rfl
    · rw [htotal]
      show b.remaining - ((value.take b.remaining.toNat).length : ℤ) = _
      rw [List.length_take]
      omega
  · refine ⟨?_, ?_, ?_⟩
    · rw [hflatten, List.take_of_length_le (by rw [List.length_append]; omega)]
      show b.buffer ++ value = _
      rw [h.buffer, List.take_of_length_le (by omega)]
    · rw [htotal]
      show b.remaining - (value.length : ℤ) = _
      omega
    · rw [hlast, htotal]
      refine h.truncated.trans ?_
      omega

/-- A sequence of writes appends its slices. -/
theorem Holds.writeAll (more : List (List UInt8)) :
    ∀ {values : List (List UInt8)} {b : LimitedBuffer}, Holds limit values b →
      Holds limit (values ++ more) (b.writeAll more).1 := by
  induction more with
  | nil =>
    intro values b h
    rwa [List.append_nil]
  | cons value rest ih =>
    intro values b h
    rw [List.append_cons]
    exact ih (h.write value)

theorem write_returns (b : LimitedBuffer) (value : List UInt8) :
    (b.write value).2 = (value.length, none) := by
  rw [write]
  split_ifs <;> rfl

/-- Every write is reported as complete, and without an error. -/
theorem writeAll_returns (values : List (List UInt8)) (b : LimitedBuffer) :
    (b.writeAll values).2 = values.map fun value => (value.length, none) := by
  induction values generalizing b with
  | nil => rfl
  | cons value rest ih =>
    rw [writeAll, List.map_cons]
    exact congrArg₂ List.cons (b.write_returns value) (ih _)

end LimitedBuffer

/-! ## What is said of it -/

/-- What a buffer should say of a text: its first bytes, and the marker if there are more. -/
def limitedText (limit : ℤ) (text : List UInt8) : List UInt8 :=
  text.take (effectiveLimit limit).toNat ++
    if effectiveLimit limit < text.length then truncationMarker else []

/-- The slices add up to the limit, and the last of them is empty. -/
def EndsFull (limit : ℤ) (values : List (List UInt8)) : Prop :=
  (values.flatten.length : ℤ) = effectiveLimit limit ∧ values.getLast? = some []

instance (limit : ℤ) (values : List (List UInt8)) : Decidable (EndsFull limit values) :=
  inferInstanceAs (Decidable (_ ∧ _))

/-- What the buffer does say: the marker also stands after a last slice that finds it full. -/
def keptText (limit : ℤ) (values : List (List UInt8)) : List UInt8 :=
  values.flatten.take (effectiveLimit limit).toNat ++
    if effectiveLimit limit < values.flatten.length ∨ EndsFull limit values
      then truncationMarker else []

/-- Every write is reported as complete, and the buffer depends on what was written alone. -/
structure Captures (limit : ℤ) (values : List (List UInt8)) : Prop where
  returns : ((newLimitedBuffer limit).writeAll values).2 =
    values.map fun value => (value.length, none)
  text : captured limit values = limitedText limit values.flatten

theorem captured_eq (limit : ℤ) (values : List (List UInt8)) :
    captured limit values = keptText limit values := by
  have hpos := effectiveLimit_pos limit
  have hholds := (LimitedBuffer.holds_new limit).writeAll values
  rw [List.nil_append] at hholds
  have htruncated : ((newLimitedBuffer limit).writeAll values).1.truncated = true ↔
      effectiveLimit limit < values.flatten.length ∨ EndsFull limit values := by
    rw [hholds.truncated, EndsFull]
    refine or_congr (by omega) (and_congr_left fun _ => by omega)
  rw [captured, LimitedBuffer.string, hholds.buffer, keptText]
  simp only [htruncated]
  split
  · rfl
  · rw [List.append_nil]

theorem EndsFull.not_lt {limit : ℤ} {values : List (List UInt8)} (h : EndsFull limit values) :
    ¬ effectiveLimit limit < values.flatten.length :=
  h.1.not_gt

/-- The marker tells what it stands for. -/
theorem marker_eq_marker_iff {p q : Prop} [Decidable p] [Decidable q] :
    (if p then truncationMarker else []) = (if q then truncationMarker else []) ↔ (p ↔ q) := by
  have hne : truncationMarker ≠ [] := by decide
  by_cases hp : p
  · by_cases hq : q
    · simp [hp, hq]
    · simp [hp, hq, hne]
  · by_cases hq : q
    · simp [hp, hq, hne.symm]
    · simp [hp, hq]

/-- **The buffer says what was written**, unless a last, empty slice finds it full. So the same
output gives the same text, unless that is so of one of two sequences of slices only. -/
theorem captures_iff (limit : ℤ) (values values' : List (List UInt8)) :
    (Captures limit values ↔ ¬ EndsFull limit values) ∧
      (values.flatten = values'.flatten →
        (captured limit values = captured limit values' ↔
          (EndsFull limit values ↔ EndsFull limit values'))) := by
  refine ⟨?_, fun heq => ?_⟩
  · have htext : captured limit values = limitedText limit values.flatten ↔
        ¬ EndsFull limit values := by
      rw [captured_eq, keptText, limitedText, List.append_right_inj, marker_eq_marker_iff]
      refine ⟨fun h hends => hends.not_lt (h.mp (.inr hends)), fun h => or_iff_left h⟩
    exact ⟨fun h => htext.mp h.text,
      fun h => ⟨LimitedBuffer.writeAll_returns values _, htext.mpr h⟩⟩
  · rw [captured_eq, captured_eq, keptText, keptText, heq, List.append_right_inj,
      marker_eq_marker_iff]
    have hnot := fun h : EndsFull limit values => heq ▸ h.not_lt
    have hnot' := fun h : EndsFull limit values' => h.not_lt
    tauto

/-- Five bytes in a buffer of five, and an empty slice after them: nothing is lost, and the marker
says that something is. -/
theorem not_captures_empty_slice : ¬ Captures 5 [[97, 98, 99, 100, 101], []] := fun h =>
  absurd h.text (by decide +kernel)

end ConflictGraph.Go
