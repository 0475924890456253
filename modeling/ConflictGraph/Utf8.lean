import Mathlib.Data.List.ReduceOption

/-!
# UTF-8

A decoder of UTF-8 as a machine on single bytes. It emits a character for every well-formed
sequence and `none` for every ill-formed one, where an ill-formed sequence ends before the
first byte that no well-formed sequence has at its place. So one run of the machine gives
both the strict decoding, which refuses a text with a `none` in it, and the lossy one,
which puts U+FFFD in its place.
-/

namespace ConflictGraph.Utf8

/-- Inside a sequence: how many bytes are still to come after the next one, between which
bounds the next one is, and the bits so far. -/
structure Pending : Type where
  more : ℕ
  low : ℕ
  high : ℕ
  bits : ℕ
  deriving DecidableEq

/-- The first byte of a sequence: what is emitted, and what is pending. -/
def first (b : ℕ) : List (Option Char) × Option Pending :=
  if b < 0x80 then ([some (Char.ofNat b)], none)
  else if 0xC2 ≤ b ∧ b ≤ 0xDF then ([], some ⟨0, 0x80, 0xBF, b % 0x20⟩)
  else if b = 0xE0 then ([], some ⟨1, 0xA0, 0xBF, 0⟩)
  else if b = 0xED then ([], some ⟨1, 0x80, 0x9F, 0xD⟩)
  else if 0xE1 ≤ b ∧ b ≤ 0xEF then ([], some ⟨1, 0x80, 0xBF, b % 0x10⟩)
  else if b = 0xF0 then ([], some ⟨2, 0x90, 0xBF, 0⟩)
  else if b = 0xF4 then ([], some ⟨2, 0x80, 0x8F, 4⟩)
  else if 0xF1 ≤ b ∧ b ≤ 0xF3 then ([], some ⟨2, 0x80, 0xBF, b % 8⟩)
  else ([none], none)

/-- One byte. -/
def next (b : ℕ) : Option Pending → List (Option Char) × Option Pending
  | none => first b
  | some p =>
    if p.low ≤ b ∧ b ≤ p.high then
      let bits := p.bits * 0x40 + b % 0x40
      match p.more with
      | 0 => ([some (Char.ofNat bits)], none)
      | more + 1 => ([], some ⟨more, 0x80, 0xBF, bits⟩)
    else (none :: (first b).1, (first b).2)

/-- The machine; a sequence that is cut off is ill-formed. -/
def decode : Option Pending → List UInt8 → List (Option Char)
  | none, [] => []
  | some _, [] => [none]
  | pending, b :: rest => (next b.toNat pending).1 ++ decode (next b.toNat pending).2 rest

/-- The text of a sequence of bytes, if that is well-formed. -/
def strict (bytes : List UInt8) : Option String :=
  if none ∈ decode none bytes then none else some (String.ofList (decode none bytes).reduceOption)

/-- The text of a sequence of bytes with what is ill-formed replaced. -/
def lossy (bytes : List UInt8) : String :=
  String.ofList ((decode none bytes).map fun c => c.getD (Char.ofNat 0xFFFD))

/-- A first byte that is ASCII. -/
theorem decode_ascii {b : UInt8} (h : b.toNat < 0x80) (rest : List UInt8) :
    decode none (b :: rest) = some (Char.ofNat b.toNat) :: decode none rest := by
  rw [decode, next, first, if_pos h]
  rfl

example : strict [0xE2, 0x82, 0xAC] = some "€" := by decide +kernel

/-- A surrogate is three ill-formed sequences. -/
example : strict [0xED, 0xA0, 0x80] = none ∧ (decode none [0xED, 0xA0, 0x80]).length = 3 := by
  decide +kernel

end ConflictGraph.Utf8
