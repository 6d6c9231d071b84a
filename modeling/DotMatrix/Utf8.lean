/-!
# Text in bytes

File names are bytes, and need not be text.  `Utf8.decode` reads bytes as UTF-8 and yields one item
for every character, and one empty item for every run of damage: a lead byte together with the tail
bytes that could still have completed a character, or a single byte that starts none.

`Utf8.text?` is the text of bytes without damage, and `Utf8.lossy` shows every run of damage as one
replacement character.  Overlong forms, surrogates and numbers past the last code point are damage,
which is decided by the range of the first tail byte.
-/

namespace DotMatrix
namespace Utf8

/-- What a lead byte says about the character it starts. -/
structure Lead where
  /-- The top bits of the code point. -/
  bits : Nat
  /-- Number of tail bytes. -/
  tails : Nat
  /-- Smallest first tail byte. -/
  low : UInt8 := 0x80
  /-- Largest first tail byte. -/
  high : UInt8 := 0xBF

/-- The lead byte of a character of several bytes, if it is one. -/
def Lead.ofByte? (b : UInt8) : Option Lead :=
  if 0xC2 ≤ b ∧ b ≤ 0xDF then some { bits := b.toNat - 0xC0, tails := 1 }
  else if b = 0xE0 then some { bits := 0x0, tails := 2, low := 0xA0 }
  else if b = 0xED then some { bits := 0xD, tails := 2, high := 0x9F }
  else if 0xE1 ≤ b ∧ b ≤ 0xEF then some { bits := b.toNat - 0xE0, tails := 2 }
  else if b = 0xF0 then some { bits := 0, tails := 3, low := 0x90 }
  else if b = 0xF4 then some { bits := 4, tails := 3, high := 0x8F }
  else if 0xF1 ≤ b ∧ b ≤ 0xF3 then some { bits := b.toNat - 0xF0, tails := 3 }
  else none

/-- Add `n` tail bytes to the bits of a code point, the first of them within the given bounds.  The
answer is empty if the bytes end or one of them is no tail byte, and what is left starts there. -/
def tail (bits : Nat) (low high : UInt8) : Nat → List UInt8 → Option Nat × List UInt8
  | 0, rest => (some bits, rest)
  | _ + 1, [] => (none, [])
  | n + 1, b :: rest =>
    if low ≤ b ∧ b ≤ high then tail (bits * 64 + b.toNat % 64) 0x80 0xBF n rest
    else (none, b :: rest)

/-- The character that starts with byte `b` followed by the given bytes, and what is left. -/
def read (b : UInt8) (rest : List UInt8) : Option Char × List UInt8 :=
  if b < 0x80 then (some (Char.ofNat b.toNat), rest)
  else
    match Lead.ofByte? b with
    | none => (none, rest)
    | some lead =>
      let (point, rest) := tail lead.bits lead.low lead.high lead.tails rest
      (point.map Char.ofNat, rest)

/-- Tail bytes are taken from the front. -/
theorem length_tail_le (bits : Nat) (low high : UInt8) (n : Nat) (rest : List UInt8) :
    (tail bits low high n rest).2.length ≤ rest.length := by
  induction n generalizing bits low high rest with
  | zero => exact Nat.le_refl _
  | succ n ih =>
    cases rest with
    | nil => exact Nat.le_refl _
    | cons b rest =>
      by_cases h : low ≤ b ∧ b ≤ high
      · rw [tail, if_pos h]
        exact Nat.le_succ_of_le (ih _ _ _ _)
      · simp [tail, h]

/-- Reading a character leaves no more than it was given past the first byte. -/
theorem length_read_le (b : UInt8) (rest : List UInt8) : (read b rest).2.length ≤ rest.length := by
  unfold read
  split
  · exact Nat.le_refl _
  · split
    · exact Nat.le_refl _
    · exact length_tail_le _ _ _ _ _

/-- The characters in the given bytes, with an empty item for every run of damage. -/
def decode : List UInt8 → List (Option Char)
  | [] => []
  | b :: rest => (read b rest).1 :: decode (read b rest).2
termination_by s => s.length
decreasing_by
  have := length_read_le b rest
  simp only [List.length_cons]
  omega

/-- What stands for a run of damage. -/
def replacement : Char := '\uFFFD'

/-- The text of the given bytes, with a replacement character for every run of damage. -/
def lossy (s : List UInt8) : String := String.ofList ((decode s).map fun c => c.getD replacement)

/-- The text of the given bytes, if they are undamaged. -/
def text? (s : List UInt8) : Option String :=
  if (decode s).all Option.isSome then some (lossy s) else none

/-- The bytes of a text. -/
def encode (s : String) : List UInt8 := s.toUTF8.toList

end Utf8
end DotMatrix
