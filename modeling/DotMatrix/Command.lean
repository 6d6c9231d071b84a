/-!
# Printer commands and their bytes

The command set is a small part of ESC/P.  A line feed is one control byte; every other command is
an escape byte, one `Opcode` and the opcode's parameters:

* `ESC @` reset, `ESC 3 n` line pitch, `ESC 5 n` cancel italic, `ESC l n` left margin;
* `ESC * m nL nH d…` a bit image in mode `m`, `ESC L nL nH d…` a double-density bit image.

A bit image announces the length of its payload in its two count bytes.  The low byte counts single
payload bytes and the high byte counts blocks of 256 columns, and in every mode but 0 and 1 a block
holds three bytes to the column; the low byte is not scaled (`Count.payloadLength`).

`Command.bytes` writes a command down.  A payload is written as it is, whatever the count says, so
that a cut or an overlong image can be written too; `BitImage.Complete` is the agreement of the two.
-/

namespace DotMatrix

/-! ## Control bytes -/

namespace Control

/-- First byte of every command but the line feed. -/
def escape : UInt8 := 0x1B

/-- End the line: move down by the pitch and back to the first column. -/
def lineFeed : UInt8 := 0x0A

/-- The bytes below this one are control bytes; it and those above it are text. -/
def firstPrintable : UInt8 := 0x20

end Control

/-! ## Opcodes -/

/-- What the byte after an escape asks for. -/
inductive Opcode where
  | selectBitImage
  | doubleDensity
  | lineSpacing
  | cancelItalic
  | reset
  | leftMargin
  deriving DecidableEq, Repr

namespace Opcode

/-- All opcodes. -/
def all : List Opcode :=
  [selectBitImage, doubleDensity, lineSpacing, cancelItalic, reset, leftMargin]

/-- The byte of an opcode: `*`, `L`, `3`, `5`, `@` and `l`. -/
def byte : Opcode → UInt8
  | selectBitImage => 0x2A
  | doubleDensity => 0x4C
  | lineSpacing => 0x33
  | cancelItalic => 0x35
  | reset => 0x40
  | leftMargin => 0x6C

/-- The opcode of a byte, if it has one. -/
def ofByte? (b : UInt8) : Option Opcode := all.find? fun op => op.byte == b

@[simp] theorem ofByte?_byte (op : Opcode) : ofByte? op.byte = some op := by
  cases op <;> rfl

/-- A byte stands for an opcode exactly if it is that opcode's byte. -/
theorem ofByte?_eq_some_iff {b : UInt8} {op : Opcode} : ofByte? b = some op ↔ op.byte = b := by
  refine ⟨fun h => ?_, fun h => h ▸ ofByte?_byte op⟩
  simpa using List.find?_some h

/-- A byte stands for no opcode exactly if it is no opcode's byte. -/
theorem ofByte?_eq_none_iff {b : UInt8} : ofByte? b = none ↔ ∀ op : Opcode, op.byte ≠ b := by
  refine ⟨fun h op e => ?_, fun h => ?_⟩
  · rw [← e, ofByte?_byte] at h
    exact nomatch h
  · cases e : ofByte? b with
    | none => rfl
    | some op => exact absurd (ofByte?_eq_some_iff.mp e) (h op)

end Opcode

/-! ## Bit images -/

/-- The two count bytes of a bit image, low byte first. -/
structure Count where
  /-- Low byte. -/
  low : UInt8
  /-- High byte. -/
  high : UInt8
  deriving DecidableEq, Repr

namespace Count

/-- The count bytes of a 16-bit number of columns. -/
def ofWord (w : UInt16) : Count := ⟨UInt8.ofNat (w.toNat % 256), UInt8.ofNat (w.toNat / 256)⟩

/-- The count as a number. -/
def toNat (c : Count) : Nat := c.low.toNat + 256 * c.high.toNat

/-- The bytes in stream order. -/
def bytes (c : Count) : List UInt8 := [c.low, c.high]

@[simp] theorem toNat_ofWord (w : UInt16) : (ofWord w).toNat = w.toNat := by
  have bound := w.toNat_lt
  simp only [ofWord, toNat, UInt8.toNat_ofNat']
  omega

end Count

/-- How a bit image was asked for. -/
inductive Density where
  /-- By mode number, with `ESC *`. -/
  | selected (mode : UInt8)
  /-- As double density, with `ESC L`. -/
  | double
  deriving DecidableEq, Repr

namespace Density

/-- The mode that `ESC L` stands for. -/
def doubleMode : UInt8 := 1

/-- Mode number. -/
def mode : Density → UInt8
  | selected m => m
  | double => doubleMode

/-- Payload bytes to the column in a block of 256 columns: one in modes 0 and 1, three in all
others. -/
def multiplier (mode : UInt8) : Nat := if mode = 0 ∨ mode = 1 then 1 else 3

/-- The bytes of a bit image command before its count. -/
def opening : Density → List UInt8
  | selected m => [Control.escape, Opcode.selectBitImage.byte, m]
  | double => [Control.escape, Opcode.doubleDensity.byte]

end Density

/-- Number of payload bytes that a count announces in a mode.  Only the high byte is scaled. -/
def Count.payloadLength (c : Count) (mode : UInt8) : Nat :=
  c.low.toNat + c.high.toNat * 256 * Density.multiplier mode

/-- A bit image: how it was asked for, the count it announces and the columns that follow, one byte
of eight dots each. -/
structure BitImage where
  /-- How the image was asked for. -/
  density : Density
  /-- The announced count. -/
  count : Count
  /-- The columns. -/
  payload : List UInt8
  deriving DecidableEq, Repr

namespace BitImage

/-- Number of payload bytes the image announces. -/
def declared (i : BitImage) : Nat := i.count.payloadLength i.density.mode

/-- The bytes before the payload: five, or four for a double-density image. -/
def header (i : BitImage) : List UInt8 := i.density.opening ++ i.count.bytes

/-- The header has five bytes, or four for a double-density image. -/
theorem length_header (i : BitImage) :
    i.header.length = match i.density with
      | .selected _ => 5
      | .double => 4 := by
  cases i with
  | mk d _ _ => cases d <;> rfl

theorem length_header_pos (i : BitImage) : 0 < i.header.length := by
  cases i with
  | mk d _ _ => cases d <;> exact Nat.succ_pos _

/-- The whole command. -/
def bytes (i : BitImage) : List UInt8 := i.header ++ i.payload

/-- The payload is as long as announced. -/
def Complete (i : BitImage) : Prop := i.payload.length = i.declared

instance (i : BitImage) : Decidable i.Complete :=
  inferInstanceAs (Decidable (i.payload.length = i.declared))

end BitImage

/-! ## Commands -/

/-- A command of the printer. -/
inductive Command where
  /-- `LF`. -/
  | lineFeed
  /-- `ESC @`, which leaves head and pitch as they are. -/
  | reset
  /-- `ESC 3 n`: set the line pitch to `n`/180 inch. -/
  | lineSpacing (n : UInt8)
  /-- `ESC 5 n`. -/
  | cancelItalic (n : UInt8)
  /-- `ESC l n`. -/
  | leftMargin (n : UInt8)
  /-- `ESC *` or `ESC L` with its columns. -/
  | bitImage (image : BitImage)
  deriving DecidableEq, Repr

namespace Command

/-- A bit image in a mode, with a 16-bit count of columns. -/
def selectBitImage (mode : UInt8) (columns : UInt16) (payload : List UInt8) : Command :=
  .bitImage ⟨.selected mode, .ofWord columns, payload⟩

/-- A double-density bit image, with a 16-bit count of columns. -/
def doubleDensityBitImage (columns : UInt16) (payload : List UInt8) : Command :=
  .bitImage ⟨.double, .ofWord columns, payload⟩

/-- The bytes of a command. -/
def bytes : Command → List UInt8
  | lineFeed => [Control.lineFeed]
  | reset => [Control.escape, Opcode.reset.byte]
  | lineSpacing n => [Control.escape, Opcode.lineSpacing.byte, n]
  | cancelItalic n => [Control.escape, Opcode.cancelItalic.byte, n]
  | leftMargin n => [Control.escape, Opcode.leftMargin.byte, n]
  | bitImage i => i.bytes

/-- Every bit image carries the payload it announces. -/
def WellFormed : Command → Prop
  | bitImage i => i.Complete
  | _ => True

instance : DecidablePred WellFormed
  | bitImage i => inferInstanceAs (Decidable i.Complete)
  | lineFeed | reset | lineSpacing _ | cancelItalic _ | leftMargin _ => .isTrue trivial

/-- The stream of a list of commands. -/
def stream (cs : List Command) : List UInt8 := cs.flatMap bytes

end Command
end DotMatrix
