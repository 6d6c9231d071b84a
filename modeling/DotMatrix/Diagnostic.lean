import DotMatrix.Head
import DotMatrix.Hexadecimal

/-!
# Diagnostics

A diagnostic is a record of bytes that were skipped or of a command that could not be finished.  It
changes nothing about the page.  Every diagnostic names the offset of the first byte it is about,
and `Diagnostic.text` is its one-line form.
-/

namespace DotMatrix

/-- Something noticed in a stream and not acted on. -/
inductive Diagnostic where
  /-- A text byte.  Text is not printed. -/
  | printable (offset : Nat) (byte : UInt8)
  /-- A control byte other than line feed and escape, with the position of the head at it. -/
  | unknownControl (offset : Nat) (byte : UInt8) (head : Position)
  /-- An escape before a byte that is no opcode. -/
  | unknownEscape (offset : Nat) (byte : UInt8)
  /-- The stream ends inside the parameters of a command, or right after its escape, and then the
  opcode byte is missing too. -/
  | truncatedCommand (offset : Nat) (opcode : Option UInt8)
  /-- The stream ends before the announced payload does. -/
  | truncatedBitImage (offset declared available : Nat)
  deriving DecidableEq, Repr

namespace Diagnostic

/-- Offset of the first byte concerned. -/
def offset : Diagnostic → Nat
  | printable n _ | unknownControl n _ _ | unknownEscape n _ | truncatedCommand n _
  | truncatedBitImage n _ _ => n

/-- The diagnostic is about a text byte. -/
def IsPrintable : Diagnostic → Prop
  | printable _ _ => True
  | _ => False

instance : DecidablePred IsPrintable
  | printable _ _ => .isTrue trivial
  | unknownControl _ _ _ | unknownEscape _ _ | truncatedCommand _ _ | truncatedBitImage _ _ _ =>
    .isFalse id

/-- A byte shown as a character: itself from blank to tilde, a full stop otherwise. -/
def shown (b : UInt8) : Char := if 0x20 ≤ b ∧ b ≤ 0x7E then Char.ofNat b.toNat else '.'

/-- A byte in hexadecimal, followed by the shown character in parentheses. -/
def byteText (b : UInt8) : String :=
  Hexadecimal.ofByte b ++ " (" ++ String.singleton (shown b) ++ ")"

/-- An offset as the start of a line. -/
def offsetText (n : Nat) : String := "@" ++ Hexadecimal.padded 8 n ++ ": "

/-- The one-line form. -/
def text : Diagnostic → String
  | printable n b => offsetText n ++ byteText b
  | unknownControl n b p =>
    offsetText n ++ Hexadecimal.ofByte b ++ " at " ++ p.x.repr ++ "," ++ p.y.repr
  | unknownEscape n b => offsetText n ++ "ESC " ++ byteText b
  | truncatedCommand n none => offsetText n ++ "stream ends after ESC"
  | truncatedCommand n (some b) => offsetText n ++ "stream ends inside ESC " ++ byteText b
  | truncatedBitImage n declared available =>
    offsetText n ++ "bit image declares " ++ declared.repr ++ " bytes, only " ++ available.repr ++
      " available"

end Diagnostic
end DotMatrix
