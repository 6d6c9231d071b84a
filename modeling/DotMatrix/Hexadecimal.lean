/-!
# Hexadecimal numbers

Offsets are written with lower-case digits and at least eight of them, bytes with exactly two
upper-case digits.  A number too large for its field is written in full.
-/

namespace DotMatrix
namespace Hexadecimal

/-- A number in lower-case digits, with zeros in front up to a width. -/
def padded (width n : Nat) : String :=
  String.ofList (List.leftpad width '0' (Nat.toDigits 16 n))

/-- The upper-case digit of a number below sixteen. -/
def upperDigit (n : Nat) : Char := (Nat.digitChar n).toUpper

/-- A byte in two upper-case digits. -/
def ofByte (b : UInt8) : String :=
  String.ofList [upperDigit (b.toNat / 16), upperDigit (b.toNat % 16)]

end Hexadecimal
end DotMatrix
