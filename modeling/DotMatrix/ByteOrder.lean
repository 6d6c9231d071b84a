/-!
# Numbers in several bytes

Picture files store sizes in a fixed number of bytes, GIF low byte first and PNG high byte first.  A
number too large for its field loses its high bits; the sizes that are stored are typed so that this
does not happen.
-/

namespace DotMatrix
namespace ByteOrder

/-- A 16-bit number, low byte first. -/
def low16 (n : UInt16) : List UInt8 := [n.toUInt8, (n >>> 8).toUInt8]

/-- A 32-bit number, high byte first. -/
def high32 (n : UInt32) : List UInt8 :=
  [(n >>> 24).toUInt8, (n >>> 16).toUInt8, (n >>> 8).toUInt8, n.toUInt8]

/-- Reading a 16-bit number back. -/
theorem toNat_low16 (n : UInt16) :
    (low16 n).foldr (fun b m => b.toNat + 256 * m) 0 = n.toNat := by
  have bound := n.toNat_lt
  simp only [low16, List.foldr_cons, List.foldr_nil, UInt16.toNat_toUInt8, UInt16.toNat_shiftRight]
  simp only [UInt16.reduceToNat, Nat.shiftRight_eq_div_pow, Nat.reduceMod, Nat.reducePow]
  omega

/-- Reading a 32-bit number back. -/
theorem toNat_high32 (n : UInt32) :
    (high32 n).foldl (fun m b => 256 * m + b.toNat) 0 = n.toNat := by
  have bound := n.toNat_lt
  simp only [high32, List.foldl_cons, List.foldl_nil, UInt32.toNat_toUInt8, UInt32.toNat_shiftRight]
  simp only [UInt32.reduceToNat, Nat.shiftRight_eq_div_pow, Nat.reduceMod, Nat.reducePow]
  omega

end ByteOrder
end DotMatrix
