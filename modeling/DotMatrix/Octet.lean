/-!
# Eight dots in a byte

Both ends of the machine move dots eight to the byte, most significant bit first.  The print head
fires a column of eight pins from one byte, top pin in the top bit; a packed picture row stores
eight neighbouring pixels in one byte, leftmost pixel in the top bit.  So the two directions are
defined once, here: `Octet.dot` reads dot `k` of a byte, `Octet.ofDots` builds the byte with
given dots, and each undoes the other (`dot_ofDots`, `ofDots_dot`).
-/

namespace DotMatrix
namespace Octet

/-- Dots in a byte. -/
def size : Nat := 8

/-- Dot `k` of a byte, for `k` below eight: bit `7 - k`. -/
def dot (b : UInt8) (k : Nat) : Bool := b.toNat.testBit (7 - k)

/-- The byte whose dots are the first eight values of `f`. -/
def ofDots (f : Nat → Bool) : UInt8 :=
  UInt8.ofNat ((List.range size).foldl (fun n k => 2 * n + (f k).toNat) 0)

/-- No dot of the zero byte is set. -/
@[simp] theorem dot_zero (k : Nat) : dot 0 k = false := by
  simp [dot]

/-- The built byte has the dots it was built from. -/
theorem dot_ofDots (f : Nat → Bool) {k : Nat} (hk : k < size) : dot (ofDots f) k = f k := by
  have all : ∀ a b c d e g h i : Bool, ∀ k < 8,
      (UInt8.ofNat (2 * (2 * (2 * (2 * (2 * (2 * (2 * (2 * 0 + a.toNat) + b.toNat) + c.toNat)
        + d.toNat) + e.toNat) + g.toNat) + h.toNat) + i.toNat)).toNat.testBit (7 - k)
        = [a, b, c, d, e, g, h, i].getD k false := by
    decide
  have positions : List.range size = [0, 1, 2, 3, 4, 5, 6, 7] := rfl
  rw [dot, ofDots, positions]
  simp only [List.foldl_cons, List.foldl_nil]
  rw [all _ _ _ _ _ _ _ _ k hk]
  match k, hk with
  | 0, _ | 1, _ | 2, _ | 3, _ | 4, _ | 5, _ | 6, _ | 7, _ => rfl

/-- A byte is determined by its dots. -/
theorem ofDots_dot (b : UInt8) : ofDots (dot b) = b := by
  have all : ∀ n < 256, ofDots (dot (UInt8.ofNat n)) = UInt8.ofNat n := by
    decide +kernel
  simpa using all b.toNat b.toNat_lt

end Octet
end DotMatrix
