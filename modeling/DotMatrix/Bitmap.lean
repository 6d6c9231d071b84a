import DotMatrix.Octet

/-!
# Two-colour pictures

A `Bitmap` is a rectangle of palette indexes in row-major order.  The palette has two entries,
white paper and black ink; an index other than those two is legal in a bitmap, is not ink, and
packs like paper.

The array and the rectangle agree by construction: `size_eq` is a field, so no reader of a bitmap
has to ask whether a row is complete.  Two other forms of a bitmap are given beside it.

* `Bitmap.ofCells` builds a bitmap from a colour for every cell, and `get_ofCells` reads it back.
* `Bitmap.packed` stores eight pixels to the byte, every row padded to a whole byte; `PackedRows`
  reads such bytes, and `ink_packed` says that reading them gives the ink of the bitmap.
-/

namespace DotMatrix

/-! ## The palette -/

namespace Palette

/-- Index of the paper colour. -/
def paper : UInt8 := 0

/-- Index of the ink colour. -/
def ink : UInt8 := 1

/-- Red, green and blue of each index, paper first. -/
def colors : List (List UInt8) := [[0xFF, 0xFF, 0xFF], [0x00, 0x00, 0x00]]

/-- The bytes of the palette in file order. -/
def bytes : List UInt8 := colors.flatten

end Palette

/-! ## Bitmaps -/

/-- A rectangle of palette indexes, row by row. -/
@[ext]
structure Bitmap where
  /-- Pixels in a row. -/
  width : Nat
  /-- Number of rows. -/
  height : Nat
  /-- Palette indexes in row-major order. -/
  pixels : Array UInt8
  /-- The rows are complete. -/
  size_eq : pixels.size = width * height
  deriving DecidableEq

namespace Bitmap

/-- The bitmap with the given pixels, if they fill the rectangle exactly. -/
def ofPixels? (width height : Nat) (pixels : Array UInt8) : Option Bitmap :=
  if h : pixels.size = width * height then some ⟨width, height, pixels, h⟩ else none

/-- The bitmap whose pixel at column `x` of row `y` is `cell x y`. -/
def ofCells (width height : Nat) (cell : Nat → Nat → UInt8) : Bitmap :=
  ⟨width, height, Array.ofFn fun i : Fin (width * height) => cell (i % width) (i / width),
    Array.size_ofFn⟩

@[simp] theorem width_ofCells (w h : Nat) (cell : Nat → Nat → UInt8) :
    (ofCells w h cell).width = w := rfl

@[simp] theorem height_ofCells (w h : Nat) (cell : Nat → Nat → UInt8) :
    (ofCells w h cell).height = h := rfl

/-- A pixel of the rectangle has a place in the array. -/
theorem place_lt {w h x y : Nat} (hx : x < w) (hy : y < h) : y * w + x < w * h := by
  have hy' : (y + 1) * w ≤ h * w := Nat.mul_le_mul_right _ hy
  rw [Nat.succ_mul] at hy'
  rw [Nat.mul_comm w]
  omega

/-- The column of a place in the array. -/
theorem place_mod {w x : Nat} (hx : x < w) (y : Nat) : (y * w + x) % w = x := by
  rw [Nat.mul_add_mod', Nat.mod_eq_of_lt hx]

/-- The row of a place in the array. -/
theorem place_div {w x : Nat} (hx : x < w) (y : Nat) : (y * w + x) / w = y := by
  rw [Nat.mul_comm, Nat.mul_add_div (Nat.zero_lt_of_lt hx), Nat.div_eq_of_lt hx, Nat.add_zero]

/-- Palette index at column `x` of row `y`; paper outside the rectangle. -/
def get (b : Bitmap) (x y : Nat) : UInt8 :=
  if h : x < b.width ∧ y < b.height then
    have : y * b.width + x < b.pixels.size := by rw [b.size_eq]; exact place_lt h.1 h.2
    b.pixels[y * b.width + x]
  else Palette.paper

/-- Whether the pixel at column `x` of row `y` is ink.  Outside the rectangle nothing is. -/
def ink (b : Bitmap) (x y : Nat) : Bool := b.get x y == Palette.ink

/-- Reading a bitmap built cell by cell. -/
theorem get_ofCells {w h x y : Nat} (cell : Nat → Nat → UInt8) (hx : x < w) (hy : y < h) :
    (ofCells w h cell).get x y = cell x y := by
  simp only [get, ofCells, hx, hy, and_self, dite_true, Array.getElem_ofFn, place_mod hx,
    place_div hx]

/-- Outside the rectangle a bitmap reads as paper. -/
theorem get_of_not_lt (b : Bitmap) {x y : Nat} (h : ¬(x < b.width ∧ y < b.height)) :
    b.get x y = Palette.paper := by
  rw [get, dif_neg h]

/-- Number of ink pixels. -/
def inkCount (b : Bitmap) : Nat := b.pixels.countP fun p => p == Palette.ink

end Bitmap

/-! ## Packed rows -/

/-- Bytes that hold one row of `width` pixels, eight to the byte. -/
def rowBytes (width : Nat) : Nat := (width + 7) / 8

/-- Rows of pixels packed eight to the byte, leftmost pixel in the top bit, each row padded to a
whole byte. -/
@[ext]
structure PackedRows where
  /-- Pixels in a row. -/
  width : Nat
  /-- Number of rows. -/
  height : Nat
  /-- The bytes, row by row. -/
  bytes : Array UInt8
  /-- The rows are complete. -/
  size_eq : bytes.size = rowBytes width * height
  deriving DecidableEq

namespace PackedRows

/-- The byte that holds pixel `x` of a row is one of that row's bytes. -/
theorem div_lt_rowBytes {w x : Nat} (hx : x < w) : x / 8 < rowBytes w := by
  rw [rowBytes]
  omega

/-- Whether the pixel at column `x` of row `y` is ink. -/
def ink (p : PackedRows) (x y : Nat) : Bool :=
  if h : x < p.width ∧ y < p.height then
    have : y * rowBytes p.width + x / 8 < p.bytes.size := by
      rw [p.size_eq]; exact Bitmap.place_lt (div_lt_rowBytes h.1) h.2
    Octet.dot p.bytes[y * rowBytes p.width + x / 8] (x % 8)
  else false

end PackedRows

namespace Bitmap

/-- The rows of a bitmap packed eight pixels to the byte; padding is paper. -/
def packed (b : Bitmap) : PackedRows :=
  ⟨b.width, b.height,
    Array.ofFn fun i : Fin (rowBytes b.width * b.height) =>
      Octet.ofDots fun k => b.ink (8 * (i % rowBytes b.width) + k) (i / rowBytes b.width),
    Array.size_ofFn⟩

@[simp] theorem width_packed (b : Bitmap) : b.packed.width = b.width := rfl

@[simp] theorem height_packed (b : Bitmap) : b.packed.height = b.height := rfl

/-- Byte `c` of packed row `y` has the ink of the eight pixels from column `8 * c` on. -/
theorem dot_packed (b : Bitmap) {c y k : Nat} (hc : c < rowBytes b.width) (hk : k < 8)
    (place : y * rowBytes b.width + c < b.packed.bytes.size) :
    Octet.dot b.packed.bytes[y * rowBytes b.width + c] k = b.ink (8 * c + k) y := by
  simp only [packed, Array.getElem_ofFn, place_mod hc, place_div hc, Octet.dot_ofDots _ hk]

/-- Packing loses no ink and invents none. -/
theorem ink_packed (b : Bitmap) (x y : Nat) : b.packed.ink x y = b.ink x y := by
  by_cases h : x < b.packed.width ∧ y < b.packed.height
  · have hk : x % 8 < 8 := Nat.mod_lt _ (by decide)
    rw [PackedRows.ink, dif_pos h]
    exact (dot_packed b (PackedRows.div_lt_rowBytes h.1) hk _).trans (by rw [Nat.div_add_mod])
  · rw [PackedRows.ink, dif_neg h, ink, get_of_not_lt b h]
    rfl

end Bitmap
end DotMatrix
