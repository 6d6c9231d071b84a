import DotMatrix.Bitmap
import DotMatrix.ByteOrder
import DotMatrix.Failure
import DotMatrix.Image.Lzw

/-!
# GIF files

A GIF file here has a screen, a palette and one frame.  Sizes are stored in sixteen bits, so a
bitmap fits only if it is at most 65535 pixels wide and high; the width is looked at first.  The
frame stands at the top left corner of the screen, is as large as the screen and stores the palette
indexes of the bitmap as they are.

`Gif.bytes` writes the file down.  A frame without pixels is written too, but readers do not show
it (`Gif.shownFrames`).
-/

namespace DotMatrix
namespace Image

/-- A picture inside a GIF file. -/
structure Gif.Frame where
  /-- Column of the screen at which the frame starts. -/
  left : UInt16
  /-- Row of the screen at which the frame starts. -/
  top : UInt16
  /-- Pixels in a row. -/
  width : UInt16
  /-- Number of rows. -/
  height : UInt16
  /-- Palette indexes in row-major order. -/
  pixels : Array UInt8
  deriving DecidableEq

/-- A GIF file with one frame. -/
structure Gif where
  /-- Columns of the screen. -/
  width : UInt16
  /-- Rows of the screen. -/
  height : UInt16
  /-- Red, green and blue of every palette index. -/
  palette : List UInt8
  /-- The picture. -/
  frame : Gif.Frame
  deriving DecidableEq

namespace Gif

/-- Largest width and height of a GIF. -/
def sizeLimit : Nat := 65535

/-- The file of a bitmap. -/
def ofBitmap (b : Bitmap) : Except Failure Gif :=
  if sizeLimit < b.width then .error (.image (.gifWidth b.width))
  else if sizeLimit < b.height then .error (.image (.gifHeight b.height))
  else
    let width := UInt16.ofNat b.width
    let height := UInt16.ofNat b.height
    .ok ⟨width, height, Palette.bytes, ⟨0, 0, width, height, b.pixels⟩⟩

/-- The frames that a reader shows. -/
def shownFrames (g : Gif) : List Frame :=
  if g.frame.width = 0 ∨ g.frame.height = 0 then [] else [g.frame]

/-- The signature of the file. -/
def signature : List UInt8 := [0x47, 0x49, 0x46, 0x38, 0x39, 0x61]

/-- The frame is shown without delay and left in place. -/
def control : List UInt8 := [0x21, 0xF9, 0x04, 0x04, 0x00, 0x00, 0x00, 0x00]

/-- The first byte of a frame. -/
def separator : UInt8 := 0x2C

/-- The last byte of the file. -/
def trailer : UInt8 := 0x3B

/-- The bytes before the code stream, the code size last. -/
def opening (g : Gif) : List UInt8 :=
  signature ++ ByteOrder.low16 g.width ++ ByteOrder.low16 g.height ++ [0x80, 0x00, 0x00] ++
    g.palette ++ control ++ separator :: (ByteOrder.low16 g.frame.left ++
    ByteOrder.low16 g.frame.top ++ ByteOrder.low16 g.frame.width ++
    ByteOrder.low16 g.frame.height ++ [0x00, UInt8.ofNat (Lzw.codeSize g.frame.pixels)])

/-- The bytes after the code stream: the empty block that ends it, and the trailer. -/
def closing : List UInt8 := [0x00, trailer]

/-- Largest number of bytes in a block of the code stream. -/
def blockLimit : Nat := 255

/-- A code stream from an offset on, in blocks with their length in front, behind what is already
written. -/
def blocksOnto (codes out : Array UInt8) (offset : Nat) : Array UInt8 :=
  if codes.size ≤ offset then out
  else
    let block := codes.extract offset (offset + blockLimit)
    blocksOnto codes (out.push (UInt8.ofNat block.size) ++ block) (offset + blockLimit)
termination_by codes.size - offset
decreasing_by
  simp only [blockLimit]
  omega

/-- The bytes of the file. -/
def bytes (g : Gif) : Array UInt8 :=
  let codes := Lzw.stream (Lzw.codeSize g.frame.pixels) g.frame.pixels
  blocksOnto codes g.opening.toArray 0 ++ closing.toArray

/-- A bitmap fits a GIF exactly if both its sizes are within the limit. -/
theorem isOk_ofBitmap_iff (b : Bitmap) :
    (ofBitmap b).isOk = true ↔ b.width ≤ sizeLimit ∧ b.height ≤ sizeLimit := by
  by_cases w : sizeLimit < b.width <;> by_cases h : sizeLimit < b.height <;>
    simp [ofBitmap, w, h, Except.isOk, Except.toBool, Nat.le_of_not_lt, Nat.not_le_of_lt]

end Gif
end Image
end DotMatrix
