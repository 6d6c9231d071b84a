import DotMatrix.Bitmap
import DotMatrix.Failure
import DotMatrix.Image.Deflate

/-!
# PNG files

A PNG file here is indexed with one bit to the pixel.  Its header stores the width and the height in
thirty-two bits, and only the low thirty-two bits of a larger size reach it.  No size is changed by
that: a size of zero is refused, the width first, and so are packed rows that do not have the length
that the header demands.
-/

namespace DotMatrix
namespace Image

/-- An indexed PNG file with one bit to the pixel. -/
structure Png where
  /-- Pixels in a row. -/
  width : UInt32
  /-- Number of rows. -/
  height : UInt32
  /-- Red, green and blue of every palette index. -/
  palette : List UInt8
  /-- The packed rows. -/
  data : Array UInt8
  /-- The rows are complete. -/
  size_eq : data.size = rowBytes width.toNat * height.toNat
  deriving DecidableEq

namespace Png

/-- The file of a bitmap. -/
def ofBitmap (b : Bitmap) : Except Failure Png :=
  let width := UInt32.ofNat b.width
  let height := UInt32.ofNat b.height
  let data := b.packed.bytes
  if width = 0 then .error (.image .pngZeroWidth)
  else if height = 0 then .error (.image .pngZeroHeight)
  else if h : data.size = rowBytes width.toNat * height.toNat then
    .ok ⟨width, height, Palette.bytes, data, h⟩
  else .error (.image (.pngDataLength (rowBytes width.toNat * height.toNat) data.size))

/-- The packed rows with their size. -/
def rows (p : Png) : PackedRows := ⟨p.width.toNat, p.height.toNat, p.data, p.size_eq⟩

/-- Data of the header chunk: the size, one bit to the pixel, indexed colours, and the standard
compression, filters and order of rows. -/
def header (p : Png) : List UInt8 :=
  ByteOrder.high32 p.width ++ ByteOrder.high32 p.height ++ [0x01, 0x03, 0x00, 0x00, 0x00]

/-- A part of a PNG file. -/
structure Chunk where
  /-- The four letters of the chunk. -/
  name : String
  /-- What is in it. -/
  data : Array UInt8

/-- A row of packed bytes behind the mark for an unfiltered row. -/
def unfiltered (p : Png) (y : Nat) : Array UInt8 :=
  let width := rowBytes p.width.toNat
  #[0x00] ++ p.data.extract (y * width) ((y + 1) * width)

/-- All rows, each behind its mark. -/
def scanlines (p : Png) : Array UInt8 :=
  (List.range p.height.toNat).foldl (fun out y => out ++ p.unfiltered y) #[]

/-- The name of the header chunk. -/
def headerName : String := "IHDR"

/-- The name of the palette chunk. -/
def paletteName : String := "PLTE"

/-- The name of the data chunk. -/
def dataName : String := "IDAT"

/-- The name of the closing chunk. -/
def endName : String := "IEND"

/-- The chunks of the file. -/
def chunks (p : Png) : List Chunk :=
  [⟨headerName, p.header.toArray⟩, ⟨paletteName, p.palette.toArray⟩,
    ⟨dataName, Deflate.stored p.scanlines⟩, ⟨endName, #[]⟩]

/-- A chunk in the file: length, name, data and checksum. -/
def Chunk.bytes (c : Chunk) : Array UInt8 :=
  let checked := c.name.toUTF8.data ++ c.data
  (ByteOrder.high32 (UInt32.ofNat c.data.size)).toArray ++ checked ++
    (ByteOrder.high32 (Checksum.crc32 checked)).toArray

/-- The signature of the file. -/
def signature : List UInt8 := [0x89, 0x50, 0x4E, 0x47, 0x0D, 0x0A, 0x1A, 0x0A]

/-- The bytes of the file. -/
def bytes (p : Png) : Array UInt8 :=
  p.chunks.foldl (fun out c => out ++ c.bytes) signature.toArray

end Png
end Image
end DotMatrix
