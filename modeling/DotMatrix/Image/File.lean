import DotMatrix.Image.Format
import DotMatrix.Image.Gif
import DotMatrix.Image.Png

/-!
# Picture files

A picture file is a GIF or a PNG file.  It is kept as what is stored in it, and written down as
bytes only when it leaves the program.
-/

namespace DotMatrix
namespace Image

/-- A picture file. -/
inductive File where
  | gif (g : Gif)
  | png (p : Png)
  deriving DecidableEq

namespace File

/-- The file of a bitmap in a format. -/
def ofBitmap (b : Bitmap) : Format → Except Failure File
  | .gif => (Gif.ofBitmap b).map gif
  | .png => (Png.ofBitmap b).map png

/-- The format of a file. -/
def format : File → Format
  | gif _ => .gif
  | png _ => .png

/-- The bytes of a file. -/
def bytes : File → Array UInt8
  | gif g => g.bytes
  | png p => p.bytes

end File
end Image
end DotMatrix
