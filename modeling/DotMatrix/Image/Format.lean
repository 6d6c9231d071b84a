import DotMatrix.Failure
import DotMatrix.Path

/-!
# Picture formats

A page is written as a GIF or as a PNG file.  The format follows from the extension of a path, in
any case of its ASCII letters; `apng` is another extension of PNG.
-/

namespace DotMatrix
namespace Image

/-- A picture file format. -/
inductive Format where
  | gif
  | png
  deriving DecidableEq, Repr

namespace Format

instance : Inhabited Format := ⟨gif⟩

/-- The name of a format, which is also its extension. -/
def name : Format → String
  | gif => "gif"
  | png => "png"

/-- The extension of a format, in bytes. -/
def extension (f : Format) : List UInt8 := Utf8.encode f.name

/-- The format of a lower-case extension. -/
def ofExtension? (extension : String) : Option Format :=
  if extension = "gif" then some gif
  else if extension = "png" ∨ extension = "apng" then some png
  else none

/-- A byte with the case of an ASCII capital letter lowered. -/
def lowered (b : UInt8) : UInt8 := if 0x41 ≤ b ∧ b ≤ 0x5A then b + 0x20 else b

/-- The extension of a path in lower case, if it is undamaged text; empty text otherwise. -/
def extensionText (p : Path) : String :=
  ((p.extension?.bind fun extension => Utf8.text? (extension.map lowered))).getD ""

/-- The format of a path.  A failure names its extension, or the whole path if the extension is
missing, empty or no text. -/
def ofPath (p : Path) : Except Failure Format :=
  let extension := extensionText p
  match ofExtension? extension with
  | some format => .ok format
  | none => .error (.unsupportedFormat (if extension = "" then p.display else extension))

end Format
end Image
end DotMatrix
