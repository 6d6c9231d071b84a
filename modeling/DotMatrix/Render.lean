import DotMatrix.Decode
import DotMatrix.FileAccess
import DotMatrix.Outcome

/-!
# Rendering a stream

Rendering decodes a stream and hands the cropped page to a sink, at most once: a page without a
picture reaches no sink.  If the sink fails, so does the rendering, with the sink's failure;
otherwise the result is the report of the decode.

`PictureFile.deliver` is the sink that writes the page to a file.  Making the picture comes first,
so that a page that does not fit the format leaves the file as it was.
-/

namespace DotMatrix

variable {m : Type → Type} [Monad m]

/-- Decode a stream onto a page and hand the picture, if there is one, to a sink. -/
def render (p : Page) (s : List UInt8) (sink : Bitmap → m (Outcome Unit)) : m (Outcome Report) :=
  let d := decode p s
  match d.bitmap? with
  | none => return ⟨d.log ++ [.nothingDrawn], .ok d.report⟩
  | some b => do
    let delivered ← sink b
    return ⟨d.log ++ delivered.log, delivered.result.map fun _ => d.report⟩

/-- A file to write a page to. -/
structure PictureFile where
  /-- Where the file is. -/
  path : Path
  /-- The format of the picture. -/
  format : Image.Format
  deriving DecidableEq, Repr

namespace PictureFile

/-- The file at a path, in the format of its extension. -/
def ofPath (p : Path) : Except Failure PictureFile :=
  (Image.Format.ofPath p).map fun format => ⟨p, format⟩

/-- What becomes of the answer to writing a page. -/
def ofAnswer (f : PictureFile) (b : Bitmap) : Except FileFault Unit → Outcome Unit
  | .error fault => ⟨[], .error (.file fault)⟩
  | .ok () => ⟨[.wrote b.width b.height f.format f.path], .ok ()⟩

/-- Write a page to the file. -/
def deliver (files : FileAccess m) (f : PictureFile) (b : Bitmap) : m (Outcome Unit) :=
  match Image.File.ofBitmap b f.format with
  | .error failure => return ⟨[], .error failure⟩
  | .ok picture => do
    return f.ofAnswer b (← files.write f.path picture)

end PictureFile
end DotMatrix
