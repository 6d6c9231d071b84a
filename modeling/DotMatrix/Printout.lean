import DotMatrix.Render
import DotMatrix.Scanner

/-!
# Decoding and rendering in words

`decode` works on a page without thinking of memory, and it cannot fail.  A machine allocates the
page, scans the stream and crops the page in words, each of which may end in a panic.  What it has
in the end is a `Printout`, and `render` has its counterpart in `renderIn`, where the cropped page
is handed to the sink in the same way.
-/

namespace DotMatrix

/-- A stream decoded by a machine. -/
structure Printout where
  /-- The page with its ink. -/
  memory : Memory
  /-- The summary. -/
  report : Report
  /-- What happened on the way. -/
  log : List Log.Record

variable {m : Type → Type} [Monad m]

/-- Decode a stream onto a page of paper. -/
def decodeIn (b : Build) (p : Page) (s : List UInt8) : Except Panic Printout := do
  let data := s.toArray
  let scanned ← Scanner.scan b p data
  let report := scanned.report data.size
  return ⟨scanned.memory, report, scanned.log.toList ++ [report.closing]⟩

/-- Decode a stream onto a page and crop it. -/
def cropIn (b : Build) (p : Page) (s : List UInt8) : Except Panic (Printout × Option Bitmap) := do
  let d ← decodeIn b p s
  return (d, ← d.memory.crop b)

/-- Decode a stream onto a page and hand the picture, if there is one, to a sink. -/
def renderIn (b : Build) (p : Page) (s : List UInt8) (sink : Bitmap → m (Outcome Unit)) :
    m (Except Panic (Outcome Report)) :=
  match cropIn b p s with
  | .error panic => return .error panic
  | .ok (d, none) => return .ok ⟨d.log ++ [.nothingDrawn], .ok d.report⟩
  | .ok (d, some picture) => do
    let delivered ← sink picture
    return .ok ⟨d.log ++ delivered.log, delivered.result.map fun _ => d.report⟩

end DotMatrix
