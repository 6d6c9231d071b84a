import DotMatrix.Diagnostic
import DotMatrix.Image.Format

/-!
# The log

A log is a list of records in the order in which things happened.  What a record says is kept as
data, and its level and its text are functions of it.  The levels are ordered from `error` to
`trace`; a reader chooses how far down to look, and `Log.upTo` leaves out what lies below.
-/

namespace DotMatrix
namespace Log

/-- How much a record matters, most important first. -/
inductive Level where
  | error
  | warn
  | info
  | debug
  | trace
  deriving DecidableEq, Repr

namespace Level

/-- Place of a level in the order, errors first. -/
def rank : Level → Nat
  | error => 1
  | warn => 2
  | info => 3
  | debug => 4
  | trace => 5

/-- Name of a level. -/
def name : Level → String
  | error => "error"
  | warn => "warn"
  | info => "info"
  | debug => "debug"
  | trace => "trace"

/-- Name of a level in capital letters. -/
def label : Level → String
  | error => "ERROR"
  | warn => "WARN"
  | info => "INFO"
  | debug => "DEBUG"
  | trace => "TRACE"

end Level

end Log

namespace Diagnostic

/-- The level of a diagnostic: skipped bytes are details, damaged commands are warnings. -/
def level : Diagnostic → Log.Level
  | printable _ _ | unknownControl _ _ _ => .debug
  | unknownEscape _ _ | truncatedCommand _ _ | truncatedBitImage _ _ _ => .warn

end Diagnostic

namespace Log

/-- Something that happened. -/
inductive Record where
  /-- A diagnostic was recorded. -/
  | diagnostic (d : Diagnostic)
  /-- A line spacing command set the pitch. -/
  | lineSpacing (offset : Nat) (pitch : UInt8)
  /-- A bit image was struck, the head standing at the given position before it. -/
  | bitImage (offset : Nat) (mode : UInt8) (count : Count) (head : Position)
  /-- A stream was decoded to its end. -/
  | decoded (maxX maxY bitImages lineFeeds : Nat)
  /-- A page without a picture was not written. -/
  | nothingDrawn
  /-- A picture was written to a file. -/
  | wrote (width height : Nat) (format : Image.Format) (path : Path)
  /-- A capture of some bytes was read. -/
  | captureSize (n : Nat)
  deriving DecidableEq, Repr

namespace Record

/-- Level of a record. -/
def level : Record → Level
  | diagnostic d => d.level
  | lineSpacing _ _ | bitImage _ _ _ _ => .trace
  | decoded _ _ _ _ | nothingDrawn | wrote _ _ _ _ | captureSize _ => .info

/-- Text of a record. -/
def text : Record → String
  | diagnostic d => d.text
  | lineSpacing offset pitch =>
    Diagnostic.offsetText offset ++ "line spacing " ++ pitch.toNat.repr
  | bitImage offset mode count head =>
    Diagnostic.offsetText offset ++ "bit image mode " ++ mode.toNat.repr ++ " " ++
      count.low.toNat.repr ++ "x" ++ count.high.toNat.repr ++ " at " ++ head.x.repr ++ "," ++
      head.y.repr
  | decoded maxX maxY bitImages lineFeeds =>
    "Pixel size " ++ maxX.repr ++ "," ++ maxY.repr ++ " (" ++ bitImages.repr ++ " bit images, " ++
      lineFeeds.repr ++ " line feeds)"
  | nothingDrawn => "Nothing drawn, no image written"
  | wrote width height format path =>
    "Wrote " ++ width.repr ++ "x" ++ height.repr ++ " " ++ format.name ++ " to " ++ path.display
  | captureSize n => "File size: " ++ n.repr

end Record

/-- The records up to a level; without a level, none. -/
def upTo (limit : Option Level) (records : List Record) : List Record :=
  match limit with
  | none => []
  | some limit => records.filter fun r => decide (r.level.rank ≤ limit.rank)

end Log
end DotMatrix
