import DotMatrix.Json
import DotMatrix.Report

/-!
# The report as JSON

The fields of a report stand in the order in which the report declares them, the diagnostics last.
A diagnostic is an object whose first field, `kind`, tells which of the five it is.  The opcode of a
truncated command is null when the stream ends on the escape.
-/

namespace DotMatrix

namespace Position

/-- The fields of a position. -/
def fields (p : Position) : List (String × Json) := [("x", .number p.x), ("y", .number p.y)]

end Position

namespace Diagnostic

/-- The name of a diagnostic's kind. -/
def kind : Diagnostic → String
  | printable _ _ => "printable"
  | unknownControl _ _ _ => "unknown_control"
  | unknownEscape _ _ => "unknown_escape"
  | truncatedCommand _ _ => "truncated_command"
  | truncatedBitImage _ _ _ => "truncated_bit_image"

/-- The fields of a diagnostic after its kind and its offset. -/
def details : Diagnostic → List (String × Json)
  | printable _ b | unknownEscape _ b => [("byte", .number b.toNat)]
  | unknownControl _ b p => ("byte", .number b.toNat) :: p.fields
  | truncatedCommand _ none => [("command", .null)]
  | truncatedCommand _ (some b) => [("command", .number b.toNat)]
  | truncatedBitImage _ declared available =>
    [("declared", .number declared), ("available", .number available)]

/-- A diagnostic as a value. -/
def toJson (d : Diagnostic) : Json :=
  .object (("kind", .text d.kind) :: ("pos", .number d.offset) :: d.details)

end Diagnostic

namespace Report

/-- A report as a value. -/
def toJson (r : Report) : Json :=
  .object
    [("bytes", .number r.bytes),
     ("bit_images", .number r.bitImages),
     ("columns", .number r.columns),
     ("line_feeds", .number r.lineFeeds),
     ("cursor", .object r.cursor.fields),
     ("line_feed", .number r.pitch.toNat),
     ("max_x", .number r.maxX),
     ("max_y", .number r.maxY),
     ("diagnostics", .list (r.diagnostics.map Diagnostic.toJson))]

/-- The report as text. -/
def pretty (r : Report) : String := r.toJson.pretty

end Report
end DotMatrix
