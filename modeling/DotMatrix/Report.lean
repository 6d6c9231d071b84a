import DotMatrix.Diagnostic

/-!
# The report of a decode

A report sums up one pass over a stream: how much there was of everything, where the head ended and
in what pitch, how far the ink reaches, and the diagnostics in the order of the stream.
-/

namespace DotMatrix

/-- Summary of one decode. -/
structure Report where
  /-- Length of the stream. -/
  bytes : Nat
  /-- Bit images, complete or cut. -/
  bitImages : Nat
  /-- Payload bytes struck as columns. -/
  columns : Nat
  /-- Line feeds. -/
  lineFeeds : Nat
  /-- Where the head ended. -/
  cursor : Position
  /-- The line pitch in force at the end. -/
  pitch : UInt8
  /-- Largest painted column. -/
  maxX : Nat
  /-- Largest painted row. -/
  maxY : Nat
  /-- What was skipped or could not be finished. -/
  diagnostics : List Diagnostic
  deriving DecidableEq, Repr

namespace Report

/-- The decode has no picture: one of the extents of the ink is zero. -/
def IsBlank (r : Report) : Prop := r.maxX = 0 ∨ r.maxY = 0

instance (r : Report) : Decidable r.IsBlank :=
  inferInstanceAs (Decidable (r.maxX = 0 ∨ r.maxY = 0))

/-- The diagnostics that are not about text. -/
def anomalies (r : Report) : List Diagnostic := r.diagnostics.filter fun d => ¬d.IsPrintable

end Report
end DotMatrix
