import DotMatrix.Report
import DotMatrix.Walk

/-!
# Decoding a stream onto a page

Decoding walks the stream and reads off the walk what the page looks like, what there is to report
and what there is to log.  It cannot fail: bytes that mean nothing are skipped, and a stream that
ends inside a command is decoded up to there.
-/

namespace DotMatrix

/-- A decoded stream. -/
structure Decoded where
  /-- The page with its ink. -/
  canvas : Canvas
  /-- The summary. -/
  report : Report
  /-- What happened on the way. -/
  log : List Log.Record

namespace Decoded

/-- The cropped page, if it has a picture. -/
def bitmap? (d : Decoded) : Option Bitmap := d.canvas.cropped?

end Decoded

/-- The summary of a walk and of the canvas it left. -/
def Report.ofWalk (w : Walk) (c : Canvas) : Report where
  bytes := w.offset
  bitImages := w.bitImages
  columns := w.columns
  lineFeeds := w.lineFeeds
  cursor := w.head.toPosition
  pitch := w.head.pitch
  maxX := c.maxX
  maxY := c.maxY
  diagnostics := w.diagnostics

/-- The record made at the end of a decode. -/
def Report.closing (r : Report) : Log.Record := .decoded r.maxX r.maxY r.bitImages r.lineFeeds

/-- Decode a stream onto a blank page. -/
def decode (p : Page) (s : List UInt8) : Decoded :=
  let w := Walk.ofStream p.pitch s
  let c := w.canvas p
  let r := Report.ofWalk w c
  ⟨c, r, w.records ++ [r.closing]⟩

/-- The report counts the bytes of the stream. -/
@[simp] theorem bytes_decode (p : Page) (s : List UInt8) : (decode p s).report.bytes = s.length :=
  Walk.offset_ofStream p.pitch s

/-- A decode has a picture exactly if its report is not blank. -/
theorem bitmap?_decode_eq_none_iff (p : Page) (s : List UInt8) :
    (decode p s).bitmap? = none ↔ (decode p s).report.IsBlank := by
  rw [Decoded.bitmap?, Canvas.cropped?_eq_none_iff]
  rfl

end DotMatrix
