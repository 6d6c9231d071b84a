import DotMatrix.Proofs.Truncation

/-!
# Decoding a stream in two parts

A stream that does not end inside a command can be decoded on its own, and what follows it can be
decoded later, on the canvas and with the head that the first part has left.  No token looks past
its own bytes but the escape before a byte that is no opcode, and that byte belongs to the same
part.

The second decode counts from zero.  `Printer.behind` puts back what the first part has counted, and
the printer does not notice (`behind_run`).
-/

namespace DotMatrix

/-- The diagnostic with another offset. -/
def Diagnostic.mapOffset (f : Nat → Nat) : Diagnostic → Diagnostic
  | printable n b => printable (f n) b
  | unknownControl n b p => unknownControl (f n) b p
  | unknownEscape n b => unknownEscape (f n) b
  | truncatedCommand n op => truncatedCommand (f n) op
  | truncatedBitImage n declared available => truncatedBitImage (f n) declared available

/-- The report on two parts of a stream, the second decoded where the first has ended: counters are
added, the offsets of the second part move by the length of the first, and what does not count is as
the second part has left it. -/
def Report.followedBy (r q : Report) : Report where
  bytes := r.bytes + q.bytes
  bitImages := r.bitImages + q.bitImages
  columns := r.columns + q.columns
  lineFeeds := r.lineFeeds + q.lineFeeds
  cursor := q.cursor
  pitch := q.pitch
  maxX := q.maxX
  maxY := q.maxY
  diagnostics := r.diagnostics ++ q.diagnostics.map (Diagnostic.mapOffset (r.bytes + ·))

namespace Printer

/-- The printer `p` with what the printer `q` has counted and noted before it. -/
def behind (q p : Printer) : Printer where
  offset := q.offset + p.offset
  head := p.head
  canvas := p.canvas
  bitImages := q.bitImages + p.bitImages
  columns := q.columns + p.columns
  lineFeeds := q.lineFeeds + p.lineFeeds
  diagnostics := q.diagnostics ++ p.diagnostics.map (Diagnostic.mapOffset (q.offset + ·))

theorem behind_start (q : Printer) : q.behind (start q.canvas q.head) = q := by
  simp [behind, start]

theorem report_behind (q p : Printer) : (q.behind p).report = q.report.followedBy p.report := rfl

theorem behind_skip (q p : Printer) (n : Nat) : (q.behind p).skip n = q.behind (p.skip n) := by
  simp [behind, skip, Nat.add_assoc]

theorem behind_note (q p : Printer) (d : Diagnostic) :
    (q.behind p).note (d.mapOffset (q.offset + ·)) = q.behind (p.note d) := by
  simp [behind, note]

theorem behind_strike (q p : Printer) (i : BitImage) :
    (q.behind p).strike i = q.behind (p.strike i) := by
  simp [behind, strike, Nat.add_assoc]

theorem behind_feed (q p : Printer) : (q.behind p).feed = q.behind p.feed :=
  Printer.ext (Nat.add_assoc _ _ _) rfl rfl rfl rfl (Nat.add_assoc _ _ _) rfl

/-- A token does not depend on what was counted before. -/
theorem behind_after (q p : Printer) (t : Token) : (q.behind p).after t = q.behind (p.after t) := by
  cases t with
  | command c =>
    cases c with
    | lineFeed => exact behind_feed q p
    | reset => exact behind_skip q p 2
    | lineSpacing n => simp [after, skip, behind, Nat.add_assoc]
    | cancelItalic n | leftMargin n => exact behind_skip q p 3
    | bitImage i => exact behind_strike q p i
  | strayEscape b | text b | control b | cutHeader bs =>
    simp only [after]
    rw [← behind_skip, ← behind_note]
    rfl
  | cutImage i =>
    simp only [after]
    rw [← behind_strike, ← behind_note]
    rfl

theorem behind_run (q p : Printer) (ts : List Token) :
    (q.behind p).run ts = q.behind (p.run ts) := by
  induction ts generalizing p with
  | nil => rfl
  | cons t ts ih => rw [run_cons, run_cons, behind_after, ih]

/-- A run goes on as a new run from the canvas and the head at hand. -/
theorem run_eq_behind (q : Printer) (ts : List Token) :
    q.run ts = q.behind ((start q.canvas q.head).run ts) := by
  rw [← behind_run, behind_start]

end Printer

/-- What follows a stream without a cut token is split on its own. -/
theorem tokens_append_of_remainder_eq_nil {a : List UInt8} (whole : remainder a = [])
    (b : List UInt8) : tokens (a ++ b) = tokens a ++ tokens b := by
  rw [tokens_append, tokens_eq_wholeTokens_append a, whole, tokens_nil, List.append_nil,
    List.nil_append]

/-- **Decoding in two parts.**  If the decode of the first part of a stream notes no truncation,
then the second part can be decoded on its own, on the canvas and with the head and the pitch that
the first part has left.  The canvas is then that of the whole stream, and the two reports make up
the report on the whole stream. -/
theorem decode_append (p : Page) (a b : List UInt8)
    (whole : ∀ d ∈ (decode p a).report.diagnostics, ¬d.IsTruncation) :
    let first := decode p a
    let second := decodeOnto first.canvas ⟨first.report.cursor, first.report.pitch⟩ b
    (decode p (a ++ b)).canvas = second.canvas ∧
      (decode p (a ++ b)).report = first.report.followedBy second.report := by
  have split := tokens_append_of_remainder_eq_nil (remainder_eq_nil whole) b
  have run : p.printer.run (tokens (a ++ b)) =
      (p.printer.run (tokens a)).behind
        ((Printer.start (decode p a).canvas
          ⟨(decode p a).report.cursor, (decode p a).report.pitch⟩).run (tokens b)) := by
    rw [split, Printer.run_append, Printer.run_eq_behind, canvas_decode, report_decode]
    rfl
  refine ⟨?_, ?_⟩
  · rw [canvas_decode, run, canvas_decodeOnto]
    rfl
  · rw [report_decode, run, Printer.report_behind, report_decodeOnto, report_decode p a]

/-- A first part that ends in text, with an escape before a line feed and a bit image whose payload
holds an escape and a line feed, and a second part that a bit image ends. -/
theorem decode_append_stray_escape :
    let p : Page := ⟨"narrow", 8, 32, 1, 34⟩
    let a : List UInt8 :=
      [0x1B, 0x33, 0x02, 0x1B, 0x0A, 0x1B, 0x2A, 0x00, 0x02, 0x00, 0x1B, 0x0A, 0x41, 0x07]
    let b : List UInt8 := [0x1B, 0x4C, 0x03, 0x00, 0xFF]
    let first := decode p a
    let second := decodeOnto first.canvas ⟨first.report.cursor, first.report.pitch⟩ b
    (∀ d ∈ first.report.diagnostics, ¬d.IsTruncation) ∧
      first.report.diagnostics =
        [.unknownEscape 3 0x0A, .printable 12 0x41, .unknownControl 13 0x07 ⟨2, 1⟩] ∧
      second.report.diagnostics = [.truncatedBitImage 0 3 1] ∧
      (decode p (a ++ b)).canvas = second.canvas ∧
      (decode p (a ++ b)).report = first.report.followedBy second.report :=
  ⟨by decide +kernel, by decide +kernel, by decide +kernel,
    decode_append _ _ _ (by decide +kernel)⟩

end DotMatrix
