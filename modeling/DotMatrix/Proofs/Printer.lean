import DotMatrix.Decode

/-!
# The printer at work

`decode` walks a stream first and reads everything else off the walk.  A printer does it all at
once: it takes one token after the other, strikes and moves and counts and notes.  `Printer` is what
is known after some tokens, and `Printer.after` is the table of what each kind of token does to it.

* Only a line feed, a line spacing and a bit image do more than move the offset or leave a note.
* A bit image that is cut short is noted and then struck as far as it goes.
* A header that is cut short is noted and does nothing.

`canvas_decode` and `report_decode` say that a decode is a run of the printer over the tokens of the
stream.  The printer can be started on any canvas, with the head anywhere and in any pitch, and
`decodeOnto` is the decode that starts there.
-/

namespace DotMatrix

/-! ## Decoding onto a used page -/

/-- Decode a stream onto a canvas, starting with the head where it stands. -/
def decodeOnto (c : Canvas) (h : Head) (s : List UInt8) : Decoded :=
  let w := (Walk.startAt h).steps (tokens s)
  let canvas := c.after w.trail
  let r := Report.ofWalk w canvas
  ⟨canvas, r, w.records ++ [r.closing]⟩

/-- The printer after some tokens of a stream. -/
@[ext]
structure Printer where
  /-- Bytes taken so far. -/
  offset : Nat
  head : Head
  canvas : Canvas
  bitImages : Nat
  columns : Nat
  lineFeeds : Nat
  diagnostics : List Diagnostic

namespace Printer

/-- The printer before the first token. -/
def start (c : Canvas) (h : Head) : Printer := ⟨0, h, c, 0, 0, 0, []⟩

/-- Take bytes without doing anything. -/
def skip (p : Printer) (n : Nat) : Printer := { p with offset := p.offset + n }

/-- Leave a note. -/
def note (p : Printer) (d : Diagnostic) : Printer := { p with diagnostics := p.diagnostics ++ [d] }

/-- Strike the columns of a bit image and move the head past them. -/
def strike (p : Printer) (i : BitImage) : Printer :=
  { p with
    offset := p.offset + (i.header.length + i.payload.length)
    head := { p.head with x := p.head.x + i.payload.length }
    canvas := p.canvas.strike p.head.toPosition i
    bitImages := p.bitImages + 1
    columns := p.columns + i.payload.length }

/-- Feed a line.  A pitch below four feeds one row and is two from then on. -/
def feed (p : Printer) : Printer :=
  { p with
    offset := p.offset + 1
    head :=
      if p.head.pitch < 4 then ⟨⟨0, p.head.y + 1⟩, 2⟩
      else ⟨⟨0, p.head.y + p.head.pitch.toNat / 2⟩, p.head.pitch⟩
    lineFeeds := p.lineFeeds + 1 }

/-- The printer after one more token. -/
def after (p : Printer) : Token → Printer
  | .command .lineFeed => p.feed
  | .command .reset => p.skip 2
  | .command (.lineSpacing n) => { p.skip 3 with head := { p.head with pitch := n } }
  | .command (.cancelItalic _) | .command (.leftMargin _) => p.skip 3
  | .command (.bitImage i) => p.strike i
  | .strayEscape b => (p.note (.unknownEscape p.offset b)).skip 1
  | .text b => (p.note (.printable p.offset b)).skip 1
  | .control b => (p.note (.unknownControl p.offset b p.head.toPosition)).skip 1
  | .cutHeader bs => (p.note (.truncatedCommand p.offset bs.head?)).skip (bs.length + 1)
  | .cutImage i => (p.note (.truncatedBitImage p.offset i.declared i.payload.length)).strike i

/-- The printer after more tokens. -/
def run (p : Printer) (ts : List Token) : Printer := ts.foldl after p

@[simp] theorem run_nil (p : Printer) : p.run [] = p := rfl

@[simp] theorem run_cons (p : Printer) (t : Token) (ts : List Token) :
    p.run (t :: ts) = (p.after t).run ts := rfl

theorem run_append (p : Printer) (ts us : List Token) : p.run (ts ++ us) = (p.run ts).run us :=
  List.foldl_append

/-- What the printer has to report. -/
def report (p : Printer) : Report where
  bytes := p.offset
  bitImages := p.bitImages
  columns := p.columns
  lineFeeds := p.lineFeeds
  cursor := p.head.toPosition
  pitch := p.head.pitch
  maxX := p.canvas.maxX
  maxY := p.canvas.maxY
  diagnostics := p.diagnostics

/-! ## The printer and the walk -/

theorem feed_eq (h : Head) :
    h.feed = if h.pitch < 4 then ⟨⟨0, h.y + 1⟩, 2⟩
      else ⟨⟨0, h.y + h.pitch.toNat / 2⟩, h.pitch⟩ := by
  by_cases degenerate : h.pitch < 4
  · have settled : Head.settle h.pitch = 2 := if_pos degenerate
    rw [if_pos degenerate, Head.feed, Head.advance, settled]
    rfl
  · have settled : Head.settle h.pitch = h.pitch := if_neg degenerate
    rw [if_neg degenerate, Head.feed, Head.advance, settled]

/-- A token does to the printer what the event of the token says. -/
theorem after_eq (p : Printer) (t : Token) :
    p.after t =
      { offset := p.offset + t.length
        head := p.head.after t
        canvas := Event.strike p.canvas ⟨p.offset, p.head, t⟩
        bitImages := p.bitImages + [Event.mk p.offset p.head t].countP Event.isBitImage
        columns := p.columns + Event.columns ⟨p.offset, p.head, t⟩
        lineFeeds := p.lineFeeds + [Event.mk p.offset p.head t].countP Event.isLineFeed
        diagnostics := p.diagnostics ++ (Event.diagnostic? ⟨p.offset, p.head, t⟩).toList } := by
  cases t with
  | command c =>
    cases c with
    | lineFeed =>
      simp [after, feed, Token.length, Head.after, feed_eq, Event.strike, Event.isBitImage,
        Event.columns, Event.isLineFeed, Event.diagnostic?, Token.image?]
    | bitImage i =>
      simp [after, strike, Token.length, Head.after, Position.right, Event.strike,
        Event.isBitImage, Event.columns, Event.isLineFeed, Event.diagnostic?, Token.image?]
    | _ =>
      simp [after, skip, Token.length, Head.after, Event.strike, Event.isBitImage,
        Event.columns, Event.isLineFeed, Event.diagnostic?, Token.image?]
  | cutImage i =>
    simp [after, note, strike, Token.length, Head.after, Position.right, Event.strike,
      Event.isBitImage, Event.columns, Event.isLineFeed, Event.diagnostic?, Token.image?]
  | _ =>
    simp [after, note, skip, Token.length, Head.after, Event.strike, Event.isBitImage,
      Event.columns, Event.isLineFeed, Event.diagnostic?, Token.image?]

/-- A run does to the printer what the trail of its tokens says. -/
theorem run_eq (p : Printer) (ts : List Token) :
    p.run ts =
      { offset := p.offset + (ts.flatMap Token.bytes).length
        head := ts.foldl Head.after p.head
        canvas := p.canvas.after (Event.trail p.offset p.head ts)
        bitImages := p.bitImages + (Event.trail p.offset p.head ts).countP Event.isBitImage
        columns := p.columns +
          (Event.trail p.offset p.head ts).foldr (fun e n => e.columns + n) 0
        lineFeeds := p.lineFeeds + (Event.trail p.offset p.head ts).countP Event.isLineFeed
        diagnostics := p.diagnostics ++
          (Event.trail p.offset p.head ts).filterMap Event.diagnostic? } := by
  induction ts generalizing p with
  | nil => simp [Event.trail]
  | cons t ts ih =>
    rw [run_cons, ih, after_eq, Event.trail]
    simp only [List.flatMap_cons, List.length_append, Token.length_bytes, List.foldl_cons,
      Canvas.after_cons, List.foldr_cons, Printer.mk.injEq, true_and]
    refine ⟨Nat.add_assoc _ _ _, ?_, Nat.add_assoc _ _ _, ?_, ?_⟩
    · rw [Nat.add_assoc, ← List.countP_append, List.singleton_append]
    · rw [Nat.add_assoc, ← List.countP_append, List.singleton_append]
    · rw [List.append_assoc]
      cases d : Event.diagnostic? ⟨p.offset, p.head, t⟩ <;> simp [d]

end Printer

/-! ## The printer and the decode -/

/-- A walk that has taken some tokens leaves the canvas and the report that the printer leaves. -/
theorem walk_steps_eq (c : Canvas) (h : Head) (ts : List Token) :
    let w := (Walk.startAt h).steps ts
    c.after w.trail = ((Printer.start c h).run ts).canvas ∧
      Report.ofWalk w (c.after w.trail) = ((Printer.start c h).run ts).report := by
  intro w
  have trail : w.trail = Event.trail 0 h ts := Walk.events_steps _ _
  have head : w.head = ts.foldl Head.after h := Walk.head_steps _ _
  have offset : w.offset = 0 + (ts.flatMap Token.bytes).length := Walk.offset_steps _ _
  have canvas : c.after w.trail = ((Printer.start c h).run ts).canvas := by
    rw [Printer.run_eq, trail]
    rfl
  refine ⟨canvas, ?_⟩
  rw [Printer.report, ← canvas, Printer.run_eq]
  simp only [Report.ofWalk, Walk.bitImages, Walk.columns, Walk.lineFeeds, Walk.diagnostics, trail,
    head, offset, Printer.start, Nat.zero_add, List.nil_append]

/-- A decode onto a canvas leaves the canvas that the printer leaves. -/
theorem canvas_decodeOnto (c : Canvas) (h : Head) (s : List UInt8) :
    (decodeOnto c h s).canvas = ((Printer.start c h).run (tokens s)).canvas :=
  (walk_steps_eq c h (tokens s)).1

/-- A decode onto a canvas reports what the printer reports. -/
theorem report_decodeOnto (c : Canvas) (h : Head) (s : List UInt8) :
    (decodeOnto c h s).report = ((Printer.start c h).run (tokens s)).report :=
  (walk_steps_eq c h (tokens s)).2

/-- The printer of a page before a print job. -/
def Page.printer (p : Page) : Printer := .start (.blank p) (.home p.pitch)

theorem canvas_decode (p : Page) (s : List UInt8) :
    (decode p s).canvas = (p.printer.run (tokens s)).canvas :=
  canvas_decodeOnto _ _ s

theorem report_decode (p : Page) (s : List UInt8) :
    (decode p s).report = (p.printer.run (tokens s)).report :=
  report_decodeOnto _ _ s

end DotMatrix
