import DotMatrix.Proofs.Clipping
import DotMatrix.Proofs.Movement
import DotMatrix.Proofs.Resumption

/-!
# Line feeds in front of a stream

Line feeds in front of a stream move the picture down and do nothing else to it.  They are decoded
first, on a page that they leave blank, and the stream is decoded from the head that they have left.
What has been counted by then is put back by `Printer.behind`; what is new here is that a decode
does not care in which row it starts.

`Printer.Lowered k p q` says that the printer `q` is the printer `p`, only `k` rows further down,
with as much of the ink as the page still catches.  Every token keeps that (`Lowered.after`), hence
every stream (`Lowered.run`).

Two printers that are related in this way need not remember the same pitch.  The first line feed
replaces a degenerate pitch of the page, so one of the printers may have replaced it and the other
may not.  What they have in common is the pitch that the next line feed works with, and that is all
that the rows depend on.  If the pitch of the page is not degenerate, then nothing is ever replaced
in one of them and not in the other (`Head.pitch_run_congr`).
-/

namespace DotMatrix

/-- The diagnostic with the head in another row. -/
def Diagnostic.mapRow (f : Nat → Nat) : Diagnostic → Diagnostic
  | unknownControl n b p => unknownControl n b ⟨p.x, f p.y⟩
  | d => d

/-! ## Further down -/

/-- Columns that are struck further down strike the cells further down. -/
theorem struck_lower_iff (columns : List UInt8) (p : Position) (k x y : Nat) :
    Struck columns ⟨p.x, p.y + k⟩ x y ↔ ∃ v, y = v + k ∧ Struck columns p x v := by
  constructor
  · rintro ⟨i, h, column, low, high, bit⟩
    simp only at column low high bit
    have row : y = y - k + k := by omega
    have same : y - (p.y + k) = y - k - p.y := by omega
    rw [same] at bit
    exact ⟨y - k, row, i, h, column, by omega, by omega, bit⟩
  · rintro ⟨v, rfl, i, h, column, low, high, bit⟩
    have same : v + k - (p.y + k) = v - p.y := Nat.add_sub_add_right v k p.y
    rw [← same] at bit
    exact ⟨i, h, column, Nat.add_le_add_right low k, by simp only; omega, bit⟩

/-- The head `g` is in the column of `h` and `k` rows further down, and the next line feed takes
both down by the same number of rows. -/
structure Head.Lowered (k : Nat) (h g : Head) : Prop where
  column : g.x = h.x
  row : g.y = h.y + k
  settled : settle g.pitch = settle h.pitch

theorem Head.Lowered.after {k : Nat} {h g : Head} (low : Lowered k h g) (t : Token) :
    Lowered k (h.after t) (g.after t) := by
  by_cases feed : t = .command .lineFeed
  · subst feed
    refine ⟨rfl, ?_, ?_⟩
    · show g.y + advance g.pitch = h.y + advance h.pitch + k
      rw [advance, advance, low.settled, low.row]
      omega
    · show settle (settle g.pitch) = settle (settle h.pitch)
      rw [low.settled]
  · rw [after_of_ne feed, after_of_ne feed]
    refine ⟨congrArg (· + t.columns) low.column, low.row, ?_⟩
    cases commanded : t.pitch? with
    | none => exact low.settled
    | some n => rfl

/-- The ink of the canvas `d` is that of `c`, `k` rows further down, as far as the page goes. -/
structure Canvas.Lowered (k : Nat) (c d : Canvas) : Prop where
  page : d.page = c.page
  ink : ∀ x y, d.ink x y = true ↔ d.page.Contains x y ∧ ∃ v, y = v + k ∧ c.ink x v = true

theorem Canvas.lowered_blank (k : Nat) (p : Page) : Lowered k (blank p) (blank p) where
  page := rfl
  ink x y := by
    refine iff_of_false (not_ink_blank p x y) ?_
    rintro ⟨-, v, -, inked⟩
    exact not_ink_blank p x v inked

theorem Canvas.Lowered.strike {k : Nat} {c d : Canvas} (low : Lowered k c d) (p : Position)
    (i : BitImage) : Lowered k (c.strike p i) (d.strike ⟨p.x, p.y + k⟩ i) where
  page := by rw [(painted_strike _ _ _).page, (painted_strike _ _ _).page, low.page]
  ink x y := by
    rw [ink_strike, low.ink, (painted_strike _ _ _).page, struck_lower_iff, ← and_or_left]
    refine and_congr_right fun inside => ?_
    rw [low.page] at inside
    constructor
    · rintro (⟨v, rfl, inked⟩ | ⟨v, rfl, struck⟩)
      · exact ⟨v, rfl, (ink_strike _ _ _ _ _).mpr (Or.inl inked)⟩
      · -- A row that is on the page further down is on the page.
        have above : c.page.Contains x v :=
          ⟨inside.1, Nat.lt_of_le_of_lt (Nat.le_add_right v k) inside.2⟩
        exact ⟨v, rfl, (ink_strike _ _ _ _ _).mpr (Or.inr ⟨above, struck⟩)⟩
    · rintro ⟨v, rfl, inked⟩
      rcases (ink_strike _ _ _ _ _).mp inked with old | ⟨-, struck⟩
      · exact Or.inl ⟨v, rfl, old⟩
      · exact Or.inr ⟨v, rfl, struck⟩

namespace Printer

/-- The printer `q` is the printer `p`, `k` rows further down. -/
structure Lowered (k : Nat) (p q : Printer) : Prop where
  offset : q.offset = p.offset
  head : Head.Lowered k p.head q.head
  canvas : Canvas.Lowered k p.canvas q.canvas
  bitImages : q.bitImages = p.bitImages
  columns : q.columns = p.columns
  lineFeeds : q.lineFeeds = p.lineFeeds
  diagnostics : q.diagnostics = p.diagnostics.map (Diagnostic.mapRow (· + k))

/-- A token is noted further down as it is noted here, in the row that it is in. -/
theorem diagnostic?_lowered {k : Nat} {h g : Head} (low : Head.Lowered k h g) (n : Nat)
    (t : Token) :
    Event.diagnostic? ⟨n, g, t⟩ =
      (Event.diagnostic? ⟨n, h, t⟩).map (Diagnostic.mapRow (· + k)) := by
  cases t with
  | control b =>
    have place : g.toPosition = ⟨h.x, h.y + k⟩ := by rw [← low.column, ← low.row]
    simp only [Event.diagnostic?, Option.map_some, Diagnostic.mapRow, place]
  | command | strayEscape | text | cutHeader | cutImage => rfl

theorem lowered_strike {k : Nat} {h g : Head} (low : Head.Lowered k h g) {c d : Canvas}
    (canvas : Canvas.Lowered k c d) (n : Nat) (t : Token) :
    Canvas.Lowered k (Event.strike c ⟨n, h, t⟩) (Event.strike d ⟨n, g, t⟩) := by
  have place : g.toPosition = ⟨h.x, h.y + k⟩ := by rw [← low.column, ← low.row]
  cases image : t.image? with
  | none =>
    simp only [Event.strike, image]
    exact canvas
  | some i =>
    simp only [Event.strike, image, place]
    exact canvas.strike h.toPosition i

theorem Lowered.after {k : Nat} {p q : Printer} (low : Lowered k p q) (t : Token) :
    Lowered k (p.after t) (q.after t) := by
  rw [after_eq p, after_eq q, low.offset]
  refine ⟨rfl, low.head.after t, lowered_strike low.head low.canvas _ t, ?_, ?_, ?_, ?_⟩
  · exact congrArg (· + _) low.bitImages
  · exact congrArg (· + _) low.columns
  · exact congrArg (· + _) low.lineFeeds
  · simp only [low.diagnostics, diagnostic?_lowered low.head, List.map_append, Option.toList_map]

theorem Lowered.run {k : Nat} {p q : Printer} (low : Lowered k p q) (ts : List Token) :
    Lowered k (p.run ts) (q.run ts) := by
  induction ts generalizing p q with
  | nil => exact low
  | cons t ts ih => exact ih (low.after t)

/-- Further down, the report has the head and the noted rows further down. -/
theorem Lowered.report {k : Nat} {p q : Printer} (low : Lowered k p q) :
    q.report =
      { p.report with
        cursor := ⟨p.head.x, p.head.y + k⟩
        pitch := q.head.pitch
        maxX := q.canvas.maxX
        maxY := q.canvas.maxY
        diagnostics := p.diagnostics.map (Diagnostic.mapRow (· + k)) } := by
  have place : q.head.toPosition = ⟨p.head.x, p.head.y + k⟩ := by
    rw [← low.head.column, ← low.head.row]
  simp only [Printer.report, low.offset, low.bitImages, low.columns, low.lineFeeds, place,
    low.diagnostics]

theorem head_run (p : Printer) (ts : List Token) : (p.run ts).head = p.head.run ts := by
  rw [run_eq]
  rfl

end Printer

/-! ## Line feeds at the start -/

namespace Head

theorem settle_iterate (pitch : UInt8) (j : Nat) : settle (settle^[j] pitch) = settle pitch := by
  induction j with
  | zero => rfl
  | succ j ih => rw [Function.iterate_succ_apply', settle_settle, ih]

/-- The pitch that some tokens leave depends on the pitch they start with and on nothing else. -/
theorem pitch_run_congr {h g : Head} (same : g.pitch = h.pitch) (ts : List Token) :
    (g.run ts).pitch = (h.run ts).pitch := by
  induction ts generalizing h g with
  | nil => exact same
  | cons t ts ih =>
    refine ih ?_
    by_cases feed : t = .command .lineFeed
    · subst feed
      exact congrArg settle same
    · rw [after_of_ne feed, after_of_ne feed, same]

end Head

namespace Page

/-- The printer of a page after some line feeds and nothing else. -/
def fedPrinter (p : Page) (j : Nat) : Printer :=
  { p.printer with
    offset := j
    head := ⟨⟨0, j * Head.advance p.pitch⟩, Head.settle^[j] p.pitch⟩
    lineFeeds := j }

theorem feed_fedPrinter (p : Page) (j : Nat) : (p.fedPrinter j).feed = p.fedPrinter (j + 1) := by
  have advance : Head.advance (Head.settle^[j] p.pitch) = Head.advance p.pitch := by
    rw [Head.advance, Head.settle_iterate, ← Head.advance]
  have head : (p.fedPrinter j).feed.head = (p.fedPrinter j).head.feed := (Printer.feed_eq _).symm
  refine Printer.ext rfl (head.trans ?_) rfl rfl rfl rfl rfl
  show (⟨⟨0, j * Head.advance p.pitch + Head.advance (Head.settle^[j] p.pitch)⟩,
    Head.settle (Head.settle^[j] p.pitch)⟩ : Head) = _
  rw [advance, ← Nat.succ_mul, ← Function.iterate_succ_apply' Head.settle]
  rfl

theorem run_feeds (p : Page) (j : Nat) :
    p.printer.run (List.replicate j (.command .lineFeed)) = p.fedPrinter j := by
  induction j with
  | zero =>
    have home : p.printer.head = (p.fedPrinter 0).head := by
      rw [fedPrinter, Nat.zero_mul]
      rfl
    exact Printer.ext rfl home rfl rfl rfl rfl rfl
  | succ j ih =>
    rw [List.replicate_succ', Printer.run_append, ih]
    exact feed_fedPrinter p j

/-- What line feeds have counted is counted in front of what follows them. -/
theorem report_behind_fedPrinter (p : Page) (j : Nat) (q : Printer) :
    ((p.fedPrinter j).behind q).report =
      { q.report with
        bytes := j + q.report.bytes
        lineFeeds := j + q.report.lineFeeds
        diagnostics := q.report.diagnostics.map (Diagnostic.mapOffset (j + ·)) } := by
  have images : 0 + q.bitImages = q.bitImages := Nat.zero_add _
  have columns : 0 + q.columns = q.columns := Nat.zero_add _
  show Report.mk _ (0 + q.bitImages) (0 + q.columns) _ _ _ _ _ _ = _
  rw [images, columns]
  rfl

/-- A page that is fed is blank, so a printer that starts there is one that starts further down. -/
theorem lowered_start (p : Page) (j : Nat) :
    Printer.Lowered (j * Head.advance p.pitch) p.printer
      (.start (p.fedPrinter j).canvas (p.fedPrinter j).head) where
  offset := rfl
  head := ⟨rfl, (Nat.zero_add _).symm, Head.settle_iterate p.pitch j⟩
  canvas := Canvas.lowered_blank _ p
  bitImages := rfl
  columns := rfl
  lineFeeds := rfl
  diagnostics := rfl

/-- A pitch that is not degenerate stays in force. -/
theorem pitch_run_start_fedPrinter {p : Page} (sound : 4 ≤ p.pitch) (j : Nat) (ts : List Token) :
    ((Printer.start (p.fedPrinter j).canvas (p.fedPrinter j).head).run ts).head.pitch =
      (p.printer.run ts).head.pitch := by
  have settled : Head.settle p.pitch = p.pitch := if_neg (UInt8.not_lt.mpr sound)
  rw [Printer.head_run, Printer.head_run]
  exact Head.pitch_run_congr (Function.iterate_fixed settled j) ts

end Page

/-- Line feeds in front of a stream are tokens of their own. -/
theorem tokens_feeds (j : Nat) (s : List UInt8) :
    tokens (List.replicate j Control.lineFeed ++ s) =
      List.replicate j (.command .lineFeed) ++ tokens s := by
  induction j with
  | zero => rfl
  | succ j ih =>
    rw [List.replicate_succ, List.cons_append, tokens_cons, List.replicate_succ, List.cons_append,
      ← ih]
    rfl

/-- A stream behind line feeds is decoded on the page that they have fed, and what they have counted
is put in front. -/
theorem run_tokens_feeds (p : Page) (j : Nat) (s : List UInt8) :
    p.printer.run (tokens (List.replicate j Control.lineFeed ++ s)) =
      (p.fedPrinter j).behind
        ((Printer.start (p.fedPrinter j).canvas (p.fedPrinter j).head).run (tokens s)) := by
  rw [tokens_feeds, Printer.run_append, p.run_feeds, Printer.run_eq_behind]

/-! ## The decode behind line feeds -/

/-- A decode behind line feeds leaves what a printer leaves that is further down, and counts the
line feeds in front. -/
theorem exists_lowered_decode (p : Page) (j : Nat) (s : List UInt8) :
    ∃ q : Printer,
      (decode p (List.replicate j Control.lineFeed ++ s)).canvas = q.canvas ∧
        (decode p (List.replicate j Control.lineFeed ++ s)).report =
          ((p.fedPrinter j).behind q).report ∧
        Printer.Lowered (j * Order.rows p.pitch) (p.printer.run (tokens s)) q ∧
        (4 ≤ p.pitch → q.head.pitch = (p.printer.run (tokens s)).head.pitch) := by
  refine ⟨_, ?_, ?_, ?_, fun sound => Page.pitch_run_start_fedPrinter sound j (tokens s)⟩
  · rw [canvas_decode, run_tokens_feeds]
    rfl
  · rw [report_decode, run_tokens_feeds]
  · rw [← Head.advance_eq_rows]
    exact (p.lowered_start j).run (tokens s)

/-- The ink behind line feeds is the ink further down, as far as the page goes. -/
theorem ink_decode_feeds (p : Page) (j : Nat) (s : List UInt8) (x y : Nat) :
    (decode p (List.replicate j Control.lineFeed ++ s)).canvas.ink x y = true ↔
      p.Contains x y ∧
        ∃ v, y = v + j * Order.rows p.pitch ∧ (decode p s).canvas.ink x v = true := by
  obtain ⟨q, canvas, -, low, -⟩ := exists_lowered_decode p j s
  have page : q.canvas.page = p := by rw [← canvas, page_decode]
  rw [canvas, low.canvas.ink, page, canvas_decode p s]

/-- **Line feeds in front of a stream.**  They move the picture down by as many rows as they advance
in the pitch of the page, and what has left the page at the bottom is lost.  The rows above are
blank.  The report counts the line feeds and has the head that many rows further down; every note
has its offset moved by the number of line feeds, and the row of the head in it moved down.  The
pitch is the same, or becomes so with the next line feed, and it is the same if the pitch of the
page is not degenerate. -/
theorem decode_line_feeds (p : Page) (j : Nat) (s : List UInt8) :
    let k := j * Order.rows p.pitch
    let plain := decode p s
    let fed := decode p (List.replicate j Control.lineFeed ++ s)
    (∀ x y, y + k < p.height → fed.canvas.cell x (y + k) = plain.canvas.cell x y) ∧
      (∀ x y, y < k → fed.canvas.cell x y = Palette.paper) ∧
      fed.report =
        { plain.report with
          bytes := j + plain.report.bytes
          lineFeeds := j + plain.report.lineFeeds
          cursor := ⟨plain.report.cursor.x, plain.report.cursor.y + k⟩
          pitch := fed.report.pitch
          maxX := fed.report.maxX
          maxY := fed.report.maxY
          diagnostics :=
            plain.report.diagnostics.map fun d => (d.mapRow (· + k)).mapOffset (j + ·) } ∧
      Head.settle fed.report.pitch = Head.settle plain.report.pitch ∧
      (4 ≤ p.pitch → fed.report.pitch = plain.report.pitch) := by
  intro k plain fed
  obtain ⟨q, -, report, low, kept⟩ := exists_lowered_decode p j s
  have plainReport : plain.report = (p.printer.run (tokens s)).report := report_decode p s
  have fedReport : fed.report = ((p.fedPrinter j).behind q).report := report
  have ink := ink_decode_feeds p j s
  refine ⟨?_, ?_, ?_, ?_, ?_⟩
  · intro x y inside
    have same : fed.canvas.ink x (y + k) = plain.canvas.ink x y := by
      rw [Bool.eq_iff_iff, ink]
      constructor
      · rintro ⟨-, v, row, inked⟩
        rwa [Nat.add_right_cancel row]
      · intro inked
        have wide : x < p.width := ((ink_decode p s x y).mp inked).1.1
        exact ⟨⟨wide, inside⟩, y, rfl, inked⟩
    rw [(twoColoured_decode p _).cell_eq, (twoColoured_decode p s).cell_eq, same]
  · intro x y above
    have bare : ¬fed.canvas.ink x y = true := by
      rw [ink]
      rintro ⟨-, v, rfl, -⟩
      exact absurd above (Nat.not_lt.mpr (Nat.le_add_left k v))
    rw [(twoColoured_decode p _).cell_eq, if_neg bare]
  · rw [fedReport, p.report_behind_fedPrinter, low.report, List.map_map, plainReport]
    rfl
  · rw [fedReport, plainReport]
    exact low.head.settled
  · intro sound
    rw [fedReport, plainReport]
    exact kept sound

/-- A pitch of three is degenerate: the first line feed replaces it, and each of them feeds one row.
The page ends one row before the image does. -/
example :
    let p : Page := ⟨"short", 4, 18, 0, 3⟩
    let s : List UInt8 := [0x07, 0x1B, 0x4C, 0x01, 0x00, 0xFF]
    let plain := decode p s
    let fed := decode p (List.replicate 3 Control.lineFeed ++ s)
    plain.report.diagnostics = [.unknownControl 0 0x07 ⟨0, 0⟩] ∧
      fed.report.diagnostics = [.unknownControl 3 0x07 ⟨0, 3⟩] ∧
      plain.report.maxY = 15 ∧ fed.report.maxY = 17 ∧
      plain.report.pitch = 3 ∧ fed.report.pitch = 2 := by
  decide +kernel

end DotMatrix
