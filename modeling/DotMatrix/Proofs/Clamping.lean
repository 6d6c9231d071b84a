import DotMatrix.Proofs.Boundaries
import DotMatrix.Proofs.Clipping
import Mathlib.Data.List.Basic

/-!
# Streams that end inside a command

The end of a stream can fall into any command, and a decode then goes as far as it can.  What it
makes of the rest is said in a note, and that note is the last one (`exists_cut_of_truncation`).

* In a header there is nothing to be done.  The decode leaves what it would have left in front of
  the command (`agrees_of_cutHeader`).
* In a payload the columns that are there are struck, and the announced length is cut down to them.
  Nothing else is lost: the columns that are missing can be put behind the stream, and each of them
  goes on where the last one has stopped (`adds_of_cutImage`).  The decode cannot tell the two
  streams apart in any other way, because a bit image and a part of it have the same header and
  stand in front of the same tokens, which are none.
-/

namespace DotMatrix

/-! ## Columns without dots -/

namespace Canvas

theorem strikeColumn_zero (c : Canvas) (x y : Nat) : c.strikeColumn x y 0 = c := by
  unfold strikeColumn
  induction List.range Head.dotsPerColumn with
  | nil => rfl
  | cons k ks ih =>
    rw [List.foldl_cons, Octet.dot_zero, if_neg Bool.false_ne_true]
    exact ih

theorem strikeColumns_of_zero {columns : List UInt8} (zero : ∀ b ∈ columns, b = 0) (c : Canvas)
    (x y : Nat) : c.strikeColumns x y columns = c := by
  induction columns generalizing x with
  | nil => rfl
  | cons column columns ih =>
    have first : column = 0 := zero column List.mem_cons_self
    rw [strikeColumns, first, strikeColumn_zero]
    exact ih (fun b mem => zero b (List.mem_cons_of_mem column mem)) (x + 1)

end Canvas

/-! ## A bit image at the end of a stream -/

namespace BitImage

/-- The image with more columns. -/
def extend (i : BitImage) (more : List UInt8) : BitImage := { i with payload := i.payload ++ more }

/-- The token that the image is at the end of a stream, complete or cut. -/
def lastToken (i : BitImage) : Token :=
  if i.payload.length < i.declared then .cutImage i else .command (.bitImage i)

theorem bytes_extend (i : BitImage) (more : List UInt8) : (i.extend more).bytes = i.bytes ++ more :=
  (List.append_assoc _ _ _).symm

theorem length_payload_extend (i : BitImage) (more : List UInt8) :
    (i.extend more).payload.length = i.payload.length + more.length :=
  List.length_append

theorem image?_lastToken (i : BitImage) : i.lastToken.image? = some i := by
  unfold lastToken
  split <;> rfl

/-- An image that carries no more than it announces is one token at the end of a stream. -/
theorem tokens_bytes {i : BitImage} (le : i.payload.length ≤ i.declared) :
    tokens i.bytes = [i.lastToken] := by
  have one : ∀ t : Token, t.Fits [] → t.bytes = i.bytes → tokens i.bytes = [t] := by
    intro t fits bytes
    rw [← bytes]
    exact fits.splits.tokens_eq
  unfold lastToken
  split
  · next short => exact one _ (.cutImage short) rfl
  · next long =>
    have complete : i.Complete := Nat.le_antisymm le (Nat.not_lt.mp long)
    exact one _ (.command (c := .bitImage i) complete []) rfl

/-- What is noted about an image at the end of a stream. -/
theorem diagnostic?_lastToken (n : Nat) (h : Head) (i : BitImage) :
    (Event.diagnostic? ⟨n, h, i.lastToken⟩).toList =
      if i.payload.length < i.declared
      then [.truncatedBitImage n i.declared i.payload.length] else [] := by
  unfold lastToken
  split <;> rfl

end BitImage

/-- More columns of an image are struck behind those that were there. -/
theorem Canvas.strike_extend (c : Canvas) (p : Position) {i : BitImage} {more : List UInt8}
    (room : i.payload.length + more.length ≤ i.declared) :
    c.strike p (i.extend more) =
      (c.strike p i).strikeColumns (p.x + i.payload.length) p.y more := by
  have all : (i.payload ++ more).take i.declared = i.payload ++ more :=
    List.take_of_length_le (by rw [List.length_append]; exact room)
  have first : i.payload.take i.declared = i.payload :=
    List.take_of_length_le (Nat.le_trans (Nat.le_add_right _ _) room)
  show c.strikeColumns p.x p.y ((i.payload ++ more).take i.declared) = _
  rw [all, strikeColumns_append, Canvas.strike, first]

/-! ## The note about a truncation -/

/-- The last token of a stream takes the last bytes. -/
theorem drop_eq_bytes {s : List UInt8} {ts : List Token} {t : Token}
    (split : tokens s = ts ++ [t]) :
    s.take (s.length - t.length) = ts.flatMap Token.bytes ∧
      s.drop (s.length - t.length) = t.bytes := by
  have bytes := flatMap_bytes_tokens s
  rw [split, List.flatMap_append, List.flatMap_cons, List.flatMap_nil, List.append_nil] at bytes
  have place : s.length - t.length = (ts.flatMap Token.bytes).length := by
    rw [← bytes, List.length_append, Token.length_bytes]
    omega
  rw [place, ← bytes]
  exact ⟨List.take_left, List.drop_left⟩

/-- A note about a truncation is the last one, and it is about the token that the end of the stream
has cut. -/
theorem exists_cut_of_truncation {p : Page} {s : List UInt8} {d : Diagnostic}
    (noted : d ∈ (decode p s).report.diagnostics) (truncation : d.IsTruncation) :
    ∃ t : Token, t.Fits [] ∧ remainder s = t.bytes ∧ tokens s = wholeTokens s ++ [t] ∧
      Event.diagnostic? ⟨s.length - t.length, (p.printer.run (wholeTokens s)).head, t⟩ = some d ∧
      (decode p s).report.diagnostics = p.printer.notes (wholeTokens s) ++ [d] := by
  have uncut : ∀ t ∈ wholeTokens s, ¬t.IsCut := fun _ => not_isCut_of_mem_wholeTokens
  have silent : d ∉ p.printer.notes (wholeTokens s) := fun mem =>
    Printer.not_isTruncation_of_mem_notes uncut mem truncation
  have split := tokens_eq_wholeTokens_append s
  rcases remainder_eq_nil_or s with nothing | ⟨t, cut, fits, bytes, one⟩
  · rw [nothing, tokens_nil, List.append_nil] at split
    rw [diagnostics_decode, split] at noted
    exact absurd noted silent
  · rw [one] at split
    obtain ⟨e, he, -⟩ := Event.exists_truncation_of_isCut
      (e := ⟨s.length - t.length, (p.printer.run (wholeTokens s)).head, t⟩) cut
    have notes : (decode p s).report.diagnostics = p.printer.notes (wholeTokens s) ++ [e] := by
      rw [diagnostics_decode, split, Printer.notes_concat, Printer.offset_run_eq_sub split, he]
      rfl
    -- The note is not among those on the whole tokens, so it is the one behind them.
    obtain rfl : d = e := by
      rw [notes, List.mem_append, List.mem_singleton] at noted
      exact noted.resolve_left silent
    exact ⟨t, fits, bytes, split, he, notes⟩

/-- A note about a truncation has none of its kind before it and nothing behind it. -/
theorem eq_nil_of_isTruncation {p : Page} {s : List UInt8} {ds es : List Diagnostic}
    {d : Diagnostic}
    (notes : (decode p s).report.diagnostics = ds ++ d :: es) (truncation : d.IsTruncation) :
    es = [] ∧ ∀ e ∈ ds, ¬e.IsTruncation := by
  have uncut : ∀ t ∈ wholeTokens s, ¬t.IsCut := fun _ => not_isCut_of_mem_wholeTokens
  have noted : d ∈ (decode p s).report.diagnostics := by
    rw [notes]
    exact List.mem_append_right ds List.mem_cons_self
  obtain ⟨t, -, -, -, -, last⟩ := exists_cut_of_truncation noted truncation
  rw [notes] at last
  rcases List.eq_nil_or_concat' es with rfl | ⟨es, e, rfl⟩
  · obtain ⟨rfl, -⟩ := List.append_inj' last rfl
    exact ⟨rfl, fun e mem => Printer.not_isTruncation_of_mem_notes uncut mem⟩
  · rw [← List.cons_append, ← List.append_assoc] at last
    obtain ⟨before, -⟩ := List.append_inj' last rfl
    have mem : d ∈ p.printer.notes (wholeTokens s) := by
      rw [← before]
      exact List.mem_append_right ds List.mem_cons_self
    exact absurd truncation (Printer.not_isTruncation_of_mem_notes uncut mem)

/-! ## Cut headers -/

/-- Where a cut header starts, the stream has an escape, then the opcode unless it is missing too,
and up to the end a proper part of the header of a command. -/
theorem drop_of_cutHeader {s bs : List UInt8} {ts : List Token}
    (split : tokens s = ts ++ [.cutHeader bs]) (fits : (Token.cutHeader bs).Fits []) :
    let pos := s.length - (Token.cutHeader bs).length
    (∃ c : Command, c ≠ .lineFeed ∧ s.drop pos <+: c.header ∧ s.drop pos ≠ c.header) ∧
      s[pos]? = some Control.escape ∧ bs.head? = s[pos + 1]? := by
  intro pos
  have tail : s.drop pos = Control.escape :: bs := (drop_eq_bytes split).2
  have place : ∀ k, s[pos + k]? = (Control.escape :: bs)[k]? := by
    intro k
    rw [← List.getElem?_drop, tail]
  refine ⟨?_, place 0, ?_⟩
  · cases fits with
    | @cutHeader c _ opens short =>
      have escape : c ≠ .lineFeed := by
        rintro rfl
        exact absurd opens (by simp [Command.header, Command.bytes, Control.escape,
          Control.lineFeed])
      rw [tail]
      exact ⟨c, escape, opens, fun same => absurd (congrArg List.length same) (Nat.ne_of_lt short)⟩
  · rw [place 1, List.getElem?_cons_succ, List.head?_eq_getElem?]

/-- A decode that ends inside a header leaves what the decode of the stream in front of the command
leaves. -/
theorem agrees_of_cutHeader (p : Page) {s bs : List UInt8} {ts : List Token}
    (split : tokens s = ts ++ [.cutHeader bs]) :
    (p.printer.run (tokens s)).Agrees
      (p.printer.run (tokens (s.take (s.length - (Token.cutHeader bs).length)))) := by
  have before := p.printer.agrees_before split
  rw [← (drop_eq_bytes split).1] at before
  have after : (p.printer.run (tokens s)).Agrees (p.printer.run ts) := by
    rw [split, Printer.run_append]
    exact ⟨rfl, rfl, rfl, rfl, rfl⟩
  exact after.trans before.symm

/-! ## Cut payloads -/

/-- The second decode is the first one with more columns, struck where the head of the first has
stopped.  It has their ink, and the extents of all ink.  It counts the columns and their bytes and
has moved the head past them.  The rest of the report is the same, the notes left aside. -/
structure Decoded.Adds (d e : Decoded) (columns : List UInt8) : Prop where
  canvas : e.canvas = d.canvas.strikeColumns d.report.cursor.x d.report.cursor.y columns
  ink : ∀ x y, e.canvas.ink x y = true ↔
    d.canvas.ink x y = true ∨ d.canvas.page.Contains x y ∧ Struck columns d.report.cursor x y
  tight : e.canvas.Tight
  report : e.report =
    { d.report with
      bytes := d.report.bytes + columns.length
      columns := d.report.columns + columns.length
      cursor := d.report.cursor.right columns.length
      maxX := e.canvas.maxX
      maxY := e.canvas.maxY
      diagnostics := e.report.diagnostics }

/-- A stream that ends in a cut image goes on with more of its columns. -/
theorem tokens_append_of_cutImage {s : List UInt8} {i : BitImage} (left : remainder s = i.bytes)
    {more : List UInt8} (room : i.payload.length + more.length ≤ i.declared) :
    tokens (s ++ more) = wholeTokens s ++ [(i.extend more).lastToken] := by
  have le : (i.extend more).payload.length ≤ (i.extend more).declared := by
    rw [BitImage.length_payload_extend]
    exact room
  rw [tokens_append, left, ← BitImage.bytes_extend, BitImage.tokens_bytes le]

theorem adds_of_cutImage (p : Page) {s : List UInt8} {i : BitImage}
    (split : tokens s = wholeTokens s ++ [.cutImage i]) (left : remainder s = i.bytes)
    {more : List UInt8} (room : i.payload.length + more.length ≤ i.declared) :
    (decode p s).Adds (decode p (s ++ more)) more := by
  -- Both decodes strike the image from the same printer, one of them with more columns.
  let q := p.printer.run (wholeTokens s)
  have first : p.printer.run (tokens s) = q.after (.cutImage i) := by
    rw [split, Printer.run_append]
    rfl
  have second : p.printer.run (tokens (s ++ more)) = q.after (i.extend more).lastToken := by
    rw [tokens_append_of_cutImage left room, Printer.run_append]
    rfl
  have canvas : (decode p (s ++ more)).canvas = (decode p s).canvas.strikeColumns
      (decode p s).report.cursor.x (decode p s).report.cursor.y more := by
    rw [canvas_decode, second, Printer.canvas_after_of_image (BitImage.image?_lastToken _),
      Canvas.strike_extend _ _ room, canvas_decode, report_decode, first]
    rfl
  refine ⟨canvas, ?_, tight_decode p _, ?_⟩
  · intro x y
    rw [canvas]
    exact Canvas.ink_strikeColumns _ _ _ _ x y
  · have bytes : (decode p (s ++ more)).report.bytes = (decode p s).report.bytes + more.length := by
      rw [bytes_decode, bytes_decode, List.length_append]
    rw [← bytes, canvas_decode, report_decode, report_decode, first, second,
      Printer.after_of_image (BitImage.image?_lastToken _)]
    simp only [Printer.report, Printer.after, Printer.note, Printer.strike, Position.right,
      BitImage.length_payload_extend, Nat.add_assoc]

/-- The notes on a stream that goes on with more columns of its last image. -/
theorem diagnostics_append_of_cutImage (p : Page) {s : List UInt8} {i : BitImage}
    (split : tokens s = wholeTokens s ++ [.cutImage i]) (left : remainder s = i.bytes)
    {more : List UInt8} (room : i.payload.length + more.length ≤ i.declared) :
    (decode p (s ++ more)).report.diagnostics =
      p.printer.notes (wholeTokens s) ++
        if i.payload.length + more.length < i.declared
        then [.truncatedBitImage (s.length - (Token.cutImage i).length) i.declared
          (i.payload.length + more.length)]
        else [] := by
  rw [diagnostics_decode, tokens_append_of_cutImage left room, Printer.notes_concat,
    BitImage.diagnostic?_lastToken, BitImage.length_payload_extend, Printer.offset_run_eq_sub split]
  rfl

/-! ## The main statement -/

/-- **Streams that end inside a command.**  At most one note of a decode is about a truncation, and
it is the last one.

If it says that a bit image has fewer columns than it declares, then the stream has the header of
the image at the noted offset, and the columns that are available behind it, up to the end.  With
any of the missing columns behind it the stream decodes to the same page and report, plus these
columns.  The note counts them, and it is gone once none is missing.  Columns without dots leave the
page as it is.

If it says that a command is incomplete, then the stream has a proper part of the header of a
command at the noted offset, up to the end.  The decode leaves what the decode of the stream up to
that offset leaves. -/
theorem decode_truncation (p : Page) (s : List UInt8) :
    let d := decode p s
    (∀ ds t es, d.report.diagnostics = ds ++ t :: es → t.IsTruncation →
        es = [] ∧ ∀ e ∈ ds, ¬e.IsTruncation) ∧
      (∀ pos declared available,
        .truncatedBitImage pos declared available ∈ d.report.diagnostics →
          available < declared ∧
            (∃ i : BitImage, s.drop pos = i.header ++ i.payload ∧
              (i.header.length = match i.density with
                | .selected _ => 5
                | .double => 4) ∧
              i.declared = declared ∧ i.payload.length = available) ∧
            ∃ notes, d.report.diagnostics = notes ++ [.truncatedBitImage pos declared available] ∧
              ∀ more : List UInt8, more.length ≤ declared - available →
                let e := decode p (s ++ more)
                d.Adds e more ∧
                  (e.report.diagnostics = notes ++
                    if available + more.length < declared
                    then [.truncatedBitImage pos declared (available + more.length)] else []) ∧
                  ((∀ b ∈ more, b = 0) → e.canvas = d.canvas)) ∧
      ∀ pos op, .truncatedCommand pos op ∈ d.report.diagnostics →
        let before := decode p (s.take pos)
        (∃ c : Command, c ≠ .lineFeed ∧ s.drop pos <+: c.header ∧ s.drop pos ≠ c.header) ∧
          s[pos]? = some Control.escape ∧ op = s[pos + 1]? ∧
          d.canvas = before.canvas ∧
          d.report =
            { before.report with bytes := s.length, diagnostics := d.report.diagnostics } := by
  intro d
  refine ⟨fun ds t es => eq_nil_of_isTruncation, ?_, ?_⟩
  · intro pos declared available noted
    obtain ⟨t, fits, left, split, note, notes⟩ := exists_cut_of_truncation noted trivial
    cases t with
    | cutImage i =>
      cases fits with
      | cutImage short =>
        obtain ⟨rfl, rfl, rfl⟩ := Diagnostic.truncatedBitImage.inj (Option.some.inj note)
        refine ⟨short, ⟨i, (drop_eq_bytes split).2, i.length_header, rfl, rfl⟩, _, notes, ?_⟩
        intro more few e
        have room : i.payload.length + more.length ≤ i.declared := by omega
        have adds := adds_of_cutImage p split left room
        refine ⟨adds, diagnostics_append_of_cutImage p split left room, ?_⟩
        intro zero
        exact adds.canvas.trans (Canvas.strikeColumns_of_zero zero _ _ _)
    | command | strayEscape | text | control | cutHeader => exact nomatch note
  · intro pos op noted before
    obtain ⟨t, fits, -, split, note, -⟩ := exists_cut_of_truncation noted trivial
    cases t with
    | cutHeader bs =>
      obtain ⟨rfl, rfl⟩ := Diagnostic.truncatedCommand.inj (Option.some.inj note)
      obtain ⟨header, escape, opcode⟩ := drop_of_cutHeader split fits
      obtain ⟨canvas, report⟩ := decode_of_agrees (agrees_of_cutHeader p split)
      exact ⟨header, escape, opcode, canvas, report⟩
    | command | strayEscape | text | control | cutImage => exact nomatch note

/-- The column that is missing has the byte of a line feed, and it is not one. -/
example :
    let p : Page := ⟨"narrow", 8, 32, 1, 34⟩
    let s : List UInt8 := [0x41, 0x1B, 0x4C, 0x03, 0x00, 0xFF, 0x01]
    (decode p s).report.diagnostics = [.printable 0 0x41, .truncatedBitImage 1 3 2] ∧
      (decode p (s ++ [0x0A])).report.diagnostics = [.printable 0 0x41] ∧
      (decode p (s ++ [0x0A])).report.cursor = ⟨3, 0⟩ := by
  decide +kernel

end DotMatrix
