import DotMatrix.Proofs.Accounts
import DotMatrix.Proofs.Clamping
import DotMatrix.Proofs.Logging
import DotMatrix.Proofs.Scanner

/-!
# A scan makes the decode

A scanner stands where a printer stands (`Printer.scanner`).  If the stream goes on there with a
token that fits, a turn of the scanner has no panic and leads behind the token
(`Printer.turn_scanner`).  The header of a bit image is looked at before its payload is.  So the
payload starts at the end of the stream at the latest, and there is a rest of the stream from there
on, which may be empty.

Every number on the way is a word, since the accounts of the printer balance: offset, counts and
column are paid for by the bytes of the stream, and the row by its line feeds.  A stream of 2 ^ 57
bytes is short enough for that.  The cells of the page have indices that are words, because its
buffer can be allocated.

Only behind a cut token the scanner is not where the printer is (`Printer.past`).  It stays in front
of a header that is cut, and it goes past the end of the stream if a payload is.  There is nothing
more to take in either case, and therefore the tokens of the stream are what the scan takes
(`Printer.scans_visited`) and the decode is what it has made in the end (`scan_eq`).
-/

namespace DotMatrix

/-! ## Tokens and their lengths -/

namespace Token

theorem length_bytes_pos (t : Token) : 0 < t.bytes.length := by
  rw [length_bytes]
  exact t.length_pos

theorem announced_pos (t : Token) : 0 < t.announced := by
  cases image : t.image? with
  | none =>
    simp only [announced, image]
    exact t.length_pos
  | some i =>
    simp only [announced, image]
    exact Nat.lt_of_lt_of_le i.length_header_pos (Nat.le_add_right _ _)

/-- A token that is not cut has all that it announces. -/
theorem Fits.announced_eq {t : Token} {rest : List UInt8} (fits : t.Fits rest)
    (whole : ¬t.IsCut) : t.announced = t.length := by
  cases fits with
  | @command c wellFormed =>
    cases c with
    | bitImage i =>
      have complete : i.payload.length = i.declared := wellFormed
      show i.header.length + i.declared = i.header.length + i.payload.length
      rw [complete]
    | lineFeed | reset | lineSpacing | cancelItalic | leftMargin => rfl
  | strayEscape | text | control => rfl
  | cutHeader | cutImage => exact absurd trivial whole

end Token

/-- There are no more tokens than bytes. -/
theorem length_tokens_le (s : List UInt8) : (tokens s).length ≤ s.length := by
  have bytes := congrArg List.length (flatMap_bytes_tokens s)
  rw [List.length_flatMap] at bytes
  have some : ∀ n ∈ (tokens s).map fun t => t.bytes.length, 1 ≤ n := by
    intro n mem
    obtain ⟨t, -, rfl⟩ := List.mem_map.mp mem
    exact t.length_bytes_pos
  have sum := List.length_le_sum_of_one_le _ some
  rwa [List.length_map, bytes] at sum

/-- A token in a stream starts in front of the end. -/
theorem lt_length_of_drop {s rest : List UInt8} {o : Nat} {t : Token}
    (drop : s.drop o = t.bytes ++ rest) : o < s.length := by
  have length := length_eq_of_drop _ drop t.length_bytes_pos
  have positive := t.length_bytes_pos
  omega

/-- The last token is no longer than the stream. -/
theorem length_le_of_split {s : List UInt8} {ts : List Token} {t : Token}
    (split : tokens s = ts ++ [t]) : t.length ≤ s.length := by
  have bytes := congrArg List.length (flatMap_bytes_tokens s)
  rw [split, List.flatMap_append, List.length_append, List.flatMap_singleton,
    Token.length_bytes] at bytes
  omega

/-- A turn from one scanner to another has taken the token.  It stops in front of a header that is
cut.  Any other token it leaves behind, with all that the token announces, and this is the token
itself if it is not cut. -/
def Scanner.Takes (m : Scanner) (t : Token) (n : Scanner) : Prop :=
  if n.stopped then (∃ bs, t = .cutHeader bs) ∧ n.offset = m.offset
  else m.offset < n.offset ∧ n.offset = m.offset + t.announced ∧
    (¬t.IsCut → n.offset = m.offset + t.length)

/-! ## One turn -/

/-- What the end of a stream leaves of a header is the escape alone, or the escape, the opcode and
too few parameters. -/
theorem Token.Fits.eq_nil_or_opcode {bs rest : List UInt8}
    (fits : (Token.cutHeader bs).Fits rest) :
    bs = [] ∨
      ∃ (op : Opcode) (ps : List UInt8), bs = op.byte :: ps ∧ ps.length < op.parameters := by
  rcases bs with _ | ⟨b, ps⟩
  · exact Or.inl rfl
  cases fits with
  | @cutHeader c _ opens short =>
    rcases c.header_eq with rfl | ⟨op, qs, header, parameters⟩
    · exact absurd short (by simp [Command.header, Command.bytes])
    · rw [header] at opens short
      obtain ⟨rfl, -⟩ := List.cons_prefix_cons.mp (List.cons_prefix_cons.mp opens).2
      refine Or.inr ⟨op, ps, rfl, ?_⟩
      rw [← parameters]
      exact Nat.lt_of_succ_lt_succ (Nat.lt_of_succ_lt_succ short)

namespace Printer

/-- The scanner that stands where the printer does, with a log. -/
def scanner (q : Printer) (log : Array Log.Record) : Scanner :=
  ⟨q.offset, false, q.head, q.canvas.memory, q.bitImages, q.columns, q.lineFeeds,
    q.diagnostics.toArray, log⟩

/-- The log with the records of one more token. -/
def logged (q : Printer) (log : Array Log.Record) (t : Token) : Array Log.Record :=
  (Event.records ⟨q.offset, q.head, t⟩).foldl Array.push log

/-- The scanner behind one more token.  It stays in front of a header that is cut, and it goes past
a cut image as if the payload were complete. -/
def past (q : Printer) (log : Array Log.Record) (t : Token) : Scanner :=
  let behind := (q.after t).scanner (q.logged log t)
  match t with
  | .cutHeader _ => { behind with offset := q.offset, stopped := true }
  | .cutImage i => { behind with offset := q.offset + (i.header.length + i.declared) }
  | _ => behind

variable {q : Printer} {log : Array Log.Record} {s bs rest : List UInt8} {t : Token} (b : Build)

theorem past_of_not_isCut (whole : ¬t.IsCut) (q : Printer) (log : Array Log.Record) :
    q.past log t = (q.after t).scanner (q.logged log t) := by
  cases t with
  | cutHeader | cutImage => exact absurd trivial whole
  | command | strayEscape | text | control => rfl

theorem offset_after (q : Printer) (t : Token) : (q.after t).offset = q.offset + t.length := by
  rw [after_eq]

theorem page_after (q : Printer) (t : Token) : (q.after t).canvas.page = q.canvas.page := by
  rw [after_eq]
  exact Event.page_strike _ _

theorem takes_past (q : Printer) (log : Array Log.Record) (fits : t.Fits rest) :
    (q.scanner log).Takes t (q.past log t) := by
  have further : q.offset < q.offset + t.announced := Nat.lt_add_of_pos_right t.announced_pos
  by_cases cut : t.IsCut
  · cases t with
    | cutHeader bs => exact ⟨⟨bs, rfl⟩, rfl⟩
    | cutImage i => exact ⟨further, rfl, absurd trivial⟩
    | command | strayEscape | text | control => exact cut.elim
  · have offset : ((q.after t).scanner (q.logged log t)).offset = q.offset + t.length :=
      q.offset_after t
    rw [fits.announced_eq cut] at further
    rw [past_of_not_isCut cut]
    refine ⟨lt_of_lt_of_eq further offset.symm, ?_, fun _ => offset⟩
    rw [fits.announced_eq cut]
    exact offset

theorem memory_past (q : Printer) (log : Array Log.Record) (t : Token) :
    (q.past log t).memory = (q.after t).canvas.memory := by
  cases t <;> rfl

theorem log_past (q : Printer) (log : Array Log.Record) (t : Token) :
    (q.past log t).log = q.logged log t := by
  cases t <;> rfl

theorem report_scanner (q : Printer) (log : Array Log.Record) (n : Nat) :
    (q.scanner log).report n = { q.report with bytes := n } := by
  rw [Scanner.report, scanner, report, List.toList_toArray]
  rfl

theorem report_past (q : Printer) (log : Array Log.Record) (t : Token) (n : Nat) :
    (q.past log t).report n = { (q.after t).report with bytes := n } := by
  rw [← report_scanner (q.after t) (q.logged log t)]
  cases t <;> rfl

@[simp] theorem offset_scanner (q : Printer) (log : Array Log.Record) :
    (q.scanner log).offset = q.offset := rfl

theorem skip_scanner {n : Nat} (inside : q.offset + n < 2 ^ 64) :
    (q.scanner log).skip b n = .ok ((q.skip n).scanner log) :=
  bind_of_ok (b.add_of_lt inside) _

theorem note_scanner (q : Printer) (log : Array Log.Record) (d : Diagnostic) :
    (q.scanner log).note d = (q.note d).scanner (log.push (.diagnostic d)) := by
  simp [Scanner.note, scanner, note]

/-! ### Bit images -/

/-- Columns that are paid for are struck and counted without a panic. -/
theorem imprint_scanner (room : q.canvas.page.Allocatable) (balanced : q.report.Balanced)
    {i : BitImage} (short : q.offset + i.payload.length ≤ 2 ^ 57)
    (all : i.payload.take i.declared = i.payload) (log : Array Log.Record) (record : Log.Record) :
    (q.scanner log).imprint b i.payload record =
      .ok { (q.strike i).scanner (log.push record) with offset := q.offset } := by
  obtain ⟨offset, ⟨⟨x, y⟩, pitch⟩, canvas, images, columns, lineFeeds, diagnostics⟩ := q
  obtain ⟨column, -, row, paid⟩ := balanced
  simp only [report] at column row paid
  simp only at room short
  have reaches : b.Reaches ⟨x, y⟩ i.payload.length :=
    ⟨by simp only; omega, by simp only; omega, fun _ => by simp only; omega⟩
  have struck := Canvas.memory_strikeColumns b room reaches
  have past : b.sub (x + i.payload.length) x = .ok i.payload.length := by
    rw [b.sub_of_le (Nat.le_add_right _ _), Nat.add_sub_cancel_left]
  rw [scanner, Scanner.imprint]
  simp only
  rw [bind_of_ok struck]
  simp only
  rw [bind_of_ok (b.add_of_lt (by omega)), bind_of_ok past, bind_of_ok (b.add_of_lt (by omega))]
  simp only [strike, Canvas.strike, all]
  rfl

/-- The stream has all of the payload. -/
theorem strike_of_complete (room : q.canvas.page.Allocatable) (balanced : q.report.Balanced)
    {start : Nat} {i : BitImage} (before : q.offset ≤ start) (inside : start ≤ s.length)
    (short : s.length ≤ 2 ^ 57) (drop : s.drop start = i.payload ++ rest) (complete : i.Complete) :
    (q.scanner log).strike b s.toArray start i.density.mode i.count =
      .ok { (q.strike i).scanner
          (log.push (.bitImage q.offset i.density.mode i.count q.head.toPosition)) with
        offset := start + i.declared } := by
  have there := available_of_drop inside drop
  have declared : i.count.payloadLength i.density.mode = i.payload.length := complete.symm
  have length := congrArg List.length drop
  rw [List.length_drop, List.length_append] at length
  have enough : ¬(i.payload ++ rest).length < i.payload.length := by
    rw [List.length_append]
    omega
  have columns : min (i.payload ++ rest).length i.payload.length = i.payload.length :=
    Nat.min_eq_right (Nat.not_lt.mp enough)
  rw [Scanner.strike, bind_of_ok there, declared, if_neg enough, columns,
    toList_extract_of_drop drop, List.take_left,
    bind_of_ok (imprint_scanner b room balanced (by omega)
      (List.take_of_length_le (Nat.le_of_eq complete)) _ _),
    bind_of_ok (b.add_of_lt (by omega)), ← complete]
  rfl

/-- The stream ends inside the payload, or in front of it. -/
theorem strike_of_lt (room : q.canvas.page.Allocatable) (balanced : q.report.Balanced)
    {start : Nat} {i : BitImage} (before : q.offset ≤ start) (inside : start ≤ s.length)
    (length : s.length ≤ 2 ^ 57) (drop : s.drop start = i.payload)
    (short : i.payload.length < i.declared) :
    (q.scanner log).strike b s.toArray start i.density.mode i.count =
      .ok { (q.after (.cutImage i)).scanner (q.logged log (.cutImage i)) with
        offset := start + i.declared } := by
  have there := available_of_drop inside drop
  have all : i.payload.take i.declared = i.payload :=
    List.take_of_length_le (Nat.le_of_lt short)
  have columns : min i.payload.length i.declared = i.payload.length :=
    Nat.min_eq_left (Nat.le_of_lt short)
  have bound := i.declared_le
  have payload := congrArg List.length drop
  rw [List.length_drop] at payload
  have declared : i.count.payloadLength i.density.mode = i.declared := rfl
  have struck := imprint_scanner
    (q := q.note (.truncatedBitImage q.offset i.declared i.payload.length)) b room
    (balanced.note trivial) (by simp only [note]; omega) all
  rw [Scanner.strike, bind_of_ok there, declared, if_pos short, columns,
    toList_extract_of_drop drop, List.take_length, note_scanner]
  exact (bind_of_ok (struck _ _) _).trans (bind_of_ok (b.add_of_lt (by omega)) _)

/-! ### Commands -/

theorem turn_of_escape (drop : s.drop q.offset = Control.escape :: rest) :
    (q.scanner log).turn b s.toArray = (q.scanner log).escape b s.toArray :=
  (bind_of_ok (load_of_drop drop) _).trans (if_pos rfl)

/-- What an escape at the end of a short stream leads to is looked for at offsets that are words. -/
theorem offset_le_of_drop (short : s.length ≤ 2 ^ 57) (drop : s.drop q.offset = bs)
    (some : 0 < bs.length) : q.offset + 5 < 2 ^ 64 := by
  have length := congrArg List.length drop
  rw [List.length_drop] at length
  omega

theorem turn_of_opcode (short : s.length ≤ 2 ^ 57) (op : Opcode)
    (drop : s.drop q.offset = Control.escape :: op.byte :: rest) :
    (q.scanner log).turn b s.toArray = (q.scanner log).command b s.toArray op := by
  have opcode : s.toArray[q.offset + 1]? = some op.byte := getElem?_toArray_of_drop drop 1
  have inside := offset_le_of_drop short drop (Nat.succ_pos _)
  rw [turn_of_escape b drop, Scanner.escape, offset_scanner, bind_of_ok (b.add_of_lt (by omega))]
  simp only [opcode, Opcode.ofByte?_byte]

/-- A command without all of its parameters stops the scan. -/
theorem command_of_lt (short : s.length ≤ 2 ^ 57) {op : Opcode}
    (drop : s.drop q.offset = Control.escape :: op.byte :: rest)
    (few : rest.length < op.parameters) :
    (q.scanner log).command b s.toArray op = .ok ((q.scanner log).truncated (some op.byte)) := by
  have length : s.length = q.offset + 2 + rest.length :=
    length_eq_of_drop [Control.escape, op.byte] drop (Nat.succ_pos 1)
  have inside := offset_le_of_drop short drop (Nat.succ_pos _)
  have second : b.add q.offset 2 = .ok (q.offset + 2) := b.add_of_lt (by omega)
  cases op with
  | selectBitImage =>
    have few : rest.length < 3 := few
    have beyond : window s.toArray (q.offset + 2) (q.offset + 5) = none :=
      window_of_lt (by omega)
    rw [Scanner.command, offset_scanner, bind_of_ok second, bind_of_ok (b.add_of_lt inside), beyond]
    rfl
  | doubleDensity =>
    have few : rest.length < 2 := few
    have beyond : window s.toArray (q.offset + 2) (q.offset + 4) = none :=
      window_of_lt (by omega)
    rw [Scanner.command, offset_scanner, bind_of_ok second, bind_of_ok (b.add_of_lt (by omega)),
      beyond]
    rfl
  | lineSpacing =>
    have few : rest.length < 1 := few
    have beyond : s.toArray[q.offset + 2]? = none := by
      rw [List.getElem?_toArray, List.getElem?_eq_none (by omega)]
    rw [Scanner.command, offset_scanner, bind_of_ok second, beyond]
    rfl
  | cancelItalic | leftMargin =>
    have few : rest.length < 1 := few
    have beyond : s.toArray.size ≤ q.offset + 2 := by
      rw [List.size_toArray]
      omega
    rw [Scanner.command, Scanner.pass, offset_scanner, bind_of_ok second]
    exact if_pos beyond
  | reset => exact absurd few (Nat.not_lt_zero _)

/-- The payload of a bit image starts behind its header. -/
theorem turn_of_header (short : s.length ≤ 2 ^ 57) {i : BitImage}
    (drop : s.drop q.offset = i.header ++ rest) :
    (q.scanner log).turn b s.toArray =
      (q.scanner log).strike b s.toArray (q.offset + i.header.length) i.density.mode i.count := by
  have header : 0 < (i.header ++ rest).length := by
    rw [List.length_append]
    exact Nat.add_pos_left i.length_header_pos _
  have inside := offset_le_of_drop short drop header
  have second : b.add q.offset 2 = .ok (q.offset + 2) := b.add_of_lt (by omega)
  obtain ⟨density, ⟨low, high⟩, payload⟩ := i
  cases density with
  | selected mode =>
    have opening : s.drop (q.offset + 2) = [mode, low, high] ++ rest :=
      drop_add [Control.escape, Opcode.selectBitImage.byte] drop
    have parameters : window s.toArray (q.offset + 2) (q.offset + 5) = some [mode, low, high] :=
      window_of_drop opening (Nat.succ_pos 2)
    have start : b.add q.offset 5 = .ok (q.offset + 5) := b.add_of_lt inside
    rw [turn_of_opcode b short .selectBitImage drop, Scanner.command, offset_scanner,
      bind_of_ok second, bind_of_ok start, parameters]
    exact bind_of_ok start _
  | double =>
    have opening : s.drop (q.offset + 2) = [low, high] ++ rest :=
      drop_add [Control.escape, Opcode.doubleDensity.byte] drop
    have parameters : window s.toArray (q.offset + 2) (q.offset + 4) = some [low, high] :=
      window_of_drop opening (Nat.succ_pos 1)
    have start : b.add q.offset 4 = .ok (q.offset + 4) := b.add_of_lt (by omega)
    rw [turn_of_opcode b short .doubleDensity drop, Scanner.command, offset_scanner,
      bind_of_ok second, bind_of_ok start, parameters]
    exact bind_of_ok start _

theorem pass_scanner (short : s.length ≤ 2 ^ 57) (op : Opcode) (inside : q.offset + 2 < s.length) :
    (q.scanner log).pass b s.toArray op = .ok ((q.skip 3).scanner log) := by
  have within : ¬s.toArray.size ≤ q.offset + 2 := by
    rw [List.size_toArray]
    exact Nat.not_le.mpr inside
  rw [Scanner.pass, offset_scanner, bind_of_ok (b.add_of_lt (by omega))]
  exact (if_neg within).trans (skip_scanner b (by omega))

theorem feed_scanner (balanced : q.report.Balanced) (short : q.offset < 2 ^ 57) :
    (q.scanner log).feed b = .ok (q.feed.scanner log) := by
  obtain ⟨-, -, row, paid⟩ := balanced
  simp only [report] at row paid
  have greatest := (Head.advance_bounds q.head.pitch).2
  have y : b.add q.head.y (Head.advance q.head.pitch) =
      .ok (q.head.y + Head.advance q.head.pitch) := b.add_of_lt (by omega)
  have lines : b.add q.lineFeeds 1 = .ok (q.lineFeeds + 1) := b.add_of_lt (by omega)
  have next : b.add q.offset 1 = .ok (q.offset + 1) := b.add_of_lt (by omega)
  have feed : q.feed = { q with
      offset := q.offset + 1, head := q.head.feed, lineFeeds := q.lineFeeds + 1 } := by
    rw [feed_eq]
    rfl
  rw [feed]
  exact (bind_of_ok y _).trans ((bind_of_ok lines _).trans (bind_of_ok next _))

theorem turn_command (room : q.canvas.page.Allocatable) (balanced : q.report.Balanced)
    (short : s.length ≤ 2 ^ 57) {c : Command} (drop : s.drop q.offset = c.bytes ++ rest)
    (wellFormed : c.WellFormed) :
    (q.scanner log).turn b s.toArray =
      .ok ((q.after (.command c)).scanner (q.logged log (.command c))) := by
  cases c with
  | lineFeed =>
    have inside : q.offset < s.length := lt_of_drop [] drop
    rw [Scanner.turn, offset_scanner, bind_of_ok (load_of_drop drop)]
    exact feed_scanner b balanced (by omega)
  | reset =>
    have inside := lt_of_drop [_] drop
    rw [turn_of_opcode b short .reset drop]
    exact skip_scanner b (by omega)
  | lineSpacing n =>
    have parameter : s.toArray[q.offset + 2]? = some n := getElem?_toArray_of_drop drop 2
    have inside : q.offset + 2 < s.length := lt_of_drop [_, _] drop
    have next : b.add q.offset 3 = .ok (q.offset + 3) := b.add_of_lt (by omega)
    rw [turn_of_opcode b short .lineSpacing drop, Scanner.command, offset_scanner,
      bind_of_ok (b.add_of_lt (by omega)), parameter]
    exact bind_of_ok next _
  | cancelItalic n =>
    rw [turn_of_opcode b short .cancelItalic drop]
    exact pass_scanner b short .cancelItalic (lt_of_drop [_, _] drop)
  | leftMargin n =>
    rw [turn_of_opcode b short .leftMargin drop]
    exact pass_scanner b short .leftMargin (lt_of_drop [_, _] drop)
  | bitImage i =>
    have complete : i.payload.length = i.declared := wellFormed
    have header : s.drop q.offset = i.header ++ (i.payload ++ rest) := by
      rw [drop, ← List.append_assoc]
      rfl
    rw [turn_of_header b short header,
      strike_of_complete b room balanced (Nat.le_add_right _ _) (header_le_length header) short
        (drop_add _ header) wellFormed, ← complete, Nat.add_assoc]
    rfl

/-- A turn of a scanner that stands where a printer does takes the token that fits there. -/
theorem turn_scanner (room : q.canvas.page.Allocatable) (balanced : q.report.Balanced)
    (short : s.length ≤ 2 ^ 57) (drop : s.drop q.offset = t.bytes ++ rest) (fits : t.Fits rest) :
    (q.scanner log).turn b s.toArray = .ok (q.past log t) := by
  have inside : q.offset < s.length := lt_length_of_drop drop
  cases fits with
  | command wellFormed => exact turn_command b room balanced short drop wellFormed
  | @strayEscape next stray =>
    have byte : s.toArray[q.offset + 1]? = some next := getElem?_toArray_of_drop drop 1
    rw [turn_of_escape b drop, Scanner.escape, offset_scanner,
      bind_of_ok (b.add_of_lt (by omega))]
    simp only [byte, Opcode.ofByte?_eq_none_iff.mpr stray, note_scanner]
    exact skip_scanner b (by simp only [note]; omega)
  | @text byte printable =>
    have notEscape : byte ≠ Control.escape := by
      rintro rfl
      exact absurd printable (by decide)
    have notLineFeed : byte ≠ Control.lineFeed := by
      rintro rfl
      exact absurd printable (by decide)
    rw [Scanner.turn, offset_scanner, bind_of_ok (load_of_drop drop), if_neg notEscape,
      if_neg notLineFeed, if_pos printable, note_scanner]
    exact skip_scanner b (by simp only [note]; omega)
  | @control byte below notEscape notLineFeed =>
    rw [Scanner.turn, offset_scanner, bind_of_ok (load_of_drop drop), if_neg notEscape,
      if_neg notLineFeed, if_neg (UInt8.not_le.mpr below), note_scanner]
    exact skip_scanner b (by simp only [note]; omega)
  | @cutHeader c bs opens few =>
    have cut : (Token.cutHeader bs).Fits [] := .cutHeader opens few
    rw [List.append_nil] at drop
    rcases cut.eq_nil_or_opcode with rfl | ⟨op, ps, rfl, fewer⟩
    · have beyond : s.toArray[q.offset + 1]? = none := getElem?_toArray_of_drop drop 1
      rw [turn_of_escape b drop, Scanner.escape, offset_scanner,
        bind_of_ok (b.add_of_lt (by omega)), beyond, Scanner.truncated, note_scanner]
      rfl
    · rw [turn_of_opcode b short op drop, command_of_lt b short drop fewer, Scanner.truncated,
        note_scanner]
      rfl
  | @cutImage i few =>
    have header : s.drop q.offset = i.header ++ i.payload := by
      rw [drop, List.append_nil]
      rfl
    rw [turn_of_header b short header,
      strike_of_lt b room balanced (Nat.le_add_right _ _) (header_le_length header) short
        (drop_add _ header) few, Nat.add_assoc]
    rfl

/-! ## The whole scan -/

variable {ts us : List Token}

/-- The scanners in front of the tokens. -/
def visited (q : Printer) (log : Array Log.Record) : List Token → List Scanner
  | [] => []
  | t :: ts => q.scanner log :: (q.after t).visited (q.logged log t) ts

/-- The scanner behind the tokens. -/
def atEnd (q : Printer) (log : Array Log.Record) : List Token → Scanner
  | [] => q.scanner log
  | t :: ts => if t.IsCut then q.past log t else (q.after t).atEnd (q.logged log t) ts

/-- The log behind the tokens. -/
def recorded (q : Printer) (log : Array Log.Record) : List Token → Array Log.Record
  | [] => log
  | t :: ts => (q.after t).recorded (q.logged log t) ts

theorem toList_recorded (q : Printer) (log : Array Log.Record) (ts : List Token) :
    (q.recorded log ts).toList =
      log.toList ++ (Event.trail q.offset q.head ts).flatMap Event.records := by
  induction ts generalizing q log with
  | nil => exact (List.append_nil _).symm
  | cons t ts ih =>
    have logged : (q.logged log t).toList = log.toList ++ Event.records ⟨q.offset, q.head, t⟩ := by
      simp [logged]
    rw [recorded, ih, logged, after_eq, Event.trail, List.flatMap_cons, List.append_assoc]

theorem length_visited (q : Printer) (log : Array Log.Record) (ts : List Token) :
    (q.visited log ts).length = ts.length := by
  induction ts generalizing q log with
  | nil => rfl
  | cons t ts ih => rw [visited, List.length_cons, ih, List.length_cons]

theorem exists_of_mem_visited {m : Scanner} (mem : m ∈ q.visited log ts) :
    ∃ us t vs log', ts = us ++ t :: vs ∧ m = (q.run us).scanner log' := by
  induction ts generalizing q log with
  | nil => exact absurd mem List.not_mem_nil
  | cons t ts ih =>
    rcases List.mem_cons.mp mem with rfl | mem
    · exact ⟨[], t, ts, log, rfl, rfl⟩
    · obtain ⟨us, u, vs, log', rfl, same⟩ := ih mem
      exact ⟨t :: us, u, vs, log', rfl, same⟩

/-- Behind a cut token there is nothing to take. -/
theorem not_running_past (log : Array Log.Record) (drop : s.drop q.offset = t.bytes)
    (fits : t.Fits []) (cut : t.IsCut) : ¬(q.past log t).Running s.toArray := by
  rintro ⟨going, inside⟩
  cases fits with
  | cutHeader => exact nomatch going
  | @cutImage i short =>
    have offset : q.offset + (i.header.length + i.declared) < s.toArray.size := inside
    have payload : s.length = q.offset + i.header.length + i.payload.length :=
      length_eq_of_drop _ drop i.length_header_pos
    rw [List.size_toArray] at offset
    omega
  | command | text | control => exact cut

/-- A turn takes a token, and so the scan takes the tokens of a split, from wherever it starts. -/
theorem scans_visited (room : q.canvas.page.Allocatable) (balanced : q.report.Balanced)
    (short : s.length ≤ 2 ^ 57) (split : Splits (s.drop q.offset) ts) :
    Scans b s.toArray (q.scanner log) (q.visited log ts) (q.atEnd log ts) := by
  induction ts generalizing q log with
  | nil =>
    generalize left : s.drop q.offset = bytes at split
    cases split
    refine .ends fun running => ?_
    have behind : s.length ≤ q.offset := List.drop_eq_nil_iff.mp left
    have offset : q.offset < s.toArray.size := running.2
    rw [List.size_toArray] at offset
    omega
  | cons t ts ih =>
    generalize drop : s.drop q.offset = bytes at split
    cases split with
    | @cons _ rest _ fits others =>
      have running : (q.scanner log).Running s.toArray :=
        ⟨rfl, lt_of_lt_of_eq (lt_length_of_drop drop) List.size_toArray.symm⟩
      refine .turns running (turn_scanner b room balanced short drop fits) ?_
      by_cases cut : t.IsCut
      -- The scanner is not where a printer is, but nothing is left for it.
      · obtain rfl := fits.eq_nil_of_isCut cut
        obtain rfl : ts = [] := by rw [← others.tokens_eq, tokens_nil]
        rw [List.append_nil] at drop
        rw [atEnd, if_pos cut]
        exact .ends (not_running_past log drop fits cut)
      · have offset : (q.after t).offset = q.offset + t.bytes.length := by
          rw [offset_after, Token.length_bytes]
        rw [past_of_not_isCut cut, atEnd, if_neg cut]
        refine ih (by rwa [page_after]) (balanced.after t) ?_
        rw [offset, drop_add _ drop]
        exact others

/-- What a scan has made behind the tokens is what the printer has. -/
theorem atEnd_eq (split : Splits bs ts) (q : Printer) (log : Array Log.Record) :
    (q.atEnd log ts).memory = (q.run ts).canvas.memory ∧
      (∀ n, (q.atEnd log ts).report n = { (q.run ts).report with bytes := n }) ∧
      (q.atEnd log ts).log = q.recorded log ts := by
  induction split generalizing q log with
  | nil => exact ⟨rfl, q.report_scanner log, rfl⟩
  | @cons t rest ts fits others ih =>
    by_cases cut : t.IsCut
    · obtain rfl := fits.eq_nil_of_isCut cut
      obtain rfl : ts = [] := by rw [← others.tokens_eq, tokens_nil]
      rw [atEnd, if_pos cut]
      exact ⟨q.memory_past log t, q.report_past log t, q.log_past log t⟩
    · rw [atEnd, if_neg cut]
      exact ih (q.after t) (q.logged log t)

end Printer

/-! ## The scan of a page -/

variable {p : Page} {s : List UInt8} (b : Build)

theorem start_eq (room : p.Allocatable) : Scanner.start b p = .ok (p.printer.scanner #[]) := by
  rw [Scanner.start, bind_of_ok (Canvas.allocate_eq b room)]
  rfl

theorem scans_tokens (room : p.Allocatable) (short : s.length ≤ 2 ^ 57) :
    Scans b s.toArray (p.printer.scanner #[]) (p.printer.visited #[] (tokens s))
      (p.printer.atEnd #[] (tokens s)) :=
  Printer.scans_visited (q := p.printer) b room (.start _ _) short (splits_tokens s)

/-- The bound on the turns of a scan is not reached before its end. -/
theorem scan_eq (room : p.Allocatable) (short : s.length ≤ 2 ^ 57) :
    Scanner.scan b p s.toArray = .ok (p.printer.atEnd #[] (tokens s)) := by
  have enough : (p.printer.visited #[] (tokens s)).length ≤ s.toArray.size := by
    rw [Printer.length_visited, List.size_toArray]
    exact length_tokens_le s
  rw [Scanner.scan, bind_of_ok (start_eq b room)]
  exact (scans_tokens b room short).run_eq enough

/-- The scan has made what the decode makes. -/
theorem atEnd_eq_decode (p : Page) (s : List UInt8) :
    let last := p.printer.atEnd #[] (tokens s)
    last.memory = (decode p s).canvas.memory ∧ last.report s.length = (decode p s).report ∧
      last.log.toList = (Walk.ofStream p.pitch s).records := by
  obtain ⟨memory, report, log⟩ := Printer.atEnd_eq (splits_tokens s) p.printer #[]
  refine ⟨?_, ?_, ?_⟩
  · rw [memory, canvas_decode]
  · rw [report, ← report_decode, ← bytes_decode p s]
  · rw [log, Printer.toList_recorded, Walk.records, Walk.trail_ofStream]
    rfl

end DotMatrix
