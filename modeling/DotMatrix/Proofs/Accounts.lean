import DotMatrix.Proofs.Growth
import DotMatrix.Proofs.Tiling

/-!
# Every count is paid for

A decode counts line feeds, bit images, columns and notes, and none of the counts can get ahead of
the stream.  Every token pays for what it adds with its own bytes: a line feed or a skipped byte
with one, a bit image with four and one more for each column.  The column of the head is paid for by
the columns, and its row by the line feeds, each of which moves the head by one row at least and by
127 at most.

The accounts balance before the first token and no token upsets them (`Balanced.after`), so they
balance wherever a decode stands (`balanced_reportAfter`).  Hence no sum that is formed on the way
outgrows 64 bits, as long as the stream is short enough and the page small enough
(`Balanced.sumsBelow`).  The one sum that the bytes of the stream do not pay for is the end of a
payload that is announced and not there, and the count bytes of an image keep that within bounds
(`Token.announced_le`).
-/

namespace DotMatrix

namespace Report

/-- Number of single bytes that were noted and skipped. -/
def skipped (r : Report) : Nat := r.diagnostics.countP fun d => ¬d.IsTruncation

/-- The counts of a report are paid for. -/
structure Balanced (r : Report) : Prop where
  /-- The head has not passed more columns than there were. -/
  column : r.cursor.x ≤ r.columns
  /-- Every line feed has moved the head. -/
  fed : r.lineFeeds ≤ r.cursor.y
  /-- No line feed has moved the head by more than half the greatest pitch. -/
  row : r.cursor.y ≤ 127 * r.lineFeeds
  /-- No byte has paid twice. -/
  paid : r.lineFeeds + r.columns + 4 * r.bitImages + r.skipped ≤ r.bytes

end Report

/-! ## What a token pays for -/

theorem BitImage.four_le_length_header (i : BitImage) : 4 ≤ i.header.length := by
  rw [i.length_header]
  cases i.density with
  | selected => exact Nat.le_succ 4
  | double => exact Nat.le_refl 4

/-- A line feed moves the head by one row at least, and by half the greatest pitch at most. -/
theorem Head.advance_bounds (pitch : UInt8) : 1 ≤ advance pitch ∧ advance pitch ≤ 127 := by
  have greatest := pitch.toNat_lt
  rw [advance_eq]
  split <;> omega

theorem Printer.skipped_note (q : Printer) (d : Diagnostic) :
    (q.note d).report.skipped = q.report.skipped + if d.IsTruncation then 0 else 1 := by
  by_cases truncation : d.IsTruncation <;>
    simp [report, note, Report.skipped, List.countP_append, truncation]

namespace Report.Balanced

variable {q : Printer}

theorem start (c : Canvas) (pitch : UInt8) : (Printer.start c (.home pitch)).report.Balanced :=
  ⟨Nat.le_refl 0, Nat.le_refl 0, Nat.le_refl 0, Nat.le_refl 0⟩

theorem skip (h : q.report.Balanced) (n : Nat) : (q.skip n).report.Balanced :=
  ⟨h.column, h.fed, h.row, Nat.le_add_right_of_le h.paid⟩

/-- A byte that is skipped pays for the note about it. -/
theorem skip_note (h : q.report.Balanced) (d : Diagnostic) :
    ((q.note d).skip 1).report.Balanced := by
  refine ⟨h.column, h.fed, h.row, ?_⟩
  have paid : q.lineFeeds + q.columns + 4 * q.bitImages + q.report.skipped ≤ q.offset := h.paid
  show q.lineFeeds + q.columns + 4 * q.bitImages + (q.note d).report.skipped ≤ q.offset + 1
  rw [q.skipped_note]
  split <;> omega

/-- A note about a truncation costs nothing. -/
theorem note (h : q.report.Balanced) {d : Diagnostic} (truncation : d.IsTruncation) :
    (q.note d).report.Balanced := by
  refine ⟨h.column, h.fed, h.row, ?_⟩
  show q.lineFeeds + q.columns + 4 * q.bitImages + (q.note d).report.skipped ≤ q.offset
  rw [q.skipped_note, if_pos truncation]
  exact h.paid

/-- The columns of an image pay for themselves, and its header pays for the image. -/
theorem strike (h : q.report.Balanced) (i : BitImage) : (q.strike i).report.Balanced := by
  refine ⟨Nat.add_le_add_right h.column i.payload.length, h.fed, h.row, ?_⟩
  have paid : q.lineFeeds + q.columns + 4 * q.bitImages + q.report.skipped ≤ q.offset := h.paid
  have header := i.four_le_length_header
  show q.lineFeeds + (q.columns + i.payload.length) + 4 * (q.bitImages + 1) + q.report.skipped ≤
    q.offset + (i.header.length + i.payload.length)
  omega

theorem feed (h : q.report.Balanced) : q.feed.report.Balanced := by
  have paid : q.lineFeeds + q.columns + 4 * q.bitImages + q.report.skipped ≤ q.offset := h.paid
  obtain ⟨least, greatest⟩ := Head.advance_bounds q.head.pitch
  have head : q.feed.head = q.head.feed := (Printer.feed_eq q.head).symm
  refine ⟨?_, ?_, ?_, ?_⟩
  · show q.feed.head.x ≤ q.columns
    rw [head]
    exact Nat.zero_le _
  · show q.lineFeeds + 1 ≤ q.feed.head.y
    rw [head]
    exact Nat.add_le_add h.fed least
  · show q.feed.head.y ≤ 127 * (q.lineFeeds + 1)
    rw [head]
    exact Nat.add_le_add h.row greatest
  · show q.lineFeeds + 1 + q.columns + 4 * q.bitImages + q.report.skipped ≤ q.offset + 1
    omega

/-- No token upsets the accounts. -/
theorem after (h : q.report.Balanced) (t : Token) : (q.after t).report.Balanced := by
  cases t with
  | command c =>
    cases c with
    | lineFeed => exact h.feed
    | reset => exact h.skip 2
    | lineSpacing | cancelItalic | leftMargin =>
      -- The pitch of the head is in none of the accounts.
      obtain ⟨column, fed, row, paid⟩ := h.skip 3
      exact ⟨column, fed, row, paid⟩
    | bitImage i => exact h.strike i
  | strayEscape | text | control => exact h.skip_note _
  | cutHeader bs =>
    have noted : (q.note (.truncatedCommand q.offset bs.head?)).report.Balanced := h.note trivial
    exact noted.skip _
  | cutImage i =>
    have noted :
        (q.note (.truncatedBitImage q.offset i.declared i.payload.length)).report.Balanced :=
      h.note trivial
    exact noted.strike i

theorem run (h : q.report.Balanced) (ts : List Token) : (q.run ts).report.Balanced := by
  induction ts generalizing q with
  | nil => exact h
  | cons t ts ih => exact ih (h.after t)

end Report.Balanced

/-! ## How far a decode has got -/

/-- The report of a decode when it has taken some tokens.  That of all tokens of a stream is the
report of the stream. -/
def Page.reportAfter (p : Page) (ts : List Token) : Report :=
  let w := (Walk.start p.pitch).steps ts
  .ofWalk w (w.canvas p)

namespace Page

theorem reportAfter_eq (p : Page) (ts : List Token) :
    p.reportAfter ts = (p.printer.run ts).report :=
  (walk_steps_eq (.blank p) (.home p.pitch) ts).2

theorem balanced_reportAfter (p : Page) (ts : List Token) : (p.reportAfter ts).Balanced := by
  rw [p.reportAfter_eq]
  exact (Report.Balanced.start _ _).run ts

/-- What is left of a stream are the bytes of the tokens that are left. -/
theorem length_eq_bytes_reportAfter (p : Page) {s : List UInt8} {us vs : List Token}
    (split : tokens s = us ++ vs) :
    s.length = (p.reportAfter us).bytes + (vs.flatMap Token.bytes).length := by
  have bytes : (p.reportAfter us).bytes = 0 + (us.flatMap Token.bytes).length :=
    Walk.offset_steps _ _
  rw [bytes, Nat.zero_add, ← List.length_append, ← List.flatMap_append, ← split,
    flatMap_bytes_tokens]

/-- An image moves the head past its columns and counts them. -/
theorem reportAfter_image (p : Page) (us : List Token) {t : Token} {i : BitImage}
    (image : t.image? = some i) :
    (p.reportAfter (us ++ [t])).cursor.x = (p.reportAfter us).cursor.x + i.payload.length ∧
      (p.reportAfter (us ++ [t])).columns = (p.reportAfter us).columns + i.payload.length := by
  rw [reportAfter_eq, reportAfter_eq, Printer.run_append, Printer.run_cons, Printer.run_nil,
    Printer.after_of_image image]
  exact ⟨rfl, rfl⟩

end Page

/-! ## Sums -/

namespace Token

/-- Number of bytes that a token announces, those of a payload that the stream has not got
included. -/
def announced (t : Token) : Nat :=
  match t.image? with
  | some i => i.header.length + i.declared
  | none => t.length

theorem length_of_image {t : Token} {i : BitImage} (image : t.image? = some i) :
    t.length = i.header.length + i.payload.length := by
  rcases image?_eq_some_iff.mp image with rfl | rfl <;> rfl

theorem columns_le_length (t : Token) : t.columns ≤ t.length := by
  cases image : t.image? with
  | none => simp only [columns, image, Nat.zero_le]
  | some i =>
    simp only [columns, image, length_of_image image]
    exact Nat.le_add_left _ _

end Token

/-- Two count bytes announce a bounded number of columns, in every mode. -/
theorem BitImage.declared_le (i : BitImage) : i.declared ≤ 255 + 255 * 256 * 3 := by
  have low := i.count.low.toNat_lt
  have high := i.count.high.toNat_lt
  have scaled : i.count.high.toNat * 256 * Density.multiplier i.density.mode ≤ 255 * 256 * 3 := by
    refine Nat.mul_le_mul (Nat.mul_le_mul_right 256 (Nat.le_of_lt_succ high)) ?_
    rw [Density.multiplier]
    split <;> decide
  exact Nat.add_le_add (Nat.le_of_lt_succ low) scaled

/-- A token announces hardly more than it has. -/
theorem Token.announced_le (t : Token) : t.announced ≤ t.length + (255 + 255 * 256 * 3) := by
  cases image : t.image? with
  | none =>
    simp only [announced, image]
    exact Nat.le_add_right _ _
  | some i =>
    have bound := i.declared_le
    simp only [announced, image, length_of_image image]
    omega

/-- The sums that are formed at a token, where the report is as given, are below a bound. -/
structure Report.SumsBelow (bound : Nat) (p : Page) (r : Report) (t : Token) : Prop where
  /-- The offsets of a header and of what follows it. -/
  header : r.bytes + 5 < bound
  /-- The length of an announced payload. -/
  declared : ∀ i, t.image? = some i → i.declared < bound
  /-- The offset past the token, or past the end of the stream if an announced payload ends
  there. -/
  next : r.bytes + t.announced < bound
  /-- The columns that are struck, and the one after them. -/
  column : r.cursor.x + t.columns < bound
  /-- The rows that a column covers, and the one after them. -/
  row : r.cursor.y + 16 < bound
  /-- The row of the next line. -/
  fed : r.cursor.y + Head.advance r.pitch < bound
  /-- The place of a cell in the buffer of the page. -/
  cell : ∀ x y, p.Contains x y → p.index x y < bound

/-- Where the accounts balance, the length of the stream and the size of the page bound all sums. -/
theorem Report.Balanced.sumsBelow {r : Report} (h : r.Balanced) {p : Page} {t : Token}
    (area : p.area < 2 ^ 64) (short : r.bytes + t.length ≤ 2 ^ 57) : r.SumsBelow (2 ^ 64) p t := by
  obtain ⟨column, -, row, paid⟩ := h
  have columns := t.columns_le_length
  have announced := t.announced_le
  have advance := (Head.advance_bounds r.pitch).2
  refine ⟨by omega, ?_, by omega, by omega, by omega, by omega, ?_⟩
  · intro i _
    have declared := i.declared_le
    omega
  · intro x y inside
    exact Nat.lt_trans (Page.index_lt_area inside) area

/-! ## The main statement -/

/-- **Every count is paid for.**  Wherever a decode stands between two tokens, the head has not
passed more columns than were struck, and they are no more than the stream has bytes.  The row of
the head is between the number of line feeds and 127 times that number.  Line feeds, columns, bit
images at four bytes each and skipped bytes together are no more than the stream has bytes.

No sum that is formed at the next token outgrows 64 bits.  If the next token is an image, the head
moves to the right, past as many columns as are announced or as the stream has left, and as many are
counted. -/
theorem decode_accounts (p : Page) (s : List UInt8) (area : p.area < 2 ^ 64)
    (short : s.length ≤ 2 ^ 57) {us vs : List Token} (split : tokens s = us ++ vs) :
    let r := p.reportAfter us
    (r.cursor.x ≤ r.columns ∧ r.columns ≤ s.length) ∧
      (r.lineFeeds ≤ r.cursor.y ∧ r.cursor.y ≤ 127 * r.lineFeeds) ∧
      r.lineFeeds + r.columns + 4 * r.bitImages + r.skipped ≤ s.length ∧
      ∀ t ts, vs = t :: ts →
        r.SumsBelow (2 ^ 64) p t ∧
          ∀ i, t.image? = some i →
            let after := p.reportAfter (us ++ [t])
            r.bytes + i.header.length ≤ s.length ∧
              r.cursor.x ≤ after.cursor.x ∧
              after.cursor.x - r.cursor.x =
                min i.declared (s.length - (r.bytes + i.header.length)) ∧
              after.columns = r.columns + (after.cursor.x - r.cursor.x) := by
  intro r
  have balanced : r.Balanced := p.balanced_reportAfter us
  have length : s.length = r.bytes + (vs.flatMap Token.bytes).length :=
    p.length_eq_bytes_reportAfter split
  have paid := balanced.paid
  refine ⟨⟨balanced.column, by omega⟩, ⟨balanced.fed, balanced.row⟩, by omega, ?_⟩
  rintro t ts rfl
  rw [List.flatMap_cons, List.length_append, Token.length_bytes] at length
  refine ⟨balanced.sumsBelow area (by omega), ?_⟩
  intro i image after
  obtain ⟨column, columns⟩ := p.reportAfter_image us image
  have fits : Splits s (us ++ t :: ts) := split ▸ splits_tokens s
  have payload := fits.fits_of_append.length_payload image
  rw [Token.length_of_image image] at length
  have passed : after.cursor.x - r.cursor.x = i.payload.length := by
    show (p.reportAfter (us ++ [t])).cursor.x - (p.reportAfter us).cursor.x = _
    rw [column, Nat.add_sub_cancel_left]
  have left : s.length - (r.bytes + i.header.length) =
      i.payload.length + (ts.flatMap Token.bytes).length := by omega
  refine ⟨by omega, ?_, ?_, ?_⟩
  · exact column ▸ Nat.le_add_right _ _
  · rw [passed, left]
    exact payload
  · rw [passed]
    exact columns

/-- One line feed on the page, and an image of which one column is there and two are not. -/
theorem decode_accounts_cut_image :
    let p : Page := .a4
    let s : List UInt8 := [0x41, 0x0A, 0x1B, 0x4C, 0x03, 0x00, 0xFF]
    let us : List Token := [.text 0x41, .command .lineFeed]
    let i : BitImage := ⟨.double, ⟨3, 0⟩, [0xFF]⟩
    let r := p.reportAfter us
    let after := p.reportAfter (us ++ [.cutImage i])
    p.area < 2 ^ 64 ∧ s.length ≤ 2 ^ 57 ∧ tokens s = us ++ [.cutImage i] ∧
      r.bytes = 2 ∧ r.cursor = ⟨0, 17⟩ ∧ i.declared = 3 ∧ after.cursor = ⟨1, 17⟩ ∧
      (r.lineFeeds ≤ r.cursor.y ∧ r.cursor.y ≤ 127 * r.lineFeeds) ∧
      r.lineFeeds + r.columns + 4 * r.bitImages + r.skipped ≤ s.length ∧
      r.SumsBelow (2 ^ 64) p (.cutImage i) ∧
      after.cursor.x - r.cursor.x = min i.declared (s.length - (r.bytes + i.header.length)) ∧
      after.columns = r.columns + (after.cursor.x - r.cursor.x) := by
  intro p s us i r after
  have area : p.area < 2 ^ 64 := by decide
  have short : s.length ≤ 2 ^ 57 := by decide
  have split : tokens s = us ++ [.cutImage i] := by decide +kernel
  have places : r.bytes = 2 ∧ r.cursor = ⟨0, 17⟩ ∧ i.declared = 3 ∧ after.cursor = ⟨1, 17⟩ := by
    decide +kernel
  obtain ⟨offset, start, declared, stop⟩ := places
  obtain ⟨-, row, paid, sums⟩ := decode_accounts p s area short split
  obtain ⟨below, image⟩ := sums (.cutImage i) [] rfl
  obtain ⟨-, -, passed, counted⟩ := image i rfl
  exact ⟨area, short, split, offset, start, declared, stop, row, paid, below, passed, counted⟩

end DotMatrix
