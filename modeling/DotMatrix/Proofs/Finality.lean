import DotMatrix.Proofs.Clipping
import DotMatrix.Proofs.Truncation

/-!
# Rows above the head are final

The head of a printer never moves up, and a bit image is struck in the sixteen rows from the head
downwards.  So a row that the head has left behind stays as it is, whatever the rest of the stream
holds, and a row that no image of the stream can have reached is still blank.

* `Printer.Descends p q`: the printer `q` is no higher than `p`, and the rows above `p` look the
  same in both.  Every token is such a step (`descends_after`), hence every run (`descends_run`).
* `Printer.BareBelow p`: the ink of `p` ends fifteen rows below the head.  Every token keeps that
  (`BareBelow.after`).

A stream may be cut anywhere, and then the shorter one ends with a token that the longer one does
not have.  That token need not be compared with what stands in its place: neither of the two moves
the row of the head (`row_after_of_isCut`), so both printers descend from the one before it, and
what is above the head of the first is above the head of that one.
-/

namespace DotMatrix

/-- The cells under a column are in the sixteen rows from its top. -/
theorem Struck.rows {columns : List UInt8} {p : Position} {x y : Nat} (h : Struck columns p x y) :
    p.y ≤ y ∧ y < p.y + 16 := by
  obtain ⟨k, hk, -, low, high, -⟩ := h
  exact ⟨low, high⟩

namespace Printer

/-! ## Above the head -/

/-- The printer `q` is no higher than `p`, and the rows above `p` have the same ink in both. -/
structure Descends (p q : Printer) : Prop where
  row : p.head.y ≤ q.head.y
  ink : ∀ x y, y < p.head.y → (q.canvas.ink x y = true ↔ p.canvas.ink x y = true)

theorem Descends.refl (p : Printer) : p.Descends p :=
  ⟨Nat.le_refl _, fun _ _ _ => Iff.rfl⟩

theorem Descends.trans {p q r : Printer} (h : p.Descends q) (k : q.Descends r) : p.Descends r := by
  refine ⟨Nat.le_trans h.row k.row, ?_⟩
  intro x y above
  have lower : y < q.head.y := Nat.lt_of_lt_of_le above h.row
  exact (k.ink x y lower).trans (h.ink x y above)

theorem descends_after (p : Printer) (t : Token) : p.Descends (p.after t) := by
  refine ⟨(grows_after p t).row, ?_⟩
  intro x y above
  cases image : t.image? with
  | none => rw [canvas_after_of_no_image image]
  | some i =>
    have missed : ¬Struck (i.payload.take i.declared) p.head.toPosition x y := by
      intro struck
      have low : p.head.y ≤ y := struck.rows.1
      omega
    rw [canvas_after_of_image image, Canvas.ink_strike]
    simp only [missed, and_false, or_false]

theorem descends_run (p : Printer) (ts : List Token) : p.Descends (p.run ts) := by
  induction ts generalizing p with
  | nil => exact .refl p
  | cons t ts ih => exact (descends_after p t).trans (ih _)

/-- A token that the end of a stream has cut leaves the head in its row. -/
theorem row_after_of_isCut {t : Token} (cut : t.IsCut) (p : Printer) :
    (p.after t).head.y = p.head.y := by
  cases t with
  | cutHeader | cutImage => rfl
  | command | strayEscape | text | control => exact cut.elim

/-- The whole tokens of a stream take the head to its last row. -/
theorem row_run_wholeTokens (p : Printer) (a : List UInt8) :
    (p.run (wholeTokens a)).head.y = (p.run (tokens a)).head.y := by
  rw [tokens_eq_wholeTokens_append a, run_append]
  rcases remainder_eq_nil_or a with nothing | ⟨t, cut, -, -, one⟩
  · rw [nothing, tokens_nil, run_nil]
  · rw [one]
    exact (row_after_of_isCut cut _).symm

/-- The printer descends if the stream goes on. -/
theorem descends_tokens_append (p : Printer) (a more : List UInt8) :
    (p.run (tokens a)).Descends (p.run (tokens (a ++ more))) := by
  have row := row_run_wholeTokens p a
  have first : (p.run (wholeTokens a)).Descends (p.run (tokens a)) := by
    rw [tokens_eq_wholeTokens_append a, run_append]
    exact descends_run _ _
  have whole : (p.run (wholeTokens a)).Descends (p.run (tokens (a ++ more))) := by
    rw [tokens_append, run_append]
    exact descends_run _ _
  refine ⟨row ▸ whole.row, ?_⟩
  intro x y above
  rw [← row] at above
  exact (whole.ink x y above).trans (first.ink x y above).symm

/-! ## Below the head -/

/-- The ink ends fifteen rows below the head, or above that. -/
def BareBelow (p : Printer) : Prop := ∀ x y, p.canvas.ink x y = true → y < p.head.y + 16

theorem BareBelow.after {p : Printer} (h : p.BareBelow) (t : Token) : (p.after t).BareBelow := by
  intro x y inked
  have row : p.head.y ≤ (p.after t).head.y := (grows_after p t).row
  cases image : t.image? with
  | none =>
    rw [canvas_after_of_no_image image] at inked
    have bare := h x y inked
    omega
  | some i =>
    rw [canvas_after_of_image image, Canvas.ink_strike] at inked
    rcases inked with old | ⟨-, struck⟩
    · have bare := h x y old
      omega
    · have high : y < p.head.y + 16 := struck.rows.2
      omega

theorem BareBelow.run {p : Printer} (h : p.BareBelow) (ts : List Token) : (p.run ts).BareBelow := by
  induction ts generalizing p with
  | nil => exact h
  | cons t ts ih => exact ih (h.after t)

theorem bareBelow_printer (p : Page) : p.printer.BareBelow := by
  intro x y inked
  exact absurd inked (Canvas.not_ink_blank p x y)

end Printer

/-! ## The canvas of a stream that is cut -/

/-- **Rows above the head are final.**  Wherever a stream is cut, the decode of its first part and
that of the whole stream show the same colours in every row above the row that the first part has
left the head in.  Sixteen rows below that row, and further down, the first part has left the page
blank. -/
theorem decode_take_rows (p : Page) (s : List UInt8) (n : Nat) :
    let first := decode p (s.take n)
    let whole := decode p s
    let row := first.report.cursor.y
    (∀ x y, y < row → first.canvas.cell x y = whole.canvas.cell x y) ∧
      ∀ x y, row + 16 ≤ y → first.canvas.cell x y = Palette.paper := by
  intro first whole row
  have at_head : row = (p.printer.run (tokens (s.take n))).head.y := by
    show (decode p (s.take n)).report.cursor.y = _
    rw [report_decode]
    rfl
  constructor
  · intro x y above
    have descends := p.printer.descends_tokens_append (s.take n) (s.drop n)
    rw [List.take_append_drop] at descends
    have ink := descends.ink x y (at_head ▸ above)
    rw [← canvas_decode, ← canvas_decode] at ink
    -- On two colours the ink says all about a cell.
    rw [(twoColoured_decode p _).cell_eq, (twoColoured_decode p _).cell_eq, Bool.eq_iff_iff.mpr ink]
  · intro x y below
    have bareBelow := (Printer.bareBelow_printer p).run (tokens (s.take n))
    have bare : ¬first.canvas.ink x y = true := by
      intro inked
      have same : first.canvas = (p.printer.run (tokens (s.take n))).canvas := canvas_decode p _
      rw [same] at inked
      have high := bareBelow x y inked
      omega
    rw [(twoColoured_decode p (s.take n)).cell_eq, if_neg bare]

end DotMatrix
