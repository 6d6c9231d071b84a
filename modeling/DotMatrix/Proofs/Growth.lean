import DotMatrix.Proofs.Ink
import DotMatrix.Proofs.Printer

/-!
# What never shrinks

A printer paints and counts and moves down.  It never erases, never counts back and never moves up.
`Printer.Grows p q` is the order of printers in which every token is a step upwards (`grows_run`).
The column of the head is left out, since a line feed takes it back, and so is the pitch.
-/

namespace DotMatrix
namespace Canvas

/-- A bit image with more of its payload goes on painting where the shorter one has stopped. -/
theorem painted_strike_of_prefix (c : Canvas) (p : Position) {i j : BitImage}
    (declared : i.declared = j.declared) (payload : i.payload <+: j.payload) :
    (c.strike p i).Painted (c.strike p j) := by
  have start : i.payload.take i.declared <+: j.payload.take j.declared :=
    List.prefix_take_iff.mpr ⟨(List.take_prefix _ _).trans payload, by
      rw [List.length_take, declared]
      exact Nat.min_le_left _ _⟩
  obtain ⟨more, split⟩ := start
  have struck : c.strike p j = (c.strike p i).strikeColumns
      (p.x + (i.payload.take i.declared).length) p.y more := by
    rw [strike, ← split, strikeColumns_append]
    rfl
  rw [struck]
  exact painted_strikeColumns _ _ _ _

end Canvas

namespace Printer

/-- A bit image is struck whether or not it is cut. -/
theorem after_of_image {t : Token} {i : BitImage} (image : t.image? = some i) (p : Printer) :
    p.after t = { p.strike i with diagnostics := (p.after t).diagnostics } := by
  rcases Token.image?_eq_some_iff.mp image with rfl | rfl <;> rfl

/-- The canvas after a token that is a bit image, complete or cut. -/
theorem canvas_after_of_image {t : Token} {i : BitImage} (image : t.image? = some i)
    (p : Printer) : (p.after t).canvas = p.canvas.strike p.head.toPosition i := by
  rw [after_of_image image]
  rfl

/-- The canvas after a token that is no bit image. -/
theorem canvas_after_of_no_image {t : Token} (image : t.image? = none) (p : Printer) :
    (p.after t).canvas = p.canvas := by
  rw [after_eq]
  simp only [Event.strike, image]

/-- The printer `q` has at least the ink, the counts and the row of `p`. -/
structure Grows (p q : Printer) : Prop where
  canvas : p.canvas.Painted q.canvas
  bitImages : p.bitImages ≤ q.bitImages
  columns : p.columns ≤ q.columns
  lineFeeds : p.lineFeeds ≤ q.lineFeeds
  row : p.head.y ≤ q.head.y

theorem Grows.trans {p q r : Printer} (h : p.Grows q) (k : q.Grows r) : p.Grows r :=
  ⟨h.canvas.trans k.canvas, Nat.le_trans h.bitImages k.bitImages, Nat.le_trans h.columns k.columns,
    Nat.le_trans h.lineFeeds k.lineFeeds, Nat.le_trans h.row k.row⟩

/-- Offset, notes, column and pitch do not matter. -/
theorem Grows.of_eq {p q : Printer} (canvas : q.canvas = p.canvas)
    (bitImages : q.bitImages = p.bitImages) (columns : q.columns = p.columns)
    (lineFeeds : q.lineFeeds = p.lineFeeds) (row : q.head.y = p.head.y) : p.Grows q :=
  ⟨canvas ▸ .refl, Nat.le_of_eq bitImages.symm, Nat.le_of_eq columns.symm,
    Nat.le_of_eq lineFeeds.symm, Nat.le_of_eq row.symm⟩

theorem Grows.refl (p : Printer) : p.Grows p := .of_eq rfl rfl rfl rfl rfl

theorem grows_feed (p : Printer) : p.Grows p.feed := by
  refine ⟨.refl, Nat.le_refl _, Nat.le_refl _, Nat.le_succ _, ?_⟩
  rw [feed]
  split
  · exact Nat.le_succ _
  · exact Nat.le_add_right _ _

theorem grows_strike (p : Printer) (i : BitImage) : p.Grows (p.strike i) :=
  ⟨Canvas.painted_strike _ _ _, Nat.le_succ _, Nat.le_add_right _ _, Nat.le_refl _, Nat.le_refl _⟩

theorem grows_after (p : Printer) (t : Token) : p.Grows (p.after t) := by
  cases t with
  | command c =>
    cases c with
    | lineFeed => exact grows_feed p
    | bitImage i => exact grows_strike p i
    | reset | lineSpacing | cancelItalic | leftMargin => exact .of_eq rfl rfl rfl rfl rfl
  | cutImage i =>
    have noted : p.Grows (p.note (.truncatedBitImage p.offset i.declared i.payload.length)) :=
      .of_eq rfl rfl rfl rfl rfl
    exact noted.trans (grows_strike _ i)
  | strayEscape | text | control | cutHeader => exact .of_eq rfl rfl rfl rfl rfl

theorem grows_run (p : Printer) (ts : List Token) : p.Grows (p.run ts) := by
  induction ts generalizing p with
  | nil => exact .refl p
  | cons t ts ih => exact (grows_after p t).trans (ih _)

end Printer
end DotMatrix
