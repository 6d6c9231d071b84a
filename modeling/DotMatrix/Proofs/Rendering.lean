import DotMatrix.Proofs.Clipping
import DotMatrix.Render

/-!
# Rendering loses and invents no ink

A rendering hands the cropped page to a sink, or nothing if there is no picture.  Two questions are
to be settled: what is in the picture, and how often the sink is called.

The picture ends a border behind the last ink, or where the page ends (`Canvas.IsFrame`).  Cropping
goes by the extents that the canvas has kept while it was painted.  They are the true ones
(`tight_decode`), so that all ink is inside the picture (`Tight.lt_cropped`) and a cell outside of
it is as blank in the picture as it is on the page.

A picture is there exactly if some ink is off the first column and some is off the first row
(`Tight.drawn_iff`).  The canvas and the report both ask for it in terms of the extents, and the ink
need not be the same in the two cases.

The sink may keep any state.  `recording` puts the frames that it was called with beside that state,
and so a rendering can be asked for the calls it has made.
-/

namespace DotMatrix

namespace Canvas

/-! ## Frames -/

/-- Some ink is off the first column and some is off the first row. -/
def Drawn (c : Canvas) : Prop :=
  (∃ x y, 1 ≤ x ∧ c.ink x y = true) ∧ ∃ x y, 1 ≤ y ∧ c.ink x y = true

/-- The bitmap holds the ink of the canvas: it goes from the first cell up to the largest inked
column and row and the border behind them, if the page goes that far. -/
structure IsFrame (c : Canvas) (b : Bitmap) : Prop where
  width : ∃ last, IsGreatest {x | ∃ y, c.ink x y = true} last ∧
    b.width = min (last + 1 + c.page.border) c.page.width
  height : ∃ last, IsGreatest {y | ∃ x, c.ink x y = true} last ∧
    b.height = min (last + 1 + c.page.border) c.page.height
  size : b.pixels.size = b.width * b.height
  indexes : ∀ v ∈ b.pixels, v = Palette.paper ∨ v = Palette.ink
  ink : ∀ x y, b.ink x y = c.ink x y

theorem contains_of_ink {c : Canvas} {x y : Nat} (inked : c.ink x y = true) :
    c.page.Contains x y := by
  by_contra outside
  rw [ink, cell, dif_neg outside] at inked
  exact absurd inked (by decide)

/-- All ink is inside the cropped picture. -/
theorem Tight.lt_cropped {c : Canvas} (h : c.Tight) {x y : Nat} (inked : c.ink x y = true) :
    x < c.croppedWidth ∧ y < c.croppedHeight := by
  obtain ⟨inWidth, inHeight⟩ := contains_of_ink inked
  have left := h.le_maxX x y inked
  have low := h.le_maxY x y inked
  rw [croppedWidth, croppedHeight]
  omega

theorem Tight.drawn_iff {c : Canvas} (h : c.Tight) : c.Drawn ↔ ¬c.IsEmpty := by
  constructor
  · rintro ⟨⟨x, y, right, inkedX⟩, u, v, below, inkedY⟩ empty
    have left := h.le_maxX x y inkedX
    have low := h.le_maxY u v inkedY
    rcases empty with zero | zero <;> omega
  · intro busy
    obtain ⟨right, below⟩ := not_or.mp busy
    -- An extent other than zero has been reached by some ink.
    obtain ⟨y, inkedX⟩ := h.maxX_inked.resolve_left right
    obtain ⟨x, inkedY⟩ := h.maxY_inked.resolve_left below
    exact ⟨⟨_, y, Nat.one_le_iff_ne_zero.mpr right, inkedX⟩,
      x, _, Nat.one_le_iff_ne_zero.mpr below, inkedY⟩

theorem ink_ofCells (c : Canvas) (w h x y : Nat) :
    (Bitmap.ofCells w h c.cell).ink x y = (decide (x < w ∧ y < h) && c.ink x y) := by
  by_cases inside : x < w ∧ y < h
  · rw [Bitmap.ink, Bitmap.get_ofCells _ inside.1 inside.2, decide_eq_true inside, Bool.true_and,
      ink]
  · rw [Bitmap.ink, Bitmap.get_of_not_lt _ inside, decide_eq_false inside, Bool.false_and]
    rfl

/-- The picture of a canvas that is not empty is a frame of it. -/
theorem Tight.isFrame {c : Canvas} (h : c.Tight) (two : c.TwoColoured) (busy : ¬c.IsEmpty) :
    c.IsFrame (Bitmap.ofCells c.croppedWidth c.croppedHeight c.cell) := by
  obtain ⟨zero, -, -⟩ | ⟨columns, rows⟩ := h.extents
  · exact absurd (Or.inl zero) busy
  refine ⟨⟨c.maxX, columns, rfl⟩, ⟨c.maxY, rows, rfl⟩, Bitmap.size_eq _, ?_, ?_⟩
  · intro v mem
    obtain ⟨i, rfl⟩ := Array.mem_ofFn.mp mem
    exact two _ _
  · intro x y
    rw [ink_ofCells]
    by_cases inked : c.ink x y = true
    · rw [decide_eq_true (h.lt_cropped inked), Bool.true_and]
    · rw [Bool.not_eq_true] at inked
      rw [inked, Bool.and_false]

end Canvas

/-! ## The calls of the sink -/

variable {σ : Type}

/-- The sink that also keeps the frames it was called with. -/
def recording (sink : Bitmap → StateM σ (Outcome Unit)) (b : Bitmap) :
    StateM (σ × List Bitmap) (Outcome Unit) := fun before =>
  let delivered := (sink b).run before.1
  (delivered.1, delivered.2, before.2 ++ [b])

/-- A canvas without a picture is not handed over. -/
theorem render_of_isEmpty {p : Page} {s : List UInt8} (empty : (decode p s).canvas.IsEmpty)
    (sink : Bitmap → StateM σ (Outcome Unit)) (before : σ × List Bitmap) :
    (render p s (recording sink)).run before =
      (⟨(decode p s).log ++ [.nothingDrawn], .ok (decode p s).report⟩, before) := by
  have none : (decode p s).bitmap? = none := (Canvas.cropped?_eq_none_iff _).mpr empty
  rw [render]
  simp only [none]
  rfl

/-- The picture of any other canvas is handed over once. -/
theorem render_of_not_isEmpty {p : Page} {s : List UInt8}
    (busy : ¬(decode p s).canvas.IsEmpty) (sink : Bitmap → StateM σ (Outcome Unit))
    (before : σ × List Bitmap) :
    let c := (decode p s).canvas
    let b := Bitmap.ofCells c.croppedWidth c.croppedHeight c.cell
    let delivered := (sink b).run before.1
    (render p s (recording sink)).run before =
      (⟨(decode p s).log ++ delivered.1.log, delivered.1.result.map fun _ => (decode p s).report⟩,
        delivered.2, before.2 ++ [b]) := by
  intro c b delivered
  have some : (decode p s).bitmap? = some b := if_neg busy
  rw [render]
  simp only [some]
  rfl

end DotMatrix
