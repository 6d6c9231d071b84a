import DotMatrix.Bitmap
import DotMatrix.Page

/-!
# The canvas

A canvas is the buffer of a page, one palette index per cell, with the largest column and the
largest row that were ever painted.  It is allocated once, at the size of the page; painting
outside the page does nothing, and cells are only ever painted, never erased.

`Canvas.cell` is the view of the buffer: the colour of a cell, paper outside the page.  What
painting does is said through it, in `cell_paint`, and through the two extents, in `maxX_paint`
and `maxY_paint`.

Columns, rows and the ends of the crop are natural numbers, so that nothing can overflow.  The same
operations with words for numbers are those of `DotMatrix.Memory`.

An extent of zero does not tell a blank page from ink in the first column alone.  A page whose ink
is confined to column 0, or to row 0, therefore counts as empty (`IsEmpty`), and nothing is cropped
from it.
-/

namespace DotMatrix

/-- The cells of a page and the extent of what was painted on it. -/
@[ext]
structure Canvas where
  /-- The page under the cells. -/
  page : Page
  /-- Palette index of every cell, in row-major order. -/
  cells : Array UInt8
  /-- Largest painted column, zero before any painting. -/
  maxX : Nat
  /-- Largest painted row, zero before any painting. -/
  maxY : Nat
  /-- There is a cell for every place of the page. -/
  size_eq : cells.size = page.area

namespace Canvas

/-- The canvas of a page before any painting. -/
def blank (p : Page) : Canvas :=
  ⟨p, Array.replicate p.area Palette.paper, 0, 0, Array.size_replicate⟩

/-- Columns of cells. -/
def width (c : Canvas) : Nat := c.page.width

/-- Rows of cells. -/
def height (c : Canvas) : Nat := c.page.height

/-- Palette index of the cell at column `x` of row `y`; paper outside the page. -/
def cell (c : Canvas) (x y : Nat) : UInt8 :=
  if h : c.page.Contains x y then
    have : c.page.index x y < c.cells.size := by rw [c.size_eq]; exact Page.index_lt_area h
    c.cells[c.page.index x y]
  else Palette.paper

/-- Whether the cell at column `x` of row `y` is inked.  Outside the page nothing is. -/
def ink (c : Canvas) (x y : Nat) : Bool := c.cell x y == Palette.ink

/-- Ink one cell.  Outside the page this does nothing. -/
def paint (c : Canvas) (x y : Nat) : Canvas :=
  if h : c.page.Contains x y then
    { c with
      cells := c.cells.set (c.page.index x y) Palette.ink
        (by rw [c.size_eq]; exact Page.index_lt_area h)
      maxX := max c.maxX x
      maxY := max c.maxY y
      size_eq := by rw [Array.size_set]; exact c.size_eq }
  else c

/-! ## What painting does -/

@[simp] theorem page_blank (p : Page) : (blank p).page = p := rfl

@[simp] theorem cell_blank (p : Page) (x y : Nat) : (blank p).cell x y = Palette.paper := by
  simp only [cell, blank, Array.getElem_replicate, dite_eq_ite, ite_self]

@[simp] theorem page_paint (c : Canvas) (x y : Nat) : (c.paint x y).page = c.page := by
  by_cases h : c.page.Contains x y
  · rw [paint, dif_pos h]
  · rw [paint, dif_neg h]

/-- Painting outside the page changes nothing. -/
theorem paint_of_not_contains {c : Canvas} {x y : Nat} (h : ¬c.page.Contains x y) :
    c.paint x y = c := by
  rw [paint, dif_neg h]

/-- Painting inks the painted cell, if it is in the page, and no other. -/
theorem cell_paint (c : Canvas) (x y u v : Nat) :
    (c.paint x y).cell u v =
      if c.page.Contains x y ∧ u = x ∧ v = y then Palette.ink else c.cell u v := by
  by_cases h : c.page.Contains x y
  · by_cases k : c.page.Contains u v
    · by_cases same : c.page.index x y = c.page.index u v
      · obtain ⟨rfl, rfl⟩ := (Page.index_inj h k).mp same
        simp [paint, cell, h]
      · have differs : ¬(u = x ∧ v = y) := fun e => same (by rw [e.1, e.2])
        simp [paint, cell, h, k, differs, Array.getElem_set, same]
    · have differs : ¬(u = x ∧ v = y) := fun e => k (by rw [e.1, e.2]; exact h)
      simp [paint, cell, h, k, differs]
  · rw [paint_of_not_contains h]
    simp [h]

/-- The largest column after painting. -/
theorem maxX_paint (c : Canvas) (x y : Nat) :
    (c.paint x y).maxX = if c.page.Contains x y then max c.maxX x else c.maxX := by
  by_cases h : c.page.Contains x y <;> simp [paint, h]

/-- The largest row after painting. -/
theorem maxY_paint (c : Canvas) (x y : Nat) :
    (c.paint x y).maxY = if c.page.Contains x y then max c.maxY y else c.maxY := by
  by_cases h : c.page.Contains x y <;> simp [paint, h]

/-! ## Cropping -/

/-- One of the extents is zero: nothing was painted, or all of it in the first column or row. -/
def IsEmpty (c : Canvas) : Prop := c.maxX = 0 ∨ c.maxY = 0

instance (c : Canvas) : Decidable c.IsEmpty :=
  inferInstanceAs (Decidable (c.maxX = 0 ∨ c.maxY = 0))

/-- Columns of the cropped picture: up to the last painted one and the border, within the page. -/
def croppedWidth (c : Canvas) : Nat := min (c.maxX + 1 + c.page.border) c.page.width

/-- Rows of the cropped picture: up to the last painted one and the border, within the page. -/
def croppedHeight (c : Canvas) : Nat := min (c.maxY + 1 + c.page.border) c.page.height

/-- The picture from the first cell to the last painted column and row and the border past them.
An empty canvas has no picture. -/
def cropped? (c : Canvas) : Option Bitmap :=
  if c.IsEmpty then none else some (Bitmap.ofCells c.croppedWidth c.croppedHeight c.cell)

/-- A canvas has no picture exactly if it is empty. -/
@[simp] theorem cropped?_eq_none_iff (c : Canvas) : c.cropped? = none ↔ c.IsEmpty := by
  simp [cropped?]

theorem width_of_cropped? {c : Canvas} {b : Bitmap} (picture : c.cropped? = some b) :
    b.width = c.croppedWidth := by
  rw [cropped?] at picture
  split at picture
  · exact nomatch picture
  · exact Option.some.inj picture ▸ rfl

end Canvas
end DotMatrix
