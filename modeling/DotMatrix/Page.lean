/-!
# The page under the print head

A page is described by its size in cells, the border that a cropped picture keeps past its last
ink, and the line pitch in force before any command sets one.  A cell is one dot wide and half a
dot high: the head's vertical dots are 1/180 inch, and every one of them covers two rows.

Sizes are natural numbers, and zero is a legal size; a page with no cells simply takes no ink.  A
page on paper may be as large as it likes.  A machine keeps it in a buffer and its sizes in words,
and there the area, the indices and the crop can be too large (`DotMatrix.Memory`).
-/

namespace DotMatrix

/-- Geometry of a page and the settings a print job starts with. -/
structure Page where
  /-- Name of the profile. -/
  name : String
  /-- Columns of cells. -/
  width : Nat
  /-- Rows of cells. -/
  height : Nat
  /-- Columns and rows kept past the last inked ones when the page is cropped. -/
  border : Nat
  /-- Line pitch in 1/180 inch before any command sets it. -/
  pitch : UInt8
  deriving DecidableEq, Repr

namespace Page

/-- Number of cells. -/
def area (p : Page) : Nat := p.width * p.height

/-- An A4 sheet at 180 dots per inch across and 360 rows per inch down, with 1/6 inch lines. -/
def a4 : Page := ⟨"PAO A4", 1488, 4208, 10, 34⟩

instance : Inhabited Page := ⟨a4⟩

/-- The cell at column `x` of row `y` is inside the page. -/
def Contains (p : Page) (x y : Nat) : Prop := x < p.width ∧ y < p.height

instance (p : Page) (x y : Nat) : Decidable (p.Contains x y) :=
  inferInstanceAs (Decidable (x < p.width ∧ y < p.height))

/-- Row-major number of a cell. -/
def index (p : Page) (x y : Nat) : Nat := y * p.width + x

/-- Cells inside the page are numbered below its area. -/
theorem index_lt_area {p : Page} {x y : Nat} (h : p.Contains x y) : p.index x y < p.area := by
  have hy : (y + 1) * p.width ≤ p.height * p.width := Nat.mul_le_mul_right _ h.2
  have hx := h.1
  rw [Nat.succ_mul] at hy
  rw [index, area, Nat.mul_comm p.width]
  omega

/-- Two cells inside the page have the same number only if they are the same cell. -/
theorem index_inj {p : Page} {x y u v : Nat} (h : p.Contains x y) (k : p.Contains u v) :
    p.index x y = p.index u v ↔ x = u ∧ y = v := by
  refine ⟨fun e => ?_, fun e => by rw [e.1, e.2]⟩
  have hx := h.1
  have hu := k.1
  have column := congrArg (· % p.width) e
  have row := congrArg (· / p.width) e
  have positive : 0 < p.width := by omega
  simp only [index] at column row
  rw [Nat.mul_comm y, Nat.mul_comm v] at column row
  rw [Nat.mul_add_mod, Nat.mul_add_mod, Nat.mod_eq_of_lt hx, Nat.mod_eq_of_lt hu] at column
  rw [Nat.mul_add_div positive, Nat.mul_add_div positive, Nat.div_eq_of_lt hx,
    Nat.div_eq_of_lt hu] at row
  exact ⟨column, by simpa using row⟩

end Page
end DotMatrix
