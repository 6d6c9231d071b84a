import DotMatrix.Bitmap
import DotMatrix.Page
import DotMatrix.Raster
import DotMatrix.Word

/-!
# A page in memory

A canvas looks a cell up by its column and row, and it carries the proof that there is a cell for
every place of the page.  Memory knows of neither.  It is a buffer of bytes, a byte is asked for by
its index, and an index that is not below the size of the buffer is a panic.

`Memory` is the page as a machine has it.  It is allocated, painted, read and cropped by index, and
every size, index, column and row on the way is made in words, by a `Build`.  The edge of the page
is looked at before an index is made, so that painting past it does nothing.

The buffer is changed in place, as long as nobody else holds it.
-/

namespace DotMatrix

/-! ## Buffers -/

/-- The longest buffer that can be allocated. -/
def capacityLimit : Nat := 9223372036854775807

/-- A length that can be allocated. -/
def reserve (n : Nat) : Except Panic Nat := if capacityLimit < n then .error .capacity else .ok n

/-- The byte at an index. -/
def load (bytes : Array UInt8) (i : Nat) : Except Panic UInt8 :=
  if h : i < bytes.size then .ok bytes[i] else .error (.index i bytes.size)

/-- The bytes with the one at an index changed. -/
def store (bytes : Array UInt8) (i : Nat) (f : UInt8 → UInt8) : Except Panic (Array UInt8) :=
  if i < bytes.size then .ok (bytes.modify i f) else .error (.index i bytes.size)

/-- The bytes of a range. -/
def slice (bytes : Array UInt8) (start stop : Nat) : Except Panic (Array UInt8) :=
  if start ≤ stop ∧ stop ≤ bytes.size then .ok (bytes.extract start stop)
  else .error (.range start stop bytes.size)

theorem reserve_of_le {n : Nat} (h : n ≤ 9223372036854775807) : reserve n = .ok n :=
  if_neg (Nat.not_lt.mpr h)

theorem load_of_lt {bytes : Array UInt8} {i : Nat} (h : i < bytes.size) :
    load bytes i = .ok bytes[i] :=
  dif_pos h

theorem store_of_lt {bytes : Array UInt8} {i : Nat} (h : i < bytes.size) (f : UInt8 → UInt8) :
    store bytes i f = .ok (bytes.modify i f) :=
  if_pos h

theorem slice_of_le {bytes : Array UInt8} {start stop : Nat} (forward : start ≤ stop)
    (inside : stop ≤ bytes.size) :
    slice bytes start stop = .ok (bytes.extract start stop) :=
  if_pos ⟨forward, inside⟩

/-- The bitmap with some pixels, which have to fill it. -/
def fill (width height : Nat) (pixels : Array UInt8) : Except Panic Bitmap :=
  match Bitmap.ofPixels? width height pixels with
  | some b => .ok b
  | none => .error (.pixels pixels.size width height)

/-! ## The page -/

/-- The buffer of a page and the extent of what was painted on it. -/
structure Memory where
  /-- The page under the buffer. -/
  page : Page
  /-- Palette index of every cell, in row-major order. -/
  cells : Array UInt8
  /-- Largest painted column, zero before any painting. -/
  maxX : Nat
  /-- Largest painted row, zero before any painting. -/
  maxY : Nat

namespace Memory

variable (b : Build)

/-- A page of paper. -/
def allocate (p : Page) : Except Panic Memory := do
  let area ← reserve (← b.mul p.width p.height)
  return ⟨p, Array.replicate area Palette.paper, 0, 0⟩

/-- The index of a cell of the page. -/
def place (p : Page) (x y : Nat) : Except Panic Nat := do
  b.add (← b.mul y p.width) x

/-- Ink one cell.  Outside the page this does nothing. -/
def paint (m : Memory) (x y : Nat) : Except Panic Memory :=
  match m with
  | ⟨page, cells, maxX, maxY⟩ =>
    if page.width ≤ x ∨ page.height ≤ y then return ⟨page, cells, maxX, maxY⟩
    else do
      let cells ← store cells (← place b page x y) fun _ => Palette.ink
      return ⟨page, cells, max maxX x, max maxY y⟩

/-- Whether a cell is inked.  Outside the page nothing is. -/
def ink (m : Memory) (x y : Nat) : Except Panic Bool :=
  if m.page.width ≤ x ∨ m.page.height ≤ y then return false
  else return (← load m.cells (← place b m.page x y)) == Palette.ink

/-- Strike one dot with its top at column `x` of row `y`, if the column has it. -/
def strikeDot (m : Memory) (x y : Nat) (set : Bool) : Except Panic Memory :=
  if set then do (← m.paint b x y).paint b x (← b.add y 1)
  else return m

/-- Strike some dots of a column, one below the other, the first of them at row `y`. -/
def strikeDots (x : Nat) (column : UInt8) : List Nat → Memory → Nat → Except Panic Memory
  | [], m, _ => return m
  | k :: ks, m, y => do
    let m ← m.strikeDot b x y (Octet.dot column k)
    strikeDots x column ks m (← b.add y Head.rowsPerDot)

/-- Strike columns next to each other.  The column past them is handed back. -/
def strikeColumns (m : Memory) (x y : Nat) : List UInt8 → Except Panic (Memory × Nat)
  | [] => return (m, x)
  | column :: columns => do
    let m ← m.strikeDots b x column (List.range Head.dotsPerColumn) y
    m.strikeColumns (← b.add x 1) y columns

/-- The first cells of the first rows, one row after the other. -/
def rows (m : Memory) (width height : Nat) : Except Panic (Array UInt8) :=
  (List.range height).foldlM (fun pixels y => do
    let start ← b.mul y m.page.width
    let row ← slice m.cells start (← b.add start width)
    return pixels ++ row) #[]

/-- The picture of the first columns and rows. -/
def cut (m : Memory) (width height : Nat) : Except Panic Bitmap := do
  let _ ← reserve (← b.mul width height)
  fill width height (← m.rows b width height)

/-- The end of the picture on one axis: past the extent of the ink and the border, but not past the
page. -/
def edge (extent border size : Nat) : Except Panic Nat := do
  return min (← b.add (← b.add extent 1) border) size

/-- The picture of the page, up to the last painted column and row and the border past them. -/
def crop (m : Memory) : Except Panic (Option Bitmap) :=
  if m.maxX = 0 ∨ m.maxY = 0 then return none
  else do
    let width ← edge b m.maxX m.page.border m.page.width
    let height ← edge b m.maxY m.page.border m.page.height
    return some (← m.cut b width height)

end Memory
end DotMatrix
