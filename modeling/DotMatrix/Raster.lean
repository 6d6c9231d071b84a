import DotMatrix.Canvas
import DotMatrix.Head

/-!
# Striking columns

Each payload byte of a bit image is one column of eight dots, top dot in the top bit.  A cell is
half as high as a dot, so the dot `k` of a column struck at row `y` inks the rows `y + 2 * k` and
`y + 2 * k + 1`, and a full column inks sixteen.  The columns of an image are struck next to each
other, from the position of the head to the right; what falls outside the page leaves no ink.
-/

namespace DotMatrix

namespace Head

/-- Rows of cells that one dot covers. -/
def rowsPerDot : Nat := 2

/-- Dots in one column. -/
def dotsPerColumn : Nat := Octet.size

end Head

namespace Canvas

/-- Strike one dot with its top at column `x` of row `y`. -/
def strikeDot (c : Canvas) (x y : Nat) : Canvas := (c.paint x y).paint x (y + 1)

/-- Strike one column with its top at column `x` of row `y`. -/
def strikeColumn (c : Canvas) (x y : Nat) (column : UInt8) : Canvas :=
  (List.range Head.dotsPerColumn).foldl
    (fun c k => if Octet.dot column k then c.strikeDot x (y + Head.rowsPerDot * k) else c) c

/-- Strike columns next to each other, the first of them with its top at column `x` of row `y`. -/
def strikeColumns (c : Canvas) (x y : Nat) : List UInt8 → Canvas
  | [] => c
  | column :: columns => (c.strikeColumn x y column).strikeColumns (x + 1) y columns

/-- Strike a bit image at a position.  Payload past the announced length is not struck. -/
def strike (c : Canvas) (p : Position) (i : BitImage) : Canvas :=
  c.strikeColumns p.x p.y (i.payload.take i.declared)

@[simp] theorem strikeColumns_nil (c : Canvas) (x y : Nat) : c.strikeColumns x y [] = c := rfl

/-- Columns are struck one after the other. -/
theorem strikeColumns_append (c : Canvas) (x y : Nat) (as bs : List UInt8) :
    c.strikeColumns x y (as ++ bs) =
      (c.strikeColumns x y as).strikeColumns (x + as.length) y bs := by
  induction as generalizing c x with
  | nil => rfl
  | cons a as ih =>
    simp only [List.cons_append, strikeColumns, ih, List.length_cons]
    rw [Nat.add_assoc x 1, Nat.add_comm 1]

end Canvas

/-- The position past the struck columns of a bit image. -/
def Position.past (p : Position) (i : BitImage) : Position :=
  p.right (i.payload.take i.declared).length

end DotMatrix
