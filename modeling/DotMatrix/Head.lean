import DotMatrix.Token

/-!
# The print head

The head stands at a column and a row of cells and remembers the line pitch.  Three kinds of token
move it or change the pitch; all others leave it alone, a reset included.

* A line feed goes back to column zero and down by half the pitch, a cell being half as high as the
  unit of the pitch.  A pitch below four is degenerate: it is replaced by two, which stays in force,
  and the head moves down by one row.
* A line spacing command sets the pitch, and the replacement of a degenerate pitch waits for the
  next line feed.
* A bit image moves the head one column to the right for every payload byte that is there.

Columns and rows are natural numbers.  In words the head is moved by `DotMatrix.Scanner`.
-/

namespace DotMatrix

/-- A column and a row of cells. -/
structure Position where
  /-- Column. -/
  x : Nat
  /-- Row. -/
  y : Nat
  deriving DecidableEq, Repr

namespace Position

/-- The first column of the first row. -/
def origin : Position := ⟨0, 0⟩

/-- The position `n` columns to the right. -/
def right (p : Position) (n : Nat) : Position := ⟨p.x + n, p.y⟩

end Position

/-- Where the head stands, and the line pitch in force. -/
structure Head extends Position where
  /-- Line pitch in 1/180 inch. -/
  pitch : UInt8
  deriving DecidableEq, Repr

namespace Head

/-- The head at the start of a print job. -/
def home (pitch : UInt8) : Head := ⟨.origin, pitch⟩

/-- A pitch below this one is degenerate. -/
def leastPitch : UInt8 := 4

/-- The pitch that replaces a degenerate one. -/
def fallbackPitch : UInt8 := 2

/-- The pitch a line feed works with. -/
def settle (pitch : UInt8) : UInt8 := if pitch < leastPitch then fallbackPitch else pitch

/-- Rows that a line feed moves down in a pitch: one if the pitch is degenerate, half of it if it
is not. -/
def advance (pitch : UInt8) : Nat := (settle pitch).toNat / 2

/-- A line feed. -/
def feed (h : Head) : Head := ⟨⟨0, h.y + advance h.pitch⟩, settle h.pitch⟩

/-- The head after a token. -/
def after (h : Head) : Token → Head
  | .command .lineFeed => h.feed
  | .command (.lineSpacing n) => { h with pitch := n }
  | .command (.bitImage i) | .cutImage i => { h with toPosition := h.right i.payload.length }
  | _ => h

/-- The head moves down by one row in a degenerate pitch, by half the pitch in any other. -/
theorem advance_eq (pitch : UInt8) :
    advance pitch = if pitch.toNat < 4 then 1 else pitch.toNat / 2 := by
  have below : pitch < leastPitch ↔ pitch.toNat < 4 := UInt8.lt_iff_toNat_lt
  by_cases h : pitch.toNat < 4
  · rw [advance, settle, if_pos (below.mpr h), if_pos h]
    rfl
  · rw [advance, settle, if_neg (mt below.mp h), if_neg h]

/-- A settled pitch stays as it is. -/
@[simp] theorem settle_settle (pitch : UInt8) : settle (settle pitch) = settle pitch := by
  by_cases h : pitch < leastPitch
  · rw [settle, settle, if_pos h]
    rfl
  · simp only [settle, if_neg h]

end Head
end DotMatrix
