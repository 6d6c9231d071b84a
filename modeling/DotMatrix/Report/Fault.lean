/-!
# Faults of a report

A fault found while a report is written or read has a message, and may name a place by line and
column.  Both are one text: the message, then ` at line `, the line, ` column ` and the column.

`Fault.ofText` reads such a text.  A place counts only if it ends the text, behind the last
` at line `; both numbers are plain digits and fit in sixty-four bits.  Any other text is a message
as it stands, without a place.  `Fault.text` writes a fault down.  Lines are counted from one, so a
place in line zero is no place and is left out, and a number is written without zeros in front.
-/

namespace DotMatrix

/-- What went wrong with a report, and where. -/
structure Report.Fault where
  /-- What went wrong. -/
  message : String
  /-- The line, counted from one; zero for no place. -/
  line : Nat := 0
  /-- The column. -/
  column : Nat := 0
  deriving DecidableEq, Repr

namespace Report
namespace Fault

/-- What stands between the message and the line. -/
def lineMark : String := " at line "

/-- What stands between the line and the column. -/
def columnMark : String := " column "

/-- A number of a place is smaller than this. -/
def numberLimit : Nat := 18446744073709551616

/-- The characters before the last place where a mark stands, and those behind the mark. -/
def splitLast? (mark : List Char) : List Char → Option (List Char × List Char)
  | [] => none
  | c :: s =>
    match splitLast? mark s with
    | some (before, behind) => some (c :: before, behind)
    | none => if mark.isPrefixOf (c :: s) then some ([], (c :: s).drop mark.length) else none

/-- The number that some digits stand for, if there are any and it is small enough. -/
def number? (digits : List Char) : Option Nat :=
  let n := Nat.ofDigitChars 10 digits 0
  if digits ≠ [] ∧ digits.all Char.isDigit ∧ n < numberLimit then some n else none

/-- The line and the column of a place, which must be all of the given characters. -/
def place? (s : List Char) : Option (Nat × Nat) :=
  let rest := s.dropWhile Char.isDigit
  if columnMark.toList.isPrefixOf rest then do
    let line ← number? (s.takeWhile Char.isDigit)
    let column ← number? (rest.drop columnMark.length)
    return (line, column)
  else none

/-- The fault of a text. -/
def ofText (text : String) : Fault :=
  match splitLast? lineMark.toList text.toList with
  | none => { message := text }
  | some (message, behind) =>
    match place? behind with
    | none => { message := text }
    | some (line, column) => ⟨String.ofList message, line, column⟩

/-- The text of a fault. -/
def text (f : Fault) : String :=
  if f.line = 0 then f.message
  else f.message ++ lineMark ++ f.line.repr ++ columnMark ++ f.column.repr

end Fault
end Report
end DotMatrix
