import DotMatrix.Hexadecimal

/-!
# JSON text

Values of the kind a report is made of, and their text: one item to a line, two blanks to a level,
a colon and a blank after a field's name, and empty lists and objects without a line break.  The
fields of an object are written in the order in which they stand.

The text is built up from the left.  `Json.onto` puts the text of a value behind text that is
already there, so that the length of a list does not matter to the cost of a line.
-/

namespace DotMatrix

/-- A value of a report. -/
inductive Json where
  | null
  | number (n : Nat)
  | text (s : String)
  | list (items : List Json)
  | object (fields : List (String × Json))
  deriving Repr

namespace Json

/-- A character as it stands between quotes. -/
def escaped (c : Char) : String :=
  if c = '"' then "\\\""
  else if c = '\\' then "\\\\"
  else if c = '\n' then "\\n"
  else if c = '\r' then "\\r"
  else if c = '\t' then "\\t"
  else if c = '\x08' then "\\b"
  else if c = '\x0c' then "\\f"
  else if c.toNat < 0x20 then "\\u" ++ Hexadecimal.padded 4 c.toNat
  else String.singleton c

/-- A text in quotes. -/
def quoted (s : String) : String :=
  s.toList.foldl (fun out c => out ++ escaped c) "\"" ++ "\""

/-- A line break and the blanks of a level. -/
def lineBreak (level : Nat) : String := String.ofList ('\n' :: List.replicate (2 * level) ' ')

mutual

/-- Some text followed by the text of a value that stands at a level. -/
def onto (out : String) (level : Nat) : Json → String
  | null => out ++ "null"
  | number n => out ++ n.repr
  | text s => out ++ quoted s
  | list [] => out ++ "[]"
  | list (j :: js) =>
    itemsOnto (j.onto (out ++ "[" ++ lineBreak (level + 1)) (level + 1)) (level + 1) js ++
      lineBreak level ++ "]"
  | object [] => out ++ "\x7b\x7d"
  | object ((name, j) :: fields) =>
    fieldsOnto
        (j.onto (out ++ "\x7b" ++ lineBreak (level + 1) ++ quoted name ++ ": ") (level + 1))
        (level + 1) fields ++
      lineBreak level ++ "\x7d"

/-- Some text followed by the further items of a list at a level. -/
def itemsOnto (out : String) (level : Nat) : List Json → String
  | [] => out
  | j :: js => itemsOnto (j.onto (out ++ "," ++ lineBreak level) level) level js

/-- Some text followed by the further fields of an object at a level. -/
def fieldsOnto (out : String) (level : Nat) : List (String × Json) → String
  | [] => out
  | (name, j) :: fields =>
    fieldsOnto (j.onto (out ++ "," ++ lineBreak level ++ quoted name ++ ": ") level) level fields

end

/-- The text of a value. -/
def pretty (j : Json) : String := j.onto "" 0

end Json
end DotMatrix
