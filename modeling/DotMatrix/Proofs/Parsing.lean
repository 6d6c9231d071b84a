import DotMatrix.Proofs.Lexemes

/-!
# Values read from their text

The lexemes of a value are put together by a machine that keeps the lists and objects whose ends it
has not seen yet, the innermost first, each with what stands in its front.  Besides these it
remembers its `Stage`, which tells what may come next: a value, a name, a colon, or, behind a value,
a comma or the end of what the value stands in.

A list and an object may be empty, and then their end comes where otherwise a value or a name would
come.  So the two openings have stages of their own, and what the machine does there differs from
the stage after a comma at the closing lexeme only (`past?_firstItem`).

* `past?_lexemes` follows the lexemes of a value: the machine comes to the stage behind that value,
  with all that was open left as it was.
* `ofText?_pretty` puts this behind the reading of lexemes: every value is read back from its text,
  with a line break behind it or without.
-/

namespace DotMatrix
namespace Json

/-- A list or an object of which only the front is known. -/
inductive Frame where
  | list (done : List Json)
  /-- With the name of the field whose value comes next. -/
  | object (done : List (String × Json)) (name : String)

/-- What may come next. -/
inductive Stage where
  /-- A value. -/
  | value
  /-- The first item of a list, or its end. -/
  | firstItem
  /-- The name of the first field of an object, or its end. -/
  | firstName
  /-- The name of a further field. -/
  | name (done : List (String × Json))
  /-- The colon behind a name. -/
  | colon (done : List (String × Json)) (name : String)
  /-- A comma behind a value, or the end of what it stands in. -/
  | behind (j : Json)

/-- Lexemes being put together. -/
structure Parse where
  /-- What is open, the innermost first. -/
  stack : List Frame
  stage : Stage

namespace Parse

/-- The first lexeme of a value. -/
def begin? (stack : List Frame) : Lexeme → Option Parse
  | .null => some ⟨stack, .behind .null⟩
  | .number n => some ⟨stack, .behind (.number n)⟩
  | .text s => some ⟨stack, .behind (.text s)⟩
  | .openList => some ⟨stack, .firstItem⟩
  | .openObject => some ⟨stack, .firstName⟩
  | .closeList | .closeObject | .comma | .colon => none

/-- A lexeme behind a value. -/
def extend? (j : Json) : List Frame → Lexeme → Option Parse
  | .list done :: stack, .comma => some ⟨.list (done ++ [j]) :: stack, .value⟩
  | .list done :: stack, .closeList => some ⟨stack, .behind (.list (done ++ [j]))⟩
  | .object done name :: stack, .comma => some ⟨stack, .name (done ++ [(name, j)])⟩
  | .object done name :: stack, .closeObject =>
    some ⟨stack, .behind (.object (done ++ [(name, j)]))⟩
  | _, _ => none

/-- The next lexeme. -/
def next? (p : Parse) (l : Lexeme) : Option Parse :=
  match p.stage, l with
  | .value, l => begin? p.stack l
  | .firstItem, .closeList => some ⟨p.stack, .behind (.list [])⟩
  | .firstItem, l => begin? (.list [] :: p.stack) l
  | .firstName, .closeObject => some ⟨p.stack, .behind (.object [])⟩
  | .firstName, .text s => some ⟨p.stack, .colon [] s⟩
  | .name done, .text s => some ⟨p.stack, .colon done s⟩
  | .colon done s, .colon => some ⟨.object done s :: p.stack, .value⟩
  | .behind j, l => extend? j p.stack l
  | _, _ => none

/-- Some lexemes. -/
def past? (p : Parse) (ls : List Lexeme) : Option Parse := ls.foldlM next? p

/-- The value that was read, if nothing is open. -/
def value? : Parse → Option Json
  | ⟨[], .behind j⟩ => some j
  | _ => none

theorem past?_append (p : Parse) (a b : List Lexeme) :
    p.past? (a ++ b) = (p.past? a).bind fun q => q.past? b :=
  List.foldlM_append

theorem past?_cons (p : Parse) (l : Lexeme) (ls : List Lexeme) :
    p.past? (l :: ls) = (p.next? l).bind fun q => q.past? ls :=
  rfl

end Parse

/-- The value that a text is the text of. -/
def ofText? (s : String) : Option Json :=
  (lexemes? s).bind fun ls => (Parse.past? ⟨[], .value⟩ ls).bind Parse.value?

/-! ## The lexemes of a value -/

/-- No value begins with the end of a list. -/
theorem exists_lexemes_eq_cons (j : Json) : ∃ l ls, j.lexemes = l :: ls ∧ l ≠ .closeList := by
  match j with
  | null | number n | text s | list [] | object [] => exact ⟨_, _, rfl, by simp⟩
  | list (j :: js) => exact ⟨_, _, by rw [lexemes], by simp⟩
  | object ((name, j) :: fields) => exact ⟨_, _, by rw [lexemes], by simp⟩

open Parse

/-- The first item of a list is read as one behind a comma is. -/
theorem past?_firstItem (stack : List Frame) (j : Json) (ls : List Lexeme) :
    past? ⟨stack, .firstItem⟩ (j.lexemes ++ ls) =
      past? ⟨.list [] :: stack, .value⟩ (j.lexemes ++ ls) := by
  obtain ⟨l, more, eq, other⟩ := exists_lexemes_eq_cons j
  rw [eq, List.cons_append, past?_cons, past?_cons]
  cases l with
  | closeList => exact absurd rfl other
  | _ => rfl

mutual

/-- The lexemes of a value lead behind that value. -/
theorem past?_lexemes (stack : List Frame) :
    (j : Json) → past? ⟨stack, .value⟩ j.lexemes = some ⟨stack, .behind j⟩
  | null | number _ | text _ | list [] | object [] => rfl
  | list (j :: js) => by
    rw [lexemes]
    change past? ⟨stack, .firstItem⟩ (j.lexemes ++ itemLexemes js ++ [.closeList]) = _
    rw [List.append_assoc, past?_firstItem, past?_append, past?_lexemes _ j, Option.bind_some,
      past?_itemLexemes stack [] j js]
    rfl
  | object ((name, j) :: fields) => by
    rw [lexemes]
    change past? ⟨.object [] name :: stack, .value⟩
      (j.lexemes ++ fieldLexemes fields ++ [.closeObject]) = _
    rw [List.append_assoc, past?_append, past?_lexemes _ j, Option.bind_some,
      past?_fieldLexemes stack [] name j fields]
    rfl

/-- The lexemes of the further items lead behind the list. -/
theorem past?_itemLexemes (stack : List Frame) (done : List Json) (j : Json) :
    (js : List Json) →
      past? ⟨.list done :: stack, .behind j⟩ (itemLexemes js ++ [.closeList]) =
        some ⟨stack, .behind (.list (done ++ j :: js))⟩
  | [] => rfl
  | i :: js => by
    rw [itemLexemes]
    change past? ⟨.list (done ++ [j]) :: stack, .value⟩
      (i.lexemes ++ itemLexemes js ++ [.closeList]) = _
    rw [List.append_assoc, past?_append, past?_lexemes _ i, Option.bind_some,
      past?_itemLexemes stack (done ++ [j]) i js, List.append_assoc, List.singleton_append]

/-- The lexemes of the further fields lead behind the object. -/
theorem past?_fieldLexemes (stack : List Frame) (done : List (String × Json)) (name : String)
    (j : Json) :
    (fields : List (String × Json)) →
      past? ⟨.object done name :: stack, .behind j⟩ (fieldLexemes fields ++ [.closeObject]) =
        some ⟨stack, .behind (.object (done ++ (name, j) :: fields))⟩
  | [] => rfl
  | (other, i) :: fields => by
    rw [fieldLexemes]
    change past? ⟨.object (done ++ [(name, j)]) other :: stack, .value⟩
      (i.lexemes ++ fieldLexemes fields ++ [.closeObject]) = _
    rw [List.append_assoc, past?_append, past?_lexemes _ i, Option.bind_some,
      past?_fieldLexemes stack (done ++ [(name, j)]) other i fields, List.append_assoc,
      List.singleton_append]

end

/-- A value is read back from its text, with a line break behind it or without. -/
theorem ofText?_pretty (j : Json) :
    ofText? j.pretty = some j ∧ ofText? (j.pretty ++ "\n") = some j := by
  have known : ∀ s, lexemes? s = some j.lexemes → ofText? s = some j := by
    intro s h
    rw [ofText?, h, Option.bind_some, past?_lexemes]
    rfl
  exact ⟨known _ (lexemes?_pretty j).1, known _ (lexemes?_pretty j).2⟩

end Json
end DotMatrix
