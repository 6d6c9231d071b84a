import DotMatrix.Json
import DotMatrix.Proofs.Numerals

/-!
# The lexemes of a JSON text

A JSON text is a row of lexemes: brackets and braces, commas and colons, texts, numbers and the word
`null`, with blanks and line breaks between them.  Of the values that JSON has, those are read that
a report may hold, so there are no truth values, no signs in front of a number and no fractions.

## The reading

A reading goes over the text once, a character at a time.  Besides the lexemes it has found it
remembers the `Place` it has come to: between lexemes, in a number, in a word, or in a text, and
there behind a backslash or in the four digits of a code.  A character that fits nowhere makes the
text unreadable.

A number is the one lexeme that does not say where it ends.  Its end is known from the next
character, so a text may end in two places: at rest between lexemes (`Rests`), or in a number as
well (`Settles`).  What begins with a character other than a digit can be put behind either
(`Settles.append`).

## What is written

The text of a value is made by putting signs, breaks, names and further values behind a text that is
already there, and each of these leads from a text of known lexemes to the next:

* the text between quotes is read back character by character, `past?_escaped`, whichever of the
  ways to write a character was taken;
* the digits of a number leave the reading in that number, `past?_toDigits`;
* `settles_onto` follows the writing of a value, of the items of a list and of the fields of an
  object, so that `lexemes?_pretty` holds of every value: `Json.lexemes` is what is read from its
  text, with a line break behind it or without.
-/

namespace DotMatrix
namespace Json

/-- A word of a JSON text. -/
inductive Lexeme where
  | openList
  | closeList
  | openObject
  | closeObject
  | comma
  | colon
  | null
  | number (n : Nat)
  | text (s : String)
  deriving DecidableEq

/-! ## Reading -/

/-- What a reading of a JSON text is in the middle of. -/
inductive Place where
  /-- Between two lexemes. -/
  | between
  /-- In a number, of which the value so far is known. -/
  | number (n : Nat)
  /-- In a word, of which some letters are missing. -/
  | word (missing : List Char)
  /-- In a text, of which some characters are known. -/
  | text (known : List Char)
  /-- Behind a backslash in a text. -/
  | escape (known : List Char)
  /-- In the code of a character in a text, with the value so far and the number of digits that are
  missing behind the next one. -/
  | code (known : List Char) (n : Nat) (missing : Nat)

/-- A reading of a JSON text. -/
structure Reading where
  /-- The lexemes so far. -/
  found : List Lexeme := []
  place : Place := .between

/-- A character that may stand between lexemes. -/
def isBlank (c : Char) : Bool := c = ' ' || c = '\n' || c = '\r' || c = '\t'

/-- The lexeme that is a single character. -/
def sign? (c : Char) : Option Lexeme :=
  if c = '[' then some .openList
  else if c = ']' then some .closeList
  else if c = '\x7b' then some .openObject
  else if c = '\x7d' then some .closeObject
  else if c = ',' then some .comma
  else if c = ':' then some .colon
  else none

/-- The character that a letter behind a backslash stands for. -/
def escape? (c : Char) : Option Char :=
  if c = '"' then some '"'
  else if c = '\\' then some '\\'
  else if c = '/' then some '/'
  else if c = 'n' then some '\n'
  else if c = 'r' then some '\r'
  else if c = 't' then some '\t'
  else if c = 'b' then some '\x08'
  else if c = 'f' then some '\x0c'
  else none

/-- The character of a code, if it is not half of a pair. -/
def coded? (n : Nat) : Option Char := if n.isValidChar then some (Char.ofNat n) else none

namespace Reading

/-- The reading past a character between lexemes. -/
def begin? (found : List Lexeme) (c : Char) : Option Reading :=
  if isBlank c then some ⟨found, .between⟩
  else if c = '"' then some ⟨found, .text []⟩
  else if c = 'n' then some ⟨found, .word ['u', 'l', 'l']⟩
  else if c.isDigit then some ⟨found, .number (c.toNat - '0'.toNat)⟩
  else (sign? c).map fun l => ⟨found ++ [l], .between⟩

/-- The reading past a character.  A number has no zeros in front. -/
def next? (r : Reading) (c : Char) : Option Reading :=
  match r.place with
  | .between => begin? r.found c
  | .number n =>
    if ¬c.isDigit then begin? (r.found ++ [.number n]) c
    else if n = 0 then none
    else some ⟨r.found, .number (10 * n + (c.toNat - '0'.toNat))⟩
  | .word missing =>
    if missing = [c] then some ⟨r.found ++ [.null], .between⟩
    else if missing.head? = some c then some ⟨r.found, .word missing.tail⟩
    else none
  | .text known =>
    if c = '"' then some ⟨r.found ++ [.text (String.ofList known)], .between⟩
    else if c = '\\' then some ⟨r.found, .escape known⟩
    else if c.toNat < 0x20 then none
    else some ⟨r.found, .text (known ++ [c])⟩
  | .escape known =>
    if c = 'u' then some ⟨r.found, .code known 0 3⟩
    else (escape? c).map fun d => ⟨r.found, .text (known ++ [d])⟩
  | .code known n missing =>
    (Hexadecimal.digit? c).bind fun d =>
      match missing with
      | 0 => (coded? (16 * n + d)).map fun e => ⟨r.found, .text (known ++ [e])⟩
      | missing + 1 => some ⟨r.found, .code known (16 * n + d) missing⟩

/-- The reading past some characters. -/
def past? (r : Reading) (s : List Char) : Option Reading := s.foldlM next? r

/-- The lexemes if the text ends here. -/
def lexemes? (r : Reading) : Option (List Lexeme) :=
  match r.place with
  | .between => some r.found
  | .number n => some (r.found ++ [.number n])
  | _ => none

end Reading

/-- The lexemes of a text. -/
def lexemes? (s : String) : Option (List Lexeme) :=
  (Reading.past? {} s.toList).bind Reading.lexemes?

/-! ## Text that is being written -/

/-- A text that ends between two lexemes. -/
def Rests (out : String) (ls : List Lexeme) : Prop :=
  Reading.past? {} out.toList = some ⟨ls, .between⟩

/-- A text that may end here: between two lexemes or in a number. -/
def Settles (out : String) (ls : List Lexeme) : Prop :=
  ∃ r, Reading.past? {} out.toList = some r ∧ r.lexemes? = some ls

variable {out : String} {ls : List Lexeme}

namespace Reading

theorem past?_append (r : Reading) (s t : List Char) :
    r.past? (s ++ t) = (r.past? s).bind fun q => q.past? t :=
  List.foldlM_append

theorem past?_cons (r : Reading) (c : Char) (s : List Char) :
    r.past? (c :: s) = (r.next? c).bind fun q => q.past? s :=
  rfl

/-- A number ends at the first character that is no digit. -/
theorem next?_of_not_isDigit {r : Reading} (h : r.lexemes? = some ls) {c : Char}
    (other : ¬c.isDigit) : r.next? c = begin? ls c := by
  obtain ⟨found, place⟩ := r
  cases place with
  | between =>
    obtain rfl : found = ls := Option.some.inj h
    rfl
  | number n =>
    obtain rfl : found ++ [Lexeme.number n] = ls := Option.some.inj h
    exact if_pos other
  | word | text | escape | code => exact nomatch h

end Reading

theorem Rests.settles (h : Rests out ls) : Settles out ls := ⟨_, h, rfl⟩

theorem Settles.lexemes? (h : Settles out ls) : lexemes? out = some ls := by
  obtain ⟨r, past, known⟩ := h
  rw [Json.lexemes?, past]
  exact known

theorem Rests.append (h : Rests out ls) {s : String} {more : List Lexeme}
    (past : Reading.past? ⟨ls, .between⟩ s.toList = some ⟨more, .between⟩) :
    Rests (out ++ s) more := by
  rw [Rests, String.toList_append, Reading.past?_append, h]
  exact past

/-- What begins with a character that is no digit is read as if the text had come to rest. -/
theorem Settles.append (h : Settles out ls) {s : String} {more : List Lexeme} {c : Char}
    {cs : List Char} (chars : s.toList = c :: cs) (other : ¬c.isDigit)
    (past : Reading.past? ⟨ls, .between⟩ s.toList = some ⟨more, .between⟩) :
    Rests (out ++ s) more := by
  obtain ⟨r, before, known⟩ := h
  rw [chars, Reading.past?_cons] at past
  rw [Rests, String.toList_append, Reading.past?_append, before, chars, Option.bind_some,
    Reading.past?_cons, Reading.next?_of_not_isDigit known other]
  exact past

/-! ## Signs and blanks -/

theorem past?_blanks (n : Nat) :
    Reading.past? ⟨ls, .between⟩ (List.replicate n ' ') = some ⟨ls, .between⟩ := by
  induction n with
  | zero => rfl
  | succ n ih => exact ih

theorem past?_lineBreak (level : Nat) :
    Reading.past? ⟨ls, .between⟩ (lineBreak level).toList = some ⟨ls, .between⟩ := by
  rw [lineBreak, String.toList_ofList]
  exact past?_blanks (2 * level)

/-! ## Texts -/

theorem coded?_toNat (c : Char) : coded? c.toNat = some c := by
  rw [coded?, if_pos (show c.toNat.isValidChar from c.valid), Char.ofNat_toNat]

theorem next?_code_zero {known : List Char} {n d : Nat} {c : Char}
    (digit : Hexadecimal.digit? c = some d) :
    Reading.next? ⟨ls, .code known n 0⟩ c =
      (coded? (16 * n + d)).map fun e => ⟨ls, .text (known ++ [e])⟩ := by
  rw [Reading.next?]
  simp only [digit, Option.bind_some]

theorem next?_code_succ {known : List Char} {n d : Nat} {c : Char}
    (digit : Hexadecimal.digit? c = some d) (missing : Nat) :
    Reading.next? ⟨ls, .code known n (missing + 1)⟩ c =
      some ⟨ls, .code known (16 * n + d) missing⟩ := by
  rw [Reading.next?]
  simp only [digit, Option.bind_some]

/-- The digits of a code, with the value of those in front. -/
theorem past?_code {known : List Char} {n missing m : Nat} {digits : List Char}
    (length : digits.length = missing + 1) (value : Hexadecimal.value? n digits = some m) :
    Reading.past? ⟨ls, .code known n missing⟩ digits =
      (coded? m).map fun c => ⟨ls, .text (known ++ [c])⟩ := by
  induction digits generalizing n missing with
  | nil => exact nomatch length
  | cons c digits ih =>
    obtain ⟨d, digit, value⟩ := Option.bind_eq_some_iff.mp value
    cases missing with
    | zero =>
      obtain rfl : digits = [] := List.eq_nil_of_length_eq_zero (Nat.succ.inj length)
      obtain rfl : 16 * n + d = m := Option.some.inj value
      rw [Reading.past?_cons, next?_code_zero digit]
      exact Option.bind_fun_some _
    | succ missing =>
      rw [Reading.past?_cons, next?_code_succ digit]
      exact ih (Nat.succ.inj length) value

theorem length_padded_control {n : Nat} (h : n < 0x20) :
    (Hexadecimal.padded 4 n).toList.length = 4 := by
  have all : ∀ n < 0x20, (Nat.toDigits 16 n).length ≤ 4 := by decide
  rw [Hexadecimal.padded, String.toList_ofList, List.length_leftpad]
  exact Nat.max_eq_left (all n h)

/-- A character is read back from the way it stands between quotes. -/
theorem past?_escaped (known : List Char) (c : Char) :
    Reading.past? ⟨ls, .text known⟩ (escaped c).toList =
      some ⟨ls, .text (known ++ [c])⟩ := by
  rw [escaped]
  split_ifs with quote backslash newline return_ tab backspace feed control
  · subst quote; rfl
  · subst backslash; rfl
  · subst newline; rfl
  · subst return_; rfl
  · subst tab; rfl
  · subst backspace; rfl
  · subst feed; rfl
  · -- The other control characters are written as codes.
    have opened : Reading.past? ⟨ls, .text known⟩ "\\u".toList = some ⟨ls, .code known 0 3⟩ := rfl
    rw [String.toList_append, Reading.past?_append, opened, Option.bind_some,
      past?_code (length_padded_control control) (Hexadecimal.value?_padded 4 c.toNat),
      coded?_toNat, Option.map_some]
  · rw [String.toList_singleton, Reading.past?_cons, Reading.next?]
    simp only [if_neg quote, if_neg backslash, if_neg control]
    rfl

theorem past?_characters (s : List Char) (out : String) (r : Reading) (known : List Char)
    (h : r.past? out.toList = some ⟨ls, .text known⟩) :
    r.past? (s.foldl (fun out c => out ++ escaped c) out).toList =
      some ⟨ls, .text (known ++ s)⟩ := by
  induction s generalizing out known with
  | nil => rw [List.append_nil]; exact h
  | cons c s ih =>
    have step : r.past? (out ++ escaped c).toList = some ⟨ls, .text (known ++ [c])⟩ := by
      rw [String.toList_append, Reading.past?_append, h]
      exact past?_escaped known c
    rw [List.foldl_cons, ih _ _ step, List.append_assoc, List.singleton_append]

/-- A text is read back from between its quotes. -/
theorem past?_quoted (s : String) :
    Reading.past? ⟨ls, .between⟩ (quoted s).toList = some ⟨ls ++ [.text s], .between⟩ := by
  rw [quoted, String.toList_append, Reading.past?_append,
    past?_characters s.toList "\"" ⟨ls, .between⟩ [] rfl, List.nil_append, Option.bind_some]
  refine Eq.trans (b := some ⟨ls ++ [.text (String.ofList s.toList)], .between⟩) rfl ?_
  rw [String.ofList_toList]

/-! ## Numbers -/

theorem begin?_digitChar {d : Nat} (h : d < 10) :
    Reading.begin? ls d.digitChar = some ⟨ls, .number d⟩ := by
  match d, h with
  | 0, _ | 1, _ | 2, _ | 3, _ | 4, _ | 5, _ | 6, _ | 7, _ | 8, _ | 9, _ => rfl

theorem next?_number {n d : Nat} (h : d < 10) (pos : n ≠ 0) :
    Reading.next? ⟨ls, .number n⟩ d.digitChar = some ⟨ls, .number (10 * n + d)⟩ := by
  have all : ∀ d < 10, d.digitChar.isDigit ∧ d.digitChar.toNat - '0'.toNat = d := by decide
  rw [Reading.next?]
  simp only [(all d h).1, (all d h).2, not_true, if_false, if_neg pos]

/-- The digits of a number leave the reading in the number. -/
theorem past?_toDigits (n : Nat) :
    Reading.past? ⟨ls, .between⟩ (Nat.toDigits 10 n) = some ⟨ls, .number n⟩ := by
  induction n using Nat.strongRecOn with
  | ind n ih =>
    rw [Nat.toDigits_eq_if (by decide)]
    by_cases small : n < 10
    · rw [if_pos small, Reading.past?_cons, Reading.next?]
      simp only [begin?_digitChar small]
      rfl
    · rw [if_neg small, Reading.past?_append, ih (n / 10) (by omega), Option.bind_some,
        Reading.past?_cons, next?_number (Nat.mod_lt n (by decide)) (by omega), Nat.div_add_mod]
      rfl

/-! ## Values -/

mutual

/-- The lexemes of a value. -/
def lexemes : Json → List Lexeme
  | null => [.null]
  | number n => [.number n]
  | text s => [.text s]
  | list [] => [.openList, .closeList]
  | list (j :: js) => .openList :: (j.lexemes ++ itemLexemes js ++ [.closeList])
  | object [] => [.openObject, .closeObject]
  | object ((name, j) :: fields) =>
    .openObject :: .text name :: .colon :: (j.lexemes ++ fieldLexemes fields ++ [.closeObject])

/-- The lexemes of the further items of a list. -/
def itemLexemes : List Json → List Lexeme
  | [] => []
  | j :: js => .comma :: (j.lexemes ++ itemLexemes js)

/-- The lexemes of the further fields of an object. -/
def fieldLexemes : List (String × Json) → List Lexeme
  | [] => []
  | (name, j) :: fields => .comma :: .text name :: .colon :: (j.lexemes ++ fieldLexemes fields)

end

/-- A line break is no lexeme, and it ends a number. -/
theorem Settles.lineBreak (h : Settles out ls) (level : Nat) : Rests (out ++ lineBreak level) ls :=
  h.append String.toList_ofList (by decide) (past?_lineBreak level)

theorem Rests.name (h : Rests out ls) (s : String) :
    Rests (out ++ quoted s ++ ": ") (ls ++ [.text s] ++ [.colon]) :=
  (h.append (past?_quoted s)).append rfl

theorem Rests.number (h : Rests out ls) (n : Nat) :
    Settles (out ++ n.repr) (ls ++ [.number n]) := by
  refine ⟨⟨ls, .number n⟩, ?_, rfl⟩
  rw [String.toList_append, Reading.past?_append, h, Nat.toList_repr]
  exact past?_toDigits n

mutual

/-- The text of a value is read as its lexemes. -/
theorem settles_onto {out : String} {ls : List Lexeme} (h : Rests out ls) (level : Nat) :
    (j : Json) → Settles (j.onto out level) (ls ++ j.lexemes)
  | null => (h.append rfl).settles
  | number n => h.number n
  | text s => (h.append (past?_quoted s)).settles
  | list [] => by
    have opened : Rests (out ++ "[]") (ls ++ [.openList] ++ [.closeList]) := h.append rfl
    simpa only [onto, lexemes, List.append_assoc, List.cons_append,
      List.nil_append] using opened.settles
  | list (j :: js) => by
    have opened : Rests (out ++ "[") (ls ++ [.openList]) := h.append rfl
    have first := settles_onto (opened.settles.lineBreak (level + 1)) (level + 1) j
    have items := settles_itemsOnto first (level + 1) js
    -- The last item may be a number, and then the break before the bracket ends it.
    have closed : Rests (_ ++ "]") (_ ++ [.closeList]) := (items.lineBreak level).append rfl
    simpa only [onto, lexemes, List.append_assoc, List.cons_append,
      List.nil_append] using closed.settles
  | object [] => by
    have opened : Rests (out ++ "\x7b\x7d") (ls ++ [.openObject] ++ [.closeObject]) := h.append rfl
    simpa only [onto, lexemes, List.append_assoc, List.cons_append,
      List.nil_append] using opened.settles
  | object ((name, j) :: fields) => by
    have opened : Rests (out ++ "\x7b") (ls ++ [.openObject]) := h.append rfl
    have first := settles_onto ((opened.settles.lineBreak (level + 1)).name name) (level + 1) j
    have others := settles_fieldsOnto first (level + 1) fields
    have closed : Rests (_ ++ "\x7d") (_ ++ [.closeObject]) :=
      (others.lineBreak level).append rfl
    simpa only [onto, lexemes, List.append_assoc, List.cons_append,
      List.nil_append] using closed.settles

theorem settles_itemsOnto {out : String} {ls : List Lexeme} (h : Settles out ls) (level : Nat) :
    (js : List Json) → Settles (itemsOnto out level js) (ls ++ itemLexemes js)
  | [] => by
    rw [itemsOnto, itemLexemes, List.append_nil]
    exact h
  | j :: js => by
    have behind : Rests (out ++ ",") (ls ++ [.comma]) := h.append rfl (by decide) rfl
    have next := settles_onto (behind.settles.lineBreak level) level j
    have items := settles_itemsOnto next level js
    simpa only [itemsOnto, itemLexemes, List.append_assoc, List.cons_append,
      List.nil_append] using items

theorem settles_fieldsOnto {out : String} {ls : List Lexeme} (h : Settles out ls) (level : Nat) :
    (fields : List (String × Json)) →
      Settles (fieldsOnto out level fields) (ls ++ fieldLexemes fields)
  | [] => by
    rw [fieldsOnto, fieldLexemes, List.append_nil]
    exact h
  | (name, j) :: fields => by
    have behind : Rests (out ++ ",") (ls ++ [.comma]) := h.append rfl (by decide) rfl
    have next := settles_onto ((behind.settles.lineBreak level).name name) level j
    have others := settles_fieldsOnto next level fields
    simpa only [fieldsOnto, fieldLexemes, List.append_assoc, List.cons_append,
      List.nil_append] using others

end

theorem settles_pretty (j : Json) : Settles j.pretty j.lexemes :=
  have start : Rests "" [] := rfl
  settles_onto start 0 j

/-- The lexemes of a value are read from its text, with a line break behind it or without. -/
theorem lexemes?_pretty (j : Json) :
    lexemes? j.pretty = some j.lexemes ∧ lexemes? (j.pretty ++ "\n") = some j.lexemes :=
  have broken : Rests (j.pretty ++ "\n") j.lexemes :=
    (settles_pretty j).append rfl (by decide) rfl
  ⟨(settles_pretty j).lexemes?, broken.settles.lexemes?⟩

end Json
end DotMatrix
