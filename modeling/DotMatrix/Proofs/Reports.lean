import DotMatrix.CommandLine.Run
import DotMatrix.Proofs.Parsing

/-!
# The report read back

A report is printed as a JSON object with nine fields, and nothing of it is lost on the way: the
report is known again from the text.

The reader looks the fields up by their names, whatever their order, and reads each in the way its
kind of value asks for: a number, a number below 256, a list, or a value that may be null.  A
diagnostic is told by its field `kind`, since the names of the other fields are shared between the
kinds; only the field `command` may be null, and null there is not the same as a byte.

* `Json.field?_cons` is how a field is found, and `Json.items?_map` takes a list back if its items
  are taken back, however many there are.
* `Diagnostic.ofJson?_toJson` and `Report.ofJson?_toJson` do this for values, one kind of diagnostic
  at a time; the reading of the text itself is the same for all values, `Json.ofText?_pretty`.
* `pretty_lossless` says it of the text, also as a run prints it, with a line break behind.
-/

namespace DotMatrix

namespace Json

/-! ## Fields -/

/-- The value of a field, read in some way. -/
def field? {α : Type} (j : Json) (name : String) (read : Json → Option α) : Option α :=
  match j with
  | object fields => (fields.lookup name).bind read
  | _ => none

/-- The value as a number. -/
def number? : Json → Option Nat
  | number n => some n
  | _ => none

/-- The value as a number below 256. -/
def byte? (j : Json) : Option UInt8 :=
  j.number?.bind fun n => if n < 256 then some (UInt8.ofNat n) else none

/-- The value as a text. -/
def text? : Json → Option String
  | text s => some s
  | _ => none

/-- The value as a list of things that are read in some way. -/
def items? {α : Type} (read : Json → Option α) : Json → Option (List α)
  | list items => items.mapM read
  | _ => none

/-- The value unless it is null. -/
def nullable? {α : Type} (read : Json → Option α) : Json → Option (Option α)
  | null => some none
  | j => (read j).map some

section

variable {α : Type}

@[simp] theorem field?_cons (other : String) (j : Json) (fields : List (String × Json))
    (name : String) (read : Json → Option α) :
    (object ((other, j) :: fields)).field? name read =
      if name = other then read j else (object fields).field? name read := by
  by_cases same : name = other
  · simp [field?, same]
  · simp [field?, List.lookup_cons, beq_false_of_ne same, same]

@[simp] theorem number?_number (n : Nat) : (number n).number? = some n := rfl

@[simp] theorem byte?_number (b : UInt8) : (number b.toNat).byte? = some b := by
  rw [byte?, number?_number, Option.bind_some, if_pos b.toNat_lt, UInt8.ofNat_toNat]

@[simp] theorem text?_text (s : String) : (text s).text? = some s := rfl

@[simp] theorem nullable?_null (read : Json → Option α) : null.nullable? read = some none := rfl

@[simp] theorem nullable?_number (read : Json → Option α) (n : Nat) :
    (number n).nullable? read = (read (number n)).map some := rfl

/-- A list is read back if its items are. -/
theorem items?_map {read : Json → Option α} {write : α → Json}
    (back : ∀ x, read (write x) = some x) (xs : List α) :
    (list (xs.map write)).items? read = some xs := by
  change (xs.map write).mapM read = some xs
  induction xs with
  | nil => rfl
  | cons x xs ih => simp [back, ih]

end

end Json

namespace Position

/-- The position with the coordinates that stand in some fields. -/
def ofJson? (j : Json) : Option Position := do
  return ⟨← j.field? "x" Json.number?, ← j.field? "y" Json.number?⟩

@[simp] theorem ofJson?_fields (p : Position) : ofJson? (.object p.fields) = some p := by
  simp [ofJson?, fields]

end Position

namespace Diagnostic

/-- The diagnostic of a value, as its kind tells. -/
def ofJson? (j : Json) : Option Diagnostic := do
  let kind ← j.field? "kind" Json.text?
  let offset ← j.field? "pos" Json.number?
  if kind = "printable" then
    return .printable offset (← j.field? "byte" Json.byte?)
  else if kind = "unknown_control" then
    return .unknownControl offset (← j.field? "byte" Json.byte?) (← Position.ofJson? j)
  else if kind = "unknown_escape" then
    return .unknownEscape offset (← j.field? "byte" Json.byte?)
  else if kind = "truncated_command" then
    return .truncatedCommand offset (← j.field? "command" (Json.nullable? Json.byte?))
  else if kind = "truncated_bit_image" then
    return .truncatedBitImage offset (← j.field? "declared" Json.number?)
      (← j.field? "available" Json.number?)
  else none

theorem ofJson?_toJson (d : Diagnostic) : ofJson? d.toJson = some d := by
  cases d with
  | truncatedCommand n x =>
    cases x with
    | none => simp [ofJson?, toJson, kind, offset, details]
    | some b => simp [ofJson?, toJson, kind, offset, details]
  | unknownControl n b p =>
    simp [ofJson?, toJson, kind, offset, details, Position.ofJson?, Position.fields]
  | _ => simp [ofJson?, toJson, kind, offset, details]

end Diagnostic

namespace Report

/-- The report of a value. -/
def ofJson? (j : Json) : Option Report := do
  return {
    bytes := ← j.field? "bytes" Json.number?
    bitImages := ← j.field? "bit_images" Json.number?
    columns := ← j.field? "columns" Json.number?
    lineFeeds := ← j.field? "line_feeds" Json.number?
    cursor := ← j.field? "cursor" Position.ofJson?
    pitch := ← j.field? "line_feed" Json.byte?
    maxX := ← j.field? "max_x" Json.number?
    maxY := ← j.field? "max_y" Json.number?
    diagnostics := ← j.field? "diagnostics" (Json.items? Diagnostic.ofJson?) }

theorem ofJson?_toJson (r : Report) : ofJson? r.toJson = some r := by
  simp [ofJson?, toJson, Json.items?_map Diagnostic.ofJson?_toJson]

/-- The report that a text tells of. -/
def ofText? (s : String) : Option Report := (Json.ofText? s).bind ofJson?

theorem ofText?_pretty (r : Report) :
    ofText? r.pretty = some r ∧ ofText? (r.pretty ++ "\n") = some r := by
  obtain ⟨plain, broken⟩ := Json.ofText?_pretty r.toJson
  constructor
  · rw [ofText?, pretty, plain, Option.bind_some, ofJson?_toJson]
  · rw [ofText?, pretty, broken, Option.bind_some, ofJson?_toJson]

theorem pretty_inj {q r : Report} : q.pretty = r.pretty ↔ q = r := by
  refine ⟨fun same => Option.some.inj ?_, congrArg pretty⟩
  rw [← (ofText?_pretty q).1, same, (ofText?_pretty r).1]

/-- A report is read back from its text, also from what a run prints that was asked for it, and so
different reports have different texts. -/
theorem pretty_lossless (r : Report) :
    ofText? r.pretty = some r ∧
      (∀ (a : CommandLine.Arguments) (target : Path) (log : List Log.Record),
        ofText? ({ a with report := true }.conclude target ⟨log, .ok r⟩).stdout = some r) ∧
      ∀ q : Report, q.pretty = r.pretty ↔ q = r :=
  ⟨(ofText?_pretty r).1, fun _ _ _ => (ofText?_pretty r).2, fun _ => pretty_inj⟩

/-- The order of the fields does not matter, and neither do line breaks. -/
example :
    (Json.ofText? "\x7b\"byte\":7, \"kind\":\"unknown_escape\", \"pos\":30\x7d").bind
      Diagnostic.ofJson? = some (.unknownEscape 30 7) := by
  decide +kernel

end Report
end DotMatrix
