import DotMatrix.Log
import DotMatrix.Raster

/-!
# Walking a stream

The walk of a stream takes its tokens in order, with the offset at which each starts and the head as
it stands there.  Such a token in its place is an `Event`, and everything that decoding a stream
brings about is read off the events: which columns are struck and where, which diagnostics are made,
which records are logged, and how often things happened.

A walk knows the line pitch it starts with and nothing else about the page.

Two forms of the walk are given.  `Walk.step` takes one token and keeps the events in an array,
which is how a stream is walked; `Event.trail` is the list of events as a recursion on the tokens.
`trail_ofStream` says that they agree.
-/

namespace DotMatrix

/-- A token in its place. -/
structure Event where
  /-- Offset of the first byte of the token. -/
  offset : Nat
  /-- The head before the token. -/
  head : Head
  /-- The token. -/
  token : Token
  deriving DecidableEq, Repr

namespace Event

/-- The events of a list of tokens, the first of them at the given offset and head. -/
def trail (offset : Nat) (head : Head) : List Token → List Event
  | [] => []
  | t :: ts => ⟨offset, head, t⟩ :: trail (offset + t.length) (head.after t) ts

/-- The diagnostic of an event, if it calls for one. -/
def diagnostic? (e : Event) : Option Diagnostic :=
  match e.token with
  | .command _ => none
  | .strayEscape next => some (.unknownEscape e.offset next)
  | .text b => some (.printable e.offset b)
  | .control b => some (.unknownControl e.offset b e.head.toPosition)
  | .cutHeader rest => some (.truncatedCommand e.offset rest.head?)
  | .cutImage i => some (.truncatedBitImage e.offset i.declared i.payload.length)

/-- What an event does, apart from its diagnostic, that the log tells. -/
def action? (e : Event) : Option Log.Record :=
  match e.token with
  | .command (.lineSpacing n) => some (.lineSpacing e.offset n)
  | .command (.bitImage i) | .cutImage i =>
    some (.bitImage e.offset i.density.mode i.count e.head.toPosition)
  | _ => none

/-- The records of an event, its diagnostic first. -/
def records (e : Event) : List Log.Record :=
  (e.diagnostic?.map Log.Record.diagnostic).toList ++ e.action?.toList

/-- The event is a line feed. -/
def isLineFeed (e : Event) : Bool :=
  match e.token with
  | .command .lineFeed => true
  | _ => false

/-- The event is a bit image, complete or cut. -/
def isBitImage (e : Event) : Bool := e.token.image?.isSome

/-- Number of columns an event strikes. -/
def columns (e : Event) : Nat :=
  match e.token.image? with
  | some i => i.payload.length
  | none => 0

/-- The canvas after an event. -/
def strike (c : Canvas) (e : Event) : Canvas :=
  match e.token.image? with
  | some i => c.strike e.head.toPosition i
  | none => c

end Event

/-- The canvas after some events. -/
def Canvas.after (c : Canvas) (es : List Event) : Canvas := es.foldl Event.strike c

@[simp] theorem Canvas.after_nil (c : Canvas) : c.after [] = c := rfl

@[simp] theorem Canvas.after_cons (c : Canvas) (e : Event) (es : List Event) :
    c.after (e :: es) = (Event.strike c e).after es := rfl

/-- How far a stream was walked. -/
structure Walk where
  /-- Offset of the next token. -/
  offset : Nat
  /-- The head at that offset. -/
  head : Head
  /-- What happened so far. -/
  events : Array Event

namespace Walk

/-- The walk before any token, with the head where it stands. -/
def startAt (head : Head) : Walk := ⟨0, head, #[]⟩

/-- The walk of a print job before any token. -/
def start (pitch : UInt8) : Walk := startAt (.home pitch)

/-- The walk after one more token. -/
def step (w : Walk) (t : Token) : Walk :=
  ⟨w.offset + t.length, w.head.after t, w.events.push ⟨w.offset, w.head, t⟩⟩

/-- The walk after more tokens. -/
def steps (w : Walk) (ts : List Token) : Walk := ts.foldl step w

/-- The walk of a whole stream, from a line pitch. -/
def ofStream (pitch : UInt8) (s : List UInt8) : Walk := (start pitch).steps (tokens s)

@[simp] theorem steps_nil (w : Walk) : w.steps [] = w := rfl

@[simp] theorem steps_cons (w : Walk) (t : Token) (ts : List Token) :
    w.steps (t :: ts) = (w.step t).steps ts := rfl

/-- The head of a walk is moved by its tokens in turn. -/
theorem head_steps (w : Walk) (ts : List Token) :
    (w.steps ts).head = ts.foldl Head.after w.head := by
  induction ts generalizing w with
  | nil => rfl
  | cons t ts ih => exact ih (w.step t)

/-- The offset of a walk grows by the bytes of its tokens. -/
theorem offset_steps (w : Walk) (ts : List Token) :
    (w.steps ts).offset = w.offset + (ts.flatMap Token.bytes).length := by
  induction ts generalizing w with
  | nil => rfl
  | cons t ts ih =>
    rw [steps_cons, ih, List.flatMap_cons, List.length_append, Token.length_bytes, ← Nat.add_assoc]
    rfl

/-- The events of a walk are those it had and the trail of its tokens. -/
theorem events_steps (w : Walk) (ts : List Token) :
    (w.steps ts).events.toList = w.events.toList ++ Event.trail w.offset w.head ts := by
  induction ts generalizing w with
  | nil => simp [Event.trail]
  | cons t ts ih =>
    rw [steps_cons, ih]
    simp [step, Event.trail]

/-- What happened, in order. -/
def trail (w : Walk) : List Event := w.events.toList

/-- A walked stream is walked to its end. -/
theorem offset_ofStream (pitch : UInt8) (s : List UInt8) :
    (ofStream pitch s).offset = s.length := by
  rw [ofStream, offset_steps, flatMap_bytes_tokens]
  exact Nat.zero_add _

/-- The events of the walk of a stream are the trail of its tokens. -/
theorem trail_ofStream (pitch : UInt8) (s : List UInt8) :
    (ofStream pitch s).trail = Event.trail 0 (.home pitch) (tokens s) := by
  rw [trail, ofStream, events_steps]
  rfl

/-! ## What a walk brings about -/

/-- The diagnostics, in order. -/
def diagnostics (w : Walk) : List Diagnostic := w.trail.filterMap Event.diagnostic?

/-- The log, in order. -/
def records (w : Walk) : List Log.Record := w.trail.flatMap Event.records

/-- Number of bit images, complete or cut. -/
def bitImages (w : Walk) : Nat := w.trail.countP Event.isBitImage

/-- Number of line feeds. -/
def lineFeeds (w : Walk) : Nat := w.trail.countP Event.isLineFeed

/-- Number of columns struck. -/
def columns (w : Walk) : Nat := w.trail.foldr (fun e n => e.columns + n) 0

/-- The canvas of a page after the walk. -/
def canvas (w : Walk) (p : Page) : Canvas := (Canvas.blank p).after w.trail

end Walk
end DotMatrix
