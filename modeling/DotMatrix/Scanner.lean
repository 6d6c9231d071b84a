import DotMatrix.Log
import DotMatrix.Memory
import DotMatrix.Report

/-!
# Reading a stream by offsets

`tokens` takes a stream apart from its front, and it always holds what is left of it.  A scanner
holds the whole stream and an offset into it, and it does everything at once: it takes what is at
the offset, moves the head, strikes the page in its memory, counts, leaves notes and logs.

`Scanner.turn` takes what is at the offset.  A byte is loaded there, and the rest of the stream is
sliced where a payload starts, so that both can be a panic.  Parameters are asked for in a way that
may have no answer (`window`), since the stream may end in front of them.  All offsets, counts and
coordinates are words and made by a `Build`.

`Scanner.scan` makes turns as long as the offset is inside the stream and no header was cut.  Every
turn takes a byte at least, so there are no more turns than bytes.
-/

namespace DotMatrix

/-- The bytes of a range, if they are there. -/
def window (data : Array UInt8) (start stop : Nat) : Option (List UInt8) :=
  if start ≤ stop ∧ stop ≤ data.size then some (data.extract start stop).toList else none

/-- Number of bytes from an offset to the end. -/
def available (data : Array UInt8) (start : Nat) : Except Panic Nat :=
  if start ≤ data.size then .ok (data.size - start) else .error (.rest start data.size)

/-- A decode on its way through a stream. -/
structure Scanner where
  /-- Offset of the next token. -/
  offset : Nat
  /-- The stream has ended inside the header of a command. -/
  stopped : Bool
  /-- The head at that offset. -/
  head : Head
  /-- The page as it was struck so far. -/
  memory : Memory
  /-- Bit images so far. -/
  bitImages : Nat
  /-- Columns struck so far. -/
  columns : Nat
  /-- Line feeds so far. -/
  lineFeeds : Nat
  /-- Notes so far. -/
  diagnostics : Array Diagnostic
  /-- Records so far. -/
  log : Array Log.Record

namespace Scanner

variable (b : Build)

/-- The scanner before the first token. -/
def start (p : Page) : Except Panic Scanner := do
  return ⟨0, false, .home p.pitch, ← Memory.allocate b p, 0, 0, 0, #[], #[]⟩

/-- Go on some bytes further. -/
def skip (m : Scanner) (n : Nat) : Except Panic Scanner := do
  return { m with offset := ← b.add m.offset n }

/-- Leave a note and log it. -/
def note (m : Scanner) (d : Diagnostic) : Scanner :=
  { m with diagnostics := m.diagnostics.push d, log := m.log.push (.diagnostic d) }

/-- Note that the stream ends inside a header, and stop. -/
def truncated (m : Scanner) (opcode : Option UInt8) : Scanner :=
  { m.note (.truncatedCommand m.offset opcode) with stopped := true }

/-- Feed a line. -/
def feed (m : Scanner) : Except Panic Scanner := do
  let y ← b.add m.head.y (Head.advance m.head.pitch)
  let lineFeeds ← b.add m.lineFeeds 1
  skip b { m with head := ⟨⟨0, y⟩, Head.settle m.head.pitch⟩, lineFeeds := lineFeeds } 1

/-- Set the pitch. -/
def space (m : Scanner) (n : UInt8) : Except Panic Scanner :=
  skip b
    { m with head := { m.head with pitch := n }, log := m.log.push (.lineSpacing m.offset n) } 3

/-- Strike columns at the head, move past them, count them and log them. -/
def imprint (m : Scanner) (columns : List UInt8) (record : Log.Record) : Except Panic Scanner :=
  -- The scanner is taken apart, since its memory is changed in place and must not be held twice.
  match m with
  | ⟨offset, stopped, ⟨⟨x, y⟩, pitch⟩, memory, images, struck, lineFeeds, diagnostics, log⟩ => do
    let (memory, past) ← memory.strikeColumns b x y columns
    let images ← b.add images 1
    let struck ← b.add struck (← b.sub past x)
    return ⟨offset, stopped, ⟨⟨past, y⟩, pitch⟩, memory, images, struck, lineFeeds, diagnostics,
      log.push record⟩

/-- Strike a bit image whose payload starts at an offset.  What the stream has of the payload is
struck, and the scan goes on behind what is announced. -/
def strike (m : Scanner) (data : Array UInt8) (start : Nat) (mode : UInt8) (count : Count) :
    Except Panic Scanner := do
  let declared := count.payloadLength mode
  let there ← available data start
  let noted :=
    if there < declared then m.note (.truncatedBitImage m.offset declared there) else m
  let columns := (data.extract start (start + min there declared)).toList
  let struck ← noted.imprint b columns (.bitImage noted.offset mode count noted.head.toPosition)
  return { struck with offset := ← b.add start declared }

/-- Pass over a command of one parameter. -/
def pass (m : Scanner) (data : Array UInt8) (op : Opcode) : Except Panic Scanner := do
  if data.size ≤ (← b.add m.offset 2) then return m.truncated (some op.byte)
  else m.skip b 3

/-- Take the command of an opcode, the escape being at the offset. -/
def command (m : Scanner) (data : Array UInt8) : Opcode → Except Panic Scanner
  | .selectBitImage => do
    match window data (← b.add m.offset 2) (← b.add m.offset 5) with
    | some [mode, low, high] => m.strike b data (← b.add m.offset 5) mode ⟨low, high⟩
    | _ => return m.truncated (some Opcode.selectBitImage.byte)
  | .doubleDensity => do
    match window data (← b.add m.offset 2) (← b.add m.offset 4) with
    | some [low, high] => m.strike b data (← b.add m.offset 4) Density.doubleMode ⟨low, high⟩
    | _ => return m.truncated (some Opcode.doubleDensity.byte)
  | .lineSpacing => do
    match data[← b.add m.offset 2]? with
    | some n => m.space b n
    | none => return m.truncated (some Opcode.lineSpacing.byte)
  | .cancelItalic => m.pass b data .cancelItalic
  | .leftMargin => m.pass b data .leftMargin
  | .reset => m.skip b 2

/-- Take what starts with the escape at the offset. -/
def escape (m : Scanner) (data : Array UInt8) : Except Panic Scanner := do
  match data[← b.add m.offset 1]? with
  | none => return m.truncated none
  | some next =>
    match Opcode.ofByte? next with
    | some op => m.command b data op
    | none => (m.note (.unknownEscape m.offset next)).skip b 1

/-- Take the token at the offset. -/
def turn (m : Scanner) (data : Array UInt8) : Except Panic Scanner := do
  let byte ← load data m.offset
  if byte = Control.escape then m.escape b data
  else if byte = Control.lineFeed then m.feed b
  else if Control.firstPrintable ≤ byte then (m.note (.printable m.offset byte)).skip b 1
  else (m.note (.unknownControl m.offset byte m.head.toPosition)).skip b 1

/-- There is a token to take. -/
def Running (m : Scanner) (data : Array UInt8) : Prop := m.stopped = false ∧ m.offset < data.size

instance (m : Scanner) (data : Array UInt8) : Decidable (m.Running data) :=
  inferInstanceAs (Decidable (m.stopped = false ∧ m.offset < data.size))

/-- Make turns as long as there is a token to take, and a number of turns at most. -/
def run (data : Array UInt8) : Nat → Scanner → Except Panic Scanner
  | 0, m => return m
  | n + 1, m => if m.Running data then do run data n (← m.turn b data) else return m

/-- Scan a stream onto a page of paper. -/
def scan (p : Page) (data : Array UInt8) : Except Panic Scanner := do
  run b data data.size (← Scanner.start b p)

/-- What a scanner has to report on a stream of some bytes. -/
def report (m : Scanner) (bytes : Nat) : Report where
  bytes := bytes
  bitImages := m.bitImages
  columns := m.columns
  lineFeeds := m.lineFeeds
  cursor := m.head.toPosition
  pitch := m.head.pitch
  maxX := m.memory.maxX
  maxY := m.memory.maxY
  diagnostics := m.diagnostics.toList

end Scanner
end DotMatrix
