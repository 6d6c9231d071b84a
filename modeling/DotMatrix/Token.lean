import DotMatrix.Command

/-!
# Splitting a stream into tokens

A captured stream is split from left to right into tokens, and every byte belongs to exactly one of
them (`flatMap_bytes_tokens`).  A token is a complete command, a byte that is none, or the
incomplete command at the end of the stream.

* An escape before a byte that is no opcode is a token of one byte.  The byte after it is looked at
  again on its own, as if the escape had not been there; it may itself be an escape or a line feed.
* A command whose opcode or parameters are missing takes all that is left, and so does a bit image
  with fewer bytes than it announces.  So only the last token of a stream can be cut.

`Token.read` takes one token off a stream whose first byte is given apart, so that it never meets
the empty stream; what it leaves is never longer than what it was given past that byte
(`length_read_le`), which is why splitting ends.  A line feed or an escape inside the parameters or
the payload of a command is data, and is never looked at.
-/

namespace DotMatrix

/-- One piece of a stream. -/
inductive Token where
  /-- A command with all its parameters and all its payload. -/
  | command (c : Command)
  /-- An escape before a byte that is no opcode.  That byte is not part of the token. -/
  | strayEscape (next : UInt8)
  /-- A text byte. -/
  | text (b : UInt8)
  /-- A control byte other than line feed and escape. -/
  | control (b : UInt8)
  /-- An escape and what follows it, at the end of a stream that stops before the parameters of the
  command are complete. -/
  | cutHeader (rest : List UInt8)
  /-- A bit image at the end of a stream that stops before the announced payload is complete. -/
  | cutImage (image : BitImage)
  deriving DecidableEq, Repr

namespace Token

/-- The bytes of a token. -/
def bytes : Token → List UInt8
  | command c => c.bytes
  | strayEscape _ => [Control.escape]
  | text b => [b]
  | control b => [b]
  | cutHeader rest => Control.escape :: rest
  | cutImage i => i.bytes

/-- Number of bytes of a token. -/
def length : Token → Nat
  | command .lineFeed | strayEscape _ | text _ | control _ => 1
  | command .reset => 2
  | command (.lineSpacing _) | command (.cancelItalic _) | command (.leftMargin _) => 3
  | cutHeader rest => rest.length + 1
  | command (.bitImage i) | cutImage i => i.header.length + i.payload.length

@[simp] theorem length_bytes (t : Token) : t.bytes.length = t.length := by
  cases t with
  | command c => cases c <;> simp [bytes, length, Command.bytes, BitImage.bytes]
  | strayEscape | text | control | cutHeader => rfl
  | cutImage => simp [bytes, length, BitImage.bytes]

/-- The bit image of a token, complete or cut. -/
def image? : Token → Option BitImage
  | command (.bitImage i) | cutImage i => some i
  | _ => none

theorem image?_eq_some_iff {t : Token} {i : BitImage} :
    t.image? = some i ↔ t = command (.bitImage i) ∨ t = cutImage i := by
  constructor
  · intro image
    cases t with
    | command c =>
      cases c with
      | bitImage j =>
        obtain rfl : j = i := Option.some.inj image
        exact Or.inl rfl
      | lineFeed | reset | lineSpacing | cancelItalic | leftMargin => exact nomatch image
    | cutImage j =>
      obtain rfl : j = i := Option.some.inj image
      exact Or.inr rfl
    | strayEscape | text | control | cutHeader => exact nomatch image
  · rintro (rfl | rfl) <;> rfl

/-- The token was cut short by the end of the stream. -/
def IsCut : Token → Prop
  | cutHeader _ | cutImage _ => True
  | _ => False

instance : DecidablePred IsCut
  | cutHeader _ | cutImage _ => .isTrue trivial
  | command _ | strayEscape _ | text _ | control _ => .isFalse id

/-! ## Reading one token -/

/-- A bit image whose payload starts the given bytes, and what is left after it. -/
def readImage (density : Density) (count : Count) (body : List UInt8) : Token × List UInt8 :=
  let declared := count.payloadLength density.mode
  let image : BitImage := ⟨density, count, body.take declared⟩
  if image.payload.length < declared then (cutImage image, [])
  else (command (.bitImage image), body.drop declared)

/-- The command of an opcode whose parameters start the given bytes, and what is left after it. -/
def readCommand : Opcode → List UInt8 → Token × List UInt8
  | .reset, rest => (command .reset, rest)
  | .lineSpacing, n :: rest => (command (.lineSpacing n), rest)
  | .cancelItalic, n :: rest => (command (.cancelItalic n), rest)
  | .leftMargin, n :: rest => (command (.leftMargin n), rest)
  | .selectBitImage, m :: low :: high :: body => readImage (.selected m) ⟨low, high⟩ body
  | .doubleDensity, low :: high :: body => readImage .double ⟨low, high⟩ body
  | op, rest => (cutHeader (op.byte :: rest), [])

/-- The token that starts with an escape followed by the given bytes, and what is left after it. -/
def readEscape : List UInt8 → Token × List UInt8
  | [] => (cutHeader [], [])
  | b :: rest =>
    match Opcode.ofByte? b with
    | some op => readCommand op rest
    | none => (strayEscape b, b :: rest)

/-- The token that starts with byte `b` followed by the given bytes, and what is left after it. -/
def read (b : UInt8) (rest : List UInt8) : Token × List UInt8 :=
  if b = Control.escape then readEscape rest
  else if b = Control.lineFeed then (command .lineFeed, rest)
  else if Control.firstPrintable ≤ b then (text b, rest)
  else (control b, rest)

/-! ## What a reader takes and what it leaves -/

/-- A payload that is too short makes a cut image that takes all of it. -/
theorem readImage_of_lt {density : Density} {count : Count} {body : List UInt8}
    (h : body.length < count.payloadLength density.mode) :
    readImage density count body = (cutImage ⟨density, count, body⟩, []) := by
  simp only [readImage, List.take_of_length_le (Nat.le_of_lt h), h, if_true]

/-- A payload that is long enough is taken up to the announced length. -/
theorem readImage_of_le {density : Density} {count : Count} {body : List UInt8}
    (h : count.payloadLength density.mode ≤ body.length) :
    readImage density count body =
      (command (.bitImage ⟨density, count, body.take (count.payloadLength density.mode)⟩),
        body.drop (count.payloadLength density.mode)) := by
  simp only [readImage, List.length_take, Nat.min_eq_left h, Nat.lt_irrefl, if_false]

/-- A bit image and what is left after it are its header and the bytes it was read from. -/
theorem bytes_readImage (density : Density) (count : Count) (body : List UInt8) :
    (readImage density count body).1.bytes ++ (readImage density count body).2 =
      density.opening ++ count.bytes ++ body := by
  rcases Nat.lt_or_ge body.length (count.payloadLength density.mode) with h | h
  · simp [readImage_of_lt h, bytes, BitImage.bytes, BitImage.header]
  · simp [readImage_of_le h, bytes, Command.bytes, BitImage.bytes, BitImage.header]

/-- A command and what is left after it are its escape, its opcode and the bytes it was read
from. -/
theorem bytes_readCommand (op : Opcode) (rest : List UInt8) :
    (readCommand op rest).1.bytes ++ (readCommand op rest).2 =
      Control.escape :: op.byte :: rest := by
  unfold readCommand
  split
  all_goals first
    | rfl
    | rw [bytes_readImage]; rfl
    | simp [bytes]

/-- A token that starts with an escape and what is left after it are the escape and the bytes it was
read from. -/
theorem bytes_readEscape (rest : List UInt8) :
    (readEscape rest).1.bytes ++ (readEscape rest).2 = Control.escape :: rest := by
  cases rest with
  | nil => rfl
  | cons b rest =>
    cases e : Opcode.ofByte? b with
    | none => simp [readEscape, e, bytes]
    | some op =>
      simp only [readEscape, e]
      rw [bytes_readCommand, Opcode.ofByte?_eq_some_iff.mp e]

/-- A token and what is left after it are the bytes it was read from. -/
theorem bytes_read (b : UInt8) (rest : List UInt8) :
    (read b rest).1.bytes ++ (read b rest).2 = b :: rest := by
  by_cases esc : b = Control.escape
  · simp only [read, esc, if_true]
    exact bytes_readEscape rest
  by_cases lf : b = Control.lineFeed
  · simp only [read, lf, if_neg (show ¬Control.lineFeed = Control.escape by decide), if_true]
    rfl
  by_cases printable : Control.firstPrintable ≤ b
  · simp [read, esc, lf, printable, bytes]
  · simp [read, esc, lf, printable, bytes]

/-- Every token has a byte. -/
theorem length_pos (t : Token) : 0 < t.length := by
  cases t with
  | command c =>
    cases c with
    | bitImage i => exact Nat.lt_of_lt_of_le i.length_header_pos (Nat.le_add_right _ _)
    | _ => simp [length]
  | cutImage i => exact Nat.lt_of_lt_of_le i.length_header_pos (Nat.le_add_right _ _)
  | _ => simp [length]

/-- A reader leaves no more than it was given past the first byte. -/
theorem length_read_le (b : UInt8) (rest : List UInt8) : (read b rest).2.length ≤ rest.length := by
  have whole := congrArg List.length (bytes_read b rest)
  have positive := (read b rest).1.length_pos
  rw [List.length_append, length_bytes, List.length_cons] at whole
  omega

end Token

/-! ## Splitting a whole stream -/

/-- The tokens of a stream, put behind those already found. -/
def tokensOnto (found : Array Token) : List UInt8 → Array Token
  | [] => found
  | b :: rest => tokensOnto (found.push (Token.read b rest).1) (Token.read b rest).2
termination_by s => s.length
decreasing_by
  have := Token.length_read_le b rest
  simp only [List.length_cons]
  omega

/-- The tokens of a stream, in order. -/
def tokens (s : List UInt8) : List Token := (tokensOnto #[] s).toList

@[simp] theorem tokens_nil : tokens [] = [] := by
  simp [tokens, tokensOnto]

/-- Tokens found earlier stay in front. -/
theorem toList_tokensOnto : ∀ (s : List UInt8) (found : Array Token),
    (tokensOnto found s).toList = found.toList ++ tokens s
  | [], found => by simp [tokensOnto]
  | b :: rest, found => by
    have := Token.length_read_le b rest
    rw [tokens, tokensOnto.eq_def found, tokensOnto.eq_def #[]]
    simp only
    rw [toList_tokensOnto (Token.read b rest).2, toList_tokensOnto (Token.read b rest).2]
    simp
termination_by s => s.length
decreasing_by
  all_goals
    simp only [List.length_cons]
    omega

/-- The first token of a stream is the one a reader takes off it, and the others are those of what
the reader leaves. -/
theorem tokens_cons (b : UInt8) (rest : List UInt8) :
    tokens (b :: rest) = (Token.read b rest).1 :: tokens (Token.read b rest).2 := by
  rw [tokens, tokensOnto, toList_tokensOnto]
  simp

/-- The tokens of a stream hold its bytes, each once and in order. -/
theorem flatMap_bytes_tokens : ∀ s : List UInt8, (tokens s).flatMap Token.bytes = s
  | [] => by simp
  | b :: rest => by
    have := Token.length_read_le b rest
    rw [tokens_cons, List.flatMap_cons, flatMap_bytes_tokens (Token.read b rest).2,
      Token.bytes_read]
termination_by s => s.length
decreasing_by
  simp only [List.length_cons]
  omega

end DotMatrix
