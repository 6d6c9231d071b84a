import DotMatrix.Token

/-!
# The splits of a stream

`tokens` reads a stream from left to right.  Here it is said without any reading which lists of
tokens a stream may be split into, and that there is exactly one.

`Token.Fits t rest` says that the token `t` may stand before the bytes `rest`.  A command with all
its payload fits before anything.  So does a byte that is neither a line feed nor an escape.  An
escape is a token of its own only before a byte that is no opcode, so it is the one token that asks
about the byte after it.  A command that is cut short fits at the end of the stream only.  A split
of a stream, `Splits`, is a list of tokens that fit, each before the bytes of those behind it.

* `splits_iff`: the splits of a stream are its `tokens`, and nothing else is one.
* `Token.Fits.exists_command_of_isCut`: a cut token is a proper prefix of a command that starts with
  an escape.
* `tokens_append`: what follows a stream changes only the token that the end of the stream cuts.
-/

namespace DotMatrix

/-! ## Headers -/

namespace Opcode

/-- Number of parameter bytes of a command, the payload of a bit image left out. -/
def parameters : Opcode → Nat
  | reset => 0
  | lineSpacing | cancelItalic | leftMargin => 1
  | doubleDensity => 2
  | selectBitImage => 3

end Opcode

namespace Command

/-- The bytes of a command before its payload. -/
def header : Command → List UInt8
  | bitImage i => i.header
  | c => c.bytes

theorem header_prefix_bytes (c : Command) : c.header <+: c.bytes := by
  cases c with
  | bitImage i => exact List.prefix_append _ _
  | _ => exact List.prefix_rfl

/-- A command is a line feed, or its header is an escape, an opcode and parameters. -/
theorem header_eq (c : Command) :
    c = lineFeed ∨ ∃ (op : Opcode) (ps : List UInt8),
      c.header = Control.escape :: op.byte :: ps ∧ ps.length = op.parameters := by
  cases c with
  | lineFeed => exact Or.inl rfl
  | reset => exact Or.inr ⟨.reset, [], rfl, rfl⟩
  | lineSpacing n => exact Or.inr ⟨.lineSpacing, [n], rfl, rfl⟩
  | cancelItalic n => exact Or.inr ⟨.cancelItalic, [n], rfl, rfl⟩
  | leftMargin n => exact Or.inr ⟨.leftMargin, [n], rfl, rfl⟩
  | bitImage i =>
    obtain ⟨density, count, payload⟩ := i
    cases density with
    | selected m => exact Or.inr ⟨.selectBitImage, [m, count.low, count.high], rfl, rfl⟩
    | double => exact Or.inr ⟨.doubleDensity, [count.low, count.high], rfl, rfl⟩

end Command

namespace Token

/-! ## Tokens in their place -/

/-- The token may stand before the given bytes. -/
inductive Fits : Token → List UInt8 → Prop where
  | command {c : Command} (wellFormed : c.WellFormed) (rest : List UInt8) : Fits (command c) rest
  | strayEscape {b : UInt8} (stray : ∀ op : Opcode, op.byte ≠ b) (rest : List UInt8) :
      Fits (strayEscape b) (b :: rest)
  | text {b : UInt8} (printable : Control.firstPrintable ≤ b) (rest : List UInt8) :
      Fits (text b) rest
  | control {b : UInt8} (below : b < Control.firstPrintable) (notEscape : b ≠ Control.escape)
      (notLineFeed : b ≠ Control.lineFeed) (rest : List UInt8) : Fits (control b) rest
  /-- The stream may end inside the header of a command. -/
  | cutHeader {c : Command} {bs : List UInt8} (opens : Control.escape :: bs <+: c.header)
      (short : (Control.escape :: bs).length < c.header.length) : Fits (cutHeader bs) []
  /-- The stream may end inside the payload of a bit image, or right before it. -/
  | cutImage {i : BitImage} (short : i.payload.length < i.declared) : Fits (cutImage i) []

/-- A cut token fits at the end of the stream only. -/
theorem Fits.eq_nil_of_isCut {t : Token} {rest : List UInt8} (h : t.Fits rest) (cut : t.IsCut) :
    rest = [] := by
  cases h with
  | cutHeader | cutImage => rfl
  | command | strayEscape | text | control => exact cut.elim

/-- A token that is not cut still fits if the stream goes on. -/
theorem Fits.append {t : Token} {rest : List UInt8} (h : t.Fits rest) (whole : ¬t.IsCut)
    (more : List UInt8) : t.Fits (rest ++ more) := by
  cases h with
  | command wellFormed => exact .command wellFormed _
  | strayEscape stray => exact .strayEscape stray _
  | text printable => exact .text printable _
  | control below notEscape notLineFeed => exact .control below notEscape notLineFeed _
  | cutHeader | cutImage => exact absurd trivial whole

/-- A bit image that fits carries what it announces, or what is left of the stream. -/
theorem Fits.length_payload {t : Token} {rest : List UInt8} (h : t.Fits rest) {i : BitImage}
    (image : t.image? = some i) :
    i.payload.length = min i.declared (i.payload.length + rest.length) := by
  rcases image?_eq_some_iff.mp image with rfl | rfl
  · cases h with
    | command complete =>
      have complete : i.payload.length = i.declared := complete
      rw [← complete, Nat.min_eq_left (Nat.le_add_right _ _)]
  · cases h with
    | cutImage short => exact (Nat.min_eq_right (Nat.le_of_lt short)).symm

/-- A bit image that fits carries no more than it announces. -/
theorem Fits.length_payload_le {t : Token} {rest : List UInt8} (h : t.Fits rest) {i : BitImage}
    (image : t.image? = some i) : i.payload.length ≤ i.declared := by
  rw [h.length_payload image]
  exact Nat.min_le_left _ _

/-! ## Reading a token that fits -/

/-- A stream that ends among the parameters of a command gives a cut header. -/
theorem readCommand_of_lt {op : Opcode} {ps : List UInt8} (h : ps.length < op.parameters) :
    readCommand op ps = (cutHeader (op.byte :: ps), []) := by
  match op, ps, h with
  | .lineSpacing, [], _ | .cancelItalic, [], _ | .leftMargin, [], _ => rfl
  | .doubleDensity, [], _ | .doubleDensity, [_], _ => rfl
  | .selectBitImage, [], _ | .selectBitImage, [_], _ | .selectBitImage, [_, _], _ => rfl

/-- A stream that ends inside a header gives a cut header. -/
theorem readEscape_of_prefix_header {c : Command} {bs : List UInt8}
    (opens : Control.escape :: bs <+: c.header)
    (short : (Control.escape :: bs).length < c.header.length) :
    readEscape bs = (cutHeader bs, []) := by
  rcases bs with _ | ⟨b, ps⟩
  · rfl
  rcases c.header_eq with rfl | ⟨op, qs, hc, hqs⟩
  · exact absurd short (by simp [Command.header, Command.bytes])
  rw [hc] at opens short
  obtain ⟨rfl, -⟩ := List.cons_prefix_cons.mp (List.cons_prefix_cons.mp opens).2
  have hps : ps.length < op.parameters := by
    rw [← hqs]
    simpa using short
  rw [readEscape, Opcode.ofByte?_byte]
  exact readCommand_of_lt hps

/-- The payload of a complete bit image is read up to its end. -/
theorem readImage_of_complete {i : BitImage} (complete : i.Complete) (rest : List UInt8) :
    readImage i.density i.count (i.payload ++ rest) = (command (.bitImage i), rest) := by
  have declared : i.count.payloadLength i.density.mode = i.payload.length := complete.symm
  rw [readImage_of_le (by rw [declared, List.length_append]; exact Nat.le_add_right _ _), declared,
    List.take_left, List.drop_left]

/-- A bit image is read from its payload once its header is read. -/
theorem read_header_append (i : BitImage) (body : List UInt8) :
    ∃ tail, i.header ++ body = Control.escape :: tail ∧
      read Control.escape tail = readImage i.density i.count body := by
  obtain ⟨density, count, payload⟩ := i
  cases density with
  | selected m => exact ⟨_, rfl, rfl⟩
  | double => exact ⟨_, rfl, rfl⟩

/-- Reading the bytes of a token that fits gives the token back. -/
theorem Fits.read_eq {t : Token} {rest : List UInt8} (h : t.Fits rest) {b : UInt8}
    {tail : List UInt8} (e : t.bytes ++ rest = b :: tail) : read b tail = (t, rest) := by
  cases h with
  | @command c wellFormed =>
    cases c with
    | bitImage i =>
      obtain ⟨tail', he, hr⟩ := read_header_append i (i.payload ++ rest)
      have whole : Control.escape :: tail' = b :: tail := by
        rw [← he, ← e]
        exact (List.append_assoc _ _ _).symm
      obtain ⟨rfl, rfl⟩ := List.cons.inj whole
      rw [hr]
      exact readImage_of_complete wellFormed rest
    | _ =>
      obtain ⟨rfl, rfl⟩ := List.cons.inj e
      rfl
  | strayEscape stray =>
    obtain ⟨rfl, rfl⟩ := List.cons.inj e
    simp [read, readEscape, Opcode.ofByte?_eq_none_iff.mpr stray]
  | @text c printable =>
    obtain ⟨rfl, rfl⟩ := List.cons.inj e
    have notEscape : c ≠ Control.escape := by
      rintro rfl
      exact absurd printable (by decide)
    have notLineFeed : c ≠ Control.lineFeed := by
      rintro rfl
      exact absurd printable (by decide)
    simp [read, notEscape, notLineFeed, printable]
  | control below notEscape notLineFeed =>
    obtain ⟨rfl, rfl⟩ := List.cons.inj e
    simp [read, notEscape, notLineFeed, UInt8.not_le.mpr below]
  | cutHeader opens short =>
    rw [List.append_nil] at e
    obtain ⟨rfl, rfl⟩ := List.cons.inj e
    exact readEscape_of_prefix_header opens short
  | @cutImage i short =>
    obtain ⟨tail', he, hr⟩ := read_header_append i i.payload
    rw [List.append_nil] at e
    obtain ⟨rfl, rfl⟩ := List.cons.inj (he.symm.trans e)
    rw [hr]
    exact readImage_of_lt short

/-! ## What a reader takes fits -/

/-- Some command has a given opcode and starts its parameters with given bytes, unless they are too
many. -/
theorem exists_header_of_lt {op : Opcode} {ps : List UInt8} (h : ps.length < op.parameters) :
    ∃ c : Command, Control.escape :: op.byte :: ps <+: c.header ∧
      (Control.escape :: op.byte :: ps).length < c.header.length := by
  match op, ps, h with
  | .lineSpacing, [], _ => exact ⟨.lineSpacing 0, by decide, by decide⟩
  | .cancelItalic, [], _ => exact ⟨.cancelItalic 0, by decide, by decide⟩
  | .leftMargin, [], _ => exact ⟨.leftMargin 0, by decide, by decide⟩
  | .doubleDensity, [], _ => exact ⟨.bitImage ⟨.double, ⟨0, 0⟩, []⟩, by decide, by decide⟩
  | .doubleDensity, [low], _ =>
    exact ⟨.bitImage ⟨.double, ⟨low, 0⟩, []⟩, ⟨[0], rfl⟩, Nat.lt_succ_self 3⟩
  | .selectBitImage, [], _ => exact ⟨.bitImage ⟨.selected 0, ⟨0, 0⟩, []⟩, by decide, by decide⟩
  | .selectBitImage, [m], _ =>
    exact ⟨.bitImage ⟨.selected m, ⟨0, 0⟩, []⟩, ⟨[0, 0], rfl⟩,
      Nat.lt_add_left 1 (Nat.lt_succ_self 3)⟩
  | .selectBitImage, [m, low], _ =>
    exact ⟨.bitImage ⟨.selected m, ⟨low, 0⟩, []⟩, ⟨[0], rfl⟩, Nat.lt_succ_self 4⟩

theorem fits_readImage (density : Density) (count : Count) (body : List UInt8) :
    (readImage density count body).1.Fits (readImage density count body).2 := by
  rcases Nat.lt_or_ge body.length (count.payloadLength density.mode) with h | h
  · rw [readImage_of_lt h]
    exact .cutImage h
  · rw [readImage_of_le h]
    have complete : (BitImage.mk density count
        (body.take (count.payloadLength density.mode))).Complete := List.length_take_of_le h
    exact .command (c := .bitImage _) complete _

theorem fits_readCommand (op : Opcode) (rest : List UInt8) :
    (readCommand op rest).1.Fits (readCommand op rest).2 := by
  rcases Nat.lt_or_ge rest.length op.parameters with h | h
  · obtain ⟨c, opens, short⟩ := exists_header_of_lt h
    rw [readCommand_of_lt h]
    exact .cutHeader opens short
  match op, rest, h with
  | .reset, rest, _ => exact .command (c := .reset) trivial _
  | .lineSpacing, n :: _, _ => exact .command (c := .lineSpacing n) trivial _
  | .cancelItalic, n :: _, _ => exact .command (c := .cancelItalic n) trivial _
  | .leftMargin, n :: _, _ => exact .command (c := .leftMargin n) trivial _
  | .doubleDensity, _ :: _ :: _, _ => exact fits_readImage _ _ _
  | .selectBitImage, _ :: _ :: _ :: _, _ => exact fits_readImage _ _ _

/-- The token that a reader takes fits before what the reader leaves. -/
theorem fits_read (b : UInt8) (rest : List UInt8) : (read b rest).1.Fits (read b rest).2 := by
  by_cases esc : b = Control.escape
  · rw [read, if_pos esc]
    rcases rest with _ | ⟨c, rest⟩
    · exact .cutHeader (c := .reset) (by decide) (by decide)
    cases e : Opcode.ofByte? c with
    | none =>
      simp only [readEscape, e]
      exact .strayEscape (Opcode.ofByte?_eq_none_iff.mp e) _
    | some op =>
      simp only [readEscape, e]
      exact fits_readCommand op rest
  rw [read, if_neg esc]
  by_cases lf : b = Control.lineFeed
  · rw [if_pos lf]
    exact .command (c := .lineFeed) trivial _
  rw [if_neg lf]
  by_cases printable : Control.firstPrintable ≤ b
  · rw [if_pos printable]
    exact .text printable _
  · rw [if_neg printable]
    exact .control (UInt8.not_le.mp printable) esc lf _

/-- Every header is that of a command that carries the payload it announces. -/
theorem exists_wellFormed_header_eq (c : Command) :
    ∃ d : Command, d.WellFormed ∧ d.header = c.header := by
  cases c with
  | bitImage i =>
    exact ⟨.bitImage { i with payload := List.replicate i.declared 0 }, List.length_replicate, rfl⟩
  | lineFeed | reset | lineSpacing | cancelItalic | leftMargin =>
    refine ⟨_, ?_, rfl⟩
    exact trivial

/-- A bit image that is cut short is the start of a complete one. -/
theorem exists_complete_of_lt {i : BitImage} (short : i.payload.length < i.declared) :
    ∃ j : BitImage, j.Complete ∧ i.bytes <+: j.bytes ∧ i.bytes.length < j.bytes.length := by
  have missing : 0 < i.declared - i.payload.length := Nat.sub_pos_of_lt short
  refine ⟨{ i with payload := i.payload ++ List.replicate (i.declared - i.payload.length) 0 },
    ?_, ?_, ?_⟩
  · show (i.payload ++ List.replicate (i.declared - i.payload.length) 0).length = i.declared
    rw [List.length_append, List.length_replicate]
    omega
  · show i.header ++ i.payload <+: i.header ++ (i.payload ++ _)
    exact (List.prefix_append_right_inj _).mpr (List.prefix_append _ _)
  · show (i.header ++ i.payload).length < (i.header ++ (i.payload ++ _)).length
    simp only [List.length_append, List.length_replicate]
    omega

/-- What the end of a stream leaves of a command is a proper prefix of one. -/
theorem Fits.exists_command_of_isCut {t : Token} {rest : List UInt8} (fits : t.Fits rest)
    (cut : t.IsCut) :
    ∃ c : Command, c.WellFormed ∧ c ≠ .lineFeed ∧ t.bytes <+: c.bytes ∧ t.bytes ≠ c.bytes := by
  cases fits with
  | @cutHeader c bs opens short =>
    obtain ⟨d, wellFormed, same⟩ := exists_wellFormed_header_eq c
    rw [← same] at opens short
    have shorter := Nat.lt_of_lt_of_le short d.header_prefix_bytes.length_le
    refine ⟨d, wellFormed, ?_, opens.trans d.header_prefix_bytes, ?_⟩
    · rintro rfl
      exact absurd opens (by simp [Command.header, Command.bytes, Control.escape,
        Control.lineFeed])
    · exact fun e => absurd (congrArg List.length e) (Nat.ne_of_lt shorter)
  | @cutImage i short =>
    obtain ⟨j, complete, opens, shorter⟩ := exists_complete_of_lt short
    refine ⟨.bitImage j, complete, ?_, opens, ?_⟩
    · intro e
      cases e
    · exact fun e => absurd (congrArg List.length e) (Nat.ne_of_lt shorter)
  | command | strayEscape | text | control => exact cut.elim

end Token

/-! ## Splits -/

/-- A list of tokens that fit, each before the bytes of those behind it. -/
inductive Splits : List UInt8 → List Token → Prop where
  | nil : Splits [] []
  | cons {t : Token} {rest : List UInt8} {ts : List Token} (fits : t.Fits rest)
      (others : Splits rest ts) : Splits (t.bytes ++ rest) (t :: ts)

/-- The tokens of a stream are a split of it. -/
theorem splits_tokens : ∀ s : List UInt8, Splits s (tokens s)
  | [] => by
    rw [tokens_nil]
    exact .nil
  | b :: rest => by
    have := Token.length_read_le b rest
    have others := splits_tokens (Token.read b rest).2
    have whole := Splits.cons (Token.fits_read b rest) others
    rwa [Token.bytes_read, ← tokens_cons] at whole
termination_by s => s.length
decreasing_by
  simp only [List.length_cons]
  omega

/-- A split of a stream is what reading it gives. -/
theorem Splits.tokens_eq {s : List UInt8} {ts : List Token} (h : Splits s ts) : tokens s = ts := by
  induction h with
  | nil => exact tokens_nil
  | @cons t rest ts fits others ih =>
    obtain ⟨b, tail, e⟩ : ∃ b tail, t.bytes ++ rest = b :: tail := by
      refine List.exists_cons_of_length_pos ?_
      rw [List.length_append, Token.length_bytes]
      exact Nat.lt_of_lt_of_le t.length_pos (Nat.le_add_right _ _)
    rw [e, tokens_cons, fits.read_eq e, ih]

/-- A token that fits at the end of a stream is a split of its bytes. -/
theorem Token.Fits.splits {t : Token} (h : t.Fits []) : Splits t.bytes [t] := by
  have split := Splits.cons h .nil
  rwa [List.append_nil] at split

/-- **Unique splitting.**  A stream has exactly one split, and reading finds it. -/
theorem splits_iff {s : List UInt8} {ts : List Token} : Splits s ts ↔ ts = tokens s :=
  ⟨fun h => h.tokens_eq.symm, fun h => h ▸ splits_tokens s⟩

/-! ## Streams that go on -/

/-- The tokens of a stream that its end does not cut. -/
def wholeTokens (s : List UInt8) : List Token := (tokens s).filter fun t => ¬t.IsCut

/-- The bytes of the token that the end of a stream cuts, none if it cuts none. -/
def remainder (s : List UInt8) : List UInt8 :=
  ((tokens s).filter fun t => t.IsCut).flatMap Token.bytes

/-- The whole tokens of a split stay if the stream goes on. -/
theorem Splits.append {s : List UInt8} {ts : List Token} (h : Splits s ts) (more : List UInt8)
    {us : List Token}
    (rest : Splits ((ts.filter fun t => t.IsCut).flatMap Token.bytes ++ more) us) :
    Splits (s ++ more) ((ts.filter fun t => ¬t.IsCut) ++ us) := by
  induction h with
  | nil => exact rest
  | @cons t tail ts fits others ih =>
    by_cases cut : t.IsCut
    · obtain rfl := fits.eq_nil_of_isCut cut
      obtain rfl : ts = [] := by rw [← others.tokens_eq, tokens_nil]
      simpa [cut] using rest
    · have others' := ih (by simpa [cut] using rest)
      have whole := Splits.cons (fits.append cut more) others'
      simpa [cut] using whole

/-- **Splitting on.**  What follows a stream leaves its whole tokens as they are.  It is split as if
it followed the bytes of the cut token alone. -/
theorem tokens_append (s more : List UInt8) :
    tokens (s ++ more) = wholeTokens s ++ tokens (remainder s ++ more) :=
  ((splits_tokens s).append more (splits_tokens _)).tokens_eq

end DotMatrix
