import DotMatrix.Proofs.Boundaries
import DotMatrix.Proofs.Movement

/-!
# What the bytes of a stream belong to

The tokens of a stream tile it.  Each starts where the one before it ends (`pairwise_trail`), the
first at the start and the last at the end (`exists_covers`), so that every offset is under exactly
one of them (`existsUnique_covers`).  What is noted about a stream is noted token by token, at the
offset of the token and about nothing else.  So the notes are in the order of their offsets, and
they say all that there is to say about the bytes that belong to no command.

* `exists_split_of_mem_trail`: a token in its place, with the bytes in front of it and those behind
  it.
* `cursor_decode_take`: the head in front of a token is where the decode of the bytes in front of it
  ends.  These bytes may end in an escape that has lost its next byte, and then they are split in
  another way.
* `owns_owner`, `exists_owner_of_owns`: an `Owner` is what a byte can belong to, and the owner of a
  byte is read off the token that it is under.
-/

namespace DotMatrix

/-! ## Events and the bytes under them -/

namespace Event

/-- The byte at the offset is one of the bytes of the token. -/
def Covers (e : Event) (n : Nat) : Prop := e.offset ≤ n ∧ n < e.offset + e.token.length

/-- Each event ends where the next one starts, or before that. -/
theorem pairwise_trail (o : Nat) (h : Head) (ts : List Token) :
    (trail o h ts).Pairwise fun e f => e.offset + e.token.length ≤ f.offset := by
  induction ts generalizing o h with
  | nil => exact .nil
  | cons t ts ih => exact .cons (fun f mem => le_offset_of_mem_trail mem) (ih _ _)

/-- Nothing is left out between the start of a trail and its end. -/
theorem exists_covers {o n : Nat} (h : Head) {ts : List Token} (low : o ≤ n)
    (high : n < o + (ts.flatMap Token.bytes).length) : ∃ e ∈ trail o h ts, e.Covers n := by
  induction ts generalizing o h with
  | nil => exact absurd high (Nat.not_lt.mpr low)
  | cons t ts ih =>
    by_cases first : n < o + t.length
    · exact ⟨_, List.mem_cons_self, low, first⟩
    · rw [List.flatMap_cons, List.length_append, Token.length_bytes, ← Nat.add_assoc] at high
      obtain ⟨e, mem, covers⟩ := ih (h.after t) (Nat.not_lt.mp first) high
      exact ⟨e, List.mem_cons_of_mem _ mem, covers⟩

/-- No byte is under two events. -/
theorem eq_of_covers {o n : Nat} {h : Head} {ts : List Token} {e f : Event}
    (he : e ∈ trail o h ts) (hf : f ∈ trail o h ts) (covers : e.Covers n) (covers' : f.Covers n) :
    e = f := by
  induction ts generalizing o h with
  | nil => exact absurd he List.not_mem_nil
  | cons t ts ih =>
    -- Behind the first token every event starts where that token ends, or later.
    have behind : ∀ {g : Event}, g ∈ trail (o + t.length) (h.after t) ts → g.Covers n →
        o + t.length ≤ n := fun mem covers => Nat.le_trans (le_offset_of_mem_trail mem) covers.1
    rcases List.mem_cons.mp he with rfl | he <;> rcases List.mem_cons.mp hf with rfl | hf
    · rfl
    · exact absurd covers.2 (Nat.not_lt.mpr (behind hf covers'))
    · exact absurd covers'.2 (Nat.not_lt.mpr (behind he covers))
    · exact ih he hf

/-- An event of a trail is that of a token, with the offset and the head at which the tokens before
it have ended. -/
theorem exists_eq_append_of_mem_trail {o : Nat} {h : Head} {ts : List Token} {e : Event}
    (mem : e ∈ trail o h ts) : ∃ us vs, ts = us ++ e.token :: vs ∧
      e.offset = o + (us.flatMap Token.bytes).length ∧ e.head = h.run us := by
  induction ts generalizing o h with
  | nil => exact absurd mem List.not_mem_nil
  | cons t ts ih =>
    rcases List.mem_cons.mp mem with rfl | mem
    · exact ⟨[], ts, rfl, rfl, rfl⟩
    · obtain ⟨us, vs, split, offset, head⟩ := ih mem
      refine ⟨t :: us, vs, by rw [split]; rfl, ?_, head⟩
      rw [offset, List.flatMap_cons, List.length_append, Token.length_bytes, Nat.add_assoc]

/-- A note has the offset of the token that it is about. -/
theorem offset_of_diagnostic? {e : Event} {d : Diagnostic} (noted : e.diagnostic? = some d) :
    d.offset = e.offset := by
  obtain ⟨offset, head, token⟩ := e
  cases token with
  | command => exact nomatch noted
  | strayEscape | text | control | cutHeader | cutImage =>
    obtain rfl := Option.some.inj noted
    rfl

end Event

/-! ## Events of a stream -/

variable {pitch : UInt8} {p : Page} {s : List UInt8} {e f : Event} {n : Nat}

/-- A token of a split fits before the bytes of those behind it. -/
theorem Splits.fits_of_append {us vs : List Token} {t : Token} (h : Splits s (us ++ t :: vs)) :
    t.Fits (vs.flatMap Token.bytes) := by
  induction us generalizing s with
  | nil =>
    cases h with
    | cons fits others => rwa [others.flatMap_bytes]
  | cons u us ih =>
    cases h with
    | cons _ others => exact ih others

/-- A token of a stream in its place: the bytes in front of it are those of the tokens in front,
which have moved the head, and the stream goes on with its own bytes and those of the tokens
behind. -/
theorem exists_split_of_mem_trail (mem : e ∈ (Walk.ofStream pitch s).trail) :
    ∃ us vs, tokens s = us ++ e.token :: vs ∧ e.head = (Head.home pitch).run us ∧
      s.take e.offset = us.flatMap Token.bytes ∧
      s.drop e.offset = e.token.bytes ++ vs.flatMap Token.bytes ∧
      e.token.Fits (vs.flatMap Token.bytes) := by
  rw [Walk.trail_ofStream] at mem
  obtain ⟨us, vs, split, offset, head⟩ := Event.exists_eq_append_of_mem_trail mem
  rw [Nat.zero_add] at offset
  have fits : Splits s (us ++ e.token :: vs) := split ▸ splits_tokens s
  have bytes : us.flatMap Token.bytes ++ (e.token.bytes ++ vs.flatMap Token.bytes) = s := by
    rw [← List.flatMap_cons, ← List.flatMap_append, fits.flatMap_bytes]
  refine ⟨us, vs, split, head, ?_, ?_, fits.fits_of_append⟩
  · rw [offset, ← bytes, List.take_left]
  · rw [offset, ← bytes, List.drop_left]

/-- Every byte of a stream is under exactly one token. -/
theorem existsUnique_covers (pitch : UInt8) (inside : n < s.length) :
    ∃! e, e ∈ (Walk.ofStream pitch s).trail ∧ e.Covers n := by
  rw [Walk.trail_ofStream]
  have high : n < 0 + ((tokens s).flatMap Token.bytes).length := by
    rw [flatMap_bytes_tokens, Nat.zero_add]
    exact inside
  obtain ⟨e, mem, covers⟩ := Event.exists_covers (.home pitch) (Nat.zero_le n) high
  refine ⟨e, ⟨mem, covers⟩, ?_⟩
  rintro f ⟨mem', covers'⟩
  exact Event.eq_of_covers mem' mem covers' covers

/-! ## Notes -/

/-- What a decode notes is noted about the events of the walk. -/
theorem mem_diagnostics_decode_iff {d : Diagnostic} :
    d ∈ (decode p s).report.diagnostics ↔
      ∃ e ∈ (Walk.ofStream p.pitch s).trail, e.diagnostic? = some d :=
  List.mem_filterMap

/-- The notes are in the order of the offsets that they are about, and no two are about one
offset. -/
theorem pairwise_diagnostics_decode (p : Page) (s : List UInt8) :
    (decode p s).report.diagnostics.Pairwise fun d e => d.offset < e.offset := by
  show ((Walk.ofStream p.pitch s).trail.filterMap Event.diagnostic?).Pairwise _
  rw [Walk.trail_ofStream]
  refine (Event.pairwise_trail 0 (.home p.pitch) (tokens s)).filterMap _ ?_
  intro e f before d noted d' noted'
  have positive := e.token.length_pos
  rw [Event.offset_of_diagnostic? noted, Event.offset_of_diagnostic? noted']
  omega

theorem offset_lt_of_mem_trail (mem : e ∈ (Walk.ofStream pitch s).trail) : e.offset < s.length := by
  obtain ⟨us, vs, -, -, -, drop, -⟩ := exists_split_of_mem_trail mem
  have positive := e.token.length_pos
  have length := congrArg List.length drop
  rw [List.length_drop, List.length_append, Token.length_bytes] at length
  omega

/-- The head in front of a token is where the decode of the bytes in front of it ends. -/
theorem cursor_decode_take (mem : e ∈ (Walk.ofStream p.pitch s).trail) :
    (decode p (s.take e.offset)).report.cursor = e.head.toPosition := by
  obtain ⟨us, vs, split, head, take, -, -⟩ := exists_split_of_mem_trail mem
  have agrees := p.printer.agrees_before split
  rw [take, report_decode, head]
  show (p.printer.run (tokens (us.flatMap Token.bytes))).head.toPosition = _
  rw [agrees.head, Printer.run_eq]
  rfl

/-- A byte of the stream at a token or behind it. -/
theorem getElem?_of_drop {o : Nat} {bs rest : List UInt8} (drop : s.drop o = bs ++ rest) (k : Nat) :
    s[o + k]? = (bs ++ rest)[k]? := by
  rw [← drop, List.getElem?_drop]

/-- Behind a stray escape the next token starts with the byte after it. -/
theorem exists_next_of_strayEscape {b : UInt8} (mem : e ∈ (Walk.ofStream pitch s).trail)
    (stray : e.token = .strayEscape b) :
    ∃ f ∈ (Walk.ofStream pitch s).trail, f.offset = e.offset + 1 := by
  obtain ⟨us, vs, -, -, -, drop, fits⟩ := exists_split_of_mem_trail mem
  have next : s[e.offset + 1]? = some b := by
    rw [getElem?_of_drop drop]
    rw [stray] at fits ⊢
    generalize vs.flatMap Token.bytes = rest at fits
    cases fits with
    | strayEscape => rfl
  obtain ⟨inside, -⟩ := List.getElem?_eq_some_iff.mp next
  obtain ⟨f, ⟨mem', low, high⟩, -⟩ := existsUnique_covers pitch inside
  refine ⟨f, mem', ?_⟩
  by_contra other
  -- Otherwise the token would be the stray escape, which has one byte only.
  have earlier : f.Covers e.offset := ⟨by omega, by omega⟩
  have here : e.Covers e.offset := ⟨Nat.le_refl _, Nat.lt_add_of_pos_right e.token.length_pos⟩
  rw [Walk.trail_ofStream] at mem mem'
  obtain rfl := Event.eq_of_covers mem mem' here earlier
  rw [stray, Token.length] at high
  omega

/-- A cut token is the last one. -/
theorem offset_add_length_of_isCut (mem : e ∈ (Walk.ofStream pitch s).trail) (cut : e.token.IsCut) :
    e.offset + e.token.length = s.length := by
  obtain ⟨us, vs, -, -, -, drop, fits⟩ := exists_split_of_mem_trail mem
  have inside := offset_lt_of_mem_trail mem
  have length := congrArg List.length drop
  rw [fits.eq_nil_of_isCut cut, List.append_nil, List.length_drop, Token.length_bytes] at length
  omega

/-! ## Owners -/

/-- What a byte of a stream can belong to. -/
inductive Owner where
  /-- A line feed at an offset. -/
  | lineFeed (offset : Nat)
  /-- A complete command that starts with an escape at an offset. -/
  | command (offset : Nat) (c : Command)
  /-- The command that the end of the stream has cut, by the note about it. -/
  | cut (d : Diagnostic)
  /-- Nothing but a note. -/
  | skipped (d : Diagnostic)

/-- The byte at an offset of a stream belongs to the owner. -/
def Owner.Owns (p : Page) (s : List UInt8) : Owner → Nat → Prop
  | lineFeed pos, n => n = pos ∧ s[pos]? = some Control.lineFeed ∧
      ∃ e ∈ (Walk.ofStream p.pitch s).trail, e.offset = pos ∧ e.token = .command .lineFeed
  | command pos c, n => (pos ≤ n ∧ n < pos + c.bytes.length) ∧ c ≠ .lineFeed ∧ c.WellFormed ∧
      c.bytes <+: s.drop pos ∧
      ∃ e ∈ (Walk.ofStream p.pitch s).trail, e.offset = pos ∧ e.token = .command c
  | cut d, n => (d.offset ≤ n ∧ n < s.length) ∧ d ∈ (decode p s).report.diagnostics ∧
      d.IsTruncation ∧
      ∃ c : Command, c.WellFormed ∧ c ≠ .lineFeed ∧ s.drop d.offset <+: c.bytes ∧
        s.drop d.offset ≠ c.bytes
  | skipped d, n => n = d.offset ∧ d ∈ (decode p s).report.diagnostics ∧ ¬d.IsTruncation

/-- The owner of the bytes under an event. -/
def Event.owner (e : Event) : Owner :=
  match e.token with
  | .command .lineFeed => .lineFeed e.offset
  | .command c => .command e.offset c
  | .strayEscape b => .skipped (.unknownEscape e.offset b)
  | .text b => .skipped (.printable e.offset b)
  | .control b => .skipped (.unknownControl e.offset b e.head.toPosition)
  | .cutHeader rest => .cut (.truncatedCommand e.offset rest.head?)
  | .cutImage i => .cut (.truncatedBitImage e.offset i.declared i.payload.length)

namespace Event

theorem owner_of_command {pos : Nat} {h : Head} {c : Command} (escape : c ≠ .lineFeed) :
    owner ⟨pos, h, .command c⟩ = .command pos c := by
  cases c with
  | lineFeed => exact absurd rfl escape
  | reset | lineSpacing | cancelItalic | leftMargin | bitImage => rfl

theorem owner_of_diagnostic? {e : Event} {d : Diagnostic} (noted : e.diagnostic? = some d) :
    e.owner = if d.IsTruncation then .cut d else .skipped d := by
  obtain ⟨offset, head, token⟩ := e
  cases token with
  | command => exact nomatch noted
  | strayEscape | text | control | cutHeader | cutImage =>
    obtain rfl := Option.some.inj noted
    rfl

end Event

theorem owns_owner_of_command {c : Command} (mem : e ∈ (Walk.ofStream p.pitch s).trail)
    (token : e.token = .command c) (covers : e.Covers n) : e.owner.Owns p s n := by
  obtain ⟨us, vs, -, -, -, drop, fits⟩ := exists_split_of_mem_trail mem
  obtain ⟨pos, head, _⟩ := e
  obtain rfl := token
  obtain ⟨low, high⟩ := covers
  by_cases escape : c = .lineFeed
  · subst escape
    have single : n < pos + 1 := high
    have here : s[pos]? = some Control.lineFeed := getElem?_of_drop drop 0
    exact ⟨Nat.le_antisymm (Nat.le_of_lt_succ single) low, here, _, mem, rfl, rfl⟩
  · rw [← Token.length_bytes] at high
    rw [Event.owner_of_command escape]
    cases fits with
    | command wellFormed =>
      exact ⟨⟨low, high⟩, escape, wellFormed, ⟨_, drop.symm⟩, _, mem, rfl, rfl⟩

theorem owns_owner_of_note {d : Diagnostic} (mem : e ∈ (Walk.ofStream p.pitch s).trail)
    (note : e.diagnostic? = some d) (covers : e.Covers n) : e.owner.Owns p s n := by
  have noted : d ∈ (decode p s).report.diagnostics := mem_diagnostics_decode_iff.mpr ⟨e, mem, note⟩
  have offset := Event.offset_of_diagnostic? note
  rw [Event.owner_of_diagnostic? note]
  by_cases truncation : d.IsTruncation
  · have cut : e.token.IsCut := Event.isCut_of_isTruncation note truncation
    obtain ⟨us, vs, -, -, -, drop, fits⟩ := exists_split_of_mem_trail mem
    obtain ⟨c, wellFormed, escape, opens, proper⟩ := fits.exists_command_of_isCut cut
    rw [fits.eq_nil_of_isCut cut, List.append_nil, ← offset] at drop
    rw [← drop] at opens proper
    have inside : n < s.length := by
      rw [← offset_add_length_of_isCut mem cut]
      exact covers.2
    have low : d.offset ≤ n := offset ▸ covers.1
    rw [if_pos truncation]
    exact ⟨⟨low, inside⟩, noted, truncation, c, wellFormed, escape, opens, proper⟩
  · -- The note is about a single byte, so the byte at hand is the one it is about.
    have stray := ((e.exists_note_iff d.offset).mp ⟨d, note, truncation, rfl⟩).1
    obtain ⟨d', note', -, here⟩ := (e.exists_note_iff n).mpr ⟨stray, covers⟩
    obtain rfl : d = d' := Option.some.inj (note.symm.trans note')
    rw [if_neg truncation]
    exact ⟨here.symm, noted, truncation⟩

/-- The event of a token owns the bytes under it. -/
theorem owns_owner (mem : e ∈ (Walk.ofStream p.pitch s).trail) (covers : e.Covers n) :
    e.owner.Owns p s n := by
  cases note : e.diagnostic? with
  | none =>
    obtain ⟨c, token⟩ := e.diagnostic?_eq_none_iff.mp note
    exact owns_owner_of_command mem token covers
  | some d => exact owns_owner_of_note mem note covers

/-- What owns a byte is the owner of an event over it. -/
theorem exists_owner_of_owns {o : Owner} (owns : o.Owns p s n) :
    ∃ e ∈ (Walk.ofStream p.pitch s).trail, e.Covers n ∧ e.owner = o := by
  cases o with
  | lineFeed pos =>
    obtain ⟨rfl, -, e, mem, rfl, token⟩ := owns
    refine ⟨e, mem, ⟨Nat.le_refl _, ?_⟩, ?_⟩
    · exact Nat.lt_add_of_pos_right e.token.length_pos
    · rw [Event.owner, token]
  | command pos c =>
    obtain ⟨⟨low, high⟩, escape, -, -, e, mem, rfl, token⟩ := owns
    refine ⟨e, mem, ⟨low, ?_⟩, ?_⟩
    · rw [token, ← Token.length_bytes]
      exact high
    · obtain ⟨pos, head, _⟩ := e
      obtain rfl := token
      exact Event.owner_of_command escape
  | cut d =>
    obtain ⟨⟨low, high⟩, noted, truncation, -⟩ := owns
    obtain ⟨e, mem, note⟩ := mem_diagnostics_decode_iff.mp noted
    have cut : e.token.IsCut := Event.isCut_of_isTruncation note truncation
    rw [Event.offset_of_diagnostic? note] at low
    rw [← offset_add_length_of_isCut mem cut] at high
    exact ⟨e, mem, ⟨low, high⟩, by rw [Event.owner_of_diagnostic? note, if_pos truncation]⟩
  | skipped d =>
    obtain ⟨rfl, noted, single⟩ := owns
    obtain ⟨e, mem, note⟩ := mem_diagnostics_decode_iff.mp noted
    obtain ⟨-, covers⟩ := (e.exists_note_iff d.offset).mp ⟨d, note, single, rfl⟩
    exact ⟨e, mem, covers, by rw [Event.owner_of_diagnostic? note, if_neg single]⟩

/-- A byte of a stream has one owner and no other. -/
theorem existsUnique_owner (p : Page) (inside : n < s.length) : ∃! o : Owner, o.Owns p s n := by
  obtain ⟨e, ⟨mem, covers⟩, unique⟩ := existsUnique_covers p.pitch inside
  refine ⟨e.owner, owns_owner mem covers, ?_⟩
  intro o owns
  obtain ⟨f, mem', covers', rfl⟩ := exists_owner_of_owns owns
  rw [unique f ⟨mem', covers'⟩]

/-! ## The main statement -/

/-- What a note says of the stream and of the head. -/
def Diagnostic.Describes (p : Page) (s : List UInt8) : Diagnostic → Prop
  | printable pos b => s[pos]? = some b ∧ Control.firstPrintable ≤ b
  | unknownControl pos b head =>
    s[pos]? = some b ∧ b < Control.firstPrintable ∧ b ≠ Control.lineFeed ∧ b ≠ Control.escape ∧
      head = (decode p (s.take pos)).report.cursor
  | unknownEscape pos b =>
    s[pos]? = some Control.escape ∧ s[pos + 1]? = some b ∧ (∀ op : Opcode, op.byte ≠ b) ∧
      ∃ e ∈ (Walk.ofStream p.pitch s).trail, e.offset = pos + 1
  | truncatedCommand pos op => s[pos]? = some Control.escape ∧ op = s[pos + 1]?
  | truncatedBitImage pos declared available =>
    s[pos]? = some Control.escape ∧ available < declared

theorem describes_of_mem {d : Diagnostic} (noted : d ∈ (decode p s).report.diagnostics) :
    d.Describes p s := by
  obtain ⟨e, mem, note⟩ := mem_diagnostics_decode_iff.mp noted
  have cursor := cursor_decode_take mem
  have next : ∀ b, e.token = .strayEscape b →
      ∃ f ∈ (Walk.ofStream p.pitch s).trail, f.offset = e.offset + 1 :=
    fun b => exists_next_of_strayEscape mem
  obtain ⟨us, vs, -, -, -, drop, fits⟩ := exists_split_of_mem_trail mem
  generalize vs.flatMap Token.bytes = rest at drop fits
  obtain ⟨pos, head, token⟩ := e
  have place := getElem?_of_drop drop
  cases fits with
  | command => exact nomatch note
  | @strayEscape b stray =>
    obtain rfl := Option.some.inj note
    exact ⟨place 0, place 1, stray, next b rfl⟩
  | text printable =>
    obtain rfl := Option.some.inj note
    exact ⟨place 0, printable⟩
  | control below notEscape notLineFeed =>
    obtain rfl := Option.some.inj note
    exact ⟨place 0, below, notLineFeed, notEscape, cursor.symm⟩
  | @cutHeader c bs =>
    obtain rfl := Option.some.inj note
    have opcode : s[pos + 1]? = (bs ++ [])[0]? := place 1
    rw [List.append_nil, ← List.head?_eq_getElem?] at opcode
    exact ⟨place 0, opcode.symm⟩
  | @cutImage i short =>
    obtain rfl := Option.some.inj note
    obtain ⟨tail, header, -⟩ := Token.read_header_append i i.payload
    have first : s[pos]? = (i.header ++ i.payload ++ [])[0]? := place 0
    rw [header] at first
    exact ⟨first, short⟩

/-- **Every byte is accounted for.**  The notes of a decode are about offsets of the stream, each
about another one, and in their order.  Every note describes what is there.  Every byte of the
stream belongs to a line feed, to a complete command that starts with an escape, to the command that
the end of the stream has cut, or to a note of its own, and it belongs to nothing else. -/
theorem decode_notes (p : Page) (s : List UInt8) :
    let notes := (decode p s).report.diagnostics
    (notes.Pairwise fun d e => d.offset < e.offset) ∧
      (∀ d ∈ notes, d.offset < s.length ∧ d.Describes p s) ∧
      ∀ n, n < s.length → ∃! o : Owner, o.Owns p s n := by
  intro notes
  refine ⟨pairwise_diagnostics_decode p s, ?_, fun n => existsUnique_owner p⟩
  intro d noted
  obtain ⟨e, mem, note⟩ := mem_diagnostics_decode_iff.mp noted
  refine ⟨?_, describes_of_mem noted⟩
  rw [Event.offset_of_diagnostic? note]
  exact offset_lt_of_mem_trail mem

/-- A stray escape in front of another one, and a control byte behind it. -/
example :
    (decode .a4 [0x1B, 0x1B, 0x07, 0x0A, 0x1B, 0x4C, 0x01]).report.diagnostics =
      [.unknownEscape 0 0x1B, .unknownEscape 1 0x07, .unknownControl 2 0x07 ⟨0, 0⟩,
        .truncatedCommand 4 (some 0x4C)] := by
  decide +kernel

end DotMatrix
