import DotMatrix.Proofs.Skipping

/-!
# Stopping at a token

A stream is stopped in front of one of its tokens, and the part before it is decoded on its own.
Almost always the tokens of that part are those that stand before the stop in the whole stream,
because a token asks for nothing behind itself.

The exception is a stray escape.  It is one because of the byte behind it, and once that byte is
gone the escape is the start of a command that the end of the stream has cut (`Splits.before`).  The
notes on the two are different, and nothing else is: neither a stray escape nor a cut header does
anything.  So the page, the head and the counters after the first part are those that the printer
has in front of the token (`agrees_before`).
-/

namespace DotMatrix

/-- A token that fits before some bytes fits before the first of them, unless it is a stray escape
that has lost its next byte. -/
theorem Token.Fits.of_append {t : Token} {bs rest : List UInt8} (h : t.Fits (bs ++ rest)) :
    t.Fits bs ∨ bs = [] ∧ ∃ b, t = .strayEscape b := by
  generalize whole : bs ++ rest = all at h
  cases h with
  | command wellFormed => exact Or.inl (.command wellFormed bs)
  | @strayEscape b stray =>
    rcases List.append_eq_cons_iff.mp whole with ⟨rfl, -⟩ | ⟨bs', rfl, -⟩
    · exact Or.inr ⟨rfl, b, rfl⟩
    · exact Or.inl (.strayEscape stray bs')
  | text printable => exact Or.inl (.text printable bs)
  | control below notEscape notLineFeed => exact Or.inl (.control below notEscape notLineFeed bs)
  | cutHeader opens short =>
    obtain ⟨rfl, -⟩ := List.append_eq_nil_iff.mp whole
    exact Or.inl (.cutHeader opens short)
  | cutImage short =>
    obtain ⟨rfl, -⟩ := List.append_eq_nil_iff.mp whole
    exact Or.inl (.cutImage short)

/-- A split holds the bytes of the stream. -/
theorem Splits.flatMap_bytes {s : List UInt8} {ts : List Token} (h : Splits s ts) :
    ts.flatMap Token.bytes = s := by
  rw [← h.tokens_eq, flatMap_bytes_tokens]

/-- A lone escape is a command that the end of the stream has cut. -/
theorem splits_escape : Splits [Control.escape] [.cutHeader []] := by
  have fits : (Token.cutHeader []).Fits [] := .cutHeader (c := .reset) (by decide) (by decide)
  exact fits.splits

/-- The tokens before a place in a stream are a split of their bytes.  If the last of them is a
stray escape, then the split of their bytes ends with a cut header in its place. -/
theorem Splits.before {s : List UInt8} {ts us : List Token} (h : Splits s (ts ++ us)) :
    Splits (ts.flatMap Token.bytes) ts ∨
      ∃ vs b, ts = vs ++ [.strayEscape b] ∧
        Splits (ts.flatMap Token.bytes) (vs ++ [.cutHeader []]) := by
  induction ts generalizing s with
  | nil => exact Or.inl .nil
  | cons t ts ih =>
    cases h with
    | @cons _ rest _ fits others =>
      have bytes : ts.flatMap Token.bytes ++ us.flatMap Token.bytes = rest := by
        rw [← List.flatMap_append]
        exact others.flatMap_bytes
      rw [← bytes] at fits
      rcases fits.of_append with fits | ⟨nothing, b, rfl⟩
      · rcases ih others with whole | ⟨vs, b, split, cut⟩
        · exact Or.inl (.cons fits whole)
        · exact Or.inr ⟨t :: vs, b, by rw [split]; rfl, .cons fits cut⟩
      · -- Every token has a byte, so the escape is the last of the tokens.
        obtain rfl : ts = [] := by
          rcases ih others with whole | ⟨vs, b', rfl, -⟩
          · rw [← whole.tokens_eq, nothing, tokens_nil]
          · simp [Token.bytes] at nothing
        exact Or.inr ⟨[], b, rfl, splits_escape⟩

/-- The decode of what stands before a token leaves what the printer has in front of the token,
apart from the notes. -/
theorem Printer.agrees_before (p : Printer) {s : List UInt8} {ts us : List Token}
    (split : tokens s = ts ++ us) :
    (p.run (tokens (ts.flatMap Token.bytes))).Agrees (p.run ts) := by
  have whole := splits_tokens s
  rw [split] at whole
  rcases whole.before with same | ⟨vs, b, rfl, cut⟩
  · rw [same.tokens_eq]
    exact .refl _
  · rw [cut.tokens_eq, run_append, run_append]
    exact ⟨rfl, rfl, rfl, rfl, rfl⟩

end DotMatrix
