import DotMatrix.Proofs.Growth
import DotMatrix.Proofs.Truncation

/-!
# Cutting a stream short

A stream that is cut short, wherever the cut falls, decodes to less than the whole stream does and
to nothing else.  The two splits agree up to the token in which the cut falls.  If that is a header,
the shorter decode does nothing about it.  If it is a payload, the shorter decode strikes the
columns that are left of it, and the longer one starts with the same columns
(`exists_tokens_image`).
-/

namespace DotMatrix

/-- A stream that starts with a cut bit image starts with a token for the same image, with as much
of the payload or more. -/
theorem exists_tokens_image {i : BitImage} (short : i.payload.length < i.declared)
    (more : List UInt8) :
    ∃ (t : Token) (j : BitImage) (ts : List Token), tokens (i.bytes ++ more) = t :: ts ∧
      t.image? = some j ∧ i.declared = j.declared ∧ i.payload <+: j.payload := by
  obtain ⟨tail, same, read⟩ := Token.read_header_append i (i.payload ++ more)
  have bytes : i.bytes ++ more = Control.escape :: tail := by
    rw [← same]
    exact List.append_assoc _ _ _
  rw [bytes, tokens_cons, read]
  rcases Nat.lt_or_ge (i.payload ++ more).length (i.count.payloadLength i.density.mode) with h | h
  · rw [Token.readImage_of_lt h]
    exact ⟨_, _, _, rfl, rfl, rfl, List.prefix_append _ _⟩
  · rw [Token.readImage_of_le h]
    refine ⟨_, _, _, rfl, rfl, rfl, ?_⟩
    exact List.prefix_take_iff.mpr ⟨List.prefix_append _ _, Nat.le_of_lt short⟩

namespace Printer

/-- More of a bit image does more. -/
theorem grows_image {t u : Token} {i j : BitImage} (cut : t.image? = some i)
    (image : u.image? = some j) (declared : i.declared = j.declared)
    (payload : i.payload <+: j.payload) (p : Printer) : (p.after t).Grows (p.after u) := by
  rw [after_of_image cut, after_of_image image]
  refine ⟨?_, Nat.le_refl _, ?_, Nat.le_refl _, Nat.le_refl _⟩
  · exact Canvas.painted_strike_of_prefix _ _ declared payload
  · exact Nat.add_le_add_left payload.length_le _

/-- What a cut token does, the token that stands there in a longer stream does too. -/
theorem grows_cut {t : Token} (cut : t.IsCut) (fits : t.Fits []) (more : List UInt8) (p : Printer) :
    (p.run [t]).Grows (p.run (tokens (t.bytes ++ more))) := by
  cases fits with
  | @cutHeader c bs =>
    have nothing : (p.run [.cutHeader bs]).Grows p := .of_eq rfl rfl rfl rfl rfl
    exact nothing.trans (grows_run p _)
  | @cutImage i short =>
    obtain ⟨u, j, ts, split, image, declared, payload⟩ := exists_tokens_image short more
    show (p.after (.cutImage i)).Grows (p.run (tokens (i.bytes ++ more)))
    rw [split]
    exact (grows_image rfl image declared payload p).trans (grows_run _ ts)
  | command | text | control => exact cut.elim

/-- The printer after a stream grows if the stream goes on. -/
theorem grows_tokens_append (p : Printer) (a more : List UInt8) :
    (p.run (tokens a)).Grows (p.run (tokens (a ++ more))) := by
  rw [tokens_append, tokens_eq_wholeTokens_append a, run_append, run_append]
  rcases remainder_eq_nil_or a with nothing | ⟨t, cut, fits, bytes, one⟩
  · rw [nothing, tokens_nil]
    exact grows_run _ _
  · rw [one, bytes]
    exact grows_cut cut fits more _

/-- Except for a truncation, the notes on a stream stand at the start of those on a longer one. -/
theorem notes_prefix (p : Printer) (a more : List UInt8) :
    ((p.notes (tokens a)).filter fun d => ¬d.IsTruncation) <+: p.notes (tokens (a ++ more)) := by
  rw [tokens_append, tokens_eq_wholeTokens_append a, notes_append, notes_append,
    List.filter_append]
  have whole : (p.notes (wholeTokens a)).filter (fun d => ¬d.IsTruncation) =
      p.notes (wholeTokens a) := by
    refine List.filter_eq_self.mpr ?_
    intro d noted
    have uncut : ∀ t ∈ wholeTokens a, ¬t.IsCut := fun _ => not_isCut_of_mem_wholeTokens
    exact decide_eq_true (not_isTruncation_of_mem_notes uncut noted)
  have rest : ((p.run (wholeTokens a)).notes (tokens (remainder a))).filter
      (fun d => ¬d.IsTruncation) = [] := by
    rcases remainder_eq_nil_or a with nothing | ⟨t, cut, -, -, one⟩
    · rw [nothing, tokens_nil]
      rfl
    · obtain ⟨d, noted, truncation⟩ := Event.exists_truncation_of_isCut
        (e := ⟨(p.run (wholeTokens a)).offset, (p.run (wholeTokens a)).head, t⟩) cut
      rw [one, notes_cons, noted]
      simp [truncation]
  rw [whole, rest, List.append_nil]
  exact List.prefix_append _ _

end Printer

/-- **Cutting a stream short only loses.**  Wherever a stream is cut, what its first part inks is
inked after the whole stream, no count, no extent and no row of the head is larger after the first
part than after the whole, and the notes on the first part, without the one about its truncation,
are the first notes on the whole stream. -/
theorem decode_take_le_decode (p : Page) (s : List UInt8) (n : Nat) :
    let first := decode p (s.take n)
    let whole := decode p s
    (∀ x y, first.canvas.ink x y = true → whole.canvas.ink x y = true) ∧
      first.report.bitImages ≤ whole.report.bitImages ∧
      first.report.columns ≤ whole.report.columns ∧
      first.report.lineFeeds ≤ whole.report.lineFeeds ∧
      first.report.cursor.y ≤ whole.report.cursor.y ∧
      first.report.maxX ≤ whole.report.maxX ∧
      first.report.maxY ≤ whole.report.maxY ∧
      (first.report.diagnostics.filter fun d => ¬d.IsTruncation) <+: whole.report.diagnostics := by
  have grows := p.printer.grows_tokens_append (s.take n) (s.drop n)
  have notes := p.printer.notes_prefix (s.take n) (s.drop n)
  rw [List.take_append_drop] at grows notes
  rw [← diagnostics_decode, ← diagnostics_decode] at notes
  simp only [canvas_decode, report_decode] at notes ⊢
  refine ⟨?_, grows.bitImages, grows.columns, grows.lineFeeds, grows.row, grows.canvas.maxX_le,
    grows.canvas.maxY_le, notes⟩
  intro x y inked
  exact grows.canvas.ink inked

end DotMatrix
