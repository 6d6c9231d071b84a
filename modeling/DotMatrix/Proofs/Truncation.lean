import DotMatrix.Proofs.Printer
import DotMatrix.Proofs.Splitting

/-!
# Cut tokens and what is noted about them

The end of a stream cuts at most one token, the last one.  So the tokens of a stream are its whole
tokens and then none or one that is cut (`tokens_eq_wholeTokens_append`).  A note about a truncation
is left for a cut token and for no other, and therefore a decode without such a note has split its
stream into whole tokens (`remainder_eq_nil`).
-/

namespace DotMatrix

/-- The diagnostic says that the stream ends inside a command. -/
def Diagnostic.IsTruncation : Diagnostic → Prop
  | truncatedCommand _ _ | truncatedBitImage _ _ _ => True
  | _ => False

instance : DecidablePred Diagnostic.IsTruncation
  | .truncatedCommand _ _ | .truncatedBitImage _ _ _ => .isTrue trivial
  | .printable _ _ | .unknownControl _ _ _ | .unknownEscape _ _ => .isFalse id

namespace Event

theorem exists_truncation_of_isCut {e : Event} (cut : e.token.IsCut) :
    ∃ d, e.diagnostic? = some d ∧ d.IsTruncation := by
  obtain ⟨offset, head, token⟩ := e
  cases token with
  | cutHeader bs => exact ⟨_, rfl, trivial⟩
  | cutImage i => exact ⟨_, rfl, trivial⟩
  | command | strayEscape | text | control => exact cut.elim

theorem not_isTruncation_of_not_isCut {e : Event} (whole : ¬e.token.IsCut) {d : Diagnostic}
    (noted : e.diagnostic? = some d) : ¬d.IsTruncation := by
  obtain ⟨offset, head, token⟩ := e
  cases token with
  | command c => exact nomatch noted
  | strayEscape | text | control =>
    obtain rfl := Option.some.inj noted
    exact id
  | cutHeader | cutImage => exact absurd trivial whole

theorem isCut_of_isTruncation {e : Event} {d : Diagnostic} (noted : e.diagnostic? = some d)
    (truncation : d.IsTruncation) : e.token.IsCut :=
  Decidable.byContradiction fun whole => not_isTruncation_of_not_isCut whole noted truncation

end Event

namespace Printer

/-- The notes that a printer leaves for some tokens. -/
def notes (p : Printer) (ts : List Token) : List Diagnostic :=
  (Event.trail p.offset p.head ts).filterMap Event.diagnostic?

theorem diagnostics_run (p : Printer) (ts : List Token) :
    (p.run ts).diagnostics = p.diagnostics ++ p.notes ts := by
  rw [run_eq, notes]

theorem offset_run (p : Printer) (ts : List Token) :
    (p.run ts).offset = p.offset + (ts.flatMap Token.bytes).length := by
  rw [run_eq]

@[simp] theorem notes_nil (p : Printer) : p.notes [] = [] := rfl

theorem notes_cons (p : Printer) (t : Token) (ts : List Token) :
    p.notes (t :: ts) =
      (Event.diagnostic? ⟨p.offset, p.head, t⟩).toList ++ (p.after t).notes ts := by
  rw [notes, notes, after_eq, Event.trail]
  cases noted : Event.diagnostic? ⟨p.offset, p.head, t⟩ with
  | none => rw [List.filterMap_cons_none noted]; rfl
  | some d => rw [List.filterMap_cons_some noted]; rfl

theorem notes_append (p : Printer) (ts us : List Token) :
    p.notes (ts ++ us) = p.notes ts ++ (p.run ts).notes us := by
  induction ts generalizing p with
  | nil => rfl
  | cons t ts ih => rw [List.cons_append, notes_cons, notes_cons, ih, List.append_assoc, run_cons]

theorem notes_concat (p : Printer) (ts : List Token) (t : Token) :
    p.notes (ts ++ [t]) =
      p.notes ts ++ (Event.diagnostic? ⟨(p.run ts).offset, (p.run ts).head, t⟩).toList := by
  rw [notes_append, notes_cons, notes_nil, List.append_nil]

/-- A cut token is noted as a truncation. -/
theorem exists_truncation_of_isCut {t : Token} (cut : t.IsCut) {ts : List Token} (mem : t ∈ ts)
    (p : Printer) : ∃ d ∈ p.notes ts, d.IsTruncation := by
  obtain ⟨us, vs, rfl⟩ := List.append_of_mem mem
  obtain ⟨d, noted, truncation⟩ := Event.exists_truncation_of_isCut
    (e := ⟨(p.run us).offset, (p.run us).head, t⟩) cut
  refine ⟨d, ?_, truncation⟩
  rw [notes_append, notes_cons, noted]
  exact List.mem_append_right _ (List.mem_append_left _ List.mem_cons_self)

/-- No whole token is noted as a truncation. -/
theorem not_isTruncation_of_mem_notes {ts : List Token} (whole : ∀ t ∈ ts, ¬t.IsCut) {p : Printer}
    {d : Diagnostic} (mem : d ∈ p.notes ts) : ¬d.IsTruncation := by
  induction ts generalizing p with
  | nil => exact absurd mem List.not_mem_nil
  | cons t ts ih =>
    rw [notes_cons, List.mem_append] at mem
    rcases mem with mem | mem
    · exact Event.not_isTruncation_of_not_isCut (whole t List.mem_cons_self)
        (Option.mem_toList.mp mem)
    · have others : ∀ u ∈ ts, ¬u.IsCut := fun u hu => whole u (List.mem_cons_of_mem t hu)
      exact ih others mem

end Printer

/-- A decode reports the notes on its tokens. -/
theorem diagnostics_decode (p : Page) (s : List UInt8) :
    (decode p s).report.diagnostics = p.printer.notes (tokens s) := by
  rw [report_decode]
  exact Printer.diagnostics_run p.printer (tokens s)

/-- The last token of a stream ends where the stream ends. -/
theorem Printer.offset_run_eq_sub {s : List UInt8} {ts : List Token} {t : Token}
    (split : tokens s = ts ++ [t]) (p : Page) :
    (p.printer.run ts).offset = s.length - t.length := by
  have bytes := flatMap_bytes_tokens s
  rw [split, List.flatMap_append, List.flatMap_cons, List.flatMap_nil, List.append_nil] at bytes
  rw [Printer.offset_run, ← bytes, List.length_append, Token.length_bytes]
  show 0 + (ts.flatMap Token.bytes).length = (ts.flatMap Token.bytes).length + t.length - t.length
  omega

/-- The notes of a decode end with the one on the last token, if that token is noted. -/
theorem diagnostics_decode_concat (p : Page) {s : List UInt8} {ts : List Token} {t : Token}
    (split : tokens s = ts ++ [t]) :
    ∃ h, (decode p s).report.diagnostics =
      p.printer.notes ts ++ (Event.diagnostic? ⟨s.length - t.length, h, t⟩).toList := by
  refine ⟨(p.printer.run ts).head, ?_⟩
  rw [diagnostics_decode, split, Printer.notes_concat, Printer.offset_run_eq_sub split]

/-! ## Whole tokens and the cut one -/

theorem not_isCut_of_mem_wholeTokens {s : List UInt8} {t : Token} (mem : t ∈ wholeTokens s) :
    ¬t.IsCut :=
  of_decide_eq_true (List.mem_filter.mp mem).2

/-- No token of a split is cut, or one is, which fits at the end of the stream. -/
theorem Splits.filter_isCut {s : List UInt8} {ts : List Token} (h : Splits s ts) :
    (ts.filter fun t => t.IsCut) = [] ∨
      ∃ t, t.IsCut ∧ t.Fits [] ∧ (ts.filter fun t => t.IsCut) = [t] := by
  induction h with
  | nil => exact Or.inl rfl
  | @cons t rest ts fits others ih =>
    by_cases cut : t.IsCut
    · obtain rfl := fits.eq_nil_of_isCut cut
      obtain rfl : ts = [] := by rw [← others.tokens_eq, tokens_nil]
      exact Or.inr ⟨t, cut, fits, by simp [cut]⟩
    · simpa [cut] using ih

/-- The tokens of a stream are its whole tokens, and behind them the one that is cut if one is. -/
theorem tokens_eq_wholeTokens_append (s : List UInt8) :
    tokens s = wholeTokens s ++ tokens (remainder s) := by
  simpa using tokens_append s []

/-- What is left behind the whole tokens is nothing, or the bytes of one cut token. -/
theorem remainder_eq_nil_or (s : List UInt8) :
    remainder s = [] ∨
      ∃ t : Token, t.IsCut ∧ t.Fits [] ∧ remainder s = t.bytes ∧ tokens (remainder s) = [t] := by
  rcases (splits_tokens s).filter_isCut with none | ⟨t, cut, fits, one⟩
  · exact Or.inl (by rw [remainder, none]; rfl)
  · have bytes : remainder s = t.bytes := by
      rw [remainder, one, List.flatMap_cons, List.flatMap_nil, List.append_nil]
    exact Or.inr ⟨t, cut, fits, bytes, bytes ▸ fits.splits.tokens_eq⟩

/-- A decode without a note about a truncation has left nothing over. -/
theorem remainder_eq_nil {p : Page} {s : List UInt8}
    (whole : ∀ d ∈ (decode p s).report.diagnostics, ¬d.IsTruncation) : remainder s = [] := by
  rcases remainder_eq_nil_or s with nothing | ⟨t, cut, -, -, one⟩
  · exact nothing
  · have mem : t ∈ tokens s := by
      rw [tokens_eq_wholeTokens_append, one]
      exact List.mem_append_right _ List.mem_cons_self
    obtain ⟨d, noted, truncation⟩ := Printer.exists_truncation_of_isCut cut mem p.printer
    rw [← diagnostics_decode] at noted
    exact absurd truncation (whole d noted)

end DotMatrix
