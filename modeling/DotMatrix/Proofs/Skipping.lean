import DotMatrix.Proofs.Resumption

/-!
# Skipped bytes

A decode skips text, control bytes and stray escapes, each with a note, and it skips three kinds of
command without one.  `strip` takes all of these bytes out of a stream.  It finds them by their
offsets, in the notes of the decode and in the walk, and `strip_eq` says that what is left are the
bytes of the other tokens.

Taking bytes out makes neighbours of bytes that were none.  No new command comes of that: every
token that is left fits before anything, except for a cut one, which is the last before and after
(`Splits.active`).  So the split of the stripped stream is what is left of the split, and the
printer, for which the idle tokens do nothing, ends in the same state (`Agrees`).
-/

namespace DotMatrix

/-! ## Idle tokens -/

namespace Token

/-- A complete command that asks the printer for nothing. -/
def IsIdleCommand : Token → Prop
  | command .reset | command (.cancelItalic _) | command (.leftMargin _) => True
  | _ => False

/-- A byte that belongs to no command. -/
def IsStray : Token → Prop
  | strayEscape _ | text _ | control _ => True
  | _ => False

instance : DecidablePred IsIdleCommand
  | command .reset | command (.cancelItalic _) | command (.leftMargin _) => .isTrue trivial
  | command .lineFeed | command (.lineSpacing _) | command (.bitImage _) => .isFalse id
  | strayEscape _ | text _ | control _ | cutHeader _ | cutImage _ => .isFalse id

instance : DecidablePred IsStray
  | strayEscape _ | text _ | control _ => .isTrue trivial
  | command _ | cutHeader _ | cutImage _ => .isFalse id

/-- The token does nothing to the page, the head or the counters. -/
def IsIdle (t : Token) : Prop := t.IsIdleCommand ∨ t.IsStray

instance (t : Token) : Decidable t.IsIdle :=
  inferInstanceAs (Decidable (t.IsIdleCommand ∨ t.IsStray))

/-- The tokens that are not idle. -/
def active (ts : List Token) : List Token := ts.filter fun t => ¬t.IsIdle

@[simp] theorem active_nil : active [] = [] := rfl

theorem active_cons_of_isIdle {t : Token} (idle : t.IsIdle) (ts : List Token) :
    active (t :: ts) = active ts :=
  List.filter_cons_of_neg (by simpa using idle)

theorem active_cons_of_not_isIdle {t : Token} (busy : ¬t.IsIdle) (ts : List Token) :
    active (t :: ts) = t :: active ts :=
  List.filter_cons_of_pos (decide_eq_true busy)

theorem active_append (ts us : List Token) : active (ts ++ us) = active ts ++ active us :=
  List.filter_append ts us

theorem active_active (ts : List Token) : active (active ts) = active ts := by
  rw [active, active, List.filter_filter]
  simp only [Bool.and_self]

/-- A token that is not idle fits before anything, unless it is cut. -/
theorem Fits.anywhere {t : Token} {rest : List UInt8} (fits : t.Fits rest) (busy : ¬t.IsIdle)
    (whole : ¬t.IsCut) (other : List UInt8) : t.Fits other := by
  cases fits with
  | command wellFormed => exact .command wellFormed other
  | strayEscape | text | control => exact absurd (Or.inr trivial) busy
  | cutHeader | cutImage => exact absurd trivial whole

end Token

/-- The tokens of a split that are not idle are a split of their bytes. -/
theorem Splits.active {s : List UInt8} {ts : List Token} (h : Splits s ts) :
    Splits ((Token.active ts).flatMap Token.bytes) (Token.active ts) := by
  induction h with
  | nil => exact .nil
  | @cons t rest ts fits others ih =>
    by_cases idle : t.IsIdle
    · rw [Token.active_cons_of_isIdle idle]
      exact ih
    · rw [Token.active_cons_of_not_isIdle idle, List.flatMap_cons]
      by_cases cut : t.IsCut
      · -- Nothing comes after a cut token, so nothing was taken out from behind it.
        obtain rfl := fits.eq_nil_of_isCut cut
        obtain rfl : ts = [] := by rw [← others.tokens_eq, tokens_nil]
        exact .cons fits .nil
      · exact .cons (fits.anywhere idle cut _) ih

/-! ## Stripping a stream -/

/-- The byte at an offset is skipped: the decode notes it and its note is not about a truncation, or
the walk meets an idle command there. -/
def Skipped (p : Page) (s : List UInt8) (n : Nat) : Prop :=
  (∃ d ∈ (decode p s).report.diagnostics, ¬d.IsTruncation ∧ d.offset = n) ∨
    ∃ e ∈ (Walk.ofStream p.pitch s).trail,
      e.token.IsIdleCommand ∧ e.offset ≤ n ∧ n < e.offset + e.token.length

instance (p : Page) (s : List UInt8) (n : Nat) : Decidable (Skipped p s n) :=
  inferInstanceAs (Decidable (_ ∨ _))

/-- The stream without the skipped bytes. -/
def strip (p : Page) (s : List UInt8) : List UInt8 :=
  (s.zipIdx.filter fun b => ¬Skipped p s b.2).map Prod.fst

namespace Event

/-- Some idle event of a trail has the offset inside. -/
def IdleAt (es : List Event) (n : Nat) : Prop :=
  ∃ e ∈ es, e.token.IsIdle ∧ e.offset ≤ n ∧ n < e.offset + e.token.length

instance (es : List Event) (n : Nat) : Decidable (IdleAt es n) :=
  inferInstanceAs (Decidable (∃ e ∈ es, _))

/-- Notes that are not about a truncation are about single bytes. -/
theorem exists_note_iff (e : Event) (n : Nat) :
    (∃ d, e.diagnostic? = some d ∧ ¬d.IsTruncation ∧ d.offset = n) ↔
      e.token.IsStray ∧ e.offset ≤ n ∧ n < e.offset + e.token.length := by
  obtain ⟨offset, head, token⟩ := e
  have single : offset = n ↔ offset ≤ n ∧ n < offset + 1 := by omega
  cases token with
  | strayEscape | text | control =>
    simp [diagnostic?, Diagnostic.IsTruncation, Diagnostic.offset, Token.IsStray, Token.length,
      single]
  | command | cutHeader | cutImage =>
    simp [diagnostic?, Diagnostic.IsTruncation, Token.IsStray]

/-- No event of a trail comes before the start of the trail. -/
theorem le_offset_of_mem_trail {o : Nat} {h : Head} {ts : List Token} {e : Event}
    (mem : e ∈ trail o h ts) : o ≤ e.offset := by
  induction ts generalizing o h with
  | nil => exact absurd mem List.not_mem_nil
  | cons t ts ih =>
    rcases List.mem_cons.mp mem with rfl | mem
    · exact Nat.le_refl o
    · exact Nat.le_trans (Nat.le_add_right o t.length) (ih mem)

/-- Inside the first token of a trail only that token counts. -/
theorem idleAt_trail_cons_of_lt {o : Nat} {h : Head} {t : Token} {ts : List Token} {n : Nat}
    (low : o ≤ n) (high : n < o + t.length) : IdleAt (trail o h (t :: ts)) n ↔ t.IsIdle := by
  constructor
  · rintro ⟨e, mem, idle, le, -⟩
    rcases List.mem_cons.mp mem with rfl | mem
    · exact idle
    · have := le_offset_of_mem_trail mem
      omega
  · intro idle
    exact ⟨_, List.mem_cons_self, idle, low, high⟩

/-- Past the first token of a trail that token does not count. -/
theorem idleAt_trail_cons_of_le {o : Nat} {h : Head} {t : Token} {ts : List Token} {n : Nat}
    (past : o + t.length ≤ n) :
    IdleAt (trail o h (t :: ts)) n ↔ IdleAt (trail (o + t.length) (h.after t) ts) n := by
  constructor
  · rintro ⟨e, mem, idle, le, lt⟩
    rcases List.mem_cons.mp mem with rfl | mem
    · exact absurd lt (Nat.not_lt.mpr past)
    · exact ⟨e, mem, idle, le, lt⟩
  · rintro ⟨e, mem, inside⟩
    exact ⟨e, List.mem_cons_of_mem _ mem, inside⟩

/-- Numbering a list, keeping all of it or nothing, and forgetting the numbers. -/
theorem map_filter_zipIdx (l : List UInt8) (n : Nat) (keep : Prop) [Decidable keep] :
    ((l.zipIdx n).filter fun _ => keep).map Prod.fst = if keep then l else [] := by
  by_cases h : keep
  · have all : (l.zipIdx n).filter (fun _ => decide keep) = l.zipIdx n :=
      List.filter_eq_self.mpr fun _ _ => decide_eq_true h
    rw [all, List.zipIdx_map_fst, if_pos h]
  · have none : (l.zipIdx n).filter (fun _ => decide keep) = [] :=
      List.filter_eq_nil_iff.mpr fun _ _ => by simpa using h
    rw [none, if_neg h]
    rfl

/-- Taking out the bytes of the idle events leaves the bytes of the other tokens. -/
theorem map_filter_not_idleAt (o : Nat) (h : Head) (ts : List Token) :
    (((ts.flatMap Token.bytes).zipIdx o).filter fun b => ¬IdleAt (trail o h ts) b.2).map Prod.fst =
      (Token.active ts).flatMap Token.bytes := by
  induction ts generalizing o h with
  | nil => rfl
  | cons t ts ih =>
    have first : (t.bytes.zipIdx o).filter (fun b => ¬IdleAt (trail o h (t :: ts)) b.2) =
        (t.bytes.zipIdx o).filter fun _ => ¬t.IsIdle := by
      refine List.filter_congr ?_
      intro b mem
      have low := List.le_snd_of_mem_zipIdx mem
      have high := List.snd_lt_add_of_mem_zipIdx mem
      rw [Token.length_bytes] at high
      rw [decide_eq_decide, idleAt_trail_cons_of_lt low high]
    have others : ((ts.flatMap Token.bytes).zipIdx (o + t.bytes.length)).filter
          (fun b => ¬IdleAt (trail o h (t :: ts)) b.2) =
        ((ts.flatMap Token.bytes).zipIdx (o + t.length)).filter
          fun b => ¬IdleAt (trail (o + t.length) (h.after t) ts) b.2 := by
      rw [Token.length_bytes]
      refine List.filter_congr ?_
      intro b mem
      have past := List.le_snd_of_mem_zipIdx mem
      rw [decide_eq_decide, idleAt_trail_cons_of_le past]
    rw [List.flatMap_cons, List.zipIdx_append, List.filter_append, List.map_append, first, others,
      ih, map_filter_zipIdx]
    by_cases idle : t.IsIdle
    · rw [if_neg (not_not_intro idle), Token.active_cons_of_isIdle idle, List.nil_append]
    · rw [if_pos idle, Token.active_cons_of_not_isIdle idle, List.flatMap_cons]

end Event

theorem skipped_iff (p : Page) (s : List UInt8) (n : Nat) :
    Skipped p s n ↔ Event.IdleAt (Event.trail 0 (.home p.pitch) (tokens s)) n := by
  have noted : ∀ d, d ∈ (decode p s).report.diagnostics ↔
      ∃ e ∈ Event.trail 0 (.home p.pitch) (tokens s), e.diagnostic? = some d := by
    intro d
    rw [diagnostics_decode]
    exact List.mem_filterMap
  rw [Skipped, Walk.trail_ofStream]
  constructor
  · rintro (⟨d, mem, single, rfl⟩ | ⟨e, mem, idle, inside⟩)
    · obtain ⟨e, he, hd⟩ := (noted d).mp mem
      obtain ⟨stray, inside⟩ := (Event.exists_note_iff e d.offset).mp ⟨d, hd, single, rfl⟩
      exact ⟨e, he, Or.inr stray, inside⟩
    · exact ⟨e, mem, Or.inl idle, inside⟩
  · rintro ⟨e, mem, idle | stray, inside⟩
    · exact Or.inr ⟨e, mem, idle, inside⟩
    · obtain ⟨d, hd, single, offset⟩ := (Event.exists_note_iff e n).mpr ⟨stray, inside⟩
      exact Or.inl ⟨d, (noted d).mpr ⟨e, mem, hd⟩, single, offset⟩

/-- Stripping leaves the bytes of the tokens that are not idle. -/
theorem strip_eq (p : Page) (s : List UInt8) :
    strip p s = (Token.active (tokens s)).flatMap Token.bytes := by
  have skipped := Event.map_filter_not_idleAt 0 (.home p.pitch) (tokens s)
  rw [flatMap_bytes_tokens] at skipped
  rw [strip, ← skipped]
  simp only [skipped_iff]

theorem tokens_strip (p : Page) (s : List UInt8) :
    tokens (strip p s) = Token.active (tokens s) := by
  rw [strip_eq]
  exact (splits_tokens s).active.tokens_eq

theorem length_strip_le (p : Page) (s : List UInt8) : (strip p s).length ≤ s.length := by
  have kept := List.length_filter_le (fun b : UInt8 × Nat => ¬Skipped p s b.2) s.zipIdx
  rw [List.length_zipIdx] at kept
  rwa [strip, List.length_map]

/-- There is nothing left to strip. -/
theorem strip_strip (p : Page) (s : List UInt8) : strip p (strip p s) = strip p s := by
  rw [strip_eq p (strip p s), tokens_strip, Token.active_active, strip_eq p s]

/-- The escape before the reset is a stray one, and so is the one before the line feed. -/
example : strip .a4 [0x1B, 0x1B, 0x40, 0x41, 0x1B, 0x0A, 0x1B, 0x33] = [0x0A, 0x1B, 0x33] := by
  decide +kernel

/-! ## The printer on a stripped stream -/

namespace Printer

/-- Two printers that differ at most in their offsets and their notes. -/
structure Agrees (p q : Printer) : Prop where
  head : p.head = q.head
  canvas : p.canvas = q.canvas
  bitImages : p.bitImages = q.bitImages
  columns : p.columns = q.columns
  lineFeeds : p.lineFeeds = q.lineFeeds

theorem Agrees.refl (p : Printer) : p.Agrees p := ⟨rfl, rfl, rfl, rfl, rfl⟩

theorem Agrees.trans {p q r : Printer} (first : p.Agrees q) (second : q.Agrees r) : p.Agrees r where
  head := first.head.trans second.head
  canvas := first.canvas.trans second.canvas
  bitImages := first.bitImages.trans second.bitImages
  columns := first.columns.trans second.columns
  lineFeeds := first.lineFeeds.trans second.lineFeeds

theorem Agrees.symm {p q : Printer} (h : p.Agrees q) : q.Agrees p :=
  ⟨h.head.symm, h.canvas.symm, h.bitImages.symm, h.columns.symm, h.lineFeeds.symm⟩

/-- An idle token moves the offset and may leave a note, and that is all. -/
theorem agrees_of_isIdle (p : Printer) {t : Token} (idle : t.IsIdle) : (p.after t).Agrees p := by
  rcases idle with command | stray
  · cases t with
    | command c =>
      cases c with
      | reset | cancelItalic | leftMargin => exact ⟨rfl, rfl, rfl, rfl, rfl⟩
      | lineFeed | lineSpacing | bitImage => exact command.elim
    | strayEscape | text | control | cutHeader | cutImage => exact command.elim
  · cases t with
    | strayEscape | text | control => exact ⟨rfl, rfl, rfl, rfl, rfl⟩
    | command | cutHeader | cutImage => exact stray.elim

theorem Agrees.strike {p q : Printer} (h : p.Agrees q) (i : BitImage) :
    (p.strike i).Agrees (q.strike i) where
  head := by simp only [Printer.strike, h.head]
  canvas := by simp only [Printer.strike, h.head, h.canvas]
  bitImages := congrArg (· + 1) h.bitImages
  columns := congrArg (· + i.payload.length) h.columns
  lineFeeds := h.lineFeeds

theorem Agrees.feed {p q : Printer} (h : p.Agrees q) : p.feed.Agrees q.feed where
  head := by simp only [Printer.feed, h.head]
  canvas := h.canvas
  bitImages := h.bitImages
  columns := h.columns
  lineFeeds := congrArg (· + 1) h.lineFeeds

/-- No token asks for the offset or for a note to decide what to do. -/
theorem Agrees.after {p q : Printer} (h : p.Agrees q) (t : Token) :
    (p.after t).Agrees (q.after t) := by
  have ⟨head, canvas, bitImages, columns, lineFeeds⟩ := h
  cases t with
  | command c =>
    cases c with
    | lineFeed => exact h.feed
    | lineSpacing n =>
      have pitched : ({ p.head with pitch := n } : Head) = { q.head with pitch := n } := by
        rw [head]
      exact ⟨pitched, canvas, bitImages, columns, lineFeeds⟩
    | bitImage i => exact h.strike i
    | reset | cancelItalic | leftMargin => exact ⟨head, canvas, bitImages, columns, lineFeeds⟩
  | cutImage i =>
    have noted : (p.note (.truncatedBitImage p.offset i.declared i.payload.length)).Agrees
        (q.note (.truncatedBitImage q.offset i.declared i.payload.length)) :=
      ⟨head, canvas, bitImages, columns, lineFeeds⟩
    exact noted.strike i
  | strayEscape | text | control | cutHeader =>
    exact ⟨head, canvas, bitImages, columns, lineFeeds⟩

/-- The run over the tokens that are not idle ends like the run over all. -/
theorem Agrees.run_active {p q : Printer} (h : p.Agrees q) (ts : List Token) :
    (p.run ts).Agrees (q.run (Token.active ts)) := by
  induction ts generalizing p q with
  | nil => exact h
  | cons t ts ih =>
    by_cases idle : t.IsIdle
    · rw [Token.active_cons_of_isIdle idle]
      exact ih ((p.agrees_of_isIdle idle).trans h)
    · rw [Token.active_cons_of_not_isIdle idle]
      exact ih (h.after t)

/-- Of the whole tokens only idle ones are noted. -/
theorem notes_active {ts : List Token} (whole : ∀ t ∈ ts, ¬t.IsCut) (p : Printer) :
    p.notes (Token.active ts) = [] := by
  induction ts generalizing p with
  | nil => rfl
  | cons t ts ih =>
    have others := ih fun u mem => whole u (List.mem_cons_of_mem t mem)
    by_cases idle : t.IsIdle
    · rw [Token.active_cons_of_isIdle idle]
      exact others p
    · rw [Token.active_cons_of_not_isIdle idle, notes_cons, others]
      cases t with
      | command c => rfl
      | strayEscape | text | control => exact absurd (Or.inr trivial) idle
      | cutHeader | cutImage => exact absurd trivial (whole _ List.mem_cons_self)

end Printer

/-! ## Decoding a stripped stream -/

/-- Streams after which the printer agrees decode to the same page and report, but for the number of
bytes and the notes. -/
theorem decode_of_agrees {p : Page} {a b : List UInt8}
    (agrees : (p.printer.run (tokens a)).Agrees (p.printer.run (tokens b))) :
    (decode p a).canvas = (decode p b).canvas ∧
      (decode p a).report = { (decode p b).report with
        bytes := a.length
        diagnostics := (decode p a).report.diagnostics } := by
  constructor
  · rw [canvas_decode, canvas_decode, agrees.canvas]
  · have bytes : (decode p a).report.bytes = a.length := bytes_decode p a
    rw [← bytes, report_decode, report_decode]
    simp only [Printer.report, agrees.head, agrees.canvas, agrees.bitImages, agrees.columns,
      agrees.lineFeeds]

theorem Token.not_isIdle_of_isCut {t : Token} (cut : t.IsCut) : ¬t.IsIdle := by
  cases t with
  | cutHeader | cutImage => exact fun idle => idle.elim id id
  | command | strayEscape | text | control => exact cut.elim

/-- What is noted about a cut token depends on its offset and not on the head. -/
theorem Event.diagnostic?_of_isCut {t : Token} (cut : t.IsCut) (f : Nat → Nat) (n : Nat)
    (h k : Head) :
    diagnostic? ⟨f n, k, t⟩ = (diagnostic? ⟨n, h, t⟩).map (Diagnostic.mapOffset f) := by
  cases t with
  | cutHeader | cutImage => rfl
  | command | strayEscape | text | control => exact cut.elim

/-- A truncation that a decode notes is noted by the decode of the stripped stream too, at the
offset that the byte has there, and nothing else is. -/
theorem diagnostics_decode_strip (p : Page) (s : List UInt8) :
    let truncations := (decode p s).report.diagnostics.filter fun d => d.IsTruncation
    (truncations = [] ∧ (decode p (strip p s)).report.diagnostics = []) ∨
      ∃ d, truncations = [d] ∧ (decode p (strip p s)).report.diagnostics =
        [d.mapOffset (· - (s.length - (strip p s).length))] := by
  have whole : ∀ t ∈ wholeTokens s, ¬t.IsCut := fun _ => not_isCut_of_mem_wholeTokens
  have silent : (p.printer.notes (wholeTokens s)).filter (fun d => d.IsTruncation) = [] := by
    refine List.filter_eq_nil_iff.mpr ?_
    intro d mem
    have single := Printer.not_isTruncation_of_mem_notes whole mem
    simpa using single
  have bare : p.printer.notes (Token.active (wholeTokens s)) = [] := Printer.notes_active whole _
  rcases remainder_eq_nil_or s with nothing | ⟨t, cut, -, -, one⟩
  · have split : tokens s = wholeTokens s := by
      rw [tokens_eq_wholeTokens_append s, nothing, tokens_nil, List.append_nil]
    rw [diagnostics_decode, diagnostics_decode, tokens_strip, split, bare]
    exact Or.inl ⟨silent, rfl⟩
  · have split : tokens s = wholeTokens s ++ [t] := by rw [← one, ← tokens_eq_wholeTokens_append]
    have splitBare : tokens (strip p s) = Token.active (wholeTokens s) ++ [t] := by
      rw [tokens_strip, split, Token.active_append,
        Token.active_cons_of_not_isIdle (Token.not_isIdle_of_isCut cut), Token.active_nil]
    obtain ⟨h, notes⟩ := diagnostics_decode_concat p split
    obtain ⟨k, notesBare⟩ := diagnostics_decode_concat p splitBare
    obtain ⟨d, noted, truncation⟩ :=
      Event.exists_truncation_of_isCut (e := ⟨s.length - t.length, h, t⟩) cut
    have moved : (strip p s).length - t.length =
        s.length - t.length - (s.length - (strip p s).length) := by
      have shorter := length_strip_le p s
      omega
    have notedBare : Event.diagnostic? ⟨(strip p s).length - t.length, k, t⟩ =
        some (d.mapOffset (· - (s.length - (strip p s).length))) := by
      rw [moved, Event.diagnostic?_of_isCut cut (· - (s.length - (strip p s).length)) _ h, noted]
      rfl
    rw [notes, notesBare, bare, noted, notedBare]
    refine Or.inr ⟨d, ?_, rfl⟩
    rw [List.filter_append, silent]
    simp [truncation]

/-- **Skipped bytes do nothing.**  A stream without the bytes that a decode skips leaves the same
page, and its report differs in two places: it counts fewer bytes, and the only diagnostic it can
have is the one about a truncation, which has moved with the byte it is about.  There is nothing
left to strip after that. -/
theorem decode_strip (p : Page) (s : List UInt8) :
    let whole := decode p s
    let bare := decode p (strip p s)
    let removed := s.length - (strip p s).length
    let truncations := whole.report.diagnostics.filter fun d => d.IsTruncation
    bare.canvas = whole.canvas ∧
      bare.report = { whole.report with
        bytes := (strip p s).length
        diagnostics := bare.report.diagnostics } ∧
      ((truncations = [] ∧ bare.report.diagnostics = []) ∨
        ∃ d, truncations = [d] ∧ bare.report.diagnostics = [d.mapOffset (· - removed)]) ∧
      strip p (strip p s) = strip p s := by
  have agrees : (p.printer.run (tokens s)).Agrees (p.printer.run (tokens (strip p s))) := by
    rw [tokens_strip]
    exact (Printer.Agrees.refl p.printer).run_active (tokens s)
  have canvas : (decode p (strip p s)).canvas = (decode p s).canvas := by
    rw [canvas_decode, canvas_decode, agrees.canvas]
  refine ⟨canvas, ?_, diagnostics_decode_strip p s, strip_strip p s⟩
  rw [← bytes_decode p (strip p s), report_decode, report_decode]
  simp only [Printer.report, agrees.head, agrees.canvas, agrees.bitImages, agrees.columns,
    agrees.lineFeeds]

end DotMatrix
