import DotMatrix.Proofs.Tiling

/-!
# The log of a decode

The log of a decode is read off the walk, after the fact.  A printer at work would log on the way,
in the middle of what it does, and only what somebody wants to read.  `Recorder` is such a printer.
It logs a diagnostic when it leaves the note, a line spacing before the pitch is set, and a bit
image when the image is struck and the counters are up already, so that it has to remember the
column in front of it.

## Logging changes nothing

`Recorder.printer_after` and `Recorder.log_after` say what one token does: to the printer what it
does without a log, and to the log what the event of the token says, as far as the limit lets it.
By induction over the tokens the same holds of a whole stream, and `decodeLogging_eq` is the sum of
it: a limit filters the log and leaves the canvas and the report as they are.

## What the log tells

`Tells` lists what there is to log about a stream, without the walk: the diagnostics of the report,
the line spacing commands that stand in the split of the stream, and its bit images, each with the
head where the decode of the bytes in front of it ends.  The records of the scan are these and no
others (`tells_of_mem_records`, `mem_records_of_tells`), and they are in the order `Precedes`.  Only
a bit image that is cut has two records at one offset, first the warning and then the image.

Since no record precedes itself, nothing is logged twice.
-/

namespace DotMatrix

/-! ## What a record is about -/

namespace Diagnostic

/-- The diagnostic is about a byte that belongs to no command. -/
def IsStrayByte : Diagnostic → Prop
  | printable _ _ | unknownControl _ _ _ => True
  | _ => False

instance : DecidablePred IsStrayByte
  | printable _ _ | unknownControl _ _ _ => .isTrue trivial
  | unknownEscape _ _ | truncatedCommand _ _ | truncatedBitImage _ _ _ => .isFalse id

theorem level_eq (d : Diagnostic) : d.level = if d.IsStrayByte then .debug else .warn := by
  cases d <;> rfl

end Diagnostic

namespace Log

/-- A reader that looks down to a level, or at nothing, sees the record. -/
def Shows (limit : Option Level) (r : Record) : Prop := ∃ l ∈ limit, r.level.rank ≤ l.rank

instance (limit : Option Level) (r : Record) : Decidable (Shows limit r) :=
  inferInstanceAs (Decidable (∃ l ∈ limit, r.level.rank ≤ l.rank))

theorem upTo_eq_filter (limit : Option Level) (rs : List Record) :
    upTo limit rs = rs.filter fun r => Shows limit r := by
  cases limit with
  | none => simp [upTo, Shows]
  | some l => simp [upTo, Shows]

@[simp] theorem upTo_nil (limit : Option Level) : upTo limit [] = [] := by
  rw [upTo_eq_filter, List.filter_nil]

theorem upTo_append (limit : Option Level) (as bs : List Record) :
    upTo limit (as ++ bs) = upTo limit as ++ upTo limit bs := by
  simp only [upTo_eq_filter, List.filter_append]

/-- Nothing lies below the records of a scan. -/
theorem upTo_trace (rs : List Record) : upTo (some .trace) rs = rs := by
  rw [upTo_eq_filter, List.filter_eq_self]
  intro r _
  have least : ∀ l : Level, l.rank ≤ Level.trace.rank := by intro l; cases l <;> decide
  simpa [Shows] using least r.level

namespace Record

/-- The offset that a record of a scan names. -/
def offset? : Record → Option Nat
  | diagnostic d => some d.offset
  | lineSpacing o _ | bitImage o _ _ _ => some o
  | decoded _ _ _ _ | nothingDrawn | wrote _ _ _ _ | captureSize _ => none

/-- The diagnostic that a record is about. -/
def diagnostic? : Record → Option Diagnostic
  | diagnostic d => some d
  | _ => none

/-- The record is about a bit image that was struck. -/
def IsBitImage : Record → Prop
  | bitImage _ _ _ _ => True
  | _ => False

instance : DecidablePred IsBitImage
  | bitImage _ _ _ _ => .isTrue trivial
  | diagnostic _ | lineSpacing _ _ | decoded _ _ _ _ | nothingDrawn | wrote _ _ _ _
  | captureSize _ => .isFalse id

/-- One record stands before another: it names a smaller offset, or the same one, and then it is the
warning about the payload of the bit image that the other is about. -/
def Precedes (r q : Record) : Prop :=
  ∃ m n, r.offset? = some m ∧ q.offset? = some n ∧
    (m < n ∨ m = n ∧ (∃ declared available,
      r = .diagnostic (.truncatedBitImage m declared available)) ∧ q.IsBitImage)

theorem Precedes.ne {r q : Record} (h : r.Precedes q) : r ≠ q := by
  rintro rfl
  obtain ⟨m, n, first, second, before | ⟨-, ⟨_, _, rfl⟩, image⟩⟩ := h
  · exact Nat.ne_of_lt before (Option.some.inj (first.symm.trans second))
  · exact image

end Record
end Log

/-! ## Logging on the way -/

/-- A printer that logs on the way. -/
structure Recorder where
  printer : Printer
  log : List Log.Record

namespace Recorder

/-- Let the printer do something. -/
def act (q : Recorder) (f : Printer → Printer) : Recorder := { q with printer := f q.printer }

variable (limit : Option Log.Level)

/-- Log a record, unless it lies below the limit. -/
def emit (q : Recorder) (r : Log.Record) : Recorder :=
  if Log.Shows limit r then { q with log := q.log ++ [r] } else q

/-- Log a diagnostic and leave it as a note. -/
def diagnose (q : Recorder) (d : Diagnostic) : Recorder :=
  (q.emit limit (.diagnostic d)).act (·.note d)

/-- Strike a bit image and log it afterwards.  The column in front of the image is remembered, the
row is still the same. -/
def strike (q : Recorder) (i : BitImage) : Recorder :=
  let struck := q.act (·.strike i)
  struck.emit limit (.bitImage q.printer.offset i.density.mode i.count
    ⟨q.printer.head.x, struck.printer.head.y⟩)

/-- The printer and its log after one more token. -/
def after (q : Recorder) : Token → Recorder
  | .command .lineFeed => q.act Printer.feed
  | .command .reset => q.act (·.skip 2)
  | .command (.lineSpacing n) =>
    (q.emit limit (.lineSpacing q.printer.offset n)).act fun p =>
      { p.skip 3 with head := { p.head with pitch := n } }
  | .command (.cancelItalic _) | .command (.leftMargin _) => q.act (·.skip 3)
  | .command (.bitImage i) => q.strike limit i
  | .strayEscape b => (q.diagnose limit (.unknownEscape q.printer.offset b)).act (·.skip 1)
  | .text b => (q.diagnose limit (.printable q.printer.offset b)).act (·.skip 1)
  | .control b =>
    (q.diagnose limit (.unknownControl q.printer.offset b q.printer.head.toPosition)).act (·.skip 1)
  | .cutHeader bs =>
    (q.diagnose limit (.truncatedCommand q.printer.offset bs.head?)).act (·.skip (bs.length + 1))
  | .cutImage i =>
    (q.diagnose limit
      (.truncatedBitImage q.printer.offset i.declared i.payload.length)).strike limit i

/-- The printer and its log after more tokens. -/
def run (q : Recorder) (ts : List Token) : Recorder := ts.foldl (after limit) q

theorem run_cons (q : Recorder) (t : Token) (ts : List Token) :
    q.run limit (t :: ts) = (q.after limit t).run limit ts := rfl

@[simp] theorem printer_act (q : Recorder) (f : Printer → Printer) :
    (q.act f).printer = f q.printer := rfl

@[simp] theorem log_act (q : Recorder) (f : Printer → Printer) : (q.act f).log = q.log := rfl

@[simp] theorem printer_emit (q : Recorder) (r : Log.Record) :
    (q.emit limit r).printer = q.printer := by
  by_cases shown : Log.Shows limit r
  · rw [emit, if_pos shown]
  · rw [emit, if_neg shown]

@[simp] theorem log_emit (q : Recorder) (r : Log.Record) :
    (q.emit limit r).log = q.log ++ Log.upTo limit [r] := by
  rw [Log.upTo_eq_filter]
  by_cases shown : Log.Shows limit r
  · rw [emit, if_pos shown, List.filter_cons_of_pos (by simpa using shown), List.filter_nil]
  · rw [emit, if_neg shown, List.filter_cons_of_neg (by simpa using shown), List.filter_nil,
      List.append_nil]

@[simp] theorem printer_diagnose (q : Recorder) (d : Diagnostic) :
    (q.diagnose limit d).printer = q.printer.note d := by
  rw [diagnose, printer_act, printer_emit]

@[simp] theorem log_diagnose (q : Recorder) (d : Diagnostic) :
    (q.diagnose limit d).log = q.log ++ Log.upTo limit [.diagnostic d] := by
  rw [diagnose, log_act, log_emit]

@[simp] theorem printer_strike (q : Recorder) (i : BitImage) :
    (q.strike limit i).printer = q.printer.strike i := by
  rw [strike, printer_emit, printer_act]

/-- The head that is logged is the one in front of the image. -/
@[simp] theorem log_strike (q : Recorder) (i : BitImage) :
    (q.strike limit i).log = q.log ++ Log.upTo limit
      [.bitImage q.printer.offset i.density.mode i.count q.printer.head.toPosition] := by
  rw [strike, log_emit, log_act]
  rfl

/-- What is logged has no influence on the printer. -/
theorem printer_after (q : Recorder) (t : Token) :
    (q.after limit t).printer = q.printer.after t := by
  cases t with
  | command c => cases c <;> simp [after, Printer.after]
  | _ => simp [after, Printer.after]

/-- A token logs what the event of the token says, as far as the limit lets it. -/
theorem log_after (q : Recorder) (t : Token) :
    (q.after limit t).log =
      q.log ++ Log.upTo limit (Event.records ⟨q.printer.offset, q.printer.head, t⟩) := by
  cases t with
  | command c => cases c <;> simp [after, Event.records, Event.diagnostic?, Event.action?]
  | cutImage i =>
    -- The note in between changes neither the offset nor the head.
    rw [after, log_strike, log_diagnose, printer_diagnose, List.append_assoc, ← Log.upTo_append]
    rfl
  | _ => simp [after, Event.records, Event.diagnostic?, Event.action?]

theorem printer_run (q : Recorder) (ts : List Token) :
    (q.run limit ts).printer = q.printer.run ts := by
  induction ts generalizing q with
  | nil => rfl
  | cons t ts ih => rw [run_cons, ih, printer_after, Printer.run_cons]

/-- A run logs the records of the trail, as far as the limit lets it. -/
theorem log_run (q : Recorder) (ts : List Token) :
    (q.run limit ts).log = q.log ++
      Log.upTo limit ((Event.trail q.printer.offset q.printer.head ts).flatMap Event.records) := by
  induction ts generalizing q with
  | nil => simp [run, Event.trail]
  | cons t ts ih =>
    rw [run_cons, ih, log_after, printer_after, Printer.after_eq, Event.trail, List.flatMap_cons,
      Log.upTo_append, List.append_assoc]

end Recorder

/-- Decode a stream and log on the way, for a reader that looks down to a level. -/
def decodeLogging (limit : Option Log.Level) (p : Page) (s : List UInt8) : Decoded :=
  let q := Recorder.run limit ⟨p.printer, []⟩ (tokens s)
  ⟨q.printer.canvas, q.printer.report, (q.emit limit q.printer.report.closing).log⟩

/-- The level of the log changes the log and nothing else. -/
theorem decodeLogging_eq (limit : Option Log.Level) (p : Page) (s : List UInt8) :
    decodeLogging limit p s = { decode p s with log := Log.upTo limit (decode p s).log } := by
  have trail : (Walk.ofStream p.pitch s).records =
      (Event.trail 0 (.home p.pitch) (tokens s)).flatMap Event.records := by
    rw [Walk.records, Walk.trail_ofStream]
  have closing : (decode p s).log =
      (Walk.ofStream p.pitch s).records ++ [(decode p s).report.closing] := rfl
  rw [decodeLogging, Recorder.log_emit, Recorder.printer_run, Recorder.log_run, ← report_decode,
    ← canvas_decode, closing, trail, Log.upTo_append]
  rfl

/-! ## The records of the events -/

namespace Event

variable {e : Event} {r : Log.Record}

theorem mem_records_iff :
    r ∈ e.records ↔ (∃ d, e.diagnostic? = some d ∧ .diagnostic d = r) ∨ e.action? = some r := by
  rw [records, List.mem_append, Option.mem_toList, Option.mem_toList, Option.map_eq_some_iff]

/-- What an event does is a line spacing or a bit image. -/
theorem action?_eq_some_iff :
    e.action? = some r ↔
      (∃ n, e.token = .command (.lineSpacing n) ∧ .lineSpacing e.offset n = r) ∨
      ∃ i, e.token.image? = some i ∧
        .bitImage e.offset i.density.mode i.count e.head.toPosition = r := by
  obtain ⟨offset, head, token⟩ := e
  cases token with
  | command c => cases c <;> simp [action?, Token.image?]
  | _ => simp [action?, Token.image?]

theorem offset?_of_mem_records (mem : r ∈ e.records) : r.offset? = some e.offset := by
  rcases mem_records_iff.mp mem with ⟨d, noted, rfl⟩ | action
  · exact congrArg some (offset_of_diagnostic? noted)
  · rcases action?_eq_some_iff.mp action with ⟨n, -, rfl⟩ | ⟨i, -, rfl⟩ <;> rfl

/-- Only a bit image that is cut has two records. -/
theorem pairwise_records (e : Event) : e.records.Pairwise Log.Record.Precedes := by
  obtain ⟨offset, head, token⟩ := e
  cases token with
  | command c => cases c <;> simp [records, diagnostic?, action?]
  | cutImage i =>
    refine List.pairwise_pair.mpr ⟨offset, offset, rfl, rfl, .inr ⟨rfl, ?_, trivial⟩⟩
    exact ⟨i.declared, i.payload.length, rfl⟩
  | _ => simp [records, diagnostic?, action?]

theorem filterMap_records (e : Event) :
    e.records.filterMap Log.Record.diagnostic? = e.diagnostic?.toList := by
  obtain ⟨offset, head, token⟩ := e
  cases token with
  | command c => cases c <;> rfl
  | _ => rfl

theorem countP_records (e : Event) :
    e.records.countP (fun r => r.IsBitImage) = if e.isBitImage then 1 else 0 := by
  obtain ⟨offset, head, token⟩ := e
  cases token with
  | command c => cases c <;> rfl
  | _ => rfl

end Event

/-- The records of a walk are in the order of their offsets. -/
theorem Walk.pairwise_records (pitch : UInt8) (s : List UInt8) :
    (ofStream pitch s).records.Pairwise Log.Record.Precedes := by
  rw [records, trail_ofStream, List.pairwise_flatMap]
  refine ⟨fun e _ => e.pairwise_records, ?_⟩
  refine (Event.pairwise_trail 0 (.home pitch) (tokens s)).imp ?_
  intro e f before r mem q mem'
  have positive := e.token.length_pos
  exact ⟨e.offset, f.offset, Event.offset?_of_mem_records mem, Event.offset?_of_mem_records mem',
    .inl (by omega)⟩

theorem Walk.filterMap_records (w : Walk) :
    w.records.filterMap Log.Record.diagnostic? = w.diagnostics := by
  rw [records, diagnostics, List.filterMap_flatMap]
  simp only [Event.filterMap_records]
  induction w.trail with
  | nil => rfl
  | cons e es ih => cases noted : e.diagnostic? <;> simp [noted, ih]

theorem Walk.countP_records (w : Walk) :
    w.records.countP (fun r => r.IsBitImage) = w.bitImages := by
  rw [records, bitImages]
  induction w.trail with
  | nil => rfl
  | cons e es ih =>
    rw [List.flatMap_cons, List.countP_append, Event.countP_records, ih, List.countP_cons,
      Nat.add_comm]

/-! ## What is there to log -/

/-- The token stands at the offset of the stream. -/
def StandsAt (s : List UInt8) (o : Nat) (t : Token) : Prop :=
  ∃ us vs, Splits s (us ++ t :: vs) ∧ (us.flatMap Token.bytes).length = o

theorem Event.mem_trail_append (o : Nat) (h : Head) (us : List Token) (t : Token)
    (vs : List Token) :
    ⟨o + (us.flatMap Token.bytes).length, h.run us, t⟩ ∈ trail o h (us ++ t :: vs) := by
  induction us generalizing o h with
  | nil => exact List.mem_cons_self
  | cons u us ih =>
    rw [List.flatMap_cons, List.length_append, Token.length_bytes, ← Nat.add_assoc]
    exact List.mem_cons_of_mem _ (ih (o + u.length) (h.after u))

/-- A token stands in a stream where the walk comes by it. -/
theorem standsAt_iff {pitch : UInt8} {s : List UInt8} {o : Nat} {t : Token} :
    StandsAt s o t ↔ ∃ e ∈ (Walk.ofStream pitch s).trail, e.offset = o ∧ e.token = t := by
  rw [Walk.trail_ofStream]
  constructor
  · rintro ⟨us, vs, split, rfl⟩
    rw [split.tokens_eq]
    exact ⟨_, Event.mem_trail_append 0 (.home pitch) us t vs, Nat.zero_add _, rfl⟩
  · rintro ⟨e, mem, rfl, rfl⟩
    obtain ⟨us, vs, split, offset, -⟩ := Event.exists_eq_append_of_mem_trail mem
    refine ⟨us, vs, split ▸ splits_tokens s, ?_⟩
    rw [offset, Nat.zero_add]

/-- What the scan of a stream has to log: a level, a text and what they are about. -/
inductive Tells (p : Page) (s : List UInt8) : Log.Level → String → Log.Record → Prop where
  /-- A byte that was skipped as text or as a control byte. -/
  | skipped {d : Diagnostic} (noted : d ∈ (decode p s).report.diagnostics)
      (stray : d.IsStrayByte) : Tells p s .debug d.text (.diagnostic d)
  /-- A command that is not known or could not be finished. -/
  | damaged {d : Diagnostic} (noted : d ∈ (decode p s).report.diagnostics)
      (other : ¬d.IsStrayByte) : Tells p s .warn d.text (.diagnostic d)
  /-- A complete line spacing command. -/
  | lineSpacing {o : Nat} {n : UInt8} (stands : StandsAt s o (.command (.lineSpacing n))) :
      Tells p s .trace (Diagnostic.offsetText o ++ "line spacing " ++ n.toNat.repr)
        (.lineSpacing o n)
  /-- A bit image, complete or cut, with the head where the bytes in front of it leave it. -/
  | bitImage {o : Nat} {t : Token} {i : BitImage} {head : Position} (stands : StandsAt s o t)
      (image : t.image? = some i) (before : (decode p (s.take o)).report.cursor = head) :
      Tells p s .trace
        (Diagnostic.offsetText o ++ "bit image mode " ++ i.density.mode.toNat.repr ++ " " ++
          i.count.low.toNat.repr ++ "x" ++ i.count.high.toNat.repr ++ " at " ++ head.x.repr ++
          "," ++ head.y.repr)
        (.bitImage o i.density.mode i.count head)

theorem tells_of_mem_records {p : Page} {s : List UInt8} {r : Log.Record}
    (mem : r ∈ (Walk.ofStream p.pitch s).records) : Tells p s r.level r.text r := by
  obtain ⟨e, walked, mem⟩ := List.mem_flatMap.mp mem
  rcases Event.mem_records_iff.mp mem with ⟨d, noted, rfl⟩ | action
  · have noted : d ∈ (decode p s).report.diagnostics :=
      mem_diagnostics_decode_iff.mpr ⟨e, walked, noted⟩
    by_cases stray : d.IsStrayByte
    · rw [Log.Record.level, d.level_eq, if_pos stray]
      exact .skipped noted stray
    · rw [Log.Record.level, d.level_eq, if_neg stray]
      exact .damaged noted stray
  · rcases Event.action?_eq_some_iff.mp action with ⟨n, token, rfl⟩ | ⟨i, image, rfl⟩
    · exact .lineSpacing (standsAt_iff.mpr ⟨e, walked, rfl, token⟩)
    · exact .bitImage (standsAt_iff.mpr ⟨e, walked, rfl, rfl⟩) image (cursor_decode_take walked)

theorem mem_records_of_tells {p : Page} {s : List UInt8} {level : Log.Level} {text : String}
    {r : Log.Record} (tells : Tells p s level text r) :
    r ∈ (Walk.ofStream p.pitch s).records ∧ r.level = level ∧ r.text = text := by
  have logged : ∀ e ∈ (Walk.ofStream p.pitch s).trail, r ∈ e.records →
      r ∈ (Walk.ofStream p.pitch s).records := fun e walked mem =>
    List.mem_flatMap.mpr ⟨e, walked, mem⟩
  cases tells with
  | @skipped d noted stray =>
    obtain ⟨e, walked, note⟩ := mem_diagnostics_decode_iff.mp noted
    refine ⟨logged e walked (Event.mem_records_iff.mpr (.inl ⟨d, note, rfl⟩)), ?_, rfl⟩
    rw [Log.Record.level, d.level_eq, if_pos stray]
  | @damaged d noted other =>
    obtain ⟨e, walked, note⟩ := mem_diagnostics_decode_iff.mp noted
    refine ⟨logged e walked (Event.mem_records_iff.mpr (.inl ⟨d, note, rfl⟩)), ?_, rfl⟩
    rw [Log.Record.level, d.level_eq, if_neg other]
  | lineSpacing stands =>
    obtain ⟨e, walked, rfl, token⟩ := standsAt_iff.mp stands
    refine ⟨logged e walked (Event.mem_records_iff.mpr (.inr ?_)), rfl, rfl⟩
    exact Event.action?_eq_some_iff.mpr (.inl ⟨_, token, rfl⟩)
  | bitImage stands image before =>
    obtain ⟨e, walked, rfl, rfl⟩ := standsAt_iff.mp stands
    refine ⟨logged e walked (Event.mem_records_iff.mpr (.inr ?_)), rfl, rfl⟩
    rw [← before, cursor_decode_take walked]
    exact Event.action?_eq_some_iff.mpr (.inr ⟨_, image, rfl⟩)

/-- Text, a line spacing, and a bit image of which one column is missing. -/
example :
    (decode ⟨"strip", 8, 24, 0, 24⟩
        [0x41, 0x0A, 0x1B, 0x33, 0x10, 0x1B, 0x4C, 0x02, 0x00, 0x81]).log =
      [.diagnostic (.printable 0 0x41), .lineSpacing 2 0x10,
        .diagnostic (.truncatedBitImage 5 2 1), .bitImage 5 1 ⟨2, 0⟩ ⟨0, 12⟩,
        .decoded 0 13 1 1] := by
  decide +kernel

end DotMatrix
