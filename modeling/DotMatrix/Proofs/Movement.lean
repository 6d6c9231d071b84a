import DotMatrix.Proofs.Plotting
import Mathlib.Algebra.BigOperators.Intervals

/-!
# Where the head ends

The head remembers a pitch, and a line feed may replace the pitch it remembers.  So the advance of a
line feed depends on a state that no command has set.  Here the state is eliminated: the row, the
column and the pitch in which a stream leaves the head are read off the tokens, each by a rule of
its own.

The pitch commanded at a place is that of the last line spacing command before it, or the pitch of
the page if there is none.  What the head remembers is the commanded pitch, or two if that is
degenerate and a line has been fed since (`pitch_run`).  A degenerate pitch advances like two, so in
either case the line feed advances as the commanded pitch says (`advance_run`), and the row is a sum
over the line feeds that asks each of them for the commands before it and for nothing else
(`row_run`).
-/

namespace DotMatrix

/-! ## Reading the tokens -/

namespace Token

/-- The pitch that a token commands. -/
def pitch? : Token → Option UInt8
  | command (.lineSpacing n) => some n
  | _ => none

/-- Number of columns that a token strikes. -/
def columns (t : Token) : Nat :=
  match t.image? with
  | some i => i.payload.length
  | none => 0

/-- The pitch commanded last by some tokens, or the one they start with. -/
def commandedPitch (start : UInt8) (ts : List Token) : UInt8 := (ts.filterMap pitch?).getLastD start

/-- The tokens behind the last command of a pitch. -/
def sincePitch (ts : List Token) : List Token := ts.rtakeWhile fun t => t.pitch? = none

/-- The tokens behind the last line feed. -/
def lastLine (ts : List Token) : List Token := ts.rtakeWhile fun t => t ≠ .command .lineFeed

theorem commandedPitch_concat_of_none {t : Token} (silent : t.pitch? = none) (start : UInt8)
    (ts : List Token) : commandedPitch start (ts ++ [t]) = commandedPitch start ts := by
  unfold commandedPitch
  rw [List.filterMap_append, List.filterMap_cons_none silent, List.filterMap_nil, List.append_nil]

theorem commandedPitch_concat_of_some {t : Token} {n : UInt8} (commanded : t.pitch? = some n)
    (start : UInt8) (ts : List Token) : commandedPitch start (ts ++ [t]) = n := by
  unfold commandedPitch
  rw [List.filterMap_append, List.filterMap_cons_some commanded, List.filterMap_nil,
    List.getLastD_concat]

theorem sincePitch_concat_of_none {t : Token} (silent : t.pitch? = none) (ts : List Token) :
    sincePitch (ts ++ [t]) = sincePitch ts ++ [t] :=
  List.rtakeWhile_concat_pos _ _ _ (decide_eq_true silent)

theorem sincePitch_concat_of_some {t : Token} {n : UInt8} (commanded : t.pitch? = some n)
    (ts : List Token) : sincePitch (ts ++ [t]) = [] :=
  List.rtakeWhile_concat_neg _ _ _ (by simp [commanded])

end Token

/-! ## One token -/

namespace Head

/-- The head after some tokens. -/
def run (h : Head) (ts : List Token) : Head := ts.foldl after h

theorem run_concat (h : Head) (ts : List Token) (t : Token) :
    h.run (ts ++ [t]) = (h.run ts).after t :=
  List.foldl_concat ..

/-- A token other than a line feed moves the head past its columns and sets the pitch it
commands. -/
theorem after_of_ne {t : Token} (other : t ≠ .command .lineFeed) (h : Head) :
    h.after t = ⟨⟨h.x + t.columns, h.y⟩, t.pitch?.getD h.pitch⟩ := by
  cases t with
  | command c =>
    cases c with
    | lineFeed => exact absurd rfl other
    | reset | lineSpacing | cancelItalic | leftMargin | bitImage => rfl
  | strayEscape | text | control | cutHeader | cutImage => rfl

/-! ## All tokens -/

/-- A line feed replaces a degenerate pitch, whether or not an earlier one already has. -/
theorem settle_ite (pitch : UInt8) (fed : Prop) [Decidable fed] :
    settle (if pitch < 4 ∧ fed then 2 else pitch) = settle pitch := by
  split
  · next replaced =>
    have settled : settle pitch = 2 := if_pos replaced.1
    rw [settled]
    rfl
  · rfl

/-- The head remembers the commanded pitch, or two if that is degenerate and a line has been fed
since. -/
theorem pitch_run (start : UInt8) (ts : List Token) :
    ((home start).run ts).pitch =
      if Token.commandedPitch start ts < 4 ∧ .command .lineFeed ∈ Token.sincePitch ts then 2
      else Token.commandedPitch start ts := by
  induction ts using List.reverseRecOn with
  | nil => exact (if_neg fun h => List.not_mem_nil h.2).symm
  | append_singleton ts t ih =>
    rw [run_concat]
    cases commanded : t.pitch? with
    | some n =>
      have other : t ≠ .command .lineFeed := by
        rintro rfl
        exact nomatch commanded
      rw [after_of_ne other, commanded, Token.commandedPitch_concat_of_some commanded,
        Token.sincePitch_concat_of_some commanded, if_neg (fun h => List.not_mem_nil h.2)]
      rfl
    | none =>
      rw [Token.commandedPitch_concat_of_none commanded, Token.sincePitch_concat_of_none commanded]
      by_cases feed : t = .command .lineFeed
      · subst feed
        have fed : .command .lineFeed ∈ Token.sincePitch ts ++ [.command .lineFeed] :=
          List.mem_append_right _ List.mem_cons_self
        show settle ((home start).run ts).pitch = _
        rw [ih, settle_ite]
        simp only [fed, and_true]
        rfl
      · have fed : .command .lineFeed ∈ Token.sincePitch ts ++ [t] ↔
            .command .lineFeed ∈ Token.sincePitch ts := by
          rw [List.mem_append, List.mem_singleton]
          exact or_iff_left (Ne.symm feed)
        rw [after_of_ne feed, commanded]
        simp only [Option.getD_none, fed]
        exact ih

theorem advance_eq_rows (pitch : UInt8) : advance pitch = Order.rows pitch := by
  unfold Order.rows
  by_cases degenerate : pitch < 4
  · have settled : settle pitch = 2 := if_pos degenerate
    rw [if_pos degenerate, advance, settled]
    rfl
  · have settled : settle pitch = pitch := if_neg degenerate
    rw [if_neg degenerate, advance, settled]

/-- A line feed advances as the commanded pitch says, whatever the head remembers. -/
theorem advance_run (start : UInt8) (ts : List Token) :
    advance ((home start).run ts).pitch = Order.rows (Token.commandedPitch start ts) := by
  rw [pitch_run, advance, settle_ite, ← advance, advance_eq_rows]

theorem column_run (start : UInt8) (ts : List Token) :
    ((home start).run ts).x = ((Token.lastLine ts).map Token.columns).sum := by
  induction ts using List.reverseRecOn with
  | nil => rfl
  | append_singleton ts t ih =>
    rw [run_concat, Token.lastLine]
    by_cases feed : t = .command .lineFeed
    · subst feed
      rw [List.rtakeWhile_concat_neg _ _ _ (by simp)]
      rfl
    · rw [List.rtakeWhile_concat_pos _ _ _ (by simpa using feed), ← Token.lastLine,
        after_of_ne feed, List.map_append, List.sum_append, List.map_singleton, List.sum_singleton,
        ← ih]

/-- The row is the sum of the advances, each in the pitch commanded before the line feed. -/
theorem row_run (start : UInt8) (ts : List Token) :
    ((home start).run ts).y = ∑ k ∈ Finset.range ts.length,
      if ts[k]? = some (.command .lineFeed)
      then Order.rows (Token.commandedPitch start (ts.take k)) else 0 := by
  induction ts using List.reverseRecOn with
  | nil => rfl
  | append_singleton ts t ih =>
    have before : ∀ k ∈ Finset.range ts.length,
        (if (ts ++ [t])[k]? = some (.command .lineFeed)
          then Order.rows (Token.commandedPitch start ((ts ++ [t]).take k)) else 0) =
        if ts[k]? = some (.command .lineFeed)
          then Order.rows (Token.commandedPitch start (ts.take k)) else 0 := by
      intro k mem
      have low : k < ts.length := Finset.mem_range.mp mem
      rw [List.getElem?_append_left low, List.take_append_of_le_length (Nat.le_of_lt low)]
    rw [run_concat, List.length_append, List.length_singleton, Finset.sum_range_succ,
      Finset.sum_congr rfl before, ← ih, List.getElem?_concat_length, List.take_left]
    by_cases feed : t = .command .lineFeed
    · subst feed
      rw [if_pos rfl, ← advance_run]
      rfl
    · rw [if_neg (fun same => feed (Option.some.inj same)), after_of_ne feed, Nat.add_zero]

end Head

/-- A decode reports the head that the tokens have moved. -/
theorem head_decode (p : Page) (s : List UInt8) :
    (⟨(decode p s).report.cursor, (decode p s).report.pitch⟩ : Head) =
      (Head.home p.pitch).run (tokens s) := by
  rw [report_decode, Printer.report, Printer.run_eq]
  rfl

/-- **Where the head ends.**  The row is the sum over the line feeds of the stream, each of them
with the advance of the pitch commanded before it.  The column is the number of columns struck since
the last line feed.  The pitch is the one commanded last, or two if that is below four and a line
has been fed since it was commanded. -/
theorem decode_head (p : Page) (s : List UInt8) :
    let r := (decode p s).report
    let ts := tokens s
    let n := Token.commandedPitch p.pitch ts
    (r.cursor.y = ∑ k ∈ Finset.range ts.length,
        if ts[k]? = some (.command .lineFeed)
        then Order.rows (Token.commandedPitch p.pitch (ts.take k)) else 0) ∧
      r.cursor.x = ((Token.lastLine ts).map Token.columns).sum ∧
      r.pitch = if n < 4 ∧ .command .lineFeed ∈ Token.sincePitch ts then 2 else n := by
  intro r ts n
  have head := head_decode p s
  have row : r.cursor.y = ((Head.home p.pitch).run ts).y := congrArg (fun h => h.y) head
  have column : r.cursor.x = ((Head.home p.pitch).run ts).x := congrArg (fun h => h.x) head
  have pitch : r.pitch = ((Head.home p.pitch).run ts).pitch := congrArg Head.pitch head
  rw [row, column, pitch]
  exact ⟨Head.row_run p.pitch ts, Head.column_run p.pitch ts, Head.pitch_run p.pitch ts⟩

/-- A pitch of two, in which two lines are fed, then one of forty, and one of three without a line
feed behind it. -/
example :
    let s : List UInt8 :=
      [0x1B, 0x33, 0x02, 0x0A, 0x0A, 0x1B, 0x33, 0x28, 0x0A,
        0x1B, 0x4C, 0x01, 0x00, 0xFF, 0x1B, 0x33, 0x03]
    let r := (decode ⟨"narrow", 8, 32, 1, 34⟩ s).report
    r.cursor = ⟨1, 22⟩ ∧ r.pitch = 3 := by
  decide +kernel

end DotMatrix
