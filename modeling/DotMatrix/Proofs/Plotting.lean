import DotMatrix.Proofs.Orders
import DotMatrix.Proofs.Reference
import DotMatrix.Proofs.Skipping
import Mathlib.Algebra.GroupWithZero.Nat
import Mathlib.Data.List.DropRight
import Mathlib.Data.List.Induction

/-!
# What a job of orders means

A `Plotter` is a printer without a wire.  It is handed orders, never bytes, and it knows no page: it
keeps its head, three counters and the list of the dots that it has put down.  `Plotter.obey` says
what one order does to it, and three of the orders do nothing.

Writing a job down and decoding the bytes is the same as handing the job to a plotter and looking at
the dots through the page.  `Plotter.Shows m p` relates the plotter `m` to the byte-driven printer
`p`; it is kept by every order (`Shows.obey`) and so by every job (`Shows.run`).  The writing of an
order and its reading meet in that step, and nowhere else.

What a plotter ends with can be read off the job without running anything.

* `lineFeeds_run`, `images_run`, `columns_run`: the counters count line feeds, images and columns.
* `column_run`: the head stands behind the columns put down since the last line feed.
* `row_run`: the head is as far down as the line feeds have taken it.  Each of them advances by the
  pitch that was set last, and the pitch that replaces a degenerate one advances like it.
* `mem_dots_run`: the dots are those of the columns, at the place of the head before their order.
-/

namespace DotMatrix

/-! ## Reading a job -/

namespace Order

/-- The columns that an order puts down. -/
def payload : Order → List UInt8
  | bitImage _ _ payload _ | doubleDensity _ payload _ => payload
  | _ => []

def isImage : Order → Bool
  | bitImage _ _ _ _ | doubleDensity _ _ _ => true
  | _ => false

/-- The order asks for nothing. -/
def IsIdle : Order → Prop
  | reset | cancelItalic _ | leftMargin _ => True
  | _ => False

instance : DecidablePred IsIdle
  | reset | cancelItalic _ | leftMargin _ => .isTrue trivial
  | lineFeed | lineSpacing _ | bitImage _ _ _ _ | doubleDensity _ _ _ => .isFalse id

/-- Number of columns that a job puts down. -/
def columns (job : List Order) : Nat := (job.map fun o => o.payload.length).sum

/-- The orders behind the last line feed of a job. -/
def lastLine (job : List Order) : List Order := job.rtakeWhile fun o => o ≠ .lineFeed

/-- Rows that a line feed advances in a pitch: half of it, or one if it is below four. -/
def rows (pitch : UInt8) : Nat := if pitch < 4 then 1 else pitch.toNat / 2

/-- The advances of the line feeds of a job, each in the pitch that was set last. -/
def advances (pitch : UInt8) : List Order → List Nat
  | [] => []
  | lineFeed :: job => rows pitch :: advances pitch job
  | lineSpacing n :: job => advances n job
  | _ :: job => advances pitch job

@[simp] theorem columns_singleton (o : Order) : columns [o] = o.payload.length := rfl

theorem columns_append (job job' : List Order) :
    columns (job ++ job') = columns job + columns job' := by
  rw [columns, List.map_append, List.sum_append]
  rfl

/-- Pitches with the same advance advance a job alike. -/
theorem advances_congr {v w : UInt8} (same : rows v = rows w) (job : List Order) :
    advances v job = advances w job := by
  induction job with
  | nil => rfl
  | cons o job ih =>
    cases o with
    | lineFeed => rw [advances, advances, same, ih]
    | lineSpacing n => rfl
    | reset | cancelItalic | leftMargin | bitImage | doubleDensity => exact ih

end Order

/-! ## The plotter -/

/-- The two rows of a dot with its upper half at the position. -/
def Position.Covers (dot : Position) (x y : Nat) : Prop :=
  x = dot.x ∧ (y = dot.y ∨ y = dot.y + 1)

/-- A printer that takes orders. -/
structure Plotter where
  column : Nat
  row : Nat
  pitch : UInt8
  images : Nat
  columns : Nat
  lineFeeds : Nat
  /-- The dots put down so far, each at its upper row. -/
  dots : List Position

namespace Plotter

def start (pitch : UInt8) : Plotter := ⟨0, 0, pitch, 0, 0, 0, []⟩

/-- The dots of columns that stand next to each other.  A column has eight of them, two rows apart,
and the top one belongs to the top bit. -/
def dotsOf (x y : Nat) (payload : List UInt8) : List Position :=
  payload.zipIdx.flatMap fun (column, k) =>
    ((List.range 8).filter fun j => column.toNat.testBit (7 - j)).map fun j => ⟨x + k, y + 2 * j⟩

/-- Put columns down and move past them. -/
def plot (m : Plotter) (payload : List UInt8) : Plotter :=
  { m with
    column := m.column + payload.length
    images := m.images + 1
    columns := m.columns + payload.length
    dots := m.dots ++ dotsOf m.column m.row payload }

/-- Go to the start of the next line. -/
def feed (m : Plotter) : Plotter :=
  { m with
    column := 0
    row := m.row + Order.rows m.pitch
    pitch := if m.pitch < 4 then 2 else m.pitch
    lineFeeds := m.lineFeeds + 1 }

/-- Carry out an order. -/
def obey (m : Plotter) : Order → Plotter
  | .lineFeed => m.feed
  | .lineSpacing n => { m with pitch := n }
  | .bitImage _ _ payload _ | .doubleDensity _ payload _ => m.plot payload
  | .reset | .cancelItalic _ | .leftMargin _ => m

/-- Carry out a job. -/
def run (m : Plotter) (job : List Order) : Plotter := job.foldl obey m

/-- Some dot covers the cell. -/
def Inks (m : Plotter) (x y : Nat) : Prop := ∃ dot ∈ m.dots, dot.Covers x y

@[simp] theorem run_nil (m : Plotter) : m.run [] = m := rfl

@[simp] theorem run_cons (m : Plotter) (o : Order) (job : List Order) :
    m.run (o :: job) = (m.obey o).run job := rfl

theorem run_append (m : Plotter) (job job' : List Order) :
    m.run (job ++ job') = (m.run job).run job' :=
  List.foldl_append

/-! ## What a plotter ends with -/

/-- A counter that every order moves on by its share has moved on by the share of the job. -/
theorem counter_run {counter : Plotter → Nat} {share : List Order → Nat}
    (additive : ∀ us vs, share (us ++ vs) = share us + share vs)
    (obey : ∀ m o, counter (m.obey o) = counter m + share [o]) (m : Plotter) (job : List Order) :
    counter (m.run job) = counter m + share job := by
  induction job generalizing m with
  | nil =>
    have twice : share [] = share [] + share [] := additive [] []
    have nothing : share [] = 0 := by omega
    rw [nothing, run_nil, Nat.add_zero]
  | cons o job ih =>
    rw [run_cons, ih, obey, Nat.add_assoc, ← additive, List.singleton_append]

theorem images_run (m : Plotter) (job : List Order) :
    (m.run job).images = m.images + job.countP Order.isImage := by
  refine counter_run (fun _ _ => List.countP_append) ?_ m job
  intro m o
  cases o <;> rfl

theorem columns_run (m : Plotter) (job : List Order) :
    (m.run job).columns = m.columns + Order.columns job := by
  refine counter_run Order.columns_append ?_ m job
  intro m o
  cases o <;> rfl

theorem lineFeeds_run (m : Plotter) (job : List Order) :
    (m.run job).lineFeeds = m.lineFeeds + job.count .lineFeed := by
  refine counter_run (fun _ _ => List.count_append) ?_ m job
  intro m o
  cases o <;> rfl

theorem column_obey {o : Order} (busy : o ≠ .lineFeed) (m : Plotter) :
    (m.obey o).column = m.column + o.payload.length := by
  cases o with
  | lineFeed => exact absurd rfl busy
  | reset | lineSpacing | cancelItalic | leftMargin | bitImage | doubleDensity => rfl

/-- The head stands behind the columns of the last line. -/
theorem column_run (pitch : UInt8) (job : List Order) :
    ((start pitch).run job).column = Order.columns (Order.lastLine job) := by
  -- The last order says whether a new line has begun, so the induction takes orders off the end.
  induction job using List.reverseRecOn with
  | nil => rfl
  | append_singleton job o ih =>
    rw [run_append, Order.lastLine]
    by_cases feed : o = .lineFeed
    · subst feed
      rw [List.rtakeWhile_concat_neg _ _ _ (by simp)]
      rfl
    · rw [List.rtakeWhile_concat_pos _ _ _ (by simpa using feed), Order.columns_append,
        Order.columns_singleton, ← Order.lastLine, ← ih]
      exact column_obey feed _

/-- A line feed may set the pitch, but it does not change the advance of the next one. -/
theorem rows_feed (m : Plotter) : Order.rows m.feed.pitch = Order.rows m.pitch := by
  by_cases degenerate : m.pitch < 4
  · have settled : m.feed.pitch = 2 := if_pos degenerate
    rw [settled, Order.rows, Order.rows, if_pos degenerate]
    rfl
  · have settled : m.feed.pitch = m.pitch := if_neg degenerate
    rw [settled]

/-- The head is as far down as the line feeds have taken it. -/
theorem row_run (m : Plotter) (job : List Order) :
    (m.run job).row = m.row + (Order.advances m.pitch job).sum := by
  induction job generalizing m with
  | nil => rfl
  | cons o job ih =>
    rw [run_cons, ih]
    cases o with
    | lineFeed =>
      show m.row + Order.rows m.pitch + (Order.advances m.feed.pitch job).sum = _
      rw [Order.advances_congr m.rows_feed, Order.advances, List.sum_cons, Nat.add_assoc]
    | reset | lineSpacing | cancelItalic | leftMargin | bitImage | doubleDensity => rfl

theorem mem_dots_obey {m : Plotter} {o : Order} {dot : Position} :
    dot ∈ (m.obey o).dots ↔ dot ∈ m.dots ∨ dot ∈ dotsOf m.column m.row o.payload := by
  have nothing : dot ∈ m.dots ↔ dot ∈ m.dots ∨ dot ∈ dotsOf m.column m.row [] :=
    (or_iff_left List.not_mem_nil).symm
  cases o with
  | bitImage | doubleDensity => exact List.mem_append
  | lineFeed | reset | lineSpacing | cancelItalic | leftMargin => exact nothing

/-- The dots are those of the orders, each put down where the orders before it have left the
head. -/
theorem mem_dots_run {m : Plotter} {job : List Order} {dot : Position} :
    dot ∈ (m.run job).dots ↔ dot ∈ m.dots ∨ ∃ us o vs, job = us ++ o :: vs ∧
      dot ∈ dotsOf (m.run us).column (m.run us).row o.payload := by
  induction job generalizing m with
  | nil => simp
  | cons o job ih =>
    rw [run_cons, ih, mem_dots_obey, or_assoc]
    refine or_congr Iff.rfl ⟨?_, ?_⟩
    · rintro (mem | ⟨us, o', vs, rfl, mem⟩)
      · exact ⟨[], o, job, rfl, mem⟩
      · exact ⟨o :: us, o', vs, rfl, mem⟩
    · rintro ⟨us, o', vs, split, mem⟩
      -- Either the dot is of the first order, or that order stands before the one it is of.
      rcases List.cons_eq_append_iff.mp split with ⟨rfl, same⟩ | ⟨us, rfl, same⟩
      · obtain ⟨rfl, rfl⟩ := List.cons.inj same
        exact Or.inl mem
      · exact Or.inr ⟨us, o', vs, same, mem⟩

/-! ## The dots and the struck cells -/

theorem mem_dotsOf {x y : Nat} {payload : List UInt8} {dot : Position} :
    dot ∈ dotsOf x y payload ↔ ∃ k, ∃ h : k < payload.length, ∃ j < 8,
      payload[k].toNat.testBit (7 - j) = true ∧ dot = ⟨x + k, y + 2 * j⟩ := by
  simp only [dotsOf, List.mem_flatMap, List.mem_map, List.mem_filter, List.mem_range, Prod.exists,
    List.mem_zipIdx_iff_getElem?]
  constructor
  · rintro ⟨column, k, at_k, j, ⟨low, bit⟩, rfl⟩
    obtain ⟨h, rfl⟩ := List.getElem?_eq_some_iff.mp at_k
    exact ⟨k, h, j, low, bit, rfl⟩
  · rintro ⟨k, h, j, low, bit, rfl⟩
    exact ⟨payload[k], k, List.getElem?_eq_getElem h, j, ⟨low, bit⟩, rfl⟩

/-- The cells under the dots of columns are the cells that the columns strike. -/
theorem exists_dotsOf_iff (x y : Nat) (payload : List UInt8) (u v : Nat) :
    (∃ dot ∈ dotsOf x y payload, dot.Covers u v) ↔ Struck payload ⟨x, y⟩ u v := by
  constructor
  · rintro ⟨dot, mem, column, row⟩
    obtain ⟨k, h, j, low, bit, rfl⟩ := mem_dotsOf.mp mem
    simp only at column row
    -- Whichever of the two rows of the dot the cell is in, halving finds the dot.
    have half : (v - y) / 2 = j := by omega
    exact ⟨k, h, column, by simp only; omega, by simp only; omega, by rw [half]; exact bit⟩
  · rintro ⟨k, h, column, low, high, bit⟩
    simp only at column low high bit
    refine ⟨⟨x + k, y + 2 * ((v - y) / 2)⟩,
      mem_dotsOf.mpr ⟨k, h, _, by omega, bit, rfl⟩, column, ?_⟩
    simp only
    omega

theorem inks_plot (m : Plotter) (payload : List UInt8) (x y : Nat) :
    (m.plot payload).Inks x y ↔ m.Inks x y ∨ Struck payload ⟨m.column, m.row⟩ x y := by
  rw [← exists_dotsOf_iff]
  simp only [Inks, plot, List.mem_append, or_and_right, exists_or]

/-! ## The plotter and the printer -/

/-- The printer shows what the plotter has done, as far as the page goes, and has noted nothing. -/
structure Shows (m : Plotter) (p : Printer) : Prop where
  head : p.head = ⟨⟨m.column, m.row⟩, m.pitch⟩
  images : p.bitImages = m.images
  columns : p.columns = m.columns
  lineFeeds : p.lineFeeds = m.lineFeeds
  ink : ∀ x y, p.canvas.ink x y = true ↔ p.canvas.page.Contains x y ∧ m.Inks x y
  silent : p.diagnostics = []

theorem shows_start (p : Page) : (start p.pitch).Shows p.printer where
  head := rfl
  images := rfl
  columns := rfl
  lineFeeds := rfl
  ink x y := by
    refine iff_of_false (Canvas.not_ink_blank p x y) ?_
    rintro ⟨-, dot, mem, -⟩
    exact absurd mem List.not_mem_nil
  silent := rfl

theorem Shows.feed {m : Plotter} {p : Printer} (h : m.Shows p) : m.feed.Shows p.feed where
  head := by
    rw [Printer.feed, h.head]
    by_cases degenerate : m.pitch < 4 <;> simp [Plotter.feed, Order.rows, degenerate]
  images := h.images
  columns := h.columns
  lineFeeds := congrArg (· + 1) h.lineFeeds
  ink := h.ink
  silent := h.silent

theorem Shows.plot {m : Plotter} {p : Printer} (h : m.Shows p) {i : BitImage}
    (complete : i.Complete) : (m.plot i.payload).Shows (p.strike i) where
  head := by rw [Printer.strike, h.head]; rfl
  images := congrArg (· + 1) h.images
  columns := congrArg (· + i.payload.length) h.columns
  lineFeeds := h.lineFeeds
  ink x y := by
    have whole : i.payload.take i.declared = i.payload :=
      List.take_of_length_le (Nat.le_of_eq complete)
    have position : p.head.toPosition = ⟨m.column, m.row⟩ := congrArg Head.toPosition h.head
    show (p.canvas.strike p.head.toPosition i).ink x y = true ↔
      (p.canvas.strike p.head.toPosition i).page.Contains x y ∧ (m.plot i.payload).Inks x y
    -- The payload is complete, so the part of it that counts is all of it.
    rw [Canvas.ink_strike, (Canvas.painted_strike _ _ _).page, inks_plot, h.ink, whole, position,
      and_or_left]
  silent := h.silent

/-- **One order.**  Reading the bytes of an order does to the printer what the order does to the
plotter. -/
theorem Shows.obey {m : Plotter} {p : Printer} (h : m.Shows p) (o : Order) :
    (m.obey o).Shows (p.after (.command o.command)) := by
  have wellFormed := o.wellFormed_command
  cases o with
  | lineFeed => exact h.feed
  | lineSpacing n =>
    have pitched : ({ p.head with pitch := n } : Head) = ⟨⟨m.column, m.row⟩, n⟩ := by rw [h.head]
    exact ⟨pitched, h.images, h.columns, h.lineFeeds, h.ink, h.silent⟩
  | reset | cancelItalic | leftMargin =>
    exact ⟨h.head, h.images, h.columns, h.lineFeeds, h.ink, h.silent⟩
  | bitImage | doubleDensity => exact h.plot wellFormed

theorem Shows.run {m : Plotter} {p : Printer} (h : m.Shows p) (job : List Order) :
    (m.run job).Shows (p.run (job.map fun o => Token.command o.command)) := by
  induction job generalizing m p with
  | nil => exact h
  | cons o job ih => exact ih (h.obey o)

end Plotter

/-! ## Idle orders -/

theorem Order.isIdle_command_iff (o : Order) : (Token.command o.command).IsIdle ↔ o.IsIdle := by
  cases o <;> simp [Token.IsIdle, Token.IsIdleCommand, Token.IsStray, Order.command, Order.IsIdle,
    Command.selectBitImage, Command.doubleDensityBitImage]

/-- Among the tokens of a job the idle ones are those of its idle orders. -/
theorem Order.active_tokens_stream (job : List Order) :
    Token.active (tokens (stream job)) = tokens (stream (job.filter fun o => ¬o.IsIdle)) := by
  rw [tokens_stream, tokens_stream, Token.active, List.filter_map]
  refine congrArg _ (List.filter_congr ?_)
  intro o _
  simp only [Function.comp_apply, o.isIdle_command_iff]

/-- A job without its idle orders leaves the page and the report of the whole job, apart from the
number of bytes. -/
theorem decode_stream_filter (p : Page) (job : List Order) :
    let kept := Order.stream (job.filter fun o => ¬o.IsIdle)
    (decode p kept).canvas = (decode p (Order.stream job)).canvas ∧
      (decode p kept).report =
        { (decode p (Order.stream job)).report with bytes := kept.length } := by
  intro kept
  have agrees := (Printer.Agrees.refl p.printer).run_active (tokens (Order.stream job))
  rw [Order.active_tokens_stream] at agrees
  have silent : ∀ job' : List Order, (decode p (Order.stream job')).report.diagnostics = [] := by
    intro job'
    rw [report_decode, Order.tokens_stream]
    exact ((Plotter.shows_start p).run job').silent
  obtain ⟨canvas, report⟩ := decode_of_agrees agrees.symm
  rw [silent, ← silent job] at report
  exact ⟨canvas, report⟩

/-! ## The main statement -/

theorem Order.length_stream (job : List Order) :
    (stream job).length = (job.map fun o => o.command.bytes.length).sum := by
  rw [stream, Command.stream, List.length_flatMap, List.map_map]
  rfl

/-- **What a job means.**  Decoding the stream of a job reports the head, the counters and the pitch
of a plotter that was handed the job, all bytes, and no note.  It inks the cells of the page that
are under the dots of the plotter.  The counters are those of the job, the head stands behind the
columns of the last line, in the row that the line feeds have taken it to, and every image order has
put down its dots at the place where the head stood.  Idle orders do nothing besides their bytes. -/
theorem decode_stream (p : Page) (job : List Order) :
    let d := decode p (Order.stream job)
    let m := (Plotter.start p.pitch).run job
    let kept := Order.stream (job.filter fun o => ¬o.IsIdle)
    d.report =
        { bytes := (job.map fun o => o.command.bytes.length).sum
          bitImages := m.images
          columns := m.columns
          lineFeeds := m.lineFeeds
          cursor := ⟨m.column, m.row⟩
          pitch := m.pitch
          maxX := d.canvas.maxX
          maxY := d.canvas.maxY
          diagnostics := [] } ∧
      (∀ x y, d.canvas.ink x y = true ↔ p.Contains x y ∧ m.Inks x y) ∧
      m.lineFeeds = job.count .lineFeed ∧
      m.images = job.countP Order.isImage ∧
      m.columns = Order.columns job ∧
      m.column = Order.columns (Order.lastLine job) ∧
      m.row = (Order.advances p.pitch job).sum ∧
      (∀ dot, dot ∈ m.dots ↔ ∃ us o vs, job = us ++ o :: vs ∧
        dot ∈ Plotter.dotsOf (Order.columns (Order.lastLine us)) (Order.advances p.pitch us).sum
          o.payload) ∧
      (decode p kept).canvas = d.canvas ∧
      (decode p kept).report = { d.report with bytes := kept.length } := by
  intro d m kept
  have shows : m.Shows (p.printer.run (tokens (Order.stream job))) := by
    rw [Order.tokens_stream]
    exact (Plotter.shows_start p).run job
  have bytes := bytes_decode p (Order.stream job)
  have idle := decode_stream_filter p job
  have row : ∀ us, ((Plotter.start p.pitch).run us).row = (Order.advances p.pitch us).sum :=
    fun us => (Plotter.row_run _ us).trans (Nat.zero_add _)
  refine ⟨?_, ?_, ?_, ?_, ?_, Plotter.column_run p.pitch job, row job, ?_, idle.1, idle.2⟩
  · rw [← Order.length_stream, ← bytes]
    simp only [d, report_decode, canvas_decode, Printer.report, shows.head, shows.images,
      shows.columns, shows.lineFeeds, shows.silent]
  · intro x y
    have page : (p.printer.run (tokens (Order.stream job))).canvas.page = p := by
      rw [← canvas_decode, page_decode]
    have ink := shows.ink x y
    rw [page] at ink
    rw [← ink]
    simp only [d, canvas_decode]
  · exact (Plotter.lineFeeds_run _ job).trans (Nat.zero_add _)
  · exact (Plotter.images_run _ job).trans (Nat.zero_add _)
  · exact (Plotter.columns_run _ job).trans (Nat.zero_add _)
  · intro dot
    have none : dot ∉ (Plotter.start p.pitch).dots := List.not_mem_nil
    have dots : dot ∈ m.dots ↔ _ := Plotter.mem_dots_run
    simpa only [none, false_or, Plotter.column_run, row] using dots

end DotMatrix
