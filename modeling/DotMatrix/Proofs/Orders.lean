import DotMatrix.Proofs.Truncation

/-!
# Streams that decode in silence

A program that prints does not write tokens, it gives orders.  An `Order` has the arguments that
such a program has at hand: a bit image is ordered by a number of columns in sixteen bits, and with
as much payload as that number announces in the mode of the image.  `Order.stream` writes a job of
orders down, one command after the other.

A decode leaves a note for everything but a complete command (`notes_eq_nil_iff`).  So a stream
decodes without a note exactly if it is the stream of some job, and then of only one.  Both halves
rest on the split of a stream.

* Complete commands fit before anything, whatever their parameters and payloads look like, so the
  commands of a job are the split of its stream (`tokens_stream`).  This gives the silence, and also
  that the stream determines the job.
* The commands of a split carry all of their payload, and every such command can be ordered
  (`exists_order`).
-/

namespace DotMatrix

/-! ## Count bytes and numbers of columns -/

namespace Count

theorem ofWord_injective : Function.Injective ofWord := by
  intro v w same
  have numbers := congrArg toNat same
  rw [toNat_ofWord, toNat_ofWord] at numbers
  exact UInt16.toNat_inj.mp numbers

/-- Any two bytes are the count bytes of some number. -/
theorem exists_ofWord (c : Count) : ∃ w, ofWord w = c := by
  obtain ⟨low, high⟩ := c
  have lowBound := low.toNat_lt
  have highBound := high.toNat_lt
  refine ⟨UInt16.ofNat (low.toNat + 256 * high.toNat), ?_⟩
  have number : (UInt16.ofNat (low.toNat + 256 * high.toNat)).toNat =
      low.toNat + 256 * high.toNat := by
    rw [UInt16.toNat_ofNat', Nat.mod_eq_of_lt (by omega)]
  have lowByte : (low.toNat + 256 * high.toNat) % 256 = low.toNat := by omega
  have highByte : (low.toNat + 256 * high.toNat) / 256 = high.toNat := by omega
  rw [ofWord, number, lowByte, highByte, UInt8.ofNat_toNat, UInt8.ofNat_toNat]

/-- In double density the count is the length of the payload. -/
theorem payloadLength_double (c : Count) : c.payloadLength Density.double.mode = c.toNat := by
  have single : Density.multiplier Density.double.mode = 1 := rfl
  rw [payloadLength, toNat, single, Nat.mul_one, Nat.mul_comm]

end Count

/-! ## Orders -/

/-- A command as a printing program gives it. -/
inductive Order where
  | lineFeed
  | reset
  | lineSpacing (n : UInt8)
  | cancelItalic (n : UInt8)
  | leftMargin (n : UInt8)
  | bitImage (mode : UInt8) (columns : UInt16) (payload : List UInt8)
      (complete : payload.length = (Count.ofWord columns).payloadLength mode)
  | doubleDensity (columns : UInt16) (payload : List UInt8)
      (complete : payload.length = columns.toNat)
  deriving DecidableEq

namespace Order

/-- The command that carries out an order. -/
def command : Order → Command
  | lineFeed => .lineFeed
  | reset => .reset
  | lineSpacing n => .lineSpacing n
  | cancelItalic n => .cancelItalic n
  | leftMargin n => .leftMargin n
  | bitImage mode columns payload _ => .selectBitImage mode columns payload
  | doubleDensity columns payload _ => .doubleDensityBitImage columns payload

/-- The bytes of a job, order by order. -/
def stream (job : List Order) : List UInt8 := Command.stream (job.map command)

theorem wellFormed_command (o : Order) : o.command.WellFormed := by
  cases o with
  | bitImage mode columns payload complete => exact complete
  | doubleDensity columns payload complete =>
    show payload.length = (Count.ofWord columns).payloadLength Density.double.mode
    rw [Count.payloadLength_double, Count.toNat_ofWord]
    exact complete
  | lineFeed | reset | lineSpacing | cancelItalic | leftMargin => exact trivial

theorem command_injective : Function.Injective command := by
  intro o o' same
  cases o <;> cases o' <;>
    simp_all only [command, Command.selectBitImage, Command.doubleDensityBitImage,
      Count.ofWord_injective.eq_iff, Command.lineSpacing.injEq, Command.cancelItalic.injEq,
      Command.leftMargin.injEq, Command.bitImage.injEq, BitImage.mk.injEq, Density.selected.injEq,
      reduceCtorEq, false_and]

/-- Every command with all its payload can be ordered. -/
theorem exists_order {c : Command} (wellFormed : c.WellFormed) : ∃ o : Order, o.command = c := by
  cases c with
  | lineFeed => exact ⟨.lineFeed, rfl⟩
  | reset => exact ⟨.reset, rfl⟩
  | lineSpacing n => exact ⟨.lineSpacing n, rfl⟩
  | cancelItalic n => exact ⟨.cancelItalic n, rfl⟩
  | leftMargin n => exact ⟨.leftMargin n, rfl⟩
  | bitImage i =>
    obtain ⟨density, count, payload⟩ := i
    obtain ⟨columns, rfl⟩ := count.exists_ofWord
    cases density with
    | selected mode => exact ⟨.bitImage mode columns payload wellFormed, rfl⟩
    | double =>
      have complete : payload.length =
          (Count.ofWord columns).payloadLength Density.double.mode := wellFormed
      rw [Count.payloadLength_double, Count.toNat_ofWord] at complete
      exact ⟨.doubleDensity columns payload complete, rfl⟩

/-! ## The split of a job -/

theorem splits_stream (job : List Order) :
    Splits (stream job) (job.map fun o => Token.command o.command) := by
  induction job with
  | nil => exact .nil
  | cons o job ih =>
    have first : (Token.command o.command).Fits (stream job) :=
      .command o.wellFormed_command (stream job)
    exact .cons first ih

/-- The commands of a job are the split of its stream. -/
theorem tokens_stream (job : List Order) :
    tokens (stream job) = job.map fun o => Token.command o.command :=
  (splits_stream job).tokens_eq

/-- A stream is the stream of one job at most. -/
theorem stream_injective : Function.Injective stream := by
  intro job job' same
  have split := congrArg tokens same
  rw [tokens_stream, tokens_stream] at split
  refine (List.map_inj_right ?_).mp split
  intro o o' command
  exact command_injective (Token.command.inj command)

/-- A split into complete commands is that of a job. -/
theorem exists_stream_eq {s : List UInt8} {ts : List Token} (h : Splits s ts)
    (commands : ∀ t ∈ ts, ∃ c, t = .command c) : ∃ job, stream job = s := by
  induction h with
  | nil => exact ⟨[], rfl⟩
  | @cons t rest ts fits others ih =>
    obtain ⟨job, rfl⟩ := ih fun u mem => commands u (List.mem_cons_of_mem t mem)
    obtain ⟨c, rfl⟩ := commands t List.mem_cons_self
    -- A command that fits into a split has all of its payload.
    obtain ⟨o, rfl⟩ : ∃ o : Order, o.command = c := by
      cases fits with
      | command wellFormed => exact exists_order wellFormed
    exact ⟨o :: job, rfl⟩

end Order

/-! ## Silence -/

/-- Every event but a complete command is noted. -/
theorem Event.diagnostic?_eq_none_iff (e : Event) :
    e.diagnostic? = none ↔ ∃ c, e.token = .command c := by
  obtain ⟨offset, head, token⟩ := e
  cases token <;> simp [diagnostic?]

theorem Printer.notes_eq_nil_iff (p : Printer) (ts : List Token) :
    p.notes ts = [] ↔ ∀ t ∈ ts, ∃ c, t = .command c := by
  induction ts generalizing p with
  | nil => simp
  | cons t ts ih =>
    rw [notes_cons, List.append_eq_nil_iff, ih, List.forall_mem_cons, Option.toList_eq_nil_iff,
      Event.diagnostic?_eq_none_iff]

/-- **Silent streams.**  A stream decodes without a single note exactly if it is the stream of a job
of orders, and no other job has that stream. -/
theorem diagnostics_decode_eq_nil_iff (p : Page) (s : List UInt8) :
    ((decode p s).report.diagnostics = [] ↔ ∃ job : List Order, Order.stream job = s) ∧
      ∀ job job' : List Order, Order.stream job = s → Order.stream job' = s → job = job' := by
  refine ⟨?_, ?_⟩
  · rw [diagnostics_decode, Printer.notes_eq_nil_iff]
    constructor
    · intro commands
      exact Order.exists_stream_eq (splits_tokens s) commands
    · rintro ⟨job, rfl⟩ t mem
      rw [Order.tokens_stream] at mem
      obtain ⟨o, -, rfl⟩ := List.mem_map.mp mem
      exact ⟨o.command, rfl⟩
  · intro job job' first second
    exact Order.stream_injective (first.trans second.symm)

end DotMatrix
