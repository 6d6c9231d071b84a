import DotMatrix.Proofs.Resumption

/-!
# A line of graphics in pieces

A printing program may send the columns of a line in one bit image or in several, in any modes.  The
modes and the counts of the pieces say where each payload ends, and after that they are forgotten:
the columns are struck next to each other as if they had come in one piece (`run_images`).

So two ways to cut the same columns leave the printer in two states that differ in the number of
images and in the offset.  What comes behind the images asks for neither, and moves with the offset
(`Printer.run_eq_behind`).
-/

namespace DotMatrix

/-! ## The stream of some bit images -/

namespace BitImage

/-- The bytes of bit images, one image after the other. -/
def stream (is : List BitImage) : List UInt8 := is.flatMap bytes

/-- The columns of bit images, one image after the other. -/
def columns (is : List BitImage) : List UInt8 := is.flatMap payload

/-- The image as a token of its own. -/
def token (i : BitImage) : Token := .command (.bitImage i)

theorem columns_cons (i : BitImage) (is : List BitImage) :
    columns (i :: is) = i.payload ++ columns is :=
  List.flatMap_cons

/-- Complete images are split off whatever follows them. -/
theorem tokens_stream_append {is : List BitImage} (complete : ∀ i ∈ is, i.Complete)
    (b : List UInt8) : tokens (stream is ++ b) = is.map token ++ tokens b := by
  refine Splits.tokens_eq ?_
  induction is with
  | nil => exact splits_tokens b
  | cons i is ih =>
    have others := ih fun j mem => complete j (List.mem_cons_of_mem i mem)
    have first : i.token.Fits (stream is ++ b) :=
      .command (c := .bitImage i) (complete i List.mem_cons_self) _
    have whole := Splits.cons first others
    rw [← List.append_assoc] at whole
    exact whole

end BitImage

/-! ## One printer, two cuts -/

namespace Printer

/-- The printer after complete bit images. -/
def strikeAll (p : Printer) (is : List BitImage) : Printer :=
  { p with
    offset := p.offset + (BitImage.stream is).length
    head := { p.head with x := p.head.x + (BitImage.columns is).length }
    canvas := p.canvas.strikeColumns p.head.x p.head.y (BitImage.columns is)
    bitImages := p.bitImages + is.length
    columns := p.columns + (BitImage.columns is).length }

/-- The columns of the first image, and behind them those of the others. -/
theorem strikeAll_cons (p : Printer) {i : BitImage} (complete : i.Complete) (is : List BitImage) :
    p.strikeAll (i :: is) = (p.strike i).strikeAll is := by
  have whole : i.payload.take i.declared = i.payload :=
    List.take_of_length_le (Nat.le_of_eq complete)
  have bytes : (BitImage.stream (i :: is)).length =
      i.header.length + i.payload.length + (BitImage.stream is).length := by
    unfold BitImage.stream BitImage.bytes
    simp only [List.flatMap_cons, List.length_append]
  have columns : (BitImage.columns (i :: is)).length =
      i.payload.length + (BitImage.columns is).length := by
    rw [BitImage.columns_cons, List.length_append]
  unfold strikeAll strike Canvas.strike
  rw [bytes, columns, BitImage.columns_cons, Canvas.strikeColumns_append, whole, List.length_cons]
  simp only [Nat.add_assoc, Nat.add_comm 1]

/-- **Images run together.**  Complete bit images are struck as one run of columns, whatever their
modes and counts are. -/
theorem run_images (p : Printer) {is : List BitImage} (complete : ∀ i ∈ is, i.Complete) :
    p.run (is.map BitImage.token) = p.strikeAll is := by
  induction is generalizing p with
  | nil => rfl
  | cons i is ih =>
    have others := ih (p.strike i) fun j mem => complete j (List.mem_cons_of_mem i mem)
    rw [strikeAll_cons p (complete i List.mem_cons_self) is, ← others]
    rfl

end Printer

/-- What stands behind the images is decoded on the page that they leave, from where they have left
the head. -/
theorem decode_images (p : Page) {a : List UInt8} {is : List BitImage}
    (whole : ∀ d ∈ (decode p a).report.diagnostics, ¬d.IsTruncation)
    (complete : ∀ i ∈ is, i.Complete) (b : List UInt8) :
    let q := (p.printer.run (tokens a)).strikeAll is
    let rest := (Printer.start q.canvas q.head).run (tokens b)
    let d := decode p (a ++ (BitImage.stream is ++ b))
    d.canvas = rest.canvas ∧ d.report = q.report.followedBy rest.report := by
  intro q rest d
  have run : p.printer.run (tokens (a ++ (BitImage.stream is ++ b))) = q.behind rest := by
    rw [tokens_append_of_remainder_eq_nil (remainder_eq_nil whole), Printer.run_append,
      BitImage.tokens_stream_append complete, Printer.run_append, Printer.run_images _ complete]
    exact Printer.run_eq_behind q (tokens b)
  constructor
  · have canvas : d.canvas = _ := canvas_decode p _
    rw [canvas, run]
    rfl
  · have report : d.report = _ := report_decode p _
    rw [report, run, Printer.report_behind]

/-- **Pieces of a line do not matter.**  Two lists of complete bit images with the same columns, put
between the same streams, leave the same page, the same head and pitch, and the same numbers of
columns and of line feeds.  The numbers of images differ as the lists do.  What is noted before the
images is the same, and so is what is noted behind them, at offsets that differ as the lengths of
the images do. -/
theorem decode_fragments (p : Page) (a b : List UInt8) (is js : List BitImage)
    (whole : ∀ d ∈ (decode p a).report.diagnostics, ¬d.IsTruncation)
    (completeI : ∀ i ∈ is, i.Complete) (completeJ : ∀ j ∈ js, j.Complete)
    (same : BitImage.columns is = BitImage.columns js) :
    let one := decode p (a ++ (BitImage.stream is ++ b))
    let other := decode p (a ++ (BitImage.stream js ++ b))
    one.canvas = other.canvas ∧
      other.report =
        { one.report with
          bytes := (a ++ (BitImage.stream js ++ b)).length
          bitImages := other.report.bitImages
          diagnostics := other.report.diagnostics } ∧
      one.report.bitImages + js.length = other.report.bitImages + is.length ∧
      ∃ ds : List Diagnostic,
        one.report.diagnostics = (decode p a).report.diagnostics ++
          ds.map (Diagnostic.mapOffset ((a ++ BitImage.stream is).length + ·)) ∧
        other.report.diagnostics = (decode p a).report.diagnostics ++
          ds.map (Diagnostic.mapOffset ((a ++ BitImage.stream js).length + ·)) := by
  intro one other
  -- The printer behind the first part, and what the last part does to the page behind the images.
  let q := p.printer.run (tokens a)
  let rest := (Printer.start (q.strikeAll is).canvas (q.strikeAll is).head).run (tokens b)
  have canvas : (q.strikeAll is).canvas = (q.strikeAll js).canvas := by
    unfold Printer.strikeAll
    rw [same]
  have head : (q.strikeAll is).head = (q.strikeAll js).head := by
    unfold Printer.strikeAll
    rw [same]
  obtain ⟨canvasI, reportI⟩ : one.canvas = rest.canvas ∧
      one.report = (q.strikeAll is).report.followedBy rest.report :=
    decode_images p whole completeI b
  obtain ⟨canvasJ, reportJ⟩ : other.canvas = rest.canvas ∧
      other.report = (q.strikeAll js).report.followedBy rest.report := by
    simp only [rest, canvas, head]
    exact decode_images p whole completeJ b
  have offset : q.offset = a.length := by
    rw [← bytes_decode p a, report_decode]
    rfl
  have notes : q.diagnostics = (decode p a).report.diagnostics := by
    rw [report_decode]
    rfl
  refine ⟨canvasI.trans canvasJ.symm, ?_, ?_, rest.diagnostics, ?_, ?_⟩
  · have bytes : other.report.bytes = (a ++ (BitImage.stream js ++ b)).length := bytes_decode p _
    rw [← bytes, reportI, reportJ]
    simp only [Report.followedBy, Printer.report, Printer.strikeAll, same]
  · rw [reportI, reportJ]
    show q.bitImages + is.length + rest.bitImages + js.length =
      q.bitImages + js.length + rest.bitImages + is.length
    omega
  · rw [reportI, List.length_append, ← offset, ← notes]
    rfl
  · rw [reportJ, List.length_append, ← offset, ← notes]
    rfl

/-- Three columns in one image, and in three of other modes, of which one is empty.  Two of the
columns are an escape and a line feed. -/
theorem decode_fragments_modes :
    let p : Page := ⟨"narrow", 8, 32, 1, 34⟩
    let a : List UInt8 := [0x41, 0x0A]
    let b : List UInt8 := [0x07, 0x1B, 0x33]
    let is : List BitImage := [⟨.selected 32, ⟨3, 0⟩, [0xFF, 0x1B, 0x0A]⟩]
    let js : List BitImage :=
      [⟨.double, ⟨1, 0⟩, [0xFF]⟩, ⟨.selected 0, ⟨0, 0⟩, []⟩, ⟨.selected 5, ⟨2, 0⟩, [0x1B, 0x0A]⟩]
    let one := decode p (a ++ (BitImage.stream is ++ b))
    let other := decode p (a ++ (BitImage.stream js ++ b))
    (∀ d ∈ (decode p a).report.diagnostics, ¬d.IsTruncation) ∧
      (∀ i ∈ is, i.Complete) ∧ (∀ j ∈ js, j.Complete) ∧
      BitImage.columns is = BitImage.columns js ∧
      one.report.diagnostics =
        [.printable 0 0x41, .unknownControl 10 0x07 ⟨3, 17⟩, .truncatedCommand 11 (some 0x33)] ∧
      other.report.diagnostics =
        [.printable 0 0x41, .unknownControl 19 0x07 ⟨3, 17⟩, .truncatedCommand 20 (some 0x33)] ∧
      one.canvas = other.canvas ∧
      other.report =
        { one.report with
          bytes := (a ++ (BitImage.stream js ++ b)).length
          bitImages := other.report.bitImages
          diagnostics := other.report.diagnostics } ∧
      one.report.bitImages + js.length = other.report.bitImages + is.length ∧
      ∃ ds : List Diagnostic,
        one.report.diagnostics = (decode p a).report.diagnostics ++
          ds.map (Diagnostic.mapOffset ((a ++ BitImage.stream is).length + ·)) ∧
        other.report.diagnostics = (decode p a).report.diagnostics ++
          ds.map (Diagnostic.mapOffset ((a ++ BitImage.stream js).length + ·)) :=
  ⟨by decide +kernel, by decide, by decide, by decide, by decide +kernel, by decide +kernel,
    decode_fragments _ _ _ _ _ (by decide +kernel) (by decide) (by decide) (by decide)⟩

end DotMatrix
