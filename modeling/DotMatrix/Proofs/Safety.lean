import DotMatrix.Proofs.Packing
import DotMatrix.Proofs.Printouts

/-!
# Every access is inside

A decode has no offset or index that could be wrong.  It takes the stream apart from the front, and
it looks cells up by column and row.  A scanner has many of them, and so have the crop of the page
and the picture that is read and packed.  On a page whose buffer can be allocated, none of them is
out of bounds, whatever the page and the stream are otherwise.

The scan itself is known (`Printer.turn_scanner`): each turn takes the token at hand, and so there
are no more turns than bytes.  What is left is where it ends.  The crop takes rows of the page, even
with a border that is too large (`Canvas.memory_crop_or`), and a picture inside the page has indices
that are words.

A page or a payload may be empty.  Then there is less to access, and no case is made of it.
-/

namespace DotMatrix

/-! ## Pictures in memory -/

namespace Bitmap

variable (b : Build) (d : Bitmap)

/-- The palette index of a pixel, by its place in the array. -/
def loadPixel (x y : Nat) : Except Panic UInt8 := do
  load d.pixels (← b.add (← b.mul y d.width) x)

/-- Whether a pixel is ink.  Outside the rectangle nothing is. -/
def loadInk (x y : Nat) : Except Panic Bool :=
  if x < d.width ∧ y < d.height then return (← d.loadPixel b x y) == Palette.ink else return false

/-- Pack the rows into bytes that are zero at first, the bit of one pixel after the other. -/
def pack : Except Panic (Array UInt8) := do
  let size ← reserve (← b.mul (rowBytes d.width) d.height)
  d.places.foldlM (fun bytes place => do
    if (← d.loadPixel b place.1 place.2) == Palette.ink then
      let byte ← b.add (← b.mul place.2 (rowBytes d.width)) (place.1 / 8)
      store bytes byte fun byte => Octet.mark byte (place.1 % 8)
    else return bytes) (Array.replicate size 0)

variable {d} (room : d.width * d.height ≤ 9223372036854775807)

include room

theorem loadPixel_eq {x y : Nat} (hx : x < d.width) (hy : y < d.height) :
    d.loadPixel b x y = .ok (d.get x y) := by
  have index := place_lt hx hy
  have place : y * d.width + x < d.pixels.size := lt_of_lt_of_eq index d.size_eq.symm
  rw [loadPixel, bind_of_ok (b.mul_of_lt (by omega)), bind_of_ok (b.add_of_lt (by omega)),
    load_of_lt place, get, dif_pos ⟨hx, hy⟩]

theorem loadInk_eq (x y : Nat) : d.loadInk b x y = .ok (d.ink x y) := by
  by_cases inside : x < d.width ∧ y < d.height
  · rw [loadInk, if_pos inside, bind_of_ok (loadPixel_eq b room inside.1 inside.2)]
    rfl
  · rw [loadInk, if_neg inside, ink_of_not_lt d inside]
    rfl

/-- Packing stays inside the pixels and inside the bytes, and leaves the packed rows. -/
theorem pack_eq : d.pack b = .ok d.packed.bytes := by
  have narrow : rowBytes d.width ≤ d.width := by
    rw [rowBytes]
    omega
  have small : rowBytes d.width * d.height ≤ d.width * d.height :=
    Nat.mul_le_mul_right d.height narrow
  rw [pack, bind_of_ok (b.mul_of_lt (by omega)), bind_of_ok (reserve_of_le (by omega)),
    ← d.marked_eq]
  refine foldlM_eq_ok id (fun bytes => bytes.size = rowBytes d.width * d.height) ?_
    Array.size_replicate
  rintro bytes size ⟨x, y⟩ mem
  obtain ⟨hx, hy⟩ := (d.mem_places_iff x y).mp mem
  have index := place_lt (PackedRows.div_lt_rowBytes hx) hy
  have place : y * rowBytes d.width + x / 8 < bytes.size := lt_of_lt_of_eq index size.symm
  refine ⟨?_, (d.size_markPlace bytes (x, y)).trans size⟩
  rw [bind_of_ok (loadPixel_eq b room hx hy), markPlace]
  by_cases inked : d.ink x y = true
  · rw [if_pos inked]
    have row : b.mul y (rowBytes d.width) = .ok (y * rowBytes d.width) := b.mul_of_lt (by omega)
    have byte : b.add (y * rowBytes d.width) (x / 8) = .ok (y * rowBytes d.width + x / 8) :=
      b.add_of_lt (by omega)
    refine (if_pos inked).trans ((bind_of_ok row _).trans ((bind_of_ok byte _).trans ?_))
    exact store_of_lt place _
  · rw [if_neg inked]
    exact if_neg inked

end Bitmap

/-! ## Where the scan ends -/

namespace Printer

theorem atEnd_append {ts : List Token} (whole : ∀ t ∈ ts, ¬t.IsCut) (q : Printer)
    (log : Array Log.Record) (us : List Token) :
    q.atEnd log (ts ++ us) = (q.run ts).atEnd (q.recorded log ts) us := by
  induction ts generalizing q log with
  | nil => rfl
  | cons t ts ih =>
    rw [List.cons_append, atEnd, if_neg (whole t List.mem_cons_self), run_cons]
    exact ih (fun u mem => whole u (List.mem_cons_of_mem t mem)) _ _

end Printer

variable {p : Page} {s : List UInt8} {t : Token}

/-- The scan ends behind the whole tokens, or behind the one that is cut. -/
theorem offset_atEnd_of_cut (split : tokens s = wholeTokens s ++ [t]) (cut : t.IsCut) :
    (p.printer.atEnd #[] (tokens s)).offset =
      ((p.printer.run (wholeTokens s)).past #[] t).offset := by
  rw [split, Printer.atEnd_append fun _ => not_isCut_of_mem_wholeTokens, Printer.atEnd, if_pos cut]
  cases t <;> rfl

/-- Without a truncation the scan ends where the stream does. -/
theorem offset_atEnd (whole : ∀ d ∈ (decode p s).report.diagnostics, ¬d.IsTruncation) :
    (p.printer.atEnd #[] (tokens s)).offset = s.length := by
  have split := tokens_eq_wholeTokens_append s
  rw [remainder_eq_nil whole, tokens_nil, List.append_nil] at split
  have uncut : ∀ t ∈ tokens s, ¬t.IsCut := by
    rw [split]
    exact fun _ => not_isCut_of_mem_wholeTokens
  have atEnd := Printer.atEnd_append uncut p.printer #[] []
  rw [List.append_nil] at atEnd
  rw [atEnd, Printer.atEnd, Printer.offset_scanner, Printer.offset_run, flatMap_bytes_tokens]
  exact Nat.zero_add _

/-- A header that is cut leaves the scan in front of it. -/
theorem offset_atEnd_of_cutHeader {pos : Nat} {op : Option UInt8}
    (noted : .truncatedCommand pos op ∈ (decode p s).report.diagnostics) :
    (p.printer.atEnd #[] (tokens s)).offset = pos ∧ pos < s.length := by
  obtain ⟨t, -, -, split, note, -⟩ := exists_cut_of_truncation noted trivial
  cases t with
  | cutHeader bs =>
    obtain ⟨rfl, -⟩ := Diagnostic.truncatedCommand.inj (Option.some.inj note)
    rw [offset_atEnd_of_cut split trivial]
    refine ⟨Printer.offset_run_eq_sub split p, ?_⟩
    exact Nat.sub_lt (Nat.lt_of_lt_of_le (Token.length_pos _) (length_le_of_split split))
      (Token.length_pos _)
  | command | strayEscape | text | control | cutImage => exact nomatch note

/-- A payload that is cut lets the scan go on for as many bytes as are missing. -/
theorem offset_atEnd_of_cutImage {pos declared available : Nat}
    (noted : .truncatedBitImage pos declared available ∈ (decode p s).report.diagnostics) :
    available < declared ∧ declared ≤ 196095 ∧
      (p.printer.atEnd #[] (tokens s)).offset = s.length + (declared - available) := by
  obtain ⟨t, fits, -, split, note, -⟩ := exists_cut_of_truncation noted trivial
  cases t with
  | cutImage i =>
    obtain ⟨-, rfl, rfl⟩ := Diagnostic.truncatedBitImage.inj (Option.some.inj note)
    cases fits with
    | cutImage short =>
      have inside : i.header.length + i.payload.length ≤ s.length := length_le_of_split split
      have start : (p.printer.run (wholeTokens s)).offset =
          s.length - (i.header.length + i.payload.length) := Printer.offset_run_eq_sub split p
      refine ⟨short, i.declared_le, ?_⟩
      rw [offset_atEnd_of_cut split trivial]
      show (p.printer.run (wholeTokens s)).offset + (i.header.length + i.declared) = _
      rw [start]
      omega
  | command | strayEscape | text | control | cutHeader => exact nomatch note

/-- Every turn has a token to take, and takes it. -/
theorem exists_turn_of_mem_visited (b : Build) (room : p.Allocatable) (short : s.length ≤ 2 ^ 57)
    {m : Scanner} (mem : m ∈ p.printer.visited #[] (tokens s)) :
    m.offset < s.length ∧
      ∃ t n, StandsAt s m.offset t ∧ m.turn b s.toArray = .ok n ∧ m.Takes t n := by
  obtain ⟨us, t, vs, log, split, rfl⟩ := Printer.exists_of_mem_visited mem
  have splits : Splits s (us ++ t :: vs) := split ▸ splits_tokens s
  have offset : (us.flatMap Token.bytes).length = (p.printer.run us).offset := by
    rw [Printer.offset_run]
    exact (Nat.zero_add _).symm
  have drop : s.drop (p.printer.run us).offset = t.bytes ++ vs.flatMap Token.bytes := by
    rw [← offset, ← splits.flatMap_bytes, List.flatMap_append, List.drop_left, List.flatMap_cons]
  have page : (p.printer.run us).canvas.page = p := (p.printer.grows_run us).canvas.page
  have balanced : (p.printer.run us).report.Balanced := (Report.Balanced.start _ _).run us
  exact ⟨lt_length_of_drop drop, t, _, ⟨us, vs, splits, offset⟩,
    Printer.turn_scanner b (by rwa [page]) balanced short drop splits.fits_of_append,
    Printer.takes_past _ _ splits.fits_of_append⟩

/-- Where a scan of a stream may end. -/
structure Scanner.EndsOn (m : Scanner) (s : List UInt8) : Prop where
  /-- Where the stream ends, if nothing was cut. -/
  whole : (∀ d ∈ m.diagnostics, ¬d.IsTruncation) → m.offset = s.length
  /-- In front of a header that was cut. -/
  cutHeader : ∀ pos op, .truncatedCommand pos op ∈ m.diagnostics → m.offset = pos ∧ pos < s.length
  /-- Behind what is missing of a payload that was cut. -/
  cutImage : ∀ pos declared available,
    .truncatedBitImage pos declared available ∈ m.diagnostics →
      available < declared ∧ declared ≤ 196095 ∧ m.offset = s.length + (declared - available)
  /-- Only a payload that was cut leads past the end of the stream. -/
  beyond : s.length < m.offset →
    ∃ pos declared available, .truncatedBitImage pos declared available ∈ m.diagnostics

theorem endsOn_atEnd (p : Page) (s : List UInt8) : (p.printer.atEnd #[] (tokens s)).EndsOn s := by
  have noted : ∀ d, d ∈ (p.printer.atEnd #[] (tokens s)).diagnostics ↔
      d ∈ (decode p s).report.diagnostics := by
    intro d
    rw [← Array.mem_toList_iff]
    exact iff_of_eq (congrArg (d ∈ ·) (congrArg Report.diagnostics (atEnd_eq_decode p s).2.1))
  refine ⟨?_, ?_, ?_, ?_⟩
  · simp only [noted]
    exact offset_atEnd
  · simp only [noted]
    exact fun _ _ => offset_atEnd_of_cutHeader
  · simp only [noted]
    exact fun _ _ _ => offset_atEnd_of_cutImage
  · simp only [noted]
    intro beyond
    by_cases cut : ∀ d ∈ (decode p s).report.diagnostics, ¬d.IsTruncation
    · exact absurd (offset_atEnd cut) (Nat.ne_of_gt beyond)
    · obtain ⟨d, mem, truncation⟩ : ∃ d ∈ (decode p s).report.diagnostics, d.IsTruncation := by
        simpa using cut
      cases d with
      | truncatedBitImage pos declared available => exact ⟨pos, declared, available, mem⟩
      | truncatedCommand pos op =>
        obtain ⟨offset, inside⟩ := offset_atEnd_of_cutHeader mem
        rw [offset] at beyond
        exact absurd inside (Nat.lt_asymm beyond)
      | printable | unknownControl | unknownEscape => exact truncation.elim

/-! ## The main statement -/

/-- **Every access is inside.**  Onto a page whose buffer can be allocated, a short stream can be
scanned in one way, and that scan has no more turns than the stream has bytes.  In front of a turn
the offset is inside the stream, and a token stands there, which the turn takes without a panic.
The last scanner has ended where it may, and its memory and its report are those of the decode.

What is done next has no index or range that is outside either: to read a cell, to crop the page, to
read a pixel of the picture and to pack the picture.  If the border past the ink ends in a word, the
crop is that of the decode.  If it does not, checks may stop the program in front of it. -/
theorem scan_stays_inside (b : Build) (p : Page) (room : p.Allocatable) (s : List UInt8)
    (short : s.length ≤ 2 ^ 57) :
    let d := decode p s
    ∃ first before last,
      Scanner.start b p = .ok first ∧
      (∀ visited final,
        Scans b s.toArray first visited final ↔ visited = before ∧ final = last) ∧
      Scanner.scan b p s.toArray = .ok last ∧
      before.length ≤ s.length ∧
      (∀ m ∈ before, m.offset < s.length ∧
        ∃ t n, StandsAt s m.offset t ∧ m.turn b s.toArray = .ok n ∧ m.Takes t n) ∧
      last.EndsOn s ∧
      last.memory = d.canvas.memory ∧ last.report s.length = d.report ∧
      (∀ x y, last.memory.ink b x y = .ok (d.canvas.ink x y)) ∧
      (d.canvas.BorderFits → last.memory.crop b = .ok d.bitmap?) ∧
      ((∃ picture, last.memory.crop b = .ok picture) ∨
        b = .checked ∧ ¬d.canvas.BorderFits ∧ last.memory.crop b = .error .sum) ∧
      ∀ picture, last.memory.crop b = .ok (some picture) →
        (∀ x y, picture.loadInk b x y = .ok (picture.ink x y)) ∧
          picture.pack b = .ok picture.packed.bytes := by
  intro d
  obtain ⟨memory, report, -⟩ := atEnd_eq_decode p s
  have scans := scans_tokens b room short
  have cropped := Canvas.memory_crop_or b (allocatable_decode (s := s) room)
  refine ⟨_, _, _, start_eq b room, fun visited final => ⟨scans.unique, ?_⟩, scan_eq b room short,
    ?_, fun m => exists_turn_of_mem_visited b room short, endsOn_atEnd p s, memory, report, ?_⟩
  · rintro ⟨rfl, rfl⟩
    exact scans
  · rw [Printer.length_visited]
    exact length_tokens_le s
  · rw [memory]
    refine ⟨Canvas.memory_ink b (allocatable_decode room),
      Canvas.memory_crop b (allocatable_decode room), ?_, fun picture crop => ?_⟩
    · exact cropped.imp_left fun ⟨picture, crop, _⟩ => ⟨picture, crop⟩
    · rcases cropped with ⟨found, crop', inside⟩ | ⟨-, -, panic⟩
      · obtain rfl := Except.ok.inj (crop'.symm.trans crop)
        obtain ⟨wide, high⟩ := inside picture rfl
        have limit : picture.width * picture.height ≤ 9223372036854775807 :=
          (Nat.mul_le_mul wide high).trans (allocatable_decode room)
        exact ⟨Bitmap.loadInk_eq b limit, Bitmap.pack_eq b limit⟩
      · exact nomatch panic.symm.trans crop

/-- An image of two columns of which one is there, on a page whose border is too large for a word.
The scan ends past the stream, and checks stop the crop. -/
theorem scan_stays_inside_border :
    let p : Page := ⟨"small", 20, 20, 18446744073709551615, 34⟩
    let s : List UInt8 := [0x0A, 0x1B, 0x2A, 0x00, 0x03, 0x00, 0xFF, 0xFF]
    p.Allocatable ∧ s.length ≤ 2 ^ 57 ∧ ¬(decode p s).canvas.BorderFits ∧
      ∃ last, Scanner.scan .checked p s.toArray = .ok last ∧ last.EndsOn s ∧
        last.report s.length = (decode p s).report ∧
        (∀ x y, last.memory.ink .checked x y = .ok ((decode p s).canvas.ink x y)) ∧
        ((∃ picture, last.memory.crop .checked = .ok picture) ∨
          last.memory.crop .checked = .error .sum) := by
  intro p s
  have room : p.Allocatable := by decide
  have short : s.length ≤ 2 ^ 57 := by decide
  obtain ⟨_, _, last, -, -, scan, -, -, ends, -, report, ink, -, cropped, -⟩ :=
    scan_stays_inside .checked p room s short
  exact ⟨room, short, by decide +kernel, last, scan, ends, report, ink,
    cropped.imp_right fun panic => panic.2.2⟩

/-- There is no page, and the stream ends in front of the longest payload. -/
example :
    let data : Array UInt8 := #[0x1B, 0x2A, 0x02, 0xFF, 0xFF]
    let scanned := Scanner.scan .checked ⟨"none", 0, 0, 0, 34⟩ data
    scanned.map Scanner.offset = .ok (data.size + 196095) := by
  decide +kernel

/-- The buffer of the first page cannot be allocated.  The size of the second one is no word: checks
stop the program, and without them a buffer of sixteen cells is allocated, which a column runs past
the end of.  A stream that is too long moves the head past the last row that is a word. -/
theorem scan_panics :
    let column : List UInt8 := [0x1B, 0x2A, 0x00, 0x01, 0x00, 0xFF]
    let large : Page := ⟨"large", 4294967296, 2147483648, 10, 34⟩
    let tall : Page := ⟨"tall", 2, 9223372036854775816, 10, 34⟩
    (Scanner.scan .checked large column.toArray = .error .capacity ∧
        Scanner.scan .wrapping large column.toArray = .error .capacity) ∧
      (Scanner.scan .checked tall column.toArray = .error .product ∧
        Scanner.scan .wrapping tall column.toArray = .error (.index 16 16)) ∧
      decodeIn .checked ⟨"steep", 1, 1, 0, 255⟩ (List.replicate (2 ^ 58) Control.lineFeed) =
        .error .sum :=
  ⟨⟨rfl, rfl⟩, ⟨rfl, rfl⟩, decodeIn_of_long (by decide) rfl (by decide)⟩

end DotMatrix
