import DotMatrix.Printout
import DotMatrix.Proofs.Rendering
import DotMatrix.Proofs.Scanning

/-!
# What a machine prints

A machine decodes a stream by scanning it into its memory, with words for numbers.  On a page whose
buffer can be allocated and on a short stream it has in the end what `decode` has (`decodeIn_eq`),
and if the border past the ink ends in a word, it crops and renders the page like `render`
(`renderIn_eq`), as it does on the A4 page of the command (`renderIn_a4`).  So what is known about
the decode holds of the machine, in a build with checks and in one without, and the first thing that
is taken over is that a page only clips (`decodeIn_clips`).

The bound on the page is not one of the proof.  A larger page is not allocated, and where the size
of its buffer is no word either, a build without checks allocates a wrong one and runs past its end.
-/

namespace DotMatrix

/-- What a machine has of a decode. -/
def Decoded.printout (d : Decoded) : Printout := ⟨d.canvas.memory, d.report, d.log⟩

variable {p : Page} {s : List UInt8} (b : Build)

/-- A machine decodes what `decode` decodes. -/
theorem decodeIn_eq (room : p.Allocatable) (short : s.length ≤ 2 ^ 57) :
    decodeIn b p s = .ok (decode p s).printout := by
  obtain ⟨memory, report, log⟩ := atEnd_eq_decode p s
  rw [decodeIn, bind_of_ok (scan_eq b room short), memory, List.size_toArray, report, log]
  rfl

theorem allocatable_decode (room : p.Allocatable) : (decode p s).canvas.page.Allocatable := by
  rwa [page_decode]

theorem cropIn_eq (room : p.Allocatable) (short : s.length ≤ 2 ^ 57)
    (border : (decode p s).canvas.BorderFits) :
    cropIn b p s = .ok ((decode p s).printout, (decode p s).bitmap?) := by
  have crop : (decode p s).printout.memory.crop b = .ok (decode p s).bitmap? :=
    Canvas.memory_crop b (allocatable_decode room) border
  rw [cropIn, bind_of_ok (decodeIn_eq b room short)]
  exact bind_of_ok crop _

/-- **The machine renders as `render` does**, into any sink. -/
theorem renderIn_eq {m : Type → Type} [Monad m] [LawfulMonad m] (room : p.Allocatable)
    (short : s.length ≤ 2 ^ 57) (border : (decode p s).canvas.BorderFits)
    (sink : Bitmap → m (Outcome Unit)) :
    renderIn b p s sink = Except.ok <$> render p s sink := by
  rw [renderIn, cropIn_eq b room short border, render]
  cases (decode p s).bitmap? <;> simp [Decoded.printout]

/-- The ink is on the page, so the border past it ends in a word if the border past the page
does. -/
theorem borderFits_decode (s : List UInt8) (wide : p.width + p.border < 2 ^ 64)
    (high : p.height + p.border < 2 ^ 64) : (decode p s).canvas.BorderFits := by
  intro busy
  obtain ⟨busyX, busyY⟩ := not_or.mp busy
  have tight := tight_decode p s
  obtain ⟨v, inkedX⟩ := tight.maxX_inked.resolve_left busyX
  obtain ⟨u, inkedY⟩ := tight.maxY_inked.resolve_left busyY
  have column := (Canvas.contains_of_ink inkedX).1
  have row := (Canvas.contains_of_ink inkedY).2
  rw [page_decode] at column row ⊢
  omega

/-- The page of the command is small enough for every short stream. -/
theorem renderIn_a4 {m : Type → Type} [Monad m] [LawfulMonad m] (short : s.length ≤ 2 ^ 57)
    (sink : Bitmap → m (Outcome Unit)) :
    renderIn b .a4 s sink = Except.ok <$> render .a4 s sink :=
  renderIn_eq b (by decide) short (borderFits_decode s (by decide) (by decide)) sink

/-! ## Two pages -/

/-- A printout has the cells that fall on its page. -/
structure Printout.Catches (m : Printout) (p : Page) (cells : Nat → Nat → Prop) : Prop where
  /-- A cell is inked exactly if it is one of them, and it can be asked for anywhere. -/
  ink : ∀ x y, ∃ inked, m.memory.ink b x y = .ok inked ∧
    (inked = true ↔ p.Contains x y ∧ cells x y)
  /-- The extents are theirs. -/
  extents : p.Extents cells m.memory.maxX m.memory.maxY
  /-- So are the extents in the report. -/
  report : m.report.maxX = m.memory.maxX ∧ m.report.maxY = m.memory.maxY

theorem catches_printout (room : p.Allocatable) (s : List UInt8) :
    (decode p s).printout.Catches b p (Walk.ofStream p.pitch s).Strikes where
  ink x y := ⟨_, Canvas.memory_ink b (allocatable_decode room) x y, ink_decode p s x y⟩
  extents := extents_decode p s
  report := ⟨rfl, rfl⟩

/-- **Pages only clip.**  A machine decodes a short stream onto any two pages with the same pitch
whose buffers can be allocated.  The reports are the same, apart from the extents.  A cell on both
pages has the same colour on both, and on either page the ink and the extents are those of the
struck cells that fall on it. -/
theorem decodeIn_clips (s : List UInt8) (short : s.length ≤ 2 ^ 57) (p q : Page)
    (same : p.pitch = q.pitch) (roomP : p.Allocatable) (roomQ : q.Allocatable) :
    let w := Walk.ofStream p.pitch s
    ∃ m n, decodeIn b p s = .ok m ∧ decodeIn b q s = .ok n ∧
      n.report = { m.report with maxX := n.report.maxX, maxY := n.report.maxY } ∧
      (∀ x y, p.Contains x y → q.Contains x y → m.memory.ink b x y = n.memory.ink b x y) ∧
      m.Catches b p w.Strikes ∧ n.Catches b q w.Strikes := by
  intro w
  refine ⟨_, _, decodeIn_eq b roomP short, decodeIn_eq b roomQ short, report_decode_congr same s,
    ?_, catches_printout b roomP s, ?_⟩
  · intro x y insideP insideQ
    have inked : (decode p s).canvas.ink x y = (decode q s).canvas.ink x y := by
      rw [Bool.eq_iff_iff, ink_decode, ink_decode, same, and_iff_right insideP,
        and_iff_right insideQ]
    have inP := Canvas.memory_ink b (allocatable_decode (s := s) roomP) x y
    have inQ := Canvas.memory_ink b (allocatable_decode (s := s) roomQ) x y
    exact (inP.trans (congrArg Except.ok inked)).trans inQ.symm
  · have catches := catches_printout b roomQ s
    rwa [← same] at catches

/-- A page of two columns, on which the third column is lost, and a page without any cell. -/
theorem decodeIn_clips_narrow :
    let s : List UInt8 := [0x1B, 0x4C, 0x03, 0x00, 0x80, 0xC0, 0xFF, 0x0A, 0x41]
    let p : Page := ⟨"narrow", 2, 40, 1, 34⟩
    let q : Page := ⟨"none", 0, 7, 0, 34⟩
    let w := Walk.ofStream p.pitch s
    s.length ≤ 2 ^ 57 ∧ p.pitch = q.pitch ∧ p.Allocatable ∧ q.Allocatable ∧
      (decode p s).report.maxX = 1 ∧ (decode p s).report.maxY = 3 ∧
      (decode q s).report.maxX = 0 ∧ (decode q s).report.cursor = ⟨0, 17⟩ ∧
      ∃ m n, decodeIn .checked p s = .ok m ∧ decodeIn .checked q s = .ok n ∧
        n.report = { m.report with maxX := n.report.maxX, maxY := n.report.maxY } ∧
        (∀ x y, p.Contains x y → q.Contains x y →
          m.memory.ink .checked x y = n.memory.ink .checked x y) ∧
        m.Catches .checked p w.Strikes ∧ n.Catches .checked q w.Strikes :=
  ⟨by decide, rfl, by decide, by decide, by decide +kernel, by decide +kernel, by decide +kernel,
    by decide +kernel, decodeIn_clips _ _ (by decide) _ _ rfl (by decide) (by decide)⟩

/-! ## What is too large -/

/-- A page whose size is a word, but whose buffer cannot be allocated, stops every decode. -/
theorem decodeIn_of_large (s : List UInt8) (word : p.area < 2 ^ 64) (large : ¬p.Allocatable) :
    decodeIn b p s = .error .capacity := by
  have area : b.mul p.width p.height = .ok p.area := b.mul_of_lt word
  have reserved : reserve p.area = .error .capacity := if_pos (Nat.not_le.mp large)
  have allocate : Memory.allocate b p = .error .capacity := by
    rw [Memory.allocate, bind_of_ok area]
    exact bind_of_error reserved _
  have start : Scanner.start b p = .error .capacity := bind_of_error allocate _
  have scan : Scanner.scan b p s.toArray = .error .capacity := bind_of_error start _
  exact bind_of_error scan _

/-- The scanner of a page behind some line feeds in the greatest pitch. -/
def Page.fed (p : Page) (n : Nat) : Scanner :=
  ⟨n, false, ⟨⟨0, 127 * n⟩, 255⟩, (Canvas.blank p).memory, 0, 0, n, #[], #[]⟩

/-- One more line feed, as long as the row below is a word. -/
theorem turn_fed (p : Page) {n k : Nat} (inside : k < n) :
    (p.fed k).turn .checked (List.replicate n Control.lineFeed).toArray =
      if 127 * k + 127 < 2 ^ 64 then .ok (p.fed (k + 1)) else .error .sum := by
  have drop : (List.replicate n Control.lineFeed).drop k =
      Control.lineFeed :: List.replicate (n - k - 1) Control.lineFeed := by
    rw [List.drop_replicate, ← List.replicate_succ]
    congr 1
    omega
  have feed : (p.fed k).turn .checked (List.replicate n Control.lineFeed).toArray =
      (p.fed k).feed .checked := bind_of_ok (load_of_drop drop) _
  have advance : Head.advance (p.fed k).head.pitch = 127 := by
    show Head.advance 255 = 127
    decide
  rw [feed, Scanner.feed, advance]
  by_cases row : 127 * k + 127 < 2 ^ 64
  · have y : Build.checked.add (p.fed k).head.y 127 = .ok (127 * k + 127) := Build.add_of_lt _ row
    have next : Build.checked.add k 1 = .ok (k + 1) := Build.add_of_lt _ (by omega)
    rw [if_pos row, bind_of_ok y]
    exact (bind_of_ok next _).trans (bind_of_ok next _)
  · have y : Build.checked.add (p.fed k).head.y 127 = .error .sum := if_neg row
    rw [if_neg row, bind_of_error y]

/-- A stream of line feeds that is long enough moves the head past the last row that is a word.
Checks stop the program there. -/
theorem decodeIn_of_long (room : p.Allocatable) (steep : p.pitch = 255) {n : Nat}
    (long : 2 ^ 64 ≤ 127 * n) :
    decodeIn .checked p (List.replicate n Control.lineFeed) = .error .sum := by
  have run : ∀ k j, k + j = n → 127 * k < 2 ^ 64 →
      (Scanner.run .checked (List.replicate n Control.lineFeed).toArray j (p.fed k)) =
        .error .sum := by
    intro k j
    induction j generalizing k with
    | zero => intro all row; omega
    | succ j ih =>
      intro all row
      have running : (p.fed k).Running (List.replicate n Control.lineFeed).toArray := by
        refine ⟨rfl, ?_⟩
        rw [List.size_toArray, List.length_replicate]
        show k < n
        omega
      refine (if_pos running).trans ?_
      rw [turn_fed p (show k < n by omega)]
      split
      · exact ih (k + 1) (by omega) (by omega)
      · rfl
  have start : Scanner.start .checked p = .ok (p.fed 0) := by
    rw [start_eq .checked room]
    show Except.ok (Scanner.mk 0 false (.home p.pitch) _ 0 0 0 #[] #[]) = _
    rw [steep]
    rfl
  refine bind_of_error ?_ _
  rw [Scanner.scan, bind_of_ok start, List.size_toArray, List.length_replicate]
  exact run 0 n (Nat.zero_add n) (by omega)

/-- An A4 sheet shows the columns of a stream, and a page with the same pitch that cannot be
allocated has no report.  On a page of one cell, no report is made of a stream that is too long. -/
theorem decodeIn_large :
    let s : List UInt8 := [0x1B, 0x2A, 0x00, 0x02, 0x00, 0x00, 0xFF]
    let p : Page := ⟨"large", 4294967296, 2147483648, 10, 34⟩
    p.pitch = Page.a4.pitch ∧
      (∃ m, decodeIn .checked .a4 s = .ok m) ∧ decodeIn .checked p s = .error .capacity ∧
      (∃ m, decodeIn .wrapping .a4 s = .ok m) ∧ decodeIn .wrapping p s = .error .capacity ∧
      decodeIn .checked ⟨"steep", 1, 1, 0, 255⟩ (List.replicate (2 ^ 58) Control.lineFeed) =
        .error .sum := by
  intro s p
  have short : s.length ≤ 2 ^ 57 := by decide
  have word : p.area < 2 ^ 64 := by decide
  have large : ¬p.Allocatable := by decide
  exact ⟨rfl, ⟨_, decodeIn_eq .checked (by decide) short⟩, decodeIn_of_large .checked s word large,
    ⟨_, decodeIn_eq .wrapping (by decide) short⟩, decodeIn_of_large .wrapping s word large,
    decodeIn_of_long (by decide) rfl (by decide)⟩

end DotMatrix
