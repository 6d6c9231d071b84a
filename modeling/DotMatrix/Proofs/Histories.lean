import DotMatrix.Proofs.Addressing
import DotMatrix.Proofs.Clipping

/-!
# A canvas remembers its ink and no more

A canvas keeps a flat buffer and two extents, and every painting changes each of them on its own.
Here they are tied together over any history: single cells and bit images, in any order, on the page
or off it, one over the other.

What holds of one stroke is known.  It paints cells (`Painted`), so that the two colours and the
true extents survive it, and it inks the cells of the page that it marks.  By induction so does a
history (`ink_drawAll`).

The crux is the converse, `eq_of_ink`: two canvases of one page with the same ink are the same
canvas, buffer and extents included.  A place in the buffer is a cell of the page (`getElem_cells`),
and on two colours a cell is known by its ink; extents are known by the ink because they are
reached.  So nothing of a history is left but the set of cells that it has marked.

In memory the same is done by index and in words.  If the buffer of the page can be allocated and
the coordinates of every strike are words (`Stroke.Reaches`), no stroke of a history panics, and the
memory is that of the canvas (`memory_drawAll`).
-/

namespace DotMatrix

/-! ## Strokes -/

/-- Something that is done to a canvas. -/
inductive Stroke where
  /-- One cell is painted. -/
  | cell (x y : Nat)
  /-- A bit image is struck with the head at a position. -/
  | image (head : Position) (i : BitImage)

/-- The stroke marks the cell, be there a page under it or not. -/
def Stroke.Marks : Stroke → Nat → Nat → Prop
  | cell u v, x, y => x = u ∧ y = v
  | image head i, x, y => Struck (i.payload.take i.declared) head x y

namespace Canvas

def draw (c : Canvas) : Stroke → Canvas
  | .cell x y => c.paint x y
  | .image head i => c.strike head i

/-- The canvas after a history of strokes. -/
def drawAll (c : Canvas) (history : List Stroke) : Canvas := history.foldl draw c

theorem painted_draw (c : Canvas) (s : Stroke) : Painted c (c.draw s) := by
  cases s with
  | cell x y => exact Painted.refl.paint x y
  | image head i => exact painted_strike c head i

theorem ink_draw (c : Canvas) (s : Stroke) (x y : Nat) :
    (c.draw s).ink x y = true ↔ c.ink x y = true ∨ c.page.Contains x y ∧ s.Marks x y := by
  cases s with
  | cell u v => exact ink_paint c u v x y
  | image head i => exact ink_strike c head i x y

theorem painted_drawAll (c : Canvas) (history : List Stroke) : Painted c (c.drawAll history) := by
  induction history generalizing c with
  | nil => exact .refl
  | cons s history ih => exact (painted_draw c s).trans (ih (c.draw s))

/-- A history inks the cells of the page that its strokes mark. -/
theorem ink_drawAll (c : Canvas) (history : List Stroke) (x y : Nat) :
    (c.drawAll history).ink x y = true ↔
      c.ink x y = true ∨ c.page.Contains x y ∧ ∃ s ∈ history, s.Marks x y := by
  induction history generalizing c with
  | nil => simp [drawAll]
  | cons s history ih =>
    show ((c.draw s).drawAll history).ink x y = true ↔ _
    rw [ih, ink_draw, (painted_draw c s).page, or_assoc, ← and_or_left]
    simp only [List.mem_cons, exists_eq_or_imp]

/-! ## The ink says it all -/

/-- Every place in the buffer is a cell of the page. -/
theorem getElem_cells (c : Canvas) {i : Nat} (place : i < c.cells.size) :
    c.cells[i] = c.cell (i % c.page.width) (i / c.page.width) := by
  have below : i < c.page.width * c.page.height := lt_of_lt_of_eq place c.size_eq
  have wide : 0 < c.page.width := Nat.pos_of_lt_mul_right below
  have inside : c.page.Contains (i % c.page.width) (i / c.page.width) :=
    ⟨Nat.mod_lt i wide, Nat.div_lt_of_lt_mul below⟩
  have number : c.page.index (i % c.page.width) (i / c.page.width) = i := Nat.div_add_mod' i _
  simp only [cell, dif_pos inside, number]

theorem TwoColoured.eq_of_mem_cells {c : Canvas} (two : c.TwoColoured) {v : UInt8}
    (mem : v ∈ c.cells) : v = Palette.paper ∨ v = Palette.ink := by
  obtain ⟨i, place, rfl⟩ := Array.mem_iff_getElem.mp mem
  rw [getElem_cells c place]
  exact two _ _

/-- More ink reaches no less far. -/
theorem Tight.extents_le {c d : Canvas} (hc : c.Tight) (hd : d.Tight)
    (more : ∀ x y, c.ink x y = true → d.ink x y = true) : c.maxX ≤ d.maxX ∧ c.maxY ≤ d.maxY := by
  constructor
  · rcases hc.maxX_inked with zero | ⟨y, inked⟩
    · rw [zero]
      exact Nat.zero_le _
    · exact hd.le_maxX _ y (more _ y inked)
  · rcases hc.maxY_inked with zero | ⟨x, inked⟩
    · rw [zero]
      exact Nat.zero_le _
    · exact hd.le_maxY x _ (more x _ inked)

/-- A painted page is known by its ink. -/
theorem eq_of_ink {p : Page} {c d : Canvas} (hc : (blank p).Painted c) (hd : (blank p).Painted d)
    (same : ∀ x y, c.ink x y = true ↔ d.ink x y = true) : c = d := by
  have page : c.page = d.page := hc.page.trans hd.page.symm
  have cells : c.cells = d.cells := by
    refine Array.ext (by rw [c.size_eq, d.size_eq, page]) fun i hi hj => ?_
    have ink : ∀ x y, c.ink x y = d.ink x y := fun x y => Bool.eq_iff_iff.mpr (same x y)
    rw [getElem_cells c hi, getElem_cells d hj, page,
      (hc.twoColoured (twoColoured_blank p)).cell_eq,
      (hd.twoColoured (twoColoured_blank p)).cell_eq, ink]
  have tightC := hc.tight (tight_blank p)
  have tightD := hd.tight (tight_blank p)
  obtain ⟨leX, leY⟩ := tightC.extents_le tightD fun x y => (same x y).mp
  obtain ⟨geX, geY⟩ := tightD.extents_le tightC fun x y => (same x y).mpr
  exact Canvas.ext page cells (Nat.le_antisymm leX geX) (Nat.le_antisymm leY geY)

/-- Any history of a canvas.  The buffer of a page keeps its length and its two colours.  A cell
is inked exactly if it is in the page and some stroke of the history marks it, and the extents are
the largest inked column and row, both zero if there is no ink.  Another history that marks the same
cells of the page leaves the same canvas, and so the same picture. -/
theorem drawAll_blank (p : Page) (history : List Stroke) :
    let c := (blank p).drawAll history
    c.page = p ∧
      c.cells.size = p.width * p.height ∧
      (∀ v ∈ c.cells, v = Palette.paper ∨ v = Palette.ink) ∧
      (∀ x y, c.ink x y = true ↔ p.Contains x y ∧ ∃ s ∈ history, s.Marks x y) ∧
      ((c.maxX = 0 ∧ c.maxY = 0 ∧ ∀ x y, ¬c.ink x y = true) ∨
        IsGreatest {x | ∃ y, c.ink x y = true} c.maxX ∧
          IsGreatest {y | ∃ x, c.ink x y = true} c.maxY) ∧
      ∀ other : List Stroke,
        (∀ x y, p.Contains x y →
          ((∃ s ∈ history, s.Marks x y) ↔ ∃ s ∈ other, s.Marks x y)) →
        (blank p).drawAll other = c ∧ ((blank p).drawAll other).cropped? = c.cropped? := by
  intro c
  have painted : ∀ ss, (blank p).Painted ((blank p).drawAll ss) := painted_drawAll (blank p)
  have ink : ∀ ss x y, ((blank p).drawAll ss).ink x y = true ↔
      p.Contains x y ∧ ∃ s ∈ ss, s.Marks x y := by
    intro ss x y
    rw [ink_drawAll, or_iff_right (not_ink_blank p x y), page_blank]
  have page : c.page = p := (painted history).page
  refine ⟨page, ?_, ?_, ink history, ((painted history).tight (tight_blank p)).extents, ?_⟩
  · rw [c.size_eq, page, Page.area]
  · exact fun v => ((painted history).twoColoured (twoColoured_blank p)).eq_of_mem_cells
  · intro other same
    have equal : (blank p).drawAll other = c := by
      refine eq_of_ink (painted other) (painted history) fun x y => ?_
      rw [ink, ink, and_congr_right (same x y)]
    exact ⟨equal, congrArg cropped? equal⟩

end Canvas

/-! ## In memory -/

/-- The coordinates of a stroke are words.  For a cell that is painted nothing is made. -/
def Stroke.Reaches (b : Build) : Stroke → Prop
  | cell _ _ => True
  | image head i => b.Reaches head (i.payload.take i.declared).length

namespace Memory

variable (b : Build)

/-- Do something to the page. -/
def draw (m : Memory) : Stroke → Except Panic Memory
  | .cell x y => m.paint b x y
  | .image head i => do
    let (m, _) ← m.strikeColumns b head.x head.y (i.payload.take i.declared)
    return m

/-- Do one thing after the other. -/
def drawAll (m : Memory) (history : List Stroke) : Except Panic Memory := history.foldlM (draw b) m

end Memory

namespace Canvas

variable {c : Canvas} (b : Build)

theorem memory_draw (room : c.page.Allocatable) {s : Stroke} (reaches : s.Reaches b) :
    c.memory.draw b s = .ok (c.draw s).memory := by
  cases s with
  | cell x y => exact memory_paint b room x y
  | image head i => exact bind_of_ok (memory_strikeColumns b room reaches) _

theorem memory_drawAll (room : c.page.Allocatable) {history : List Stroke}
    (reaches : ∀ s ∈ history, s.Reaches b) :
    c.memory.drawAll b history = .ok (c.drawAll history).memory := by
  refine foldlM_eq_ok memory (fun d => d.page = c.page) (fun d page s mem => ?_) rfl
  exact ⟨memory_draw b (by rwa [page]) (reaches s mem), (painted_draw d s).page.trans page⟩

end Canvas

/-- **Any history of a page in memory.**  The buffer of the page can be allocated, and no stroke of
a history panics whose coordinates are words.  The buffer keeps its length and its two colours.  A
cell can be asked for anywhere, and it is inked exactly if it is in the page and some stroke of the
history marks it.  The extents are the largest inked column and row, both zero if there is no ink.
Another history that marks the same cells of the page leaves the same memory, and so the same
picture. -/
theorem Memory.drawAll_allocate (b : Build) (p : Page) (room : p.Allocatable)
    (history : List Stroke) (reaches : ∀ s ∈ history, s.Reaches b) :
    ∃ paper m, allocate b p = .ok paper ∧ paper.drawAll b history = .ok m ∧
      m.page = p ∧
      m.cells.size = p.width * p.height ∧
      (∀ v ∈ m.cells, v = Palette.paper ∨ v = Palette.ink) ∧
      (∀ x y, ∃ inked, m.ink b x y = .ok inked ∧
        (inked = true ↔ p.Contains x y ∧ ∃ s ∈ history, s.Marks x y)) ∧
      ((m.maxX = 0 ∧ m.maxY = 0 ∧ ∀ x y, m.ink b x y = .ok false) ∨
        IsGreatest {x | ∃ y, m.ink b x y = .ok true} m.maxX ∧
          IsGreatest {y | ∃ x, m.ink b x y = .ok true} m.maxY) ∧
      ∀ other : List Stroke, (∀ s ∈ other, s.Reaches b) →
        (∀ x y, p.Contains x y →
          ((∃ s ∈ history, s.Marks x y) ↔ ∃ s ∈ other, s.Marks x y)) →
        ∃ n, paper.drawAll b other = .ok n ∧ n = m ∧ n.crop b = m.crop b := by
  have roomBlank : (Canvas.blank p).page.Allocatable := room
  obtain ⟨page, size, colours, inked, extents, determined⟩ := Canvas.drawAll_blank p history
  have roomAfter : ((Canvas.blank p).drawAll history).page.Allocatable := by rwa [page]
  have ink : ∀ x y, ((Canvas.blank p).drawAll history).memory.ink b x y = _ :=
    Canvas.memory_ink b roomAfter
  refine ⟨_, _, Canvas.allocate_eq b room, Canvas.memory_drawAll b roomBlank reaches, page, size,
    colours, fun x y => ⟨_, ink x y, inked x y⟩, ?_, fun other reachesOther same => ?_⟩
  · simp only [ink, Except.ok.injEq]
    simp only [Bool.not_eq_true] at extents
    exact extents
  · obtain ⟨equal, -⟩ := determined other same
    refine ⟨_, Canvas.memory_drawAll b roomBlank reachesOther, ?_, ?_⟩ <;> rw [equal]

/-- Three columns at the edge of a page, over a cell that was painted, and the same the other way
round. -/
theorem Memory.drawAll_allocate_narrow :
    let p : Page := ⟨"narrow", 8, 12, 1, 34⟩
    let cell : Stroke := .cell 7 4
    let image : Stroke := .image ⟨7, 4⟩ ⟨.double, ⟨3, 0⟩, [0x80, 0xFF, 0xFF]⟩
    p.Allocatable ∧ (∀ s ∈ [cell, image], s.Reaches .checked) ∧
      ∃ paper m, allocate .checked p = .ok paper ∧
        paper.drawAll .checked [cell, image] = .ok m ∧ m.cells.size = 96 ∧
        (∀ x y, ∃ inked, m.ink .checked x y = .ok inked ∧
          (inked = true ↔ p.Contains x y ∧ ∃ s ∈ [cell, image], s.Marks x y)) ∧
        ∃ n, paper.drawAll .checked [image, cell] = .ok n ∧ n = m := by
  intro p cell image
  have room : p.Allocatable := by decide
  have reaches : image.Reaches .checked := ⟨by decide, by decide, fun _ => by decide⟩
  have all : ∀ s ∈ [cell, image], s.Reaches .checked := by
    simpa using ⟨trivial, reaches⟩
  have swapped : ∀ s ∈ [image, cell], s.Reaches .checked := by
    simpa using ⟨reaches, trivial⟩
  obtain ⟨paper, m, allocated, drawn, -, size, -, ink, -, other⟩ :=
    drawAll_allocate .checked p room [cell, image] all
  obtain ⟨n, drawnSwapped, same, -⟩ := other [image, cell] swapped fun x y _ => by
    simp [or_comm]
  exact ⟨room, all, paper, m, allocated, drawn, size, ink, n, drawnSwapped, same⟩

/-- A page whose buffer cannot be allocated.  On a page that can, two columns from the last column
on that is a word: without checks the second of them is struck in the first column of the page.  And
a column down to the last row that is a word: checks stop the program at the row below. -/
theorem Memory.drawAll_overflow :
    let large : Page := ⟨"large", 4294967296, 2147483648, 1, 34⟩
    let p : Page := ⟨"small", 20, 20, 1, 34⟩
    let right : Stroke := .image ⟨18446744073709551615, 0⟩ ⟨.double, ⟨2, 0⟩, [0xFF, 0xFF]⟩
    let low : Stroke := .image ⟨0, 18446744073709551600⟩ ⟨.double, ⟨1, 0⟩, [0xFF]⟩
    allocate .checked large = .error .capacity ∧ allocate .wrapping large = .error .capacity ∧
      ((do (← (← allocate .wrapping p).drawAll .wrapping [right]).ink .wrapping 0 0) = .ok true ∧
        ¬right.Marks 0 0) ∧
      (do (← (← allocate .checked p).drawAll .checked [low]).ink .checked 0 0) = .error .sum := by
  refine ⟨rfl, rfl, ⟨by decide +kernel, ?_⟩, by decide +kernel⟩
  rintro ⟨k, -, column, -⟩
  simp only at column
  omega

end DotMatrix
