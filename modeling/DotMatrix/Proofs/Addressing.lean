import DotMatrix.Memory
import DotMatrix.Proofs.Ink
import Mathlib.Algebra.Group.Nat.Defs
import Mathlib.Data.List.OfFn

/-!
# Access by index

A canvas looks a cell up by its column and row, and none of its numbers can be too large.  Memory is
indexed, by words that a build has made, and both can go wrong.  Here they do not: for each
operation one lemma says that it ends without a panic and leaves what the operation on the canvas
leaves.

Three things are asked for, and each is asked for where it is needed.

* The buffer of the page can be allocated (`Page.Allocatable`).  Then every index of a cell of the
  page is a word, and painting past the edge has no index at all, since the edge is looked at first.
* The columns and rows of a strike are words (`Build.Reaches`).  A build with checks makes one more
  row than it paints, that below the last dot.
* The border past the ink ends in a word (`Canvas.BorderFits`).  If it does not, the crop of a build
  without checks is a wrong one, but its rows are inside the buffer all the same
  (`Canvas.memory_crop_or`).

A loop goes through `foldlM_eq_ok`: if no step panics, it does not.
-/

namespace DotMatrix

/-- A loop without a panic in any step ends without one.  The steps `f` do to the view of a state
what the steps `g` do to the state, as long as an invariant holds. -/
theorem foldlM_eq_ok {α β γ : Type} {f : β → α → Except Panic β} {g : γ → α → γ}
    {as : List α} (view : γ → β) (Holds : γ → Prop)
    (step : ∀ c, Holds c → ∀ a ∈ as, f (view c) a = .ok (view (g c a)) ∧ Holds (g c a)) {c : γ}
    (start : Holds c) : as.foldlM f (view c) = .ok (view (as.foldl g c)) := by
  induction as generalizing c with
  | nil => rfl
  | cons a as ih =>
    obtain ⟨done, holds⟩ := step c start a List.mem_cons_self
    rw [List.foldlM_cons, done, List.foldl_cons]
    exact ih (fun c holds b mem => step c holds b (List.mem_cons_of_mem a mem)) holds

namespace Page

/-- A buffer for the page can be allocated. -/
def Allocatable (p : Page) : Prop := p.area ≤ capacityLimit

instance (p : Page) : Decidable p.Allocatable :=
  inferInstanceAs (Decidable (p.area ≤ capacityLimit))

/-- The edge of a page is looked at before an index is made. -/
theorem not_contains_iff (p : Page) (x y : Nat) :
    ¬p.Contains x y ↔ p.width ≤ x ∨ p.height ≤ y := by
  rw [Page.Contains, not_and_or, Nat.not_lt, Nat.not_lt]

theorem Contains.not_outside {p : Page} {x y : Nat} (inside : p.Contains x y) :
    ¬(p.width ≤ x ∨ p.height ≤ y) :=
  mt (p.not_contains_iff x y).mpr (not_not_intro inside)

/-- A cell of the page has an index that is a word. -/
theorem Allocatable.place_eq {p : Page} (room : p.Allocatable) (b : Build) {x y : Nat}
    (inside : p.Contains x y) : Memory.place b p x y = .ok (p.index x y) := by
  have limit : p.area ≤ 9223372036854775807 := room
  have index : y * p.width + x < p.area := index_lt_area inside
  rw [Memory.place, bind_of_ok (b.mul_of_lt (by omega))]
  exact b.add_of_lt (by omega)

end Page

namespace Canvas

/-- A canvas without its proof. -/
def memory (c : Canvas) : Memory := ⟨c.page, c.cells, c.maxX, c.maxY⟩

@[simp] theorem page_memory (c : Canvas) : c.memory.page = c.page := rfl

@[simp] theorem cells_memory (c : Canvas) : c.memory.cells = c.cells := rfl

variable {c : Canvas} (b : Build)

theorem allocate_eq {p : Page} (room : p.Allocatable) :
    Memory.allocate b p = .ok (blank p).memory := by
  have limit : p.width * p.height ≤ 9223372036854775807 := room
  rw [Memory.allocate, bind_of_ok (b.mul_of_lt (by omega)), bind_of_ok (reserve_of_le limit)]
  rfl

/-! ## Painting and reading -/

/-- A cell of the page has its index in the memory. -/
theorem index_lt_size (c : Canvas) {x y : Nat} (inside : c.page.Contains x y) :
    c.page.index x y < c.cells.size := by
  rw [c.size_eq]
  exact Page.index_lt_area inside

theorem memory_paint (room : c.page.Allocatable) (x y : Nat) :
    c.memory.paint b x y = .ok (c.paint x y).memory := by
  by_cases inside : c.page.Contains x y
  · have place := c.index_lt_size inside
    have cells : c.cells.modify (c.page.index x y) (fun _ => Palette.ink) =
        c.cells.set (c.page.index x y) Palette.ink place := by
      refine Array.ext (by simp) fun i _ _ => ?_
      rw [Array.getElem_modify, Array.getElem_set]
    refine (if_neg inside.not_outside).trans ?_
    rw [bind_of_ok (room.place_eq b inside), bind_of_ok (store_of_lt place _), cells, paint,
      dif_pos inside]
    rfl
  · rw [paint_of_not_contains inside]
    exact if_pos ((c.page.not_contains_iff x y).mp inside)

theorem memory_ink (room : c.page.Allocatable) (x y : Nat) :
    c.memory.ink b x y = .ok (c.ink x y) := by
  by_cases inside : c.page.Contains x y
  · refine (if_neg inside.not_outside).trans ?_
    rw [page_memory, cells_memory, bind_of_ok (room.place_eq b inside),
      bind_of_ok (load_of_lt (c.index_lt_size inside)), ink, cell, dif_pos inside]
    rfl
  · rw [ink, cell, dif_neg inside]
    exact if_pos ((c.page.not_contains_iff x y).mp inside)

end Canvas

/-! ## Striking -/

/-- The coordinates of some columns that are struck with the head at a position are words. -/
structure Build.Reaches (b : Build) (head : Position) (columns : Nat) : Prop where
  /-- The columns, and the one past them. -/
  column : head.x + columns < 2 ^ 64
  /-- The rows. -/
  row : head.y + 15 < 2 ^ 64
  /-- The row below them, which only checks can notice. -/
  below : b = .checked → head.y + 16 < 2 ^ 64

namespace Canvas

variable {c : Canvas} (b : Build)

theorem memory_strikeDot (room : c.page.Allocatable) (x : Nat) {y : Nat} (row : y + 1 < 2 ^ 64)
    (set : Bool) :
    c.memory.strikeDot b x y set = .ok (if set then c.strikeDot x y else c).memory := by
  cases set with
  | false => rfl
  | true =>
    show (do (← c.memory.paint b x y).paint b x (← b.add y 1)) = Except.ok (c.strikeDot x y).memory
    rw [bind_of_ok (memory_paint b room x y), bind_of_ok (b.add_of_lt row)]
    exact memory_paint b (by rwa [page_paint]) x (y + 1)

/-- The row below the last dot is made and not used. -/
theorem memory_strikeDots (room : c.page.Allocatable) (x : Nat) (column : UInt8) {y k n : Nat}
    (row : y + 2 * (k + n) ≤ 2 ^ 64) (below : b = .checked → y + 2 * (k + n) < 2 ^ 64) :
    c.memory.strikeDots b x column (List.range' k n) (y + 2 * k) =
      .ok ((List.range' k n).foldl
        (fun c k => if Octet.dot column k then c.strikeDot x (y + Head.rowsPerDot * k) else c)
        c).memory := by
  induction n generalizing c k with
  | zero => rfl
  | succ n ih =>
    have struck := memory_strikeDot b room x (y := y + 2 * k) (by omega) (Octet.dot column k)
    have page : (if Octet.dot column k then c.strikeDot x (y + 2 * k) else c).page = c.page := by
      split
      · exact (painted_strikeDot c x _).page
      · rfl
    rw [List.range'_succ, Memory.strikeDots, List.foldl_cons, bind_of_ok struck]
    by_cases inside : y + 2 * k + 2 < 2 ^ 64
    · have next : b.add (y + 2 * k) Head.rowsPerDot = .ok (y + 2 * (k + 1)) := b.add_of_lt inside
      rw [bind_of_ok next]
      exact ih (by rwa [page]) (by omega) fun checks => by
        have := below checks
        omega
    · obtain rfl : n = 0 := by omega
      cases b with
      | checked => exact absurd (below rfl) (by omega)
      | wrapping =>
        obtain ⟨r, wrapped⟩ := Build.exists_fit_wrapping .sum (y + 2 * k + Head.rowsPerDot)
        rw [Build.add, bind_of_ok wrapped]
        rfl

/-- Columns are struck without a panic wherever their coordinates are words. -/
theorem memory_strikeColumns (room : c.page.Allocatable) {head : Position} {columns : List UInt8}
    (reaches : b.Reaches head columns.length) :
    c.memory.strikeColumns b head.x head.y columns =
      .ok ((c.strikeColumns head.x head.y columns).memory, head.x + columns.length) := by
  induction columns generalizing c head with
  | nil => rfl
  | cons column columns ih =>
    obtain ⟨right, row, below⟩ := reaches
    rw [List.length_cons] at right
    have struck : c.memory.strikeDots b head.x column (List.range Head.dotsPerColumn) head.y =
        .ok (c.strikeColumn head.x head.y column).memory := by
      have dots := memory_strikeDots b room head.x column (y := head.y) (k := 0) (n := 8)
        (by omega) below
      rwa [← List.range_eq_range'] at dots
    have page : (c.strikeColumn head.x head.y column).page = c.page :=
      (painted_strikeColumn c head.x head.y column).page
    rw [Memory.strikeColumns, bind_of_ok struck, bind_of_ok (b.add_of_lt (by omega)),
      strikeColumns, List.length_cons, ← Nat.add_assoc, Nat.add_right_comm]
    have next : b.Reaches ⟨head.x + 1, head.y⟩ columns.length :=
      ⟨by simp only; omega, row, below⟩
    exact ih (by rwa [page]) next

end Canvas

/-! ## Cropping -/

namespace Bitmap

/-- The pixels of a bitmap that is built cell by cell are its rows. -/
theorem toList_pixels_ofCells (w h : Nat) (cell : Nat → Nat → UInt8) :
    (ofCells w h cell).pixels.toList =
      (List.range h).flatMap fun y => List.ofFn fun x : Fin w => cell x y := by
  have rows : (List.range h).map (fun y => List.ofFn fun x : Fin w => cell x y) =
      List.ofFn fun y : Fin h => List.ofFn fun x : Fin w => cell x y :=
    List.ext_getElem (by simp) (by simp)
  have place : ∀ (y : Fin h) (x : Fin w),
      cell ((w * y + x) % w) ((w * y + x) / w) = cell x y := by
    intro y x
    rw [Nat.mul_comm w, place_mod x.isLt, place_div x.isLt]
  rw [ofCells, Array.toList_ofFn, List.ofFn_mul', List.flatMap_def, rows]
  simp only [place]

/-- The pixels of a bitmap fill it. -/
theorem fill_pixels (b : Bitmap) : fill b.width b.height b.pixels = .ok b := by
  have filled : ofPixels? b.width b.height b.pixels = some b := dif_pos b.size_eq
  rw [fill, filled]

end Bitmap

namespace Canvas

variable {c : Canvas} (b : Build)

/-- A row of the picture is inside the memory, as the picture is inside the page. -/
theorem slice_row (c : Canvas) {width y : Nat} (wide : width ≤ c.page.width)
    (inside : y * c.page.width + width ≤ c.page.area) (high : y < c.page.height) :
    slice c.cells (y * c.page.width) (y * c.page.width + width) =
      .ok (List.ofFn fun x : Fin width => c.cell x y).toArray := by
  rw [← c.size_eq] at inside
  rw [slice_of_le (Nat.le_add_right _ _) inside]
  refine congrArg Except.ok (Array.ext ?_ fun x hx hx' => ?_)
  · simp only [List.size_toArray, Array.size_extract, List.length_ofFn]
    omega
  · rw [List.size_toArray, List.length_ofFn] at hx'
    have contains : c.page.Contains x y := ⟨Nat.lt_of_lt_of_le hx' wide, high⟩
    simp only [List.getElem_toArray, Array.getElem_extract, List.getElem_ofFn, cell, contains,
      dite_true, Page.index]

theorem memory_rows (room : c.page.Allocatable) {width height : Nat} (wide : width ≤ c.page.width)
    (high : height ≤ c.page.height) :
    c.memory.rows b width height = .ok (Bitmap.ofCells width height c.cell).pixels := by
  have limit : c.page.area ≤ 9223372036854775807 := room
  have pixels : (Bitmap.ofCells width height c.cell).pixels =
      (Bitmap.ofCells width height c.cell).pixels.toList.toArray := Array.toArray_toList.symm
  rw [pixels, Bitmap.toList_pixels_ofCells, List.flatMap_eq_foldl]
  refine foldlM_eq_ok List.toArray (fun _ => True) (fun pixels _ y mem => ?_) trivial
  have inPage : y < c.page.height := Nat.lt_of_lt_of_le (List.mem_range.mp mem) high
  have inside : y * c.page.width + width ≤ c.page.area := by
    have rows : (y + 1) * c.page.width ≤ c.page.height * c.page.width :=
      Nat.mul_le_mul_right _ inPage
    rw [Nat.succ_mul] at rows
    rw [Page.area, Nat.mul_comm c.page.width]
    omega
  rw [page_memory, cells_memory, bind_of_ok (b.mul_of_lt (by omega)),
    bind_of_ok (b.add_of_lt (by omega)), bind_of_ok (c.slice_row wide inside inPage)]
  exact ⟨congrArg Except.ok (List.append_toArray _ _), trivial⟩

/-- A picture that is inside the page is cut out of it. -/
theorem memory_cut (room : c.page.Allocatable) {width height : Nat} (wide : width ≤ c.page.width)
    (high : height ≤ c.page.height) :
    c.memory.cut b width height = .ok (Bitmap.ofCells width height c.cell) := by
  have limit : c.page.area ≤ 9223372036854775807 := room
  have inside : width * height ≤ c.page.area := Nat.mul_le_mul wide high
  rw [Memory.cut, bind_of_ok (b.mul_of_lt (by omega)),
    bind_of_ok (reserve_of_le (Nat.le_trans inside limit)),
    bind_of_ok (memory_rows b room wide high)]
  exact (Bitmap.ofCells width height c.cell).fill_pixels

/-- The border past the ink ends in a word on both axes, if there is a picture at all. -/
def BorderFits (c : Canvas) : Prop :=
  ¬c.IsEmpty → c.maxX + 1 + c.page.border < 2 ^ 64 ∧ c.maxY + 1 + c.page.border < 2 ^ 64

instance (c : Canvas) : Decidable c.BorderFits :=
  inferInstanceAs (Decidable (¬c.IsEmpty →
    c.maxX + 1 + c.page.border < 2 ^ 64 ∧ c.maxY + 1 + c.page.border < 2 ^ 64))

theorem edge_eq {extent border size : Nat} (fits : extent + 1 + border < 2 ^ 64) :
    Memory.edge b extent border size = .ok (min (extent + 1 + border) size) := by
  rw [Memory.edge, bind_of_ok (b.add_of_lt (by omega)), bind_of_ok (b.add_of_lt fits)]
  rfl

/-- An end that is made is in the page.  Only checks keep it from being made. -/
theorem edge_or (extent border size : Nat) :
    (∃ n, n ≤ size ∧ Memory.edge b extent border size = .ok n) ∨
      b = .checked ∧ 2 ^ 64 ≤ extent + 1 + border ∧
        Memory.edge b extent border size = .error .sum := by
  by_cases fits : extent + 1 + border < 2 ^ 64
  · exact Or.inl ⟨_, Nat.min_le_right _ _, edge_eq b fits⟩
  · cases b with
    | wrapping =>
      obtain ⟨next, first⟩ := Build.exists_fit_wrapping .sum (extent + 1)
      obtain ⟨stop, second⟩ := Build.exists_fit_wrapping .sum (next + border)
      refine Or.inl ⟨_, Nat.min_le_right stop size, ?_⟩
      rw [Memory.edge, Build.add, bind_of_ok first, Build.add, bind_of_ok second]
      rfl
    | checked =>
      refine Or.inr ⟨rfl, Nat.not_lt.mp fits, ?_⟩
      rw [Memory.edge]
      by_cases next : extent + 1 < 2 ^ 64
      · rw [bind_of_ok (Build.add_of_lt _ next)]
        exact bind_of_error (if_neg fits) _
      · exact bind_of_error (if_neg next) _

theorem memory_crop_of_not_isEmpty (busy : ¬c.IsEmpty) :
    c.memory.crop b = (do
      let width ← Memory.edge b c.maxX c.page.border c.page.width
      let height ← Memory.edge b c.maxY c.page.border c.page.height
      return some (← c.memory.cut b width height)) :=
  if_neg busy

/-- Cropping stays inside the memory, and the rows it has taken fill the bitmap. -/
theorem memory_crop (room : c.page.Allocatable) (fits : c.BorderFits) :
    c.memory.crop b = .ok c.cropped? := by
  by_cases empty : c.IsEmpty
  · rw [cropped?, if_pos empty]
    exact if_pos empty
  · obtain ⟨wide, high⟩ := fits empty
    rw [cropped?, if_neg empty, memory_crop_of_not_isEmpty b empty,
      bind_of_ok (edge_eq b wide), bind_of_ok (edge_eq b high)]
    exact bind_of_ok (memory_cut b room (Nat.min_le_right _ _) (Nat.min_le_right _ _)) _

/-- Whatever the border is, cropping stays inside the memory, and there is a picture inside the page
or checks have stopped the program in front of it. -/
theorem memory_crop_or (room : c.page.Allocatable) :
    (∃ picture, c.memory.crop b = .ok picture ∧
        ∀ d ∈ picture, d.width ≤ c.page.width ∧ d.height ≤ c.page.height) ∨
      b = .checked ∧ ¬c.BorderFits ∧ c.memory.crop b = .error .sum := by
  by_cases empty : c.IsEmpty
  · exact Or.inl ⟨none, if_pos empty, fun _ nothing => nomatch nothing⟩
  · have crop := memory_crop_of_not_isEmpty b empty
    rcases edge_or b c.maxX c.page.border c.page.width with
      ⟨width, wide, first⟩ | ⟨checks, large, panic⟩
    · rcases edge_or b c.maxY c.page.border c.page.height with
        ⟨height, high, second⟩ | ⟨checks, large, panic⟩
      · refine Or.inl ⟨some (Bitmap.ofCells width height c.cell), ?_, ?_⟩
        · rw [crop, bind_of_ok first, bind_of_ok second]
          exact bind_of_ok (memory_cut b room wide high) _
        · rintro d ⟨⟩
          exact ⟨wide, high⟩
      · refine Or.inr ⟨checks, fun fits => absurd (fits empty).2 (Nat.not_lt.mpr large), ?_⟩
        rw [crop, bind_of_ok first]
        exact bind_of_error panic _
    · refine Or.inr ⟨checks, fun fits => absurd (fits empty).1 (Nat.not_lt.mpr large), ?_⟩
      rw [crop]
      exact bind_of_error panic _

end Canvas
end DotMatrix
