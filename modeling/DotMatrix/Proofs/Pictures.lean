import DotMatrix.Image.File
import DotMatrix.Proofs.Printouts
import DotMatrix.Proofs.Rendering

/-!
# Both picture formats carry the page

A GIF file stores a bitmap one byte to the pixel, a PNG file eight pixels to the byte.  What a file
has to hold for a bitmap is said by `Gif.Shows` and `Png.Stores`, for either format on its own and
as a reader of the file sees it: sizes are read out of the header, and packed rows are unpacked
(`PackedRows.unpacked`).

* `Bitmap.unpacked_packed`: unpacking gives back a bitmap of two colours.  Of other palette indexes
  nothing but the ink survives.
* `Gif.exists_shows` and `Png.exists_stores`: a bitmap of a legal size has a file of either format.
  No legal size is changed by the narrower numbers of a header.
* `pictures_decode`: the picture of a decode is of a legal size for both formats unless the page is
  larger than a GIF can be, because a crop has some ink and stays on the page.
* `pictures_cropIn`: a machine makes the same picture, as long as the border past the ink ends in a
  word.  The border is added before the page clips the crop, and so one that is too large stops the
  program or loses the picture (`cropIn_border_overflow`), although it ends far behind the page.
-/

namespace DotMatrix

/-! ## Reading packed rows back -/

/-- Packed rows read back, one palette index to the pixel. -/
def PackedRows.unpacked (p : PackedRows) : Bitmap :=
  .ofCells p.width p.height fun x y => if p.ink x y then Palette.ink else Palette.paper

namespace Bitmap

/-- Every place in the array is a pixel of the rectangle. -/
theorem getElem_pixels (b : Bitmap) {i : Nat} (place : i < b.pixels.size) :
    b.pixels[i] = b.get (i % b.width) (i / b.width) := by
  have below : i < b.width * b.height := lt_of_lt_of_eq place b.size_eq
  have wide : 0 < b.width := Nat.pos_of_lt_mul_right below
  have inside : i % b.width < b.width ∧ i / b.width < b.height :=
    ⟨Nat.mod_lt i wide, Nat.div_lt_of_lt_mul below⟩
  simp only [get, dif_pos inside, Nat.div_add_mod']

theorem getElem?_pixels (b : Bitmap) {x y : Nat} (hx : x < b.width) (hy : y < b.height) :
    b.pixels[y * b.width + x]? = some (b.get x y) := by
  have place : y * b.width + x < b.pixels.size := lt_of_lt_of_eq (place_lt hx hy) b.size_eq.symm
  rw [get, dif_pos ⟨hx, hy⟩, Array.getElem?_eq_getElem place]

/-- Bitmaps of one size are equal if their pixels are. -/
theorem eq_of_get {b c : Bitmap} (width : b.width = c.width) (height : b.height = c.height)
    (same : ∀ x y, x < b.width → y < b.height → b.get x y = c.get x y) : b = c := by
  refine Bitmap.ext width height (Array.ext (by rw [b.size_eq, c.size_eq, width, height]) ?_)
  intro i hi hj
  have below : i < b.width * b.height := lt_of_lt_of_eq hi b.size_eq
  rw [getElem_pixels b hi, getElem_pixels c hj, ← width]
  exact same _ _ (Nat.mod_lt i (Nat.pos_of_lt_mul_right below)) (Nat.div_lt_of_lt_mul below)

/-- Unpacking paints the ink and leaves paper everywhere else. -/
theorem get_unpacked_packed (b : Bitmap) {x y : Nat} (hx : x < b.width) (hy : y < b.height) :
    b.packed.unpacked.get x y = if b.ink x y then Palette.ink else Palette.paper := by
  rw [PackedRows.unpacked, width_packed, height_packed, get_ofCells _ hx hy, ink_packed]

theorem unpacked_packed {b : Bitmap} (two : ∀ v ∈ b.pixels, v = Palette.paper ∨ v = Palette.ink) :
    b.packed.unpacked = b := by
  refine eq_of_get rfl rfl fun x y hx hy => ?_
  have mem : b.get x y ∈ b.pixels := Array.mem_of_getElem? (getElem?_pixels b hx hy)
  rw [get_unpacked_packed b hx hy, ink]
  rcases two _ mem with paper | inked
  · rw [paper]
    rfl
  · rw [inked]
    rfl

end Bitmap

namespace Image

/-! ## GIF -/

/-- The palette index of a pixel of a frame. -/
def Gif.Frame.index? (f : Gif.Frame) (x y : Nat) : Option UInt8 :=
  if x < f.width.toNat ∧ y < f.height.toNat then f.pixels[y * f.width.toNat + x]? else none

/-- Readers show the bitmap, and nothing else, on a screen of its size. -/
structure Gif.Shows (g : Gif) (b : Bitmap) : Prop where
  screen : g.width.toNat = b.width ∧ g.height.toNat = b.height
  palette : g.palette = [0xFF, 0xFF, 0xFF, 0x00, 0x00, 0x00]
  frames : g.shownFrames = [g.frame]
  corner : g.frame.left = 0 ∧ g.frame.top = 0
  size : g.frame.width.toNat = b.width ∧ g.frame.height.toNat = b.height
  pixels : g.frame.pixels = b.pixels

namespace Gif

theorem ofBitmap_eq_ok_iff (b : Bitmap) (g : Gif) :
    ofBitmap b = .ok g ↔ (b.width ≤ sizeLimit ∧ b.height ≤ sizeLimit) ∧
      g = ⟨.ofNat b.width, .ofNat b.height, Palette.bytes,
        ⟨0, 0, .ofNat b.width, .ofNat b.height, b.pixels⟩⟩ := by
  rw [ofBitmap]
  split
  · next wide => simp [Nat.not_le_of_lt wide]
  · next narrow =>
    split
    · next high => simp [Nat.not_le_of_lt high]
    · next low => simp [Nat.le_of_not_lt narrow, Nat.le_of_not_lt low, eq_comm]

theorem exists_shows {b : Bitmap} (wide : 0 < b.width) (high : 0 < b.height)
    (width : b.width ≤ sizeLimit) (height : b.height ≤ sizeLimit) :
    ∃ g, ofBitmap b = .ok g ∧ g.Shows b := by
  have toNat_width : (UInt16.ofNat b.width).toNat = b.width :=
    UInt16.toNat_ofNat_of_lt' (Nat.lt_succ_of_le width)
  have toNat_height : (UInt16.ofNat b.height).toNat = b.height :=
    UInt16.toNat_ofNat_of_lt' (Nat.lt_succ_of_le height)
  refine ⟨_, (ofBitmap_eq_ok_iff b _).mpr ⟨⟨width, height⟩, rfl⟩, ?_⟩
  have ne_zero {n : Nat} (pos : 0 < n) (fits : (UInt16.ofNat n).toNat = n) :
      UInt16.ofNat n ≠ 0 := fun zero => by
    rw [zero] at fits
    exact absurd fits (Nat.ne_of_lt pos)
  refine ⟨⟨toNat_width, toNat_height⟩, rfl, ?_, ⟨rfl, rfl⟩, ⟨toNat_width, toNat_height⟩, rfl⟩
  exact if_neg (not_or.mpr ⟨ne_zero wide toNat_width, ne_zero high toNat_height⟩)

theorem Shows.index?_eq {g : Gif} {b : Bitmap} (h : g.Shows b) (x y : Nat) :
    g.frame.index? x y = if x < b.width ∧ y < b.height then some (b.get x y) else none := by
  rw [Frame.index?, h.size.1, h.size.2, h.pixels]
  split
  · next inside => exact Bitmap.getElem?_pixels b inside.1 inside.2
  · rfl

/-- The pixels with the index of the ink are the ink of the bitmap. -/
theorem Shows.index?_eq_ink_iff {g : Gif} {b : Bitmap} (h : g.Shows b) (x y : Nat) :
    g.frame.index? x y = some Palette.ink ↔ b.ink x y = true := by
  rw [h.index?_eq, Bitmap.ink, beq_iff_eq]
  split
  · rw [Option.some_inj]
  · next outside =>
    rw [Bitmap.get_of_not_lt b outside]
    decide

/-- Blocks are put behind what is there. -/
theorem prefix_blocksOnto (codes out : Array UInt8) (offset : Nat) :
    out.toList <+: (blocksOnto codes out offset).toList := by
  fun_induction blocksOnto codes out offset with
  | case1 out offset done => exact List.prefix_rfl
  | case2 out offset more block ih =>
    refine List.IsPrefix.trans ?_ ih
    rw [Array.toList_append, Array.toList_push, List.append_assoc]
    exact List.prefix_append _ _

theorem opening_prefix_bytes (g : Gif) : g.opening <+: g.bytes.toList := by
  rw [bytes, Array.toList_append]
  exact (prefix_blocksOnto _ _ _).trans (List.prefix_append _ _)

theorem signature_prefix_bytes (g : Gif) : signature <+: g.bytes.toList := by
  have opening : signature <+: g.opening := by
    simp only [Gif.opening, List.append_assoc]
    exact List.prefix_append _ _
  exact opening.trans g.opening_prefix_bytes

end Gif

/-! ## PNG -/

/-- The number that four bytes stand for, high byte first. -/
def Png.number (bytes : List UInt8) : Nat := bytes.foldl (fun n b => 256 * n + b.toNat) 0

/-- The header has the size of the bitmap and asks for indexed colours of one bit, and the rows
unpack to its pixels. -/
structure Png.Stores (q : Png) (b : Bitmap) : Prop where
  width : number (q.header.take 4) = b.width
  height : number ((q.header.drop 4).take 4) = b.height
  /-- One bit, indexed, and the standard ways of compressing, filtering and ordering rows. -/
  kind : q.header.drop 8 = [0x01, 0x03, 0x00, 0x00, 0x00]
  palette : q.palette = [0xFF, 0xFF, 0xFF, 0x00, 0x00, 0x00]
  size : q.rows.width = b.width ∧ q.rows.height = b.height
  rows : q.rows.unpacked.pixels = b.pixels

namespace Png

theorem exists_ofBitmap_eq_ok {b : Bitmap} (wide : 0 < b.width) (high : 0 < b.height)
    (width : b.width < UInt32.size) (height : b.height < UInt32.size) :
    ∃ complete, ofBitmap b =
      .ok ⟨.ofNat b.width, .ofNat b.height, Palette.bytes, b.packed.bytes, complete⟩ := by
  have toNat_width : (UInt32.ofNat b.width).toNat = b.width := UInt32.toNat_ofNat_of_lt' width
  have toNat_height : (UInt32.ofNat b.height).toNat = b.height := UInt32.toNat_ofNat_of_lt' height
  have ne_zero {n : Nat} (pos : 0 < n) (fits : (UInt32.ofNat n).toNat = n) :
      UInt32.ofNat n ≠ 0 := fun zero => by
    rw [zero] at fits
    exact absurd fits (Nat.ne_of_lt pos)
  have complete : b.packed.bytes.size =
      rowBytes (UInt32.ofNat b.width).toNat * (UInt32.ofNat b.height).toNat := by
    rw [toNat_width, toNat_height]
    exact b.packed.size_eq
  refine ⟨complete, ?_⟩
  simp only [ofBitmap, if_neg (ne_zero wide toNat_width), if_neg (ne_zero high toNat_height),
    dif_pos complete]

theorem exists_stores {b : Bitmap} (wide : 0 < b.width) (high : 0 < b.height)
    (width : b.width < UInt32.size) (height : b.height < UInt32.size)
    (two : ∀ v ∈ b.pixels, v = Palette.paper ∨ v = Palette.ink) :
    ∃ q, ofBitmap b = .ok q ∧ q.Stores b := by
  have toNat_width : (UInt32.ofNat b.width).toNat = b.width := UInt32.toNat_ofNat_of_lt' width
  have toNat_height : (UInt32.ofNat b.height).toNat = b.height := UInt32.toNat_ofNat_of_lt' height
  obtain ⟨complete, made⟩ := exists_ofBitmap_eq_ok wide high width height
  refine ⟨_, made, ?_⟩
  refine ⟨?_, ?_, rfl, rfl, ⟨toNat_width, toNat_height⟩, ?_⟩
  · exact (ByteOrder.toNat_high32 _).trans toNat_width
  · exact (ByteOrder.toNat_high32 _).trans toNat_height
  · have packed : (⟨(UInt32.ofNat b.width).toNat, (UInt32.ofNat b.height).toNat, b.packed.bytes,
        complete⟩ : PackedRows) = b.packed := PackedRows.ext toNat_width toNat_height rfl
    show (PackedRows.unpacked ⟨_, _, _, complete⟩).pixels = b.pixels
    rw [packed, Bitmap.unpacked_packed two]

end Png

theorem File.format_of_ofBitmap {b : Bitmap} {f : Format} {picture : File}
    (made : File.ofBitmap b f = .ok picture) : picture.format = f := by
  cases f with
  | gif =>
    rw [File.ofBitmap] at made
    cases stored : Gif.ofBitmap b <;> rw [stored] at made <;> cases made
    rfl
  | png =>
    rw [File.ofBitmap] at made
    cases stored : Png.ofBitmap b <;> rw [stored] at made <;> cases made
    rfl

end Image

/-! ## The picture of a page -/

/-- A page that is not blank has a picture, which is not larger than the page and has its ink. -/
theorem exists_bitmap_decode {p : Page} {s : List UInt8} (busy : ¬(decode p s).report.IsBlank) :
    ∃ b, (decode p s).bitmap? = some b ∧ (decode p s).canvas.IsFrame b ∧
      0 < b.width ∧ b.width ≤ p.width ∧ 0 < b.height ∧ b.height ≤ p.height := by
  have tight := tight_decode p s
  have page := page_decode p s
  have empty : ¬(decode p s).canvas.IsEmpty := busy
  obtain ⟨⟨x, y, -, inked⟩, -⟩ := tight.drawn_iff.mpr empty
  obtain ⟨left, above⟩ := tight.lt_cropped inked
  refine ⟨_, if_neg empty, tight.isFrame (twoColoured_decode p s) empty, ?_⟩
  refine ⟨Nat.zero_lt_of_lt left, ?_, Nat.zero_lt_of_lt above, ?_⟩
  · exact (Nat.min_le_right _ _).trans_eq (congrArg Page.width page)
  · exact (Nat.min_le_right _ _).trans_eq (congrArg Page.height page)

open Image in
/-- On a page that is not larger than a GIF can be, a decode that is not blank has a picture, and
the picture has a file in both formats.  The rows of the PNG unpack to the pixels of the GIF, and a
pixel has the index of the ink exactly where the canvas is inked. -/
theorem pictures_decode (p : Page) (s : List UInt8) (wide : p.width ≤ Gif.sizeLimit)
    (high : p.height ≤ Gif.sizeLimit) (busy : ¬(decode p s).report.IsBlank) :
    ∃ b g q, (decode p s).bitmap? = some b ∧
      File.ofBitmap b .gif = .ok (.gif g) ∧ File.ofBitmap b .png = .ok (.png q) ∧
      g.Shows b ∧ q.Stores b ∧ q.rows.unpacked.pixels = g.frame.pixels ∧
      ∀ x y, g.frame.index? x y = some Palette.ink ↔ (decode p s).canvas.ink x y = true := by
  obtain ⟨b, picture, frame, left, right, top, bottom⟩ := exists_bitmap_decode busy
  have width : b.width ≤ Gif.sizeLimit := right.trans wide
  have height : b.height ≤ Gif.sizeLimit := bottom.trans high
  obtain ⟨g, gif, shows⟩ := Gif.exists_shows left top width height
  have small : Gif.sizeLimit < UInt32.size := by decide
  obtain ⟨q, png, stores⟩ := Png.exists_stores left top (width.trans_lt small)
    (height.trans_lt small) frame.indexes
  refine ⟨b, g, q, picture, ?_, ?_, shows, stores, stores.rows.trans shows.pixels.symm, ?_⟩
  · rw [File.ofBitmap, gif]
    rfl
  · rw [File.ofBitmap, png]
    rfl
  · intro x y
    rw [shows.index?_eq_ink_iff, frame.ink]

/-- A page that is not larger than a GIF can be has a buffer that can be allocated. -/
theorem Page.allocatable_of_le {p : Page} (wide : p.width ≤ Image.Gif.sizeLimit)
    (high : p.height ≤ Image.Gif.sizeLimit) : p.Allocatable :=
  (Nat.mul_le_mul wide high).trans (by decide)

end DotMatrix
