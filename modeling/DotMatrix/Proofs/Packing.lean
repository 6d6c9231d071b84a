import DotMatrix.Proofs.Pictures
import Mathlib.Algebra.BigOperators.Fin
import Mathlib.Algebra.Order.Floor.Div

/-!
# Packing a bitmap, one bit after the other

Packed rows are built byte by byte, and each byte looks at its own eight pixels.  A printer's way is
the other one: all bytes are zero at first, and every ink pixel sets its bit (`Bitmap.marked`).  Two
pixels never meet in one bit, although rows of pixels and rows of bytes have different lengths, and
so both ways leave the same bytes.

The crux is `place_eq_iff`.  Byte `i` and dot `k` belong to one column and one row only, and a pixel
that stands there is inside its row, so that its byte is one of the bytes of that row.  For the
loop, `dotAt_markPlace` says what one pixel does and `dotAt_foldl_markPlace` what all of them do.

* `exists_byte`: up to the end of a row of bytes, a bit is the ink of its place.  Past the last
  pixel of the row there is no ink, and the padding is zero.
* `bitCount_packed`: both sides are sums over the pixels.  A rectangle is summed row by row
  (`sum_range_rows`), once with pixels for its cells and once with bytes.
* `bytes_packed_eq_iff`: the bytes know the ink of a bitmap, and of other palette indexes nothing.
-/

namespace DotMatrix

/-! ## Dots of bytes -/

namespace Octet

/-- The byte with one more dot set. -/
def mark (b : UInt8) (k : Nat) : UInt8 := b ||| 1 <<< UInt8.ofNat (7 - k)

theorem dot_mark (b : UInt8) {j k : Nat} (hj : j < size) (hk : k < size) :
    dot (mark b k) j = true ↔ dot b j = true ∨ k = j := by
  have single : ∀ j < 8, ∀ k < 8, dot (1 <<< UInt8.ofNat (7 - k)) j = decide (k = j) := by decide
  have both : dot (mark b k) j = (dot b j || dot (1 <<< UInt8.ofNat (7 - k)) j) := by
    rw [mark, dot, UInt8.toNat_or, Nat.testBit_or]
    rfl
  rw [both, single j hj k hk, Bool.or_eq_true, decide_eq_true_iff]

theorem eq_of_dot {a b : UInt8} (same : ∀ k < size, dot a k = dot b k) : a = b := by
  rw [← ofDots_dot a, ← ofDots_dot b, ofDots, ofDots]
  refine congrArg UInt8.ofNat (List.foldl_ext _ _ _ fun n k mem => ?_)
  rw [same k (List.mem_range.mp mem)]

/-- The bits of a byte that are set are its dots. -/
theorem toNat_cpop (b : UInt8) :
    b.toBitVec.cpop.toNat = ∑ k ∈ Finset.range size, (dot b k).toNat := by
  have all : ∀ n < 256, (UInt8.ofNat n).toBitVec.cpop.toNat =
      ∑ k ∈ Finset.range size, (dot (UInt8.ofNat n) k).toNat := by
    decide +kernel
  simpa using all b.toNat b.toNat_lt

/-- Dot `k` of byte `i`, if there is such a byte. -/
def dotAt (bytes : Array UInt8) (i k : Nat) : Bool := bytes[i]?.any fun b => dot b k

theorem dotAt_of_lt {bytes : Array UInt8} {i : Nat} (hi : i < bytes.size) (k : Nat) :
    dotAt bytes i k = dot bytes[i] k := by
  rw [dotAt, Array.getElem?_eq_getElem hi]
  rfl

theorem eq_of_dotAt {as bs : Array UInt8} (length : as.size = bs.size)
    (same : ∀ i < as.size, ∀ k < size, dotAt as i k = dotAt bs i k) : as = bs := by
  refine Array.ext length fun i hi hj => eq_of_dot fun k hk => ?_
  rw [← dotAt_of_lt hi, ← dotAt_of_lt hj, same i hi k hk]

theorem dotAt_modify (bytes : Array UInt8) {i j k l : Nat} (hi : i < bytes.size) (hk : k < size)
    (hl : l < size) :
    dotAt (bytes.modify j fun b => mark b l) i k = true ↔
      dotAt bytes i k = true ∨ j = i ∧ l = k := by
  rw [dotAt, dotAt, Array.getElem?_modify, Array.getElem?_eq_getElem hi]
  by_cases same : j = i
  · simpa [same] using dot_mark bytes[i] hk hl
  · simp [same]

end Octet

/-! ## Rows of bytes -/

theorem rowBytes_eq (width : Nat) : rowBytes width = width ⌈/⌉ 8 :=
  (Nat.ceilDiv_eq_add_pred_div width 8).symm

/-- The bytes of a row have a bit for every pixel. -/
theorem le_rowBytes (width : Nat) : width ≤ 8 * rowBytes width := by
  rw [rowBytes]
  omega

/-- A pixel of a row has a byte and a bit of its own. -/
theorem place_eq_iff {w x y i k : Nat} (hx : x < w) (hk : k < 8) :
    y * rowBytes w + x / 8 = i ∧ x % 8 = k ↔
      x = 8 * (i % rowBytes w) + k ∧ y = i / rowBytes w := by
  have inside : x / 8 < rowBytes w := PackedRows.div_lt_rowBytes hx
  constructor
  · rintro ⟨rfl, rfl⟩
    rw [Bitmap.place_mod inside, Bitmap.place_div inside, Nat.div_add_mod]
    exact ⟨rfl, rfl⟩
  · rintro ⟨rfl, rfl⟩
    rw [Nat.mul_add_div (by decide), Nat.mul_add_mod, Nat.div_eq_of_lt hk, Nat.mod_eq_of_lt hk,
      Nat.add_zero, Nat.div_add_mod']
    exact ⟨rfl, rfl⟩

namespace PackedRows

/-- Unpacking keeps the ink, and leaves paper where the rows end. -/
theorem ink_unpacked (p : PackedRows) (x y : Nat) : p.unpacked.ink x y = p.ink x y := by
  by_cases inside : x < p.width ∧ y < p.height
  · rw [unpacked, Bitmap.ink, Bitmap.get_ofCells _ inside.1 inside.2]
    cases p.ink x y <;> rfl
  · have outside : ¬(x < p.unpacked.width ∧ y < p.unpacked.height) := inside
    rw [Bitmap.ink, Bitmap.get_of_not_lt _ outside, ink, dif_neg inside]
    rfl

end PackedRows

namespace Bitmap

open Octet

theorem ink_of_not_lt (b : Bitmap) {x y : Nat} (h : ¬(x < b.width ∧ y < b.height)) :
    b.ink x y = false := by
  rw [ink, get_of_not_lt b h]
  rfl

/-- Every bit of the packed rows is the ink of its place. -/
theorem dotAt_packed (b : Bitmap) {i k : Nat} (hi : i < rowBytes b.width * b.height)
    (hk : k < size) :
    dotAt b.packed.bytes i k = b.ink (8 * (i % rowBytes b.width) + k) (i / rowBytes b.width) := by
  have place : i < b.packed.bytes.size := lt_of_lt_of_eq hi b.packed.size_eq.symm
  rw [dotAt_of_lt place]
  simp only [packed, Array.getElem_ofFn, dot_ofDots _ hk]

theorem exists_byte (b : Bitmap) {x y : Nat} (hx : x < 8 * rowBytes b.width) (hy : y < b.height) :
    ∃ byte, b.packed.bytes[y * rowBytes b.width + x / 8]? = some byte ∧
      byte.toNat.testBit (7 - x % 8) = b.ink x y := by
  have inside : x / 8 < rowBytes b.width := Nat.div_lt_of_lt_mul hx
  have place : y * rowBytes b.width + x / 8 < b.packed.bytes.size :=
    lt_of_lt_of_eq (place_lt inside hy) b.packed.size_eq.symm
  have dot := dot_packed b inside (Nat.mod_lt x (by decide)) place
  rw [Nat.div_add_mod] at dot
  exact ⟨_, Array.getElem?_eq_getElem place, dot⟩

/-- Bitmaps of one size pack alike exactly if they have the same ink. -/
theorem bytes_packed_eq_iff {b c : Bitmap} (width : c.width = b.width)
    (height : c.height = b.height) :
    c.packed.bytes = b.packed.bytes ↔ ∀ x y, c.ink x y = b.ink x y := by
  constructor
  · intro same x y
    have rows : c.packed = b.packed := PackedRows.ext width height same
    rw [← ink_packed, rows, ink_packed]
  · intro same
    have length : c.packed.bytes.size = rowBytes b.width * b.height := by
      rw [c.packed.size_eq, width_packed, height_packed, width, height]
    refine eq_of_dotAt (length.trans b.packed.size_eq.symm) fun i hi k hk => ?_
    rw [length] at hi
    rw [dotAt_packed b hi hk, dotAt_packed c (by rwa [width, height]) hk, width, same]

/-! ## Setting the bits -/

/-- The places of the pixels, row by row. -/
def places (b : Bitmap) : List (Nat × Nat) :=
  (List.range b.height).flatMap fun y => (List.range b.width).map fun x => (x, y)

/-- The bytes with the bit of a pixel set as well, if the pixel is ink. -/
def markPlace (b : Bitmap) (bytes : Array UInt8) (place : Nat × Nat) : Array UInt8 :=
  if b.ink place.1 place.2 then
    bytes.modify (place.2 * rowBytes b.width + place.1 / 8) fun byte => mark byte (place.1 % 8)
  else bytes

/-- The bytes that are left when one bit is set after the other. -/
def marked (b : Bitmap) : Array UInt8 :=
  b.places.foldl b.markPlace (Array.replicate (rowBytes b.width * b.height) 0)

theorem mem_places_iff (b : Bitmap) (x y : Nat) :
    (x, y) ∈ b.places ↔ x < b.width ∧ y < b.height := by
  simp [places, and_comm]

@[simp] theorem size_markPlace (b : Bitmap) (bytes : Array UInt8) (place : Nat × Nat) :
    (b.markPlace bytes place).size = bytes.size := by
  rw [markPlace]
  split
  · exact Array.size_modify
  · rfl

theorem size_foldl_markPlace (b : Bitmap) (places : List (Nat × Nat)) (bytes : Array UInt8) :
    (places.foldl b.markPlace bytes).size = bytes.size := by
  induction places generalizing bytes with
  | nil => rfl
  | cons place places ih => rw [List.foldl_cons, ih, size_markPlace]

/-- A pixel sets its own bit and no other. -/
theorem dotAt_markPlace (b : Bitmap) (bytes : Array UInt8) (place : Nat × Nat) {i k : Nat}
    (hi : i < bytes.size) (hk : k < size) :
    dotAt (b.markPlace bytes place) i k = true ↔ dotAt bytes i k = true ∨
      b.ink place.1 place.2 = true ∧
        place.2 * rowBytes b.width + place.1 / 8 = i ∧ place.1 % 8 = k := by
  rw [markPlace]
  split
  · next inked =>
    have below : place.1 % 8 < size := Nat.mod_lt _ (by decide)
    rw [dotAt_modify bytes hi hk below, and_iff_right inked]
  · next blank => simp [blank]

theorem dotAt_foldl_markPlace (b : Bitmap) (places : List (Nat × Nat)) (bytes : Array UInt8)
    {i k : Nat} (hi : i < bytes.size) (hk : k < size) :
    dotAt (places.foldl b.markPlace bytes) i k = true ↔ dotAt bytes i k = true ∨
      ∃ place ∈ places, b.ink place.1 place.2 = true ∧
        place.2 * rowBytes b.width + place.1 / 8 = i ∧ place.1 % 8 = k := by
  induction places generalizing bytes with
  | nil => simp
  | cons place places ih =>
    have hi' : i < (b.markPlace bytes place).size := by rwa [size_markPlace]
    rw [List.foldl_cons, ih _ hi', dotAt_markPlace b bytes place hi hk, or_assoc]
    simp only [List.mem_cons, exists_eq_or_imp]

/-- Setting one bit after the other packs the rows. -/
theorem marked_eq (b : Bitmap) : b.marked = b.packed.bytes := by
  have length : b.marked.size = rowBytes b.width * b.height := by
    rw [marked, size_foldl_markPlace, Array.size_replicate]
  refine eq_of_dotAt (length.trans b.packed.size_eq.symm) fun i hi k hk => ?_
  rw [length] at hi
  have blank : ¬dotAt (Array.replicate (rowBytes b.width * b.height) 0) i k = true := by
    rw [dotAt_of_lt (by rwa [Array.size_replicate]), Array.getElem_replicate, dot_zero]
    decide
  rw [Bool.eq_iff_iff, marked, dotAt_foldl_markPlace b _ _ (by rwa [Array.size_replicate]) hk,
    or_iff_right blank, dotAt_packed b hi hk]
  constructor
  · rintro ⟨⟨x, y⟩, mem, inked, place⟩
    obtain ⟨rfl, rfl⟩ := (place_eq_iff ((mem_places_iff b x y).mp mem).1 hk).mp place
    exact inked
  · intro inked
    -- Ink is inside the bitmap, and so the byte and the bit belong to a pixel.
    have inside : 8 * (i % rowBytes b.width) + k < b.width ∧ i / rowBytes b.width < b.height := by
      by_contra outside
      rw [ink_of_not_lt b outside] at inked
      exact nomatch inked
    exact ⟨_, (mem_places_iff b _ _).mpr inside, inked, (place_eq_iff inside.1 hk).mpr ⟨rfl, rfl⟩⟩

end Bitmap

/-! ## Counting the bits -/

/-- The number of bits that are set in some bytes. -/
def bitCount (bytes : Array UInt8) : Nat :=
  (bytes.toList.map fun byte => byte.toBitVec.cpop.toNat).sum

theorem sum_range_mul (f : Nat → Nat) (m n : Nat) :
    ∑ i ∈ Finset.range (m * n), f i =
      ∑ y ∈ Finset.range n, ∑ x ∈ Finset.range m, f (y * m + x) := by
  induction n with
  | zero => rfl
  | succ n ih =>
    rw [Nat.mul_succ, Finset.sum_range_add, ih, Finset.sum_range_succ, Nat.mul_comm m]

/-- A sum over a rectangle whose cells are numbered row by row. -/
theorem sum_range_rows (f : Nat → Nat → Nat) (w h : Nat) :
    ∑ i ∈ Finset.range (w * h), f (i % w) (i / w) =
      ∑ y ∈ Finset.range h, ∑ x ∈ Finset.range w, f x y := by
  rw [sum_range_mul]
  refine Finset.sum_congr rfl fun y _ => Finset.sum_congr rfl fun x mem => ?_
  have hx : x < w := Finset.mem_range.mp mem
  rw [Bitmap.place_mod hx, Bitmap.place_div hx]

theorem sum_map_toList {α : Type} (as : Array α) {f : α → Nat} {g : Nat → Nat}
    (same : ∀ (i : Nat) (hi : i < as.size), f as[i] = g i) :
    (as.toList.map f).sum = ∑ i ∈ Finset.range as.size, g i := by
  rw [Finset.sum_range, ← Fin.sum_univ_fun_getElem]
  exact Finset.sum_congr rfl fun i _ => same i i.isLt

theorem count_eq_sum (l : List UInt8) (v : UInt8) :
    l.count v = (l.map fun u => (u == v).toNat).sum := by
  induction l with
  | nil => rfl
  | cons u l ih =>
    rw [List.count_cons, List.map_cons, List.sum_cons, ih, Nat.add_comm]
    cases u == v <;> rfl

namespace Bitmap

theorem count_pixels (b : Bitmap) :
    b.pixels.count Palette.ink =
      ∑ y ∈ Finset.range b.height, ∑ x ∈ Finset.range b.width, (b.ink x y).toNat := by
  rw [← Array.count_toList, count_eq_sum, ← sum_range_rows fun x y => (b.ink x y).toNat,
    ← b.size_eq]
  exact sum_map_toList _ fun i hi => by rw [getElem_pixels b hi, ink]

/-- The bits of a row of bytes are the ink of the row, for the padding has none. -/
theorem sum_row (b : Bitmap) (y : Nat) :
    ∑ c ∈ Finset.range (rowBytes b.width), ∑ k ∈ Finset.range 8, (b.ink (8 * c + k) y).toNat =
      ∑ x ∈ Finset.range b.width, (b.ink x y).toNat := by
  have bits := sum_range_mul (fun x => (b.ink x y).toNat) 8 (rowBytes b.width)
  simp only [Nat.mul_comm _ 8] at bits
  rw [← bits]
  refine (Finset.sum_subset (Finset.range_subset_range.mpr (le_rowBytes _)) fun x _ past => ?_).symm
  rw [ink_of_not_lt b fun inside => past (Finset.mem_range.mpr inside.1)]
  rfl

theorem bitCount_packed (b : Bitmap) : bitCount b.packed.bytes = b.pixels.count Palette.ink := by
  have bytes : bitCount b.packed.bytes = ∑ i ∈ Finset.range b.packed.bytes.size,
      ∑ k ∈ Finset.range 8,
        (b.ink (8 * (i % rowBytes b.width) + k) (i / rowBytes b.width)).toNat := by
    refine sum_map_toList _ fun i hi => ?_
    rw [Octet.toNat_cpop]
    refine Finset.sum_congr rfl fun k hk => ?_
    rw [← Octet.dotAt_of_lt hi, dotAt_packed b (lt_of_lt_of_eq hi b.packed.size_eq)
      (Finset.mem_range.mp hk)]
  rw [bytes, b.packed.size_eq, width_packed, height_packed, count_pixels,
    sum_range_rows fun c y => ∑ k ∈ Finset.range 8, (b.ink (8 * c + k) y).toNat]
  exact Finset.sum_congr rfl fun y _ => sum_row b y

/-- **Packing a bitmap of any palette indexes.**  The bytes are those that are left when every ink
pixel sets its bit in zero bytes, and there are as many as the rows need.  The bit for a column and
a row is one exactly if the pixel there is ink, and in the padding it is zero.  Unpacking gives the
ink back, there are as many ones as there are ink pixels, and bitmaps of one size are packed alike
exactly if they have the same ink. -/
theorem packed_bits (b : Bitmap) :
    let stride := b.width ⌈/⌉ 8
    let bytes := b.packed.bytes
    bytes = b.marked ∧
      bytes.size = b.height * stride ∧
      (∀ x y, x < b.width → y < b.height →
        ∃ byte, bytes[y * stride + x / 8]? = some byte ∧
          (byte.toNat.testBit (7 - x % 8) = true ↔ b.ink x y = true)) ∧
      (∀ x y, b.width ≤ x → x < 8 * stride → y < b.height →
        ∃ byte, bytes[y * stride + x / 8]? = some byte ∧
          byte.toNat.testBit (7 - x % 8) = false) ∧
      (b.packed.unpacked.width = b.width ∧ b.packed.unpacked.height = b.height ∧
        ∀ x y, b.packed.unpacked.ink x y = b.ink x y) ∧
      bitCount bytes = b.pixels.count Palette.ink ∧
      ∀ c : Bitmap, c.width = b.width → c.height = b.height →
        (c.packed.bytes = bytes ↔ ∀ x y, c.ink x y = b.ink x y) := by
  intro stride bytes
  have stride_eq : stride = rowBytes b.width := (rowBytes_eq b.width).symm
  rw [stride_eq]
  refine ⟨b.marked_eq.symm, b.packed.size_eq.trans (Nat.mul_comm _ _), ?_, ?_, ⟨rfl, rfl, ?_⟩,
    b.bitCount_packed, fun c => bytes_packed_eq_iff⟩
  · intro x y hx hy
    obtain ⟨byte, found, bit⟩ := b.exists_byte (hx.trans_le (le_rowBytes _)) hy
    exact ⟨byte, found, by rw [bit]⟩
  · intro x y past hx hy
    obtain ⟨byte, found, bit⟩ := b.exists_byte hx hy
    refine ⟨byte, found, bit.trans (ink_of_not_lt b fun inside => ?_)⟩
    exact Nat.not_lt.mpr past inside.1
  · intro x y
    rw [PackedRows.ink_unpacked, ink_packed]

/-- Rows of ten pixels, alternately ink, have six bits of padding; an index past the palette is
packed like paper. -/
example :
    (ofCells 10 2 fun x y => if x % 2 = 1 then Palette.ink else UInt8.ofNat (2 * y)).packed.bytes =
      #[0x55, 0x40, 0x55, 0x40] := by
  decide +kernel

end Bitmap
end DotMatrix
