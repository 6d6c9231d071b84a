import DotMatrix.Proofs.Pictures

/-!
# No picture file changes the size of its picture

A header has sixteen bits for a size in one format and thirty-two in the other, and a bitmap may be
wider or higher than that.  A GIF compares first and then stores.  A PNG stores the low thirty-two
bits and compares nothing, and that it refuses every size that does not fit is not for its own
bounds.  It is refused for its rows: there are as many packed bytes as the bitmap needs, and the
stored size would need fewer (`eq_of_rowBytes_mul_eq`).

The argument takes a size that needs some bytes.  Each row and every eight columns less make them
fewer, and a width loses a multiple of eight columns.  A stored size of zero needs no bytes, and
neither may the bitmap, say with no rows at all and very many columns; but zero is refused on its
own.

What is stored is read out of the bytes of the file, at the places where a reader of the format
looks for it (`Format.FindsSize`).
-/

namespace DotMatrix

/-! ## Sizes with as many bytes -/

theorem rowBytes_pos {w : Nat} (h : 0 < w) : 0 < rowBytes w := by
  rw [rowBytes]
  omega

/-- Eight more columns take one more byte. -/
theorem rowBytes_lt {v w : Nat} (h : v + 8 ≤ w) : rowBytes v < rowBytes w := by
  rw [rowBytes, rowBytes]
  omega

/-- A size that needs some bytes needs fewer with every row and with every eight columns less. -/
theorem eq_of_rowBytes_mul_eq {v w g h : Nat} (columns : v = w ∨ v + 8 ≤ w) (rows : g ≤ h)
    (wide : 0 < v) (high : 0 < g) (same : rowBytes w * h = rowBytes v * g) : v = w ∧ g = h := by
  rcases columns with rfl | fewer
  · exact ⟨rfl, (Nat.eq_of_mul_eq_mul_left (rowBytes_pos wide) same).symm⟩
  · have less : rowBytes v * g < rowBytes w * h :=
      Nat.mul_lt_mul_of_lt_of_le (rowBytes_lt fewer) rows (high.trans_le rows)
    exact absurd same.symm less.ne

namespace Image

/-! ## Sizes in the bytes of a file -/

/-- The bytes of a file at a place. -/
def field (bytes : List UInt8) (place length : Nat) : List UInt8 := (bytes.drop place).take length

theorem field_of_isPrefix {front bytes : List UInt8} (h : front <+: bytes) {place length : Nat}
    (inside : place + length ≤ front.length) :
    field bytes place length = field front place length := by
  obtain ⟨rest, rfl⟩ := h
  have long : length ≤ (front.drop place).length := by
    rw [List.length_drop]
    omega
  rw [field, field, List.drop_append_of_le_length (by omega), List.take_append_of_le_length long]

/-- The number that some bytes stand for, low byte first. -/
def Gif.number (bytes : List UInt8) : Nat := bytes.foldr (fun b n => b.toNat + 256 * n) 0

/-- A reader of the format finds the size in the bytes: in a GIF for the screen and once more for
the frame, in a PNG in the header. -/
def Format.FindsSize : Format → List UInt8 → Nat → Nat → Prop
  | .gif, bytes, width, height =>
    (Gif.number (field bytes 6 2) = width ∧ Gif.number (field bytes 8 2) = height) ∧
      Gif.number (field bytes 32 2) = width ∧ Gif.number (field bytes 34 2) = height
  | .png, bytes, width, height =>
    Png.number (field bytes 16 4) = width ∧ Png.number (field bytes 20 4) = height

namespace Gif

theorem findsSize_of_ofBitmap {b : Bitmap} {g : Gif} (made : ofBitmap b = .ok g) :
    Format.gif.FindsSize g.bytes.toList b.width b.height := by
  obtain ⟨⟨width, height⟩, rfl⟩ := (ofBitmap_eq_ok_iff b g).mp made
  have toNat_width : (UInt16.ofNat b.width).toNat = b.width :=
    UInt16.toNat_ofNat_of_lt' (Nat.lt_succ_of_le width)
  have toNat_height : (UInt16.ofNat b.height).toNat = b.height :=
    UInt16.toNat_ofNat_of_lt' (Nat.lt_succ_of_le height)
  -- The palette is the one of every bitmap, so that all fields have their places.
  have front := opening_prefix_bytes ⟨.ofNat b.width, .ofNat b.height, Palette.bytes,
    ⟨0, 0, .ofNat b.width, .ofNat b.height, b.pixels⟩⟩
  have read : ∀ place n, place + 2 ≤ 38 → field (opening _) place 2 = ByteOrder.low16 n →
      number (field _ place 2) = n.toNat := fun place n inside stored => by
    rw [field_of_isPrefix front inside, stored]
    exact ByteOrder.toNat_low16 n
  refine ⟨⟨?_, ?_⟩, ?_, ?_⟩
  · exact (read 6 _ (by decide) rfl).trans toNat_width
  · exact (read 8 _ (by decide) rfl).trans toNat_height
  · exact (read 32 _ (by decide) rfl).trans toNat_width
  · exact (read 34 _ (by decide) rfl).trans toNat_height

/-- A GIF is refused for its width, and only if that fits for its height. -/
theorem ofBitmap_eq_error_iff (b : Bitmap) (failure : Failure) :
    ofBitmap b = .error failure ↔
      sizeLimit < b.width ∧ failure = .image (.gifWidth b.width) ∨
        b.width ≤ sizeLimit ∧ sizeLimit < b.height ∧ failure = .image (.gifHeight b.height) := by
  rw [ofBitmap]
  by_cases wide : sizeLimit < b.width
  · simp [wide, Nat.not_le_of_lt wide, eq_comm]
  · by_cases high : sizeLimit < b.height
    · simp [wide, high, Nat.le_of_not_lt wide, eq_comm]
    · simp [wide, high]

end Gif

namespace Png

/-- The file starts with the signature, and with the length, the name and the data of the header. -/
theorem header_prefix_bytes (q : Png) :
    signature ++ ([0x00, 0x00, 0x00, 0x0D] ++ ([0x49, 0x48, 0x44, 0x52] ++ q.header)) <+:
      q.bytes.toList := by
  have name : headerName.toUTF8.data.toList = [0x49, 0x48, 0x44, 0x52] := by decide +kernel
  have size : q.header.toArray.size = 13 := rfl
  have length : ByteOrder.high32 (UInt32.ofNat 13) = [0x00, 0x00, 0x00, 0x0D] := by decide
  have chunk : [0x00, 0x00, 0x00, 0x0D] ++ ([0x49, 0x48, 0x44, 0x52] ++ q.header) <+:
      (Chunk.bytes ⟨headerName, q.header.toArray⟩).toList := by
    simp only [Chunk.bytes, Array.toList_append, List.append_assoc, size, length, name]
    exact (List.prefix_append_right_inj _).mpr
      ((List.prefix_append_right_inj _).mpr (List.prefix_append _ _))
  simp only [bytes, chunks, List.foldl_cons, List.foldl_nil, Array.toList_append, List.append_assoc]
  exact (List.prefix_append_right_inj _).mpr (chunk.trans (List.prefix_append _ _))

/-- A size that is stored is the size of the bitmap, and not zero. -/
theorem toNat_of_ofBitmap {b : Bitmap} {q : Png} (made : ofBitmap b = .ok q) :
    (q.width.toNat = b.width ∧ 0 < b.width) ∧ q.height.toNat = b.height ∧ 0 < b.height := by
  simp only [ofBitmap] at made
  split at made
  · cases made
  next columns =>
  split at made
  · cases made
  next rows =>
  split at made
  next complete =>
    obtain rfl := Except.ok.inj made
    have pos {n : UInt32} (ne : n ≠ 0) : 0 < n.toNat :=
      Nat.pos_of_ne_zero fun zero => ne (UInt32.toNat_inj.mp zero)
    have wide := pos columns
    have high := pos rows
    rw [UInt32.toNat_ofNat'] at wide high
    have same := b.packed.size_eq.symm.trans complete
    rw [UInt32.toNat_ofNat', UInt32.toNat_ofNat'] at same
    have fewer : b.width % 2 ^ 32 = b.width ∨ b.width % 2 ^ 32 + 8 ≤ b.width := by omega
    obtain ⟨width, height⟩ := eq_of_rowBytes_mul_eq fewer (Nat.mod_le _ _) wide high same
    rw [width] at wide
    rw [height] at high
    exact ⟨⟨UInt32.toNat_ofNat'.trans width, wide⟩, UInt32.toNat_ofNat'.trans height, high⟩
  · cases made

theorem findsSize_of_ofBitmap {b : Bitmap} {q : Png} (made : ofBitmap b = .ok q) :
    Format.png.FindsSize q.bytes.toList b.width b.height := by
  obtain ⟨⟨width, -⟩, height, -⟩ := toNat_of_ofBitmap made
  have front := header_prefix_bytes q
  have read : ∀ place n, place + 4 ≤ 29 → field (signature ++ _) place 4 = ByteOrder.high32 n →
      number (field _ place 4) = n.toNat := fun place n inside stored => by
    rw [field_of_isPrefix front inside, stored]
    exact ByteOrder.toNat_high32 n
  refine ⟨?_, ?_⟩
  · exact (read 16 _ (by decide) rfl).trans width
  · exact (read 20 _ (by decide) rfl).trans height

theorem isOk_ofBitmap_iff (b : Bitmap) :
    (ofBitmap b).isOk = true ↔
      (0 < b.width ∧ b.width < UInt32.size) ∧ 0 < b.height ∧ b.height < UInt32.size := by
  constructor
  · intro ok
    cases made : ofBitmap b with
    | error failure =>
      rw [made] at ok
      exact nomatch ok
    | ok q =>
      obtain ⟨⟨width, wide⟩, height, high⟩ := toNat_of_ofBitmap made
      exact ⟨⟨wide, width ▸ q.width.toNat_lt⟩, high, height ▸ q.height.toNat_lt⟩
  · rintro ⟨⟨wide, width⟩, high, height⟩
    obtain ⟨complete, made⟩ := exists_ofBitmap_eq_ok wide high width height
    rw [made]
    rfl

end Png

namespace File

theorem ofBitmap_eq_error_iff (b : Bitmap) (f : Format) (failure : Failure) :
    ofBitmap b f = .error failure ↔
      match f with
      | .gif => Gif.ofBitmap b = .error failure
      | .png => Png.ofBitmap b = .error failure := by
  cases f with
  | gif =>
    rw [ofBitmap]
    cases Gif.ofBitmap b <;> simp [Except.map]
  | png =>
    rw [ofBitmap]
    cases Png.ofBitmap b <;> simp [Except.map]

/-- **The size of a picture file.**  A bitmap has a GIF exactly if both its sizes are at most 65535,
and a PNG exactly if both are at least one and have thirty-two bits.  Whenever it has a file, the
sizes that are stored in the bytes of the file are those of the bitmap. -/
theorem ofBitmap_size (b : Bitmap) :
    ((ofBitmap b .gif).isOk = true ↔ b.width ≤ 65535 ∧ b.height ≤ 65535) ∧
      ((ofBitmap b .png).isOk = true ↔
        (1 ≤ b.width ∧ b.width ≤ 4294967295) ∧ 1 ≤ b.height ∧ b.height ≤ 4294967295) ∧
      ∀ f file, ofBitmap b f = .ok file →
        file.format = f ∧ f.FindsSize file.bytes.toList b.width b.height := by
  have isOk_map {α : Type} (x : Except Failure α) (g : α → File) : (x.map g).isOk = x.isOk := by
    cases x <;> rfl
  refine ⟨?_, ?_, fun f file made => ⟨format_of_ofBitmap made, ?_⟩⟩
  · rw [ofBitmap, isOk_map]
    exact Gif.isOk_ofBitmap_iff b
  · rw [ofBitmap, isOk_map, Png.isOk_ofBitmap_iff]
    have size : UInt32.size = 4294967296 := rfl
    omega
  · cases f with
    | gif =>
      rw [ofBitmap] at made
      cases stored : Gif.ofBitmap b <;> rw [stored] at made <;> cases made
      exact Gif.findsSize_of_ofBitmap stored
    | png =>
      rw [ofBitmap] at made
      cases stored : Png.ofBitmap b <;> rw [stored] at made <;> cases made
      exact Png.findsSize_of_ofBitmap stored

end File
end Image
end DotMatrix
