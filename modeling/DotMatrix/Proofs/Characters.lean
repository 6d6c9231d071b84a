import DotMatrix.Image.Format
import Mathlib.Logic.Basic
import Mathlib.Tactic.SplitIfs

/-!
# Characters and their bytes

`Utf8.decode` takes bytes apart by tables of lead and tail bytes.  That it reads UTF-8 is said here
against the encoder of the language, `String.utf8EncodeChar`, which shares none of these tables.

## One character

The encoder writes one, two, three or four bytes (`map_toNat_encodeChar`), and `encodeChar_one_iff`
to `encodeChar_four_iff` say which bytes they can be, and of which character.  The bounds on the
first tail byte are what keeps overlong forms, surrogates and numbers past the last code point out.
`read` has the same bounds in `Lead.ofByte?`, so `read_eq_some_iff` holds:

    read b rest = (some c, left)  iff  b :: rest = utf8EncodeChar c ++ left.

## Text

By induction over the characters, `decode` is inverse to the encoder (`decode_eq_map_some_iff`).
Thus `text?` knows exactly the bytes of texts (`text?_eq_some_iff`).

## Lower case

A byte of a capital letter is never part of a longer character.  Lowering bytes is therefore
lowering the characters that they spell, and this also between runs of damage: `decode_map_lowered`,
`text?_map_lowered`.
-/

namespace DotMatrix
namespace Utf8

open String (utf8EncodeChar)

/-! ## The bytes of a character -/

theorem ofNat_eq_iff {n : Nat} (valid : n < 0xD800 ∨ 0xDFFF < n ∧ n < 0x110000) {c : Char} :
    Char.ofNat n = c ↔ c.toNat = n := by
  rw [← Char.toNat_inj, Char.ofNat, dif_pos valid, eq_comm]
  rfl

theorem encodeChar_cases (c : Char) :
    (∃ b, utf8EncodeChar c = [b]) ∨ (∃ b t, utf8EncodeChar c = [b, t]) ∨
      (∃ b t u, utf8EncodeChar c = [b, t, u]) ∨ ∃ b t u v, utf8EncodeChar c = [b, t, u, v] := by
  simp only [utf8EncodeChar]
  split_ifs <;> simp

theorem toNat_lt (c : Char) : c.toNat < 0x110000 :=
  c.valid.elim (fun small => Nat.lt_trans small (by decide)) And.right

/-- The encoder in numbers. -/
theorem map_toNat_encodeChar (c : Char) :
    (utf8EncodeChar c).map UInt8.toNat =
      if c.toNat ≤ 0x7F then [c.toNat]
      else if c.toNat ≤ 0x7FF then [c.toNat / 64 + 0xC0, c.toNat % 64 + 0x80]
      else if c.toNat ≤ 0xFFFF then
        [c.toNat / 4096 + 0xE0, c.toNat / 64 % 64 + 0x80, c.toNat % 64 + 0x80]
      else
        [c.toNat / 262144 + 0xF0, c.toNat / 4096 % 64 + 0x80, c.toNat / 64 % 64 + 0x80,
          c.toNat % 64 + 0x80] := by
  have bounded := toNat_lt c
  simp only [utf8EncodeChar, Char.toNat_val]
  split_ifs <;>
    simp only [List.map_cons, List.map_nil, UInt8.toNat_ofNat', List.cons.injEq, and_true] <;> omega

theorem encodeChar_eq_iff (c : Char) (bytes : List UInt8) :
    utf8EncodeChar c = bytes ↔ (utf8EncodeChar c).map UInt8.toNat = bytes.map UInt8.toNat :=
  (List.map_inj_right fun _ _ => UInt8.toNat_inj.mp).symm

theorem encodeChar_one_iff (c : Char) (b : UInt8) :
    utf8EncodeChar c = [b] ↔ b.toNat ≤ 0x7F ∧ c.toNat = b.toNat := by
  rw [encodeChar_eq_iff, map_toNat_encodeChar]
  simp only [List.map_cons, List.map_nil]
  split_ifs <;> simp only [List.cons.injEq, reduceCtorEq, and_false, and_true, false_iff] <;> omega

theorem encodeChar_two_iff (c : Char) (b t : UInt8) :
    utf8EncodeChar c = [b, t] ↔
      (0xC2 ≤ b.toNat ∧ b.toNat ≤ 0xDF) ∧ (0x80 ≤ t.toNat ∧ t.toNat ≤ 0xBF) ∧
        c.toNat = (b.toNat - 0xC0) * 64 + t.toNat % 64 := by
  rw [encodeChar_eq_iff, map_toNat_encodeChar]
  simp only [List.map_cons, List.map_nil]
  split_ifs <;> simp only [List.cons.injEq, reduceCtorEq, and_false, and_true, false_iff] <;> omega

/-- A smaller second byte after `0xE0` would be overlong, a larger one after `0xED` a surrogate. -/
theorem encodeChar_three_iff (c : Char) (b t u : UInt8) :
    utf8EncodeChar c = [b, t, u] ↔
      (0xE0 ≤ b.toNat ∧ b.toNat ≤ 0xEF) ∧
        (0x80 ≤ t.toNat ∧ t.toNat ≤ 0xBF) ∧ (0x80 ≤ u.toNat ∧ u.toNat ≤ 0xBF) ∧
        (b.toNat = 0xE0 → 0xA0 ≤ t.toNat) ∧ (b.toNat = 0xED → t.toNat ≤ 0x9F) ∧
          c.toNat = ((b.toNat - 0xE0) * 64 + t.toNat % 64) * 64 + u.toNat % 64 := by
  have noSurrogate : c.toNat < 0xD800 ∨ 0xDFFF < c.toNat := c.valid.imp_right And.left
  rw [encodeChar_eq_iff, map_toNat_encodeChar]
  simp only [List.map_cons, List.map_nil]
  split_ifs <;> simp only [List.cons.injEq, reduceCtorEq, and_false, and_true, false_iff]
  · omega
  · omega
  · constructor
    · rintro ⟨lead, first, second⟩
      exact ⟨by omega, by omega, by omega, by omega, by omega, by omega⟩
    · rintro ⟨lead, first, second, low, high, point⟩
      exact ⟨by omega, by omega, by omega⟩
  · omega

/-- A smaller second byte after `0xF0` would be overlong, a larger one after `0xF4` no code
point. -/
theorem encodeChar_four_iff (c : Char) (b t u v : UInt8) :
    utf8EncodeChar c = [b, t, u, v] ↔
      (0xF0 ≤ b.toNat ∧ b.toNat ≤ 0xF4) ∧
        (0x80 ≤ t.toNat ∧ t.toNat ≤ 0xBF) ∧ (0x80 ≤ u.toNat ∧ u.toNat ≤ 0xBF) ∧
        (0x80 ≤ v.toNat ∧ v.toNat ≤ 0xBF) ∧
        (b.toNat = 0xF0 → 0x90 ≤ t.toNat) ∧ (b.toNat = 0xF4 → t.toNat ≤ 0x8F) ∧
          c.toNat = (((b.toNat - 0xF0) * 64 + t.toNat % 64) * 64 + u.toNat % 64) * 64 +
            v.toNat % 64 := by
  have bounded := toNat_lt c
  rw [encodeChar_eq_iff, map_toNat_encodeChar]
  simp only [List.map_cons, List.map_nil]
  split_ifs <;> simp only [List.cons.injEq, reduceCtorEq, and_false, and_true, false_iff]
  · omega
  · omega
  · omega
  · constructor
    · rintro ⟨lead, first, second, third⟩
      exact ⟨by omega, by omega, by omega, by omega, by omega, by omega, by omega⟩
    · rintro ⟨lead, first, second, third, low, high, point⟩
      exact ⟨by omega, by omega, by omega, by omega⟩

/-! ## Reading a character -/

theorem tail_zero_iff {bits point : Nat} {low high : UInt8} {rest left : List UInt8} :
    tail bits low high 0 rest = (some point, left) ↔ point = bits ∧ rest = left := by
  simp [tail, eq_comm]

theorem tail_succ_iff {bits point n : Nat} {low high : UInt8} {rest left : List UInt8} :
    tail bits low high (n + 1) rest = (some point, left) ↔
      ∃ b more, rest = b :: more ∧ (low.toNat ≤ b.toNat ∧ b.toNat ≤ high.toNat) ∧
        tail (bits * 64 + b.toNat % 64) 0x80 0xBF n more = (some point, left) := by
  cases rest with
  | nil => simp [tail]
  | cons b more =>
    rw [tail]
    simp only [UInt8.le_iff_toNat_le]
    constructor
    · intro found
      split at found
      · next inside => exact ⟨b, more, rfl, inside, found⟩
      · simp at found
    · rintro ⟨_, _, same, inside, found⟩
      obtain ⟨rfl, rfl⟩ := List.cons_eq_cons.mp same
      rwa [if_pos inside]

/-- The table of lead bytes by the number of tail bytes, with the four exceptional bounds. -/
theorem Lead.ofByte?_eq (b : UInt8) :
    Lead.ofByte? b =
      if 0xC2 ≤ b.toNat ∧ b.toNat ≤ 0xDF then some ⟨b.toNat - 0xC0, 1, 0x80, 0xBF⟩
      else if 0xE0 ≤ b.toNat ∧ b.toNat ≤ 0xEF then
        some ⟨b.toNat - 0xE0, 2, if b.toNat = 0xE0 then 0xA0 else 0x80,
          if b.toNat = 0xED then 0x9F else 0xBF⟩
      else if 0xF0 ≤ b.toNat ∧ b.toNat ≤ 0xF4 then
        some ⟨b.toNat - 0xF0, 3, if b.toNat = 0xF0 then 0x90 else 0x80,
          if b.toNat = 0xF4 then 0x8F else 0xBF⟩
      else none := by
  have := b.toNat_lt
  simp only [ofByte?, UInt8.le_iff_toNat_le, ← UInt8.toNat_inj, UInt8.reduceToNat]
  split_ifs <;> first
    | with_reducible rfl
    | omega
    | (simp only [Option.some.injEq, Lead.mk.injEq, and_true]; omega)

/-- A character of several bytes comes from the bits of its lead byte and of its tail bytes. -/
theorem read_eq_some_iff_of_lead {b : UInt8} {lead : Lead} (several : 0x7F < b.toNat)
    (found : Lead.ofByte? b = some lead) {c : Char} {rest left : List UInt8} :
    read b rest = (some c, left) ↔
      ∃ point, tail lead.bits lead.low lead.high lead.tails rest = (some point, left) ∧
        Char.ofNat point = c := by
  have notAscii : ¬b < 0x80 := fun small =>
    absurd (Nat.le_of_lt_succ (UInt8.lt_iff_toNat_lt.mp small)) (Nat.not_le.mpr several)
  rw [read, if_neg notAscii, found]
  simp only [Prod.ext_iff, Option.map_eq_some_iff]
  constructor
  · rintro ⟨⟨point, read, same⟩, rest⟩
    exact ⟨point, ⟨read, rest⟩, same⟩
  · rintro ⟨point, ⟨read, rest⟩, same⟩
    exact ⟨⟨point, read, same⟩, rest⟩

section Sizes

variable {b : UInt8} {c : Char} {rest left : List UInt8}

theorem read_one_iff (range : b.toNat ≤ 0x7F) :
    read b rest = (some c, left) ↔ utf8EncodeChar c = [b] ∧ rest = left := by
  rw [read, if_pos (UInt8.lt_iff_toNat_lt.mpr (Nat.lt_succ_of_le range)), encodeChar_one_iff,
    Prod.mk.injEq, Option.some.injEq, ofNat_eq_iff (by omega), and_iff_right range]

theorem read_two_iff (range : 0xC2 ≤ b.toNat ∧ b.toNat ≤ 0xDF) :
    read b rest = (some c, left) ↔ ∃ t, utf8EncodeChar c = [b, t] ∧ rest = t :: left := by
  rw [read_eq_some_iff_of_lead (by omega) (by rw [Lead.ofByte?_eq, if_pos range])]
  simp only [tail_succ_iff, tail_zero_iff, encodeChar_two_iff]
  constructor
  · rintro ⟨_, ⟨t, _, rfl, inside, rfl, rfl⟩, rfl⟩
    simp only [UInt8.reduceToNat] at inside
    exact ⟨t, ⟨range, inside, (ofNat_eq_iff (by omega)).mp rfl⟩, rfl⟩
  · rintro ⟨t, ⟨-, inside, same⟩, rfl⟩
    exact ⟨_, ⟨t, left, rfl, inside, rfl, rfl⟩, (ofNat_eq_iff (by omega)).mpr same⟩

theorem read_three_iff (range : 0xE0 ≤ b.toNat ∧ b.toNat ≤ 0xEF) :
    read b rest = (some c, left) ↔
      ∃ t u, utf8EncodeChar c = [b, t, u] ∧ rest = t :: u :: left := by
  rw [read_eq_some_iff_of_lead (by omega)
    (by rw [Lead.ofByte?_eq, if_neg (by omega), if_pos range])]
  simp only [tail_succ_iff, tail_zero_iff, encodeChar_three_iff]
  constructor
  · rintro ⟨_, ⟨t, _, rfl, inside, u, _, rfl, second, rfl, rfl⟩, rfl⟩
    refine ⟨t, u, ⟨range, ?_⟩, rfl⟩
    split_ifs at inside <;> simp only [UInt8.reduceToNat] at inside second <;>
      exact ⟨by omega, second, by omega, by omega, (ofNat_eq_iff (by omega)).mp rfl⟩
  · rintro ⟨t, u, ⟨-, inside, second, low, high, same⟩, rfl⟩
    refine ⟨_, ⟨t, _, rfl, ?_, u, left, rfl, second, rfl, rfl⟩, (ofNat_eq_iff (by omega)).mpr same⟩
    split_ifs <;> simp only [UInt8.reduceToNat] <;> omega

theorem read_four_iff (range : 0xF0 ≤ b.toNat ∧ b.toNat ≤ 0xF4) :
    read b rest = (some c, left) ↔
      ∃ t u v, utf8EncodeChar c = [b, t, u, v] ∧ rest = t :: u :: v :: left := by
  rw [read_eq_some_iff_of_lead (by omega)
    (by rw [Lead.ofByte?_eq, if_neg (by omega), if_neg (by omega), if_pos range])]
  simp only [tail_succ_iff, tail_zero_iff, encodeChar_four_iff]
  constructor
  · rintro ⟨_, ⟨t, _, rfl, inside, u, _, rfl, second, v, _, rfl, third, rfl, rfl⟩, rfl⟩
    refine ⟨t, u, v, ⟨range, ?_⟩, rfl⟩
    split_ifs at inside <;> simp only [UInt8.reduceToNat] at inside second third <;>
      exact ⟨by omega, second, third, by omega, by omega, (ofNat_eq_iff (by omega)).mp rfl⟩
  · rintro ⟨t, u, v, ⟨-, inside, second, third, low, high, same⟩, rfl⟩
    refine ⟨_, ⟨t, _, rfl, ?_, u, _, rfl, second, v, left, rfl, third, rfl, rfl⟩,
      (ofNat_eq_iff (by omega)).mpr same⟩
    split_ifs <;> simp only [UInt8.reduceToNat] <;> omega

/-- A character is read where its bytes stand, and nowhere else. -/
theorem read_eq_some_iff : read b rest = (some c, left) ↔ b :: rest = utf8EncodeChar c ++ left := by
  constructor
  · intro found
    by_cases one : b.toNat ≤ 0x7F
    · obtain ⟨bytes, rfl⟩ := (read_one_iff one).mp found
      rw [bytes]
      rfl
    by_cases two : 0xC2 ≤ b.toNat ∧ b.toNat ≤ 0xDF
    · obtain ⟨t, bytes, rfl⟩ := (read_two_iff two).mp found
      rw [bytes]
      rfl
    by_cases three : 0xE0 ≤ b.toNat ∧ b.toNat ≤ 0xEF
    · obtain ⟨t, u, bytes, rfl⟩ := (read_three_iff three).mp found
      rw [bytes]
      rfl
    by_cases four : 0xF0 ≤ b.toNat ∧ b.toNat ≤ 0xF4
    · obtain ⟨t, u, v, bytes, rfl⟩ := (read_four_iff four).mp found
      rw [bytes]
      rfl
    -- Every other byte starts no character.
    rw [read, Lead.ofByte?_eq, if_neg two, if_neg three, if_neg four] at found
    split at found
    · next small => exact absurd (Nat.le_of_lt_succ (UInt8.lt_iff_toNat_lt.mp small)) one
    · simp at found
  · intro bytes
    obtain ⟨_, shape⟩ | ⟨_, t, shape⟩ | ⟨_, t, u, shape⟩ | ⟨_, t, u, v, shape⟩ := encodeChar_cases c
      <;> obtain ⟨rfl, rfl⟩ := List.cons_eq_cons.mp (bytes.trans (congrArg (· ++ left) shape))
    · exact (read_one_iff ((encodeChar_one_iff _ _).mp shape).1).mpr ⟨shape, rfl⟩
    · exact (read_two_iff ((encodeChar_two_iff _ _ _).mp shape).1).mpr ⟨t, shape, rfl⟩
    · exact (read_three_iff ((encodeChar_three_iff _ _ _ _).mp shape).1).mpr ⟨t, u, shape, rfl⟩
    · exact (read_four_iff ((encodeChar_four_iff _ _ _ _ _).mp shape).1).mpr ⟨t, u, v, shape, rfl⟩

end Sizes

/-! ## Reading text -/

/-- Bytes without damage are the bytes of the characters read from them. -/
theorem decode_eq_map_some_iff {s : List UInt8} {l : List Char} :
    decode s = l.map some ↔ s = l.flatMap utf8EncodeChar := by
  induction l generalizing s with
  | nil => cases s <;> simp [decode]
  | cons c l ih =>
    cases s with
    | nil =>
      have some : utf8EncodeChar c ≠ [] := String.utf8EncodeChar_ne_nil
      simp [decode, some]
    | cons b rest =>
      rw [decode, List.map_cons, List.cons_eq_cons, ih, List.flatMap_cons, ← read_eq_some_iff,
        Prod.ext_iff]

theorem toList_loop_eq (bytes : ByteArray) (i : Nat) (taken : List UInt8) :
    ByteArray.toList.loop bytes i taken = taken.reverse ++ bytes.data.toList.drop i := by
  fun_induction ByteArray.toList.loop bytes i taken with
  | case1 i taken inside ih =>
    have bound : i < bytes.data.toList.length := by simpa using inside
    rw [ih, List.drop_eq_getElem_cons bound]
    simp [ByteArray.get!, inside]
  | case2 i taken outside =>
    rw [List.drop_eq_nil_of_le (by simpa using Nat.le_of_not_lt outside), List.append_nil]

theorem encode_ofList (l : List Char) : encode (String.ofList l) = l.flatMap utf8EncodeChar := by
  rw [encode, ByteArray.toList, toList_loop_eq, String.toUTF8, String.toByteArray_ofList,
    List.utf8Encode, List.data_toByteArray]
  rfl

theorem encode_eq_flatMap (t : String) : encode t = t.toList.flatMap utf8EncodeChar := by
  rw [← encode_ofList, String.ofList_toList]

theorem map_getD_map_some (l : List Char) :
    (l.map some).map (fun c => c.getD replacement) = l := by
  rw [List.map_map]
  exact List.map_id l

/-- The text of some bytes is the text that has exactly these bytes. -/
theorem text?_eq_some_iff {s : List UInt8} {t : String} : text? s = some t ↔ s = encode t := by
  rw [text?, Option.ite_none_right_eq_some, Option.some_inj, List.all_eq_true]
  constructor
  · rintro ⟨undamaged, rfl⟩
    have items : decode s = ((decode s).map fun c => c.getD replacement).map some := by
      rw [List.map_map]
      refine (List.map_id (decode s)).symm.trans (List.map_congr_left fun c mem => ?_)
      obtain ⟨char, rfl⟩ := Option.isSome_iff_exists.mp (undamaged c mem)
      rfl
    rw [lossy, encode_ofList]
    exact decode_eq_map_some_iff.mp items
  · rintro rfl
    rw [lossy, decode_eq_map_some_iff.mpr (encode_eq_flatMap t), map_getD_map_some]
    exact ⟨by simp, String.ofList_toList⟩

/-! ## Lower case -/

open Image.Format (lowered)

theorem toNat_lowered (b : UInt8) :
    (lowered b).toNat =
      if 0x41 ≤ b.toNat ∧ b.toNat ≤ 0x5A then b.toNat + 0x20 else b.toNat := by
  rw [lowered]
  simp only [UInt8.le_iff_toNat_le, UInt8.reduceToNat]
  split
  · simp only [UInt8.toNat_add, UInt8.reduceToNat]
    omega
  · rfl

theorem toNat_toLower (c : Char) :
    c.toLower.toNat =
      if 0x41 ≤ c.toNat ∧ c.toNat ≤ 0x5A then c.toNat + 0x20 else c.toNat := by
  have range : (c.val ≥ 65 ∧ c.val ≤ 90) ↔ 0x41 ≤ c.toNat ∧ c.toNat ≤ 0x5A := by
    simp only [ge_iff_le, UInt32.le_iff_toNat_le]
    rfl
  show (if h : _ then _ else c : Char).toNat = _
  split
  · next upper =>
    have bounds := range.mp upper
    rw [if_pos bounds]
    show (c.val + 32).toNat = c.val.toNat + 32
    have : c.val.toNat ≤ 90 := bounds.2
    simp only [UInt32.toNat_add, UInt32.reduceToNat]
    omega
  · next other => rw [if_neg (fun bounds => other (range.mpr bounds))]

theorem toList_toLower (t : String) : t.toLower.toList = t.toList.map Char.toLower :=
  String.toList_map

/-- Every byte that a lead byte asks for is no letter. -/
theorem Lead.low_ge {b : UInt8} {lead : Lead} (found : Lead.ofByte? b = some lead) :
    0x80 ≤ lead.low.toNat := by
  simp only [Lead.ofByte?] at found
  split_ifs at found <;> obtain rfl := Option.some.inj found <;>
    simp only [UInt8.reduceToNat] <;> omega

theorem tail_map_lowered {low : UInt8} (big : 0x80 ≤ low.toNat) (bits : Nat) (high : UInt8)
    (n : Nat) (rest : List UInt8) :
    tail bits low high n (rest.map lowered) =
      ((tail bits low high n rest).1, (tail bits low high n rest).2.map lowered) := by
  induction n generalizing bits low high rest with
  | zero => rfl
  | succ n ih =>
    cases rest with
    | nil => rfl
    | cons b rest =>
      have same : low ≤ lowered b ∧ lowered b ≤ high ↔ low ≤ b ∧ b ≤ high := by
        simp only [UInt8.le_iff_toNat_le, toNat_lowered]
        split <;> omega
      rw [List.map_cons, tail, tail]
      simp only [same]
      split
      · next inside =>
        have unchanged : (lowered b).toNat = b.toNat := by
          simp only [UInt8.le_iff_toNat_le] at inside
          rw [toNat_lowered, if_neg (by omega)]
        rw [unchanged]
        exact ih (by decide) _ _ _
      · rfl

theorem eq_of_read_ascii {b : UInt8} {c : Char} {rest left : List UInt8}
    (found : read b rest = (some c, left)) (ascii : c.toNat ≤ 0x7F) : b.toNat = c.toNat := by
  have byte : (UInt8.ofNat c.toNat).toNat = c.toNat := by
    rw [UInt8.toNat_ofNat']
    omega
  have alone := (encodeChar_one_iff c _).mpr ⟨by omega, byte.symm⟩
  have bytes := read_eq_some_iff.mp found
  rw [alone] at bytes
  rw [(List.cons_eq_cons.mp bytes).1, byte]

theorem read_map_lowered (b : UInt8) (rest : List UInt8) :
    read (lowered b) (rest.map lowered) =
      ((read b rest).1.map Char.toLower, (read b rest).2.map lowered) := by
  by_cases ascii : b.toNat < 0x80
  · have ascii' : (lowered b).toNat < 0x80 := by
      rw [toNat_lowered]
      split <;> omega
    rw [read, read, if_pos (UInt8.lt_iff_toNat_lt.mpr ascii'),
      if_pos (UInt8.lt_iff_toNat_lt.mpr ascii)]
    refine Prod.ext (congrArg some ?_) rfl
    rw [ofNat_eq_iff (by omega), toNat_toLower, (ofNat_eq_iff (by omega)).mp rfl, toNat_lowered]
  · have same : lowered b = b := by rw [← UInt8.toNat_inj, toNat_lowered, if_neg (by omega)]
    -- A character of several bytes is no capital letter.
    have chars : (read b rest).1.map Char.toLower = (read b rest).1 := by
      cases found : (read b rest).1 with
      | none => rfl
      | some c =>
        have := eq_of_read_ascii (Prod.ext found rfl)
        rw [Option.map_some, Option.some_inj, ← Char.toNat_inj, toNat_toLower, if_neg (by omega)]
    have several : ¬b < 0x80 := fun small => ascii (UInt8.lt_iff_toNat_lt.mp small)
    rw [same, chars]
    simp only [read, if_neg several]
    cases found : Lead.ofByte? b with
    | none => rfl
    | some lead => simp only [tail_map_lowered (Lead.low_ge found)]

/-- Lowering the bytes lowers the characters, and leaves the damage where it is. -/
theorem decode_map_lowered (s : List UInt8) :
    decode (s.map lowered) = (decode s).map (Option.map Char.toLower) := by
  fun_induction decode s with
  | case1 => simp [decode]
  | case2 b rest ih => rw [List.map_cons, decode, read_map_lowered, ih, List.map_cons]

theorem lossy_map_lowered (s : List UInt8) : lossy (s.map lowered) = (lossy s).toLower := by
  have item : ∀ c : Option Char,
      (c.map Char.toLower).getD replacement = (c.getD replacement).toLower := fun c => by
    cases c <;> rfl
  rw [lossy, lossy, decode_map_lowered, ← String.toList_inj, toList_toLower,
    String.toList_ofList, String.toList_ofList, List.map_map, List.map_map]
  exact List.map_congr_left fun c _ => item c

theorem text?_map_lowered (s : List UInt8) :
    text? (s.map lowered) = (text? s).map String.toLower := by
  have undamaged : (decode (s.map lowered)).all Option.isSome = (decode s).all Option.isSome := by
    rw [decode_map_lowered, List.all_map]
    refine congrArg (List.all _) (funext fun c => ?_)
    cases c <;> rfl
  rw [text?, text?, undamaged, lossy_map_lowered]
  split <;> rfl

theorem encode_toLower (t : String) : encode t.toLower = (encode t).map lowered := by
  rw [eq_comm, ← text?_eq_some_iff, text?_map_lowered, text?_eq_some_iff.mpr rfl, Option.map_some]

end Utf8
end DotMatrix
