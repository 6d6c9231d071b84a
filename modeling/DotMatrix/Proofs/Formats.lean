import DotMatrix.Proofs.Characters
import DotMatrix.Proofs.Components

/-!
# The format of a path

`Image.Format.ofPath` finds the extension from the back of the path, lowers it byte by byte and then
reads it as text.  The rule of the program is about components and text: the extension of the last
component, if it is text, is compared without regard to the case of its ASCII letters.

## The text that is looked up

Lowering bytes is lowering characters, so it does not matter that bytes are lowered first
(`extensionText_eq`).  What is looked up is the lower-case form of the extension
(`extensionText_eq_iff`), and the empty text if the extension is missing, empty or no text
(`extensionText_eq_empty_iff`).

## The answer

`ofPath_exact` says for every path which answer it gets, in terms of `Path.HasExtension`, which
knows the path by its components only.  A failure carries the lower-case extension, or the path as
shown to a reader where there is none to carry.

A successful answer depends on nothing else in the path.  By `Path.hasExtension_iff` such a path is
folder, stem, dot, extension and trail; another folder and another trail leave the last component as
it is, and other cases of the letters leave the extension its lower-case form
(`hasExtension_recased`).
-/

namespace DotMatrix
namespace Image
namespace Format

open DotMatrix.Path (IsFolder Trail slash dot)
open Utf8 (encode)

variable {p : Path} {e : String}

/-! ## The text that is looked up -/

theorem toLower_eq_empty_iff : e.toLower = "" ↔ e = "" := by
  rw [← String.toList_inj, Utf8.toList_toLower, ← String.toList_inj]
  exact List.map_eq_nil_iff

theorem extensionText_eq (p : Path) :
    extensionText p = ((p.extension?.bind Utf8.text?).map String.toLower).getD "" := by
  rw [extensionText]
  cases p.extension? with
  | none => rfl
  | some extension => rw [Option.bind_some, Option.bind_some, Utf8.text?_map_lowered]

theorem extensionText_of_hasExtension (found : p.HasExtension (encode e)) :
    extensionText p = e.toLower := by
  rw [extensionText_eq, Path.extension?_eq_some_iff.mpr found, Option.bind_some,
    Utf8.text?_eq_some_iff.mpr rfl]
  rfl

theorem extensionText_eq_empty_iff :
    extensionText p = "" ↔ ∀ e, p.HasExtension (encode e) → e = "" := by
  constructor
  · intro empty e found
    rw [← toLower_eq_empty_iff, ← extensionText_of_hasExtension found, empty]
  · intro none
    rw [extensionText_eq]
    cases text : p.extension?.bind Utf8.text? with
    | none => rfl
    | some e =>
      obtain ⟨extension, found, same⟩ := Option.bind_eq_some_iff.mp text
      rw [Utf8.text?_eq_some_iff.mp same] at found
      rw [none e (Path.extension?_eq_some_iff.mp found)]
      exact toLower_eq_empty_iff.mpr rfl

theorem extensionText_eq_iff {lower : String} (ne : lower ≠ "") :
    extensionText p = lower ↔ ∃ e, p.HasExtension (encode e) ∧ e.toLower = lower := by
  constructor
  · rintro rfl
    obtain ⟨e, found, -⟩ := not_forall₂.mp (mt extensionText_eq_empty_iff.mpr ne)
    exact ⟨e, found, (extensionText_of_hasExtension found).symm⟩
  · rintro ⟨e, found, rfl⟩
    exact extensionText_of_hasExtension found

/-! ## The formats that are known -/

theorem ofExtension?_eq_gif_iff {s : String} : ofExtension? s = some gif ↔ s = "gif" := by
  rw [ofExtension?]
  split_ifs <;> simp_all

theorem ofExtension?_eq_png_iff {s : String} :
    ofExtension? s = some png ↔ s = "png" ∨ s = "apng" := by
  rw [ofExtension?]
  split_ifs <;> simp_all

theorem ofExtension?_eq_none_iff {s : String} :
    ofExtension? s = none ↔ s ∉ ["gif", "png", "apng"] := by
  rw [ofExtension?]
  split_ifs <;> simp_all

theorem ofPath_eq_ok_iff {format : Format} :
    ofPath p = .ok format ↔ ofExtension? (extensionText p) = some format := by
  rw [ofPath]
  cases ofExtension? (extensionText p) <;> simp

/-- A failure carries the lower-case extension, or the whole path if that would be empty. -/
theorem ofPath_eq_error_iff {failure : Failure} :
    ofPath p = .error failure ↔
      (∃ e, e ≠ "" ∧ p.HasExtension (encode e) ∧ e.toLower ∉ ["gif", "png", "apng"] ∧
        failure = .unsupportedFormat e.toLower) ∨
      (∀ e, p.HasExtension (encode e) → e = "") ∧ failure = .unsupportedFormat p.display := by
  have answer : ofPath p = .error failure ↔ extensionText p ∉ ["gif", "png", "apng"] ∧
      failure = .unsupportedFormat
        (if extensionText p = "" then p.display else extensionText p) := by
    rw [ofPath, ← ofExtension?_eq_none_iff]
    cases ofExtension? (extensionText p) with
    | some format => simp
    | none => simp only [Except.error.injEq, true_and, eq_comm]
  rw [answer, ← extensionText_eq_empty_iff]
  by_cases empty : extensionText p = ""
  · have none : ¬∃ e, e ≠ "" ∧ p.HasExtension (encode e) ∧ e.toLower ∉ ["gif", "png", "apng"] ∧
        failure = .unsupportedFormat e.toLower := by
      rintro ⟨e, ne, found, -⟩
      exact ne (extensionText_eq_empty_iff.mp empty e found)
    rw [or_iff_right none, if_pos empty, and_iff_right empty, empty, and_iff_right (by decide)]
  · rw [if_neg empty, or_iff_left (fun other => empty other.1)]
    constructor
    · rintro ⟨unknown, rfl⟩
      obtain ⟨e, found, same⟩ := (extensionText_eq_iff empty).mp rfl
      rw [← same] at unknown empty ⊢
      exact ⟨e, mt toLower_eq_empty_iff.mpr empty, found, unknown, rfl⟩
    · rintro ⟨e, -, found, unknown, rfl⟩
      rw [extensionText_of_hasExtension found]
      exact ⟨unknown, rfl⟩

/-! ## What the answer depends on -/

theorem exists_extension_of_ofPath {format : Format} (answer : ofPath p = .ok format) :
    ∃ e, p.HasExtension (encode e) := by
  have ne : extensionText p ≠ "" := fun empty => by
    rw [ofPath_eq_ok_iff, empty] at answer
    exact nomatch answer
  obtain ⟨e, found, -⟩ := (extensionText_eq_iff ne).mp rfl
  exact ⟨e, found⟩

theorem ofPath_congr {q : Path} {e' : String} (found : p.HasExtension (encode e))
    (found' : q.HasExtension (encode e')) (same : e'.toLower = e.toLower) {format : Format}
    (answer : ofPath p = .ok format) : ofPath q = .ok format := by
  rw [ofPath_eq_ok_iff, extensionText_of_hasExtension found] at answer
  rw [ofPath_eq_ok_iff, extensionText_of_hasExtension found', same, answer]

theorem lowered_eq_iff {b : UInt8} (small : b.toNat < 0x41) (c : UInt8) :
    lowered c = b ↔ c = b := by
  rw [← UInt8.toNat_inj, ← UInt8.toNat_inj, Utf8.toNat_lowered]
  split <;> omega

/-- Bytes below the letters, slashes and dots among them, do not depend on the case. -/
theorem mem_encode_iff {e' : String} (same : e'.toLower = e.toLower) {b : UInt8}
    (small : b.toNat < 0x41) : b ∈ encode e' ↔ b ∈ encode e := by
  have bytes : ∀ t : String, b ∈ encode t ↔ b ∈ encode t.toLower := fun t => by
    rw [Utf8.encode_toLower, List.mem_map]
    simp only [lowered_eq_iff small, exists_eq_right]
  rw [bytes e', same, ← bytes]

/-- A name keeps an extension when the letters of the extension change their case. -/
theorem hasExtension_recased {folder stem t : List UInt8} {e' : String} (closed : IsFolder folder)
    (noSlash : slash ∉ stem ++ dot :: encode e) (trail : Trail t)
    (ne_dots : stem ++ dot :: encode e ≠ [dot, dot]) (ne_nil : stem ≠ []) (plain : dot ∉ encode e)
    (same : e'.toLower = e.toLower) :
    (⟨folder ++ (stem ++ dot :: encode e') ++ t⟩ : Path).HasExtension (encode e') := by
  refine Path.hasExtension_iff.mpr ⟨folder, stem, t, rfl, closed, ?_, trail, ?_, ne_nil, ?_⟩
  · rw [List.mem_append, List.mem_cons] at noSlash ⊢
    rwa [mem_encode_iff same (by decide)]
  · rw [Ne, Path.append_dot_eq_dots_iff ne_nil] at ne_dots ⊢
    rintro ⟨isDot, empty⟩
    have none : (encode e).map lowered = [] := by
      rw [← Utf8.encode_toLower, ← same, Utf8.encode_toLower, empty, List.map_nil]
    exact ne_dots ⟨isDot, List.map_eq_nil_iff.mp none⟩
  · rwa [mem_encode_iff same (by decide)]

/-- **The format of a path.**  It is that of the extension, in any case of its ASCII letters.  There
is none if the extension is another text, which the failure then carries in lower case, or if there
is no text that is not empty, and then the failure carries the whole path as it is shown.

A format that was found stays with the path behind any trail, in any folder and for any case of the
letters of the extension. -/
theorem ofPath_exact (p : Path) :
    (ofPath p = .ok gif ↔ ∃ e, p.HasExtension (encode e) ∧ e.toLower = "gif") ∧
    (ofPath p = .ok png ↔
      ∃ e, p.HasExtension (encode e) ∧ (e.toLower = "png" ∨ e.toLower = "apng")) ∧
    (∀ failure, ofPath p = .error failure ↔
      (∃ e, e ≠ "" ∧ p.HasExtension (encode e) ∧ e.toLower ∉ ["gif", "png", "apng"] ∧
        failure = .unsupportedFormat e.toLower) ∨
      (∀ e, p.HasExtension (encode e) → e = "") ∧ failure = .unsupportedFormat p.display) ∧
    ∀ format, ofPath p = .ok format →
      (∀ t, Trail t → ofPath ⟨p.bytes ++ t⟩ = .ok format) ∧
      ∃ folder stem e t, p.bytes = folder ++ (stem ++ dot :: encode e) ++ t ∧ IsFolder folder ∧
        slash ∉ stem ++ dot :: encode e ∧ Trail t ∧
        ∀ folder' e' t', IsFolder folder' → e'.toLower = e.toLower → Trail t' →
          ofPath ⟨folder' ++ (stem ++ dot :: encode e') ++ t'⟩ = .ok format := by
  refine ⟨?_, ?_, fun failure => ofPath_eq_error_iff, fun format answer => ?_⟩
  · rw [ofPath_eq_ok_iff, ofExtension?_eq_gif_iff, extensionText_eq_iff (by decide)]
  · rw [ofPath_eq_ok_iff, ofExtension?_eq_png_iff, extensionText_eq_iff (by decide),
      extensionText_eq_iff (by decide), ← exists_or]
    simp only [and_or_left]
  · obtain ⟨e, found⟩ := exists_extension_of_ofPath answer
    refine ⟨fun t trail => ofPath_congr found (found.append_trail trail) rfl answer, ?_⟩
    obtain ⟨folder, stem, t, bytes, closed, noSlash, trail, ne_dots, ne_nil, plain⟩ :=
      Path.hasExtension_iff.mp found
    refine ⟨folder, stem, e, t, bytes, closed, noSlash, trail, ?_⟩
    intro folder' e' t' closed' same trail'
    have found' := hasExtension_recased closed' noSlash trail' ne_dots ne_nil plain same
    exact ofPath_congr found found' same answer

-- The folder has a dot, the name two, and a trail follows.
example : ofPath (Path.ofString "../prn.old/page.1.GiF//./") = .ok gif := by cbv

end Format
end Image
end DotMatrix
