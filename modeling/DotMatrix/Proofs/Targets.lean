import DotMatrix.Proofs.Captures
import DotMatrix.Proofs.Formats

/-!
# The picture next to a capture

A run without a named picture exchanges the extension of the capture's path.  The format of a
picture is read off the extension of its path.  Exchanging and reading are two algorithms on the
bytes of a path, and here they are shown to undo each other on every path with a name.

## Paths that end in a trail

`Path.withExtension` takes the bytes of the old extension off the very end of the path.  If slashes
and single dots stand behind the name, other bytes are taken than those of the extension.  What is
left still has the same stem (`Ends.shortened_append_trail`): the cut hits the trail, and then as
much of the old extension as it is longer than the trail.  A part of a trail is a trail, and a part
of an extension is an extension.  So the trail does not matter (`Ends.withExtension_append_trail`),
unless the stem is a single dot; a name with such a stem begins with two dots.

## Paths without a name

Such a path is left as it is (`withExtension_of_name?_eq_none`), and there is nothing that could be
read at it (`Volume.name?_ne_none_of_read`), because only a name leads to a file.
-/

namespace DotMatrix
namespace Path

/-- The directory of a path with a name, as a path: the bytes up to the name. -/
def parent? (p : Path) : Option Path := p.splitName?.map fun split => ⟨split.1⟩

variable {p : Path} {folder name t u extension : List UInt8}

/-! ## Trails -/

theorem Trail.of_prefix (trail : Trail t) (front : u <+: t) : Trail u := by
  induction trail generalizing u with
  | nil => exact List.prefix_nil.mp front ▸ .nil
  | snocSlash trail ih =>
    rcases List.prefix_concat_iff.mp front with rfl | front
    · exact trail.snocSlash
    · exact ih front
  | @snocDot t trail ih =>
    rw [← List.singleton_append, ← List.append_assoc] at front
    rcases List.prefix_concat_iff.mp front with rfl | front
    · rw [List.append_assoc]
      exact trail.snocDot
    · rcases List.prefix_concat_iff.mp front with rfl | front
      · exact trail.snocSlash
      · exact ih front

theorem splitName?_append_trail (s : List UInt8) (trail : Trail t) :
    (⟨s ++ t⟩ : Path).splitName? = (⟨s⟩ : Path).splitName? := by
  rw [splitName?, splitName?, splitLast_append_trail s trail]

/-- A path with a name ends in it, up to a trail. -/
theorem exists_trail_of_splitName? (found : p.splitName? = some (folder, name)) :
    ∃ t, p = ⟨folder ++ name ++ t⟩ ∧ Trail t ∧ (⟨folder ++ name⟩ : Path).Ends folder name := by
  obtain ⟨front, t, bytes, trail, shape⟩ := exists_trail p.bytes
  obtain rfl : p = ⟨front ++ t⟩ := congrArg Path.mk bytes
  rw [splitName?_append_trail front trail] at found
  rcases shape with rfl | rfl | ⟨folder', name', rfl, closed, plain, ne_nil, ne_dot⟩
  · exact nomatch found
  · exact nomatch found
  · by_cases dots : name' = [dot, dot]
    · rw [dots, splitName?_dots closed] at found
      exact nomatch found
    · have ends : (⟨folder' ++ name'⟩ : Path).Ends folder' name' :=
        ⟨rfl, closed, plain, ne_nil, ne_dot, dots⟩
      rw [ends.splitName?_eq] at found
      obtain ⟨rfl, rfl⟩ := Prod.mk.inj (Option.some.inj found)
      exact ⟨t, rfl, trail, ends⟩

/-! ## Exchanging the extension -/

/-- Without its extension's bytes at the end the path has a name with the same stem. -/
theorem Ends.shortened_append_trail (h : p.Ends folder name) (trail : Trail t)
    (found : (splitStem name).2 = some extension) (ne : (splitStem name).1 ≠ [dot]) :
    ∃ shorter, dot ∉ shorter ∧ (⟨p.bytes ++ t⟩ : Path).shortened.splitName? =
      some (folder, (splitStem name).1 ++ dot :: shorter) := by
  obtain ⟨whole, -, plain⟩ := eq_append_of_splitStem found
  have slashless : slash ∉ extension := fun mem =>
    h.plain (whole ▸ List.mem_append_right _ (List.mem_cons_of_mem _ mem))
  have extension_eq : (⟨p.bytes ++ t⟩ : Path).extension? = some extension := by
    rw [extension?, name?, splitName?_append_trail _ trail, h.splitName?_eq]
    exact found
  have bytes : p.bytes ++ t = folder ++ ((splitStem name).1 ++ [dot]) ++ (extension ++ t) := by
    rw [h.bytes]
    nth_rewrite 1 [whole]
    simp only [List.append_assoc, List.cons_append, List.nil_append]
  have size : (p.bytes ++ t).length - extension.length =
      (folder ++ ((splitStem name).1 ++ [dot])).length + t.length := by
    simp only [bytes, List.length_append]
    omega
  -- As many bytes are left behind the stem and its dot as the trail has.
  have cut : (⟨p.bytes ++ t⟩ : Path).shortened =
      ⟨folder ++ ((splitStem name).1 ++ dot :: extension.take t.length) ++
        t.take (t.length - extension.length)⟩ := by
    rw [shortened, extension_eq]
    show (⟨(p.bytes ++ t).take ((p.bytes ++ t).length - extension.length)⟩ : Path) = _
    rw [size, bytes, List.take_length_add_append, List.take_append]
    simp only [List.append_assoc, List.cons_append, List.nil_append]
  refine ⟨extension.take t.length, fun mem => plain (List.mem_of_mem_take mem), ?_⟩
  have shorter := h.restem (fun mem : slash ∈ extension.take t.length =>
    slashless (List.mem_of_mem_take mem)) (absurd · ne)
  rw [cut, splitName?_append_trail _ (trail.of_prefix (List.take_prefix _ t)),
    shorter.splitName?_eq]

/-- What stands behind the name does not matter. -/
theorem Ends.withExtension_append_trail (h : p.Ends folder name) (trail : Trail t)
    (ne : (splitStem name).1 ≠ [dot]) (extension : List UInt8) :
    (⟨p.bytes ++ t⟩ : Path).withExtension extension =
      ⟨folder ++ ((splitStem name).1 ++ dot :: extension)⟩ := by
  have named : (⟨p.bytes ++ t⟩ : Path).splitName? = some (folder, name) :=
    (splitName?_append_trail _ trail).trans h.splitName?_eq
  cases found : (splitStem name).2 with
  | none =>
    have extension_eq : (⟨p.bytes ++ t⟩ : Path).extension? = none := by
      rw [extension?, name?, named]
      exact found
    rw [withExtension, shortened, extension_eq]
    simp only [extend, named, List.append_assoc]
  | some old =>
    obtain ⟨shorter, plain, splitName?_eq⟩ := h.shortened_append_trail trail found ne
    rw [withExtension, extend, splitName?_eq]
    simp only [splitStem_append (stem_ne_nil h.ne_nil) plain, List.append_assoc]

/-- The name whose stem is a single dot begins with two. -/
theorem dots_prefix_of_stem_eq_dot (ne_dot : name ≠ [dot]) (same : (splitStem name).1 = [dot]) :
    [dot, dot] <+: name := by
  cases found : (splitStem name).2 with
  | none => exact absurd ((splitStem_eq_of_none found).symm.trans same) ne_dot
  | some extension =>
    obtain ⟨whole, -, -⟩ := eq_append_of_splitStem found
    rw [same] at whole
    exact ⟨extension, whole.symm⟩

section

variable (named : p.name? = some name) (ne : ¬[dot, dot] <+: name) (slashless : slash ∉ extension)
  (dotless : dot ∉ extension)
include named ne slashless

/-- With another extension the path ends in its name: folder, stem, dot and extension. -/
theorem exists_ends_withExtension :
    ∃ folder, p.splitName? = some (folder, name) ∧ name ≠ [] ∧ (splitStem name).1 ≠ [dot] ∧
      (p.withExtension extension).Ends folder ((splitStem name).1 ++ dot :: extension) := by
  obtain ⟨⟨folder, _⟩, found, rfl⟩ := Option.map_eq_some_iff.mp named
  obtain ⟨t, rfl, trail, ends⟩ := exists_trail_of_splitName? found
  have stem : (splitStem _).1 ≠ [dot] := fun same =>
    ne (dots_prefix_of_stem_eq_dot ends.ne_dot same)
  refine ⟨folder, found, ends.ne_nil, stem, ?_⟩
  rw [ends.withExtension_append_trail trail stem extension]
  exact ends.restem slashless (absurd · stem)

theorem parent?_withExtension : (p.withExtension extension).parent? = p.parent? := by
  obtain ⟨folder, found, -, -, ends⟩ := exists_ends_withExtension named ne slashless
  rw [parent?, parent?, ends.splitName?_eq, found]
  rfl

include dotless

theorem stem?_withExtension : (p.withExtension extension).stem? = p.stem? := by
  obtain ⟨folder, -, ne_nil, -, ends⟩ := exists_ends_withExtension named ne slashless
  rw [ends.stem?_eq, splitStem_append (stem_ne_nil ne_nil) dotless, stem?, named]
  rfl

theorem extension?_withExtension : (p.withExtension extension).extension? = some extension := by
  obtain ⟨folder, -, ne_nil, -, ends⟩ := exists_ends_withExtension named ne slashless
  rw [ends.extension?_eq, splitStem_append (stem_ne_nil ne_nil) dotless]

theorem withExtension_withExtension :
    (p.withExtension extension).withExtension extension = p.withExtension extension := by
  obtain ⟨folder, -, -, stem, ends⟩ := exists_ends_withExtension named ne slashless
  have stem_eq : p.stem? = some (splitStem name).1 := by
    rw [stem?, named]
    rfl
  refine (ends.withExtension_eq_self_iff dotless).mpr
    ⟨extension?_withExtension named ne slashless dotless, ?_⟩
  rw [stem?_withExtension named ne slashless dotless, stem_eq]
  exact fun same => stem (Option.some.inj same)

end

theorem withExtension_of_name?_eq_none (nameless : p.name? = none) (extension : List UInt8) :
    p.withExtension extension = p := by
  have splitName?_eq : p.splitName? = none := Option.map_eq_none_iff.mp nameless
  have extension_eq : p.extension? = none := by rw [extension?, nameless, Option.bind_none]
  rw [withExtension, shortened, extension_eq]
  simp only [extend, splitName?_eq]

end Path

open DotMatrix.Path (dot)

theorem Image.Format.ofPath_of_extension? {f : Image.Format} {p : Path}
    (found : p.extension? = some f.extension) : Image.Format.ofPath p = .ok f := by
  rw [Image.Format.ofPath_eq_ok_iff,
    Image.Format.extensionText_of_hasExtension (Path.extension?_eq_some_iff.mp found)]
  cases f <;> decide +kernel

/-- Nothing can be read at a path without a name. -/
theorem Volume.name?_ne_none_of_read {v : Volume} {p : Path} {bytes : List UInt8}
    (h : v.read p = .ok bytes) : p.name? ≠ none := by
  obtain ⟨directory, name, content, named, -⟩ := names_of_read h
  obtain ⟨folder, ends⟩ := named.exists_ends
  rw [Path.name?, ends.splitName?_eq]
  exact Option.some_ne_none name

namespace CommandLine
namespace Arguments

variable {a : Arguments} {name : List UInt8}

theorem run_of_name?_eq_none (disk : Disk) (unnamed : a.output = none)
    (nameless : a.input.name? = none) (before : Volume) :
    ∃ fault, (a.run disk.files).run before =
      (⟨1, "", "Error: " ++ (Failure.file fault).message ++ "\n"⟩, before) := by
  obtain ⟨answer, reading, there⟩ := disk.read_eq a.input before
  match answer with
  | .ok bytes => exact absurd nameless (Volume.name?_ne_none_of_read (there bytes rfl))
  | .error fault =>
    have ends := endsIn_of_convert_error (chosenFormat_of_unnamed unnamed)
      (convert_of_unreadable reading)
    exact ⟨fault, by simpa [Ending.failed] using ends a.verbosity⟩

/-- **The picture next to a capture.**  Without a named picture the path to write has the directory
and the stem of the capture's path, and the extension from which the format of the picture is read.
The path to write for that path is that path again.  This holds of every name that does not begin
with two dots.  The path of a capture without a name is left as it is, and a run with it fails
before anything is written. -/
theorem target_of_input (disk : Disk) (a : Arguments) (unnamed : a.output = none)
    (f : Image.Format) (before : Volume) :
    (∀ name, a.input.name? = some name → ¬[dot, dot] <+: name →
      (a.target f).parent? = a.input.parent? ∧ (a.target f).stem? = a.input.stem? ∧
        Image.Format.ofPath (a.target f) = .ok f ∧
        ({ a with input := a.target f } : Arguments).target f = a.target f) ∧
    (a.input.name? = none →
      a.target f = a.input ∧
        ∃ fault, (a.run disk.files).run before =
          (⟨1, "", "Error: " ++ (Failure.file fault).message ++ "\n"⟩, before)) := by
  have target_eq : a.target f = a.input.withExtension f.extension := target_of_unnamed unnamed f
  refine ⟨fun name named ne => ?_, fun nameless => ⟨?_, ?_⟩⟩
  · have slashless := f.slash_notMem_extension
    have dotless := f.dot_notMem_extension
    rw [target_of_unnamed (a := { a with input := a.target f }) unnamed f, target_eq]
    refine ⟨Path.parent?_withExtension named ne slashless,
      Path.stem?_withExtension named ne slashless dotless, ?_,
      Path.withExtension_withExtension named ne slashless dotless⟩
    exact Image.Format.ofPath_of_extension?
      (Path.extension?_withExtension named ne slashless dotless)
  · rw [target_eq, Path.withExtension_of_name?_eq_none nameless]
  · exact run_of_name?_eq_none disk unnamed nameless before

/-- A name that is no text, with two dots in it and a trail behind it. -/
theorem target_of_input_trail :
    let a : Arguments :=
      ⟨⟨Utf8.encode "in//" ++ 0xFF :: Utf8.encode ".old.prn/./"⟩, none, none, false, 0⟩
    let name := 0xFF :: Utf8.encode ".old.prn"
    let target : Path := ⟨Utf8.encode "in//" ++ 0xFF :: Utf8.encode ".old.png"⟩
    a.output = none ∧ a.input.name? = some name ∧ ¬[dot, dot] <+: name ∧ a.target .png = target ∧
      target.parent? = a.input.parent? ∧ target.stem? = a.input.stem? ∧
        Image.Format.ofPath target = .ok .png ∧
        ({ a with input := target } : Arguments).target .png = target := by
  intro a name target
  have named : a.input.name? = some name := by decide +kernel
  have ne : ¬[dot, dot] <+: name := by decide +kernel
  have same : a.target .png = target := by decide +kernel
  have beside := (target_of_input .sound a rfl .png (.empty [])).1 name named ne
  rw [same] at beside
  exact ⟨rfl, named, ne, same, beside⟩

end Arguments
end CommandLine
end DotMatrix
