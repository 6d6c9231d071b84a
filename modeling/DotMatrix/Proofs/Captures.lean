import DotMatrix.Proofs.Endings
import DotMatrix.Proofs.Naming

/-!
# What a run does to its capture

A run without a named picture writes next to its capture: same directory, same stem, and the
extension of the format.  Nothing in the run compares the two paths, so that the capture is safe
only as far as the extensions differ.  This file says how far that is.

* A run spares all but its target (`Arguments.spares_run`), and it leaves everything as it is unless
  the capture can be read and has something to draw (`Arguments.run_of_idle`).
* The target leads to the entry of the capture only if it is the very same path
  (`Volume.Names.withExtension_eq_self`).  There is no second spelling of it: both start with the
  same folder, and a directory keeps its entries by name.
* It is the same path exactly if the capture already has the extension of the format
  (`Path.Ends.withExtension_eq_self_iff`).  A capture `x.gif` is then replaced by its own picture.
-/

namespace DotMatrix

/-! ## The path next to a capture -/

section

variable {v : Volume} {p : Path} {directory : Location} {name : List UInt8}

theorem Volume.Names.exists_ends (h : v.Names p directory name) : ∃ folder, p.Ends folder name := by
  obtain ⟨segments, split, -⟩ := h.leads
  exact Path.exists_ends split h.noSlash h.proper.1 h.proper.2

/-- The path with another extension leads to the same entry only if it is the same path. -/
theorem Volume.Names.withExtension_eq_self (h : v.Names p directory name) {extension : List UInt8}
    (plain : Path.slash ∉ extension)
    (hit : v.target (p.withExtension extension) = .ok (directory ++ [name])) :
    p.withExtension extension = p := by
  obtain ⟨folder, ends⟩ := h.exists_ends
  obtain ⟨directory', name', named, same, -⟩ := Volume.names_of_target hit
  obtain rfl : name = name' := List.singleton_inj.mp (List.append_inj_right' same rfl)
  obtain ⟨folder', ends'⟩ := named.exists_ends
  by_cases dots : (Path.splitStem name).1 = [Path.dot]
  · -- Two dots are not written to.
    rw [ends.withExtension_of_stem_eq_dot dots] at ends'
    exact nomatch ends'.splitName?_eq.symm.trans (Path.splitName?_dots ends.closed)
  · have exchanged := ends.withExtension_eq dots extension
    have last := (ends.restem plain (absurd · dots)).splitName?_eq
    rw [← exchanged, ends'.splitName?_eq] at last
    have name_eq : name = (Path.splitStem name).1 ++ Path.dot :: extension :=
      congrArg Prod.snd (Option.some.inj last)
    rw [exchanged, ← name_eq, ← ends.bytes]

theorem Image.Format.slash_notMem_extension (f : Image.Format) : Path.slash ∉ f.extension := by
  cases f <;> decide +kernel

theorem Image.Format.dot_notMem_extension (f : Image.Format) : Path.dot ∉ f.extension := by
  cases f <;> decide +kernel

end

namespace CommandLine
namespace Arguments

variable {a : Arguments} {files : FileAccess (StateM Volume)} {before : Volume}
  {format : Image.Format} {bytes : List UInt8}

theorem chosenFormat_of_unnamed (unnamed : a.output = none) :
    a.chosenFormat = .ok (a.format.getD default) := by
  rw [chosenFormat, unnamed]
  cases a.format <;> rfl

theorem target_of_unnamed (unnamed : a.output = none) (format : Image.Format) :
    a.target format = a.input.withExtension format.extension := by
  rw [target, unnamed, Option.getD_none]

/-! ## What is left of the capture -/

theorem snd_run {log : List Log.Record} {e : Ending} (h : a.EndsIn files before log e) :
    ((a.run files).run before).2 = e.after :=
  congrArg Prod.snd (h a.verbosity)

theorem exitCode_run {log : List Log.Record} {e : Ending} (h : a.EndsIn files before log e) :
    ((a.run files).run before).1.exitCode = e.exitCode :=
  congrArg (fun ended => ended.1.exitCode) (h a.verbosity)

/-- Whatever happens, a run spares all but its target. -/
theorem spares_run (disk : Disk) (chosen : a.chosenFormat = .ok format) :
    before.Spares (a.target format) ((a.run disk.files).run before).2 := by
  obtain ⟨log, e, ends, ending⟩ := exists_ending disk a before
  rw [snd_run ends]
  rcases ending with ⟨-, -, -, same | ⟨format', picture, fault, chosen', -, unwritten⟩⟩ |
    ⟨-, format', -, chosen', spares⟩
  · rw [same]
    exact ⟨rfl, fun _ _ => rfl⟩
  · obtain rfl := Except.ok.inj (chosen.symm.trans chosen')
    have spares := disk.spares (a.target format) picture before
    rwa [unwritten] at spares
  · obtain rfl := Except.ok.inj (chosen.symm.trans chosen')
    exact spares

/-- Without a capture, or with one that draws nothing, all files stay as they are. -/
theorem run_of_idle (disk : Disk) (chosen : a.chosenFormat = .ok format)
    (idle : ∀ bytes, before.read a.input = .ok bytes → (decode .a4 bytes).report.IsBlank) :
    ((a.run disk.files).run before).2 = before := by
  obtain ⟨answer, reading, there⟩ := disk.read_eq a.input before
  match answer with
  | .error fault => exact snd_run (endsIn_of_convert_error chosen (convert_of_unreadable reading))
  | .ok [] => exact snd_run (endsIn_of_convert_error chosen (convert_of_empty reading))
  | .ok (byte :: bytes) =>
    exact snd_run (endsIn_of_isBlank chosen (List.cons_ne_nil byte bytes) reading
      (idle _ (there _ rfl)))

/-- The bytes of the capture are those from before unless the target is the capture. -/
theorem read_input_of_target_ne (disk : Disk) (chosen : a.chosenFormat = .ok format)
    (unnamed : a.output = none) (held : before.read a.input = .ok bytes)
    (ne : a.target format ≠ a.input) :
    ((a.run disk.files).run before).2.read a.input = .ok bytes := by
  obtain ⟨directory, name, -, named, -⟩ := Volume.names_of_read held
  refine (spares_run disk chosen).read named held fun hit => ne ?_
  rw [target_of_unnamed unnamed] at hit ⊢
  exact named.withExtension_eq_self format.slash_notMem_extension hit

/-- A capture that is its own target is replaced by its picture. -/
theorem read_input_of_target_eq (disk : Disk) (chosen : a.chosenFormat = .ok format)
    (held : before.read a.input = .ok bytes) (drawn : ¬(decode .a4 bytes).report.IsBlank)
    (same : a.target format = a.input)
    (success : ((a.run disk.files).run before).1.exitCode = 0) :
    ∃ b picture, (decode .a4 bytes).bitmap? = some b ∧
      Image.File.ofBitmap b format = .ok picture ∧
      ((a.run disk.files).run before).2.read a.input = .ok picture.bytes.toList := by
  have notFailed {log failure after} : ¬a.EndsIn disk.files before log (.failed failure after) :=
    fun ends => by
      rw [exitCode_run ends] at success
      exact nomatch success
  obtain ⟨answer, reading, there⟩ := disk.read_eq a.input before
  match answer with
  | .error fault =>
    exact absurd (endsIn_of_convert_error chosen (convert_of_unreadable reading)) notFailed
  | .ok [] => exact absurd (endsIn_of_convert_error chosen (convert_of_empty reading)) notFailed
  | .ok (byte :: rest) =>
    obtain rfl : bytes = byte :: rest := Except.ok.inj (held.symm.trans (there _ rfl))
    obtain ⟨b, picture, bitmap, made, unwritten, written⟩ :=
      exists_picture_of_capture disk chosen (List.cons_ne_nil byte rest) reading drawn
    cases said : ((disk.files.write (a.target format) picture).run before).1 with
    | error fault =>
      obtain ⟨log, ends⟩ := unwritten fault said
      exact absurd ends notFailed
    | ok =>
      obtain ⟨⟨log, ends⟩, replaced, -⟩ := written said
      rw [snd_run ends, ← same]
      exact ⟨b, picture, bitmap, made, replaced⟩

/-! ## Runs without a named picture -/

/-- **The capture of a run without a named picture.**  Its bytes are those from before the run,
unless the picture is to be written to the path of the capture itself and there is a picture.

If there is a file at the path of the capture, the two paths are the same exactly if it has the
extension of the format, in these very bytes, behind a stem that is not a single dot.  If there is a
picture then, a run that succeeds has put its file in the place of the capture. -/
theorem run_keeps_capture (disk : Disk) (a : Arguments) (unnamed : a.output = none)
    (before : Volume) :
    let format := a.format.getD default
    let ended := (a.run disk.files).run before
    (∀ arguments, parse arguments = .ok (.run a) →
      CommandLine.run disk.files arguments = a.run disk.files) ∧
    (ended.2.read a.input = before.read a.input ∨
      a.target format = a.input ∧
        ∃ bytes, before.read a.input = .ok bytes ∧ ¬(decode .a4 bytes).report.IsBlank) ∧
    ∀ bytes, before.read a.input = .ok bytes →
      (a.target format = a.input ↔
        a.input.extension? = some format.extension ∧ a.input.stem? ≠ some [Path.dot]) ∧
      (¬(decode .a4 bytes).report.IsBlank → a.target format = a.input → ended.1.exitCode = 0 →
        ∃ b picture, (decode .a4 bytes).bitmap? = some b ∧
          Image.File.ofBitmap b format = .ok picture ∧
          ended.2.read a.input = .ok picture.bytes.toList) := by
  intro format ended
  have chosen : a.chosenFormat = .ok format := chosenFormat_of_unnamed unnamed
  refine ⟨fun _ accepted => run_of_parse accepted disk.files, ?_,
    fun bytes held => ⟨?_, fun drawn same success => ?_⟩⟩
  · by_cases idle : ∀ bytes, before.read a.input = .ok bytes → (decode .a4 bytes).report.IsBlank
    · exact Or.inl (by rw [run_of_idle disk chosen idle])
    · push Not at idle
      obtain ⟨bytes, held, drawn⟩ := idle
      by_cases same : a.target format = a.input
      · exact Or.inr ⟨same, bytes, held, drawn⟩
      · rw [held]
        exact Or.inl (read_input_of_target_ne disk chosen unnamed held same)
  · obtain ⟨directory, name, -, named, -⟩ := Volume.names_of_read held
    obtain ⟨folder, ends⟩ := named.exists_ends
    rw [target_of_unnamed unnamed]
    exact ends.withExtension_eq_self_iff format.dot_notMem_extension
  · exact read_input_of_target_eq disk chosen held drawn same success

end Arguments

/-- One order that draws the first two columns. -/
def twoColumns : List UInt8 := [0x1B, 0x2A, 0x00, 0x02, 0x00, 0xFF, 0xFF]

/-- A home directory with one capture. -/
def holding (name : List UInt8) : Volume := ⟨[], [([name], .file (.raw twoColumns))]⟩

/-- A capture whose name is no text, for a report and a PNG next to it. -/
theorem run_keeps_capture_prn :
    let name : List UInt8 := [0x78, 0xFF, 0x2E, 0x70, 0x72, 0x6E]
    let a : Arguments := ⟨⟨name⟩, none, some .png, true, 2⟩
    let before := holding name
    a.output = none ∧ Utf8.text? name = none ∧ before.read a.input = .ok twoColumns ∧
      ((a.run Disk.sound.files).run before).2.read a.input = .ok twoColumns := by
  intro name a before
  have held : before.read a.input = .ok twoColumns := by decide +kernel
  refine ⟨rfl, by decide +kernel, held, ?_⟩
  rcases (Arguments.run_keeps_capture .sound a rfl before).2.1 with kept | ⟨same, -⟩
  · exact kept.trans held
  · revert same
    decide +kernel

/-- A capture with the extension of a GIF is lost in a run without options. -/
theorem run_overwrites_capture :
    let before := holding (Utf8.encode "x.gif")
    parse ["x.gif"] = .ok (.run ⟨.ofString "x.gif", none, none, false, 0⟩) ∧
      before.read (.ofString "x.gif") = .ok twoColumns ∧
      ((run Volume.access ["x.gif"]).run before).2.read (.ofString "x.gif") ≠
        before.read (.ofString "x.gif") := by
  intro before
  let a : Arguments := ⟨.ofString "x.gif", none, none, false, 0⟩
  have accepted : parse ["x.gif"] = .ok (.run a) := rfl
  have held : before.read a.input = .ok twoColumns := by decide +kernel
  have drawn : ¬(decode .a4 twoColumns).report.IsBlank := by decide +kernel
  have same : a.target default = a.input := by decide +kernel
  have success : ((a.run Volume.access).run before).1.exitCode = 0 := by decide +kernel
  obtain ⟨b, picture, -, made, replaced⟩ :=
    Arguments.read_input_of_target_eq .sound rfl held drawn same success
  refine ⟨accepted, held, fun kept => ?_⟩
  rw [run_of_parse accepted] at kept
  -- The picture starts with the letters of its format, the capture with an escape.
  obtain ⟨g, rfl⟩ : ∃ g, picture = .gif g := by
    have format := Image.File.format_of_ofBitmap made
    cases picture with
    | gif g => exact ⟨g, rfl⟩
    | png q => exact nomatch format
  have bytes : g.bytes.toList = twoColumns :=
    Except.ok.inj (replaced.symm.trans (kept.trans held))
  have signature := Image.Gif.signature_prefix_bytes g
  rw [bytes] at signature
  revert signature
  decide

end CommandLine
end DotMatrix
