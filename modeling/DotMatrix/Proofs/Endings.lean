import DotMatrix.CommandLine.Run
import DotMatrix.Proofs.Pictures
import DotMatrix.Proofs.Volumes

/-!
# How a run ends

A run of the command goes through a fixed order of questions: which format, whether there is a
capture, whether it has bytes, whether the page is blank, whether the picture could be written.  The
first answer that is wrong ends it.  There is one lemma for each way out, `endsIn_of_…`, and each of
them says everything that is left behind (`Ending`): the exit code, both outputs, and the volume.

The error output is a log with something behind it.  How much of the log is shown depends on the
verbosity and nothing else does, so that an ending is stated for all verbosities at once
(`Arguments.EndsIn`).

That a picture cannot be made is not among the ways out.  A run prints on an A4 page, and a crop of
that fits both formats (`exists_file_decode`).
-/

namespace DotMatrix

/-! ## Rendering to a file -/

section

variable {m : Type → Type} [Monad m] {p : Page} {s : List UInt8} {b : Bitmap}

theorem render_of_isBlank (blank : (decode p s).report.IsBlank)
    (sink : Bitmap → m (Outcome Unit)) :
    render p s sink =
      pure ⟨(decode p s).log ++ [.nothingDrawn], .ok (decode p s).report⟩ := by
  rw [render]
  simp only [(bitmap?_decode_eq_none_iff p s).mpr blank]

theorem render_of_bitmap (picture : (decode p s).bitmap? = some b)
    (sink : Bitmap → m (Outcome Unit)) :
    render p s sink = do
      let delivered ← sink b
      return ⟨(decode p s).log ++ delivered.log,
        delivered.result.map fun _ => (decode p s).report⟩ := by
  rw [render]
  simp only [picture]

theorem PictureFile.deliver_of_made {f : PictureFile} {picture : Image.File}
    (made : Image.File.ofBitmap b f.format = .ok picture) (files : FileAccess m) :
    f.deliver files b = do return f.ofAnswer b (← files.write f.path picture) := by
  rw [deliver, made]

/-- A page that is not larger than a GIF can be has a file in either format, unless it is blank. -/
theorem exists_file_decode (format : Image.Format) (wide : p.width ≤ Image.Gif.sizeLimit)
    (high : p.height ≤ Image.Gif.sizeLimit) (busy : ¬(decode p s).report.IsBlank) :
    ∃ b picture, (decode p s).bitmap? = some b ∧ Image.File.ofBitmap b format = .ok picture := by
  obtain ⟨b, bitmap, frame, left, right, top, bottom⟩ := exists_bitmap_decode busy
  have width : b.width ≤ Image.Gif.sizeLimit := right.trans wide
  have height : b.height ≤ Image.Gif.sizeLimit := bottom.trans high
  cases format with
  | gif =>
    obtain ⟨g, made, -⟩ := Image.Gif.exists_shows left top width height
    exact ⟨b, .gif g, bitmap, by rw [Image.File.ofBitmap, made]; rfl⟩
  | png =>
    have small : Image.Gif.sizeLimit < UInt32.size := by decide
    obtain ⟨q, made, -⟩ := Image.Png.exists_stores left top (width.trans_lt small)
      (height.trans_lt small) frame.indexes
    exact ⟨b, .png q, bitmap, by rw [Image.File.ofBitmap, made]; rfl⟩

end

namespace CommandLine

/-! ## Endings -/

@[simp] theorem logText_nil (level : Log.Level) : logText level [] = "" := rfl

/-- What a run leaves behind, apart from its log. -/
structure Ending where
  exitCode : Nat
  stdout : String
  /-- The error output behind the log. -/
  trailer : String
  after : Volume

namespace Ending

/-- A failure is the last line of the error output. -/
def failed (failure : Failure) (after : Volume) : Ending :=
  ⟨1, "", "Error: " ++ failure.message ++ "\n", after⟩

/-- A success has one text for the standard output. -/
def succeeded (text : String) (after : Volume) : Ending := ⟨0, text ++ "\n", "", after⟩

end Ending

namespace Arguments

/-- At every verbosity the run ends in the same way, and shows the records of one log up to the
level that the verbosity asks for. -/
def EndsIn (a : Arguments) (files : FileAccess (StateM Volume)) (before : Volume)
    (log : List Log.Record) (e : Ending) : Prop :=
  ∀ n, ({ a with verbosity := n }.run files).run before =
    (⟨e.exitCode, e.stdout, logText { a with verbosity := n }.logLevel log ++ e.trailer⟩, e.after)

/-- What a run says about its picture: the report if it is asked for, and otherwise a line. -/
def answer (a : Arguments) (r : Report) (line : String) : String :=
  if a.report then r.pretty else line

theorem chosenFormat_eq_error_iff (a : Arguments) (failure : Failure) :
    a.chosenFormat = .error failure ↔
      ∃ path, a.format = none ∧ a.output = some path ∧
        Image.Format.ofPath path = .error failure := by
  rw [chosenFormat]
  cases a.format <;> cases a.output <;> simp

theorem exists_wish_of_ofPath {p : Path} {failure : Failure}
    (h : Image.Format.ofPath p = .error failure) : ∃ wish, failure = .unsupportedFormat wish := by
  simp only [Image.Format.ofPath] at h
  split at h
  · exact nomatch h
  · exact ⟨_, (Except.error.inj h).symm⟩

/-- No file is asked for before the format is settled. -/
theorem run_of_chosenFormat_error {a : Arguments} {failure : Failure}
    (h : a.chosenFormat = .error failure) {m : Type → Type} [Monad m] (files : FileAccess m) :
    a.run files = pure ⟨1, "", "Error: " ++ failure.message ++ "\n"⟩ := by
  rw [run, h]
  simp only [conclude, logText_nil, String.empty_append]

variable {a : Arguments} {files : FileAccess (StateM Volume)} {before after : Volume}
  {format : Image.Format} {log : List Log.Record}

theorem endsIn_of_chosenFormat_error {failure : Failure} (h : a.chosenFormat = .error failure) :
    a.EndsIn files before [] (.failed failure before) := by
  intro n
  have same : ({ a with verbosity := n } : Arguments).chosenFormat = .error failure := h
  rw [run_of_chosenFormat_error same]
  simp only [Ending.failed, logText_nil, String.empty_append]
  rfl

theorem endsIn_of_convert_error {failure : Failure} (chosen : a.chosenFormat = .ok format)
    (h : (a.convert files format).run before = (⟨log, .error failure⟩, after)) :
    a.EndsIn files before log (.failed failure after) := by
  intro n
  have same : ({ a with verbosity := n } : Arguments).chosenFormat = .ok format := chosen
  have convert : ({ a with verbosity := n }.convert files format).run before =
    (⟨log, .error failure⟩, after) := h
  rw [run, same]
  simp only [StateT.run_bind, convert, Ending.failed, conclude, String.append_assoc]
  rfl

theorem endsIn_of_convert_ok {report : Report} (chosen : a.chosenFormat = .ok format)
    (h : (a.convert files format).run before = (⟨log, .ok report⟩, after)) :
    a.EndsIn files before log
      (.succeeded (a.answer report (summary (a.target format) report)) after) := by
  intro n
  have same : ({ a with verbosity := n } : Arguments).chosenFormat = .ok format := chosen
  have convert : ({ a with verbosity := n }.convert files format).run before =
    (⟨log, .ok report⟩, after) := h
  rw [run, same]
  simp only [StateT.run_bind, convert, Ending.succeeded, conclude, String.append_empty]
  rfl

/-! ## Conversions -/

theorem convert_of_unreadable {fault : FileFault}
    (h : (files.read a.input).run before = (.error fault, before)) :
    (a.convert files format).run before = (⟨[], .error (.file fault)⟩, before) := by
  simp only [convert, Capture.read, StateT.run_bind, h]
  rfl

theorem convert_of_empty (h : (files.read a.input).run before = (.ok [], before)) :
    (a.convert files format).run before = (⟨[.captureSize 0], .error .emptyInput⟩, before) := by
  simp only [convert, Capture.read, StateT.run_bind, h]
  rfl

theorem convert_of_capture {bytes : List UInt8} (busy : bytes ≠ [])
    (h : (files.read a.input).run before = (.ok bytes, before)) :
    (a.convert files format).run before =
      let rendered :=
        (render .a4 bytes (PictureFile.deliver files ⟨a.target format, format⟩)).run before
      (⟨.captureSize bytes.length :: rendered.1.log, rendered.1.result⟩, rendered.2) := by
  cases bytes with
  | nil => exact absurd rfl busy
  | cons byte bytes =>
    simp only [convert, Capture.read, StateT.run_bind, h]
    rfl

theorem endsIn_of_isBlank {bytes : List UInt8} (chosen : a.chosenFormat = .ok format)
    (busy : bytes ≠ []) (h : (files.read a.input).run before = (.ok bytes, before))
    (blank : (decode .a4 bytes).report.IsBlank) :
    a.EndsIn files before
      (.captureSize bytes.length :: ((decode .a4 bytes).log ++ [.nothingDrawn]))
      (.succeeded (a.answer (decode .a4 bytes).report
        ("Nothing drawn, " ++ (a.target format).display ++ " not written")) before) := by
  have said : summary (a.target format) (decode .a4 bytes).report =
      "Nothing drawn, " ++ (a.target format).display ++ " not written" := if_pos blank
  rw [← said]
  refine endsIn_of_convert_ok chosen ?_
  rw [convert_of_capture busy h, render_of_isBlank blank]
  rfl

variable {bytes : List UInt8} {b : Bitmap} {picture : Image.File}

theorem convert_of_bitmap (busy : bytes ≠ [])
    (h : (files.read a.input).run before = (.ok bytes, before))
    (bitmap : (decode .a4 bytes).bitmap? = some b)
    (made : Image.File.ofBitmap b format = .ok picture) :
    (a.convert files format).run before =
      let written := (files.write (a.target format) picture).run before
      let delivered := PictureFile.ofAnswer ⟨a.target format, format⟩ b written.1
      (⟨.captureSize bytes.length :: ((decode .a4 bytes).log ++ delivered.log),
        delivered.result.map fun _ => (decode .a4 bytes).report⟩, written.2) := by
  have made' : Image.File.ofBitmap b (PictureFile.mk (a.target format) format).format =
      .ok picture := made
  rw [convert_of_capture busy h, render_of_bitmap bitmap, PictureFile.deliver_of_made made']
  rfl

theorem endsIn_of_unwritten {fault : FileFault} (chosen : a.chosenFormat = .ok format)
    (busy : bytes ≠ []) (h : (files.read a.input).run before = (.ok bytes, before))
    (bitmap : (decode .a4 bytes).bitmap? = some b)
    (made : Image.File.ofBitmap b format = .ok picture)
    (unwritten : (files.write (a.target format) picture).run before = (.error fault, after)) :
    a.EndsIn files before (.captureSize bytes.length :: ((decode .a4 bytes).log ++ []))
      (.failed (.file fault) after) := by
  refine endsIn_of_convert_error chosen ?_
  rw [convert_of_bitmap busy h bitmap made, unwritten]
  rfl

theorem endsIn_of_written (chosen : a.chosenFormat = .ok format)
    (busy : bytes ≠ []) (h : (files.read a.input).run before = (.ok bytes, before))
    (bitmap : (decode .a4 bytes).bitmap? = some b)
    (made : Image.File.ofBitmap b format = .ok picture)
    (written : (files.write (a.target format) picture).run before = (.ok (), after)) :
    a.EndsIn files before
      (.captureSize bytes.length ::
        ((decode .a4 bytes).log ++ [.wrote b.width b.height format (a.target format)]))
      (.succeeded (a.answer (decode .a4 bytes).report
        ("Saved to " ++ (a.target format).display)) after) := by
  have drawn : ¬(decode .a4 bytes).report.IsBlank := fun blank => by
    rw [(bitmap?_decode_eq_none_iff _ _).mpr blank] at bitmap
    exact nomatch bitmap
  have said : summary (a.target format) (decode .a4 bytes).report =
      "Saved to " ++ (a.target format).display := if_neg drawn
  rw [← said]
  refine endsIn_of_convert_ok chosen ?_
  rw [convert_of_bitmap busy h bitmap made, written]
  rfl

/-- On a page with a picture the disk has the last word. -/
theorem exists_picture_of_capture (disk : Disk) (chosen : a.chosenFormat = .ok format)
    (busy : bytes ≠ []) (h : (disk.files.read a.input).run before = (.ok bytes, before))
    (drawn : ¬(decode .a4 bytes).report.IsBlank) :
    let d := decode .a4 bytes
    let target := a.target format
    ∃ b picture, d.bitmap? = some b ∧ Image.File.ofBitmap b format = .ok picture ∧
      let written := (disk.files.write target picture).run before
      (∀ fault, written.1 = .error fault → ∃ log,
        a.EndsIn disk.files before log (.failed (.file fault) written.2)) ∧
      (written.1 = .ok () →
        (∃ log, a.EndsIn disk.files before log
          (.succeeded (a.answer d.report ("Saved to " ++ target.display)) written.2)) ∧
        written.2.read target = .ok picture.bytes.toList ∧
        before.Spares target written.2) := by
  intro d target
  have wide : Page.a4.width ≤ Image.Gif.sizeLimit := by decide
  have high : Page.a4.height ≤ Image.Gif.sizeLimit := by decide
  obtain ⟨b, picture, bitmap, made⟩ := exists_file_decode format wide high drawn
  refine ⟨b, picture, bitmap, made, fun fault unwritten => ?_, fun ok => ?_⟩
  · exact ⟨_, endsIn_of_unwritten chosen busy h bitmap made (Prod.ext unwritten rfl)⟩
  · have written : before.write target picture =
        .ok ((disk.files.write target picture).run before).2 :=
      disk.write_eq _ _ _ _ (Prod.ext ok rfl)
    exact ⟨⟨_, endsIn_of_written chosen busy h bitmap made (Prod.ext ok rfl)⟩,
      Volume.read_write written, disk.spares target picture before⟩

/-- Every run ends.  A failure is never that of a picture, and it leaves all files as they are
unless it is that of writing to the target; a success spares all but the target. -/
theorem exists_ending (disk : Disk) (a : Arguments) (before : Volume) :
    ∃ log e, a.EndsIn disk.files before log e ∧
      ((∃ failure, e = .failed failure e.after ∧ (∀ fault, failure ≠ .image fault) ∧
          (e.after = before ∨ ∃ format picture fault, a.chosenFormat = .ok format ∧
            failure = .file fault ∧
            (disk.files.write (a.target format) picture).run before =
              (.error fault, e.after))) ∨
        ∃ text format, e = .succeeded text e.after ∧ a.chosenFormat = .ok format ∧
          before.Spares (a.target format) e.after) := by
  cases chosen : a.chosenFormat with
  | error failure =>
    obtain ⟨path, -, -, unsupported⟩ := (chosenFormat_eq_error_iff a failure).mp chosen
    obtain ⟨wish, rfl⟩ := exists_wish_of_ofPath unsupported
    exact ⟨_, _, endsIn_of_chosenFormat_error chosen, Or.inl ⟨_, rfl, nofun, Or.inl rfl⟩⟩
  | ok format =>
    obtain ⟨answer, reading, -⟩ := disk.read_eq a.input before
    match answer with
    | .error fault =>
      exact ⟨_, _, endsIn_of_convert_error chosen (convert_of_unreadable reading),
        Or.inl ⟨_, rfl, nofun, Or.inl rfl⟩⟩
    | .ok [] =>
      exact ⟨_, _, endsIn_of_convert_error chosen (convert_of_empty reading),
        Or.inl ⟨_, rfl, nofun, Or.inl rfl⟩⟩
    | .ok (byte :: bytes) =>
      have busy : byte :: bytes ≠ [] := List.cons_ne_nil byte bytes
      by_cases blank : (decode .a4 (byte :: bytes)).report.IsBlank
      · exact ⟨_, _, endsIn_of_isBlank chosen busy reading blank,
          Or.inr ⟨_, format, rfl, rfl, rfl, fun _ _ => rfl⟩⟩
      · obtain ⟨b, picture, -, -, unwritten, written⟩ :=
          exists_picture_of_capture disk chosen busy reading blank
        cases said : ((disk.files.write (a.target format) picture).run before).1 with
        | error fault =>
          obtain ⟨log, ends⟩ := unwritten fault said
          exact ⟨log, _, ends, Or.inl ⟨_, rfl, nofun, Or.inr ⟨format, picture, fault, rfl, rfl,
            Prod.ext said rfl⟩⟩⟩
        | ok =>
          obtain ⟨⟨log, ends⟩, -, spares⟩ := written said
          exact ⟨log, _, ends, Or.inr ⟨_, format, rfl, rfl, spares⟩⟩

end Arguments

theorem run_of_parse {arguments : List String} {a : Arguments}
    (accepted : parse arguments = .ok (.run a)) {m : Type → Type} [Monad m]
    (files : FileAccess m) : run files arguments = a.run files := by
  rw [run, accepted]

/-- **How a run ends.**  The questions are asked in a fixed order, and the run ends with the first
wrong answer; a picture that cannot be made is none of them.

* Without a wish for a format, an output with another extension ends the run before any file is
  asked for.
* Then comes a capture that the disk does not read, or one without bytes.
* If the page is blank, the run succeeds and leaves all files as they are.
* In any other case the picture has a file in the chosen format.  If the disk writes it, the run
  succeeds, the target holds the bytes of the file, and all else is as it was.  If not, the run
  fails with the fault of the disk. -/
theorem run_ends (disk : Disk) (a : Arguments) (before : Volume) :
    let read := ((disk.files.read a.input).run before).1
    (∀ arguments, parse arguments = .ok (.run a) →
      CommandLine.run disk.files arguments = a.run disk.files) ∧
    (∃ log e, a.EndsIn disk.files before log e ∧
      ((∃ failure, e = .failed failure e.after ∧ (∀ fault, failure ≠ .image fault) ∧
          (e.after = before ∨ ∃ format picture fault, a.chosenFormat = .ok format ∧
            failure = .file fault ∧
            (disk.files.write (a.target format) picture).run before =
              (.error fault, e.after))) ∨
        ∃ text format, e = .succeeded text e.after ∧ a.chosenFormat = .ok format ∧
          before.Spares (a.target format) e.after)) ∧
    (∀ failure, a.chosenFormat = .error failure ↔
      ∃ path, a.format = none ∧ a.output = some path ∧
        Image.Format.ofPath path = .error failure) ∧
    (∀ failure, a.chosenFormat = .error failure →
      (∀ {m : Type → Type} [Monad m] (files : FileAccess m),
        a.run files = pure ⟨1, "", "Error: " ++ failure.message ++ "\n"⟩) ∧
      a.EndsIn disk.files before [] (.failed failure before)) ∧
    ∀ format, a.chosenFormat = .ok format →
      let target := a.target format
      (∀ fault, read = .error fault →
        a.EndsIn disk.files before [] (.failed (.file fault) before)) ∧
      (read = .ok [] →
        a.EndsIn disk.files before [.captureSize 0] (.failed .emptyInput before)) ∧
      ∀ bytes, read = .ok bytes → bytes ≠ [] →
        let d := decode .a4 bytes
        before.read a.input = .ok bytes ∧
        (d.report.IsBlank → ∃ log, a.EndsIn disk.files before log
          (.succeeded (a.answer d.report ("Nothing drawn, " ++ target.display ++ " not written"))
            before)) ∧
        (¬d.report.IsBlank → ∃ b picture,
          d.bitmap? = some b ∧ Image.File.ofBitmap b format = .ok picture ∧
          let written := (disk.files.write target picture).run before
          (∀ fault, written.1 = .error fault → ∃ log,
            a.EndsIn disk.files before log (.failed (.file fault) written.2)) ∧
          (written.1 = .ok () →
            (∃ log, a.EndsIn disk.files before log
              (.succeeded (a.answer d.report ("Saved to " ++ target.display)) written.2)) ∧
            written.2.read target = .ok picture.bytes.toList ∧
            before.Spares target written.2)) := by
  intro read
  obtain ⟨answer, reading, there⟩ := disk.read_eq a.input before
  have same : read = answer := congrArg Prod.fst reading
  refine ⟨fun _ accepted => run_of_parse accepted disk.files, a.exists_ending disk before,
    a.chosenFormat_eq_error_iff, fun failure h => ?_, fun format chosen => ⟨?_, ?_, ?_⟩⟩
  · exact ⟨fun files => Arguments.run_of_chosenFormat_error h files,
      Arguments.endsIn_of_chosenFormat_error h⟩
  · intro fault h
    rw [← same, h] at reading
    exact Arguments.endsIn_of_convert_error chosen (Arguments.convert_of_unreadable reading)
  · intro h
    rw [← same, h] at reading
    exact Arguments.endsIn_of_convert_error chosen (Arguments.convert_of_empty reading)
  · intro bytes h busy
    have held : before.read a.input = .ok bytes := there bytes (same.symm.trans h)
    rw [← same, h] at reading
    exact ⟨held, fun blank => ⟨_, Arguments.endsIn_of_isBlank chosen busy reading blank⟩,
      Arguments.exists_picture_of_capture disk chosen busy reading⟩

/-- A run whose target is a directory.  The disk refuses to write there. -/
theorem run_ends_refused :
    let bytes : List UInt8 := [0x1B, 0x2A, 0x00, 0x02, 0x00, 0xFF, 0xFF]
    let a : Arguments := ⟨.ofString "x.prn", none, none, false, 0⟩
    let before : Volume := ⟨[], [([Utf8.encode "x.prn"], .file (.raw bytes)),
      ([Utf8.encode "x.gif"], .directory)]⟩
    before.read a.input = .ok bytes ∧ a.chosenFormat = .ok .gif ∧
      a.target .gif = .ofString "x.gif" ∧ ¬(decode .a4 bytes).report.IsBlank ∧
      ∃ log, a.EndsIn Disk.sound.files before log (.failed (.file .isDirectory) before) := by
  intro bytes a before
  have held : before.read a.input = .ok bytes := by decide +kernel
  have chosen : a.chosenFormat = .ok .gif := rfl
  have busy : ¬(decode .a4 bytes).report.IsBlank := by decide +kernel
  have blocked : before.target (a.target .gif) = .error .isDirectory := by decide +kernel
  obtain ⟨-, -, -, -, ends⟩ := run_ends .sound a before
  obtain ⟨-, -, ends⟩ := ends .gif chosen
  obtain ⟨-, -, ends⟩ := ends bytes held nofun
  obtain ⟨b, picture, -, -, unwritten, -⟩ := ends busy
  have written : (Disk.sound.files.write (a.target .gif) picture).run before =
      (.error .isDirectory, before) := Volume.run_write_of_target_eq_error blocked picture
  rw [written] at unwritten
  obtain ⟨log, ending⟩ := unwritten .isDirectory rfl
  exact ⟨held, chosen, by decide +kernel, busy, log, ending⟩

end CommandLine
end DotMatrix
