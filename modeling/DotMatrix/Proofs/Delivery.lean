import DotMatrix.Proofs.Endings
import DotMatrix.Proofs.Printouts
import DotMatrix.Proofs.Sizes

/-!
# Rendering to a file, all or nothing

A picture is made before its file is opened.  Whatever can go wrong up to there, a path whose format
is not known, a panic, a page without a picture, a picture too large for its format, is known
without a file being asked for (`RendersIdly`).  That is a statement about every way of keeping
files at once: in any monad and with any access to files, the rendering is a plain value.

What is left is one write.  On a disk it changes one place at most, and if it succeeds, that place
holds the bytes of the new picture and none of an older one, however long that was
(`Volume.exists_target_of_write`, `Volume.read_write`).

All of this is about the picture that a machine has cropped, and nothing is assumed about the page,
the stream or the border.  Whether the picture is too large is not for the page alone to say.  If
the buffer of the page can be allocated, the stream is short and the border past the ink ends in a
word, it is the frame of the ink (`Canvas.IsFrame`), so that its size depends on the last ink, the
border and the page together.
-/

namespace DotMatrix

variable {m : Type → Type} [Monad m]

/-- The file at a path, in the format that is wished for, or else in that of its extension. -/
def PictureFile.ofWish (path : Path) : Option Image.Format → Except Failure PictureFile
  | some format => .ok ⟨path, format⟩
  | none => ofPath path

/-- Render a stream to the file at a path. -/
def renderTo (b : Build) (files : FileAccess m) (p : Page) (s : List UInt8) (path : Path)
    (wish : Option Image.Format) : m (Except Panic (Outcome Report)) :=
  match PictureFile.ofWish path wish with
  | .error failure => return .ok ⟨[], .error failure⟩
  | .ok f => renderIn b p s (f.deliver files)

/-- The result of a rendering that has not panicked. -/
def resultOf (answer : Except Panic (Outcome Report)) : Except Panic (Except Failure Report) :=
  answer.map Outcome.result

theorem eq_error_of_resultOf {answer : Except Panic (Outcome Report)} {panic : Panic}
    (h : resultOf answer = .error panic) : answer = .error panic := by
  cases answer with
  | error other => exact congrArg Except.error (Except.error.inj h)
  | ok o => exact nomatch h

/-- The rendering has a result, or panics, without asking for a file, however files are kept. -/
def RendersIdly (b : Build) (p : Page) (s : List UInt8) (path : Path) (wish : Option Image.Format)
    (result : Except Panic (Except Failure Report)) : Prop :=
  ∃ answer, resultOf answer = result ∧
    ∀ {m : Type → Type} [Monad m] [LawfulMonad m] (files : FileAccess m),
      renderTo b files p s path wish = pure answer

variable {b : Build} {p : Page} {s : List UInt8} {path : Path} {wish : Option Image.Format}
  {f : PictureFile} {d : Printout} {picture : Bitmap} {failure : Failure} {panic : Panic}
  {result : Except Panic (Except Failure Report)}

theorem PictureFile.path_of_ofWish (chosen : ofWish path wish = .ok f) : f.path = path := by
  cases wish with
  | some format =>
    obtain rfl := Except.ok.inj chosen
    rfl
  | none =>
    rw [ofWish, ofPath] at chosen
    cases found : Image.Format.ofPath path <;> rw [found] at chosen <;> cases chosen
    rfl

/-- What asks for no file leaves all files as they are. -/
theorem RendersIdly.run (idle : RendersIdly b p s path wish result)
    (files : FileAccess (StateM Volume)) (before : Volume) :
    resultOf ((renderTo b files p s path wish).run before).1 = result ∧
      ((renderTo b files p s path wish).run before).2 = before := by
  obtain ⟨answer, has, same⟩ := idle
  rw [same files]
  exact ⟨has, rfl⟩

/-! ## Blank pages -/

/-- A page is cropped to nothing exactly if one of its extents is zero. -/
theorem Memory.eq_none_iff_of_crop {m : Memory} {picture? : Option Bitmap}
    (crop : m.crop b = .ok picture?) : picture? = none ↔ m.maxX = 0 ∨ m.maxY = 0 := by
  rw [Memory.crop] at crop
  split at crop
  · next empty => exact iff_of_true (Except.ok.inj crop).symm empty
  · next busy =>
    obtain ⟨width, -, rest⟩ := Volume.bind_eq_ok_iff.mp crop
    obtain ⟨height, -, rest⟩ := Volume.bind_eq_ok_iff.mp rest
    obtain ⟨cut, -, last⟩ := Volume.bind_eq_ok_iff.mp rest
    refine iff_of_false (fun none => ?_) busy
    exact nomatch (Except.ok.inj last).trans none

/-- There is no picture exactly if the report says that the page is blank. -/
theorem eq_none_iff_of_cropIn {picture? : Option Bitmap}
    (crop : cropIn b p s = .ok (d, picture?)) : picture? = none ↔ d.report.IsBlank := by
  obtain ⟨d', decoded, rest⟩ := Volume.bind_eq_ok_iff.mp crop
  obtain ⟨found, cropped, last⟩ := Volume.bind_eq_ok_iff.mp rest
  obtain ⟨scanned, -, printed⟩ := Volume.bind_eq_ok_iff.mp decoded
  obtain ⟨rfl, rfl⟩ := Prod.mk.inj (Except.ok.inj last)
  obtain rfl := Except.ok.inj printed
  exact Memory.eq_none_iff_of_crop cropped

/-! ## Before the file is opened -/

/-- Without a format nothing is decoded. -/
theorem rendersIdly_of_error (chosen : PictureFile.ofWish path wish = .error failure) :
    RendersIdly b p s path wish (.ok (.error failure)) :=
  ⟨.ok ⟨[], .error failure⟩, rfl, fun files => by rw [renderTo, chosen]⟩

section

variable (chosen : PictureFile.ofWish path wish = .ok f)

include chosen

theorem rendersIdly_of_panic (failed : cropIn b p s = .error panic) :
    RendersIdly b p s path wish (.error panic) := by
  refine ⟨.error panic, rfl, fun files => ?_⟩
  rw [renderTo, chosen]
  simp only [renderIn, failed]

theorem rendersIdly_of_noPicture (crop : cropIn b p s = .ok (d, none)) :
    RendersIdly b p s path wish (.ok (.ok d.report)) := by
  refine ⟨.ok ⟨d.log ++ [.nothingDrawn], .ok d.report⟩, rfl, fun files => ?_⟩
  rw [renderTo, chosen]
  simp only [renderIn, crop]

theorem rendersIdly_of_unmade (crop : cropIn b p s = .ok (d, some picture))
    (unmade : Image.File.ofBitmap picture f.format = .error failure) :
    RendersIdly b p s path wish (.ok (.error failure)) := by
  refine ⟨.ok ⟨d.log ++ [], .error failure⟩, rfl, fun files => ?_⟩
  rw [renderTo, chosen]
  simp only [renderIn, crop, PictureFile.deliver, unmade, pure_bind]
  rfl

/-! ## Writing the file -/

variable {file : Image.File}

/-- The answer of the disk decides how the rendering ends. -/
theorem run_renderTo_of_made (disk : Disk) (before : Volume)
    (crop : cropIn b p s = .ok (d, some picture))
    (made : Image.File.ofBitmap picture f.format = .ok file) :
    let ended := (renderTo b disk.files p s path wish).run before
    let written := (disk.files.write path file).run before
    ended.2 = written.2 ∧
      (∀ fault, written.1 = .error fault → resultOf ended.1 = .ok (.error (.file fault))) ∧
      (written.1 = .ok () → resultOf ended.1 = .ok (.ok d.report)) := by
  intro ended written
  have run : ended =
      let delivered := f.ofAnswer picture written.1
      (.ok ⟨d.log ++ delivered.log, delivered.result.map fun _ => d.report⟩, written.2) := by
    simp only [ended, renderTo, chosen, renderIn, crop, PictureFile.deliver_of_made made,
      PictureFile.path_of_ofWish chosen]
    rfl
  rw [run]
  refine ⟨rfl, fun fault refused => ?_, fun done => ?_⟩
  · simp only [refused]
    rfl
  · simp only [done]
    rfl

/-- A rendering that succeeds has put the picture at the place of its path, and nothing
elsewhere. -/
theorem exists_target_of_renderTo {disk : Disk} {before : Volume} {report : Report}
    (crop : cropIn b p s = .ok (d, some picture))
    (made : Image.File.ofBitmap picture f.format = .ok file)
    (succeeded : resultOf ((renderTo b disk.files p s path wish).run before).1 =
      .ok (.ok report)) :
    let after := ((renderTo b disk.files p s path wish).run before).2
    report = d.report ∧ ∃ l, before.target path = .ok l ∧ after.home = before.home ∧
      (∀ k, after.find? k = if k = l then some (.file (.picture file)) else before.find? k) ∧
      after.read path = .ok file.bytes.toList := by
  intro after
  obtain ⟨after_eq, refused, done⟩ :=
    run_renderTo_of_made chosen disk before crop made
  cases answer : ((disk.files.write path file).run before).1 with
  | error fault => exact nomatch Except.ok.inj ((refused fault answer).symm.trans succeeded)
  | ok =>
    have written := disk.write_eq path file before after (Prod.ext answer after_eq.symm)
    obtain ⟨l, target, home, find?⟩ := Volume.exists_target_of_write written
    have report_eq := Except.ok.inj (Except.ok.inj (succeeded.symm.trans (done answer)))
    exact ⟨report_eq, l, target, home, find?, Volume.read_write written⟩

end

open Image

/-- **All or nothing.**  A machine renders any stream on any page.  If the format is not known, if
the machine panics, if the page is blank or if the picture cannot be made, nothing is asked of the
disk and all files are as they were.  A GIF cannot be made exactly if the picture is too wide, which
is reported first, or if it is too high.

In any other case the disk is asked to write once.  It spares all but the place of the path,
whatever it answers.  If the rendering succeeds, that place holds the file of the picture and
nothing else, and all other places are as they were.

The machine does not panic on a page whose buffer can be allocated, with a short stream and a border
past the ink that ends in a word, and then the picture is the frame of the ink. -/
theorem renderTo_allOrNothing (b : Build) (disk : Disk) (p : Page) (s : List UInt8) (path : Path)
    (wish : Option Format) (before : Volume) :
    let ended := (renderTo b disk.files p s path wish).run before
    let after := ended.2
    (∀ failure, PictureFile.ofWish path wish = .error failure →
      RendersIdly b p s path wish (.ok (.error failure)) ∧
        resultOf ended.1 = .ok (.error failure) ∧ after = before) ∧
    (∀ f, PictureFile.ofWish path wish = .ok f →
      (∀ panic, cropIn b p s = .error panic →
        RendersIdly b p s path wish (.error panic) ∧ ended.1 = .error panic ∧ after = before) ∧
      (∀ d, cropIn b p s = .ok (d, none) → d.report.IsBlank ∧
        RendersIdly b p s path wish (.ok (.ok d.report)) ∧
          resultOf ended.1 = .ok (.ok d.report) ∧ after = before) ∧
      (∀ d picture, cropIn b p s = .ok (d, some picture) → ¬d.report.IsBlank ∧
        (∀ failure, File.ofBitmap picture .gif = .error failure ↔
          65535 < picture.width ∧ failure = .image (.gifWidth picture.width) ∨
            picture.width ≤ 65535 ∧ 65535 < picture.height ∧
              failure = .image (.gifHeight picture.height)) ∧
        (∀ failure, File.ofBitmap picture f.format = .error failure →
          RendersIdly b p s path wish (.ok (.error failure)) ∧
            resultOf ended.1 = .ok (.error failure) ∧ after = before) ∧
        (∀ file, File.ofBitmap picture f.format = .ok file →
          let written := (disk.files.write path file).run before
          after = written.2 ∧ before.Spares path after ∧
            (∀ fault, written.1 = .error fault →
              resultOf ended.1 = .ok (.error (.file fault))) ∧
            (written.1 = .ok () → resultOf ended.1 = .ok (.ok d.report))) ∧
        ∀ report, resultOf ended.1 = .ok (.ok report) → report = d.report ∧
          ∃ file l, File.ofBitmap picture f.format = .ok file ∧ before.target path = .ok l ∧
            after.home = before.home ∧
            (∀ k, after.find? k =
              if k = l then some (.file (.picture file)) else before.find? k) ∧
            after.read path = .ok file.bytes.toList)) ∧
    (p.Allocatable → s.length ≤ 2 ^ 57 → (decode p s).canvas.BorderFits →
      ∃ picture?, cropIn b p s = .ok ((decode p s).printout, picture?) ∧
        (decode p s).canvas.page = p ∧
        ∀ picture ∈ picture?, (decode p s).canvas.IsFrame picture) := by
  intro ended after
  refine ⟨fun failure chosen => ?_, fun f chosen => ⟨fun panic failed => ?_, fun d crop => ?_,
    fun d picture crop => ?_⟩, fun room short border => ?_⟩
  · have idle := rendersIdly_of_error (b := b) (p := p) (s := s) chosen
    exact ⟨idle, idle.run disk.files before⟩
  · have idle := rendersIdly_of_panic chosen failed
    obtain ⟨result, same⟩ := idle.run disk.files before
    exact ⟨idle, eq_error_of_resultOf result, same⟩
  · have idle := rendersIdly_of_noPicture chosen crop
    exact ⟨(eq_none_iff_of_cropIn crop).mp rfl, idle, idle.run disk.files before⟩
  · have unmade : ∀ failure, File.ofBitmap picture f.format = .error failure →
        RendersIdly b p s path wish (.ok (.error failure)) ∧
          resultOf ended.1 = .ok (.error failure) ∧ after = before := by
      intro failure unmade
      have idle := rendersIdly_of_unmade chosen crop unmade
      exact ⟨idle, idle.run disk.files before⟩
    refine ⟨mt (eq_none_iff_of_cropIn crop).mpr nofun, fun failure => ?_, unmade,
      fun file made => ?_, fun report succeeded => ?_⟩
    · exact (File.ofBitmap_eq_error_iff picture .gif failure).trans
        (Gif.ofBitmap_eq_error_iff picture failure)
    · obtain ⟨after_eq, refused, done⟩ :=
        run_renderTo_of_made chosen disk before crop made
      have spared : before.Spares path after := by
        have spares := disk.spares path file before
        rwa [← after_eq] at spares
      exact ⟨after_eq, spared, refused, done⟩
    · cases made : File.ofBitmap picture f.format with
      | error failure =>
        exact nomatch Except.ok.inj (succeeded.symm.trans (unmade failure made).2.1)
      | ok file =>
        obtain ⟨report_eq, l, written⟩ := exists_target_of_renderTo chosen crop made succeeded
        exact ⟨report_eq, file, l, rfl, written⟩
  · refine ⟨_, cropIn_eq b room short border, page_decode p s, fun picture found => ?_⟩
    have busy : ¬(decode p s).report.IsBlank := fun blank => by
      rw [Option.mem_def, (bitmap?_decode_eq_none_iff p s).mpr blank] at found
      exact nomatch found
    obtain ⟨d, same, frame, -⟩ := exists_bitmap_decode busy
    obtain rfl := Option.some.inj (same.symm.trans found)
    exact frame

/-- A border that makes the picture too wide for a GIF.  An older file stays. -/
theorem renderTo_allOrNothing_wide :
    let p : Page := ⟨"wide", 70000, 16, 69999, 34⟩
    let s : List UInt8 := [0x1B, 0x2A, 0x00, 0x02, 0x00, 0x00, 0xFF]
    let path : Path := .ofString "x.gif"
    let before : Volume := ⟨[], [([path.bytes], .file (.raw [0x47, 0x49, 0x46]))]⟩
    PictureFile.ofWish path none = .ok ⟨path, .gif⟩ ∧ p.Allocatable ∧ s.length ≤ 2 ^ 57 ∧
      (decode p s).canvas.BorderFits ∧ ¬(decode p s).report.IsBlank ∧
      resultOf ((renderTo .checked Disk.sound.files p s path none).run before).1 =
        .ok (.error (.image (.gifWidth 70000))) ∧
      ((renderTo .checked Disk.sound.files p s path none).run before).2 = before := by
  intro p s path before
  have chosen : PictureFile.ofWish path none = .ok ⟨path, .gif⟩ := by decide +kernel
  have room : p.Allocatable := by decide
  have short : s.length ≤ 2 ^ 57 := by decide
  have border : (decode p s).canvas.BorderFits := by decide +kernel
  have busy : ¬(decode p s).report.IsBlank := by decide +kernel
  have wide : (decode p s).canvas.croppedWidth = 70000 := by decide +kernel
  obtain ⟨-, made, -⟩ := renderTo_allOrNothing .checked .sound p s path none before
  obtain ⟨picture, found, -⟩ := exists_bitmap_decode busy
  have crop := cropIn_eq .checked room short border
  rw [found] at crop
  obtain ⟨-, tooLarge, unmade, -⟩ := (made _ chosen).2.2 _ _ crop
  have width : picture.width = 70000 := (Canvas.width_of_cropped? found).trans wide
  have refused : File.ofBitmap picture .gif = .error (.image (.gifWidth picture.width)) :=
    (tooLarge _).mpr (Or.inl ⟨by rw [width]; decide, rfl⟩)
  obtain ⟨-, failed, untouched⟩ := unmade _ refused
  rw [width] at failed
  exact ⟨chosen, room, short, border, busy, failed, untouched⟩

end DotMatrix
