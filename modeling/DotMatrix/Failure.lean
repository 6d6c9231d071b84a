import DotMatrix.Report.Fault

/-!
# Failures

Everything that can go wrong with a run, as causes.  Decoding cannot fail; a failure comes from
reading a capture, from the wish for a format, or from making or writing a picture.  The wording is
in one function for each kind of cause, and `Failure.message` is what a user reads.
-/

namespace DotMatrix

/-- Why a bitmap does not fit a picture format. -/
inductive ImageFault where
  /-- A GIF is at most 65535 pixels wide. -/
  | gifWidth (width : Nat)
  /-- A GIF is at most 65535 pixels high. -/
  | gifHeight (height : Nat)
  /-- A PNG has at least one column. -/
  | pngZeroWidth
  /-- A PNG has at least one row. -/
  | pngZeroHeight
  /-- The packed rows are not as long as the size in the header of a PNG demands. -/
  | pngDataLength (expected actual : Nat)
  /-- A fault of another writer, in its own words. -/
  | described (text : String)
  deriving DecidableEq, Repr

/-- The words for a fault. -/
def ImageFault.text : ImageFault → String
  | gifWidth n => "GIF width " ++ n.repr ++ " out of range"
  | gifHeight n => "GIF height " ++ n.repr ++ " out of range"
  | pngZeroWidth => "Failed to encode PNG: Zero width not allowed"
  | pngZeroHeight => "Failed to encode PNG: Zero height not allowed"
  | pngDataLength expected actual =>
    "Failed to encode PNG: wrong data size, expected " ++ expected.repr ++ " got " ++ actual.repr
  | described text => text

/-- Why a file cannot be read or written. -/
inductive FileFault where
  /-- A name on the way is missing. -/
  | notFound
  /-- A directory stands where a file is wanted. -/
  | isDirectory
  /-- A file stands where a directory is wanted. -/
  | notDirectory
  /-- The file may not be used this way. -/
  | permissionDenied
  /-- A name is longer than a directory can hold. -/
  | nameTooLong
  /-- A name holds a zero byte. -/
  | zeroByte
  /-- A fault of another kind, in its own words. -/
  | described (text : String)
  deriving DecidableEq, Repr

/-- The words for a fault. -/
def FileFault.text : FileFault → String
  | notFound => "No such file or directory (os error 2)"
  | isDirectory => "Is a directory (os error 21)"
  | notDirectory => "Not a directory (os error 20)"
  | permissionDenied => "Permission denied (os error 13)"
  | nameTooLong => "File name too long (os error 36)"
  | zeroByte => "file name contained an unexpected NUL byte"
  | described text => text

/-- Why a run did not succeed. -/
inductive Failure where
  /-- The capture holds no byte. -/
  | emptyInput
  /-- Neither GIF nor PNG was asked for. -/
  | unsupportedFormat (wish : String)
  /-- The picture could not be made. -/
  | image (fault : ImageFault)
  /-- The report could not be written down. -/
  | report (fault : Report.Fault)
  /-- A file could not be read or written. -/
  | file (fault : FileFault)
  deriving DecidableEq, Repr

/-- What a user reads. -/
def Failure.message : Failure → String
  | emptyInput => "Input is empty"
  | unsupportedFormat wish => "Unsupported output format: " ++ wish
  | image fault => "Image error: " ++ fault.text
  | report fault => "Report error: " ++ fault.text
  | file fault => "I/O error: " ++ fault.text

end DotMatrix
