import DotMatrix.Failure
import DotMatrix.Image.File
import DotMatrix.Path

/-!
# Access to files

All that the program does with files is to read one whole and to write a picture to one.  Both are
asked of a `FileAccess`, so that the same program runs on a volume that is a value and on the disk.
-/

namespace DotMatrix

/-- How files are read and written. -/
structure FileAccess (m : Type → Type) where
  /-- The bytes of the file at a path. -/
  read : Path → m (Except FileFault (List UInt8))
  /-- Make a picture the whole content of the file at a path, which need not exist. -/
  write : Path → Image.File → m (Except FileFault Unit)

end DotMatrix
