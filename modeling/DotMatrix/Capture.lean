import DotMatrix.FileAccess
import DotMatrix.Outcome

/-!
# Captures

A capture is a file that holds the bytes of a print job.  It is read whole, its size is logged, and
a capture without bytes is refused.
-/

namespace DotMatrix
namespace Capture

variable {m : Type → Type} [Monad m]

/-- What becomes of the answer to reading a file. -/
def ofAnswer : Except FileFault (List UInt8) → Outcome (List UInt8)
  | .error fault => ⟨[], .error (.file fault)⟩
  | .ok [] => ⟨[.captureSize 0], .error .emptyInput⟩
  | .ok (b :: bytes) => ⟨[.captureSize (bytes.length + 1)], .ok (b :: bytes)⟩

/-- Read the capture at a path. -/
def read (files : FileAccess m) (p : Path) : m (Outcome (List UInt8)) := do
  return ofAnswer (← files.read p)

end Capture
end DotMatrix
