import DotMatrix.Failure
import DotMatrix.Log

/-!
# Outcomes

A piece of work that can fail leaves two things behind: the log of what happened on the way, which
is there in any case, and a result or the failure that took its place.
-/

namespace DotMatrix

/-- The log of a piece of work, and its result. -/
structure Outcome (α : Type) where
  /-- What happened, in order. -/
  log : List Log.Record
  /-- The result, or why there is none. -/
  result : Except Failure α

end DotMatrix
