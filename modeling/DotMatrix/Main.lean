import DotMatrix.CommandLine.Run

/-!
# The command

The command runs on the files of the disk.  This module asks the system for files and prints; all
else is `CommandLine.run`.
-/

namespace DotMatrix
namespace CommandLine

/-- The fault that the system reports. -/
def faultOfError : IO.Error → FileFault
  | .noFileOrDirectory .. => .notFound
  | .permissionDenied .. => .permissionDenied
  | .inappropriateType _ code _ => if code = 21 then .isDirectory else .notDirectory
  | e => .described (toString e)

/-- Files on the disk. -/
def disk : FileAccess IO where
  read p := do
    try
      return .ok (← IO.FS.readBinFile p.display).toList
    catch e => return .error (faultOfError e)
  write p file := do
    try
      IO.FS.writeBinFile p.display ⟨file.bytes⟩
      return .ok ()
    catch e => return .error (faultOfError e)

end CommandLine
end DotMatrix

/-- Run the command with the given arguments. -/
def main (arguments : List String) : IO UInt32 := do
  let output ← DotMatrix.CommandLine.run DotMatrix.CommandLine.disk arguments
  (← IO.getStderr).putStr output.stderr
  (← IO.getStdout).putStr output.stdout
  return UInt32.ofNat output.exitCode
