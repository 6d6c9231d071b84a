import DotMatrix.Capture
import DotMatrix.CommandLine.Arguments
import DotMatrix.ControlSequence
import DotMatrix.Render
import DotMatrix.Report.Json

/-!
# A run of the command

A run reads the capture, renders it onto an A4 page and writes the picture.  The format is settled
before the capture is looked at, so a wish that cannot be met fails first.

A run that succeeds prints one thing to the standard output: the report if it was asked for,
otherwise a line that says whether the picture was written.  One that fails prints nothing there,
and its failure is the last line of the error output, behind the log.
-/

namespace DotMatrix
namespace CommandLine

/-- What a run leaves behind, apart from files. -/
structure Output where
  /-- Exit code of the command. -/
  exitCode : Nat
  /-- Text on the standard output. -/
  stdout : String
  /-- Text on the error output. -/
  stderr : String
  deriving DecidableEq, Repr

/-- Name of the command. -/
def programName : String := "estampa"

/-- Version of the command. -/
def programVersion : String := "0.1.0"

/-- The line that tells the version. -/
def versionText : String := programName ++ " " ++ programVersion ++ "\n"

/-- How the command is used. -/
def usage : String :=
  "Usage: " ++ programName ++ " [OPTIONS] <INPUT> [OUTPUT]\n"

/-- The text that explains the command. -/
def helpText : String :=
  "Render captured ESC/P printer output to an image\n\n" ++ usage ++
  "\nArguments:\n" ++
  "  <INPUT>   Captured printer stream\n" ++
  "  [OUTPUT]  Image to write (defaults to INPUT with the format's extension)\n" ++
  "\nOptions:\n" ++
  "      --format <FORMAT>  Image format (defaults to the OUTPUT extension, or GIF) " ++
  "[possible values: gif, png]\n" ++
  "      --report           Print a JSON summary of the decode to stdout\n" ++
  "  -v, --verbose...       Increase log verbosity (-v info, -vv debug, -vvv trace)\n" ++
  "  -h, --help             Print help\n" ++
  "  -V, --version          Print version\n"

/-- A text whose further lines stand four blanks to the right. -/
def indented (text : String) : String :=
  text.toList.foldl (fun out c => if c = '\n' then out ++ "\n    " else out.push c) ""

/-- A record of the log as printed.  The name of a file may hold control sequences, which are left
out of the log; one that is unfinished takes the end of the line with it. -/
def logLine (r : Log.Record) : String :=
  ControlSequence.strip (r.level.label ++ " " ++ indented r.text ++ "\n")

/-- The log up to a level as printed. -/
def logText (level : Log.Level) (records : List Log.Record) : String :=
  String.join ((Log.upTo (some level) records).map logLine)

/-- What a successful run says about its picture. -/
def summary (target : Path) (r : Report) : String :=
  if r.IsBlank then "Nothing drawn, " ++ target.display ++ " not written"
  else "Saved to " ++ target.display

namespace Arguments

/-- What a run with a log and a result for a picture leaves behind. -/
def conclude (a : Arguments) (target : Path) (o : Outcome Report) : Output :=
  match o.result with
  | .ok report =>
    ⟨0, (if a.report then report.pretty else summary target report) ++ "\n",
      logText a.logLevel o.log⟩
  | .error failure =>
    ⟨1, "", logText a.logLevel o.log ++ "Error: " ++ failure.message ++ "\n"⟩

variable {m : Type → Type} [Monad m]

/-- Render the capture to a picture in a format. -/
def convert (files : FileAccess m) (a : Arguments) (format : Image.Format) :
    m (Outcome Report) := do
  let capture ← Capture.read files a.input
  match capture.result with
  | .error failure => return ⟨capture.log, .error failure⟩
  | .ok bytes =>
    let rendered ← render .a4 bytes (PictureFile.deliver files ⟨a.target format, format⟩)
    return ⟨capture.log ++ rendered.log, rendered.result⟩

/-- A run with some arguments. -/
def run (files : FileAccess m) (a : Arguments) : m Output :=
  match a.chosenFormat with
  | .error failure => return a.conclude a.input ⟨[], .error failure⟩
  | .ok format => do
    return a.conclude (a.target format) (← a.convert files format)

end Arguments

variable {m : Type → Type} [Monad m]

/-- A run of the command. -/
def run (files : FileAccess m) (arguments : List String) : m Output :=
  match parse arguments with
  | .error misuse => return ⟨2, "", "error: " ++ misuse.text ++ "\n\n" ++ usage⟩
  | .ok .version => return ⟨0, versionText, ""⟩
  | .ok .help => return ⟨0, helpText, ""⟩
  | .ok (.run a) => a.run files

end CommandLine
end DotMatrix
