import DotMatrix.Image.Format
import DotMatrix.Log

/-!
# The arguments of the command

    <INPUT> [OUTPUT] [--format gif|png] [--report] [-v|--verbose]... [-V|--version]

Arguments are read from left to right.  The first one that is wrong decides, and so does a wish for
the version or for help that comes before it; whatever follows is not looked at.  A value for the
format is the next argument, or stands behind an equals sign; the letters of several short options
can stand behind one dash.  After `--` nothing is an option any more, and a dash alone never is.

The arguments that are read here are texts.  A file name need not be one, and `Arguments` has paths
of any bytes, so that a run is about every name a system can hand over.
-/

namespace DotMatrix
namespace CommandLine

/-- What a run is asked to do. -/
structure Arguments where
  /-- The capture to render. -/
  input : Path
  /-- The picture to write, if it is named. -/
  output : Option Path
  /-- The format, if it is asked for. -/
  format : Option Image.Format
  /-- The report is asked for. -/
  report : Bool
  /-- How often more log was asked for. -/
  verbosity : Nat
  deriving DecidableEq, Repr

/-- What the arguments ask for. -/
inductive Request where
  | run (arguments : Arguments)
  | version
  | help
  deriving DecidableEq, Repr

/-- What is wrong with the arguments. -/
inductive Misuse where
  /-- An option that does not exist, a value for an option that takes none, or a name too many. -/
  | unexpected (argument : String)
  /-- An option that stands twice. -/
  | repeated (option : String)
  /-- A format that does not exist, or none after the option. -/
  | badFormat (value : Option String)
  /-- An empty file name. -/
  | emptyName
  /-- No capture is named. -/
  | missingInput
  deriving DecidableEq, Repr

/-- What the arguments read so far ask for. -/
structure Draft where
  /-- The capture to render. -/
  input : Option Path := none
  /-- The picture to write. -/
  output : Option Path := none
  /-- The format. -/
  format : Option Image.Format := none
  /-- The report is asked for. -/
  report : Bool := false
  /-- How often more log was asked for. -/
  verbosity : Nat := 0
  deriving DecidableEq, Repr

namespace Draft

/-- What a draft without further arguments asks for. -/
def finish (d : Draft) : Except Misuse Request :=
  match d.input with
  | none => .error .missingInput
  | some input => .ok (.run ⟨input, d.output, d.format, d.report, d.verbosity⟩)

/-- A draft with one more file name. -/
def withName (d : Draft) (name : String) : Except Misuse Draft :=
  if name = "" then .error .emptyName
  else if d.input.isNone then .ok { d with input := some (.ofString name) }
  else if d.output.isNone then .ok { d with output := some (.ofString name) }
  else .error (.unexpected name)

/-- A draft with a format. -/
def withFormat (d : Draft) (value : String) : Except Misuse Draft :=
  if d.format.isSome then .error (.repeated "--format")
  else if value = "gif" then .ok { d with format := some .gif }
  else if value = "png" then .ok { d with format := some .png }
  else .error (.badFormat (some value))

/-- A draft with the wish for a report. -/
def withReport (d : Draft) : Except Misuse Draft :=
  if d.report then .error (.repeated "--report") else .ok { d with report := true }

/-- A draft with the wish for more log. -/
def withVerbose (d : Draft) : Draft := { d with verbosity := d.verbosity + 1 }

/-- A draft with file names only to come. -/
def withNames (d : Draft) : List String → Except Misuse Request
  | [] => d.finish
  | name :: names => do (← d.withName name).withNames names

end Draft

/-- A draft after some short options, or the request that one of them is. -/
def readLetters (d : Draft) (argument : String) : List Char → Except Misuse (Draft ⊕ Request)
  | [] => .ok (.inl d)
  | 'v' :: letters => readLetters d.withVerbose argument letters
  | 'V' :: _ => .ok (.inr .version)
  | 'h' :: _ => .ok (.inr .help)
  | _ :: _ => .error (.unexpected argument)

/-- The value behind the equals sign of `--format=`. -/
def formatValue? (argument : String) : Option String :=
  let opening := "--format=".toList
  if opening.isPrefixOf argument.toList then
    some (String.ofList (argument.toList.drop opening.length))
  else none

/-- The request of some arguments, after those of a draft. -/
def readArguments (d : Draft) : List String → Except Misuse Request
  | [] => d.finish
  | "--" :: names => d.withNames names
  | "--version" :: _ => .ok .version
  | "--help" :: _ => .ok .help
  | "--verbose" :: rest => readArguments d.withVerbose rest
  | "--report" :: rest => do readArguments (← d.withReport) rest
  | "--format" :: value :: rest => do readArguments (← d.withFormat value) rest
  | "--format" :: [] => .error (.badFormat none)
  | argument :: rest =>
    match formatValue? argument with
    | some value => do readArguments (← d.withFormat value) rest
    | none =>
      match argument.toList with
      | '-' :: '-' :: _ => .error (.unexpected argument)
      | '-' :: letter :: letters => do
        match ← readLetters d argument (letter :: letters) with
        | .inl d => readArguments d rest
        | .inr request => return request
      | _ => do readArguments (← d.withName argument) rest

/-- The request of the arguments of the command. -/
def parse (arguments : List String) : Except Misuse Request := readArguments {} arguments

namespace Misuse

/-- The words for a misuse. -/
def text : Misuse → String
  | unexpected argument => "unexpected argument '" ++ argument ++ "' found"
  | repeated option => "the argument '" ++ option ++ "' cannot be used multiple times"
  | badFormat none => "a value is required for '--format <FORMAT>' but none was supplied"
  | badFormat (some value) => "invalid value '" ++ value ++ "' for '--format <FORMAT>'"
  | emptyName => "a value is required for a file name but none was supplied"
  | missingInput => "the following required arguments were not provided: <INPUT>"

end Misuse

namespace Arguments

/-- How far down the log is shown: warnings, and one level more for every wish for more. -/
def logLevel (a : Arguments) : Log.Level :=
  match a.verbosity with
  | 0 => .warn
  | 1 => .info
  | 2 => .debug
  | _ => .trace

/-- The format to write: the one asked for, else that of the named picture, else GIF. -/
def chosenFormat (a : Arguments) : Except Failure Image.Format :=
  match a.format, a.output with
  | some format, _ => .ok format
  | none, some path => Image.Format.ofPath path
  | none, none => .ok default

/-- The picture to write in a format: the one named, else the capture with the format's
extension. -/
def target (a : Arguments) (format : Image.Format) : Path :=
  a.output.getD (a.input.withExtension format.extension)

end Arguments
end CommandLine
end DotMatrix
