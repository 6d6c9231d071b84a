import DotMatrix.Utf8

/-!
# Paths

A path is a list of bytes in which a slash separates segments; the bytes need not be text.  Its name
is the last segment, where slashes and segments of a single dot at the end do not count.  A path
such as `/` or `.` has no name, and neither has one whose last segment is `..`.

The name is split at its last dot into a stem and an extension, unless nothing precedes that dot:
a hidden file such as `.profile` is all stem.

`Path.withExtension` exchanges the extension.  The old extension's bytes are first taken off the
end of the whole path, and the name and stem are those of what remains; only the slashes and single
dots after the name can be hit by that, and they go with it, with one exception.  A name of two dots
and an extension is reduced to the two dots, which are no name, so that `..prn` becomes `..`.
-/

namespace DotMatrix

/-- A path: segments of bytes separated by slashes. -/
structure Path where
  /-- The bytes of the path. -/
  bytes : List UInt8
  deriving DecidableEq, Repr

namespace Path

/-- The byte between two segments. -/
def slash : UInt8 := 0x2F

/-- The byte before an extension. -/
def dot : UInt8 := 0x2E

/-- The path of a text. -/
def ofString (s : String) : Path := ⟨Utf8.encode s⟩

/-- The path as shown to a reader. -/
def display (p : Path) : String := Utf8.lossy p.bytes

/-! ## Segments -/

/-- The bytes between slashes, empty ones included. -/
def split : List UInt8 → List (List UInt8)
  | [] => [[]]
  | b :: rest =>
    if b = slash then [] :: split rest
    else
      match split rest with
      | [] => [[b]]
      | segment :: segments => (b :: segment) :: segments

/-- The segments of a path. -/
def segments (p : Path) : List (List UInt8) := (split p.bytes).filter (· ≠ [])

/-- The path starts at the root. -/
def IsAbsolute (p : Path) : Prop := p.bytes.head? = some slash

instance (p : Path) : Decidable p.IsAbsolute :=
  inferInstanceAs (Decidable (p.bytes.head? = some slash))

/-- The path ends in a slash. -/
def EndsInSlash (p : Path) : Prop := p.bytes.getLast? = some slash

instance (p : Path) : Decidable p.EndsInSlash :=
  inferInstanceAs (Decidable (p.bytes.getLast? = some slash))

/-! ## Names -/

/-- The reversed bytes of a path without slashes and single dots at its end. -/
def trimmed : List UInt8 → List UInt8
  | [] => []
  | b :: rest =>
    if b = slash then trimmed rest
    else if b = dot ∧ (rest = [] ∨ rest.head? = some slash) then trimmed rest
    else b :: rest

/-- The bytes up to the last segment, and the last segment, with slashes and single dots at the end
left out. -/
def splitLast (p : Path) : List UInt8 × List UInt8 :=
  let s := trimmed p.bytes.reverse
  ((s.dropWhile (· ≠ slash)).reverse, (s.takeWhile (· ≠ slash)).reverse)

/-- The bytes up to the name, and the name. -/
def splitName? (p : Path) : Option (List UInt8 × List UInt8) :=
  let (directory, name) := p.splitLast
  if name = [] ∨ name = [dot, dot] then none else some (directory, name)

/-- The name of a path. -/
def name? (p : Path) : Option (List UInt8) := p.splitName?.map (·.2)

/-- A name as its stem and its extension. -/
def splitStem (name : List UInt8) : List UInt8 × Option (List UInt8) :=
  let s := name.reverse
  match s.dropWhile (· ≠ dot) with
  | [] | [_] => (name, none)
  | _ :: stem => (stem.reverse, some (s.takeWhile (· ≠ dot)).reverse)

/-- The name without its extension. -/
def stem? (p : Path) : Option (List UInt8) := p.name?.map fun name => (splitStem name).1

/-- The extension of the name. -/
def extension? (p : Path) : Option (List UInt8) := p.name?.bind fun name => (splitStem name).2

/-! ## Exchanging the extension -/

/-- The path without as many bytes at its end as its extension has. -/
def shortened (p : Path) : Path :=
  match p.extension? with
  | some extension => ⟨p.bytes.take (p.bytes.length - extension.length)⟩
  | none => p

/-- The path up to its stem, followed by a dot and an extension; a path without a name as it is. -/
def extend (p : Path) (extension : List UInt8) : Path :=
  match p.splitName? with
  | some (directory, name) => ⟨directory ++ (splitStem name).1 ++ dot :: extension⟩
  | none => p

/-- The path with another extension in place of its own. -/
def withExtension (p : Path) (extension : List UInt8) : Path := p.shortened.extend extension

end Path
end DotMatrix
