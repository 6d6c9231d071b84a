import DotMatrix.FileAccess

/-!
# Volumes

A volume is a tree of directories and files, kept as a list of entries under their locations.  A
location is the list of names from the root down.  The home directory is where relative paths start;
it and the directories above it are always there.

Paths are followed one segment at a time.  A segment is looked up in a directory only, so a path
through a file fails, be it a single dot or a slash at the end that follows.  Reading needs a file
at the end of the path.  Writing needs the directory above; the name itself may be missing, and
then the file is made.  A path to be written that ends in a slash, in a dot or in two dots means a
directory, whatever is there.

`Volume.read` and `Volume.write` are the two operations, and `Volume.find?` is the view of a volume;
`find?_put` says that writing changes one location and no other.
-/

namespace DotMatrix

/-- Names from the root down. -/
abbrev Location := List (List UInt8)

/-- What is in a file. -/
inductive Content where
  /-- Some bytes. -/
  | raw (bytes : List UInt8)
  /-- A picture. -/
  | picture (file : Image.File)
  deriving DecidableEq

/-- The bytes in a file. -/
def Content.bytes : Content → List UInt8
  | raw bytes => bytes
  | picture file => file.bytes.toList

/-- What is at a location. -/
inductive Entry where
  | directory
  | file (content : Content)
  deriving DecidableEq

/-- Directories and files. -/
structure Volume where
  /-- Where relative paths start. -/
  home : Location
  /-- What is where. -/
  entries : List (Location × Entry)

namespace Volume

/-- What is at a location.  The home directory and those above it are always there. -/
def find? (v : Volume) (l : Location) : Option Entry :=
  if l.isPrefixOf v.home then some .directory
  else (v.entries.find? fun e => e.1 = l).map (·.2)

/-- The volume with something else at a location. -/
def put (v : Volume) (l : Location) (e : Entry) : Volume :=
  { v with entries := (l, e) :: v.entries.filter fun e => e.1 ≠ l }

/-- Putting something at a location changes what is there and nothing else. -/
theorem find?_put (v : Volume) (l k : Location) (e : Entry) (h : l.isPrefixOf v.home = false) :
    (v.put l e).find? k = if k = l then some e else v.find? k := by
  by_cases same : k = l
  · subst same
    simp [find?, put, h]
  · have differs : ¬l = k := fun e => same e.symm
    have kept : (v.entries.filter fun e => decide (e.1 ≠ l)).find? (fun e => decide (e.1 = k)) =
        v.entries.find? fun e => decide (e.1 = k) := by
      rw [List.find?_filter]
      congr 1
      funext e
      by_cases hk : e.1 = k
      · simp [hk, same]
      · simp [hk]
    simp only [find?, put, List.find?_cons, differs, decide_false, if_neg same]
    rw [kept]

/-! ## Following a path -/

/-- Longest name a directory can hold. -/
def nameLimit : Nat := 255

/-- Longest path that is followed. -/
def pathLimit : Nat := 4095

/-- A segment that stands for the directory it is looked up in. -/
def here : List UInt8 := [Path.dot]

/-- A segment that stands for the directory above the one it is looked up in. -/
def above : List UInt8 := [Path.dot, Path.dot]

/-- Look one segment up at a location. -/
def lookUp (v : Volume) (l : Location) (segment : List UInt8) : Except FileFault Location :=
  match v.find? l with
  | none => .error .notFound
  | some (.file _) => .error .notDirectory
  | some .directory =>
    if segment = here then .ok l
    else if segment = above then .ok l.dropLast
    else if nameLimit < segment.length then .error .nameTooLong
    else .ok (l ++ [segment])

/-- Follow segments from a location. -/
def follow (v : Volume) (l : Location) : List (List UInt8) → Except FileFault Location
  | [] => .ok l
  | segment :: segments => do
    let next ← v.lookUp l segment
    v.follow next segments

/-- Where the segments of a path start. -/
def base (v : Volume) (p : Path) : Location := if p.IsAbsolute then [] else v.home

/-- A path that cannot name anything: empty, too long, or with a zero byte. -/
def malformed? (p : Path) : Option FileFault :=
  if 0 ∈ p.bytes then some .zeroByte
  else if p.bytes = [] then some .notFound
  else if pathLimit < p.bytes.length then some .nameTooLong
  else none

/-! ## Reading and writing -/

/-- The bytes of the file at a path. -/
def read (v : Volume) (p : Path) : Except FileFault (List UInt8) :=
  match malformed? p with
  | some fault => .error fault
  | none => do
    let l ← v.follow (v.base p) (p.segments ++ if p.EndsInSlash then [here] else [])
    match v.find? l with
    | none => .error .notFound
    | some .directory => .error .isDirectory
    | some (.file content) => .ok content.bytes

/-- Where a file is made or replaced when a path is written. -/
def target (v : Volume) (p : Path) : Except FileFault Location :=
  match malformed? p with
  | some fault => .error fault
  | none =>
    match p.segments.getLast? with
    | none => .error .isDirectory
    | some name => do
      let directory ← v.follow (v.base p) p.segments.dropLast
      match v.find? directory with
      | none => .error .notFound
      | some (.file _) => .error .notDirectory
      | some .directory =>
        if name = here ∨ name = above ∨ p.EndsInSlash then .error .isDirectory
        else
          let l ← v.lookUp directory name
          match v.find? l with
          | some .directory => .error .isDirectory
          | _ => .ok l

/-- The volume with a picture as the whole content of the file at a path. -/
def write (v : Volume) (p : Path) (file : Image.File) : Except FileFault Volume :=
  (v.target p).map fun l => v.put l (.file (.picture file))

/-- Files of a volume that is carried along. -/
def access : FileAccess (StateM Volume) where
  read p := fun v => (v.read p, v)
  write p file := fun v =>
    match v.write p file with
    | .ok v => (.ok (), v)
    | .error fault => (.error fault, v)

/-! ## Filling a volume -/

/-- A volume without files. -/
def empty (home : Location) : Volume := ⟨home, []⟩

/-- A volume with the directories above a location, as far as they are missing. -/
def withParents (v : Volume) (l : Location) : Volume :=
  (List.range l.length).foldl
    (fun v n => if (v.find? (l.take n)).isSome then v else v.put (l.take n) .directory) v

/-- A volume with a directory at a location, and the directories above it. -/
def withDirectory (v : Volume) (l : Location) : Volume :=
  let v := v.withParents l
  if (v.find? l).isSome then v else v.put l .directory

/-- A volume with a file at a location, and the directories above it. -/
def withFile (v : Volume) (l : Location) (content : Content) : Volume :=
  (v.withParents l).put l (.file content)

/-- The files that are different in a volume from what they were before, with their locations under
the home directory. -/
def changes (before after : Volume) : List (Location × Content) :=
  after.entries.filterMap fun (l, e) =>
    match e with
    | .directory => none
    | .file content =>
      if before.find? l = some e ∨ ¬after.home.isPrefixOf l then none
      else some (l.drop after.home.length, content)

end Volume
end DotMatrix
