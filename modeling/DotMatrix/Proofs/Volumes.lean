import DotMatrix.Volume
import Mathlib.Data.List.Infix

/-!
# Names on a volume

Reading and writing follow a path in different words: one goes to the end of the path and asks for a
file there, the other stops at the directory above and asks what the last segment may become.
`Volume.Names` is what they have in common.  A path that can be read names an entry of a directory
(`names_of_read`), and so does one that can be written (`names_of_target`).

For reading, the crux is that nothing but a name leads to a file.  A dot, two dots and a slash at
the end lead to directories, the two dots because every directory above a location is there
(`Rooted.follow`).

Following asks for directories only.  A volume that keeps the directories of another one therefore
follows every path as that one did (`Keeps.names`), and since a file is never written where a
directory is, what is written at a path is read back there (`read_write`).

A `Disk` gives access to volumes and may refuse it.  What it reads is there, what it has written is
what it was asked to write, and writing that has gone wrong spares all but the one place where the
file was to be.
-/

namespace DotMatrix
namespace Volume

theorem bind_eq_ok_iff {ε α β : Type} {x : Except ε α} {f : α → Except ε β} {b : β} :
    x >>= f = .ok b ↔ ∃ a, x = .ok a ∧ f a = .ok b := by
  cases x <;> simp [bind, Except.bind]

/-! ## Following segments -/

theorem lookUp_eq_ok_iff (v : Volume) (l k : Location) (segment : List UInt8) :
    v.lookUp l segment = .ok k ↔ v.find? l = some .directory ∧
      (segment = here ∧ k = l ∨ segment = above ∧ k = l.dropLast ∨
        segment ≠ here ∧ segment ≠ above ∧ segment.length ≤ nameLimit ∧ k = l ++ [segment]) := by
  have differ : here ≠ above := by decide
  rw [lookUp]
  split
  · next missing => simp [missing]
  · next found => simp [found]
  · next found =>
    by_cases isHere : segment = here
    · simp [found, isHere, differ, eq_comm]
    · by_cases isAbove : segment = above
      · simp [found, isAbove, differ.symm, eq_comm]
      · by_cases long : nameLimit < segment.length
        · simp [found, isHere, isAbove, long, Nat.not_le_of_lt long]
        · simp [found, isHere, isAbove, long, Nat.le_of_not_lt long, eq_comm]

theorem follow_append (v : Volume) (l : Location) (as bs : List (List UInt8)) :
    v.follow l (as ++ bs) = v.follow l as >>= fun m => v.follow m bs := by
  induction as generalizing l with
  | nil => rfl
  | cons a as ih =>
    show (v.lookUp l a >>= fun m => v.follow m (as ++ bs)) =
      (v.lookUp l a >>= fun m => v.follow m as) >>= fun m => v.follow m bs
    cases v.lookUp l a with
    | error fault => rfl
    | ok m => exact ih m

theorem follow_concat_eq_ok_iff (v : Volume) (l k : Location) (segments : List (List UInt8))
    (segment : List UInt8) :
    v.follow l (segments ++ [segment]) = .ok k ↔
      ∃ m, v.follow l segments = .ok m ∧ v.lookUp m segment = .ok k := by
  have last : ∀ m, v.follow m [segment] = .ok k ↔ v.lookUp m segment = .ok k := fun m => by
    show (v.lookUp m segment >>= fun next => .ok next) = .ok k ↔ _
    simp [bind_eq_ok_iff]
  rw [follow_append, bind_eq_ok_iff]
  simp only [last]

/-- The directories above a location are there. -/
def Rooted (v : Volume) (l : Location) : Prop := ∀ k, k <+: l → k ≠ l → v.find? k = some .directory

theorem find?_base (v : Volume) (p : Path) : v.find? (v.base p) = some .directory := by
  rw [find?, base]
  split <;> simp [List.isPrefixOf_iff_prefix]

theorem rooted_base (v : Volume) (p : Path) : v.Rooted (v.base p) := by
  intro k above _
  have home : k <+: v.home := by
    rw [base] at above
    split at above
    · exact above.trans List.nil_prefix
    · exact above
  rw [find?, if_pos (List.isPrefixOf_iff_prefix.mpr home)]

theorem Rooted.dropLast {v : Volume} {l : Location} (h : v.Rooted l)
    (directory : v.find? l = some .directory) :
    v.Rooted l.dropLast ∧ v.find? l.dropLast = some .directory := by
  have up : l.dropLast <+: l := List.dropLast_prefix l
  have all : ∀ k, k <+: l → v.find? k = some .directory := fun k above => by
    by_cases same : k = l
    · exact same ▸ directory
    · exact h k above same
  exact ⟨fun k above _ => all k (above.trans up), all _ up⟩

theorem Rooted.concat {v : Volume} {l : Location} (h : v.Rooted l)
    (directory : v.find? l = some .directory) (name : List UInt8) : v.Rooted (l ++ [name]) := by
  intro k above ne
  rcases List.prefix_concat_iff.mp above with same | above
  · exact absurd same ne
  · by_cases same : k = l
    · exact same ▸ directory
    · exact h k above same

theorem Rooted.lookUp {v : Volume} {l k : Location} (h : v.Rooted l) {segment : List UInt8}
    (found : v.lookUp l segment = .ok k) : v.Rooted k := by
  obtain ⟨directory, ⟨-, rfl⟩ | ⟨-, rfl⟩ | ⟨-, -, -, rfl⟩⟩ := (lookUp_eq_ok_iff ..).mp found
  · exact h
  · exact (h.dropLast directory).1
  · exact h.concat directory segment

theorem Rooted.follow {v : Volume} {l k : Location} (h : v.Rooted l)
    {segments : List (List UInt8)} (found : v.follow l segments = .ok k) : v.Rooted k := by
  induction segments generalizing l with
  | nil => exact Except.ok.inj found ▸ h
  | cons segment segments ih =>
    obtain ⟨m, first, rest⟩ := bind_eq_ok_iff.mp found
    exact ih (h.lookUp first) rest

/-! ## Names -/

/-- The path names an entry of a directory that is there: its last segment is a name, and the
segments before it lead to the directory. -/
structure Names (v : Volume) (p : Path) (directory : Location) (name : List UInt8) : Prop where
  wellFormed : malformed? p = none
  noSlash : ¬p.EndsInSlash
  leads : ∃ segments, p.segments = segments ++ [name] ∧ v.follow (v.base p) segments = .ok directory
  found : v.find? directory = some .directory
  proper : name ≠ here ∧ name ≠ above
  short : name.length ≤ nameLimit

theorem Names.follow {v : Volume} {p : Path} {directory : Location} {name : List UInt8}
    (h : v.Names p directory name) :
    v.follow (v.base p) p.segments = .ok (directory ++ [name]) := by
  obtain ⟨segments, split, leads⟩ := h.leads
  rw [split, follow_concat_eq_ok_iff]
  refine ⟨directory, leads, (lookUp_eq_ok_iff ..).mpr ⟨h.found, Or.inr (Or.inr ?_)⟩⟩
  exact ⟨h.proper.1, h.proper.2, h.short, rfl⟩

/-- A path leads from a directory to a file by a name only. -/
theorem exists_name_of_follow {v : Volume} {l k : Location} (h : v.Rooted l)
    (start : v.find? l = some .directory) {segments : List (List UInt8)}
    (found : v.follow l segments = .ok k) (file : v.find? k ≠ some .directory) :
    ∃ initial name directory, segments = initial ++ [name] ∧ v.follow l initial = .ok directory ∧
      v.find? directory = some .directory ∧ (name ≠ here ∧ name ≠ above) ∧
      name.length ≤ nameLimit ∧ k = directory ++ [name] := by
  rcases List.eq_nil_or_concat' segments with rfl | ⟨initial, name, rfl⟩
  · exact absurd (Except.ok.inj found ▸ start) file
  · obtain ⟨directory, leads, last⟩ := (follow_concat_eq_ok_iff ..).mp found
    obtain ⟨there, ⟨-, rfl⟩ | ⟨-, rfl⟩ | ⟨notHere, notAbove, short, rfl⟩⟩ :=
      (lookUp_eq_ok_iff ..).mp last
    · exact absurd there file
    · exact absurd ((h.follow leads).dropLast there).2 file
    · exact ⟨initial, name, directory, rfl, leads, there, ⟨notHere, notAbove⟩, short, rfl⟩

/-- What can be read is a file that the path names. -/
theorem names_of_read {v : Volume} {p : Path} {bytes : List UInt8} (h : v.read p = .ok bytes) :
    ∃ directory name content, v.Names p directory name ∧
      v.find? (directory ++ [name]) = some (.file content) ∧ content.bytes = bytes := by
  rw [read] at h
  cases malformed : malformed? p with
  | some fault => simp [malformed] at h
  | none =>
    simp only [malformed] at h
    obtain ⟨l, follows, ends⟩ := bind_eq_ok_iff.mp h
    split at ends
    · exact nomatch ends
    · exact nomatch ends
    · next content file =>
      have notDirectory : v.find? l ≠ some .directory := by simp [file]
      obtain ⟨initial, name, directory, split, leads, there, proper, short, rfl⟩ :=
        exists_name_of_follow (v.rooted_base p) (v.find?_base p) follows notDirectory
      -- A slash at the end stands for a further segment, a dot, which is no name.
      have noSlash : ¬p.EndsInSlash := fun slash => by
        rw [if_pos slash] at split
        have last : here = name := List.singleton_inj.mp (List.append_inj_right' split rfl)
        exact proper.1 last.symm
      rw [if_neg noSlash, List.append_nil] at split
      exact ⟨directory, name, content, ⟨malformed, noSlash, ⟨initial, split, leads⟩, there, proper,
        short⟩, file, Except.ok.inj ends⟩

theorem Names.read {v : Volume} {p : Path} {directory : Location} {name : List UInt8}
    (h : v.Names p directory name) {content : Content}
    (file : v.find? (directory ++ [name]) = some (.file content)) :
    v.read p = .ok content.bytes := by
  rw [Volume.read]
  simp only [h.wellFormed, if_neg h.noSlash, List.append_nil, h.follow, file, bind, Except.bind]

/-- What can be written is an entry that the path names, and no directory. -/
theorem names_of_target {v : Volume} {p : Path} {l : Location} (h : v.target p = .ok l) :
    ∃ directory name, v.Names p directory name ∧ l = directory ++ [name] ∧
      v.find? l ≠ some .directory := by
  rw [target] at h
  cases malformed : malformed? p with
  | some fault => simp [malformed] at h
  | none =>
    rcases List.eq_nil_or_concat' p.segments with empty | ⟨initial, name, split⟩
    · simp [malformed, empty] at h
    · simp only [malformed, split, List.getLast?_append, List.getLast?_singleton, Option.some_or,
        List.dropLast_concat] at h
      obtain ⟨directory, leads, h⟩ := bind_eq_ok_iff.mp h
      split at h
      · exact nomatch h
      · exact nomatch h
      · next there =>
        split at h
        · exact nomatch h
        · next proper =>
          obtain ⟨notHere, notAbove, noSlash⟩ : name ≠ here ∧ name ≠ above ∧ ¬p.EndsInSlash := by
            simpa only [not_or] using proper
          obtain ⟨k, last, ends⟩ := bind_eq_ok_iff.mp h
          obtain ⟨-, short, rfl⟩ : v.find? directory = some .directory ∧
              name.length ≤ nameLimit ∧ k = directory ++ [name] := by
            simpa [lookUp_eq_ok_iff, notHere, notAbove] using last
          split at ends
          · exact nomatch ends
          · next notDirectory =>
            obtain rfl := Except.ok.inj ends
            exact ⟨directory, name, ⟨malformed, noSlash, ⟨initial, split, leads⟩, there,
              ⟨notHere, notAbove⟩, short⟩, rfl, notDirectory⟩

/-! ## Volumes that keep the directories of others -/

/-- The second volume has the home of the first and all of its directories. -/
structure Keeps (v w : Volume) : Prop where
  home : w.home = v.home
  directory : ∀ l, v.find? l = some .directory → w.find? l = some .directory

namespace Keeps

variable {v w : Volume} (h : v.Keeps w)
include h

theorem base (p : Path) : w.base p = v.base p := by
  rw [Volume.base, Volume.base, h.home]

theorem lookUp {l k : Location} {segment : List UInt8} (found : v.lookUp l segment = .ok k) :
    w.lookUp l segment = .ok k := by
  rw [lookUp_eq_ok_iff] at found ⊢
  exact ⟨h.directory l found.1, found.2⟩

theorem follow {l k : Location} {segments : List (List UInt8)}
    (found : v.follow l segments = .ok k) : w.follow l segments = .ok k := by
  induction segments generalizing l with
  | nil => exact found
  | cons segment segments ih =>
    obtain ⟨m, first, rest⟩ := bind_eq_ok_iff.mp found
    exact bind_eq_ok_iff.mpr ⟨m, h.lookUp first, ih rest⟩

theorem names {p : Path} {directory : Location} {name : List UInt8}
    (named : v.Names p directory name) : w.Names p directory name where
  wellFormed := named.wellFormed
  noSlash := named.noSlash
  leads := by
    obtain ⟨segments, split, leads⟩ := named.leads
    exact ⟨segments, split, h.base p ▸ h.follow leads⟩
  found := h.directory directory named.found
  proper := named.proper
  short := named.short

end Keeps

/-! ## Writing -/

/-- The second volume is the first except for what a path to be written leads to. -/
structure Spares (v : Volume) (p : Path) (w : Volume) : Prop where
  home : w.home = v.home
  find? : ∀ l, v.target p ≠ .ok l → w.find? l = v.find? l

theorem Spares.keeps {v w : Volume} {p : Path} (h : v.Spares p w) : v.Keeps w where
  home := h.home
  directory l there := by
    have untouched : v.target p ≠ .ok l := fun target => by
      obtain ⟨-, -, -, -, notDirectory⟩ := names_of_target target
      exact notDirectory there
    rw [h.find? l untouched, there]

theorem exists_target_of_write {v w : Volume} {p : Path} {file : Image.File}
    (h : v.write p file = .ok w) :
    ∃ l, v.target p = .ok l ∧ w.home = v.home ∧
      ∀ k, w.find? k = if k = l then some (.file (.picture file)) else v.find? k := by
  rw [write] at h
  cases target : v.target p with
  | error fault => simp [target, Except.map] at h
  | ok l =>
    obtain rfl : v.put l (.file (.picture file)) = w := by simpa [target, Except.map] using h
    obtain ⟨-, -, -, -, notDirectory⟩ := names_of_target target
    have outside : l.isPrefixOf v.home = false := by
      by_contra inside
      exact notDirectory (by rw [find?, if_pos (Bool.not_eq_false _ ▸ inside)])
    exact ⟨l, rfl, rfl, fun k => find?_put v l k _ outside⟩

theorem spares_of_write {v w : Volume} {p : Path} {file : Image.File}
    (h : v.write p file = .ok w) : v.Spares p w := by
  obtain ⟨l, target, home, find?⟩ := exists_target_of_write h
  refine ⟨home, fun k elsewhere => ?_⟩
  have ne : k ≠ l := by
    rintro rfl
    exact elsewhere target
  rw [find?, if_neg ne]

/-- What is written at a path is read back there. -/
theorem read_write {v w : Volume} {p : Path} {file : Image.File} (h : v.write p file = .ok w) :
    w.read p = .ok file.bytes.toList := by
  obtain ⟨l, target, -, find?⟩ := exists_target_of_write h
  obtain ⟨directory, name, names, rfl, -⟩ := names_of_target target
  have file : w.find? (directory ++ [name]) = some (.file (.picture file)) := by
    rw [find?, if_pos rfl]
  exact ((spares_of_write h).keeps.names names).read file

/-- A file that a path to be written does not lead to keeps its bytes. -/
theorem Spares.read {v w : Volume} {p q : Path} (h : v.Spares p w) {directory : Location}
    {name bytes : List UInt8} (named : v.Names q directory name) (held : v.read q = .ok bytes)
    (elsewhere : v.target p ≠ .ok (directory ++ [name])) : w.read q = .ok bytes := by
  obtain ⟨directory', name', content, named', file, rfl⟩ := names_of_read held
  have same : directory' ++ [name'] = directory ++ [name] :=
    Except.ok.inj (named'.follow.symm.trans named.follow)
  rw [same, ← h.find? _ elsewhere] at file
  exact (h.keeps.names named).read file

/-- A picture that has no place to go to is not written. -/
theorem run_write_of_target_eq_error {v : Volume} {p : Path} {fault : FileFault}
    (blocked : v.target p = .error fault) (file : Image.File) :
    (access.write p file).run v = (.error fault, v) := by
  have refused : v.write p file = .error fault := by
    rw [write, blocked]
    rfl
  show access.write p file v = (.error fault, v)
  simp only [access, refused]

end Volume

/-! ## Disks -/

/-- Access to the files of a volume.  A disk may refuse to read or to write what could be read or
written, and where writing has failed, the file that was to be written may hold anything.  A file
has one name only, as on a volume: there are no links. -/
structure Disk where
  files : FileAccess (StateM Volume)
  /-- Reading leaves the volume as it is, and what is read is there. -/
  read_eq : ∀ (p : Path) (v : Volume), ∃ answer, (files.read p).run v = (answer, v) ∧
    ∀ bytes, answer = .ok bytes → v.read p = .ok bytes
  /-- What is said to be written has been written. -/
  write_eq : ∀ (p : Path) (file : Image.File) (v w : Volume),
    (files.write p file).run v = (.ok (), w) → v.write p file = .ok w
  /-- Whatever the answer, writing spares all other places. -/
  spares : ∀ (p : Path) (file : Image.File) (v : Volume), v.Spares p ((files.write p file).run v).2

/-- The disk that refuses nothing. -/
def Disk.sound : Disk where
  files := Volume.access
  read_eq p v := ⟨v.read p, rfl, fun _ => id⟩
  write_eq p file v w written := by
    change (match v.write p file with
      | .ok v => ((.ok (), v) : Except FileFault Unit × Volume)
      | .error fault => (.error fault, v)) = (.ok (), w) at written
    split at written
    · next ok => rw [ok, (Prod.mk.inj written).2]
    · exact nomatch (Prod.mk.inj written).1
  spares p file v := by
    change v.Spares p (match v.write p file with
      | .ok v => ((.ok (), v) : Except FileFault Unit × Volume)
      | .error fault => (.error fault, v)).2
    split
    · next ok => exact Volume.spares_of_write ok
    · exact ⟨rfl, fun _ _ => rfl⟩

end DotMatrix
