import DotMatrix.Path
import Mathlib.Data.List.Infix
import Mathlib.Data.List.TakeWhile

/-!
# A path and its last name

A path is read from its front when a volume is searched, and from its back when its name is wanted.
`Path.Ends` is where the two readings meet: the bytes up to the last slash, and a name behind them.

* `exists_ends`: a last segment that is a name, seen from the front, is where the path ends.
* `Ends.splitName?_eq`: it is also the name that the path has, seen from the back.
* `Ends.withExtension_eq`: exchanging the extension changes what stands behind the last dot of the
  name and nothing before it.  The exception are names such as `..prn`.  Without its extension such
  a name is two dots, which are no name and cannot be extended.
* `Ends.withExtension_eq_self_iff`: when exchanging the extension changes nothing at all.
-/

namespace DotMatrix
namespace Path

/-! ## Splitting at slashes -/

theorem split_ne_nil (s : List UInt8) : split s ≠ [] := by
  cases s with
  | nil => simp [split]
  | cons b s =>
    rw [split]
    split
    · simp
    · split <;> simp

theorem split_cons_slash (s : List UInt8) : split (slash :: s) = [] :: split s := by
  rw [split, if_pos rfl]

theorem split_cons_of_ne {b : UInt8} (ne : b ≠ slash) {s segment : List UInt8}
    {segments : List (List UInt8)} (h : split s = segment :: segments) :
    split (b :: s) = (b :: segment) :: segments := by
  rw [split, if_neg ne, h]

theorem split_of_notMem {s : List UInt8} (h : slash ∉ s) : split s = [s] := by
  induction s with
  | nil => rfl
  | cons b s ih =>
    obtain ⟨ne, rest⟩ := List.ne_and_not_mem_of_not_mem_cons h
    exact split_cons_of_ne ne.symm (ih rest)

theorem split_append_slash (s t : List UInt8) : split (s ++ slash :: t) = split s ++ split t := by
  induction s with
  | nil => exact split_cons_slash t
  | cons b s ih =>
    by_cases same : b = slash
    · rw [same, List.cons_append, split_cons_slash, split_cons_slash, ih, List.cons_append]
    · obtain ⟨segment, segments, first⟩ := List.exists_cons_of_ne_nil (split_ne_nil s)
      rw [split_cons_of_ne same first, List.cons_append, List.cons_append]
      exact split_cons_of_ne same (by rw [ih, first, List.cons_append])

/-- The bytes up to a name: none, or some that end in a slash. -/
def IsFolder (s : List UInt8) : Prop := s = [] ∨ ∃ t, s = t ++ [slash]

theorem exists_folder (s : List UInt8) :
    ∃ folder name, s = folder ++ name ∧ IsFolder folder ∧ slash ∉ name := by
  induction s with
  | nil => exact ⟨[], [], rfl, Or.inl rfl, List.not_mem_nil⟩
  | cons b s ih =>
    obtain ⟨folder, name, rfl, closed | ⟨t, closed⟩, plain⟩ := ih
    · by_cases same : b = slash
      · exact ⟨[b], name, by rw [closed]; rfl, Or.inr ⟨[], by rw [same]; rfl⟩, plain⟩
      · refine ⟨[], b :: name, by rw [closed]; rfl, Or.inl rfl, ?_⟩
        exact List.not_mem_cons_of_ne_of_not_mem (Ne.symm same) plain
    · exact ⟨b :: folder, name, rfl, Or.inr ⟨b :: t, by rw [closed]; rfl⟩, plain⟩

theorem segments_append {folder name : List UInt8} (closed : IsFolder folder)
    (plain : slash ∉ name) (ne : name ≠ []) :
    (Path.mk (folder ++ name)).segments = (Path.mk folder).segments ++ [name] := by
  rcases closed with rfl | ⟨t, rfl⟩
  · simp [segments, split_of_notMem plain, split, ne]
  · have split_folder : split (t ++ [slash]) = split t ++ [[]] := split_append_slash t []
    rw [segments, segments, List.append_assoc, List.singleton_append, split_append_slash,
      split_folder, split_of_notMem plain]
    simp [ne]

/-! ## The end of a path -/

/-- The path ends in a name: no slash is behind it, and it is neither a dot nor two dots. -/
structure Ends (p : Path) (folder name : List UInt8) : Prop where
  bytes : p.bytes = folder ++ name
  closed : IsFolder folder
  plain : slash ∉ name
  ne_nil : name ≠ []
  ne_dot : name ≠ [dot]
  ne_dots : name ≠ [dot, dot]

variable {p : Path} {folder name : List UInt8}

/-- A path whose last segment is a name ends in it. -/
theorem exists_ends {initial : List (List UInt8)} (split : p.segments = initial ++ [name])
    (noSlash : ¬p.EndsInSlash) (ne_dot : name ≠ [dot]) (ne_dots : name ≠ [dot, dot]) :
    ∃ folder, p.Ends folder name := by
  obtain ⟨folder, last, bytes, closed, plain⟩ := exists_folder p.bytes
  have ne_nil : last ≠ [] := by
    rintro rfl
    rw [List.append_nil] at bytes
    rcases closed with rfl | ⟨t, rfl⟩
    · have none : p.segments = [] := by
        rw [segments, bytes]
        rfl
      simp [none] at split
    · exact noSlash (by rw [EndsInSlash, bytes, List.getLast?_concat])
  have segments := segments_append closed plain ne_nil
  rw [← bytes] at segments
  have same := segments.symm.trans split
  obtain rfl : last = name := List.singleton_inj.mp (List.append_inj_right' same rfl)
  exact ⟨folder, bytes, closed, plain, ne_nil, ne_dot, ne_dots⟩

/-- Nothing is trimmed off a name. -/
theorem trimmed_reverse (folder : List UInt8) (plain : slash ∉ name) (ne_nil : name ≠ [])
    (ne_dot : name ≠ [dot]) : trimmed (folder ++ name).reverse = (folder ++ name).reverse := by
  obtain ⟨name, b, rfl⟩ := (List.eq_nil_or_concat' name).resolve_left ne_nil
  have notSlash : b ≠ slash := fun same => plain (by simp [same])
  have notDot : ¬(b = dot ∧ ((folder ++ name).reverse = [] ∨
      (folder ++ name).reverse.head? = some slash)) := by
    rintro ⟨rfl, short⟩
    -- A dot alone, or one behind a slash, would be the whole name.
    rcases List.eq_nil_or_concat' name with rfl | ⟨initial, c, rfl⟩
    · exact ne_dot rfl
    · obtain rfl : c = slash := by simpa using short
      exact plain (by simp)
  rw [← List.append_assoc, List.reverse_concat, trimmed, if_neg notSlash, if_neg notDot]

theorem splitLast_eq (bytes : p.bytes = folder ++ name) (closed : IsFolder folder)
    (plain : slash ∉ name) (ne_nil : name ≠ []) (ne_dot : name ≠ [dot]) :
    p.splitLast = (folder, name) := by
  have others : ∀ b ∈ name.reverse, decide (b ≠ slash) = true := fun b mem =>
    decide_eq_true fun same => plain (same ▸ List.mem_reverse.mp mem)
  have dropped : folder.reverse.dropWhile (· ≠ slash) = folder.reverse ∧
      folder.reverse.takeWhile (· ≠ slash) = [] := by
    rcases closed with rfl | ⟨t, rfl⟩
    · exact ⟨rfl, rfl⟩
    · simp
  simp only [splitLast, bytes, trimmed_reverse folder plain ne_nil ne_dot]
  rw [List.reverse_append, List.dropWhile_append_of_pos others,
    List.takeWhile_append_of_pos others, dropped.1, dropped.2, List.append_nil,
    List.reverse_reverse, List.reverse_reverse]

theorem Ends.splitName?_eq (h : p.Ends folder name) : p.splitName? = some (folder, name) := by
  rw [splitName?, splitLast_eq h.bytes h.closed h.plain h.ne_nil h.ne_dot]
  exact if_neg (not_or.mpr ⟨h.ne_nil, h.ne_dots⟩)

theorem splitName?_dots (closed : IsFolder folder) :
    (⟨folder ++ [dot, dot]⟩ : Path).splitName? = none := by
  rw [splitName?, splitLast_eq rfl closed (by decide) (by decide) (by decide)]
  exact if_pos (Or.inr rfl)

theorem Ends.stem?_eq (h : p.Ends folder name) : p.stem? = some (splitStem name).1 := by
  rw [stem?, name?, h.splitName?_eq]
  rfl

theorem Ends.extension?_eq (h : p.Ends folder name) : p.extension? = (splitStem name).2 := by
  rw [extension?, name?, h.splitName?_eq]
  rfl

/-! ## Stem and extension -/

theorem splitStem_eq_of_none (h : (splitStem name).2 = none) : (splitStem name).1 = name := by
  rw [splitStem] at h ⊢
  split at h
  · rfl
  · rfl
  · exact nomatch h

/-- The extension is what stands behind the last dot, and something stands before that dot. -/
theorem eq_append_of_splitStem {extension : List UInt8} (h : (splitStem name).2 = some extension) :
    name = (splitStem name).1 ++ dot :: extension ∧ (splitStem name).1 ≠ [] ∧
      dot ∉ extension := by
  rw [splitStem] at h ⊢
  split at h
  · exact nomatch h
  · exact nomatch h
  · next b stem ne found =>
    obtain rfl := Option.some.inj h
    have isDot : b = dot := by
      have head := List.head?_dropWhile_not (fun c => decide (c ≠ dot)) name.reverse
      rw [found] at head
      simpa using head
    have whole := List.takeWhile_append_dropWhile (p := fun c => decide (c ≠ dot))
      (l := name.reverse)
    rw [found, isDot] at whole
    refine ⟨?_, ?_, ?_⟩
    · have back := congrArg List.reverse whole
      rw [List.reverse_append, List.reverse_cons, List.append_assoc, List.singleton_append,
        List.reverse_reverse] at back
      exact back.symm
    · exact fun empty => ne (List.reverse_eq_nil_iff.mp empty)
    · intro mem
      simpa using List.mem_takeWhile_imp (List.mem_reverse.mp mem)

theorem splitStem_append {stem extension : List UInt8} (ne_nil : stem ≠ [])
    (plain : dot ∉ extension) :
    splitStem (stem ++ dot :: extension) = (stem, some extension) := by
  have others : ∀ b ∈ extension.reverse, decide (b ≠ dot) = true := fun b mem =>
    decide_eq_true fun same => plain (same ▸ List.mem_reverse.mp mem)
  have reversed : (stem ++ dot :: extension).reverse =
      extension.reverse ++ dot :: stem.reverse := by simp
  obtain ⟨initial, b, rfl⟩ := (List.eq_nil_or_concat' stem).resolve_left ne_nil
  rw [splitStem, reversed, List.dropWhile_append_of_pos others,
    List.takeWhile_append_of_pos others]
  simp

theorem stem_ne_nil (h : name ≠ []) : (splitStem name).1 ≠ [] := by
  cases found : (splitStem name).2 with
  | none => rwa [splitStem_eq_of_none found]
  | some extension => exact (eq_append_of_splitStem found).2.1

theorem slash_notMem_stem (h : slash ∉ name) : slash ∉ (splitStem name).1 := by
  cases found : (splitStem name).2 with
  | none => rwa [splitStem_eq_of_none found]
  | some extension =>
    rw [(eq_append_of_splitStem found).1] at h
    exact fun mem => h (List.mem_append_left _ mem)

/-! ## Exchanging the extension -/

/-- What replaces a name is a name as well, unless the stem is a dot and the extension empty. -/
theorem Ends.restem (h : p.Ends folder name) {extension : List UInt8} (plain : slash ∉ extension)
    (ne : (splitStem name).1 = [dot] → extension ≠ []) :
    (⟨folder ++ ((splitStem name).1 ++ dot :: extension)⟩ : Path).Ends folder
      ((splitStem name).1 ++ dot :: extension) := by
  have stem : 0 < (splitStem name).1.length := List.length_pos_iff.mpr (stem_ne_nil h.ne_nil)
  refine ⟨rfl, h.closed, ?_, by simp, fun single => ?_, fun double => ?_⟩
  · have notDot : slash ∉ dot :: extension := List.not_mem_cons_of_ne_of_not_mem (by decide) plain
    exact fun mem => (List.mem_append.mp mem).elim (slash_notMem_stem h.plain) notDot
  · have size := congrArg List.length single
    simp only [List.length_append, List.length_cons, List.length_nil] at size
    omega
  · have size := congrArg List.length double
    simp only [List.length_append, List.length_cons, List.length_nil] at size
    have single : (splitStem name).1.length = [dot].length := by
      show (splitStem name).1.length = 1
      omega
    obtain ⟨same, rest⟩ :=
      List.append_inj (show (splitStem name).1 ++ dot :: extension = [dot] ++ [dot] from double)
        single
    exact ne same (List.cons.inj rest).2

theorem Ends.shortened_eq (h : p.Ends folder name) {extension : List UInt8}
    (found : (splitStem name).2 = some extension) :
    p.shortened = ⟨folder ++ ((splitStem name).1 ++ [dot])⟩ := by
  have whole : p.bytes = folder ++ ((splitStem name).1 ++ [dot]) ++ extension := by
    rw [h.bytes, List.append_assoc, List.append_assoc, List.singleton_append,
      ← (eq_append_of_splitStem found).1]
  have size : p.bytes.length =
      (folder ++ ((splitStem name).1 ++ [dot])).length + extension.length := by
    rw [whole]
    exact List.length_append
  rw [shortened, h.extension?_eq, found]
  show (⟨p.bytes.take (p.bytes.length - extension.length)⟩ : Path) = _
  rw [size, Nat.add_sub_cancel, whole, List.take_left]

/-- The stem stays and is followed by the new extension. -/
theorem Ends.withExtension_eq (h : p.Ends folder name) (ne : (splitStem name).1 ≠ [dot])
    (extension : List UInt8) :
    p.withExtension extension = ⟨folder ++ ((splitStem name).1 ++ dot :: extension)⟩ := by
  cases found : (splitStem name).2 with
  | none =>
    rw [withExtension, shortened, h.extension?_eq, found]
    simp only [extend, h.splitName?_eq, List.append_assoc]
  | some old =>
    have shorter := h.restem List.not_mem_nil (absurd · ne)
    rw [withExtension, h.shortened_eq found]
    simp only [extend, shorter.splitName?_eq,
      splitStem_append (stem_ne_nil h.ne_nil) List.not_mem_nil, List.append_assoc]

/-- Without its extension such a name is two dots. -/
theorem Ends.withExtension_of_stem_eq_dot (h : p.Ends folder name)
    (same : (splitStem name).1 = [dot]) (extension : List UInt8) :
    p.withExtension extension = ⟨folder ++ [dot, dot]⟩ := by
  cases found : (splitStem name).2 with
  | none => exact absurd ((splitStem_eq_of_none found).symm.trans same) h.ne_dot
  | some old =>
    rw [withExtension, h.shortened_eq found, same, List.singleton_append, extend,
      splitName?_dots h.closed]

/-- The new extension is the old one only if the path had it, and its stem was not a dot. -/
theorem Ends.withExtension_eq_self_iff (h : p.Ends folder name) {extension : List UInt8}
    (plain : dot ∉ extension) :
    p.withExtension extension = p ↔
      p.extension? = some extension ∧ p.stem? ≠ some [dot] := by
  rw [h.extension?_eq, h.stem?_eq]
  by_cases same : (splitStem name).1 = [dot]
  · have ne : p.withExtension extension ≠ p := fun fixed => by
      rw [h.withExtension_of_stem_eq_dot same] at fixed
      have bytes := (congrArg Path.bytes fixed).trans h.bytes
      exact h.ne_dots (List.append_cancel_left bytes).symm
    simp [same, ne]
  · have stem : some (splitStem name).1 ≠ some [dot] := fun h => same (Option.some.inj h)
    rw [h.withExtension_eq same, and_iff_left stem]
    constructor
    · intro fixed
      have bytes := (congrArg Path.bytes fixed).trans h.bytes
      rw [← List.append_cancel_left bytes, splitStem_append (stem_ne_nil h.ne_nil) plain]
    · intro found
      rw [← (eq_append_of_splitStem found).1, ← h.bytes]

end Path
end DotMatrix
