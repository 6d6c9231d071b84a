import DotMatrix.Proofs.Naming

/-!
# The components of a path

`Path.splitLast` finds a name from the back of the bytes: it trims slashes and single dots and takes
what stands behind the last slash.  The rule of the system is about the whole list of segments.
Empty segments and single dots are no components, and the name is the last component, if that is no
pair of dots.  Here the two are shown to agree on every list of bytes.

They meet at what is trimmed, the `Trail` of a path.  Slashes and slashes with a dot, in any number
and order, change neither the trimmed bytes (`trimmed_append_trail`) nor the components
(`components_append_trail`).  Every path is a front and a trail (`exists_trail`), where the front is
empty, or a dot, or ends in a segment that is a component.

* `name?_eq`: the name is the last component, if that is no pair of dots.
* `extension?_eq_some_iff`: the extension is what stands behind the last dot of the name, if
  something stands before that dot.
* `hasExtension_iff`: the same in the bytes of the path, as folder, stem, dot, extension and trail.
-/

namespace DotMatrix
namespace Path

/-- The segments of a path that count: the others are empty or a single dot. -/
def components (p : Path) : List (List UInt8) := p.segments.filter (· ≠ [dot])

/-! ## Trails -/

/-- What can follow a name without becoming a component: slashes, and single dots after slashes. -/
inductive Trail : List UInt8 → Prop where
  | nil : Trail []
  | snocSlash {t : List UInt8} (trail : Trail t) : Trail (t ++ [slash])
  | snocDot {t : List UInt8} (trail : Trail t) : Trail (t ++ [slash, dot])

variable {s t folder name extension : List UInt8} {p : Path}

theorem trimmed_append_trail (s : List UInt8) (trail : Trail t) :
    trimmed (s ++ t).reverse = trimmed s.reverse := by
  induction trail with
  | nil => rw [List.append_nil]
  | @snocSlash t _ ih =>
    have reversed : (s ++ (t ++ [slash])).reverse = slash :: (s ++ t).reverse := by simp
    rw [reversed, trimmed, if_pos rfl, ih]
  | @snocDot t _ ih =>
    have reversed : (s ++ (t ++ [slash, dot])).reverse = dot :: slash :: (s ++ t).reverse := by simp
    rw [reversed, trimmed, if_neg (by decide), if_pos ⟨rfl, Or.inr rfl⟩, trimmed, if_pos rfl, ih]

theorem components_append_slash (s t : List UInt8) :
    (⟨s ++ slash :: t⟩ : Path).components =
      (⟨s⟩ : Path).components ++ (⟨t⟩ : Path).components := by
  simp only [components, segments, split_append_slash, List.filter_append]

theorem components_append_trail (s : List UInt8) (trail : Trail t) :
    (⟨s ++ t⟩ : Path).components = (⟨s⟩ : Path).components := by
  induction trail with
  | nil => rw [List.append_nil]
  | snocSlash _ ih =>
    rw [← List.append_assoc, components_append_slash, ih]
    exact List.append_nil _
  | snocDot _ ih =>
    rw [← List.append_assoc, components_append_slash, ih]
    exact List.append_nil _

theorem splitLast_append_trail (s : List UInt8) (trail : Trail t) :
    (⟨s ++ t⟩ : Path).splitLast = (⟨s⟩ : Path).splitLast := by
  simp only [splitLast, trimmed_append_trail s trail]

theorem components_append (closed : IsFolder folder) (plain : slash ∉ name) (ne_nil : name ≠ [])
    (ne_dot : name ≠ [dot]) :
    (⟨folder ++ name⟩ : Path).components = (⟨folder⟩ : Path).components ++ [name] := by
  rw [components, segments_append closed plain ne_nil, List.filter_append]
  simp [components, ne_dot]

/-- Every path is a front that cannot be trimmed, or the single dot, and a trail. -/
theorem exists_trail (s : List UInt8) :
    ∃ front t, s = front ++ t ∧ Trail t ∧
      (front = [] ∨ front = [dot] ∨
        ∃ folder name, front = folder ++ name ∧ IsFolder folder ∧ slash ∉ name ∧ name ≠ [] ∧
          name ≠ [dot]) := by
  obtain ⟨folder, name, bytes, closed, plain⟩ := exists_folder s
  by_cases ne_nil : name = []
  · subst ne_nil
    rcases closed with rfl | ⟨shorter, rfl⟩
    · exact ⟨[], [], bytes, .nil, Or.inl rfl⟩
    · have : shorter.length < s.length := by simp [bytes]
      obtain ⟨front, t, rfl, trail, shape⟩ := exists_trail shorter
      exact ⟨front, t ++ [slash], by simp [bytes], trail.snocSlash, shape⟩
  by_cases ne_dot : name = [dot]
  · subst ne_dot
    rcases closed with rfl | ⟨shorter, rfl⟩
    · exact ⟨[dot], [], bytes, .nil, Or.inr (Or.inl rfl)⟩
    · have : shorter.length < s.length := by simp [bytes]
      obtain ⟨front, t, rfl, trail, shape⟩ := exists_trail shorter
      exact ⟨front, t ++ [slash, dot], by simp [bytes], trail.snocDot, shape⟩
  · exact ⟨s, [], (List.append_nil s).symm, .nil,
      Or.inr (Or.inr ⟨folder, name, bytes, closed, plain, ne_nil, ne_dot⟩)⟩
termination_by s.length

/-! ## The name -/

/-- The name is the last component, if that is no pair of dots. -/
theorem name?_eq (p : Path) : p.name? = p.components.getLast?.filter (· ≠ [dot, dot]) := by
  obtain ⟨front, t, bytes, trail, shape⟩ := exists_trail p.bytes
  obtain rfl : p = ⟨front ++ t⟩ := congrArg Path.mk bytes
  rw [name?, splitName?, splitLast_append_trail front trail, components_append_trail front trail]
  rcases shape with rfl | rfl | ⟨folder, name, rfl, closed, plain, ne_nil, ne_dot⟩
  · rfl
  · rfl
  · rw [splitLast_eq rfl closed plain ne_nil ne_dot, components_append closed plain ne_nil ne_dot,
      List.getLast?_concat]
    by_cases dots : name = [dot, dot] <;> simp [Option.filter, ne_nil, dots]

/-- The path has a name, which ends in a dot and the extension; something stands before that dot,
and it is the last dot of the name. -/
def HasExtension (p : Path) (extension : List UInt8) : Prop :=
  ∃ stem, p.components.getLast? = some (stem ++ dot :: extension) ∧
    stem ++ dot :: extension ≠ [dot, dot] ∧ stem ≠ [] ∧ dot ∉ extension

theorem extension?_eq_some_iff : p.extension? = some extension ↔ p.HasExtension extension := by
  rw [extension?, Option.bind_eq_some_iff, name?_eq]
  constructor
  · rintro ⟨name, found, split⟩
    obtain ⟨last, ne_dots⟩ := Option.filter_eq_some_iff.mp found
    obtain ⟨whole, ne_nil, plain⟩ := eq_append_of_splitStem split
    rw [whole] at last ne_dots
    exact ⟨_, last, of_decide_eq_true ne_dots, ne_nil, plain⟩
  · rintro ⟨stem, last, ne_dots, ne_nil, plain⟩
    refine ⟨_, Option.filter_eq_some_iff.mpr ⟨last, decide_eq_true ne_dots⟩, ?_⟩
    rw [splitStem_append ne_nil plain]

theorem HasExtension.append_trail (found : p.HasExtension extension) (trail : Trail t) :
    (⟨p.bytes ++ t⟩ : Path).HasExtension extension := by
  rwa [HasExtension, components_append_trail p.bytes trail]

theorem append_dot_eq_dots_iff {stem : List UInt8} (ne_nil : stem ≠ []) :
    stem ++ dot :: extension = [dot, dot] ↔ stem = [dot] ∧ extension = [] := by
  obtain ⟨b, stem, rfl⟩ := List.exists_cons_of_ne_nil ne_nil
  cases stem <;> simp

/-- The extension in the bytes of the path. -/
theorem hasExtension_iff :
    p.HasExtension extension ↔
      ∃ folder stem t, p.bytes = folder ++ (stem ++ dot :: extension) ++ t ∧ IsFolder folder ∧
        slash ∉ stem ++ dot :: extension ∧ Trail t ∧
        stem ++ dot :: extension ≠ [dot, dot] ∧ stem ≠ [] ∧ dot ∉ extension := by
  constructor
  · rintro ⟨stem, last, ne_dots, ne_nil, plain⟩
    obtain ⟨front, t, bytes, trail, shape⟩ := exists_trail p.bytes
    obtain rfl : p = ⟨front ++ t⟩ := congrArg Path.mk bytes
    rw [components_append_trail front trail] at last
    rcases shape with rfl | rfl | ⟨folder, name, rfl, closed, noSlash, name_ne_nil, ne_dot⟩
    · exact nomatch last
    · exact nomatch last
    · rw [components_append closed noSlash name_ne_nil ne_dot, List.getLast?_concat] at last
      obtain rfl := Option.some.inj last
      exact ⟨folder, stem, t, rfl, closed, noSlash, trail, ne_dots, ne_nil, plain⟩
  · rintro ⟨folder, stem, t, bytes, closed, noSlash, trail, ne_dots, ne_nil, plain⟩
    obtain rfl : p = ⟨folder ++ (stem ++ dot :: extension) ++ t⟩ := congrArg Path.mk bytes
    have ne_dot : stem ++ dot :: extension ≠ [dot] := by
      obtain ⟨b, stem, rfl⟩ := List.exists_cons_of_ne_nil ne_nil
      simp
    refine ⟨stem, ?_, ne_dots, ne_nil, plain⟩
    rw [components_append_trail _ trail, components_append closed noSlash (by simp) ne_dot,
      List.getLast?_concat]

end Path
end DotMatrix
