import DotMatrix.Proofs.Growth
import DotMatrix.Proofs.Splitting

/-!
# The meaning of a stream

What a decode must give is said here without saying how it is computed.  A stream has one split, and
its tokens do to the printer what the table `Printer.after` says.  The ink needs no table: a cell of
the page is inked exactly if some bit image of the split, met with the head where the tokens before
it have left it, has a column with a dot over the cell (`ink_run`).  The extents follow from the
ink, since they are the largest inked column and row (`tight_run`).
-/

namespace DotMatrix

/-- A bit image of a split carries no more than it announces. -/
theorem Splits.length_payload_le {s : List UInt8} {ts : List Token} (h : Splits s ts) {t : Token}
    (mem : t ∈ ts) {i : BitImage} (image : t.image? = some i) :
    i.payload.length ≤ i.declared := by
  induction h with
  | nil => exact absurd mem List.not_mem_nil
  | cons fits _ ih =>
    rcases List.mem_cons.mp mem with rfl | mem
    · exact fits.length_payload_le image
    · exact ih mem

namespace Printer

theorem tight_run {p : Printer} (tight : p.canvas.Tight) (ts : List Token) :
    (p.run ts).canvas.Tight :=
  (p.grows_run ts).canvas.tight tight

/-- Some bit image among the tokens strikes the cell, the head standing where the tokens before the
image have left it. -/
def Inks (p : Printer) (ts : List Token) (x y : Nat) : Prop :=
  ∃ us t vs i, ts = us ++ t :: vs ∧ t.image? = some i ∧
    Struck (i.payload.take i.declared) (p.run us).head.toPosition x y

theorem not_inks_nil (p : Printer) (x y : Nat) : ¬p.Inks [] x y := by
  rintro ⟨us, t, vs, i, split, -⟩
  exact List.append_ne_nil_of_right_ne_nil us (List.cons_ne_nil t vs) split.symm

/-- The first token strikes the cell, or one of the others does after it. -/
theorem inks_cons_iff (p : Printer) (t : Token) (ts : List Token) (x y : Nat) :
    p.Inks (t :: ts) x y ↔
      (∃ i, t.image? = some i ∧ Struck (i.payload.take i.declared) p.head.toPosition x y) ∨
        (p.after t).Inks ts x y := by
  constructor
  · rintro ⟨us, u, vs, i, split, image, struck⟩
    rcases List.cons_eq_append_iff.mp split with ⟨rfl, same⟩ | ⟨us, rfl, same⟩
    · obtain ⟨rfl, rfl⟩ := List.cons.inj same
      exact Or.inl ⟨i, image, struck⟩
    · exact Or.inr ⟨us, u, vs, i, same, image, struck⟩
  · rintro (⟨i, image, struck⟩ | ⟨us, u, vs, i, rfl, image, struck⟩)
    · exact ⟨[], t, ts, i, rfl, image, struck⟩
    · exact ⟨t :: us, u, vs, i, rfl, image, struck⟩

/-- The tokens ink the cells of the page that their bit images strike. -/
theorem ink_run (p : Printer) (ts : List Token) (x y : Nat) :
    (p.run ts).canvas.ink x y = true ↔
      p.canvas.ink x y = true ∨ p.canvas.page.Contains x y ∧ p.Inks ts x y := by
  induction ts generalizing p with
  | nil => simp [not_inks_nil]
  | cons t ts ih =>
    rw [run_cons, ih, inks_cons_iff]
    cases image : t.image? with
    | some i =>
      rw [canvas_after_of_image image, Canvas.ink_strike, (Canvas.painted_strike _ _ _).page,
        or_assoc, ← and_or_left]
      simp
    | none =>
      rw [canvas_after_of_no_image image]
      simp

/-- In a split the bit images strike with all of their payload. -/
theorem inks_iff_of_splits {s : List UInt8} {ts : List Token} (h : Splits s ts) (p : Printer)
    (x y : Nat) :
    p.Inks ts x y ↔ ∃ us t vs i, ts = us ++ t :: vs ∧ t.image? = some i ∧
      Struck i.payload (p.run us).head.toPosition x y := by
  have whole : ∀ {us t vs i}, ts = us ++ t :: vs → t.image? = some i →
      i.payload.take i.declared = i.payload := by
    intro us t vs i split image
    have mem : t ∈ ts := split ▸ List.mem_append_right us List.mem_cons_self
    exact List.take_of_length_le (h.length_payload_le mem image)
  constructor
  · rintro ⟨us, t, vs, i, split, image, struck⟩
    rw [whole split image] at struck
    exact ⟨us, t, vs, i, split, image, struck⟩
  · rintro ⟨us, t, vs, i, split, image, struck⟩
    rw [← whole split image] at struck
    exact ⟨us, t, vs, i, split, image, struck⟩

end Printer

/-- A decode does not change the page. -/
theorem page_decode (p : Page) (s : List UInt8) : (decode p s).canvas.page = p := by
  rw [canvas_decode, (p.printer.grows_run _).canvas.page]
  rfl

end DotMatrix
