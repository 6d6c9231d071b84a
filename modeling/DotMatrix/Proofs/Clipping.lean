import DotMatrix.Proofs.Reference
import Mathlib.Order.Bounds.Basic

/-!
# A page only clips

The walk of a stream knows a pitch and no page.  Its bit images strike cells of a sheet without
edges, and `Walk.Strikes` says which.  A page is a window onto that sheet: decoding onto it inks the
struck cells that fall on the page (`ink_decode`) and moves the head as on any other page.  So two
pages with the same pitch show the same colours wherever both of them reach, and their reports
differ in the extents alone, which are those of the ink that each page has caught (`Page.Extents`).

A page that is too narrow for a column loses the column; it does not go on in the next row, because
`cell_paint` speaks of a column and a row, and not of a place in a buffer.  The sizes of a page are
any numbers here, as those of a sheet may be.  What a machine makes of them is told in
`DotMatrix.Proofs.Printouts`.
-/

namespace DotMatrix

/-! ## The sheet without edges -/

/-- The event strikes the cell, be there a page under it or not. -/
def Event.Strikes (e : Event) (x y : Nat) : Prop :=
  ∃ i, e.token.image? = some i ∧ Struck (i.payload.take i.declared) e.head.toPosition x y

/-- Some bit image of the walk strikes the cell. -/
def Walk.Strikes (w : Walk) (x y : Nat) : Prop := ∃ e ∈ w.trail, e.Strikes x y

namespace Event

theorem page_strike (c : Canvas) (e : Event) : (strike c e).page = c.page := by
  rw [strike]
  split
  · exact (Canvas.painted_strike _ _ _).page
  · rfl

theorem ink_strike (c : Canvas) (e : Event) (x y : Nat) :
    (strike c e).ink x y = true ↔ c.ink x y = true ∨ c.page.Contains x y ∧ e.Strikes x y := by
  rw [strike, Strikes]
  cases image : e.token.image? with
  | some i => simp [Canvas.ink_strike]
  | none => simp

end Event

namespace Canvas

theorem ink_after (c : Canvas) (es : List Event) (x y : Nat) :
    (c.after es).ink x y = true ↔
      c.ink x y = true ∨ c.page.Contains x y ∧ ∃ e ∈ es, e.Strikes x y := by
  induction es generalizing c with
  | nil => simp
  | cons e es ih =>
    rw [after_cons, ih, Event.ink_strike, Event.page_strike, or_assoc, ← and_or_left]
    simp only [List.mem_cons, exists_eq_or_imp]

end Canvas

/-- A page catches the struck cells that fall on it. -/
theorem ink_decode (p : Page) (s : List UInt8) (x y : Nat) :
    (decode p s).canvas.ink x y = true ↔
      p.Contains x y ∧ (Walk.ofStream p.pitch s).Strikes x y := by
  show ((Canvas.blank p).after (Walk.ofStream p.pitch s).trail).ink x y = true ↔ _
  rw [Canvas.ink_after, or_iff_right (Canvas.not_ink_blank p x y)]
  rfl

theorem painted_decode (p : Page) (s : List UInt8) :
    (Canvas.blank p).Painted (decode p s).canvas := by
  rw [canvas_decode]
  exact (p.printer.grows_run _).canvas

theorem twoColoured_decode (p : Page) (s : List UInt8) : (decode p s).canvas.TwoColoured :=
  (painted_decode p s).twoColoured (Canvas.twoColoured_blank p)

theorem tight_decode (p : Page) (s : List UInt8) : (decode p s).canvas.Tight :=
  (painted_decode p s).tight (Canvas.tight_blank p)

/-! ## Extents -/

/-- A bound that is zero or reached is the greatest, once there is something to bound. -/
theorem isGreatest_of_reached {P : Nat → Prop} {m : Nat} (above : ∀ n, P n → n ≤ m)
    (reached : m = 0 ∨ P m) {k : Nat} (found : P k) : IsGreatest {n | P n} m := by
  refine ⟨?_, above⟩
  rcases reached with rfl | reached
  · have zero : k = 0 := Nat.le_zero.mp (above k found)
    rwa [zero] at found
  · exact reached

/-- A canvas without ink has no extents.  On any other they are the largest inked column and the
largest inked row. -/
theorem Canvas.Tight.extents {c : Canvas} (h : c.Tight) :
    (c.maxX = 0 ∧ c.maxY = 0 ∧ ∀ x y, ¬c.ink x y = true) ∨
      IsGreatest {x | ∃ y, c.ink x y = true} c.maxX ∧
        IsGreatest {y | ∃ x, c.ink x y = true} c.maxY := by
  by_cases inked : ∃ x y, c.ink x y = true
  · obtain ⟨x, y, inked⟩ := inked
    refine Or.inr ⟨?_, ?_⟩
    · exact isGreatest_of_reached (fun u ⟨v, found⟩ => h.le_maxX u v found) h.maxX_inked ⟨y, inked⟩
    · exact isGreatest_of_reached (fun v ⟨u, found⟩ => h.le_maxY u v found) h.maxY_inked ⟨x, inked⟩
  · have bare : ∀ x y, ¬c.ink x y = true := fun x y found => inked ⟨x, y, found⟩
    refine Or.inl ⟨?_, ?_, bare⟩
    · exact h.maxX_inked.resolve_right fun ⟨y, found⟩ => bare _ y found
    · exact h.maxY_inked.resolve_right fun ⟨x, found⟩ => bare x _ found

/-- The largest column and the largest row of the cells that fall on a page, both zero if none
does. -/
def Page.Extents (p : Page) (cells : Nat → Nat → Prop) (column row : Nat) : Prop :=
  (column = 0 ∧ row = 0 ∧ ∀ x y, p.Contains x y → ¬cells x y) ∨
    IsGreatest {x | ∃ y, p.Contains x y ∧ cells x y} column ∧
      IsGreatest {y | ∃ x, p.Contains x y ∧ cells x y} row

theorem extents_decode (p : Page) (s : List UInt8) :
    p.Extents (Walk.ofStream p.pitch s).Strikes (decode p s).report.maxX
      (decode p s).report.maxY := by
  have extents := (tight_decode p s).extents
  simp only [ink_decode, not_and] at extents
  exact extents

/-! ## Two pages -/

/-- What a decode reports depends on the pitch of the page, except for the extents. -/
theorem report_decode_congr {p q : Page} (same : p.pitch = q.pitch) (s : List UInt8) :
    (decode q s).report =
      { (decode p s).report with
        maxX := (decode q s).report.maxX
        maxY := (decode q s).report.maxY } := by
  simp only [decode, Report.ofWalk, same]

end DotMatrix
