import DotMatrix.Raster

/-!
# The ink on a canvas

Which cells are inked after columns were struck, and what becomes of the extents.

Everything that changes a canvas does so by painting single cells.  `Canvas.Painted c d` says that
`d` came about from `c` in that way, and what one painting keeps is proved for it once: the page
stays, no ink is lost and no extent shrinks (`Painted.ink`, `Painted.maxX_le`), and extents that are
the largest inked column and row remain so (`Painted.tight`).

Where the new ink is, `Struck` says without any order of painting: column `k` of a run of columns
stands `k` cells to the right of the first, and a cell of the sixteen rows under it is inked exactly
if the bit for its row is set.

* `ink_strikeColumns`, `ink_strike`: striking inks the struck cells of the page and no others.
-/

namespace DotMatrix

/-! ## Struck cells -/

/-- Column `x` of row `y` is under a dot of columns struck from a position.  There are sixteen rows
under a column, and two of them belong to each bit, the top bit first. -/
def Struck (columns : List UInt8) (p : Position) (x y : Nat) : Prop :=
  ∃ k, ∃ h : k < columns.length, x = p.x + k ∧ p.y ≤ y ∧ y < p.y + 16 ∧
    columns[k].toNat.testBit (7 - (y - p.y) / 2) = true

theorem not_struck_nil (p : Position) (x y : Nat) : ¬Struck [] p x y := by
  rintro ⟨k, h, -⟩
  exact absurd h (Nat.not_lt_zero k)

/-- The first column stands at the position and the others one cell to the right. -/
theorem struck_cons_iff (column : UInt8) (columns : List UInt8) (x y u v : Nat) :
    Struck (column :: columns) ⟨x, y⟩ u v ↔
      (u = x ∧ y ≤ v ∧ v < y + 16 ∧ column.toNat.testBit (7 - (v - y) / 2) = true) ∨
        Struck columns ⟨x + 1, y⟩ u v := by
  constructor
  · rintro ⟨k, h, hu, rows⟩
    cases k with
    | zero => exact Or.inl ⟨hu, rows⟩
    | succ k =>
      refine Or.inr ⟨k, Nat.lt_of_succ_lt_succ h, ?_, rows⟩
      show u = x + 1 + k
      have hu' : u = x + (k + 1) := hu
      omega
  · rintro (⟨hu, rows⟩ | ⟨k, h, hu, rows⟩)
    · exact ⟨0, Nat.succ_pos _, hu, rows⟩
    · refine ⟨k + 1, Nat.succ_lt_succ h, ?_, rows⟩
      show u = x + (k + 1)
      have hu' : u = x + 1 + k := hu
      omega

/-- The rows of a dot are two of the sixteen rows under its column. -/
theorem exists_dot_iff (column : UInt8) (y v : Nat) :
    (∃ k ∈ List.range Head.dotsPerColumn, Octet.dot column k = true ∧
      (v = y + Head.rowsPerDot * k ∨ v = y + Head.rowsPerDot * k + 1)) ↔
      y ≤ v ∧ v < y + 16 ∧ column.toNat.testBit (7 - (v - y) / 2) = true := by
  simp only [List.mem_range, Head.dotsPerColumn, Octet.size, Head.rowsPerDot, Octet.dot]
  constructor
  · rintro ⟨k, hk, bit, row⟩
    have half : (v - y) / 2 = k := by omega
    rw [half]
    exact ⟨by omega, by omega, bit⟩
  · rintro ⟨low, high, bit⟩
    exact ⟨(v - y) / 2, by omega, bit, by omega⟩

namespace Canvas

/-! ## Painting from one canvas to another -/

/-- Painting inks the painted cell if it is in the page. -/
theorem ink_paint (c : Canvas) (x y u v : Nat) :
    (c.paint x y).ink u v = true ↔
      c.ink u v = true ∨ c.page.Contains u v ∧ u = x ∧ v = y := by
  simp only [ink, cell_paint]
  by_cases painted : c.page.Contains x y ∧ u = x ∧ v = y
  · obtain ⟨inside, rfl, rfl⟩ := painted
    simp [inside]
  · have outside : ¬(c.page.Contains u v ∧ u = x ∧ v = y) := by
      rintro ⟨inside, rfl, rfl⟩
      exact painted ⟨inside, rfl, rfl⟩
    simp only [if_neg painted, outside, or_false]

/-- The second canvas is the first after some cells were painted. -/
inductive Painted (c : Canvas) : Canvas → Prop where
  | refl : Painted c c
  | paint {d : Canvas} (before : Painted c d) (x y : Nat) : Painted c (d.paint x y)

theorem Painted.trans {c d e : Canvas} (h : Painted c d) (k : Painted d e) : Painted c e := by
  induction k with
  | refl => exact h
  | paint _ x y ih => exact ih.paint x y

theorem painted_strikeDot (c : Canvas) (x y : Nat) : Painted c (c.strikeDot x y) :=
  (Painted.refl.paint x y).paint x (y + 1)

theorem painted_strikeColumn (c : Canvas) (x y : Nat) (column : UInt8) :
    Painted c (c.strikeColumn x y column) := by
  rw [strikeColumn]
  induction List.range Head.dotsPerColumn generalizing c with
  | nil => exact .refl
  | cons k ks ih =>
    rw [List.foldl_cons]
    refine Painted.trans ?_ (ih _)
    split
    · exact painted_strikeDot _ _ _
    · exact .refl

theorem painted_strikeColumns (c : Canvas) (x y : Nat) (columns : List UInt8) :
    Painted c (c.strikeColumns x y columns) := by
  induction columns generalizing c x with
  | nil => exact .refl
  | cons column columns ih =>
    rw [strikeColumns]
    exact (painted_strikeColumn c x y column).trans (ih _ _)

theorem painted_strike (c : Canvas) (p : Position) (i : BitImage) : Painted c (c.strike p i) :=
  painted_strikeColumns c p.x p.y _

namespace Painted

theorem page {c d : Canvas} (h : Painted c d) : d.page = c.page := by
  induction h with
  | refl => rfl
  | paint _ x y ih => rw [page_paint, ih]

/-- No ink is lost. -/
theorem ink {c d : Canvas} (h : Painted c d) {x y : Nat} (inked : c.ink x y = true) :
    d.ink x y = true := by
  induction h with
  | refl => exact inked
  | paint _ u v ih => exact (ink_paint _ u v x y).mpr (Or.inl ih)

theorem maxX_le {c d : Canvas} (h : Painted c d) : c.maxX ≤ d.maxX := by
  induction h with
  | refl => exact Nat.le_refl _
  | paint _ u v ih =>
    rw [maxX_paint]
    split
    · exact Nat.le_trans ih (Nat.le_max_left _ _)
    · exact ih

theorem maxY_le {c d : Canvas} (h : Painted c d) : c.maxY ≤ d.maxY := by
  induction h with
  | refl => exact Nat.le_refl _
  | paint _ u v ih =>
    rw [maxY_paint]
    split
    · exact Nat.le_trans ih (Nat.le_max_left _ _)
    · exact ih

end Painted

/-! ## What striking inks -/

theorem ink_strikeDot (c : Canvas) (x y u v : Nat) :
    (c.strikeDot x y).ink u v = true ↔
      c.ink u v = true ∨ c.page.Contains u v ∧ u = x ∧ (v = y ∨ v = y + 1) := by
  rw [strikeDot, ink_paint, ink_paint, page_paint, or_assoc, ← and_or_left, ← and_or_left]

/-- Striking some of the dots of a column, in any order. -/
theorem ink_foldl_strikeDot (c : Canvas) (x y : Nat) (column : UInt8) (ks : List Nat) (u v : Nat) :
    (ks.foldl (fun c k => if Octet.dot column k then
        c.strikeDot x (y + Head.rowsPerDot * k) else c) c).ink u v = true ↔
      c.ink u v = true ∨ c.page.Contains u v ∧ u = x ∧ ∃ k ∈ ks, Octet.dot column k = true ∧
        (v = y + Head.rowsPerDot * k ∨ v = y + Head.rowsPerDot * k + 1) := by
  induction ks generalizing c with
  | nil => simp
  | cons k ks ih =>
    rw [List.foldl_cons, ih]
    by_cases set : Octet.dot column k = true
    · rw [if_pos set, ink_strikeDot, (painted_strikeDot _ _ _).page, or_assoc, ← and_or_left,
        ← and_or_left]
      simp [set]
    · rw [if_neg set]
      simp [set]

theorem ink_strikeColumn (c : Canvas) (x y : Nat) (column : UInt8) (u v : Nat) :
    (c.strikeColumn x y column).ink u v = true ↔
      c.ink u v = true ∨ c.page.Contains u v ∧ u = x ∧ y ≤ v ∧ v < y + 16 ∧
        column.toNat.testBit (7 - (v - y) / 2) = true := by
  rw [strikeColumn, ink_foldl_strikeDot, exists_dot_iff]

/-- Striking columns inks the struck cells of the page. -/
theorem ink_strikeColumns (c : Canvas) (x y : Nat) (columns : List UInt8) (u v : Nat) :
    (c.strikeColumns x y columns).ink u v = true ↔
      c.ink u v = true ∨ c.page.Contains u v ∧ Struck columns ⟨x, y⟩ u v := by
  induction columns generalizing c x with
  | nil => simp [not_struck_nil]
  | cons column columns ih =>
    rw [strikeColumns, ih, ink_strikeColumn, (painted_strikeColumn _ _ _ _).page, or_assoc,
      ← and_or_left, struck_cons_iff]

/-- A bit image inks the cells of the page that its columns strike, up to the announced length. -/
theorem ink_strike (c : Canvas) (p : Position) (i : BitImage) (x y : Nat) :
    (c.strike p i).ink x y = true ↔
      c.ink x y = true ∨ c.page.Contains x y ∧ Struck (i.payload.take i.declared) p x y :=
  ink_strikeColumns c p.x p.y _ x y

/-! ## Two colours -/

/-- Every cell is paper or ink. -/
def TwoColoured (c : Canvas) : Prop :=
  ∀ x y, c.cell x y = Palette.paper ∨ c.cell x y = Palette.ink

theorem twoColoured_blank (p : Page) : (blank p).TwoColoured :=
  fun x y => Or.inl (cell_blank p x y)

theorem TwoColoured.paint {c : Canvas} (h : c.TwoColoured) (x y : Nat) :
    (c.paint x y).TwoColoured := by
  intro u v
  rw [cell_paint]
  split
  · exact Or.inr rfl
  · exact h u v

theorem Painted.twoColoured {c d : Canvas} (h : Painted c d) (two : c.TwoColoured) :
    d.TwoColoured := by
  induction h with
  | refl => exact two
  | paint _ x y ih => exact ih.paint x y

/-- On two colours the ink says all about a cell. -/
theorem TwoColoured.cell_eq {c : Canvas} (h : c.TwoColoured) (x y : Nat) :
    c.cell x y = if c.ink x y then Palette.ink else Palette.paper := by
  rcases h x y with paper | inked
  · rw [ink, paper]
    rfl
  · rw [ink, inked]
    rfl

/-! ## Extents -/

/-- The extents are the largest inked column and the largest inked row, zero without any ink. -/
structure Tight (c : Canvas) : Prop where
  le_maxX : ∀ x y, c.ink x y = true → x ≤ c.maxX
  le_maxY : ∀ x y, c.ink x y = true → y ≤ c.maxY
  maxX_inked : c.maxX = 0 ∨ ∃ y, c.ink c.maxX y = true
  maxY_inked : c.maxY = 0 ∨ ∃ x, c.ink x c.maxY = true

theorem not_ink_blank (p : Page) (x y : Nat) : ¬(blank p).ink x y = true := by
  rw [ink, cell_blank]
  decide

theorem tight_blank (p : Page) : (blank p).Tight where
  le_maxX x y h := absurd h (not_ink_blank p x y)
  le_maxY x y h := absurd h (not_ink_blank p x y)
  maxX_inked := Or.inl rfl
  maxY_inked := Or.inl rfl

/-- The largest of some numbers, and of one more number. -/
theorem largest_max {P Q : Nat → Prop} {m k : Nat} (above : ∀ n, P n → n ≤ m)
    (reached : m = 0 ∨ P m) (more : ∀ n, Q n ↔ P n ∨ n = k) :
    (∀ n, Q n → n ≤ max m k) ∧ (max m k = 0 ∨ Q (max m k)) := by
  constructor
  · intro n h
    rcases (more n).mp h with h | rfl
    · exact Nat.le_trans (above n h) (Nat.le_max_left m k)
    · exact Nat.le_max_right m n
  · rcases Nat.le_total m k with le | le
    · rw [Nat.max_eq_right le]
      exact Or.inr ((more k).mpr (Or.inr rfl))
    · rw [Nat.max_eq_left le]
      exact reached.imp_right fun h => (more m).mpr (Or.inl h)

theorem Tight.paint {c : Canvas} (h : c.Tight) (x y : Nat) : (c.paint x y).Tight := by
  by_cases inside : c.page.Contains x y
  · have new : (c.paint x y).ink x y = true := (ink_paint c x y x y).mpr (Or.inr ⟨inside, rfl, rfl⟩)
    have old : ∀ {u v}, c.ink u v = true → (c.paint x y).ink u v = true :=
      fun inked => (ink_paint c x y _ _).mpr (Or.inl inked)
    have columns : ∀ u, (∃ v, (c.paint x y).ink u v = true) ↔
        (∃ v, c.ink u v = true) ∨ u = x := by
      intro u
      constructor
      · rintro ⟨v, inked⟩
        exact ((ink_paint c x y u v).mp inked).imp (fun inked => ⟨v, inked⟩)
          fun painted => painted.2.1
      · rintro (⟨v, inked⟩ | rfl)
        · exact ⟨v, old inked⟩
        · exact ⟨y, new⟩
    have rows : ∀ v, (∃ u, (c.paint x y).ink u v = true) ↔
        (∃ u, c.ink u v = true) ∨ v = y := by
      intro v
      constructor
      · rintro ⟨u, inked⟩
        exact ((ink_paint c x y u v).mp inked).imp (fun inked => ⟨u, inked⟩)
          fun painted => painted.2.2
      · rintro (⟨u, inked⟩ | rfl)
        · exact ⟨u, old inked⟩
        · exact ⟨x, new⟩
    obtain ⟨leX, inkedX⟩ :=
      largest_max (fun u ⟨v, inked⟩ => h.le_maxX u v inked) h.maxX_inked columns
    obtain ⟨leY, inkedY⟩ :=
      largest_max (fun v ⟨u, inked⟩ => h.le_maxY u v inked) h.maxY_inked rows
    have maxX : (c.paint x y).maxX = max c.maxX x := by rw [maxX_paint, if_pos inside]
    have maxY : (c.paint x y).maxY = max c.maxY y := by rw [maxY_paint, if_pos inside]
    rw [← maxX] at leX inkedX
    rw [← maxY] at leY inkedY
    exact ⟨fun u v inked => leX u ⟨v, inked⟩, fun u v inked => leY v ⟨u, inked⟩, inkedX, inkedY⟩
  · rw [paint_of_not_contains inside]
    exact h

theorem Painted.tight {c d : Canvas} (h : Painted c d) (tight : c.Tight) : d.Tight := by
  induction h with
  | refl => exact tight
  | paint _ x y ih => exact ih.paint x y

end Canvas
end DotMatrix
