import DotMatrix.Proofs.Histories

/-!
# One more bit image, cell by cell

A canvas has been painted in some way, and one more bit image is struck on it.  Which cells it inks
is known by columns (`Struck`): a column of the payload stands in a column of the page.  Here it is
read the other way round.  From a cell, its distance to the head says which byte of the payload is
over it and which bit of that byte, and so whether it is inked (`struck_iff`).

* `isGreatest_grown`: an extent is found by looking at the new ink alone.  What the old ink has
  reached is remembered by the old extent, even where the new ink covers the old.
* `strike_congr`: payload past the announced length is looked at by nobody.
-/

namespace DotMatrix

/-- The byte and the bit that are over a cell. -/
theorem struck_iff (columns : List UInt8) (p : Position) (x y : Nat) :
    Struck columns p x y ↔
      (p.x ≤ x ∧ x < p.x + columns.length) ∧ (p.y ≤ y ∧ y < p.y + 16) ∧
        ∃ b, columns[x - p.x]? = some b ∧ b.toNat.testBit (7 - (y - p.y) / 2) = true := by
  constructor
  · rintro ⟨k, inside, rfl, low, high, bit⟩
    rw [Nat.add_sub_cancel_left]
    exact ⟨⟨Nat.le_add_right _ _, Nat.add_lt_add_left inside _⟩, ⟨low, high⟩, columns[k],
      List.getElem?_eq_getElem inside, bit⟩
  · rintro ⟨⟨left, -⟩, ⟨low, high⟩, b, byte, bit⟩
    obtain ⟨inside, rfl⟩ := List.getElem?_eq_some_iff.mp byte
    exact ⟨x - p.x, inside, (Nat.add_sub_cancel' left).symm, low, high, bit⟩

/-- Among the first columns, up to the announced length, stand the bytes of the payload. -/
theorem struck_take_iff (payload : List UInt8) (declared : Nat) (p : Position) (x y : Nat) :
    Struck (payload.take declared) p x y ↔
      (p.x ≤ x ∧ x < p.x + min payload.length declared) ∧ (p.y ≤ y ∧ y < p.y + 16) ∧
        ∃ b, payload[x - p.x]? = some b ∧ b.toNat.testBit (7 - (y - p.y) / 2) = true := by
  rw [struck_iff, List.length_take, Nat.min_comm declared]
  refine and_congr_right fun ⟨left, right⟩ => ?_
  have announced : x - p.x < declared := by omega
  rw [List.getElem?_take_of_lt announced]

/-- A position past a bit image is past the columns that are there and announced. -/
theorem Position.past_eq (p : Position) (i : BitImage) :
    p.past i = ⟨p.x + min i.payload.length i.declared, p.y⟩ := by
  rw [past, right, List.length_take, Nat.min_comm]

/-- A bound that has grown is the greatest of the old bound and of what is new, if old and new bound
all and the new one is reached. -/
theorem isGreatest_grown {P Q : Nat → Prop} {m k : Nat} (above : ∀ n, P n → n ≤ m) (grown : m ≤ k)
    (covers : ∀ n, Q n → n ≤ k) (reached : k = 0 ∨ P k ∨ Q k) : IsGreatest {n | n = m ∨ Q n} k := by
  refine ⟨?_, ?_⟩
  · rcases reached with rfl | old | new
    · exact Or.inl (Nat.le_zero.mp grown).symm
    · exact Or.inl (Nat.le_antisymm (above k old) grown)
    · exact Or.inr new
  · rintro n (rfl | new)
    · exact grown
    · exact covers n new

namespace Canvas

/-- What was painted in between says how far the extents have grown. -/
theorem Painted.extents {c d : Canvas} (painted : Painted c d) (tight : c.Tight)
    {marked : Nat → Nat → Prop}
    (ink : ∀ x y, d.ink x y = true ↔ c.ink x y = true ∨ marked x y) :
    IsGreatest {x | x = c.maxX ∨ ∃ y, marked x y} d.maxX ∧
      IsGreatest {y | y = c.maxY ∨ ∃ x, marked x y} d.maxY := by
  have grown := painted.tight tight
  have new : ∀ {x y}, marked x y → d.ink x y = true := fun mark => (ink _ _).mpr (Or.inr mark)
  constructor
  · refine isGreatest_grown (P := fun x => ∃ y, c.ink x y = true) ?_ painted.maxX_le ?_ ?_
    · rintro x ⟨y, inked⟩
      exact tight.le_maxX x y inked
    · rintro x ⟨y, mark⟩
      exact grown.le_maxX x y (new mark)
    · refine grown.maxX_inked.imp_right fun ⟨y, inked⟩ => ?_
      exact ((ink _ _).mp inked).imp (fun old => ⟨y, old⟩) fun mark => ⟨y, mark⟩
  · refine isGreatest_grown (P := fun y => ∃ x, c.ink x y = true) ?_ painted.maxY_le ?_ ?_
    · rintro y ⟨x, inked⟩
      exact tight.le_maxY x y inked
    · rintro y ⟨x, mark⟩
      exact grown.le_maxY x y (new mark)
    · refine grown.maxY_inked.imp_right fun ⟨x, inked⟩ => ?_
      exact ((ink _ _).mp inked).imp (fun old => ⟨x, old⟩) fun mark => ⟨x, mark⟩

/-- Two payloads with the same columns up to the announced length are struck alike. -/
theorem strike_congr (c : Canvas) (p : Position) {i : BitImage} {other : List UInt8}
    (length : min other.length i.declared = min i.payload.length i.declared)
    (columns : other.take (min i.payload.length i.declared) =
      i.payload.take (min i.payload.length i.declared)) :
    c.strike p { i with payload := other } = c.strike p i ∧
      p.past { i with payload := other } = p.past i := by
  have struck : other.take i.declared = i.payload.take i.declared := by
    rw [List.take_eq_take_min, Nat.min_comm, length, columns, Nat.min_comm, ← List.take_eq_take_min]
  constructor
  · exact congrArg (c.strikeColumns p.x p.y) struck
  · exact congrArg (fun columns => p.right columns.length) struck

/-- At the right edge of the page, one column of three is in it, and the fourth byte is not
announced. -/
example :
    let c := (blank ⟨"narrow", 8, 12, 1, 34⟩).drawAll [.cell 2 3]
    let d := c.strike ⟨7, 4⟩ ⟨.double, ⟨3, 0⟩, [0x81, 0xFF, 0xFF, 0xFF]⟩
    (∀ x < 8, ∀ y < 12, d.ink x y = true ↔ (x = 2 ∧ y = 3) ∨ x = 7 ∧ (y = 4 ∨ y = 5)) ∧
      d.maxX = 7 ∧ d.maxY = 5 := by
  decide +kernel

end Canvas
end DotMatrix
