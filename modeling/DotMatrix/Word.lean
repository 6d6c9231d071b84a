/-!
# Words of a machine

A machine has no natural numbers.  It keeps sizes, offsets, columns and rows in words of 64 bits,
and a sum, a difference or a product may be no word.  What happens then is a matter of the `Build`:
one with checks stops the program, one without goes on with what the word can hold of the result.

Words are natural numbers here.  They are added, subtracted and multiplied through a build, and what
stops the program is a `Panic`.  As long as the result is a word, every build gets the same one
(`Build.add_of_lt`, `Build.sub_of_le`, `Build.mul_of_lt`).
-/

namespace DotMatrix

/-! ## Panics -/

/-- Why a program stops on the spot. -/
inductive Panic where
  /-- A sum that is no word. -/
  | sum
  /-- A difference that is no word. -/
  | difference
  /-- A product that is no word. -/
  | product
  /-- A buffer that is too long for any memory. -/
  | capacity
  /-- A byte past the end of a buffer. -/
  | index (i size : Nat)
  /-- The rest of a buffer from behind its end on. -/
  | rest (start size : Nat)
  /-- A range that starts behind its end, or that ends past the end of a buffer. -/
  | range (start stop size : Nat)
  /-- A bitmap with a wrong number of pixels. -/
  | pixels (count width height : Nat)
  deriving DecidableEq, Repr

namespace Panic

/-- The words for a panic. -/
def message : Panic → String
  | sum => "attempt to add with overflow"
  | difference => "attempt to subtract with overflow"
  | product => "attempt to multiply with overflow"
  | capacity => "capacity overflow"
  | index i size =>
    "index out of bounds: the len is " ++ size.repr ++ " but the index is " ++ i.repr
  | rest start size =>
    "range start index " ++ start.repr ++ " out of range for slice of length " ++ size.repr
  | range start stop size =>
    if stop < start then "slice index starts at " ++ start.repr ++ " but ends at " ++ stop.repr
    else "range end index " ++ stop.repr ++ " out of range for slice of length " ++ size.repr
  | pixels count width height =>
    "assertion `left == right` failed: Bitmap data must be exactly width * height pixels\n" ++
      "  left: " ++ count.repr ++ "\n right: " ++ (width * height).repr

end Panic

/-- What comes after a result. -/
theorem bind_of_ok {α β : Type} {x : Except Panic α} {a : α} (done : x = .ok a)
    (f : α → Except Panic β) : x >>= f = f a := by
  rw [done]
  rfl

/-- What comes after a panic. -/
theorem bind_of_error {α β : Type} {x : Except Panic α} {panic : Panic} (failed : x = .error panic)
    (f : α → Except Panic β) : x >>= f = .error panic := by
  rw [failed]
  rfl

/-! ## Builds -/

/-- How a program was built. -/
inductive Build where
  /-- With checks for overflow. -/
  | checked
  /-- Without them, so that results wrap around. -/
  | wrapping
  deriving DecidableEq, Repr

namespace Build

/-- Bring a result into a word. -/
def fit (b : Build) (overflow : Panic) (n : Nat) : Except Panic Nat :=
  if n < UInt64.size then .ok n
  else
    match b with
    | checked => .error overflow
    | wrapping => .ok (n % UInt64.size)

/-- The sum of two words. -/
def add (b : Build) (m n : Nat) : Except Panic Nat := b.fit .sum (m + n)

/-- The product of two words. -/
def mul (b : Build) (m n : Nat) : Except Panic Nat := b.fit .product (m * n)

/-- The difference of two words. -/
def sub (b : Build) (m n : Nat) : Except Panic Nat :=
  if n ≤ m then .ok (m - n)
  else
    match b with
    | checked => .error .difference
    | wrapping => .ok (m + UInt64.size - n)

variable (b : Build) {m n : Nat}

theorem fit_of_lt (overflow : Panic) (h : n < 18446744073709551616) : b.fit overflow n = .ok n :=
  if_pos h

/-- A sum that is a word is the sum. -/
theorem add_of_lt (h : m + n < 18446744073709551616) : b.add m n = .ok (m + n) :=
  b.fit_of_lt .sum h

/-- A product that is a word is the product. -/
theorem mul_of_lt (h : m * n < 18446744073709551616) : b.mul m n = .ok (m * n) :=
  b.fit_of_lt .product h

/-- A difference that is a word is the difference. -/
theorem sub_of_le (h : n ≤ m) : b.sub m n = .ok (m - n) :=
  if_pos h

/-- Without checks nothing overflows. -/
theorem exists_fit_wrapping (overflow : Panic) (n : Nat) :
    ∃ r, wrapping.fit overflow n = .ok r := by
  by_cases h : n < UInt64.size
  · exact ⟨n, if_pos h⟩
  · exact ⟨n % UInt64.size, if_neg h⟩

end Build
end DotMatrix
