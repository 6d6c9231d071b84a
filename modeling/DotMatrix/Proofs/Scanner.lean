import DotMatrix.Scanner
import DotMatrix.Proofs.Addressing

/-!
# A scan turn by turn

A scanner reads by offsets, and what is known about a stream is said with what is left of it.  The
lemmas here translate: where `s.drop o` is known, so is what a scanner finds at the offset `o`.

`Scans` is the loop of a scan without a bound on the turns: they are made as long as the offset is
inside the stream and no header was cut.  Nothing in it counts down.  A scan that does not end, or
that runs into a panic, is no `Scans`.  Where there is one there is no other (`Scans.unique`), and a
bound that it does not reach changes nothing (`Scans.run_eq`).
-/

namespace DotMatrix

/-! ## Some bytes of a stream -/

section

variable {s bs rest : List UInt8} {b : UInt8} {o n : Nat}

theorem load_of_drop (drop : s.drop o = b :: rest) : load s.toArray o = .ok b := by
  have here : s[o]? = some b := by rw [← List.head?_drop, drop, List.head?_cons]
  obtain ⟨inside, rfl⟩ := List.getElem?_eq_some_iff.mp here
  exact load_of_lt inside

theorem getElem?_toArray_of_drop (drop : s.drop o = bs) (k : Nat) :
    s.toArray[o + k]? = bs[k]? := by
  rw [List.getElem?_toArray, ← drop, List.getElem?_drop]

theorem available_of_drop (inside : o ≤ s.length) (drop : s.drop o = bs) :
    available s.toArray o = .ok bs.length := by
  rw [← drop, List.length_drop]
  exact if_pos inside

theorem toList_extract_of_drop (drop : s.drop o = bs) (n : Nat) :
    (s.toArray.extract o (o + n)).toList = bs.take n := by
  rw [← drop]
  simp

theorem drop_add (bs : List UInt8) (drop : s.drop o = bs ++ rest) :
    s.drop (o + bs.length) = rest := by
  rw [← List.drop_drop, drop, List.drop_left]

/-- Bytes that are there are in front of the end. -/
theorem length_eq_of_drop (bs : List UInt8) (drop : s.drop o = bs ++ rest) (some : 0 < bs.length) :
    s.length = o + bs.length + rest.length := by
  have length := congrArg List.length drop
  rw [List.length_drop, List.length_append] at length
  omega

theorem lt_of_drop (bs : List UInt8) (drop : s.drop o = bs ++ b :: rest) :
    o + bs.length < s.length := by
  have length := congrArg List.length drop
  rw [List.length_drop, List.length_append, List.length_cons] at length
  omega

theorem header_le_length {i : BitImage} (drop : s.drop o = i.header ++ rest) :
    o + i.header.length ≤ s.length := by
  rw [length_eq_of_drop _ drop i.length_header_pos]
  exact Nat.le_add_right _ _

theorem window_of_drop (drop : s.drop o = bs ++ rest) (some : 0 < bs.length) :
    window s.toArray o (o + bs.length) = .some bs := by
  have inside : o + bs.length ≤ s.toArray.size := by
    rw [List.size_toArray, length_eq_of_drop _ drop some]
    exact Nat.le_add_right _ _
  rw [window, if_pos ⟨Nat.le_add_right _ _, inside⟩, toList_extract_of_drop drop, List.take_left]

theorem window_of_lt (short : s.length < n) : window s.toArray o n = none :=
  if_neg fun inside => Nat.not_le.mpr short inside.2

end

/-! ## The loop -/

/-- The scan goes from one scanner to another, turn by turn, as long as there is a token to take.
The list has the scanner in front of each turn. -/
inductive Scans (b : Build) (data : Array UInt8) : Scanner → List Scanner → Scanner → Prop where
  | ends {m : Scanner} (idle : ¬m.Running data) : Scans b data m [] m
  | turns {m n last : Scanner} {before : List Scanner} (running : m.Running data)
      (turn : m.turn b data = .ok n) (others : Scans b data n before last) :
      Scans b data m (m :: before) last

namespace Scans

variable {b : Build} {data : Array UInt8} {m last last' : Scanner} {before before' : List Scanner}

/-- There is only one scan. -/
theorem unique (h : Scans b data m before last) (k : Scans b data m before' last') :
    before' = before ∧ last' = last := by
  induction h generalizing before' with
  | ends idle =>
    cases k with
    | ends => exact ⟨rfl, rfl⟩
    | turns running => exact absurd running idle
  | turns running turn _ ih =>
    cases k with
    | ends idle => exact absurd running idle
    | turns _ turn' others =>
      obtain rfl := Except.ok.inj (turn.symm.trans turn')
      obtain ⟨rfl, rfl⟩ := ih others
      exact ⟨rfl, rfl⟩

/-- A scan ends where it does in any larger number of turns. -/
theorem run_eq (h : Scans b data m before last) {n : Nat} (enough : before.length ≤ n) :
    Scanner.run b data n m = .ok last := by
  induction h generalizing n with
  | @ends m idle =>
    cases n with
    | zero => rfl
    | succ n => exact if_neg idle
  | turns running turn _ ih =>
    cases n with
    | zero => exact absurd enough (Nat.not_succ_le_zero _)
    | succ n =>
      refine (if_pos running).trans ?_
      rw [bind_of_ok turn]
      exact ih (Nat.le_of_succ_le_succ enough)

end Scans
end DotMatrix
