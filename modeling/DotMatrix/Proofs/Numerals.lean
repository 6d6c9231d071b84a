import DotMatrix.Hexadecimal
import Mathlib.Data.List.Basic

/-!
# Numbers read back from their digits

A number that is written down stands between other characters, and to read it back two things are
needed: where its digits end, and which number they are.

* `append_cons_inj_of_notMem_left`: a text falls apart at a character that is not in its front.
* `Hexadecimal.value?` is the number of some hexadecimal digits, in either case, and what the three
  writers of such numbers put down has the value that it was made from (`value?_toDigits`,
  `value?_padded`, `value?_ofByte`).  Zeros in front do not matter.
* `toDigits_append_inj`: a decimal ends where a character follows that is no digit.
-/

namespace DotMatrix

/-- A text falls apart at a character that is not in its front. -/
theorem append_cons_inj_of_notMem_left {α : Type} {c : α} {a b s t : List α} (ha : c ∉ a)
    (hb : c ∉ b) : a ++ c :: s = b ++ c :: t ↔ a = b ∧ s = t := by
  refine ⟨fun same => ?_, fun ⟨front, back⟩ => by rw [front, back]⟩
  induction a generalizing b with
  | nil =>
    cases b with
    | nil => exact ⟨rfl, (List.cons.inj same).2⟩
    | cons d b => exact absurd ((List.cons.inj same).1 ▸ List.mem_cons_self) hb
  | cons d a ih =>
    cases b with
    | nil => exact absurd ((List.cons.inj same).1 ▸ List.mem_cons_self) ha
    | cons e b =>
      obtain ⟨rfl, others⟩ := List.cons.inj same
      obtain ⟨rfl, back⟩ := ih (fun mem => ha (List.mem_cons_of_mem d mem))
        (fun mem => hb (List.mem_cons_of_mem d mem)) others
      exact ⟨rfl, back⟩

namespace Hexadecimal

/-! ## Hexadecimals -/

/-- The number of a hexadecimal digit, in either case. -/
def digit? (c : Char) : Option Nat :=
  if c.isDigit then some (c.toNat - '0'.toNat)
  else if 'a' ≤ c ∧ c ≤ 'f' then some (c.toNat - 'a'.toNat + 10)
  else if 'A' ≤ c ∧ c ≤ 'F' then some (c.toNat - 'A'.toNat + 10)
  else none

/-- The number of some hexadecimal digits behind those of a number. -/
def value? (n : Nat) : List Char → Option Nat
  | [] => some n
  | c :: cs => (digit? c).bind fun d => value? (16 * n + d) cs

theorem digit?_digitChar {n : Nat} (h : n < 16) : digit? n.digitChar = some n := by
  have all : ∀ n < 16, digit? n.digitChar = some n := by decide
  exact all n h

theorem digit?_upperDigit {n : Nat} (h : n < 16) : digit? (upperDigit n) = some n := by
  have all : ∀ n < 16, digit? (upperDigit n) = some n := by decide
  exact all n h

theorem value?_append (n : Nat) (a b : List Char) :
    value? n (a ++ b) = (value? n a).bind fun m => value? m b := by
  induction a generalizing n with
  | nil => rfl
  | cons c a ih =>
    rw [List.cons_append, value?, value?]
    cases digit? c with
    | none => rfl
    | some d => exact ih (16 * n + d)

theorem value?_toDigits (n : Nat) : value? 0 (Nat.toDigits 16 n) = some n := by
  induction n using Nat.strongRecOn with
  | ind n ih =>
    rw [Nat.toDigits_eq_if (by decide)]
    by_cases small : n < 16
    · rw [if_pos small, value?, digit?_digitChar small]
      simp [value?]
    · rw [if_neg small, value?_append, ih (n / 16) (by omega), Option.bind_some, value?,
        digit?_digitChar (Nat.mod_lt n (by decide))]
      simp [value?, Nat.div_add_mod]

theorem value?_replicate_zero (k : Nat) : value? 0 (List.replicate k '0') = some 0 := by
  induction k with
  | zero => rfl
  | succ k ih => exact ih

theorem value?_padded (width n : Nat) : value? 0 (padded width n).toList = some n := by
  rw [padded, String.toList_ofList, List.leftpad, value?_append, value?_replicate_zero]
  exact value?_toDigits n

theorem value?_ofByte (b : UInt8) : value? 0 (ofByte b).toList = some b.toNat := by
  have below := b.toNat_lt
  rw [ofByte, String.toList_ofList, value?, digit?_upperDigit (by omega), Option.bind_some, value?,
    digit?_upperDigit (by omega)]
  simp [value?, Nat.div_add_mod]

/-- What has a value has digits only. -/
theorem exists_digit_of_mem {n m : Nat} {cs : List Char} (h : value? n cs = some m) {c : Char}
    (mem : c ∈ cs) : ∃ d, digit? c = some d := by
  induction cs generalizing n with
  | nil => exact absurd mem List.not_mem_nil
  | cons e cs ih =>
    obtain ⟨d, digit, rest⟩ := Option.bind_eq_some_iff.mp h
    rcases List.mem_cons.mp mem with rfl | mem
    · exact ⟨d, digit⟩
    · exact ih rest mem

theorem notMem_of_value? {n m : Nat} {cs : List Char} (h : value? n cs = some m) {c : Char}
    (other : digit? c = none) : c ∉ cs := by
  intro mem
  obtain ⟨d, digit⟩ := exists_digit_of_mem h mem
  exact nomatch other.symm.trans digit

theorem length_ofByte (b : UInt8) : (ofByte b).toList.length = 2 := by
  rw [ofByte, String.toList_ofList]
  rfl

/-- A padded number ends where a character follows that is no digit. -/
theorem padded_append_inj {width m n : Nat} {c : Char} (other : digit? c = none)
    {s t : List Char} :
    (padded width m).toList ++ c :: s = (padded width n).toList ++ c :: t ↔ m = n ∧ s = t := by
  rw [append_cons_inj_of_notMem_left (notMem_of_value? (value?_padded width m) other)
    (notMem_of_value? (value?_padded width n) other)]
  refine and_congr_left fun _ => ⟨fun same => ?_, fun same => by rw [same]⟩
  have value := congrArg (value? 0) same
  rw [value?_padded, value?_padded] at value
  exact Option.some.inj value

/-- A byte ends behind its second digit. -/
theorem ofByte_append_inj {b c : UInt8} {s t : String} :
    ofByte b ++ s = ofByte c ++ t ↔ b = c ∧ s = t := by
  refine ⟨fun same => ?_, fun ⟨front, back⟩ => by rw [front, back]⟩
  have chars := congrArg String.toList same
  rw [String.toList_append, String.toList_append] at chars
  obtain ⟨front, back⟩ := List.append_inj chars (by rw [length_ofByte, length_ofByte])
  have value := congrArg (value? 0) front
  rw [value?_ofByte, value?_ofByte] at value
  exact ⟨UInt8.toNat_inj.mp (Option.some.inj value), String.toList_inj.mp back⟩

end Hexadecimal

/-! ## Decimals -/

theorem toDigits_inj {m n : Nat} : Nat.toDigits 10 m = Nat.toDigits 10 n ↔ m = n := by
  refine ⟨fun same => ?_, fun same => by rw [same]⟩
  rw [← Nat.ofDigitChars_ten_toDigits (n := m), same, Nat.ofDigitChars_ten_toDigits]

/-- A decimal ends where a character follows that is no digit. -/
theorem toDigits_append_inj {m n : Nat} {c : Char} (other : c.isDigit = false) {s t : List Char} :
    Nat.toDigits 10 m ++ c :: s = Nat.toDigits 10 n ++ c :: t ↔ m = n ∧ s = t := by
  have outside : ∀ k : Nat, c ∉ Nat.toDigits 10 k := fun k mem => Bool.false_ne_true
    (other.symm.trans (Nat.isDigit_of_mem_toDigits (by decide) (by decide) mem))
  rw [append_cons_inj_of_notMem_left (outside m) (outside n), toDigits_inj]

end DotMatrix
