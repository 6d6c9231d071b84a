import DotMatrix.CommandLine.Run
import DotMatrix.Proofs.Numerals

/-!
# What the text of a diagnostic says

The text of a diagnostic is read from the front, since what stands behind may be anything: the byte
that is shown as a character may be a blank, a bracket or a digit.

* The offset is written in eight digits or more, so it does not end at a fixed place.  It ends at
  the colon, which is no digit (`offsetText_append_inj`).
* Behind the offset there are six wordings for five kinds, and some begin alike: a byte in two
  digits, or a word.  Their third and fourth character are the first that always differ, except
  between the two wordings of one kind (`mark_eq_of_text_eq`).
* Within a kind what is left is a byte, whose two digits come first (`byteText_inj`), or two
  decimals, each of which ends at a character that is no digit (`toDigits_append_inj`).

So a text belongs to one diagnostic only, `eq_of_text_eq`.  On the way to a line of the log two
things could be lost, line breaks and control characters.  A diagnostic has neither, because its
text is made of `Plain` characters, and its line is its level, a blank and its text
(`logLine_diagnostic`).
-/

namespace DotMatrix
namespace Diagnostic

open Hexadecimal (ofByte padded)

variable {d e : Diagnostic}

/-! ## Offset and wording -/

theorem offsetText_append_inj {m n : Nat} {s t : String} :
    offsetText m ++ s = offsetText n ++ t ↔ m = n ∧ s = t := by
  have chars : ∀ (n : Nat) (s : String), (offsetText n ++ s).toList =
      '@' :: ((padded 8 n).toList ++ ':' :: ' ' :: s.toList) := fun n s => by
    simp [offsetText]
  rw [← String.toList_inj, chars, chars, List.cons_inj_right,
    Hexadecimal.padded_append_inj (by decide), List.cons_inj_right, String.toList_inj]

/-! ## The five kinds -/

/-- The third and the fourth character behind the offset, which tell the kinds apart. -/
def mark : Diagnostic → List Char
  | printable _ _ => [' ', '(']
  | unknownControl _ _ _ => [' ', 'a']
  | unknownEscape _ _ => ['C', ' ']
  | truncatedCommand _ _ => ['r', 'e']
  | truncatedBitImage _ _ _ => ['t', ' ']

theorem drop_ofByte_append (b : UInt8) (s : String) :
    (ofByte b ++ s).toList.drop 2 = s.toList := by
  rw [String.toList_append]
  exact List.drop_left' (Hexadecimal.length_ofByte b)

/-- Behind the offset stand two characters and the mark of the kind. -/
theorem exists_wording (d : Diagnostic) :
    ∃ w, d.text = offsetText d.offset ++ w ∧ d.mark = (w.toList.drop 2).take 2 := by
  cases d with
  | printable n b =>
    refine ⟨byteText b, rfl, ?_⟩
    rw [byteText, String.append_assoc, String.append_assoc, drop_ofByte_append]
    simp [mark]
  | unknownControl n b p =>
    refine ⟨ofByte b ++ (" at " ++ (p.x.repr ++ ("," ++ p.y.repr))), ?_, ?_⟩
    · rw [text]
      simp only [offset, String.append_assoc]
    · rw [drop_ofByte_append]
      simp [mark]
  | unknownEscape n b =>
    exact ⟨"ESC " ++ byteText b, String.append_assoc, by simp [mark]⟩
  | truncatedCommand n opcode =>
    cases opcode with
    | none => exact ⟨"stream ends after ESC", rfl, by simp [mark]⟩
    | some b => exact ⟨"stream ends inside ESC " ++ byteText b, String.append_assoc, by simp [mark]⟩
  | truncatedBitImage n declared available =>
    refine ⟨"bit image declares " ++ (declared.repr ++ (" bytes, only " ++ (available.repr ++
      " available"))), ?_, by simp [mark]⟩
    rw [text]
    simp only [offset, String.append_assoc]

theorem mark_eq_of_text_eq (same : d.text = e.text) : d.mark = e.mark := by
  obtain ⟨v, text_d, mark_d⟩ := exists_wording d
  obtain ⟨w, text_e, mark_e⟩ := exists_wording e
  rw [text_d, text_e] at same
  rw [mark_d, mark_e, (offsetText_append_inj.mp same).2]

/-! ## What the kinds say -/

variable {m n : Nat} {b c : UInt8} {p q : Position}

theorem byteText_inj : byteText b = byteText c ↔ b = c := by
  refine ⟨fun same => ?_, congrArg byteText⟩
  simp only [byteText, String.append_assoc] at same
  exact (Hexadecimal.ofByte_append_inj.mp same).1

theorem unknownControl_inj (same : (unknownControl m b p).text = (unknownControl n c q).text) :
    unknownControl m b p = unknownControl n c q := by
  rw [text, text] at same
  simp only [String.append_assoc, offsetText_append_inj, Hexadecimal.ofByte_append_inj,
    String.append_right_inj] at same
  obtain ⟨rfl, rfl, same⟩ := same
  have chars := congrArg String.toList same
  obtain ⟨x, y⟩ := p
  obtain ⟨x', y'⟩ := q
  obtain ⟨rfl, rfl⟩ : x = x' ∧ y = y' := by
    simpa [toDigits_append_inj, toDigits_inj] using chars
  rfl

theorem truncatedCommand_inj {x y : Option UInt8}
    (same : (truncatedCommand m x).text = (truncatedCommand n y).text) :
    truncatedCommand m x = truncatedCommand n y := by
  cases x with
  | none =>
    cases y with
    | none =>
      rw [text, text, offsetText_append_inj] at same
      rw [same.1]
    | some c =>
      rw [text, text, String.append_assoc, offsetText_append_inj] at same
      have chars := congrArg String.toList same.2
      simp at chars
  | some b =>
    cases y with
    | none =>
      rw [text, text, String.append_assoc, offsetText_append_inj] at same
      have chars := congrArg String.toList same.2
      simp at chars
    | some c =>
      rw [text, text, String.append_assoc, String.append_assoc, offsetText_append_inj,
        String.append_right_inj, byteText_inj] at same
      rw [same.1, same.2]

theorem truncatedBitImage_inj {declared declared' available available' : Nat}
    (same : (truncatedBitImage m declared available).text =
      (truncatedBitImage n declared' available').text) :
    truncatedBitImage m declared available = truncatedBitImage n declared' available' := by
  rw [text, text] at same
  simp only [String.append_assoc, offsetText_append_inj, String.append_right_inj] at same
  obtain ⟨rfl, same⟩ := same
  have chars := congrArg String.toList same
  obtain ⟨rfl, rfl⟩ : declared = declared' ∧ available = available' := by
    simpa [toDigits_append_inj, toDigits_inj] using chars
  rfl

/-- A diagnostic is known by its text. -/
theorem eq_of_text_eq (same : d.text = e.text) : d = e := by
  have marks := mark_eq_of_text_eq same
  cases d with
  | printable m b =>
    cases e with
    | printable n c =>
      rw [text, text, offsetText_append_inj, byteText_inj] at same
      rw [same.1, same.2]
    | _ => simp [mark] at marks
  | unknownControl m b p =>
    cases e with
    | unknownControl n c q => exact unknownControl_inj same
    | _ => simp [mark] at marks
  | unknownEscape m b =>
    cases e with
    | unknownEscape n c =>
      rw [text, text, String.append_assoc, String.append_assoc, offsetText_append_inj,
        String.append_right_inj, byteText_inj] at same
      rw [same.1, same.2]
    | _ => simp [mark] at marks
  | truncatedCommand m x =>
    cases e with
    | truncatedCommand n y => exact truncatedCommand_inj same
    | _ => simp [mark] at marks
  | truncatedBitImage m declared available =>
    cases e with
    | truncatedBitImage n declared' available' => exact truncatedBitImage_inj same
    | _ => simp [mark] at marks

end Diagnostic

/-! ## Lines of the log -/

/-- A text of characters from blank to tilde. -/
def Plain (s : String) : Prop := ∀ c ∈ s.toList, 0x20 ≤ c.toNat ∧ c.toNat ≤ 0x7E

instance (s : String) : Decidable (Plain s) :=
  List.decidableBAll (fun c : Char => 0x20 ≤ c.toNat ∧ c.toNat ≤ 0x7E) s.toList

theorem plain_append {s t : String} : Plain (s ++ t) ↔ Plain s ∧ Plain t := by
  rw [Plain, String.toList_append, List.forall_mem_append]
  exact Iff.rfl

theorem plain_repr (n : Nat) : Plain n.repr := by
  intro c mem
  rw [Nat.toList_repr] at mem
  have digit := Nat.isDigit_of_mem_toDigits (by decide) (by decide) mem
  simp only [Char.isDigit, Bool.and_eq_true, decide_eq_true_eq, UInt32.le_iff_toNat_le,
    ge_iff_le] at digit
  exact ⟨Nat.le_trans (by decide) digit.1, Nat.le_trans digit.2 (by decide)⟩

theorem plain_of_value? {s : String} {n : Nat} (h : Hexadecimal.value? 0 s.toList = some n) :
    Plain s := by
  intro c mem
  obtain ⟨d, digit⟩ := Hexadecimal.exists_digit_of_mem h mem
  rw [Hexadecimal.digit?] at digit
  simp only [Char.isDigit, Bool.and_eq_true, decide_eq_true_eq, UInt32.le_iff_toNat_le,
    ge_iff_le, Char.le_def] at digit
  split_ifs at digit with decimal lower upper
  · exact ⟨Nat.le_trans (by decide) decimal.1, Nat.le_trans decimal.2 (by decide)⟩
  · exact ⟨Nat.le_trans (by decide) lower.1, Nat.le_trans lower.2 (by decide)⟩
  · exact ⟨Nat.le_trans (by decide) upper.1, Nat.le_trans upper.2 (by decide)⟩

theorem plain_shown (b : UInt8) : Plain (String.singleton (Diagnostic.shown b)) := by
  have all : ∀ n < 256, Plain (String.singleton (Diagnostic.shown (UInt8.ofNat n))) := by
    decide +kernel
  simpa using all b.toNat b.toNat_lt

theorem plain_byteText (b : UInt8) : Plain (Diagnostic.byteText b) := by
  simp only [Diagnostic.byteText, plain_append, plain_shown,
    plain_of_value? (Hexadecimal.value?_ofByte b), true_and]
  decide

theorem plain_text (d : Diagnostic) : Plain d.text := by
  have offset : ∀ n, Plain (Diagnostic.offsetText n) := fun n => by
    simp only [Diagnostic.offsetText, plain_append, plain_of_value? (Hexadecimal.value?_padded 8 n),
      and_true]
    decide
  have byte : ∀ b, Plain (Hexadecimal.ofByte b) := fun b =>
    plain_of_value? (Hexadecimal.value?_ofByte b)
  cases d with
  | truncatedCommand n opcode =>
    cases opcode with
    | none => exact plain_append.mpr ⟨offset n, by decide⟩
    | some b =>
      simp only [Diagnostic.text, plain_append, offset, plain_byteText, and_true, true_and]
      decide
  | _ =>
    simp +decide only [Diagnostic.text, plain_append, offset, byte, plain_byteText, plain_repr,
      and_true]

namespace CommandLine

theorem indented_eq_self {s : String} (h : '\n' ∉ s.toList) : indented s = s := by
  have onto : ∀ (cs : List Char) (out : String), '\n' ∉ cs →
      (cs.foldl (fun out c => if c = '\n' then out ++ "\n    " else out.push c) out).toList =
        out.toList ++ cs := by
    intro cs
    induction cs with
    | nil => exact fun out _ => (List.append_nil _).symm
    | cons c cs ih =>
      intro out lineless
      obtain ⟨ne, rest⟩ := List.ne_and_not_mem_of_not_mem_cons lineless
      rw [List.foldl_cons, if_neg ne.symm, ih _ rest, String.toList_push, List.append_assoc]
      rfl
  rw [← String.toList_inj, indented, onto _ _ h]
  rfl

/-- The line of a diagnostic is its level and its text. -/
theorem logLine_diagnostic (d : Diagnostic) :
    logLine (.diagnostic d) = d.level.label ++ " " ++ d.text ++ "\n" := by
  have plain := plain_text d
  have lineless : '\n' ∉ d.text.toList := fun mem => absurd (plain _ mem).1 (by decide)
  rw [logLine]
  show ControlSequence.strip (d.level.label ++ " " ++ indented d.text ++ "\n") = _
  rw [indented_eq_self lineless]
  refine ControlSequence.strip_eq_self fun c mem => ?_
  rw [String.toList_append, List.mem_append] at mem
  rcases mem with mem | mem
  · have level : Plain (d.level.label ++ " ") := by
      cases d.level <;> decide
    obtain ⟨low, high⟩ := plain_append.mpr ⟨level, plain⟩ c mem
    have ne : c ≠ '\x7f' := by
      rintro rfl
      exact absurd high (by decide)
    simp [ControlSequence.isVisible, low, ne]
  · obtain rfl : c = '\n' := by simpa using mem
    rfl

end CommandLine

/-- **A diagnostic is known from its text.**  Diagnostics of any kind, with any offsets, numbers and
bytes, have the same text only if they are the same, and the same line in the log only then. -/
theorem Diagnostic.text_inj (d e : Diagnostic) :
    (d.text = e.text ↔ d = e) ∧
      (CommandLine.logLine (.diagnostic d) = CommandLine.logLine (.diagnostic e) ↔ d = e) := by
  refine ⟨⟨eq_of_text_eq, fun same => by rw [same]⟩, fun same => ?_, fun same => by rw [same]⟩
  have chars : ∀ d : Diagnostic, (CommandLine.logLine (.diagnostic d)).toList =
      d.level.label.toList ++ ' ' :: (d.text.toList ++ ['\n']) := fun d => by
    rw [CommandLine.logLine_diagnostic]
    simp
  have blankless : ∀ d : Diagnostic, ' ' ∉ d.level.label.toList := fun d => by
    cases d.level <;> decide
  have lines := congrArg String.toList same
  rw [chars, chars, append_cons_inj_of_notMem_left (blankless d) (blankless e)] at lines
  exact eq_of_text_eq (String.toList_inj.mp (List.append_cancel_right lines.2))

end DotMatrix
