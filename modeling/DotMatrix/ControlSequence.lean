/-!
# Text without control sequences

A text that goes to a terminal may hold sequences that start with an escape character and tell the
terminal what to do, such as a change of colour.  Where the text goes to a file they are noise, and
so are the control characters other than line breaks, tabs and form feeds.
`ControlSequence.strip` leaves both out.

The reading of a text stands at a `Place`: in plain text, or in one of the parts of a sequence.
Three characters mean the same at every place.  An escape starts a new sequence, and a cancel or a
substitute gives up the one at hand.

A break inside a short sequence is kept, and the sequence is then *suspended*: text is shown until
the next control character, and there the sequence goes on.  A character past ASCII that is shown
ends a suspended sequence for good.

The main statements say that nothing but visible characters is left (`visible_of_mem_strip`), and
that a text of visible characters stays as it is (`strip_eq_self`).
-/

namespace DotMatrix
namespace ControlSequence

/-- Where the reading of a text stands. -/
inductive Place where
  /-- Outside every sequence. -/
  | text
  /-- After an escape. -/
  | escape
  /-- After an escape and characters that qualify its command. -/
  | qualified
  /-- Among the parameters of a command to the terminal. -/
  | parameters
  /-- At the start of a command to a device. -/
  | device
  /-- Among the parameters of a command to a device. -/
  | deviceParameters
  /-- After characters that qualify a command to a device. -/
  | deviceQualified
  /-- In the text of a command to a device or of a message. -/
  | message
  /-- In the text of a command to the operating system. -/
  | system
  deriving DecidableEq, Repr

/-- A code between two bounds. -/
def between (low high : Nat) (c : Char) : Bool := decide (low ≤ c.toNat ∧ c.toNat ≤ high)

/-- A line break, a tab or a form feed. -/
def isBreak (c : Char) : Bool := c = '\t' || c = '\n' || c = '\x0c' || c = '\r'

/-- A character that may be shown: a break, or one that is no control character. -/
def isVisible (c : Char) : Bool := isBreak c || (decide (0x20 ≤ c.toNat) && c ≠ '\x7f')

/-- A character whose UTF-8 bytes hold the byte that ends a message.  The terminal looks at bytes
there, so that a character past ASCII can end a message. -/
def endsMessage (c : Char) : Bool := (String.utf8EncodeChar c).contains 0x9C

namespace Place

/-- The place after a character that is not shown.  Characters that say nothing at a place leave
the reading there. -/
def next (c : Char) : Place → Place
  | text => text
  | escape =>
    if between 0x20 0x2F c then qualified
    else if c = '[' then parameters
    else if c = ']' then system
    else if c = 'P' then device
    else if c = 'X' || c = '^' || c = '_' then message
    else if between 0x30 0x7E c then text
    else escape
  | qualified => if between 0x30 0x7E c then text else qualified
  | parameters => if between 0x40 0x7E c then text else parameters
  | device =>
    if between 0x20 0x2F c then deviceQualified
    else if between 0x30 0x3F c then deviceParameters
    else if between 0x40 0x7E c then message
    else device
  | deviceParameters =>
    if between 0x20 0x2F c then deviceQualified
    else if between 0x3C 0x7E c then message
    else deviceParameters
  | deviceQualified => if between 0x30 0x7E c then message else deviceQualified
  | message => if endsMessage c then text else message
  | system => if c = '\x07' then text else system

/-- The parts of a sequence in which a break is kept. -/
def keepsBreaks : Place → Bool
  | escape | qualified | parameters => true
  | _ => false

end Place

/-- The state of a reading. -/
structure Reading where
  /-- Where the reading stands. -/
  place : Place := .text
  /-- Whether text is shown even if a sequence is unfinished. -/
  suspended : Bool := false
  deriving DecidableEq, Repr

namespace Reading

/-- Whether a reading shows a character. -/
def shows (r : Reading) (c : Char) : Bool :=
  isVisible c &&
    (r.suspended || decide (r.place = .text) || (r.place.keepsBreaks && isBreak c))

/-- The reading past a character. -/
def after (r : Reading) (c : Char) : Reading :=
  if c = '\x1b' then ⟨.escape, false⟩
  else if c = '\x18' || c = '\x1a' then ⟨.text, false⟩
  else if r.shows c then ⟨if c.toNat < 0x80 then r.place else .text, true⟩
  else ⟨r.place.next c, false⟩

/-- The characters that a reading shows. -/
def shown (r : Reading) : List Char → List Char
  | [] => []
  | c :: rest => if r.shows c then c :: (r.after c).shown rest else (r.after c).shown rest

/-- What is shown is visible. -/
theorem visible_of_mem_shown {r : Reading} {s : List Char} {c : Char} (h : c ∈ r.shown s) :
    isVisible c = true := by
  induction s generalizing r with
  | nil => simp [shown] at h
  | cons d rest ih =>
    rw [shown] at h
    split at h
    · next hd =>
      rcases List.mem_cons.mp h with rfl | h
      · rw [shows, Bool.and_eq_true] at hd
        exact hd.1
      · exact ih h
    · exact ih h

/-- Outside every sequence a visible character is shown. -/
theorem shows_of_text {r : Reading} {c : Char} (hr : r.place = .text) (hc : isVisible c = true) :
    r.shows c = true := by
  simp [shows, hr, hc]

/-- A visible character does not lead into a sequence. -/
theorem place_after {r : Reading} {c : Char} (hr : r.place = .text) (hc : isVisible c = true) :
    (r.after c).place = .text := by
  have escape : c ≠ '\x1b' := by rintro rfl; exact absurd hc (by decide)
  have cancel : c ≠ '\x18' := by rintro rfl; exact absurd hc (by decide)
  have substitute : c ≠ '\x1a' := by rintro rfl; exact absurd hc (by decide)
  simp [after, escape, cancel, substitute, shows_of_text hr hc, hr]

/-- Outside every sequence visible characters are shown as they are. -/
theorem shown_eq_self {r : Reading} {s : List Char} (hr : r.place = .text)
    (hs : ∀ c ∈ s, isVisible c = true) : r.shown s = s := by
  induction s generalizing r with
  | nil => rfl
  | cons c rest ih =>
    have hc := hs c List.mem_cons_self
    rw [shown, if_pos (shows_of_text hr hc),
      ih (place_after hr hc) fun d hd => hs d (List.mem_cons_of_mem c hd)]

end Reading

/-- A text without its control sequences and without control characters other than breaks. -/
def strip (s : String) : String := String.ofList (Reading.shown {} s.toList)

/-- Only visible characters are left. -/
theorem visible_of_mem_strip {s : String} {c : Char} (h : c ∈ (strip s).toList) :
    isVisible c = true := by
  rw [strip, String.toList_ofList] at h
  exact Reading.visible_of_mem_shown h

/-- A text of visible characters stays as it is. -/
theorem strip_eq_self {s : String} (hs : ∀ c ∈ s.toList, isVisible c = true) : strip s = s := by
  rw [strip, Reading.shown_eq_self rfl hs, String.ofList_toList]

/-- What is left holds nothing more to leave out. -/
theorem strip_strip (s : String) : strip (strip s) = strip s :=
  strip_eq_self fun _ h => visible_of_mem_strip h

end ControlSequence
end DotMatrix
