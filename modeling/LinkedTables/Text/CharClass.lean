import LinkedTables.Text.Alphabetic
import LinkedTables.Text.Numeric

/-!
# Character classes of the filter language

Blanks separate tokens and mean nothing.  A name begins with a letter or an underscore and goes
on with letters, numbers and underscores, in every script.  The digits of a number are the ten
of ASCII alone.
-/

namespace LinkedTables.Text

/-- The ranges of the property White_Space. -/
def blankRanges : Ranges :=
  [(0x9, 0xD), (0x20, 0x20), (0x85, 0x85), (0xA0, 0xA0), (0x1680, 0x1680), (0x2000, 0x200A),
    (0x2028, 0x2029), (0x202F, 0x202F), (0x205F, 0x205F), (0x3000, 0x3000)]

/-- A character that only separates tokens. -/
def isBlank (c : Char) : Bool := blankRanges.contains c.toNat

/-- A letter of any script. -/
def isLetter (c : Char) : Bool := alphabeticRanges.contains c.toNat

/-- A letter or a number of any script. -/
def isLetterOrNumber (c : Char) : Bool := isLetter c || numericRanges.contains c.toNat

/-- A character that a name may begin with. -/
def isNameStart (c : Char) : Bool := isLetter c || c == '_'

/-- A character that a name may go on with. -/
def isNameChar (c : Char) : Bool := isLetterOrNumber c || c == '_'

/-- One of the ten ASCII digits. -/
def isDigit (c : Char) : Bool := '0' ≤ c && c ≤ '9'

/-- A name may go on with whatever it may begin with. -/
theorem isNameChar_of_isNameStart {c : Char} (h : isNameStart c) : isNameChar c := by
  simp only [isNameStart, isNameChar, isLetterOrNumber, Bool.or_eq_true] at h ⊢
  exact h.imp_left Or.inl

end LinkedTables.Text
