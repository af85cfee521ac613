import Herd.Text.CaseRanges

/-!
# Blank text

A character is blank when Unicode gives it the property `White_Space`; a text is
blank when all its characters are. Zero-width spaces and the byte order mark
are not blank.
-/

namespace Herd.Text

/-- The code points of `White_Space`. -/
def blankRanges : List (Nat × Nat) := [
  (0x09, 0x0d), (0x20, 0x20), (0x85, 0x85), (0xa0, 0xa0), (0x1680, 0x1680),
  (0x2000, 0x200a), (0x2028, 0x2029), (0x202f, 0x202f), (0x205f, 0x205f),
  (0x3000, 0x3000)]

def isBlank (c : Char) : Bool := inRanges blankRanges c.toNat

/-- Whether nothing but blanks is in the text; the empty text is blank. -/
def isBlankText (s : String) : Bool := s.toList.all isBlank

end Herd.Text
