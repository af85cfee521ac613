import Herd.Text.Lower

/-!
# Group labels

Labels match when they are equal but for case, character by character.
-/

namespace Herd

/-- Whether all characters are ASCII. -/
def isAscii (s : String) : Bool := s.toList.all (·.toNat < 0x80)

/-- Whether two labels are equal but for case. Two ASCII labels need no table. -/
def labelsMatch (a b : String) : Bool :=
  if isAscii a && isAscii b then Text.lowerAscii a == Text.lowerAscii b
  else Text.lowerEach a == Text.lowerEach b

end Herd
