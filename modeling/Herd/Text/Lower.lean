import Herd.Text.LowerRuns
import Herd.Text.CaseRanges

/-!
# Lower case

Three foldings of case, from narrow to wide:

* `lowerAscii` folds the letters A to Z and nothing else; names of resources are
  compared with it;
* `lowerEach` folds every character by itself, as Unicode maps it; membership of
  a group compares labels with it;
* `lowerWord` folds a text as a whole, so that a capital sigma at the end of a
  word becomes its final form; the register of groups is keyed by it.

On ASCII text all three agree.
-/

namespace Herd.Text

/-- Fold A to Z. -/
def lowerAscii (s : String) : String := String.ofList (s.toList.map Char.toLower)

/-- The distance from a code point beyond ASCII to its lower-case form. -/
def lowerShift (code : Nat) : Int :=
  match lowerRuns.find? fun r =>
      r.first ≤ code && code ≤ r.last && (code - r.first) % r.step == 0 with
  | some r => r.shift
  | none => 0

/-- The lower-case form of a character: one character, but for the dotted capital I,
which becomes a small i and a combining dot above. -/
def lowerChar (c : Char) : List Char :=
  if c.toNat < 0x80 then [c.toLower]
  else if c.toNat = 0x130 then ['i', '\u0307']
  else [Char.ofNat (c.toNat + lowerShift c.toNat).toNat]

/-- Fold every character by itself. -/
def lowerEach (s : String) : List Char := s.toList.flatMap lowerChar

/-! ## The final form of sigma -/

def isCased (c : Char) : Bool := inRanges casedRanges c.toNat

def isCaseIgnorable (c : Char) : Bool := inRanges caseIgnorableRanges c.toNat

/-- Whether the first character that is not ignored is a cased one. -/
def meetsCased (cs : List Char) : Bool :=
  match cs.dropWhile isCaseIgnorable with
  | c :: _ => isCased c
  | [] => false

/-- Fold the rest of a text of which `before` is already read, last character first. A
sigma that ends a word (a cased letter stands before it and none after it) takes the
final form. -/
def lowerAfter (before : List Char) : List Char → List Char
  | [] => []
  | c :: rest =>
    let folded :=
      if c = 'Σ' then
        if meetsCased before && !meetsCased rest then ['ς'] else ['σ']
      else lowerChar c
    folded ++ lowerAfter (c :: before) rest

/-- Fold a text as a whole. -/
def lowerWord (s : String) : String := String.ofList (lowerAfter [] s.toList)

end Herd.Text
