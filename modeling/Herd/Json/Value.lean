import Herd.Json.Number

/-!
# JSON values

A value as its text gives it. Members of an object keep their order and may share
a key. A string whose escapes hold half of a surrogate pair denotes no text, and
a number beyond binary64 denotes no number; both are grammatical all the same, so
they matter only to those who ask for the text or the number.
-/

namespace Herd.Json

/-- The key of a member. -/
structure Key where
  text : Option String
  /-- Whether an escape occurs in it. -/
  escaped : Bool
deriving DecidableEq

/-- A JSON value. -/
inductive Value
  | null
  | bool (b : Bool)
  | number (n : Option Number)
  | string (text : Option String)
  | array (elements : List Value)
  | object (members : List (Key × Value))
deriving Inhabited

namespace Value

def ofNat (n : Nat) : Value := number (some (.integer n))

/-- A number just as it is. No text denotes an infinity or what is not a number, so this is
for values that are looked at and not written. -/
def ofFloat (x : Float) : Value := number (some (.real x))

/-- A number as it is written: null stands for what JSON has no number for. -/
def ofReal (x : Float) : Value := if x.isFinite then ofFloat x else null

def ofString (s : String) : Value := string (some s)

/-- A value, or null where there is none. -/
def ofOption {α : Type} (write : α → Value) : Option α → Value
  | some a => write a
  | none => null

/-- An object from its members. -/
def ofMembers (members : List (String × Value)) : Value :=
  object (members.map fun m => (⟨some m.1, false⟩, m.2))

/-- An object with one member, as constructors with arguments are written. -/
def tagged (name : String) (payload : Value) : Value := ofMembers [(name, payload)]

end Value

end Herd.Json
