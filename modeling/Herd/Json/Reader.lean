import Herd.Json.Value

/-!
# Reading JSON text

The grammar of RFC 8259 and nothing more: no comments, no trailing commas, no
byte order mark, no blanks but space, tab, line feed and carriage return, and
nothing after the value. Nesting is not limited here.
-/

namespace Herd.Json

/-! ## Strings -/

/-- A string as far as it was read. -/
structure Spelling where
  /-- The characters, latest first; `none` once there was half of a surrogate pair. -/
  chars : Option (List Char)
  /-- The first half of a surrogate pair whose second half is due. -/
  high : Option Nat
  escaped : Bool

namespace Spelling

def start : Spelling := ⟨some [], none, false⟩

/-- Add a character. -/
def push (s : Spelling) (c : Char) : Spelling :=
  { s with chars := if s.high.isSome then none else s.chars.map (c :: ·), high := none }

/-- Add a UTF-16 unit that was written as an escape. -/
def pushUnit (s : Spelling) (u : Nat) : Spelling :=
  if 0xdc00 ≤ u && u < 0xe000 then
    match s.high with
    | some h =>
      -- each half holds ten bits of what exceeds the 16-bit characters
      let c := Char.ofNat (0x10000 + (h - 0xd800) * 0x400 + (u - 0xdc00))
      ({ s with high := none }).push c
    | none => { s with chars := none }
  else if 0xd800 ≤ u && u < 0xdc00 then
    { s with chars := if s.high.isSome then none else s.chars, high := some u }
  else s.push (Char.ofNat u)

/-- The string once its closing quote is reached. -/
def finish (s : Spelling) : Key :=
  ⟨if s.high.isSome then none else s.chars.map fun cs => String.ofList cs.reverse, s.escaped⟩

end Spelling

/-- The value of a hexadecimal digit. -/
def hexDigit? (c : Char) : Option Nat :=
  if '0' ≤ c && c ≤ '9' then some (c.toNat - '0'.toNat)
  else if 'a' ≤ c && c ≤ 'f' then some (c.toNat - 'a'.toNat + 10)
  else if 'A' ≤ c && c ≤ 'F' then some (c.toNat - 'A'.toNat + 10)
  else none

/-- The value of four hexadecimal digits. -/
def hexUnit? (a b c d : Char) : Option Nat := do
  let high := (← hexDigit? a) * 16 + (← hexDigit? b)
  let low := (← hexDigit? c) * 16 + (← hexDigit? d)
  return high * 256 + low

/-- The character of a short escape. -/
def shortEscape? : Char → Option Char
  | '"' => some '"'
  | '\\' => some '\\'
  | '/' => some '/'
  | 'b' => some '\x08'
  | 'f' => some '\x0c'
  | 'n' => some '\n'
  | 'r' => some '\r'
  | 't' => some '\t'
  | _ => none

/-- Read a string of which the opening quote and `s` are already read. Control characters
have to be escaped. -/
def string? (s : Spelling) : List Char → Option (Key × List Char)
  | [] => none
  | '"' :: cs => some (s.finish, cs)
  | '\\' :: 'u' :: a :: b :: c :: d :: cs =>
    match hexUnit? a b c d with
    | some u => string? ({ s with escaped := true }.pushUnit u) cs
    | none => none
  | '\\' :: e :: cs =>
    match shortEscape? e with
    | some c => string? ({ s with escaped := true }.push c) cs
    | none => none
  | c :: cs => if c.toNat < 0x20 then none else string? (s.push c) cs

/-! ## Values -/

/-- Step over blanks. -/
def skipBlanks (cs : List Char) : List Char :=
  cs.dropWhile fun c => c == ' ' || c == '\t' || c == '\n' || c == '\r'

/-- Read a number. -/
def number? (cs : List Char) : Option (Value × List Char) :=
  (Number.literal? cs).map fun (l, rest) => (.number l.value, rest)

mutual

/-- Read a value, and give what follows it. -/
def value? : (fuel : Nat) → List Char → Option (Value × List Char)
  | 0, _ => none
  | fuel + 1, cs =>
    match skipBlanks cs with
    | '{' :: cs =>
      match skipBlanks cs with
      | '}' :: cs => some (.object [], cs)
      | cs => (members? fuel cs).map fun (ms, rest) => (.object ms, rest)
    | '[' :: cs =>
      match skipBlanks cs with
      | ']' :: cs => some (.array [], cs)
      | cs => (elements? fuel cs).map fun (vs, rest) => (.array vs, rest)
    | '"' :: cs => (string? .start cs).map fun (k, rest) => (.string k.text, rest)
    | 'n' :: 'u' :: 'l' :: 'l' :: cs => some (.null, cs)
    | 't' :: 'r' :: 'u' :: 'e' :: cs => some (.bool true, cs)
    | 'f' :: 'a' :: 'l' :: 's' :: 'e' :: cs => some (.bool false, cs)
    | cs => number? cs

/-- Read the elements of an array up to its closing bracket. -/
def elements? : (fuel : Nat) → List Char → Option (List Value × List Char)
  | 0, _ => none
  | fuel + 1, cs =>
    match value? fuel cs with
    | none => none
    | some (v, cs) =>
      match skipBlanks cs with
      | ',' :: cs => (elements? fuel cs).map fun (vs, rest) => (v :: vs, rest)
      | ']' :: cs => some ([v], cs)
      | _ => none

/-- Read the members of an object up to its closing brace. -/
def members? : (fuel : Nat) → List Char → Option (List (Key × Value) × List Char)
  | 0, _ => none
  | fuel + 1, cs =>
    match skipBlanks cs with
    | '"' :: cs =>
      match string? .start cs with
      | none => none
      | some (key, cs) =>
        match skipBlanks cs with
        | ':' :: cs =>
          match value? fuel cs with
          | none => none
          | some (v, cs) =>
            match skipBlanks cs with
            | ',' :: cs => (members? fuel cs).map fun (ms, rest) => ((key, v) :: ms, rest)
            | '}' :: cs => some ([(key, v)], cs)
            | _ => none
        | _ => none
    | _ => none

end

/-- The value that a text is. Two steps of fuel are enough for each character. -/
def Value.parse? (s : String) : Option Value :=
  let cs := s.toList
  match value? (2 * cs.length + 2) cs with
  | some (v, rest) => if skipBlanks rest = [] then some v else none
  | none => none

end Herd.Json
