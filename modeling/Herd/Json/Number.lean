/-!
# JSON numbers

A number is read to an integer when it is written as one and lies from -2^63 up to
2^64, and to a binary64 number otherwise; negative zero is no integer. The digits
of a decimal are gathered into a significand below 2^64, further digits only count
for the magnitude, and the significand is scaled by powers of ten in steps of at
most 308 places, each step rounded to nearest. A decimal beyond the range of
binary64 denotes no number.
-/

namespace Herd.Json

/-- The value of a JSON number. -/
inductive Number
  /-- Written without point and exponent, and of at most 64 bits. -/
  | integer (n : Int)
  | real (x : Float)
deriving DecidableEq

namespace Number

/-- The nearest binary64 number. -/
def toFloat : Number → Float
  | integer n => Float.ofInt n
  | real x => x

/-- The nearest binary32 number. -/
def toFloat32 : Number → Float32
  | integer n => Float32.ofInt n
  | real x => x.toFloat32

/-- A JSON number as it is written. -/
structure Literal where
  negative : Bool
  /-- The digits before the point. -/
  whole : List Nat
  /-- The digits after the point, if there is one. -/
  fraction : Option (List Nat)
  exponent : Option Int

/-! ## The value of a literal -/

/-- What a significand stays below: 2^64. -/
def significandBound : Nat := 0x10000000000000000

/-- Gather digits as long as the significand fits; count those that are left over. -/
def gatherWhole (acc : Nat) : List Nat → Nat × Nat
  | [] => (acc, 0)
  | d :: ds =>
    if acc * 10 + d < significandBound then gatherWhole (acc * 10 + d) ds
    else (acc, ds.length + 1)

/-- Gather digits as long as the significand fits; count those that were taken. -/
def gatherFraction (acc : Nat) : List Nat → Nat × Nat
  | [] => (acc, 0)
  | d :: ds =>
    if acc * 10 + d < significandBound then
      match gatherFraction (acc * 10 + d) ds with
      | (acc, taken) => (acc, taken + 1)
    else (acc, 0)

/-- The largest power of ten that binary64 holds, as an exponent. -/
def greatestPower : Nat := 308

/-- The binary64 number nearest to a power of ten. -/
def powerOfTen (k : Nat) : Float := Float.ofScientific 1 false k

/-- Multiply by a power of ten; too large a product is no number. -/
def scaleUp (x : Float) (k : Nat) : Option Float :=
  if k ≤ greatestPower then
    let product := x * powerOfTen k
    if product.isInf then none else some product
  else if x == 0 then some x
  else none

/-- Divide by a power of ten, in steps. -/
def scaleDown (x : Float) (k : Nat) : Float :=
  if k ≤ greatestPower then x / powerOfTen k
  else if x == 0 then x
  else scaleDown (x / powerOfTen greatestPower) (k - greatestPower)
termination_by k
decreasing_by simp only [greatestPower] at *; omega

/-- The binary64 number that `significand · 10^exponent` is read to. -/
def scale (significand : Nat) (exponent : Int) : Option Float :=
  let x := Float.ofNat significand
  if exponent < 0 then some (scaleDown x exponent.natAbs) else scaleUp x exponent.natAbs

/-- The value of a literal. -/
def Literal.value (l : Literal) : Option Number :=
  let (whole, dropped) := gatherWhole 0 l.whole
  if l.fraction.isNone && l.exponent.isNone && dropped == 0 then
    if !l.negative then some (.integer whole)
    else if 0 < whole && whole ≤ significandBound / 2 then some (.integer (-whole))
    else some (.real (-Float.ofNat whole))
  else
    let (significand, taken) := gatherFraction whole (l.fraction.getD [])
    let exponent := (dropped : Int) - taken + l.exponent.getD 0
    (scale significand exponent).map fun x => .real (if l.negative then -x else x)

/-! ## Reading a literal -/

def digitValue (c : Char) : Nat := c.toNat - '0'.toNat

/-- Read digits; `none` where there are none. -/
def digits? (cs : List Char) : Option (List Nat × List Char) :=
  match cs.takeWhile Char.isDigit with
  | [] => none
  | ds => some (ds.map digitValue, cs.dropWhile Char.isDigit)

/-- Read the digits before the point: a zero stands alone. -/
def whole? (cs : List Char) : Option (List Nat × List Char) :=
  match digits? cs with
  | some (0 :: _ :: _, _) => none
  | r => r

/-- Read the part from the point on, if there is one. -/
def fraction? : List Char → Option (Option (List Nat) × List Char)
  | '.' :: cs => (digits? cs).map fun (ds, rest) => (some ds, rest)
  | cs => some (none, cs)

/-- Read the digits of an exponent. -/
def exponentDigits? (negative : Bool) (cs : List Char) : Option (Option Int × List Char) :=
  (digits? cs).map fun (ds, rest) =>
    let n : Nat := ds.foldl (fun acc d => acc * 10 + d) 0
    (some (if negative then -(n : Int) else (n : Int)), rest)

/-- Read the part from the exponent mark on, if there is one. -/
def exponent? : List Char → Option (Option Int × List Char)
  | 'e' :: cs | 'E' :: cs =>
    match cs with
    | '+' :: cs => exponentDigits? false cs
    | '-' :: cs => exponentDigits? true cs
    | cs => exponentDigits? false cs
  | cs => some (none, cs)

/-- Read a literal, and give what follows it. -/
def literal? (cs : List Char) : Option (Literal × List Char) := do
  let (negative, cs) := match cs with
    | '-' :: cs => (true, cs)
    | cs => (false, cs)
  let (whole, cs) ← whole? cs
  let (fraction, cs) ← fraction? cs
  let (exponent, cs) ← exponent? cs
  return (⟨negative, whole, fraction, exponent⟩, cs)

end Number

end Herd.Json
