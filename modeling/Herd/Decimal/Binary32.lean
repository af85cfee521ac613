import Herd.Decimal.Shortest

/-!
# The text of a binary32 number

The shortest decimal that reads back, always positional.
-/

namespace Herd.Decimal

/-- The bit above the 23 bits of the fraction, which normal numbers have without its being
stored. -/
def hiddenBit : Nat := 0x800000

/-- The bit that tells negative numbers. -/
def signBit : Nat := 0x80000000

/-- The magnitude that the lower 31 bits stand for, unless it is zero. -/
def binary32 (bits : Nat) : Binary :=
  let exponent : Nat := bits / hiddenBit
  let fraction : Nat := bits % hiddenBit
  if exponent = 0 then ⟨fraction, -149, false⟩
  else ⟨fraction + hiddenBit, (exponent : Int) - 150, fraction = 0 && exponent ≠ 1⟩

/-- The decimal exponents of binary32 numbers lie from -45 to 38. -/
def shortest32 (bits : Nat) : Option Decimal := (binary32 bits).shortestFrom 38 84

/-- The text of a number. -/
def text32 (x : Float32) : String :=
  if x.isNaN then "NaN"
  else
    let bits := x.toBits.toNat
    let magnitude := bits % signBit
    let sign := if signBit ≤ bits then "-" else ""
    if x.isInf then sign ++ "inf"
    else
      match shortest32 magnitude with
      | some d => sign ++ d.positional
      | none => sign ++ "0"

end Herd.Decimal
