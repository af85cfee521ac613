/-!
# The shortest decimal

A binary number `m · 2^q` stands for all reals that round to it, from half way to
its lower neighbour up to half way to its upper one, ends included when `m` is
even. Of the decimals in that interval the one with the fewest digits is chosen;
of two, the nearer; of two equally near, the upper.

Everything is integer arithmetic in units of `2^(q - 2)`, in which the number is
`4 · m` and half a step is 2, or 1 below a power of two, where the lower
neighbour is half as far.
-/

namespace Herd

/-- A decimal `digits · 10^exponent`. -/
structure Decimal where
  digits : Nat
  exponent : Int
deriving DecidableEq

namespace Decimal

/-- A positive binary number. -/
structure Binary where
  m : Nat
  q : Int
  /-- Whether the lower neighbour is half as far as the upper one. -/
  closeBelow : Bool

namespace Binary

/-- The factors that make `c · 10^k` and `x · 2^(q - 2)` comparable: the first by `c`, the
second by `x`. -/
def factors (b : Binary) (k : Int) : Nat × Nat :=
  let e := b.q - 2
  (.pow 10 k.toNat * .pow 2 (-e).toNat, .pow 2 e.toNat * .pow 10 (-k).toNat)

/-- Whether `c · 10^k` rounds to the number. -/
def rounds (b : Binary) (k : Int) (c : Nat) : Bool :=
  let (f, g) := b.factors k
  let low := (4 * b.m - if b.closeBelow then 1 else 2) * g
  let high := (4 * b.m + 2) * g
  if b.m % 2 = 0 then low ≤ c * f && c * f ≤ high else low < c * f && c * f < high

/-- The decimal on the grid of multiples of `10^k` that rounds to the number and is nearest
to it. Only the number's two neighbours on the grid come into question. -/
def onGrid? (b : Binary) (k : Int) : Option Decimal :=
  let (f, g) := b.factors k
  let value := 4 * b.m * g
  let below := value / f
  match b.rounds k below, b.rounds k (below + 1) with
  | true, true => some ⟨if 2 * (value - below * f) < f then below else below + 1, k⟩
  | true, false => some ⟨below, k⟩
  | false, true => some ⟨below + 1, k⟩
  | false, false => none

/-- Search the grids from `10^top` down, `steps` of them. -/
def shortestFrom (b : Binary) (top : Int) : (steps : Nat) → Option Decimal
  | 0 => none
  | steps + 1 =>
    match b.onGrid? top with
    | some d => some d
    | none => b.shortestFrom (top - 1) steps

end Binary

/-- The decimal with a point and no exponent; a whole number has no point either. -/
def positional (d : Decimal) : String :=
  if 0 ≤ d.exponent then toString (d.digits * .pow 10 d.exponent.toNat)
  else
    let places := (-d.exponent).toNat
    let unit := Nat.pow 10 places
    let fraction := toString (d.digits % unit)
    toString (d.digits / unit) ++ "." ++
      String.ofList (List.replicate (places - fraction.length) '0') ++ fraction

end Decimal

end Herd
