import Herd.Random.ChaCha

/-!
# Seeded draws

A stream of 64-bit draws that depends on a seed alone. Each draw takes the next
two words of a ChaCha keystream, the lower half first; the key is spread from the
seed by a congruential generator. A chance `p` between 0 and 1 comes true when
the draw lies below `p · 2^64`.
-/

namespace Herd.Random

/-- A place in a seeded stream of draws. -/
structure Stream where
  key : Key
  /-- Draws taken so far. -/
  taken : Nat

namespace Stream

/-- The next state of the generator that spreads a seed. -/
def spread (s : UInt64) : UInt64 := s * 6364136223846793005 + 11634580027462260723

/-- The word that a state of the generator gives. -/
def permute (s : UInt64) : Word :=
  let mixed := (((s >>> 18) ^^^ s) >>> 27).toUInt32
  let turn := (s >>> 59).toUInt32
  (mixed >>> turn) ||| (mixed <<< ((32 - turn) &&& 31))

/-- The key of a seed. -/
def keyOfSeed (seed : UInt64) : Key :=
  Vector.ofFn fun i => permute (Nat.repeat spread (i.val + 1) seed)

/-- The stream of a seed, from its start. -/
def ofSeed (seed : Nat) : Stream := ⟨keyOfSeed (UInt64.ofNat seed), 0⟩

instance : Inhabited Stream := ⟨ofSeed 0⟩

/-- The draw with the given index: eight draws come from each block. -/
def drawAt (key : Key) (index : Nat) : UInt64 :=
  -- the counter numbers blocks of 16 words, and a draw takes two
  let b := block key (UInt64.ofNat (index / 8))
  let i := index % 8
  have h : i < 8 := Nat.mod_lt _ (by decide)
  b[2 * i].toUInt64 ||| (b[2 * i + 1].toUInt64 <<< 32)

/-- Take the next draw. -/
def next (s : Stream) : UInt64 × Stream := (drawAt s.key s.taken, { s with taken := s.taken + 1 })

/-- Roll a chance. Only what may go either way takes a draw; any other chance comes true
when it is at least 1, which what is not a number never is. -/
def roll (s : Stream) (p : Float) : Bool × Stream :=
  if 0 < p && p < 1 then
    match s.next with
    | (draw, s) => (draw < (p * 18446744073709551616.0).toUInt64, s)
  else (p ≥ 1, s)

end Stream

end Herd.Random
