/-!
# The ChaCha keystream with twelve rounds

A block is 16 words of 32 bits, computed from a key of eight words and a 64-bit
block counter; the stream is the blocks in sequence.
-/

namespace Herd.Random

abbrev Word := UInt32

/-- The bits of a word moved `n` places up, those that leave it re-entering below. -/
def rotateLeft (w : Word) (n : Word) : Word := (w <<< n) ||| (w >>> (32 - n))

/-- A block as it is being mixed. -/
abbrev Block := Vector Word 16

/-- Mix the four words at the given places. -/
def quarterRound (s : Block) (a b c d : Fin 16) : Block :=
  let s := s.set a (s[a] + s[b])
  let s := s.set d (rotateLeft (s[d] ^^^ s[a]) 16)
  let s := s.set c (s[c] + s[d])
  let s := s.set b (rotateLeft (s[b] ^^^ s[c]) 12)
  let s := s.set a (s[a] + s[b])
  let s := s.set d (rotateLeft (s[d] ^^^ s[a]) 8)
  let s := s.set c (s[c] + s[d])
  s.set b (rotateLeft (s[b] ^^^ s[c]) 7)

/-- Mix the columns, then the diagonals. -/
def doubleRound (s : Block) : Block :=
  let s := quarterRound s 0 4 8 12
  let s := quarterRound s 1 5 9 13
  let s := quarterRound s 2 6 10 14
  let s := quarterRound s 3 7 11 15
  let s := quarterRound s 0 5 10 15
  let s := quarterRound s 1 6 11 12
  let s := quarterRound s 2 7 8 13
  quarterRound s 3 4 9 14

/-- The key of a stream. -/
abbrev Key := Vector Word 8

/-- The block that is mixed for a counter: four constants, the key, the counter with its
lower half first, and two zeros. -/
def initialBlock (key : Key) (counter : UInt64) : Block :=
  #v[0x61707865, 0x3320646e, 0x79622d32, 0x6b206574,
    key[0], key[1], key[2], key[3], key[4], key[5], key[6], key[7],
    counter.toUInt32, (counter >>> 32).toUInt32, 0, 0]

/-- The block of the stream at a counter: six double rounds, added to the start. -/
def block (key : Key) (counter : UInt64) : Block :=
  let start := initialBlock key counter
  let mixed := Nat.repeat doubleRound 6 start
  Vector.zipWith (· + ·) mixed start

end Herd.Random
