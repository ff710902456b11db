import VectorIndex.Numeric.Binary64

/-!
# Pseudo-random numbers from a seed

A seed is stretched to a 256-bit key, and the key selects a stream of 32-bit words: block after
block of a stream cipher with twelve rounds. A generator is a key and a position, so a draw is a
function of both and identical seeds give identical draws.
-/

namespace VectorIndex

/-- A place in the word stream of a key. -/
structure KeyStream where
  key : List UInt32
  position : Nat
  deriving DecidableEq

namespace KeyStream

def rotateLeft (word amount : UInt32) : UInt32 := word <<< amount ||| word >>> (32 - amount)

def stretch : Nat → UInt64 → List UInt32
  | 0, _ => []
  | count + 1, state =>
    let state := state * 6364136223846793005 + 11634580027462260723
    let word := (((state >>> 18) ^^^ state) >>> 27).toUInt32
    let turn := (state >>> 59).toUInt32
    (word >>> turn ||| word <<< ((32 - turn) % 32)) :: stretch count state

def ofSeed (seed : UInt64) : KeyStream := ⟨stretch 8 seed, 0⟩

abbrev Row := UInt32 × UInt32 × UInt32 × UInt32

def quarter : Row → Row
  | (a, b, c, d) =>
    let a := a + b
    let d := rotateLeft (d ^^^ a) 16
    let c := c + d
    let b := rotateLeft (b ^^^ c) 12
    let a := a + b
    let d := rotateLeft (d ^^^ a) 8
    let c := c + d
    let b := rotateLeft (b ^^^ c) 7
    (a, b, c, d)

/-- Mixes the columns, then the diagonals, of sixteen words. -/
def doubleRound : List UInt32 → List UInt32
  | [x0, x1, x2, x3, x4, x5, x6, x7, x8, x9, x10, x11, x12, x13, x14, x15] =>
    let (x0, x4, x8, x12) := quarter (x0, x4, x8, x12)
    let (x1, x5, x9, x13) := quarter (x1, x5, x9, x13)
    let (x2, x6, x10, x14) := quarter (x2, x6, x10, x14)
    let (x3, x7, x11, x15) := quarter (x3, x7, x11, x15)
    let (x0, x5, x10, x15) := quarter (x0, x5, x10, x15)
    let (x1, x6, x11, x12) := quarter (x1, x6, x11, x12)
    let (x2, x7, x8, x13) := quarter (x2, x7, x8, x13)
    let (x3, x4, x9, x14) := quarter (x3, x4, x9, x14)
    [x0, x1, x2, x3, x4, x5, x6, x7, x8, x9, x10, x11, x12, x13, x14, x15]
  | words => words

def rounds : Nat → List UInt32 → List UInt32
  | 0, words => words
  | count + 1, words => rounds count (doubleRound words)

/-- The sixteen words of one block of a key's stream. -/
def block (key : List UInt32) (counter : Nat) : List UInt32 :=
  let start := [0x61707865, 0x3320646e, 0x79622d32, 0x6b206574] ++ key ++
    [UInt32.ofNat counter, UInt32.ofNat (counter / 0x100000000), 0, 0]
  List.zipWith (· + ·) (rounds 6 start) start

def word (stream : KeyStream) : UInt32 × KeyStream :=
  ((block stream.key (stream.position / 16)).getD (stream.position % 16) 0,
    { stream with position := stream.position + 1 })

/-- A draw from the numbers below `bound`, which is positive and below `2 ^ 32`. One more word
decides the rare draws whose fraction leaves the result open. -/
def below (bound : Nat) (stream : KeyStream) : Nat × KeyStream :=
  let (first, stream) := stream.word
  let product := first.toNat * bound
  let high := product / 0x100000000
  let low := product % 0x100000000
  if 0x100000000 - bound < low then
    let (second, stream) := stream.word
    let carry := if 0x100000000 ≤ low + second.toNat * bound / 0x100000000 then 1 else 0
    (high + carry, stream)
  else (high, stream)

/-- A draw from the unit interval, a multiple of `2 ^ -53`. -/
def fraction (stream : KeyStream) : Binary64 × KeyStream :=
  let (low, stream) := stream.word
  let (high, stream) := stream.word
  let bits := high.toNat * 0x100000000 + low.toNat
  (Binary64.ofNat (bits / 0x800) * ⟨0x3ca0000000000000⟩, stream)

end KeyStream
end VectorIndex
