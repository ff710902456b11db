import VectorIndex.Bytes.Basic

/-!
# The SHA-256 digest

A message is padded to whole blocks of 64 bytes, each block is expanded to 64 words, and the
eight words of the state absorb the blocks one after the other.
-/

namespace VectorIndex.Sha256

structure State where
  (a b c d e f g h : UInt32)
  deriving DecidableEq

def initial : State :=
  ⟨0x6a09e667, 0xbb67ae85, 0x3c6ef372, 0xa54ff53a, 0x510e527f, 0x9b05688c, 0x1f83d9ab, 0x5be0cd19⟩

def roundConstants : List UInt32 :=
  [0x428a2f98, 0x71374491, 0xb5c0fbcf, 0xe9b5dba5, 0x3956c25b, 0x59f111f1, 0x923f82a4, 0xab1c5ed5,
   0xd807aa98, 0x12835b01, 0x243185be, 0x550c7dc3, 0x72be5d74, 0x80deb1fe, 0x9bdc06a7, 0xc19bf174,
   0xe49b69c1, 0xefbe4786, 0x0fc19dc6, 0x240ca1cc, 0x2de92c6f, 0x4a7484aa, 0x5cb0a9dc, 0x76f988da,
   0x983e5152, 0xa831c66d, 0xb00327c8, 0xbf597fc7, 0xc6e00bf3, 0xd5a79147, 0x06ca6351, 0x14292967,
   0x27b70a85, 0x2e1b2138, 0x4d2c6dfc, 0x53380d13, 0x650a7354, 0x766a0abb, 0x81c2c92e, 0x92722c85,
   0xa2bfe8a1, 0xa81a664b, 0xc24b8b70, 0xc76c51a3, 0xd192e819, 0xd6990624, 0xf40e3585, 0x106aa070,
   0x19a4c116, 0x1e376c08, 0x2748774c, 0x34b0bcb5, 0x391c0cb3, 0x4ed8aa4a, 0x5b9cca4f, 0x682e6ff3,
   0x748f82ee, 0x78a5636f, 0x84c87814, 0x8cc70208, 0x90befffa, 0xa4506ceb, 0xbef9a3f7, 0xc67178f2]

def rotateRight (word amount : UInt32) : UInt32 := word >>> amount ||| word <<< (32 - amount)

/-- The words of a block extended by `count` words; the list holds the latest word first. -/
def extend : Nat → List UInt32 → List UInt32
  | 0, words => words
  | count + 1, words =>
    let near := words.getD 1 0
    let far := words.getD 14 0
    let mixNear := rotateRight near 17 ^^^ rotateRight near 19 ^^^ near >>> 10
    let mixFar := rotateRight far 7 ^^^ rotateRight far 18 ^^^ far >>> 3
    extend count ((mixNear + words.getD 6 0 + mixFar + words.getD 15 0) :: words)

def schedule (block : Bytes) : List UInt32 :=
  (extend 48 ((chunks 4 block).map Bytes.word32).reverse).reverse

def step (state : State) (word constant : UInt32) : State :=
  let ⟨a, b, c, d, e, f, g, h⟩ := state
  let mixE := rotateRight e 6 ^^^ rotateRight e 11 ^^^ rotateRight e 25
  let choice := (e &&& f) ^^^ (~~~e &&& g)
  let first := h + mixE + choice + constant + word
  let mixA := rotateRight a 2 ^^^ rotateRight a 13 ^^^ rotateRight a 22
  let majority := (a &&& b) ^^^ (a &&& c) ^^^ (b &&& c)
  ⟨first + mixA + majority, a, b, c, d + first, e, f, g⟩

def absorb (state : State) (block : Bytes) : State :=
  let mixed := ((schedule block).zip roundConstants).foldl (fun s (w, k) ↦ step s w k) state
  ⟨state.a + mixed.a, state.b + mixed.b, state.c + mixed.c, state.d + mixed.d,
   state.e + mixed.e, state.f + mixed.f, state.g + mixed.g, state.h + mixed.h⟩

/-- A one bit, zeros up to eight bytes before the end of a block, and the length in bits. -/
def pad (message : Bytes) : Bytes :=
  let length := message.length
  message ++ 0x80 :: (List.replicate ((119 - length % 64) % 64) 0 ++
    (Bytes.littleEndian 8 (length * 8)).reverse)

def digest (message : Bytes) : Bytes :=
  let ⟨a, b, c, d, e, f, g, h⟩ := (chunks 64 (pad message)).foldl absorb initial
  [a, b, c, d, e, f, g, h].flatMap Bytes.bigEndian32

theorem length_digest (message : Bytes) : (digest message).length = 32 := rfl

end VectorIndex.Sha256
