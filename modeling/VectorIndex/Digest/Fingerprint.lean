import VectorIndex.Digest.Sha256
import VectorIndex.Bytes.Hex

/-!
# Fingerprints

A fingerprint is a digest that ties an artifact to the bytes it was made from. Its text is 64
hexadecimal digits; reading takes pairs of digits of either case, and a plus sign may stand for
the first digit of a pair.
-/

namespace VectorIndex

structure Fingerprint where
  bytes : Bytes
  length_bytes : bytes.length = 32

namespace Fingerprint

instance : DecidableEq Fingerprint := fun a b ↦
  decidable_of_iff (a.bytes = b.bytes)
    ⟨fun same ↦ by cases a; cases b; cases same; rfl, fun same ↦ same ▸ rfl⟩

def of (message : Bytes) : Fingerprint := ⟨Sha256.digest message, Sha256.length_digest message⟩

def ofBytes? (bytes : Bytes) : Option Fingerprint :=
  if length : bytes.length = 32 then some ⟨bytes, length⟩ else none

/-- The first bytes, filled up with zeros. -/
def ofPrefix (bytes : Bytes) : Fingerprint :=
  ⟨(bytes ++ List.replicate 32 0).take 32, by simp⟩

theorem ofPrefix_append (fingerprint : Fingerprint) (rest : Bytes) :
    ofPrefix (fingerprint.bytes ++ rest) = fingerprint := by
  have htaken : (fingerprint.bytes ++ rest ++ List.replicate 32 0).take 32 = fingerprint.bytes := by
    rw [List.append_assoc, List.take_left' fingerprint.length_bytes]
  cases fingerprint
  exact mk.injEq .. ▸ htaken

def toHex (fingerprint : Fingerprint) : String := Bytes.toHex fingerprint.bytes

def byteOfPair? (first second : Char) : Option UInt8 := do
  let low ← Bytes.hexValue? second
  if first = '+' then return UInt8.ofNat low
  else
    let high ← Bytes.hexValue? first
    return UInt8.ofNat (high * 16 + low)

def bytesOfPairs? : List Char → Option Bytes
  | [] => some []
  | [_] => none
  | first :: second :: rest => do
    let byte ← byteOfPair? first second
    return byte :: (← bytesOfPairs? rest)

def ofHex? (text : String) : Option Fingerprint := (bytesOfPairs? text.toList).bind ofBytes?

/-- The first twelve digits, as a short name. -/
def label (fingerprint : Fingerprint) : String :=
  "Fingerprint(" ++ String.ofList (fingerprint.toHex.toList.take 12) ++ ")"

end Fingerprint
end VectorIndex
