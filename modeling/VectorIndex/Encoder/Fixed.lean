import VectorIndex.Encoder.Basic
import VectorIndex.Digest.Sha256
import VectorIndex.Text.Utf8

/-!
# Encoders without a model

One derives a vector from the digest of the text, so that every text has a fixed pseudo-random
unit vector. The other serves vectors that were computed ahead of time.
-/

namespace VectorIndex.Encoder

/-- The components that one digest gives: each pair of its bytes, scaled to lie around zero. -/
def componentsOf (digest : Bytes) : Vec :=
  (chunks 2 digest).map fun pair ↦
    Binary32.ofNat (Bytes.toNat pair) / .ofNat 65535 - .half

def hashedVector (dimension : Dimension) (text : String) : Vec :=
  let body := Utf8.encode text
  let blocks := (List.range ((dimension.size + 15) / 16)).flatMap fun block ↦
    componentsOf (Sha256.digest (Bytes.littleEndian 4 block ++ body))
  Vec.normalize (blocks.take dimension.size)

def hashed (dimension : Dimension) : Encoder :=
  ⟨dimension, fun texts ↦ .ok (texts.map (hashedVector dimension))⟩

/-- Vectors by text; the last entry of a text counts. -/
abbrev Lookup := List (String × Vec)

namespace Lookup

def insert (table : Lookup) (text : String) (v : Vec) : Lookup :=
  (text, v) :: table.filter (·.1 ≠ text)

def find? (table : Lookup) (text : String) : Option Vec :=
  (List.find? (fun (entry : String × Vec) ↦ entry.1 = text) table).map (·.2)

end Lookup

def embedAll (table : Lookup) : List String → Except EncoderFault (List Vec)
  | [] => .ok []
  | text :: rest =>
    match table.find? text with
    | none =>
      .error (.refused (.embeddingFailed s!"no precomputed embedding for '{text}'"))
    | some v => (embedAll table rest).map (v :: ·)

def precomputed (dimension : Dimension) (table : Lookup) : Encoder :=
  ⟨dimension, embedAll table⟩

end VectorIndex.Encoder
