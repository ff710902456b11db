import VectorIndex.Codebook.Basic
import VectorIndex.Store.Staging

/-!
# The codebook file

A header of 64 bytes (magic, version, shape, payload length and fingerprint) and the packed
codebook. Loading checks the header, the length, the fingerprint, that the payload is one packed
codebook with nothing behind it, and that header and payload agree.
-/

namespace VectorIndex.Codebook

open Bytes (littleEndian natAt)
open Packed (Decoder)

def magic : Bytes := [0x49, 0x56, 0x50, 0x51]
def formatVersion : Nat := 1
def headerSize : Nat := 64

def header (codebook : Codebook) (payloadLength : Nat) : Bytes :=
  magic ++ littleEndian 4 formatVersion ++ littleEndian 4 codebook.dimension ++
    littleEndian 4 codebook.cellCount ++ littleEndian 4 codebook.quantizer.subspaces ++
    littleEndian 4 codebook.quantizer.bits ++ littleEndian 8 payloadLength ++
    codebook.fingerprint.bytes

def toBytes (codebook : Codebook) : Bytes :=
  let payload := codebook.payload
  codebook.header payload.length ++ payload

def vectors : Decoder (List Vec) := Decoder.list (Decoder.list Decoder.single)

def quantizerDecoder : Decoder Quantizer := do
  let dimension ← Decoder.number 8
  let subspaces ← Decoder.number 8
  let width ← Decoder.number 8
  let bits ← Decoder.byte
  return ⟨dimension, subspaces, width, bits.toNat, ← Decoder.list vectors⟩

def paramsDecoder : Decoder TrainingParams := do
  let cells ← Decoder.number 4
  let subspaces ← Decoder.number 4
  let bits ← Decoder.byte
  let seed ← Decoder.number 8
  return ⟨cells, subspaces, bits.toNat, seed, ← Decoder.number 8⟩

def payloadDecoder : Decoder (List Vec × Quantizer × TrainingParams) := do
  let centroids ← vectors
  let quantizer ← quantizerDecoder
  return (centroids, quantizer, ← paramsDecoder)

/-- The codebook in the bytes of a file, or what is wrong with them. -/
def ofBytes (bytes : Bytes) : Except String Codebook := do
  if bytes.length < headerSize then throw "file too small to contain a codebook header"
  if bytes.take 4 ≠ magic then throw "invalid magic bytes"
  let version := natAt bytes 4 4
  if version ≠ formatVersion then
    throw s!"unsupported codebook version {version}, expected {formatVersion}"
  let payloadLength := natAt bytes 24 8
  let payload := bytes.drop headerSize
  if payload.length ≠ payloadLength then
    throw s!"payload is {payload.length} bytes, header says {payloadLength}"
  let stored := Fingerprint.ofPrefix (bytes.drop 32)
  let actual := Fingerprint.of payload
  if actual ≠ stored then
    throw s!"fingerprint mismatch: header {stored.toHex}, payload {actual.toHex}"
  let some ((centroids, quantizer, params), rest) := payloadDecoder payload
    | throw "failed to decode payload: not a packed codebook"
  if !rest.isEmpty then throw "trailing bytes after payload"
  let dimension := natAt bytes 8 4
  if quantizer.dimension ≠ dimension || centroids.length ≠ natAt bytes 12 4 ||
      quantizer.subspaces ≠ natAt bytes 16 4 || quantizer.bits ≠ natAt bytes 20 4 then
    throw "header disagrees with payload"
  if dimension = 0 || centroids.any fun c ↦ c.length ≠ dimension then
    throw "coarse centroid dimension mismatch"
  return ⟨dimension, centroids, quantizer, params, actual⟩

def save (codebook : Codebook) (path : Path) : IndexProgram Unit :=
  publishFile path codebook.toBytes

def load (path : Path) : IndexProgram Codebook := do
  let bytes ← IndexProgram.readFile path
  IndexProgram.ofExcept ((ofBytes bytes).mapError (.indexCorrupt path))

end VectorIndex.Codebook
