import VectorIndex.Codebook.Quantizer
import VectorIndex.Bytes.Packed
import VectorIndex.Digest.Fingerprint
import VectorIndex.Error
import VectorIndex.Vector.Contract

/-!
# Codebooks

A codebook holds the coarse centroids, which cut the vectors into cells, and the quantizer of
what is left of a vector when its centroid is taken away. Its fingerprint is the digest of its
packed form, so two codebooks with the same fingerprint encode alike.
-/

namespace VectorIndex

/-- What a codebook was trained with. -/
structure TrainingParams where
  cells : Nat
  subspaces : Nat
  bitsPerSubspace : Nat
  seed : Nat
  samples : Nat
  deriving DecidableEq

structure Codebook where
  dimension : Nat
  centroids : List Vec
  quantizer : Quantizer
  params : TrainingParams
  fingerprint : Fingerprint
  deriving DecidableEq

namespace Codebook

def packQuantizer (quantizer : Quantizer) : Bytes :=
  Packed.number quantizer.dimension ++ Packed.number quantizer.subspaces ++
    Packed.number quantizer.subspaceWidth ++ [UInt8.ofNat quantizer.bits] ++
    Packed.list (Packed.list (Packed.list Packed.single)) quantizer.codebooks

def packParams (params : TrainingParams) : Bytes :=
  Packed.number params.cells ++ Packed.number params.subspaces ++
    [UInt8.ofNat params.bitsPerSubspace] ++ Packed.number params.seed ++
    Packed.number params.samples

/-- The packed form, from which the fingerprint is taken. -/
def pack (centroids : List Vec) (quantizer : Quantizer) (params : TrainingParams) : Bytes :=
  Packed.list (Packed.list Packed.single) centroids ++ packQuantizer quantizer ++ packParams params

def payload (codebook : Codebook) : Bytes :=
  pack codebook.centroids codebook.quantizer codebook.params

def ofParts (centroids : List Vec) (quantizer : Quantizer) (params : TrainingParams) :
    Except IndexError Codebook := do
  let dimension := quantizer.dimension
  if centroids.isEmpty || centroids.any fun c ↦ c.length ≠ dimension then
    throw (.invalidConfig
      s!"codebook needs at least one coarse centroid of dimension {dimension}")
  let dimension ← (Dimension.ofNat dimension).mapError fun e ↦ .invalidConfig e.message
  return ⟨dimension.size, centroids, quantizer, params, .of (pack centroids quantizer params)⟩

def cellCount (codebook : Codebook) : Nat := codebook.centroids.length

def codeSize (codebook : Codebook) : Nat := codebook.quantizer.codeSize

def centroid (codebook : Codebook) (cell : CellId) : Vec := codebook.centroids.getD cell []

/-- The cell with the largest inner product. -/
def assign (codebook : Codebook) (v : Vec) : CellId := (largestProduct codebook.centroids v).1

/-- The cell of a vector and the code of its residual. -/
def encode (codebook : Codebook) (v : Vec) : CellId × Code :=
  let cell := codebook.assign v
  (cell, codebook.quantizer.encode (v.sub (codebook.centroid cell)))

/-- Cells with their inner products, larger products first, equal ones by cell. -/
def nearer (a b : CellId × Binary32) : Bool :=
  match b.2.totalCompare a.2 with
  | .lt => true
  | .gt => false
  | .eq => a.1 ≤ b.1

def rankedCells (codebook : Codebook) (query : Vec) : List (CellId × Binary32) :=
  (codebook.centroids.zipIdx.map fun (c, cell) ↦ (cell, query.innerProduct c)).mergeSort nearer

/-- The cells to visit for a query, best first: at least one and at most all. -/
def probe (codebook : Codebook) (query : Vec) (count : Nat) : List (CellId × Binary32) :=
  (codebook.rankedCells query).take (min (max count 1) codebook.cellCount)

end Codebook
end VectorIndex
