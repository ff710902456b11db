import VectorIndex.Clustering.Lloyd
import VectorIndex.Sequence.Slice

/-!
# Product quantization

A vector is cut into subspaces of equal width, and each piece is replaced by the index of its
nearest codeword, so a vector becomes one byte a subspace. A query stays in full precision: a
table of its products with all codewords turns scoring a code into one look-up a subspace. A row
of the table has room for every code; room past a short codebook holds zeros.
-/

namespace VectorIndex

abbrev Code := List UInt8

structure Quantizer where
  dimension : Nat
  subspaces : Nat
  subspaceWidth : Nat
  bits : Nat
  /-- The codewords of each subspace. -/
  codebooks : List (List Vec)
  deriving DecidableEq

namespace Quantizer

/-- Codes are single bytes. -/
def maxBits : Nat := 8

def checkShape (dimension subspaces bits : Nat) : Except String Unit :=
  if dimension = 0 ∨ subspaces = 0 then
    .error "dimension and subspace count must be greater than 0"
  else if dimension % subspaces ≠ 0 then
    .error s!"dimension {dimension} is not divisible by {subspaces} subspaces"
  else if bits = 0 ∨ maxBits < bits then
    .error s!"bits per subspace must be in 1..={maxBits}, got {bits}"
  else .ok ()

/-- How many codewords so many bits tell apart. A number of 64 bits is shifted by less than 64. -/
def indexCount (bits : Nat) : Nat := Nat.pow 2 (bits % 64)

/-- Clusters the pieces of each subspace; the seed moves on by one for each. -/
def train (residuals : List Vec) (subspaces bits : Nat) (seed : UInt64) (maxIterations : Nat) :
    Except ClusteringError Quantizer :=
  match residuals with
  | [] => .error .emptyVectorSet
  | first :: _ => do
    let width := first.length / subspaces
    let count := min (indexCount bits) residuals.length
    let codebooks ← (List.range subspaces).mapM fun subspace ↦ do
      let pieces := residuals.map (Vec.slice · subspace width)
      let result ← kmeans .squaredEuclidean count (seed + UInt64.ofNat (subspace + 1))
        maxIterations pieces
      return result.centroids
    return ⟨first.length, subspaces, width, bits, codebooks⟩

/-- Bytes of a code. -/
def codeSize (quantizer : Quantizer) : Nat := quantizer.subspaces

def codewordCounts (quantizer : Quantizer) : List Nat := quantizer.codebooks.map List.length

def encode (quantizer : Quantizer) (v : Vec) : Code :=
  (List.range quantizer.subspaces).map fun subspace ↦
    UInt8.ofNat (nearestCentroid .squaredEuclidean (quantizer.codebooks.getD subspace [])
      (v.slice subspace quantizer.subspaceWidth)).1

/-- The codewords that a code names, joined. -/
def decode (quantizer : Quantizer) (code : Code) : Option Vec :=
  if code.length ≠ quantizer.subspaces then none
  else
    ((quantizer.codebooks.zip code).mapM fun pair : List Vec × UInt8 ↦
      pair.1[pair.2.toNat]?).map List.flatten

/-- Why a code names no vector. -/
inductive CodeFault where
  | length (actual expected : Nat)
  | codeword (index subspace count : Nat)
  deriving DecidableEq

def CodeFault.message : CodeFault → String
  | .length actual expected => s!"code has {actual} bytes, expected {expected}"
  | .codeword index subspace count =>
    s!"code {index} in subspace {subspace} but only {count} codewords exist"

def checkIndices : Nat → List (List Vec × UInt8) → Except CodeFault Unit
  | _, [] => .ok ()
  | subspace, (codewords, index) :: rest =>
    if codewords.length ≤ index.toNat then
      .error (.codeword index.toNat subspace codewords.length)
    else checkIndices (subspace + 1) rest

def checkCode (quantizer : Quantizer) (code : Code) : Except CodeFault Unit :=
  if code.length ≠ quantizer.subspaces then .error (.length code.length quantizer.subspaces)
  else checkIndices 0 (quantizer.codebooks.zip code)

/-- Places of one row of a query's table. -/
def stride (quantizer : Quantizer) : Nat := indexCount quantizer.bits

/-- The table with a row written from `start` on, when it has the places for it. -/
def writeRow? (table : List Binary32) (start : Nat) (row : List Binary32) :
    Option (List Binary32) :=
  if start + row.length ≤ table.length then
    some (table.take start ++ row ++ table.drop (start + row.length))
  else none

/-- Writes the rows of the codebooks from `subspace` on. -/
def writeRows? (quantizer : Quantizer) (query : Vec) :
    Nat → List (List Vec) → List Binary32 → Option (List Binary32)
  | _, [], table => some table
  | subspace, codewords :: rest, table => do
    let piece : Vec ← slice? query (subspace * quantizer.subspaceWidth)
      ((subspace + 1) * quantizer.subspaceWidth)
    let table ← writeRow? table (subspace * quantizer.stride) (codewords.map piece.innerProduct)
    writeRows? quantizer query (subspace + 1) rest table

/-- The products of a query's pieces with all codewords, row after row, each row from its multiple
of the stride on. There is no table where the query has no piece for a codebook or the table no
places for its row; to ask for one then is a crash. -/
def productTable (quantizer : Quantizer) (query : Vec) : Option (Array Binary32) :=
  (quantizer.writeRows? query 0 quantizer.codebooks
    (List.replicate (quantizer.subspaces * quantizer.stride) .zero)).map List.toArray

/-- The sum of a code's places in a query's table; a place past its end adds zero. -/
def tableScore (quantizer : Quantizer) (table : Array Binary32) (code : Code) : Binary32 :=
  .sum (code.zipIdx.map fun (index, subspace) ↦
    table.getD (subspace * quantizer.stride + index.toNat) .zero)

end Quantizer
end VectorIndex
