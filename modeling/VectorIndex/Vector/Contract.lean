import VectorIndex.Vector.Basic
import VectorIndex.Decimal.Layout

/-!
# What a vector must be

A dimension is positive. A vector of a dimension may be held to unit length as well: then all
its components are finite and its norm is within `1e-3` of one.
-/

namespace VectorIndex

/-- Why a vector, a dimension or an embedding is refused. -/
inductive VectorError where
  | dimensionMismatch (expected actual : Nat)
  | zeroDimension
  | notNormalized (norm : Binary32)
  | notFinite
  | embeddingFailed (reason : String)
  deriving DecidableEq

def VectorError.message : VectorError → String
  | .dimensionMismatch expected actual =>
    s!"Vector dimension mismatch: expected {expected}, got {actual}\n" ++
      "Suggestion: Ensure all vectors use the same embedding model"
  | .zeroDimension => "Invalid vector dimension: 0\nReason: Vector dimension cannot be zero"
  | .notNormalized norm =>
    s!"Vector is not unit length (norm {norm.toText})\n" ++
      "Suggestion: The encoder must L2-normalize its output"
  | .notFinite => "Vector contains NaN or infinite components"
  | .embeddingFailed reason => s!"Embedding generation failed: {reason}"

/-- The number of components of every vector of an index. -/
structure Dimension where
  size : Nat
  pos : 0 < size
  deriving DecidableEq

namespace Dimension

def ofNat (size : Nat) : Except VectorError Dimension :=
  if pos : 0 < size then .ok ⟨size, pos⟩ else .error .zeroDimension

def checkVector (dimension : Dimension) (v : Vec) : Except VectorError Unit :=
  if v.length = dimension.size then .ok ()
  else .error (.dimensionMismatch dimension.size v.length)

/-- How far a norm may be from one: `1e-3`. -/
def normTolerance : Binary32 := ⟨0x3a83126f⟩

def checkUnitVector (dimension : Dimension) (v : Vec) : Except VectorError Unit := do
  dimension.checkVector v
  if v.any fun x ↦ !x.isFinite then throw .notFinite
  if normTolerance < (v.norm - .one).abs then throw (.notNormalized v.norm)

end Dimension
end VectorIndex
