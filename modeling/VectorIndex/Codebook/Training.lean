import VectorIndex.Codebook.File

/-!
# Training a codebook

The coarse centroids are clustered from a sample of unit vectors, and the quantizer from what is
left of each vector when the centroid it will be encoded against is taken away.
-/

namespace VectorIndex

structure TrainingSettings where
  cells : Nat
  subspaces : Nat
  bitsPerSubspace : Nat
  seed : Nat
  minPointsPerCell : Nat
  maxIterations : Nat
  deriving DecidableEq

namespace TrainingSettings

def default : TrainingSettings := ⟨8192, 8, 8, 0x5eed, 4, Clustering.defaultIterations⟩

/-- The least sample that can train the cells, as a number of 64 bits at most. -/
def requiredSamples (settings : TrainingSettings) : Nat :=
  min (settings.cells * settings.minPointsPerCell) 0xffffffffffffffff

/-- What a codebook records of its training. Cells and subspaces are recorded in 32 bits. -/
def params (settings : TrainingSettings) (samples : Nat) : TrainingParams :=
  ⟨settings.cells % 0x100000000, settings.subspaces % 0x100000000, settings.bitsPerSubspace,
    settings.seed, samples⟩

end TrainingSettings

namespace Codebook

/-- Each vector less the centroid that encoding will assign it to. -/
def residuals (centroids sample : List Vec) : List Vec :=
  sample.map fun v ↦ v.sub (centroids.getD (largestProduct centroids v).1 [])

/-- The first vector that breaks the contract, with the reason. -/
def checkSample (dimension : Dimension) : Nat → List Vec → Except IndexError Unit
  | _, [] => .ok ()
  | position, v :: rest =>
    match dimension.checkUnitVector v with
    | .ok () => checkSample dimension (position + 1) rest
    | .error e =>
      .error (.encodingContractViolation none s!"training vector {position}: {e.message}")

def train (settings : TrainingSettings) (sample : List Vec) : Except IndexError Codebook := do
  let required := max settings.requiredSamples 1
  let insufficient : IndexError :=
    .trainingDataInsufficient sample.length required settings.cells
  if sample.length < required then throw insufficient
  let width := (sample.headD []).length
  (Quantizer.checkShape width settings.subspaces settings.bitsPerSubspace).mapError .invalidConfig
  let dimension ← (Dimension.ofNat width).mapError fun e ↦
    .encodingContractViolation none e.message
  checkSample dimension 0 sample
  let seed := UInt64.ofNat settings.seed
  let coarse ← (kmeans .innerProduct settings.cells seed settings.maxIterations sample).mapError
    .clustering
  if coarse.centroids.length < settings.cells then throw insufficient
  let quantizer ← (Quantizer.train (residuals coarse.centroids sample) settings.subspaces
    settings.bitsPerSubspace seed settings.maxIterations).mapError .clustering
  ofParts coarse.centroids quantizer (settings.params sample.length)

def trainAndSave (settings : TrainingSettings) (sample : List Vec) (path : Path) :
    IndexProgram Codebook := do
  let codebook ← IndexProgram.ofExcept (train settings sample)
  codebook.save path
  return codebook

end Codebook
end VectorIndex
