import VectorIndex.Codebook.Training
import VectorIndex.Corpus.Record
import VectorIndex.Encoder.Model

/-!
# Settings

What a build and a query can be told, with defaults, and the conditions under which they can run
at all.
-/

namespace VectorIndex

structure CorpusSettings where
  path : Option Path
  textField : String
  idField : String
  deriving DecidableEq

structure BuildSettings where
  workers : Nat
  /-- Documents in a partition. -/
  partitionSize : Nat
  /-- Documents handed to the encoder at once. -/
  batchSize : Nat
  /-- Documents to train on; those of one partition unless given. -/
  trainSampleSize : Option Nat
  /-- Keep a codebook and segments that are already there and match. -/
  resume : Bool
  accelerators : Nat
  deriving DecidableEq

structure SearchSettings where
  probes : Nat
  hits : Nat
  /-- Seconds between two looks for a newly published index. -/
  watchInterval : Nat
  deriving DecidableEq

structure Settings where
  version : Nat
  outputDirectory : Path
  debug : Bool
  model : ModelSettings
  corpus : CorpusSettings
  build : BuildSettings
  training : TrainingSettings
  search : SearchSettings
  deriving DecidableEq

def CorpusSettings.default : CorpusSettings := ⟨none, "code", "id"⟩

/-- The corpus to read, which has no default place. -/
def CorpusSettings.corpus (settings : CorpusSettings) : Except IndexError Corpus :=
  match settings.path with
  | some path => .ok ⟨path, settings.textField, settings.idField⟩
  | none => .error (.invalidConfig "corpus.path is not set")

/-- As many workers as there are processors. -/
def BuildSettings.default (processors : Nat) : BuildSettings :=
  ⟨processors, 1048576, 1024, none, false, 0⟩

def BuildSettings.sampleSize (settings : BuildSettings) : Nat :=
  settings.trainSampleSize.getD settings.partitionSize

def SearchSettings.default : SearchSettings := ⟨64, 10, 5⟩

namespace Settings

def directory : Path := ".codesearch"

def default (processors : Nat) : Settings :=
  ⟨1, Path.join directory "index", false, .default, .default, .default processors, .default,
    .default⟩

/-- The first reason why nothing could run with these settings. -/
def validate (settings : Settings) : Except IndexError Unit := do
  let build := settings.build
  let training := settings.training
  if build.workers = 0 then throw (.invalidConfig "build.workers must be at least 1")
  if build.partitionSize = 0 ∨ build.batchSize = 0 then
    throw (.invalidConfig "build.partition_size and build.sub_batch_size must be at least 1")
  if training.cells = 0 ∨ training.minPointsPerCell = 0 then
    throw (.invalidConfig "training.cells and training.min_points_per_cell must be at least 1")
  if training.subspaces = 0 then
    throw (.invalidConfig "training.subspaces must be at least 1")
  if training.bitsPerSubspace = 0 ∨ Quantizer.maxBits < training.bitsPerSubspace then
    throw (.invalidConfig s!"training.bits_per_subspace must be in 1..={Quantizer.maxBits}")
  if build.sampleSize < training.requiredSamples then
    throw (.invalidConfig <| s!"training sample of {build.sampleSize} vectors cannot train " ++
      s!"{training.cells} cells with {training.minPointsPerCell} points each")
  if settings.search.probes = 0 ∨ settings.search.hits = 0 then
    throw (.invalidConfig "search.nprobe and search.default_k must be at least 1")

/-- Whether vectors of a dimension can be trained on as well. -/
def validateForDimension (settings : Settings) (dimension : Nat) : Except IndexError Unit := do
  settings.validate
  (Quantizer.checkShape dimension settings.training.subspaces
    settings.training.bitsPerSubspace).mapError .invalidConfig

end Settings
end VectorIndex
