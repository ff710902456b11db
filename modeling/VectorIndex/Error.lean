import VectorIndex.Build.State
import VectorIndex.Clustering.Lloyd
import VectorIndex.Document.Id
import VectorIndex.Store.Program

/-!
# What can go wrong

One cause for each way in which building, merging, loading or querying an index fails, with its
message, a stable code for programs, and suggestions for people.
-/

namespace VectorIndex

inductive IndexError where
  | trainingDataInsufficient (samples required cells : Nat)
  | encodingContractViolation (partition : Option PartitionIndex) (reason : String)
  | shardEncodingFailure (partition : PartitionIndex) (reason : String)
  | partitionsFailed (failures : List (PartitionIndex × IndexError))
  | mergeMissingSegment (partition : PartitionIndex) (path : Path)
  | indexCorrupt (path : Path) (reason : String)
  | queryDimensionMismatch (expected actual : Nat)
  | invalidStateTransition (origin target : BuildState)
  | invalidConfig (reason : String)
  | fileRead (path : Path) (fault : StoreFault)
  | fileWrite (path : Path) (fault : StoreFault)
  | encoder (reason : String)
  | serialization (path : Path) (reason : String)
  | idMappingMismatch (mapping indexed : Nat)
  | clustering (cause : ClusteringError)
  /-- No error that is reported, but a crash on the way. It ends what is done like an error, with
  nothing to say for it. -/
  | panicked

namespace IndexError

def partitionLabel : Option PartitionIndex → String
  | some partition => s!" in partition {partition}"
  | none => ""

mutual

def message : IndexError → String
  | trainingDataInsufficient samples required cells =>
    s!"Training sample has {samples} vectors but {required} are needed to train {cells} " ++
      "coarse cells"
  | encodingContractViolation partition reason =>
    s!"Encoder contract violated{partitionLabel partition}: {reason}"
  | shardEncodingFailure partition reason =>
    s!"Failed to encode partition {partition}: {reason}"
  | partitionsFailed failures =>
    s!"{failures.length} of the partitions failed to build: {summary failures}"
  | mergeMissingSegment partition path =>
    s!"Segment for partition {partition} is missing at '{path}'"
  | indexCorrupt path reason => s!"Index artifact '{path}' is corrupt: {reason}"
  | queryDimensionMismatch expected actual =>
    s!"Query has dimension {actual} but the index expects {expected}"
  | invalidStateTransition origin target =>
    s!"Invalid build state transition from {origin.name} to {target.name}"
  | invalidConfig reason => s!"Invalid configuration: {reason}"
  | fileRead path fault => s!"Failed to read file '{path}': {fault.message}"
  | fileWrite path fault => s!"Failed to write file '{path}': {fault.message}"
  | encoder reason => s!"Encoder error: {reason}"
  | serialization path reason => s!"Serialization failed for '{path}': {reason}"
  | idMappingMismatch mapping indexed =>
    s!"Id mapping has {mapping} entries but the index holds {indexed} vectors"
  | clustering cause => s!"Clustering failed: {cause.message}"
  | panicked => ""

/-- The failed partitions with their causes, in order. -/
def summary : List (PartitionIndex × IndexError) → String
  | [] => ""
  | [(partition, error)] => s!"[{partition}] {error.message}"
  | (partition, error) :: rest => s!"[{partition}] {error.message}; " ++ summary rest

end

def statusCode : IndexError → String
  | trainingDataInsufficient .. => "TRAINING_DATA_INSUFFICIENT"
  | encodingContractViolation .. => "ENCODING_CONTRACT_VIOLATION"
  | shardEncodingFailure .. => "SHARD_ENCODING_FAILURE"
  | partitionsFailed .. => "PARTITIONS_FAILED"
  | mergeMissingSegment .. => "MERGE_MISSING_SEGMENT"
  | indexCorrupt .. => "INDEX_CORRUPT"
  | queryDimensionMismatch .. => "QUERY_DIMENSION_MISMATCH"
  | invalidStateTransition .. => "INVALID_STATE_TRANSITION"
  | invalidConfig .. => "CONFIG_ERROR"
  | fileRead .. => "FILE_READ_ERROR"
  | fileWrite .. => "FILE_WRITE_ERROR"
  | encoder .. => "ENCODER_ERROR"
  | serialization .. => "SERIALIZATION_ERROR"
  | idMappingMismatch .. => "ID_MAPPING_MISMATCH"
  | clustering .. => "CLUSTERING_ERROR"
  | panicked => ""

def rebuildPartitions : List String :=
  ["Re-run 'codesearch-index build --resume' to rebuild only the failed partitions",
   "Lower 'build.sub_batch_size' if the encoder ran out of memory"]

def suggestions : IndexError → List String
  | trainingDataInsufficient .. =>
    ["Increase 'build.train_sample_size' or lower 'training.cells'",
     "An empty corpus cannot be indexed"]
  | encodingContractViolation .. =>
    ["Check that the embedding model outputs L2-normalized vectors",
     "Make sure every partition uses the model the codebook was trained with"]
  | shardEncodingFailure .. => rebuildPartitions
  | partitionsFailed .. => rebuildPartitions
  | mergeMissingSegment .. =>
    ["Run 'codesearch-index build --resume' to produce the missing segments"]
  | indexCorrupt .. =>
    ["Run 'codesearch-index build' to rebuild the index from scratch",
     "Check for disk errors or filesystem corruption"]
  | queryDimensionMismatch .. => ["Encode queries with the same model that built the index"]
  | invalidConfig .. => ["Run 'codesearch-index config' to inspect the effective settings"]
  | fileRead .. =>
    ["Check that the file exists and you have read permissions",
     "Ensure the file is not locked by another process"]
  | idMappingMismatch .. =>
    ["Regenerate the mapping with 'codesearch-index id-map' from the indexed corpus"]
  | _ => []

end IndexError

/-- A program over the store that may fail. -/
abbrev IndexProgram (α : Type) := ExceptT IndexError StoreProgram α

namespace IndexProgram

variable {α : Type}

def perform (action : Action) : IndexProgram action.Answer :=
  ExceptT.lift (StoreProgram.perform action)

/-- The result as a value, which ends no program. -/
def attempt (program : IndexProgram α) : StoreProgram (Except IndexError α) := program.run

def ofExcept (result : Except IndexError α) : IndexProgram α := ExceptT.mk (pure result)

/-- The answer of a store operation, its fault being turned into an error. -/
def check (toError : StoreFault → IndexError) (answer : Except StoreFault α) : IndexProgram α :=
  ofExcept (answer.mapError toError)

/-- Runs `cleanup` when the program fails, and fails as it did. -/
def onFailure (program : IndexProgram α) (cleanup : StoreProgram Unit) : IndexProgram α :=
  ExceptT.mk do
    match ← program.attempt with
    | .ok value => return .ok value
    | .error error =>
      cleanup
      return .error error

def exists? (path : Path) : StoreProgram Bool :=
  return (← StoreProgram.perform (.inspect path)).isSome

/-- Opens a file and takes all its bytes. -/
def readFile (path : Path) : IndexProgram Bytes := do
  let source ← check (.fileRead path) (← perform (.fetch path))
  check (.fileRead path) source.read

end IndexProgram
end VectorIndex
