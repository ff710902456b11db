import VectorIndex.Corpus.Partition
import VectorIndex.Encoder.Basic
import VectorIndex.Postings.Segment

/-!
# Building the segment of one partition

The items are encoded batch by batch and get consecutive ids from the partition's base on. The
segment is written once every item is encoded, and nothing else is written.
-/

namespace VectorIndex.Shard

/-- The postings of vectors whose ids start at `next`. -/
def place (codebook : Codebook) : DocumentId → List Vec → List (CellId × Posting)
  | _, [] => []
  | next, v :: rest =>
    let (cell, code) := codebook.encode v
    (cell, ⟨next, code⟩) :: place codebook (next + 1) rest

/-- The postings of batches of texts whose ids start at `next`. -/
def encodeBatches (codebook : Codebook) (encoder : Encoder) (partition : PartitionIndex) :
    DocumentId → List (List String) → Except Interruption (List (CellId × Posting))
  | _, [] => .ok []
  | next, batch :: rest =>
    match encoder.encodeBatch batch (some partition) with
    | .error interruption => .error interruption
    | .ok vectors =>
      (encodeBatches codebook encoder partition (next + vectors.length) rest).map
        (place codebook next vectors ++ ·)

def encode (codebook : Codebook) (encoder : Encoder) (batchSize : Nat) (partition : Partition) :
    Except Interruption (List (CellId × Posting)) :=
  if encoder.dimension.size ≠ codebook.dimension then
    .error (.failed (.encodingContractViolation (some partition.index) <|
      s!"encoder produces dimension {encoder.dimension.size} but the codebook expects " ++
        s!"{codebook.dimension}"))
  else
    encodeBatches codebook encoder partition.index partition.base
      (chunks batchSize partition.items)

/-- Encodes the partition and writes its segment. -/
def build (codebook : Codebook) (directory : Path) (encoder : Encoder) (batchSize : Nat)
    (partition : Partition) : StoreProgram (Except Interruption SegmentSummary) :=
  match encode codebook encoder batchSize partition with
  | .error interruption => return .error interruption
  | .ok pushes => do
    let draft := { SegmentDraft.start partition.index partition.base codebook with pushes }
    let result ← (draft.finish (segmentPath directory partition.index)).attempt
    return result.mapError .failed

/-- What an opened segment comes to for a partition: a summary if it has the partition's number and
as many ids from its base on, and the codebook's fingerprint and codes. A crash over its codes is a
crash here; any other fault only means that the segment is not reused. -/
def summarize (codebook : Codebook) (directory : Path) (partition : Partition)
    (segment : Segment) : Except IndexError (Option SegmentSummary) :=
  if !(segment.checkCodebook codebook).isOk then .ok none
  else
    match segment.checkCodes codebook with
    | .error .panicked => .error .panicked
    | .error _ => .ok none
    | .ok () =>
      if segment.partition = partition.index ∧ segment.base = partition.base ∧
          segment.count = partition.items.length then
        .ok (some ⟨partition.index, partition.base, segment.count,
          segmentPath directory partition.index, true⟩)
      else .ok none

/-- The segment on disk, if it is what building the partition with the codebook would cover. -/
def reusable? (codebook : Codebook) (directory : Path) (partition : Partition) :
    IndexProgram (Option SegmentSummary) := do
  let path := segmentPath directory partition.index
  if !(← ExceptT.lift (IndexProgram.exists? path)) then return none
  match ← ExceptT.lift (Segment.open path).attempt with
  | .error _ => return none
  | .ok segment => IndexProgram.ofExcept (summarize codebook directory partition segment)

end VectorIndex.Shard
