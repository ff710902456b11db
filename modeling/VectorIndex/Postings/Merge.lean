import VectorIndex.Build.Layout
import VectorIndex.Text.Calendar

/-!
# Merging segments

The postings of all segments are gathered cell by cell, in the order of the partitions, into one
data file that is named by its digest, so a new index never overwrites the file that the current
metadata name. The data file is published first and the metadata last; until then the previous
index stays as it was. Afterwards every data file is removed that neither the new metadata nor
the replaced ones name.
-/

namespace VectorIndex

structure SegmentMerger where
  directory : Path
  codebook : Codebook

namespace SegmentMerger

def metadataPath (merger : SegmentMerger) : Path :=
  Path.join merger.directory Metadata.fileName

/-- Refuses the first partition that is out of range or came before. -/
def checkOrderFrom (count : Nat) (seen : List PartitionIndex) :
    List PartitionIndex → Except IndexError Unit
  | [] => .ok ()
  | partition :: rest =>
    if count ≤ partition ∨ partition ∈ seen then
      .error (.invalidConfig <| s!"merge order must visit partitions 0..{count} exactly once, " ++
        s!"got {partition} out of place")
    else checkOrderFrom count (partition :: seen) rest

/-- Whether the order visits every partition below its length once. -/
def checkOrder (order : List PartitionIndex) : Except IndexError Unit :=
  checkOrderFrom order.length [] order

def requireSegments (merger : SegmentMerger) : List PartitionIndex → IndexProgram Unit
  | [] => return ()
  | partition :: rest => do
    let path := segmentPath merger.directory partition
    if ← ExceptT.lift (IndexProgram.exists? path) then merger.requireSegments rest
    else throw (.mergeMissingSegment partition path)

/-- What a segment must be to be merged as `partition`. -/
def checkSegment (merger : SegmentMerger) (partition : PartitionIndex) (segment : Segment) :
    Except IndexError Unit := do
  if segment.partition ≠ partition then
    throw (.indexCorrupt segment.path s!"file holds partition {segment.partition}")
  segment.checkCodebook merger.codebook
  segment.checkIds
  segment.checkCodes merger.codebook

def openSegments (merger : SegmentMerger) : List PartitionIndex → IndexProgram (List Segment)
  | [] => return []
  | partition :: rest => do
    let segment ← Segment.open (segmentPath merger.directory partition)
    IndexProgram.ofExcept (merger.checkSegment partition segment)
    return segment :: (← merger.openSegments rest)

/-- How many postings the segments hold together. -/
def totalCount : List Segment → Nat
  | [] => 0
  | segment :: rest => segment.count + totalCount rest

/-- The postings of a cell in all segments. -/
def cellBytes (segments : List Segment) (cell : CellId) : Bytes :=
  segments.flatMap (·.cellBytes cell)

/-- How many whole postings of a cell the segments hold. -/
def cellLength : List Segment → CellId → Nat
  | [], _ => 0
  | segment :: rest, cell =>
    (segment.cellBytes cell).length / segment.entrySize + cellLength rest cell

/-- The extents of cells with that many postings, one after the other from `offset` on. -/
def extentsFrom : Nat → List Nat → List CellExtent
  | _, [] => []
  | offset, length :: rest => ⟨offset, length⟩ :: extentsFrom (offset + length) rest

/-- The merged postings of each cell. -/
def mergedCells (merger : SegmentMerger) (segments : List Segment) : List Bytes :=
  (List.range merger.codebook.cellCount).map (cellBytes segments)

/-- The metadata of the data that the merged cells make together. -/
def describe (merger : SegmentMerger) (segments : List Segment) (cells : List Bytes)
    (createdAt : String) : Metadata :=
  let checksum := Fingerprint.of cells.flatten
  { version := Metadata.formatVersion
    dataFile := Metadata.dataFileName checksum
    fingerprint := merger.codebook.fingerprint
    dimension := merger.codebook.dimension
    cellCount := merger.codebook.cellCount
    codeSize := merger.codebook.codeSize
    vectorCount := totalCount segments
    cells := extentsFrom 0 ((List.range merger.codebook.cellCount).map (cellLength segments))
    partitions := (segments.map fun s ↦ ⟨s.partition, s.idRange⟩).mergeSort
      fun a b ↦ a.ids.start ≤ b.ids.start
    checksum
    createdAt }

/-- Publishes the data file under its name and then the metadata that name it. -/
def publish (data : StagedFile) (name : String) (metadata : StagedFile) : IndexProgram Unit := do
  IndexProgram.onFailure (data.commitAs name) metadata.discard
  metadata.commit

/-- Removes the data files of a directory except those of two names; what cannot be removed
stays. -/
def removeStale (directory : Path) (kept : List String) : StoreProgram Unit := do
  match ← Layout.dataFiles directory with
  | .error _ => return ()
  | .ok paths =>
    (paths.filter fun path ↦ !kept.contains (Path.fileName path)).forM fun path ↦ do
      let _ ← StoreProgram.perform (.remove path)

/-- Stages metadata beside those in the directory. -/
def stageMetadata (merger : SegmentMerger) (metadata : Metadata) : IndexProgram StagedFile := do
  let staged ← StagedFile.create merger.metadataPath
  IndexProgram.onFailure (staged.append merger.metadataPath metadata.toBytes) staged.discard
  return staged

/-- Writes the merged data to a staged file and stages the metadata that describe them. Gives the
metadata, those that they replace, and the staged file of the metadata. -/
def stageMerge (merger : SegmentMerger) (segments : List Segment) (staged : StagedFile) :
    IndexProgram (Metadata × Except IndexError Metadata × StagedFile) := do
  let createdAt := Calendar.write (← IndexProgram.perform .now)
  let cells := merger.mergedCells segments
  let metadata := merger.describe segments cells createdAt
  staged.append merger.directory cells.flatten
  let previous ← ExceptT.lift (Metadata.load merger.metadataPath).attempt
  return (metadata, previous, ← merger.stageMetadata metadata)

/-- Publishes the merge of segments, which are in the order of their partitions and have to tile
the ids. -/
def mergeSegments (merger : SegmentMerger) (segments : List Segment) : IndexProgram Metadata := do
  IndexProgram.ofExcept ((checkTiling (segments.map (·.idRange)) (totalCount segments)).mapError
    fun fault ↦ .indexCorrupt merger.directory fault.message)
  let staged ← StagedFile.createIn merger.directory
  let (metadata, previous, stagedMetadata) ←
    IndexProgram.onFailure (merger.stageMerge segments staged) staged.discard
  publish staged metadata.dataFile stagedMetadata
  let kept := metadata.dataFile :: (previous.toOption.map (·.dataFile)).toList
  ExceptT.lift (removeStale merger.directory kept)
  return metadata

/-- Merges the segments of an order that visits every partition once. -/
def mergeInOrder (merger : SegmentMerger) (order : List PartitionIndex) :
    IndexProgram Metadata := do
  IndexProgram.ofExcept (checkOrder order)
  merger.requireSegments order
  let segments ← merger.openSegments order
  merger.mergeSegments (segments.mergeSort fun a b ↦ a.partition ≤ b.partition)

/-- Merges the segments of the partitions below `count`, a number of 32 bits. -/
def merge (merger : SegmentMerger) (count : Nat) : IndexProgram Metadata :=
  merger.mergeInOrder (List.range (count % 0x100000000))

end SegmentMerger
end VectorIndex
