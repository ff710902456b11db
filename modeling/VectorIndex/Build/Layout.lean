import VectorIndex.Decimal.Reading
import VectorIndex.Postings.Metadata
import VectorIndex.Postings.Segment

/-!
# The files of an index directory

Each artifact has one name in the directory of its index. Segments and merged data are found
again by listing the directory and reading their names.
-/

namespace VectorIndex

structure Layout where
  root : Path
  deriving DecidableEq

namespace Layout

def codebookFile : String := "trained.index"
def mappingFile : String := "id_mapping.json"

def codebook (layout : Layout) : Path := Path.join layout.root codebookFile
def mapping (layout : Layout) : Path := Path.join layout.root mappingFile
def metadata (layout : Layout) : Path := Path.join layout.root Metadata.fileName
def segment (layout : Layout) (partition : PartitionIndex) : Path :=
  segmentPath layout.root partition
def mergedData (layout : Layout) (metadata : Metadata) : Path :=
  Path.join layout.root metadata.dataFile

/-- What stands between a beginning and an end that do not overlap. -/
def between? (beginning ending name : List Char) : Option (List Char) :=
  if beginning.isPrefixOf name ∧ ending.isSuffixOf (name.drop beginning.length) then
    some ((name.drop beginning.length).take
      (name.length - beginning.length - ending.length))
  else none

/-- The partition whose segment has that name. -/
def partitionOfName? (name : String) : Option PartitionIndex :=
  (between? "segment_".toList ".seg".toList name.toList).bind (Decimal.natural? 32)

def isDataName (name : String) : Bool :=
  Metadata.dataPrefix.toList.isPrefixOf name.toList &&
    Metadata.dataSuffix.toList.isSuffixOf name.toList

/-- The names in a directory; one that does not exist has none. -/
def names (directory : Path) : StoreProgram (Except StoreFault (List String)) := do
  if ← IndexProgram.exists? directory then StoreProgram.perform (.list directory)
  else return .ok []

/-- The partitions whose segments are present, in order. -/
def existingSegments (layout : Layout) : StoreProgram (Except StoreFault (List PartitionIndex)) :=
  return (← names layout.root).map fun names ↦
    (names.filterMap partitionOfName?).mergeSort (· ≤ ·)

/-- The merged data files present, sorted by name, whether metadata name them or not. -/
def dataFiles (directory : Path) : StoreProgram (Except StoreFault (List Path)) :=
  return (← names directory).map fun names ↦
    ((names.filter isDataName).mergeSort (· ≤ ·)).map (Path.join directory)

/-- The furthest stage that the files show, without a look into them. -/
def detect (layout : Layout) : StoreProgram BuildState := do
  let merged ← match ← (Metadata.load layout.metadata).attempt with
    | .ok metadata => IndexProgram.exists? (layout.mergedData metadata)
    | .error _ => pure false
  if merged then return .merged
  if !(← IndexProgram.exists? layout.codebook) then return .untrained
  match ← layout.existingSegments with
  | .ok (_ :: _) => return .shardsBuilding
  | _ => return .trained

end Layout
end VectorIndex
