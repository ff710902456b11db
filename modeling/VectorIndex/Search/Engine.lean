import VectorIndex.Build.Layout
import VectorIndex.Search.Hit

/-!
# The query engine

An engine is a merged index that was verified when it was loaded: valid metadata, the codebook
they were merged with, a data file of the right length and digest, and codes that the codebook
has. A stored vector in cell `c` is taken for the centroid of `c` plus its decoded residual, so
its product with the query is the query's product with the centroid plus places of a table.
-/

namespace VectorIndex

structure QueryEngine where
  root : Path
  metadata : Metadata
  codebook : Codebook
  data : Bytes
  /-- The number of cells to visit unless a query says otherwise. -/
  probes : Nat

namespace QueryEngine

/-- A cause named as corruption of `path`, unless it is named so already or is a crash. -/
def asCorrupt (path : Path) : IndexError → IndexError
  | .indexCorrupt at_ reason => .indexCorrupt at_ reason
  | .panicked => .panicked
  | error => .indexCorrupt path error.message

def checkCodebook (metadata : Metadata) (codebook : Codebook) : Except String Unit :=
  if codebook.fingerprint ≠ metadata.fingerprint then
    .error (s!"index was merged with codebook {metadata.fingerprint.toHex}, found " ++
      codebook.fingerprint.toHex)
  else if codebook.dimension ≠ metadata.dimension ∨ codebook.cellCount ≠ metadata.cellCount ∨
      codebook.codeSize ≠ metadata.codeSize then
    .error "metadata layout disagrees with the codebook"
  else .ok ()

/-- Length and digest of the data. -/
def checkData (metadata : Metadata) (data : Bytes) : Except String Unit := do
  let described := place data.length metadata.dataLength
  if data.length ≠ described then
    throw s!"data file is {data.length} bytes, metadata describes {described}"
  let checksum := Fingerprint.of data
  if checksum ≠ metadata.checksum then
    throw s!"checksum {checksum.toHex} does not match recorded {metadata.checksum.toHex}"

def checkCodes (quantizer : Quantizer) : Nat → List Posting → Except String Unit
  | _, [] => .ok ()
  | position, posting :: rest =>
    match quantizer.checkCode posting.code with
    | .ok () => checkCodes quantizer (position + 1) rest
    | .error fault => .error s!"entry {position} (id {posting.id}): {fault.message}"

/-- The size that a directory reports in the place of a data file. -/
def directorySize : Nat := 4096

def readData (path : Path) (metadata : Metadata) : IndexProgram Bytes := do
  let corrupt (reason : String) : IndexError := .indexCorrupt path reason
  if metadata.vectorCount = 0 then throw (corrupt "index holds no vectors")
  let source ← IndexProgram.check (fun fault ↦ corrupt s!"cannot open data file: {fault.message}")
    (← IndexProgram.perform (.fetch path))
  match source with
  | .file data =>
    IndexProgram.ofExcept ((checkData metadata data).mapError corrupt)
    return data
  | .directory =>
    let described := place directorySize metadata.dataLength
    if directorySize = described then
      throw (corrupt s!"cannot map data file: {StoreFault.noDevice.message}")
    else
      throw (corrupt s!"data file is {directorySize} bytes, metadata describes {described}")

/-- Loads the merged index of a directory. Whatever is wrong, a missing file included, is
corruption. -/
def load (directory : Path) (probes : Nat) : IndexProgram QueryEngine := do
  let layout : Layout := ⟨directory⟩
  let metadata ← ExceptT.adapt (asCorrupt layout.metadata) (Metadata.load layout.metadata)
  let corrupt (reason : String) : IndexError := .indexCorrupt layout.metadata reason
  IndexProgram.ofExcept (metadata.validate.mapError corrupt)
  let codebook ← ExceptT.adapt (asCorrupt layout.codebook) (Codebook.load layout.codebook)
  IndexProgram.ofExcept ((checkCodebook metadata codebook).mapError corrupt)
  let path := layout.mergedData metadata
  let data ← readData path metadata
  IndexProgram.ofExcept ((checkCodes codebook.quantizer 0
    (Posting.split metadata.codeSize data)).mapError (.indexCorrupt path))
  return ⟨directory, metadata, codebook, data, max probes 1⟩

/-- The bytes of a cell's postings, when they lie within the data. -/
def cellSlice? (engine : QueryEngine) (cell : CellId) : Option Bytes :=
  let extent := engine.metadata.cells.getD cell ⟨0, 0⟩
  run? engine.data 0 engine.metadata.entrySize extent.offset extent.length

def cellBytes (engine : QueryEngine) (cell : CellId) : Bytes := (engine.cellSlice? cell).getD []

def postings (engine : QueryEngine) (cell : CellId) : List Posting :=
  Posting.split engine.metadata.codeSize (engine.cellBytes cell)

def score (engine : QueryEngine) (table : Array Binary32) (coarse : Binary32)
    (posting : Posting) : SearchHit :=
  ⟨posting.id, .one - (coarse + engine.codebook.quantizer.tableScore table posting.code)⟩

/-- The postings of the visited cells, scored with the query's table, in the order of the visits. -/
def candidates (engine : QueryEngine) (query : Vec) (table : Array Binary32) (probes : Nat) :
    List SearchHit :=
  (engine.codebook.probe query probes).flatMap fun (cell, coarse) ↦
    (engine.postings cell).map (engine.score table coarse)

/-- Whether the postings of every visited cell lie within the data. -/
def reaches (engine : QueryEngine) (query : Vec) (probes : Nat) : Bool :=
  (engine.codebook.probe query probes).all fun (cell, _) ↦ (engine.cellSlice? cell).isSome

/-- The `k` nearest documents to a query, closest first, found in the `probes` best cells. A query
without a table is a crash, and so is a visit to a cell whose postings do not lie within the data. -/
def search (engine : QueryEngine) (query : Vec) (k : Nat) (probes : Option Nat) :
    Except IndexError (List SearchHit) :=
  let expected := engine.metadata.dimension
  if query.length ≠ expected then .error (.queryDimensionMismatch expected query.length)
  else if k = 0 then .ok []
  else
    let count := probes.getD engine.probes
    match engine.codebook.quantizer.productTable query with
    | some table =>
      if engine.reaches query count then
        .ok ((engine.candidates query table count).foldl (SearchHit.keep k) [])
      else .error .panicked
    | none => .error .panicked

def searchBatch (engine : QueryEngine) (queries : List Vec) (k : Nat) (probes : Option Nat) :
    Except IndexError (List (List SearchHit)) :=
  queries.mapM fun query ↦ engine.search query k probes

/-- Whether the mapping has one entry for each vector. -/
def checkMapping (engine : QueryEngine) (mapping : IdMapping) : Except IndexError Unit :=
  if mapping.size = engine.metadata.vectorCount then .ok ()
  else .error (.idMappingMismatch mapping.size engine.metadata.vectorCount)

def searchExternal (engine : QueryEngine) (query : Vec) (k : Nat) (probes : Option Nat)
    (mapping : IdMapping) : Except IndexError (List ExternalHit) := do
  engine.checkMapping mapping
  let hits ← engine.search query k probes
  return hits.map (ExternalHit.resolve (some mapping))

end QueryEngine
end VectorIndex
