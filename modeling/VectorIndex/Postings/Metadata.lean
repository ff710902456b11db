import VectorIndex.Digest.Fingerprint
import VectorIndex.Json.Decode
import VectorIndex.Json.Printer
import VectorIndex.Json.Reader
import VectorIndex.Postings.Basic
import VectorIndex.Store.Staging
import VectorIndex.Text.Utf8

/-!
# Metadata of a merged index

The metadata names the data file and says where in it each cell's postings lie and which ids each
partition contributed. Valid metadata have one extent a cell, extents that follow on each other
and cover every vector, and partitions that tile the ids.
-/

namespace VectorIndex

/-- Where a cell's postings lie in the data file, in postings. -/
structure CellExtent where
  offset : Nat
  length : Nat
  deriving DecidableEq

structure PartitionExtent where
  partition : PartitionIndex
  ids : IdRange
  deriving DecidableEq

structure Metadata where
  version : Nat
  /-- A name relative to the directory of the metadata. -/
  dataFile : String
  fingerprint : Fingerprint
  dimension : Nat
  cellCount : Nat
  codeSize : Nat
  vectorCount : Nat
  cells : List CellExtent
  /-- In the order of their first ids. -/
  partitions : List PartitionExtent
  /-- The digest of the data file. -/
  checksum : Fingerprint
  createdAt : String
  deriving DecidableEq

namespace Metadata

def formatVersion : Nat := 1

def fileName : String := "merged.meta.json"
def dataPrefix : String := "merged-"
def dataSuffix : String := ".ivfdata"

/-- The name of the data file with a digest. -/
def dataFileName (checksum : Fingerprint) : String := dataPrefix ++ checksum.toHex ++ dataSuffix

def entrySize (metadata : Metadata) : Nat := Posting.size metadata.codeSize

def dataLength (metadata : Metadata) : Nat := metadata.vectorCount * metadata.entrySize

/-- The extents from `cell` on start at `offset` and end at `count`. Postings are counted in 64
bits. -/
def checkExtents (count : Nat) : CellId → Nat → List CellExtent → Except String Unit
  | _, offset, [] =>
    if offset = count then .ok ()
    else .error s!"cell extents hold {offset} entries but the index has {count} vectors"
  | cell, offset, extent :: rest =>
    if extent.offset = offset then
      checkExtents count (cell + 1) ((offset + extent.length) % 0x10000000000000000) rest
    else .error s!"cell {cell} starts at entry {extent.offset}, expected {offset}"

def validate (metadata : Metadata) : Except String Unit := do
  if metadata.version ≠ formatVersion then
    throw s!"unsupported metadata version {metadata.version}, expected {formatVersion}"
  if metadata.cells.length ≠ metadata.cellCount then
    throw s!"{metadata.cells.length} cell extents for {metadata.cellCount} cells"
  checkExtents metadata.vectorCount 0 0 metadata.cells
  (checkTiling (metadata.partitions.map (·.ids)) metadata.vectorCount).mapError
    TilingFault.message

def extentJson (extent : CellExtent) : Json :=
  .object [("offset", .nat extent.offset), ("len", .nat extent.length)]

def rangeJson (range : IdRange) : Json :=
  .object [("start", .nat range.start), ("len", .nat range.length)]

def partitionJson (extent : PartitionExtent) : Json :=
  .object [("partition", .nat extent.partition), ("ids", rangeJson extent.ids)]

def toJson (metadata : Metadata) : Json :=
  .object
    [("version", .nat metadata.version), ("data_file", .string metadata.dataFile),
     ("fingerprint", .string metadata.fingerprint.toHex), ("dimension", .nat metadata.dimension),
     ("nlist", .nat metadata.cellCount), ("code_size", .nat metadata.codeSize),
     ("vector_count", .nat metadata.vectorCount),
     ("cells", .array (metadata.cells.map extentJson)),
     ("partitions", .array (metadata.partitions.map partitionJson)),
     ("checksum", .string metadata.checksum.toHex), ("created_at", .string metadata.createdAt)]

def fieldNames : List String :=
  ["version", "data_file", "fingerprint", "dimension", "nlist", "code_size", "vector_count",
   "cells", "partitions", "checksum", "created_at"]

def extent? (json : Json) : Option CellExtent := do
  let [offset, length] ← json.fields? ["offset", "len"] | none
  return ⟨← offset.nat? 64, ← length.nat? 64⟩

def range? (json : Json) : Option IdRange := do
  let [start, length] ← json.fields? ["start", "len"] | none
  return ⟨← start.nat? 64, ← length.nat? 64⟩

def partition? (json : Json) : Option PartitionExtent := do
  let [partition, ids] ← json.fields? ["partition", "ids"] | none
  return ⟨← partition.nat? 32, ← range? ids⟩

def fingerprint? (json : Json) : Option Fingerprint := json.string? >>= Fingerprint.ofHex?

def ofJson? (json : Json) : Option Metadata := do
  let [version, dataFile, fingerprint, dimension, cellCount, codeSize, vectorCount, cells,
    partitions, checksum, createdAt] ← json.fields? fieldNames | none
  return {
    version := ← version.nat? 32
    dataFile := ← dataFile.string?
    fingerprint := ← fingerprint? fingerprint
    dimension := ← dimension.nat? 64
    cellCount := ← cellCount.nat? 64
    codeSize := ← codeSize.nat? 64
    vectorCount := ← vectorCount.nat? 64
    cells := ← cells.items? extent?
    partitions := ← partitions.items? partition?
    checksum := ← fingerprint? checksum
    createdAt := ← createdAt.string? }

def toBytes (metadata : Metadata) : Bytes := Utf8.encode metadata.toJson.indented

def save (metadata : Metadata) (path : Path) : IndexProgram Unit :=
  publishFile path metadata.toBytes

/-- The metadata in the bytes of a file: bytes that are no text cannot be read, a text that is no
metadata is corrupt. -/
def ofBytes (path : Path) (bytes : Bytes) : Except IndexError Metadata :=
  match Utf8.decodeChars bytes with
  | none => .error (.fileRead path .notUtf8)
  | some text =>
    match Json.parseChars text >>= ofJson? with
    | some metadata => .ok metadata
    | none => .error (.indexCorrupt path "invalid metadata: not a description of a merged index")

def load (path : Path) : IndexProgram Metadata := do
  IndexProgram.ofExcept (ofBytes path (← IndexProgram.readFile path))

end Metadata
end VectorIndex
