import VectorIndex.Codebook.File
import VectorIndex.Json.Basic
import VectorIndex.Postings.Basic

/-!
# Segments

A segment is the partial index of one partition: a header of 72 bytes, a directory with offset
and count of each cell's postings, and the postings cell after cell. It is written once and never
changed. Opening one checks that its length is what the header describes and that the directory
tiles the postings in cell order.
-/

namespace VectorIndex

def segmentPath (directory : Path) (partition : PartitionIndex) : Path :=
  Path.join directory s!"segment_{partition}.seg"

/-- What building or reusing a segment produced. -/
structure SegmentSummary where
  partition : PartitionIndex
  base : DocumentId
  count : Nat
  path : Path
  reused : Bool
  deriving DecidableEq

def SegmentSummary.idRange (summary : SegmentSummary) : IdRange := ⟨summary.base, summary.count⟩

def SegmentSummary.toJson (summary : SegmentSummary) : Json :=
  .object
    [("partition", .nat summary.partition), ("base_id", .nat summary.base),
     ("count", .nat summary.count), ("path", .string summary.path),
     ("reused", .bool summary.reused)]

namespace Segment

def magic : Bytes := [0x43, 0x53, 0x45, 0x47]
def formatVersion : Nat := 1
def headerSize : Nat := 72
def directoryEntrySize : Nat := 16

end Segment

/-- The postings of a partition while they are collected, in the order in which they came. -/
structure SegmentDraft where
  partition : PartitionIndex
  base : DocumentId
  dimension : Nat
  codeSize : Nat
  cellCount : Nat
  fingerprint : Fingerprint
  pushes : List (CellId × Posting)

namespace SegmentDraft

open Bytes (littleEndian)

def start (partition : PartitionIndex) (base : DocumentId) (codebook : Codebook) : SegmentDraft :=
  ⟨partition, base, codebook.dimension, codebook.codeSize, codebook.cellCount,
    codebook.fingerprint, []⟩

def push (draft : SegmentDraft) (cell : CellId) (posting : Posting) : SegmentDraft :=
  { draft with pushes := draft.pushes ++ [(cell, posting)] }

def count (draft : SegmentDraft) : Nat := draft.pushes.length

def postings (draft : SegmentDraft) (cell : CellId) : List Posting :=
  (draft.pushes.filter (·.1 = cell)).map (·.2)

def cells (draft : SegmentDraft) : List (List Posting) :=
  (List.range draft.cellCount).map draft.postings

def header (draft : SegmentDraft) : Bytes :=
  Segment.magic ++ littleEndian 4 Segment.formatVersion ++ littleEndian 4 draft.dimension ++
    littleEndian 4 draft.partition ++ littleEndian 8 draft.base ++ littleEndian 8 draft.count ++
    littleEndian 4 draft.cellCount ++ littleEndian 4 draft.codeSize ++ draft.fingerprint.bytes

/-- Offset and count of each cell, the first cell starting at `offset`. -/
def directory : Nat → List (List Posting) → Bytes
  | _, [] => []
  | offset, cell :: rest =>
    littleEndian 8 offset ++ littleEndian 8 cell.length ++ directory (offset + cell.length) rest

def toBytes (draft : SegmentDraft) : Bytes :=
  let cells := draft.cells
  draft.header ++ directory 0 cells ++ cells.flatMap fun cell ↦ cell.flatMap Posting.toBytes

def finish (draft : SegmentDraft) (path : Path) : IndexProgram SegmentSummary := do
  publishFile path draft.toBytes
  return ⟨draft.partition, draft.base, draft.count, path, false⟩

end SegmentDraft

/-- An opened segment. -/
structure Segment where
  path : Path
  dimension : Nat
  partition : PartitionIndex
  base : DocumentId
  count : Nat
  cellCount : Nat
  codeSize : Nat
  fingerprint : Fingerprint
  /-- Offset and count of each cell, in postings. -/
  directory : List (Nat × Nat)
  /-- All bytes of the file. -/
  bytes : Bytes

namespace Segment

open Bytes (natAt)

def entrySize (segment : Segment) : Nat := Posting.size segment.codeSize

def idRange (segment : Segment) : IdRange := ⟨segment.base, segment.count⟩

/-- Where the directory ends and the postings begin. -/
def dataStart (segment : Segment) : Nat := headerSize + segment.cellCount * directoryEntrySize

/-- The bytes behind the directory. -/
def body (segment : Segment) : Bytes := segment.bytes.drop segment.dataStart

def readDirectory (cellCount : Nat) (bytes : Bytes) : List (Nat × Nat) :=
  (chunks directoryEntrySize (bytes.take (cellCount * directoryEntrySize))).map fun entry ↦
    (natAt entry 0 8, natAt entry 8 8)

/-- The directory from `cell` on starts at posting `next` and ends at posting `count`. Postings are
counted in 64 bits. -/
def checkDirectory (count : Nat) : CellId → Nat → List (Nat × Nat) → Except String Unit
  | _, next, [] =>
    if next = count then .ok ()
    else .error s!"cell directory holds {next} entries, header says {count}"
  | cell, next, (offset, entries) :: rest =>
    if offset = next then
      checkDirectory count (cell + 1) ((next + entries) % 0x10000000000000000) rest
    else .error s!"cell {cell} starts at entry {offset}, expected {next}"

/-- The segment in the bytes of a file, or what is wrong with them. -/
def ofBytes (path : Path) (bytes : Bytes) : Except String Segment := do
  let length := bytes.length
  if length < headerSize then throw "file too small to contain a segment header"
  if bytes.take 4 ≠ magic then throw "invalid magic bytes"
  let version := natAt bytes 4 4
  if version ≠ formatVersion then
    throw s!"unsupported segment version {version}, expected {formatVersion}"
  let count := natAt bytes 24 8
  let cellCount := natAt bytes 32 4
  let codeSize := natAt bytes 36 4
  let start := headerSize + cellCount * directoryEntrySize
  if count * Posting.size codeSize + start ≠ length then
    throw <| s!"file is {length} bytes but the header describes {count} entries in " ++
      s!"{cellCount} cells"
  let directory := readDirectory cellCount (bytes.drop headerSize)
  checkDirectory count 0 0 directory
  return ⟨path, natAt bytes 8 4, natAt bytes 12 4, natAt bytes 16 8, count, cellCount, codeSize,
    .ofPrefix (bytes.drop 40), directory, bytes⟩

/-- Opens and checks a segment. A missing file cannot be read; a malformed one is corrupt. -/
def «open» (path : Path) : IndexProgram Segment := do
  match ← IndexProgram.check (.fileRead path) (← IndexProgram.perform (.fetch path)) with
  | .directory => throw (.fileRead path .noDevice)
  | .file contents =>
    IndexProgram.ofExcept ((ofBytes path contents).mapError (.indexCorrupt path))

/-- The bytes of a cell's postings, when they lie within the file. -/
def cellSlice? (segment : Segment) (cell : CellId) : Option Bytes :=
  let (offset, entries) := segment.directory.getD cell (0, 0)
  run? segment.bytes segment.dataStart segment.entrySize offset entries

/-- The bytes of a cell's postings. To ask for them where they do not lie within the file is a
crash, and it is `checkIds` or `checkCodes` that asks first. -/
def cellBytes (segment : Segment) (cell : CellId) : Bytes := (segment.cellSlice? cell).getD []

def postings (segment : Segment) (cell : CellId) : List Posting :=
  Posting.split segment.codeSize (segment.cellBytes cell)

/-- All postings with their cells, cell after cell. -/
def allPostings (segment : Segment) : List (CellId × Posting) :=
  (List.range segment.cellCount).flatMap fun cell ↦
    (segment.postings cell).map fun posting ↦ (cell, posting)

def checkCodebook (segment : Segment) (codebook : Codebook) : Except IndexError Unit :=
  if segment.fingerprint ≠ codebook.fingerprint then
    .error (.indexCorrupt segment.path <|
      s!"segment was built with codebook {segment.fingerprint.toHex}, current codebook is " ++
        codebook.fingerprint.toHex)
  else if segment.dimension ≠ codebook.dimension ∨ segment.cellCount ≠ codebook.cellCount ∨
      segment.codeSize ≠ codebook.codeSize then
    .error (.indexCorrupt segment.path "segment layout disagrees with the codebook")
  else .ok ()

/-- The first of the values that a test refuses, as an error. -/
def checkAll {α : Type} (test : α → Except IndexError Unit) : List α → Except IndexError Unit
  | [] => .ok ()
  | value :: rest =>
    match test value with
    | .ok () => checkAll test rest
    | .error error => .error error

/-- Puts the postings of some cells to a test, until one is refused or a cell does not lie within
the file. -/
def checkCells (segment : Segment) (test : CellId → Posting → Except IndexError Unit) :
    List CellId → Except IndexError Unit
  | [] => .ok ()
  | cell :: rest =>
    match segment.cellSlice? cell with
    | none => .error .panicked
    | some bytes =>
      match checkAll (test cell) (Posting.split segment.codeSize bytes) with
      | .ok () => checkCells segment test rest
      | .error error => .error error

/-- Whether every id lies in the segment's range. -/
def checkIds (segment : Segment) : Except IndexError Unit :=
  let range := segment.idRange
  segment.checkCells (fun cell posting ↦
    if range.contains posting.id then .ok ()
    else .error (.indexCorrupt segment.path
      s!"id {posting.id} in cell {cell} is outside [{range.start}, {range.stop})"))
    (List.range segment.cellCount)

/-- Whether every code names codewords of the codebook. -/
def checkCodes (segment : Segment) (codebook : Codebook) : Except IndexError Unit :=
  segment.checkCells (fun cell posting ↦
    (codebook.quantizer.checkCode posting.code).mapError fun fault ↦
      .indexCorrupt segment.path s!"id {posting.id} in cell {cell}: {fault.message}")
    (List.range segment.cellCount)

end Segment
end VectorIndex
