import VectorIndex.Build.Pipeline
import VectorIndex.Report.Table

/-!
# Tables of results

What a search found, what a build made, and what a merged index holds.
-/

namespace VectorIndex.Report

/-- Hits, ranked from one on. -/
def searchTable (hits : List ExternalHit) : Table :=
  ⟨["Rank", "Id", "Internal id", "Distance"],
    hits.zipIdx.map fun (hit, position) ↦
      [toString (position + 1), hit.id.toText, toString hit.internalId, hit.distance.toFixed 4]⟩

def rangeText (range : IdRange) : String := s!"{range.start}..{range.stop}"

def segmentRow (segment : SegmentSummary) : List String :=
  [toString segment.partition, rangeText segment.idRange, toString segment.count,
    if segment.reused then "reused" else "built"]

/-- Nanoseconds as seconds. -/
def seconds (elapsed : Nat) : Binary64 :=
  .ofNat (elapsed / 1000000000) + .ofNat (elapsed % 1000000000) / .ofNat 1000000000

/-- The time a build took, with the vectors it indexed in a second. -/
def paceText (vectorCount elapsed : Nat) : String :=
  let time := seconds elapsed
  let rate := if .zero < time then .ofNat vectorCount / time else Binary64.zero
  s!"{time.toFixed 1}s ({rate.toFixed 0}/s)"

/-- The segments of a build and their total. -/
def buildTable (segments : List SegmentSummary) (vectorCount elapsed : Nat) : Table :=
  ⟨["Partition", "Ids", "Vectors", "Status"],
    segments.map segmentRow ++
      [["TOTAL", s!"0..{vectorCount}", toString vectorCount, paceText vectorCount elapsed]]⟩

def indexTable (metadata : Metadata) : Table :=
  let lengths := metadata.cells.map (·.length)
  let populated := (lengths.filter (0 < ·)).length
  let largest := lengths.foldl max 0
  ⟨["Property", "Value"],
    [["Vectors", toString metadata.vectorCount], ["Dimension", toString metadata.dimension],
     ["Cells", s!"{metadata.cellCount} ({populated} populated, largest {largest})"],
     ["Code size", s!"{metadata.codeSize} bytes"],
     ["Partitions", toString metadata.partitions.length],
     ["Codebook", metadata.fingerprint.toHex], ["Created", metadata.createdAt]]⟩

end VectorIndex.Report
