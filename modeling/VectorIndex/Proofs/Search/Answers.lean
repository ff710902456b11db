import VectorIndex.Proofs.Search.Bounds
import VectorIndex.Proofs.Search.Monotone

/-!
# What a loaded index answers

The loader compares a codebook with its header and with the metadata, but not the pieces and the
codewords of its quantizer with the dimension. An engine whose codebook has a table for the queries
of the index, and whose metadata count within 64 bits, answers each of them with the beginning of the
ranking of all postings in the cells that come first for it. Asking for more hits extends the answer
at its end, and visiting more cells leaves no place of it with a later hit. An engine whose codebook
has no table is loaded all the same, and then any query for hits is a crash.
-/

namespace VectorIndex

namespace QueryEngine

variable {directory : Path} {probes : Nat} {tree changed : Tree} {engine : QueryEngine}
  {query : Vec}

/-- A loaded engine with a table for the query answers with the beginning of the ranking of the
candidates, for every number of hits and of cells. -/
theorem exists_table_of_load
    (hload : (load directory probes).runOn tree = (.ok engine, changed))
    (hexact : engine.metadata.IsExact)
    (htable : engine.codebook.quantizer.HasTable engine.metadata.dimension)
    (hquery : query.length = engine.metadata.dimension) :
    ∃ table, engine.codebook.quantizer.productTable query = some table ∧
      ∀ k visits, engine.search query k visits = .ok ((SearchHit.insertAll []
        (engine.candidates query table (visits.getD engine.probes))).take k) := by
  obtain ⟨rfl, -, -, hverified⟩ := load_ok.mp hload
  rw [← hquery] at htable
  obtain ⟨table, hproducts⟩ := htable.exists_productTable
  exact ⟨table, hproducts, fun k visits ↦
    search_eq_take hquery hproducts k visits (hverified.reaches hexact query _)⟩

theorem isExact_small {segments : List Segment} (createdAt : String)
    (hfits : ∀ segment ∈ segments,
      SegmentMerger.Fits ⟨"index", SegmentMerger.smallCodebook⟩ segment)
    (htotal : SegmentMerger.totalCount segments = 2) :
    (ofMerge ⟨"index", SegmentMerger.smallCodebook⟩ segments createdAt 4).metadata.IsExact := by
  apply SegmentMerger.isExact_describe hfits createdAt
  show SegmentMerger.totalCount segments * Posting.size 1 < _
  rw [htotal]
  decide

theorem hasTable_small : SegmentMerger.smallCodebook.quantizer.HasTable 1 :=
  ⟨by decide, by decide, by decide⟩

/-- Every query of the dimension is shorter than the one piece of the quantizer. -/
def bareCodebook : Codebook :=
  let centroids : List Vec := [[.one]]
  let quantizer : Quantizer := ⟨1, 1, 2, 1, [[[.zero, .zero]]]⟩
  let params : TrainingParams := ⟨1, 1, 1, 7, 1⟩
  ⟨1, centroids, quantizer, params, .of (Codebook.pack centroids quantizer params)⟩

/-- The codebook, and a segment with one posting. -/
def bareTree : Tree :=
  let draft := (SegmentDraft.start 0 0 bareCodebook).push 0 ⟨0, [0]⟩
  ⟨[(["index"], .directory), (["index", "segment_0.seg"], .file draft.toBytes 0),
    (["index", "trained.index"], .file bareCodebook.toBytes 0)], 0⟩

end QueryEngine
end VectorIndex
