import VectorIndex.Proofs.Build.Reopening
import VectorIndex.Proofs.Postings.Ids
import VectorIndex.Proofs.Postings.Order
import VectorIndex.Proofs.Store.Staging

/-!
# A written segment holds what was pushed

Postings are pushed to the cells of a draft in any order. The file that the draft is finished to
opens, its header says what the draft was started with, every cell gives the postings that were
pushed to it in the order in which they came, and each check of the opened segment decides what it
is meant to decide about the postings that were pushed.
-/

namespace VectorIndex.SegmentDraft

/-! ## Pushing -/

variable {draft : SegmentDraft}

section

variable {path : Path} {segment : Segment} (hfilled : draft.IsFilled)
  (hopen : Segment.ofBytes path draft.toBytes = .ok segment) (hreopens : draft.Reopens segment)

include hfilled hopen hreopens in
theorem Reopens.postings_eq {cell : CellId} (hcell : cell < draft.cellCount) :
    segment.postings cell = draft.postings cell := by
  have hpushed : ∀ posting ∈ draft.postings cell, ∃ push ∈ draft.pushes, push.2 = posting := by
    intro posting hposting
    obtain ⟨push, hpush, heq⟩ := List.mem_map.mp hposting
    exact ⟨push, (List.mem_filter.mp hpush).1, heq⟩
  rw [Segment.postings, hreopens.codeSize,
    cellBytes_of_ofBytes hopen hreopens.cellCount hreopens.codeSize hfilled.codes hcell]
  apply Posting.split_flatMap_toBytes
  · intro posting hposting
    obtain ⟨push, hpush, rfl⟩ := hpushed posting hposting
    exact hfilled.codes push hpush
  · intro posting hposting
    obtain ⟨push, hpush, rfl⟩ := hpushed posting hposting
    exact hfilled.ids push hpush

include hfilled hopen hreopens in
/-- What was pushed is all that the segment holds, and it is in the cells that it was pushed to. -/
theorem Reopens.allPostings_perm : segment.allPostings.Perm draft.pushes := by
  have hcells : segment.allPostings = (List.range draft.cellCount).flatMap fun cell ↦
      draft.pushes.filter (·.1 = cell) := by
    unfold Segment.allPostings
    rw [hreopens.cellCount]
    apply List.flatMap_congr
    intro cell hcell
    rw [hreopens.postings_eq hfilled hopen (List.mem_range.mp hcell), SegmentDraft.postings, List.map_map]
    apply (List.map_congr_left fun push hpush ↦ ?_).trans (List.map_id _)
    rw [← of_decide_eq_true (List.mem_filter.mp hpush).2]
    rfl
  rw [hcells]
  exact flatMap_filter_perm hfilled.cells

include hreopens

/-- What holds of all that the segment holds holds of all that was pushed. -/
theorem Reopens.forall_postings {holds : Posting → Prop} :
    (∀ posting ∈ Posting.split segment.codeSize segment.body, holds posting) ↔
      ∀ push ∈ draft.pushes, holds push.2 := by
  have hmem : ∀ posting, (posting ∈ Posting.split segment.codeSize segment.body → holds posting) ↔
      (posting ∈ draft.pushes.map (·.2) → holds posting) := fun posting ↦
    imp_congr_left hreopens.postings.mem_iff
  exact (forall_congr' hmem).trans List.forall_mem_map

include hopen

include hfilled

theorem Reopens.isExact : segment.IsExact :=
  isExact_of_ofBytes hopen hreopens.cellCount hreopens.codeSize hfilled.codes

theorem Reopens.checkIds_eq_ok (hstop : draft.base + draft.count < 0x10000000000000000) :
    segment.checkIds = .ok () ↔
      ∀ push ∈ draft.pushes, draft.base ≤ push.2.id ∧ push.2.id < draft.base + draft.count := by
  have hexact : IdRange.IsExact ⟨draft.base, draft.count⟩ := hstop
  rw [(Segment.IsValid.of_ofBytes hopen).checkIds_eq_ok (hreopens.isExact hfilled hopen),
    Segment.ids, List.forall_mem_map, hreopens.forall_postings, Segment.idRange, hreopens.base,
    hreopens.count]
  refine forall₂_congr fun push _ ↦ ?_
  rw [IdRange.mem_ids, IdRange.contains_iff, hexact.stop_eq]

theorem Reopens.checkCodes_eq_ok {codebook : Codebook} : segment.checkCodes codebook = .ok () ↔
    ∀ push ∈ draft.pushes, codebook.quantizer.checkCode push.2.code = .ok () := by
  have hvalid := Segment.IsValid.of_ofBytes hopen
  have hexact := hreopens.isExact hfilled hopen
  rw [hvalid.checkCodes_eq_ok hexact, hvalid.forall_postings hexact, hreopens.forall_postings]

end

variable {codebook : Codebook} {partition : PartitionIndex} {base : DocumentId}
  {pushes : List (CellId × Posting)} {path : Path} {tree changed : Tree} {summary : SegmentSummary}

open SegmentMerger (smallCodebook)

end VectorIndex.SegmentDraft
