import VectorIndex.Proofs.Build.Barrier
import VectorIndex.Proofs.Postings.Ids

/-!
# Segments that are kept

A segment is kept for a partition when it opens, has the number and the range of the partition and
fits the codebook. The merge asks for all of that and for one thing more: that every id in its cells
lies in the range. A segment that stores another id is kept by every build and refused by every
merge, and since a refused merge writes nothing the next build finds it as it was.
-/

namespace VectorIndex

namespace Segment

variable {segment : Segment}

/-- The ids of the postings in the cells. -/
def storedIds (segment : Segment) : List DocumentId := segment.allPostings.map (·.2.id)

theorem mem_storedIds {id : DocumentId} : id ∈ segment.storedIds ↔
    ∃ cell < segment.cellCount, ∃ posting ∈ segment.postings cell, posting.id = id := by
  unfold storedIds
  simp only [List.mem_map, Prod.exists, mem_allPostings]
  exact ⟨fun ⟨cell, posting, ⟨hcell, hposting⟩, hid⟩ ↦ ⟨cell, hcell, posting, hposting, hid⟩,
    fun ⟨cell, hcell, posting, hposting, hid⟩ ↦ ⟨cell, posting, ⟨hcell, hposting⟩, hid⟩⟩

/-- The error of a check is that of one of the values. -/
theorem checkAll_error {α : Type} {test : α → Except IndexError Unit} {values : List α}
    {error : IndexError} (hcheck : checkAll test values = .error error) :
    ∃ value ∈ values, test value = .error error := by
  induction values with
  | nil => cases hcheck
  | cons value rest ih =>
    rw [checkAll] at hcheck
    cases htest : test value with
    | error first =>
      rw [htest] at hcheck
      exact ⟨value, List.mem_cons_self, htest.trans hcheck⟩
    | ok done =>
      rw [htest] at hcheck
      obtain ⟨later, hlater, herror⟩ := ih hcheck
      exact ⟨later, List.mem_cons_of_mem _ hlater, herror⟩

/-- The error of a check of cells that lie within the file is that of a posting in one of them. -/
theorem checkCells_error {test : CellId → Posting → Except IndexError Unit} {cells : List CellId}
    {error : IndexError} (hreaches : ∀ cell ∈ cells, (segment.cellSlice? cell).isSome)
    (hcheck : segment.checkCells test cells = .error error) :
    ∃ cell ∈ cells, ∃ posting ∈ segment.postings cell, test cell posting = .error error := by
  induction cells with
  | nil => cases hcheck
  | cons cell rest ih =>
    obtain ⟨hcell, hrest⟩ := List.forall_mem_cons.mp hreaches
    obtain ⟨bytes, hbytes⟩ := Option.isSome_iff_exists.mp hcell
    have hpostings : segment.postings cell = Posting.split segment.codeSize bytes := by
      rw [postings, cellBytes, hbytes, Option.getD_some]
    rw [checkCells, hbytes] at hcheck
    dsimp only at hcheck
    cases hall : checkAll (test cell) (Posting.split segment.codeSize bytes) with
    | error first =>
      rw [hall] at hcheck
      obtain ⟨posting, hposting, htest⟩ := checkAll_error hall
      exact ⟨cell, List.mem_cons_self, posting, hpostings ▸ hposting, htest.trans hcheck⟩
    | ok done =>
      rw [hall] at hcheck
      obtain ⟨later, hlater, hposting⟩ := ih hrest hcheck
      exact ⟨later, List.mem_cons_of_mem _ hlater, hposting⟩

/-- What is wrong with a segment that stores an id of another range. -/
def strayId (segment : Segment) (cell : CellId) (id : DocumentId) : IndexError :=
  .indexCorrupt segment.path <|
    s!"id {id} in cell {cell} is outside [{segment.idRange.start}, {segment.idRange.stop})"

variable (hreaches : ∀ cell < segment.cellCount, (segment.cellSlice? cell).isSome)
include hreaches

/-- Where every cell lies within the file, the ids are checked that the cells store. -/
theorem checkIds_eq_ok_of_reaches : segment.checkIds = .ok () ↔
    ∀ id ∈ segment.storedIds, id ∈ segment.idRange.ids := by
  rw [checkIds_eq_ok]
  constructor
  · intro hcheck id hid
    obtain ⟨cell, hcell, posting, hposting, rfl⟩ := mem_storedIds.mp hid
    exact (hcheck cell hcell).2 posting hposting
  · exact fun hids cell hcell ↦ ⟨hreaches cell hcell, fun posting hposting ↦
      hids _ (mem_storedIds.mpr ⟨cell, hcell, posting, hposting, rfl⟩)⟩

/-- The check of the ids names an id outside of the range and the cell that has it. -/
theorem checkIds_error {error : IndexError} (hcheck : segment.checkIds = .error error) :
    ∃ cell < segment.cellCount, ∃ id ∈ segment.storedIds, id ∉ segment.idRange.ids ∧
      error = segment.strayId cell id := by
  obtain ⟨cell, hcell, posting, hposting, htest⟩ :=
    checkCells_error (fun cell hcell ↦ hreaches cell (List.mem_range.mp hcell)) hcheck
  have hid := mem_storedIds.mpr ⟨cell, List.mem_range.mp hcell, posting, hposting, rfl⟩
  split at htest
  · cases htest
  · next hstray =>
    exact ⟨cell, List.mem_range.mp hcell, posting.id, hid,
      fun hmem ↦ hstray (IdRange.mem_ids.mp hmem), (Except.error.inj htest).symm⟩

end Segment

namespace Shard

variable {codebook : Codebook} {directory : Path} {partition : Partition} {tree : Tree}

/-- A segment is kept when its file opens and it covers the partition. -/
theorem reusable?_eq_some {summary : SegmentSummary} :
    ((reusable? codebook directory partition).runOn tree).1 = .ok (some summary) ↔
      (∃ segment, (Segment.open (segmentPath directory partition.index)).runOn tree =
          (.ok segment, tree) ∧ Covers codebook partition segment) ∧
        summary = ⟨partition.index, partition.base, partition.items.length,
          segmentPath directory partition.index, true⟩ := by
  rw [run_reusable?]
  simp only [Segment.open_ok, true_and, ← Tree.fetch_eq_ok]
  generalize (tree.answer (.fetch (segmentPath directory partition.index))).1 = opened
  rcases opened with fault | contents | -
  · simp [judge, Except.toOption]
  · rw [Except.toOption, judge_eq_some]
    simp
  · simp [judge, Except.toOption]

/-! ## What the merge asks for besides -/

section

variable {segment : Segment} (hcovers : Covers codebook partition segment)
include hcovers

/-- The codes of every cell have been looked at. -/
theorem Covers.reaches : ∀ cell < segment.cellCount, (segment.cellSlice? cell).isSome :=
  fun cell hcell ↦ (Segment.checkCodes_eq_ok.mp hcovers.checkCodes cell hcell).1

/-- The merge takes a segment that covers the partition when its ids are ids of the partition. -/
theorem checkSegment_iff_of_covers :
    SegmentMerger.checkSegment ⟨directory, codebook⟩ partition.index segment = .ok () ↔
      ∀ id ∈ segment.storedIds, id ∈ partition.idRange.ids := by
  rw [SegmentMerger.checkSegment_eq_ok, Segment.checkIds_eq_ok_of_reaches hcovers.reaches,
    hcovers.range]
  exact ⟨fun ⟨_, _, hids, _⟩ ↦ hids,
    fun hids ↦ ⟨hcovers.index, hcovers.checkCodebook, hids, hcovers.checkCodes⟩⟩

/-- Otherwise its error names an id of another partition. -/
theorem checkSegment_error_of_covers {error : IndexError}
    (hcheck : SegmentMerger.checkSegment ⟨directory, codebook⟩ partition.index segment =
      .error error) :
    ∃ cell < codebook.cellCount, ∃ id ∈ segment.storedIds, id ∉ partition.idRange.ids ∧
      error = segment.strayId cell id := by
  unfold SegmentMerger.checkSegment at hcheck
  have hids : segment.checkIds = .error error := by
    simpa [hcovers.index, hcovers.checkCodebook, hcovers.checkCodes, Result.bind_error] using hcheck
  rw [← hcovers.range, ← (Segment.checkCodebook_eq_ok.mp hcovers.checkCodebook).2.2.1]
  exact Segment.checkIds_error hcovers.reaches hids

/-- While the file of a partition stores a stray id no merge with the partition succeeds, and none
writes anything. -/
theorem merge_of_stray
    (hopen : (Segment.open (segmentPath directory partition.index)).runOn tree =
      (.ok segment, tree))
    {stray : DocumentId} (hstray : stray ∈ segment.storedIds)
    (houtside : stray ∉ partition.idRange.ids) {count : Nat}
    (hcount : partition.index < count % 0x100000000) :
    ∃ error, (SegmentMerger.merge ⟨directory, codebook⟩ count).runOn tree =
      (.error error, tree) := by
  refine (SegmentMerger.merge_cases ⟨directory, codebook⟩ count tree).resolve_right fun hsuits ↦ ?_
  obtain ⟨found, hfile, accepted, haccepted, hcheck⟩ := hsuits partition.index hcount
  obtain ⟨-, contents, hread, hbytes⟩ := Segment.open_ok.mp hopen
  rw [segmentPath_eq_join, Tree.read_join (isName_segmentName partition.index)] at hread
  obtain rfl := Option.some.inj (hfile.symm.trans hread.2)
  obtain rfl := Except.ok.inj (haccepted.symm.trans hbytes)
  exact houtside ((checkSegment_iff_of_covers hcovers).mp hcheck stray hstray)

end

/-- A segment that is kept is one that the merge takes for the partition, if and only if it stores
ids of the partition alone. If it stores another one, the merge says that it is corrupt and names
such an id, and every merge with the partition fails and leaves the directory as it is. A range whose
end needs more than 64 bits has no ids. -/
theorem checkSegment_of_reusable {summary : SegmentSummary}
    (hkept : ((reusable? codebook directory partition).runOn tree).1 = .ok (some summary)) :
    summary = ⟨partition.index, partition.base, partition.items.length,
        segmentPath directory partition.index, true⟩ ∧
      ∃ segment, (Segment.open (segmentPath directory partition.index)).runOn tree =
          (.ok segment, tree) ∧ Covers codebook partition segment ∧
        let checked := SegmentMerger.checkSegment ⟨directory, codebook⟩ partition.index segment
        (checked = .ok () ↔ ∀ id ∈ segment.storedIds, id ∈ partition.idRange.ids) ∧
          ∀ stray ∈ segment.storedIds, stray ∉ partition.idRange.ids →
            (∃ cell < codebook.cellCount, ∃ id ∈ segment.storedIds, id ∉ partition.idRange.ids ∧
              checked = .error (segment.strayId cell id)) ∧
            ∀ count, partition.index < count % 0x100000000 →
              ∃ error, (SegmentMerger.merge ⟨directory, codebook⟩ count).runOn tree =
                (.error error, tree) := by
  obtain ⟨⟨segment, hopen, hcovers⟩, hsummary⟩ := reusable?_eq_some.mp hkept
  have haccepted : SegmentMerger.checkSegment ⟨directory, codebook⟩ partition.index segment =
      .ok () ↔ _ := checkSegment_iff_of_covers hcovers
  refine ⟨hsummary, segment, hopen, hcovers, haccepted, fun stray hstray houtside ↦
    ⟨?_, fun count ↦ merge_of_stray hcovers hopen hstray houtside⟩⟩
  cases hcheck : SegmentMerger.checkSegment ⟨directory, codebook⟩ partition.index segment with
  | ok done => exact absurd (haccepted.mp hcheck stray hstray) houtside
  | error error =>
    obtain ⟨cell, hcell, id, hid, hother, rfl⟩ := checkSegment_error_of_covers hcovers hcheck
    exact ⟨cell, hcell, id, hid, hother, rfl⟩

/-- A codebook, and a segment whose second id lies behind its range. -/
def strayTree : Tree :=
  let first := (SegmentDraft.start 0 0 SegmentMerger.smallCodebook).push 0 ⟨0, [0]⟩
  let draft := first.push 1 ⟨5, [1]⟩
  ⟨[(["index"], .directory), (["index", "segment_0.seg"], .file draft.toBytes 0),
    (["index", "trained.index"], .file SegmentMerger.smallCodebook.toBytes 0)], 0⟩

/-- The segment is kept for the first partition of two items, and then nothing can be merged. -/
theorem checkSegment_of_reusable_stray :
    ((reusable? SegmentMerger.smallCodebook "index" ⟨0, 0, ["a", "b"]⟩).runOn strayTree).1 =
        .ok (some ⟨0, 0, 2, "index/segment_0.seg", true⟩) ∧
      ∃ error, (SegmentMerger.merge ⟨"index", SegmentMerger.smallCodebook⟩ 1).runOn strayTree =
        (.error error, strayTree) := by
  have hsome : ((reusable? SegmentMerger.smallCodebook "index" ⟨0, 0, ["a", "b"]⟩).runOn
      strayTree).1.toOption = some (some ⟨0, 0, 2, "index/segment_0.seg", true⟩) := by
    decide +kernel
  have hkept := Result.toOption_eq_some.mp hsome
  have hids : ((Segment.open "index/segment_0.seg").runOn strayTree).1.toOption.map
      Segment.storedIds = some [0, 5] := by
    decide +kernel
  obtain ⟨-, segment, hopen, -, -, hstray⟩ := checkSegment_of_reusable hkept
  rw [show segmentPath "index" 0 = "index/segment_0.seg" by decide] at hopen
  rw [hopen] at hids
  have hstored : segment.storedIds = [0, 5] := Option.some.inj hids
  exact ⟨hkept, (hstray 5 (by rw [hstored]; decide) (by decide)).2 1 (by decide)⟩

end Shard
end VectorIndex
