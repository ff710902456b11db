import Mathlib.Data.List.Nodup
import VectorIndex.Proofs.Document.Tiling
import VectorIndex.Proofs.Postings.Merge

/-!
# The ids that merged data store

A merge checks that the ids of a segment lie in the range of its partition and that the ranges tile
the ids of the index. The data then store as many ids as there are vectors, all of them below that
number. They are those ids once each when no segment stores an id twice, which nothing checks.
-/

namespace VectorIndex

open SegmentMerger (cellBytes totalCount)

namespace Segment

/-- The ids of the postings behind the directory. -/
def ids (segment : Segment) : List DocumentId :=
  (Posting.split segment.codeSize segment.body).map (·.id)

theorem map_allPostings (segment : Segment) :
    segment.allPostings.map (·.2) =
      (List.range segment.cellCount).flatMap segment.postings := by
  unfold allPostings
  simp [List.map_flatMap, Function.comp_def]

theorem IsValid.split_body {segment : Segment} (hvalid : segment.IsValid)
    (hexact : segment.IsExact) :
    Posting.split segment.codeSize segment.body = segment.allPostings.map (·.2) := by
  have hdvd : ∀ run ∈ (List.range segment.cellCount).map segment.cellBytes,
      Posting.size segment.codeSize ∣ run.length := by
    intro run hrun
    obtain ⟨cell, -, rfl⟩ := List.mem_map.mp hrun
    exact hvalid.size_dvd_cellBytes hexact cell
  calc Posting.split segment.codeSize segment.body
    _ = Posting.split segment.codeSize
        ((List.range segment.cellCount).map segment.cellBytes).flatten := by
      rw [← List.flatMap_def, hvalid.flatMap_cellBytes hexact]
    _ = ((List.range segment.cellCount).map segment.cellBytes).flatMap
        (Posting.split segment.codeSize) := Posting.split_flatten hdvd
    _ = (List.range segment.cellCount).flatMap segment.postings := List.flatMap_map ..
    _ = segment.allPostings.map (·.2) := segment.map_allPostings.symm

/-- What holds of the postings of all cells holds of all that the body holds. -/
theorem IsValid.forall_postings {segment : Segment} (hvalid : segment.IsValid)
    (hexact : segment.IsExact) {holds : Posting → Prop} :
    (∀ cell < segment.cellCount, ∀ posting ∈ segment.postings cell, holds posting) ↔
      ∀ posting ∈ Posting.split segment.codeSize segment.body, holds posting := by
  rw [hvalid.split_body hexact, List.forall_mem_map]
  simp only [Prod.forall, mem_allPostings, and_imp]
  exact forall_congr' fun cell ↦ forall_comm

/-- A segment stores as many ids as its header says. -/
theorem IsValid.length_ids {segment : Segment} (hvalid : segment.IsValid) :
    segment.ids.length = segment.count := by
  rw [ids, Posting.split_eq_map ⟨_, hvalid.length_body.trans (Nat.mul_comm _ _)⟩,
    List.length_map, List.length_map]
  exact length_chunks (Posting.size_pos _) hvalid.length_body

/-- The check of the ids is that each cell lies within the file and each id in the range of the
segment, and no more than that. -/
theorem checkIds_eq_ok {segment : Segment} :
    segment.checkIds = .ok () ↔
      ∀ cell < segment.cellCount, (segment.cellSlice? cell).isSome ∧
        ∀ posting ∈ segment.postings cell, posting.id ∈ segment.idRange.ids := by
  unfold checkIds
  rw [checkCells_eq_ok]
  simp [IdRange.mem_ids]

theorem IsValid.checkIds_eq_ok {segment : Segment} (hvalid : segment.IsValid)
    (hexact : segment.IsExact) :
    segment.checkIds = .ok () ↔ ∀ id ∈ segment.ids, id ∈ segment.idRange.ids := by
  rw [Segment.checkIds_eq_ok, ids, List.forall_mem_map, ← hvalid.forall_postings hexact]
  simp [hvalid.cellSlice?_eq hexact]

end Segment

namespace SegmentMerger

variable {merger : SegmentMerger} {tree changed : Tree} {segments : List Segment}

/-! ## Whole postings -/

/-- The segments have the layout of the codebook and whole postings in each of its cells. -/
structure AreWhole (merger : SegmentMerger) (segments : List Segment) : Prop where
  codeSize : ∀ segment ∈ segments, segment.codeSize = merger.codebook.codeSize
  cells : ∀ cell < merger.codebook.cellCount, ∀ segment ∈ segments,
    segment.entrySize ∣ (segment.cellBytes cell).length

theorem areWhole_of_fits (hfits : ∀ segment ∈ segments, merger.Fits segment) :
    merger.AreWhole segments where
  codeSize segment hsegment := (hfits segment hsegment).codeSize
  cells cell _ segment hsegment := (hfits segment hsegment).size_dvd_cellBytes cell

theorem eq_of_sum_le {α : Type} {f g : α → Nat} {items : List α}
    (hle : ∀ item ∈ items, f item ≤ g item)
    (hsum : (items.map g).sum ≤ (items.map f).sum) : ∀ item ∈ items, f item = g item := by
  intro item hitem
  refine Nat.le_antisymm (hle item hitem) (Nat.not_lt.mp fun hlt ↦ ?_)
  exact Nat.not_lt.mpr hsum (List.sum_lt_sum f g hle ⟨item, hitem, hlt⟩)

/-- Where the extents cover all of the merged data, no cell of a segment had a part of a posting. -/
theorem areWhole_of_covered (hsound : ∀ segment ∈ segments, merger.IsSound segment)
    {createdAt : String} (hcovered : (merger.mergedCells segments).flatten.length ≤
      Metadata.covered (merger.describe segments (merger.mergedCells segments) createdAt).cells *
        Posting.size merger.codebook.codeSize) : merger.AreWhole segments := by
  have hsize := fun segment hsegment ↦ (hsound segment hsegment).entrySize
  refine ⟨fun segment hsegment ↦ (hsound segment hsegment).layout.2,
    fun cell hcell segment hsegment ↦ ?_⟩
  rw [covered_describe_mul, mergedCells, List.length_flatten, List.map_map] at hcovered
  have hcells := eq_of_sum_le (fun cell _ ↦ cellLength_mul_le hsize cell) hcovered cell
    (List.mem_range.mpr hcell)
  rw [cellLength_mul_eq_sum hsize, cellBytes, List.length_flatMap] at hcells
  have hwhole := eq_of_sum_le (fun _ _ ↦ Nat.div_mul_le_self _ _) (Nat.le_of_eq hcells.symm) segment
    hsegment
  rw [hsize segment hsegment]
  exact Dvd.intro_left _ hwhole

/-- Whatever a merged cell holds, its postings are those of the segments, one after the other. -/
theorem AreWhole.split_cellBytes (hwhole : merger.AreWhole segments) {cell : CellId}
    (hcell : cell < merger.codebook.cellCount) :
    Posting.split merger.codebook.codeSize (cellBytes segments cell) =
      segments.flatMap (·.postings cell) := by
  have hdvd : ∀ run ∈ segments.map (·.cellBytes cell),
      Posting.size merger.codebook.codeSize ∣ run.length := by
    intro run hrun
    obtain ⟨segment, hsegment, rfl⟩ := List.mem_map.mp hrun
    rw [← hwhole.codeSize segment hsegment]
    exact hwhole.cells cell hcell segment hsegment
  rw [cellBytes, List.flatMap_def, Posting.split_flatten hdvd, List.flatMap_map]
  apply List.flatMap_congr
  intro segment hsegment
  rw [← hwhole.codeSize segment hsegment]
  rfl

/-- The merged data hold the postings of the cells of the segments. -/
theorem AreWhole.split_mergedCells (hwhole : merger.AreWhole segments) :
    Posting.split merger.codebook.codeSize (merger.mergedCells segments).flatten =
      (List.range merger.codebook.cellCount).flatMap fun cell ↦
        segments.flatMap (·.postings cell) := by
  have hdvd : ∀ run ∈ merger.mergedCells segments,
      Posting.size merger.codebook.codeSize ∣ run.length := by
    intro run hrun
    obtain ⟨cell, hcell, rfl⟩ := List.mem_map.mp hrun
    apply dvd_length_flatMap
    intro segment hsegment
    rw [← hwhole.codeSize segment hsegment]
    exact hwhole.cells cell (List.mem_range.mp hcell) segment hsegment
  rw [Posting.split_flatten hdvd, mergedCells, List.flatMap_map]
  exact List.flatMap_congr fun cell hcell ↦ hwhole.split_cellBytes (List.mem_range.mp hcell)

/-- The merged data hold the postings of the segments, once each and in another order. -/
theorem split_mergedCells_perm (hfits : ∀ segment ∈ segments, merger.Fits segment) :
    (Posting.split merger.codebook.codeSize (merger.mergedCells segments).flatten).Perm
      (segments.flatMap fun segment ↦ Posting.split segment.codeSize segment.body) := by
  have hbodies : segments.flatMap (fun segment ↦ Posting.split segment.codeSize segment.body) =
      segments.flatMap fun segment ↦
        (List.range merger.codebook.cellCount).flatMap segment.postings := by
    apply List.flatMap_congr
    intro segment hsegment
    rw [(hfits segment hsegment).valid.split_body (hfits segment hsegment).exact,
      segment.map_allPostings, (hfits segment hsegment).cellCount]
  rw [(areWhole_of_fits hfits).split_mergedCells, hbodies]
  exact flatMap_flatMap_perm segments (List.range merger.codebook.cellCount) Segment.postings

/-- The ids that merged data store are those of the segments. -/
theorem ids_mergedCells_perm (hfits : ∀ segment ∈ segments, merger.Fits segment) :
    ((Posting.split merger.codebook.codeSize (merger.mergedCells segments).flatten).map
      (·.id)).Perm (segments.flatMap Segment.ids) := by
  have hperm := (split_mergedCells_perm hfits).map (·.id)
  rwa [List.map_flatMap] at hperm

theorem length_flatMap_ids (hfits : ∀ segment ∈ segments, merger.Fits segment) :
    (segments.flatMap Segment.ids).length = totalCount segments := by
  induction segments with
  | nil => rfl
  | cons segment rest ih =>
    obtain ⟨hsegment, hrest⟩ := List.forall_mem_cons.mp hfits
    rw [List.flatMap_cons, List.length_append, hsegment.valid.length_ids, ih hrest, totalCount]

theorem totalCount_eq_sum (segments : List Segment) :
    totalCount segments = ((segments.map (·.idRange)).map IdRange.length).sum := by
  induction segments with
  | nil => rfl
  | cons segment rest ih => rw [totalCount, ih, List.map_cons, List.map_cons, List.sum_cons]; rfl

/-- Where the ranges tile the ids, none of them ends beyond `2 ^ 64`. -/
theorem isExact_of_tiling
    (htiling : checkTiling (segments.map (·.idRange)) (totalCount segments) = .ok ()) :
    ∀ segment ∈ segments, segment.idRange.IsExact := by
  rw [totalCount_eq_sum] at htiling
  exact List.forall_mem_map.mp (isExact_of_checkTiling htiling)

theorem flatMap_idRange_perm
    (htiling : checkTiling (segments.map (·.idRange)) (totalCount segments) = .ok ()) :
    (segments.flatMap fun segment ↦ segment.idRange.ids).Perm (List.range (totalCount segments)) := by
  have htiles := flatMap_ids_perm_of_checkTiling (List.forall_mem_map.mpr (isExact_of_tiling htiling))
    htiling
  rwa [List.flatMap_map] at htiles

theorem Fits.ids_subset {segment : Segment} (hfits : merger.Fits segment) :
    segment.ids ⊆ segment.idRange.ids :=
  fun _ ↦ (hfits.valid.checkIds_eq_ok hfits.exact).mp hfits.ids _

/-- A segment that stores no id twice stores the ids of its range. -/
theorem Fits.ids_perm {segment : Segment} (hfits : merger.Fits segment)
    (hrange : segment.idRange.IsExact) (hnodup : segment.ids.Nodup) :
    segment.ids.Perm segment.idRange.ids := by
  apply (List.subperm_of_subset hnodup hfits.ids_subset).perm_of_length_le
  rw [hfits.valid.length_ids, IdRange.ids, List.length_range', hrange.stop_eq,
    Nat.add_sub_cancel_left]
  exact Nat.le_refl segment.count

/-- Where the ranges tile the ids, the segments store those ids once each exactly when no segment
stores an id twice. -/
theorem flatMap_ids_perm_range (hfits : ∀ segment ∈ segments, merger.Fits segment)
    (htiling : checkTiling (segments.map (·.idRange)) (totalCount segments) = .ok ()) :
    (segments.flatMap Segment.ids).Perm (List.range (totalCount segments)) ↔
      ∀ segment ∈ segments, segment.ids.Nodup := by
  constructor
  · intro hperm segment hsegment
    have hnodup := hperm.nodup_iff.mpr List.nodup_range
    exact (List.nodup_flatMap.mp hnodup).1 segment hsegment
  · intro hnodup
    have hranges : (segments.flatMap Segment.ids).Perm
        (segments.flatMap fun segment ↦ segment.idRange.ids) :=
      List.Perm.flatMap_left segments fun segment hsegment ↦
        (hfits segment hsegment).ids_perm (isExact_of_tiling htiling segment hsegment)
          (hnodup segment hsegment)
    exact hranges.trans (flatMap_idRange_perm htiling)

/-- The merged data hold the postings of the segments and nothing else. -/
theorem AreWhole.mem_split_mergedCells (hwhole : merger.AreWhole segments) {posting : Posting}
    (hposting : posting ∈
      Posting.split merger.codebook.codeSize (merger.mergedCells segments).flatten) :
    ∃ segment ∈ segments, ∃ cell < merger.codebook.cellCount,
      posting ∈ segment.postings cell := by
  rw [hwhole.split_mergedCells] at hposting
  obtain ⟨cell, hcell, hposting⟩ := List.mem_flatMap.mp hposting
  obtain ⟨segment, hsegment, hposting⟩ := List.mem_flatMap.mp hposting
  exact ⟨segment, hsegment, cell, List.mem_range.mp hcell, hposting⟩

/-- Every id in merged data is one of a vector of the index. -/
theorem lt_of_mem_ids (hsound : ∀ segment ∈ segments, merger.IsSound segment)
    (hwhole : merger.AreWhole segments)
    (htiling : checkTiling (segments.map (·.idRange)) (totalCount segments) = .ok ())
    {posting : Posting}
    (hposting : posting ∈
      Posting.split merger.codebook.codeSize (merger.mergedCells segments).flatten) :
    posting.id < totalCount segments := by
  obtain ⟨segment, hsegment, cell, hcell, hposting⟩ := hwhole.mem_split_mergedCells hposting
  have htaken := hsound segment hsegment
  obtain ⟨-, -, hids, -⟩ := checkSegment_eq_ok.mp htaken.taken
  have hchecked := (Segment.checkIds_eq_ok.mp hids cell (htaken.layout.1 ▸ hcell)).2
  have howned : posting.id ∈ segments.flatMap fun segment ↦ segment.idRange.ids :=
    List.mem_flatMap.mpr ⟨segment, hsegment, hchecked posting hposting⟩
  exact List.mem_range.mp ((flatMap_idRange_perm htiling).mem_iff.mp howned)

/-- A merge of segments that it accepts publishes data with as many ids as it counts vectors, all of
them below that number and each in the range of a segment, when no directory of a segment counts
more postings than 64 bits hold. The ids are the numbers below it once each exactly when no segment
stores an id twice. -/
theorem merge_ids {count : Nat} {metadata : Metadata}
    (hmerge : (merger.merge count).runOn tree = (.ok metadata, changed)) :
    ∃ segments data, merger.Holds tree (count % 0x100000000) segments ∧
      changed.read (Path.join merger.directory metadata.dataFile) = .ok data ∧
      ((∀ segment ∈ segments, segment.IsExact) →
        let stored := (Posting.split merger.codebook.codeSize data).map (·.id)
        stored.Perm (segments.flatMap Segment.ids) ∧ stored.length = metadata.vectorCount ∧
          (∀ id ∈ stored, id < metadata.vectorCount) ∧
          (stored.Perm (List.range metadata.vectorCount) ↔
            ∀ segment ∈ segments, segment.ids.Nodup)) := by
  obtain ⟨-, segments, hholds, hrun⟩ := mergeInOrder_ok.mp hmerge
  obtain ⟨htiling, ⟨createdAt, rfl⟩, hpublishes⟩ := mergeSegments_ok hrun
  rw [List.length_range] at hholds
  refine ⟨segments, _, hholds, hpublishes.read_data (Metadata.isName_dataFileName _),
    fun hexact ↦ ?_⟩
  have hfits := hholds.fits hexact
  have hperm := ids_mergedCells_perm hfits
  refine ⟨hperm, hperm.length_eq.trans (length_flatMap_ids hfits), fun id hid ↦ ?_, ?_⟩
  · obtain ⟨posting, hposting, rfl⟩ := List.mem_map.mp hid
    exact lt_of_mem_ids hholds.sound (areWhole_of_fits hfits) htiling hposting
  · rw [← flatMap_ids_perm_range hfits htiling]
    exact ⟨hperm.symm.trans, hperm.trans⟩

/-- A codebook, and a segment that stores the first of its two ids in both cells. -/
def repeatingTree : Tree :=
  let draft := ((SegmentDraft.start 0 0 smallCodebook).push 1 ⟨0, [1]⟩).push 0 ⟨0, [0]⟩
  ⟨[(["index"], .directory), (["index", "segment_0.seg"], .file draft.toBytes 0),
    (["index", "trained.index"], .file smallCodebook.toBytes 0)], 0⟩

theorem exists_repeating_merge : ∃ metadata changed data,
    (merge ⟨"index", smallCodebook⟩ 1).runOn repeatingTree = (.ok metadata, changed) ∧
      changed.read (Path.join "index" metadata.dataFile) = .ok data ∧
      metadata.vectorCount = 2 ∧
      (Posting.split smallCodebook.codeSize data).map (·.id) = [0, 0] := by
  have hhosts : repeatingTree.Hosts (mk "index" smallCodebook).directory :=
    Tree.hosts_of_entries (by decide)
  obtain ⟨createdAt, changed, hmerge, hpublishes⟩ := exists_sole_merge hhosts rfl
    (by decide +kernel) (by decide +kernel) (by decide +kernel)
  have hread := hpublishes.read_data (Metadata.isName_dataFileName _)
  exact ⟨_, changed, _, hmerge, hread, rfl, by decide +kernel⟩

/-- The segment is merged although it stores an id twice, and the other id of its range is not in
the data. -/
theorem merge_ids_repeating : ∃ metadata changed data segments,
    (merge ⟨"index", smallCodebook⟩ 1).runOn repeatingTree = (.ok metadata, changed) ∧
      Holds ⟨"index", smallCodebook⟩ repeatingTree 1 segments ∧
      (∃ segment ∈ segments, ¬ segment.ids.Nodup) ∧
      changed.read (Path.join "index" metadata.dataFile) = .ok data ∧
      metadata.vectorCount = 2 ∧
      1 ∉ (Posting.split smallCodebook.codeSize data).map (·.id) := by
  obtain ⟨metadata, changed, data, hmerge, hread, hcount, hstored⟩ := exists_repeating_merge
  obtain ⟨segments, data', hholds, hread', hmerged⟩ := merge_ids hmerge
  obtain rfl := Except.ok.inj (hread.symm.trans hread')
  obtain ⟨-, -, -, hexact⟩ := hmerged (hholds.exact (opensExactly_of_all (by decide +kernel)))
  rw [hcount, hstored] at hexact
  have hrepeats : ¬ ∀ segment ∈ segments, segment.ids.Nodup :=
    fun hnodup ↦ absurd (hexact.mpr hnodup) (by decide)
  simp only [not_forall, exists_prop] at hrepeats
  exact ⟨metadata, changed, data, segments, hmerge, hholds, hrepeats, hread, hcount,
    by rw [hstored]; decide⟩

end SegmentMerger
end VectorIndex
