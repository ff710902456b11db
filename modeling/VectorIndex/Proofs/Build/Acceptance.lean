import VectorIndex.Proofs.Codebook.RoundTrip
import VectorIndex.Proofs.Postings.Pushes

/-!
# A merge takes what was built

The segment that was built for a partition opens as a segment of that partition and passes every
check of a merge, and the ranges of the partitions tile the ids of all texts. So whatever encoders
have built the segments of a stream, nothing in them can make a merge fail.
-/

namespace VectorIndex

/-- The codebook has cells, and its codes name codewords. -/
structure Codebook.IsComplete (codebook : Codebook) : Prop where
  centroids_ne_nil : codebook.centroids ≠ []
  checkCode_encode : ∀ v, codebook.quantizer.checkCode (codebook.encode v).2 = .ok ()

theorem Codebook.isComplete_of_train {settings : TrainingSettings} {sample : List Vec}
    {codebook : Codebook} (htrain : train settings sample = .ok codebook) : codebook.IsComplete :=
  ⟨(train_ok htrain).1.centroids_ne_nil, checkCode_encode_of_train htrain⟩

/-- Number and ids of the partition have the widths that they are stored with. -/
structure Partition.Fits (partition : Partition) : Prop where
  index : partition.index < 0x100000000
  stop : partition.idRange.IsExact

theorem Partition.fits_of_mem_ofItems {pieces : List (List String)}
    (hcount : pieces.length < 0x100000000) (htotal : pieces.flatten.length < 0x10000000000000000)
    {partition : Partition} (hpartition : partition ∈ ofItems 0 0 pieces) : partition.Fits := by
  obtain ⟨-, hstop⟩ := le_base_of_mem_ofItems hpartition
  rw [Nat.zero_add] at hstop
  have hindex := List.mem_map_of_mem (f := (·.index)) hpartition
  rw [map_index_ofItems, List.mem_range'_1] at hindex
  exact ⟨by unfold PartitionIndex at *; omega, Nat.lt_of_le_of_lt hstop htotal⟩

namespace Shard

variable {codebook : Codebook} {partition : Partition} {vectors : List Vec}
  (hlength : vectors.length = partition.items.length)
include hlength

theorem count_draft : (draft codebook partition (place codebook partition.base vectors)).count =
    partition.items.length := by
  rw [← hlength]
  exact (congrArg List.length (place_eq_map_zipIdx codebook partition.base vectors)).trans
    (by rw [List.length_map, List.length_zipIdx])

theorem id_of_mem_place {push : CellId × Posting}
    (hpush : push ∈ place codebook partition.base vectors) :
    partition.base ≤ push.2.id ∧ push.2.id < partition.base + partition.items.length := by
  have hmem := List.mem_map_of_mem (f := (·.2.id)) hpush
  rw [map_id_place, hlength] at hmem
  exact List.mem_range'_1.mp hmem

theorem fitsFields_draft (hcodebook : codebook.FitsFields) (hfits : partition.Fits) :
    (draft codebook partition (place codebook partition.base vectors)).FitsFields := by
  have hstop : partition.base + partition.items.length < 0x10000000000000000 := hfits.stop
  refine ⟨hcodebook.dimension, hfits.index, ?_, ?_, hcodebook.cellCount, hcodebook.codeSize⟩
  · show partition.base < _
    unfold DocumentId at *
    omega
  · rw [count_draft hlength]
    unfold DocumentId at *
    omega

theorem isFilled_draft (hcentroids : codebook.centroids ≠ []) (hfits : partition.Fits) :
    (draft codebook partition (place codebook partition.base vectors)).IsFilled := by
  refine ⟨fst_lt_of_mem_place hcentroids, fun push ↦ length_code_of_mem_place,
    fun push hpush ↦ ?_⟩
  exact Nat.lt_trans (id_of_mem_place hlength hpush).2 hfits.stop

end Shard

namespace SegmentMerger

variable {merger : SegmentMerger} {tree : Tree}

/-- The segment that was built for a partition opens, a merge takes it, and it covers the ids of the
partition. -/
theorem exists_opened (hcodebook : merger.codebook.IsComplete)
    (hfields : merger.codebook.FitsFields) {partition : Partition} (hfits : partition.Fits)
    {encoder : Encoder} {batchSize : Nat} {contents : Bytes}
    (hcontents : Shard.segmentBytes? merger.codebook encoder batchSize partition = some contents)
    (path : Path) :
    ∃ segment, Segment.ofBytes path contents = .ok segment ∧
      merger.checkSegment partition.index segment = .ok () ∧
        segment.idRange = partition.idRange := by
  obtain ⟨pushes, hencode, rfl⟩ := Option.map_eq_some_iff.mp hcontents
  obtain ⟨vectors, rfl, hlength, -⟩ := Shard.exists_of_encode (Result.toOption_eq_some.mp hencode)
  have hcount : (Shard.draft merger.codebook partition
      (Shard.place merger.codebook partition.base vectors)).count = partition.items.length :=
    Shard.count_draft hlength
  obtain ⟨segment, hopen, hreopens⟩ := SegmentDraft.exists_ofBytes_toBytes
    (Shard.fitsFields_draft hlength hfields hfits)
    (Shard.isFilled_draft hlength hcodebook.centroids_ne_nil hfits) path
  have hfilled := Shard.isFilled_draft hlength hcodebook.centroids_ne_nil hfits
  have hrange : segment.idRange = partition.idRange := by
    unfold Segment.idRange Partition.idRange
    rw [hreopens.base, hreopens.count, hcount]
    rfl
  have hstop : partition.base + (Shard.draft merger.codebook partition
      (Shard.place merger.codebook partition.base vectors)).count < 0x10000000000000000 :=
    hcount ▸ hfits.stop
  refine ⟨segment, hopen, checkSegment_eq_ok.mpr ⟨hreopens.partition, ?_, ?_, ?_⟩, hrange⟩
  · exact Segment.checkCodebook_eq_ok.mpr
      ⟨hreopens.fingerprint, hreopens.dimension, hreopens.cellCount, hreopens.codeSize⟩
  · refine (hreopens.checkIds_eq_ok hfilled hopen hstop).mpr fun push hpush ↦ ?_
    rw [hcount]
    exact Shard.id_of_mem_place hlength hpush
  · refine (hreopens.checkCodes_eq_ok hfilled hopen).mpr fun push hpush ↦ ?_
    obtain ⟨⟨v, id⟩, -, rfl⟩ := List.mem_map.mp
      (Shard.place_eq_map_zipIdx merger.codebook partition.base vectors ▸ hpush)
    exact hcodebook.checkCode_encode v

theorem totalCount_of_map_idRange {segments : List Segment} {index : PartitionIndex}
    {base : DocumentId} {pieces : List (List String)}
    (hranges : segments.map (·.idRange) = (Partition.ofItems index base pieces).map (·.idRange)) :
    totalCount segments = pieces.flatten.length := by
  induction pieces generalizing segments index base with
  | nil =>
    obtain rfl := List.map_eq_nil_iff.mp hranges
    rfl
  | cons items rest ih =>
    rw [Partition.ofItems, List.map_cons] at hranges
    obtain ⟨segment, others, rfl, hrange, hothers⟩ := List.map_eq_cons_iff.mp hranges
    rw [totalCount, ih hothers, List.flatten_cons, List.length_append]
    exact congrArg (·.length + rest.flatten.length) hrange

section

variable (hcodebook : merger.codebook.IsComplete) (hfields : merger.codebook.FitsFields)
  (hdirectory : tree.IsDirectory (Location.ofDirectory merger.directory)) {batchSize : Nat}
include hcodebook hfields hdirectory

/-- The merge takes the segments of partitions that were built. -/
theorem exists_accepted_of_built {partitions : List Partition}
    (hfits : ∀ partition ∈ partitions, partition.Fits)
    (hbuilt : ∀ partition ∈ partitions, ∃ encoder contents,
      Shard.segmentBytes? merger.codebook encoder batchSize partition = some contents ∧
        tree.files (Location.ofDirectory merger.directory ++ [segmentName partition.index]) =
          some contents) :
    ∃ segments : List Segment, segments.map (·.partition) = partitions.map (·.index) ∧
      segments.map (·.idRange) = partitions.map (·.idRange) ∧
        ∀ segment ∈ segments,
          merger.Accepts tree segment.partition segment ∧ segment.IsExact := by
  induction partitions with
  | nil => exact ⟨[], rfl, rfl, nofun⟩
  | cons partition rest ih =>
    obtain ⟨hfit, hfits⟩ := List.forall_mem_cons.mp hfits
    obtain ⟨⟨encoder, contents, hcontents, hfile⟩, hbuilt⟩ := List.forall_mem_cons.mp hbuilt
    obtain ⟨segments, hpartitions, hranges, haccepts⟩ := ih hfits hbuilt
    obtain ⟨segment, hopen, hcheck, hrange⟩ := exists_opened hcodebook hfields hfit hcontents
      (segmentPath merger.directory partition.index)
    have hpartition := partition_of_checkSegment hcheck
    refine ⟨segment :: segments, ?_, ?_, List.forall_mem_cons.mpr ⟨?_, haccepts⟩⟩
    · rw [List.map_cons, List.map_cons, hpartition, hpartitions]
    · rw [List.map_cons, List.map_cons, hrange, hranges]
    · have haccepted : merger.Accepts tree segment.partition segment := by
        rw [hpartition]
        refine ⟨⟨contents, ?_, hopen⟩, hcheck⟩
        rw [segmentPath_eq_join]
        exact (Tree.read_join (isName_segmentName partition.index)).mpr ⟨hdirectory, hfile⟩
      obtain ⟨hcells, hsize⟩ := haccepted.sound.layout
      exact ⟨haccepted, Shard.isExact_of_segmentBytes? hcontents hopen hcells hsize⟩

/-- The files hold the segments of all texts, which tile the ids of the texts. -/
theorem exists_holds_of_built {pieces : List (List String)}
    (hcount : pieces.length < 0x100000000) (htotal : pieces.flatten.length < 0x10000000000000000)
    (hbuilt : ∀ partition ∈ Partition.ofItems 0 0 pieces, ∃ encoder contents,
      Shard.segmentBytes? merger.codebook encoder batchSize partition = some contents ∧
        tree.files (Location.ofDirectory merger.directory ++ [segmentName partition.index]) =
          some contents) :
    ∃ segments, merger.Holds tree pieces.length segments ∧
      (∀ segment ∈ segments, segment.IsExact) ∧ totalCount segments = pieces.flatten.length ∧
        checkTiling (segments.map (·.idRange)) (totalCount segments) = .ok () := by
  obtain ⟨segments, hpartitions, hranges, haccepts⟩ := exists_accepted_of_built hcodebook hfields
    hdirectory (fun _ ↦ Partition.fits_of_mem_ofItems hcount htotal) hbuilt
  rw [Partition.map_index_ofItems, ← List.range_eq_range'] at hpartitions
  have hsame := totalCount_of_map_idRange hranges
  refine ⟨segments, ⟨hpartitions, fun segment hsegment ↦ (haccepts segment hsegment).1⟩,
    fun segment hsegment ↦ (haccepts segment hsegment).2, hsame, ?_⟩
  rw [hranges, hsame]
  exact Partition.checkTiling_ofItems htotal

end

end SegmentMerger
end VectorIndex
