import VectorIndex.Proofs.Build.Acceptance
import VectorIndex.Proofs.Store.Atomicity

/-!
# A partition is built whole or not at all

All items of a partition are encoded before its segment is published. So an encoder that fails, or
breaks the contract, on any batch stops the partition with an error that names it while the store
is still as it was, and a segment that is published holds one posting for each item.
-/

namespace VectorIndex

/-! ## Encoding -/

/-- The error says of the partition that its items could not be encoded. -/
def IndexError.NamesPartition (partition : PartitionIndex) : IndexError → Prop
  | shardEncodingFailure index _ => index = partition
  | encodingContractViolation index? _ => index? = some partition
  | _ => False

namespace Encoder

variable {partition : PartitionIndex} {error : IndexError}

theorem namesPartition_of_checkVectors {dimension : Dimension} {position : Nat}
    {vectors : List Vec}
    (herror : checkVectors dimension (some partition) position vectors = .error error) :
    error.NamesPartition partition := by
  induction vectors generalizing position with
  | nil => cases herror
  | cons v rest ih =>
    rw [checkVectors] at herror
    split at herror
    · exact ih herror
    · obtain rfl := Except.error.inj herror
      exact rfl

/-- A batch that is refused is refused for the partition. -/
theorem namesPartition_of_encodeBatch {encoder : Encoder} {batch : List String}
    (herror : encoder.encodeBatch batch (some partition) = .error (.failed error)) :
    error.NamesPartition partition := by
  unfold encodeBatch at herror
  split at herror
  · cases herror
  · cases herror
    exact rfl
  · split at herror
    · cases herror
    · next hcheck =>
      obtain rfl := Interruption.failed.inj (Except.error.inj herror)
      unfold checkBatch at hcheck
      split at hcheck
      · obtain rfl := Except.error.inj hcheck
        exact rfl
      · exact namesPartition_of_checkVectors hcheck

end Encoder

namespace Shard

variable {codebook : Codebook} {encoder : Encoder} {batchSize : Nat} {partition : Partition}

theorem namesPartition_of_encodeBatches {index : PartitionIndex} {next : DocumentId}
    {batches : List (List String)} {error : IndexError}
    (herror : encodeBatches codebook encoder index next batches = .error (.failed error)) :
    error.NamesPartition index := by
  induction batches generalizing next with
  | nil => cases herror
  | cons batch rest ih =>
    rw [encodeBatches] at herror
    split at herror
    · next hbatch =>
      rw [Except.error.inj herror] at hbatch
      exact Encoder.namesPartition_of_encodeBatch hbatch
    · next vectors hbatch =>
      cases hrest : encodeBatches codebook encoder index (next + vectors.length) rest with
      | ok pushes => rw [hrest] at herror; cases herror
      | error interruption =>
        rw [hrest] at herror
        rw [Except.error.inj herror] at hrest
        exact ih hrest

/-- What stops the encoding of a partition names it. -/
theorem namesPartition_of_encode {error : IndexError}
    (herror : encode codebook encoder batchSize partition = .error (.failed error)) :
    error.NamesPartition partition.index := by
  unfold encode at herror
  split at herror
  · obtain rfl := Interruption.failed.inj (Except.error.inj herror)
    exact rfl
  · exact namesPartition_of_encodeBatches herror

/-! ## Publishing -/

/-- Once the items are encoded, the segment is published whole, or a file could not be written and
nothing is left. -/
theorem build_withstands {directory : Path} {pushes : List (CellId × Posting)}
    (hencode : encode codebook encoder batchSize partition = .ok pushes) (may : Action → Bool)
    (start : Tree) :
    (build codebook directory encoder batchSize partition).Withstands
      (.publication may start (segmentPath directory partition.index)
        (draft codebook partition pushes).toBytes)
      (fun result _ final ↦ match result with
        | .ok summary =>
          summary = ⟨partition.index, partition.base, (draft codebook partition pushes).count,
            segmentPath directory partition.index, false⟩ ∧
          start.Publishes final (StagedFile.directoryOf (segmentPath directory partition.index))
            (segmentPath directory partition.index) (draft codebook partition pushes).toBytes
        | .error interruption =>
          (∃ path fault, interruption = .failed (.fileWrite path fault)) ∧
          ((∀ path, may (.remove path) = false) → start.Untouched final
            (StagedFile.directoryOf (segmentPath directory partition.index))))
      false start := by
  have hpublishes := publishPieces_withstands may start (segmentPath directory partition.index)
    [(draft codebook partition pushes).toBytes] none
  rw [List.flatten_singleton] at hpublishes
  have hraises : IndexProgram.Raises (fun error ↦ ∃ path fault, error = .fileWrite path fault)
      (publishFile (segmentPath directory partition.index)
        (draft codebook partition pushes).toBytes) :=
    raises_publishFile (fun path fault ↦ ⟨path, fault, rfl⟩) _ _
  unfold build
  rw [hencode]
  apply StoreProgram.Withstands.bind
  apply IndexProgram.withstands_bind
  apply StoreProgram.Withstands.imp (hpublishes.always hraises)
  rintro result last final ⟨hresult, hwrite⟩
  cases result with
  | error error =>
    obtain ⟨path, fault, rfl⟩ := hwrite error rfl
    exact ⟨⟨path, fault, rfl⟩, hresult⟩
  | ok done => exact ⟨rfl, hresult.2⟩

/-- The published bytes open as a segment that holds the vectors, each under its own id. -/
theorem exists_open_of_publishes {directory : Path} {start final : Tree} {vectors : List Vec}
    (hcentroids : codebook.centroids ≠ []) (hfields : codebook.FitsFields) (hfits : partition.Fits)
    (hlength : vectors.length = partition.items.length) {path : Path}
    (hpublishes : start.Publishes final directory path
      (draft codebook partition (place codebook partition.base vectors)).toBytes) :
    ∃ segment, (Segment.open path).runOn final = (.ok segment, final) ∧
      segment.allPostings.Perm ((vectors.zipIdx partition.base).map fun (v, id) ↦
        ((codebook.encode v).1, ⟨id, (codebook.encode v).2⟩)) := by
  have hfilled := isFilled_draft hlength hcentroids hfits
  obtain ⟨segment, hopen, hreopens⟩ := SegmentDraft.exists_ofBytes_toBytes
    (fitsFields_draft hlength hfields hfits) hfilled path
  refine ⟨segment, Segment.open_ok.mpr ⟨rfl, _, hpublishes.read_eq, hopen⟩, ?_⟩
  rw [← place_eq_map_zipIdx]
  exact hreopens.allPostings_perm hfilled hopen

/-- Whatever the encoder does and whatever fails, a partition that is not built leaves every file as
it was, and its error names it. A partition that is built changes its own segment only, which holds
one posting for each item: of the batches that the encoder embeds, one after the other, the vector
of each item is there under the id of the item. -/
theorem build_all_or_nothing (hcentroids : codebook.centroids ≠ []) (hfields : codebook.FitsFields)
    (hfits : partition.Fits) {may : Action → Bool} (hmay : ∀ path, may (.remove path) = false)
    {directory : Path} {start final : Tree} {history : List Event}
    {result : Except Interruption SegmentSummary}
    (hreaches : (build codebook directory encoder batchSize partition).Reaches may start history
      (.done result) final) :
    (∀ interruption, result = .error interruption →
      start.Untouched final directory ∧ ∀ error, interruption = .failed error →
        error.NamesPartition partition.index ∨ ∃ path fault, error = .fileWrite path fault) ∧
    ∀ summary, result = .ok summary →
      summary = ⟨partition.index, partition.base, partition.items.length,
        segmentPath directory partition.index, false⟩ ∧
      start.Retains final (Location.ofDirectory directory)
        (· = Location.ofDirectory directory ++ [segmentName partition.index]) ∧
      ∃ segment encoded, (Segment.open (segmentPath directory partition.index)).runOn final =
          (.ok segment, final) ∧
        List.Forall₂ encoder.Encodes (chunks batchSize partition.items) encoded ∧
        segment.allPostings.Perm ((encoded.flatten.zipIdx partition.base).map fun (v, id) ↦
          ((codebook.encode v).1, ⟨id, (codebook.encode v).2⟩)) ∧
        (segment.allPostings.map (·.2.id)).Perm
          (List.range' partition.base partition.items.length) := by
  cases hencode : encode codebook encoder batchSize partition with
  | error interruption =>
    unfold build at hreaches
    rw [hencode] at hreaches
    cases hreaches
    refine ⟨?_, nofun⟩
    rintro stopped hstopped
    refine ⟨start.retains_self _ _, fun error herror ↦ .inl ?_⟩
    rw [Except.error.inj hstopped, herror] at hencode
    exact namesPartition_of_encode hencode
  | ok pushes =>
    obtain ⟨-, hlast⟩ :=
      (build_withstands hencode may start).reaches (start.retains_self _ _) hreaches
    have hdirectory := Location.ofDirectory_directoryOf_join directory
      (isName_segmentName partition.index)
    constructor
    · rintro interruption rfl
      obtain ⟨⟨path, fault, rfl⟩, huntouched⟩ := hlast
      refine ⟨?_, fun error herror ↦ .inr ⟨path, fault, (Interruption.failed.inj herror).symm⟩⟩
      unfold Tree.Untouched
      rw [← hdirectory]
      exact huntouched hmay
    · rintro summary rfl
      obtain ⟨rfl, hpublishes⟩ := hlast
      obtain ⟨encoded, hencodes, rfl⟩ := exists_encodes_of_encode hencode
      have hlength : encoded.flatten.length = partition.items.length := by
        rw [Encoder.length_flatten_of_encodes hencodes, flatten_chunks]
      obtain ⟨segment, hopen, hpostings⟩ :=
        exists_open_of_publishes hcentroids hfields hfits hlength hpublishes
      refine ⟨by rw [count_draft hlength], ?_, segment, encoded, hopen, hencodes, hpostings, ?_⟩
      · have hretains := hpublishes.retains
        rw [segmentPath_eq_join, hdirectory] at hretains
        apply hretains.mono
        intro location hlocation
        rw [Location.ofPath_join directory (isName_segmentName partition.index)] at hlocation
        exact (Option.some.inj hlocation).symm
      · rw [← hlength, ← map_id_place codebook, place_eq_map_zipIdx]
        exact hpostings.map _

/-- An encoder that refuses one text. -/
def fussyEncoder : Encoder :=
  ⟨⟨1, Nat.one_pos⟩, fun texts ↦ if "x" ∈ texts then .error (.refused .notFinite)
    else .ok (texts.map fun _ ↦ [.one])⟩

/-- Three items in two batches become three postings, and a batch that is refused after one that is
not leaves the earlier segment of the partition. -/
theorem build_all_or_nothing_small :
    (∃ summary final segment, (build SegmentMerger.smallCodebook "index" fussyEncoder 2
        ⟨0, 5, ["a", "b", "c"]⟩).run SegmentMerger.smallTree = (.ok summary, final) ∧
      (Segment.open "index/segment_0.seg").runOn final = (.ok segment, final) ∧
      (segment.allPostings.map (·.2.id)).Perm [5, 6, 7]) ∧
    SegmentMerger.smallTree.Untouched ((build SegmentMerger.smallCodebook "index" fussyEncoder 1
      ⟨0, 5, ["a", "x"]⟩).run SegmentMerger.smallTree).2 "index" := by
  have hfields : SegmentMerger.smallCodebook.FitsFields :=
    ⟨by decide, by decide, by decide,
      ⟨by decide, by decide, by decide, by decide, by decide⟩, by decide⟩
  constructor
  · obtain ⟨history, hreaches⟩ := StoreProgram.exists_reaches_run (fun _ ↦ false)
      (build SegmentMerger.smallCodebook "index" fussyEncoder 2 ⟨0, 5, ["a", "b", "c"]⟩)
      SegmentMerger.smallTree
    obtain ⟨-, hbuilt⟩ :=
      build_all_or_nothing (by decide) hfields ⟨by decide, by decide⟩ (fun _ ↦ rfl) hreaches
    have hok : ((build SegmentMerger.smallCodebook "index" fussyEncoder 2
        ⟨0, 5, ["a", "b", "c"]⟩).run SegmentMerger.smallTree).1.toOption.isSome = true := by
      decide +kernel
    obtain ⟨summary, hsummary⟩ := Option.isSome_iff_exists.mp hok
    rw [Result.toOption_eq_some] at hsummary
    obtain ⟨-, -, segment, -, hopen, -, -, hids⟩ := hbuilt summary hsummary
    exact ⟨summary, _, segment, Prod.ext hsummary rfl, hopen, hids⟩
  · obtain ⟨history, hreaches⟩ := StoreProgram.exists_reaches_run (fun _ ↦ false)
      (build SegmentMerger.smallCodebook "index" fussyEncoder 1 ⟨0, 5, ["a", "x"]⟩)
      SegmentMerger.smallTree
    obtain ⟨hfailed, -⟩ :=
      build_all_or_nothing (by decide) hfields ⟨by decide, by decide⟩ (fun _ ↦ rfl) hreaches
    have hnone : ((build SegmentMerger.smallCodebook "index" fussyEncoder 1
        ⟨0, 5, ["a", "x"]⟩).run SegmentMerger.smallTree).1.toOption = none := by decide +kernel
    cases hresult : ((build SegmentMerger.smallCodebook "index" fussyEncoder 1
        ⟨0, 5, ["a", "x"]⟩).run SegmentMerger.smallTree).1 with
    | error interruption => exact (hfailed interruption hresult).1
    | ok summary =>
      rw [hresult] at hnone
      cases hnone

end Shard
end VectorIndex
