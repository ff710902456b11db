import Mathlib.Algebra.BigOperators.Ring.List
import Mathlib.Algebra.Order.BigOperators.Group.List
import Mathlib.Algebra.Order.Ring.Nat
import VectorIndex.Proofs.Postings.Metadata
import VectorIndex.Proofs.Postings.Success

/-!
# The merged data

The merged data hold the postings of every segment once, cell after cell and within a cell in the
order of the partitions. The extents say where each cell lies: every offset is the total of the
lengths before it. The lengths total to the number of postings unless the directory of a segment
counts more postings than 64 bits hold.
-/

namespace VectorIndex

namespace SegmentMerger

open IndexProgram (Raises raises_bind raises_check raises_lift raises_ofExcept raises_onFailure
  raises_perform raises_pure raises_throw)
open Metadata (covered)

variable {merger : SegmentMerger} {tree changed : Tree} {segments : List Segment}

/-! ## What the checks of a merge promise -/

/-- A segment that is merged: its directory is in order without an overflow and its layout is that
of the codebook. -/
structure Fits (merger : SegmentMerger) (segment : Segment) : Prop where
  valid : segment.IsValid
  exact : segment.IsExact
  cellCount : segment.cellCount = merger.codebook.cellCount
  codeSize : segment.codeSize = merger.codebook.codeSize
  codes : segment.checkCodes merger.codebook = .ok ()
  ids : segment.checkIds = .ok ()

/-- Some bytes hold the segment, and the merger takes it. -/
structure IsSound (merger : SegmentMerger) (segment : Segment) : Prop where
  read : ∃ path contents, Segment.ofBytes path contents = .ok segment
  taken : merger.checkSegment segment.partition segment = .ok ()

theorem IsSound.layout {segment : Segment} (hsound : merger.IsSound segment) :
    segment.cellCount = merger.codebook.cellCount ∧
      segment.codeSize = merger.codebook.codeSize := by
  obtain ⟨-, hcodebook, -, -⟩ := checkSegment_eq_ok.mp hsound.taken
  exact (Segment.checkCodebook_eq_ok.mp hcodebook).2.2

theorem IsSound.fits {segment : Segment} (hsound : merger.IsSound segment)
    (hexact : segment.IsExact) : merger.Fits segment := by
  obtain ⟨hcells, hsize⟩ := hsound.layout
  obtain ⟨⟨path, contents, hopen⟩, hcheck⟩ := hsound
  obtain ⟨-, -, hids, hcodes⟩ := checkSegment_eq_ok.mp hcheck
  exact ⟨Segment.IsValid.of_ofBytes hopen, hexact, hcells, hsize, hcodes, hids⟩

theorem Accepts.sound {partition : PartitionIndex} {segment : Segment}
    (haccepts : merger.Accepts tree partition segment) : merger.IsSound segment := by
  obtain ⟨⟨contents, -, hopen⟩, hcheck⟩ := haccepts
  obtain rfl := partition_of_checkSegment hcheck
  exact ⟨⟨_, contents, hopen⟩, hcheck⟩

theorem Fits.entrySize {segment : Segment} (hfits : merger.Fits segment) :
    segment.entrySize = Posting.size merger.codebook.codeSize :=
  congrArg Posting.size hfits.codeSize

theorem Fits.size_dvd_cellBytes {segment : Segment} (hfits : merger.Fits segment) (cell : CellId) :
    segment.entrySize ∣ (segment.cellBytes cell).length :=
  hfits.valid.size_dvd_cellBytes hfits.exact cell

/-! ## Cells -/

theorem getElem_mergedCells {cell : CellId} (hcell : cell < (merger.mergedCells segments).length) :
    (merger.mergedCells segments)[cell] = cellBytes segments cell := by
  simp [mergedCells]

theorem length_mergedCells (merger : SegmentMerger) (segments : List Segment) :
    (merger.mergedCells segments).length = merger.codebook.cellCount := by
  simp [mergedCells]

theorem dvd_length_flatMap {α : Type} {size : Nat} {bytes : α → Bytes} {items : List α}
    (hitems : ∀ item ∈ items, size ∣ (bytes item).length) : size ∣ (items.flatMap bytes).length := by
  induction items with
  | nil => simp
  | cons item rest ih =>
    obtain ⟨hitem, hrest⟩ := List.forall_mem_cons.mp hitems
    rw [List.flatMap_cons, List.length_append]
    exact Nat.dvd_add hitem (ih hrest)

/-- Every merged cell is a run of whole postings. -/
theorem dvd_length_of_mem_mergedCells (hfits : ∀ segment ∈ segments, merger.Fits segment)
    {run : Bytes} (hrun : run ∈ merger.mergedCells segments) :
    Posting.size merger.codebook.codeSize ∣ run.length := by
  obtain ⟨cell, -, rfl⟩ := List.mem_map.mp hrun
  apply dvd_length_flatMap
  intro segment hsegment
  rw [← (hfits segment hsegment).entrySize]
  exact (hfits segment hsegment).size_dvd_cellBytes cell

/-- The merged data are the bodies of the segments in another order. -/
theorem flatten_mergedCells_perm (hfits : ∀ segment ∈ segments, merger.Fits segment) :
    (merger.mergedCells segments).flatten.Perm (segments.flatMap (·.body)) := by
  have hbodies : segments.flatMap (·.body) = segments.flatMap fun segment ↦
      (List.range merger.codebook.cellCount).flatMap segment.cellBytes := by
    apply List.flatMap_congr
    intro segment hsegment
    rw [← (hfits segment hsegment).cellCount,
      (hfits segment hsegment).valid.flatMap_cellBytes (hfits segment hsegment).exact]
  rw [hbodies]
  exact flatMap_flatMap_perm segments (List.range merger.codebook.cellCount) Segment.cellBytes

theorem length_flatMap_body (hfits : ∀ segment ∈ segments, merger.Fits segment) :
    (segments.flatMap (·.body)).length =
      totalCount segments * Posting.size merger.codebook.codeSize := by
  induction segments with
  | nil => simp [totalCount]
  | cons segment rest ih =>
    obtain ⟨hsegment, hrest⟩ := List.forall_mem_cons.mp hfits
    calc ((segment :: rest).flatMap (·.body)).length
      _ = segment.body.length + (rest.flatMap (·.body)).length := by
        rw [List.flatMap_cons, List.length_append]
      _ = segment.count * Posting.size merger.codebook.codeSize +
          totalCount rest * Posting.size merger.codebook.codeSize := by
        rw [hsegment.valid.length_body, hsegment.entrySize, ih hrest]
      _ = totalCount (segment :: rest) * Posting.size merger.codebook.codeSize :=
        (Nat.add_mul _ _ _).symm

theorem length_flatten_mergedCells (hfits : ∀ segment ∈ segments, merger.Fits segment) :
    (merger.mergedCells segments).flatten.length =
      totalCount segments * Posting.size merger.codebook.codeSize :=
  (flatten_mergedCells_perm hfits).length_eq.trans (length_flatMap_body hfits)

/-! ## Extents -/

theorem length_extentsFrom (offset : Nat) (lengths : List Nat) :
    (extentsFrom offset lengths).length = lengths.length := by
  induction lengths generalizing offset with
  | nil => rfl
  | cons length rest ih => rw [extentsFrom, List.length_cons, ih, List.length_cons]

/-- An offset is the total of the lengths before it. -/
theorem offset_extentsFrom (start : Nat) (lengths : List Nat) {cell : CellId}
    (hcell : cell < (extentsFrom start lengths).length) :
    (extentsFrom start lengths)[cell].offset =
      start + covered ((extentsFrom start lengths).take cell) := by
  induction lengths generalizing start cell with
  | nil => cases hcell
  | cons length rest ih =>
    cases cell with
    | zero => rfl
    | succ cell =>
      simp only [extentsFrom, List.getElem_cons_succ, List.take_succ_cons, covered]
      rw [ih, Nat.add_assoc]

/-- Extents of runs of whole postings cover as many postings as there are. -/
theorem covered_extentsFrom {size : Nat} {runs : List Bytes}
    (hruns : ∀ run ∈ runs, size ∣ run.length) (start : Nat) :
    covered (extentsFrom start (runs.map fun run ↦ run.length / size)) * size =
      runs.flatten.length := by
  induction runs generalizing start with
  | nil => simp [extentsFrom, covered]
  | cons run rest ih =>
    obtain ⟨hrun, hrest⟩ := List.forall_mem_cons.mp hruns
    have hsplit : (run.length / size + covered (extentsFrom (start + run.length / size)
        (rest.map fun run ↦ run.length / size))) * size =
        run.length + rest.flatten.length := by
      rw [Nat.add_mul, ih hrest, Nat.div_mul_cancel hrun]
    rw [List.map_cons, extentsFrom, covered, hsplit, List.flatten_cons, List.length_append]

theorem getElem_extentsFrom_length {start : Nat} {lengths : List Nat} {cell : CellId}
    (hcell : cell < (extentsFrom start lengths).length) (hlength : cell < lengths.length) :
    (extentsFrom start lengths)[cell].length = lengths[cell] := by
  induction lengths generalizing start cell with
  | nil => cases hcell
  | cons length rest ih =>
    cases cell with
    | zero => rfl
    | succ cell => exact ih _ _

theorem take_extentsFrom (start : Nat) (lengths : List Nat) (cell : CellId) :
    (extentsFrom start lengths).take cell = extentsFrom start (lengths.take cell) := by
  induction lengths generalizing start cell with
  | nil => simp [extentsFrom]
  | cons length rest ih =>
    cases cell with
    | zero => rfl
    | succ cell => simp only [extentsFrom, List.take_succ_cons, ih]

/-- The run of a cell lies in the joined runs where the extent of the cell says. -/
theorem slice_extentsFrom {size : Nat} {runs : List Bytes}
    (hruns : ∀ run ∈ runs, size ∣ run.length) {cell : CellId} (hcell : cell < runs.length)
    (hextent : cell < (extentsFrom 0 (runs.map fun run ↦ run.length / size)).length) :
    (runs.flatten.drop
      ((extentsFrom 0 (runs.map fun run ↦ run.length / size))[cell].offset * size)).take
        ((extentsFrom 0 (runs.map fun run ↦ run.length / size))[cell].length * size) =
      runs[cell] := by
  have hbefore : ∀ run ∈ runs.take cell, size ∣ run.length :=
    fun run hrun ↦ hruns run (List.mem_of_mem_take hrun)
  rw [offset_extentsFrom, Nat.zero_add, take_extentsFrom, ← List.map_take,
    covered_extentsFrom hbefore, getElem_extentsFrom_length hextent (by simpa using hcell),
    List.getElem_map, Nat.div_mul_cancel (hruns _ (List.getElem_mem hcell))]
  exact slice_flatten runs hcell

/-! ## The metadata that describe the merged data -/

theorem length_cells_describe (merger : SegmentMerger) (segments : List Segment)
    (createdAt : String) :
    (merger.describe segments (merger.mergedCells segments) createdAt).cells.length =
      merger.codebook.cellCount := by
  unfold describe
  rw [length_extentsFrom, List.length_map, List.length_range]

/-- The whole postings of a cell in all segments are those of its merged bytes. -/
theorem cellLength_eq (hfits : ∀ segment ∈ segments, merger.Fits segment) (cell : CellId) :
    cellLength segments cell =
      (cellBytes segments cell).length / Posting.size merger.codebook.codeSize := by
  induction segments with
  | nil => simp [cellLength, cellBytes]
  | cons segment rest ih =>
    obtain ⟨hsegment, hrest⟩ := List.forall_mem_cons.mp hfits
    obtain ⟨count, hcount⟩ := hsegment.size_dvd_cellBytes cell
    have hlater := ih hrest
    have hsize := Posting.size_pos merger.codebook.codeSize
    unfold cellBytes at hlater ⊢
    rw [hsegment.entrySize] at hcount
    rw [cellLength, hlater, List.flatMap_cons, List.length_append, hsegment.entrySize, hcount,
      Nat.mul_div_cancel_left _ hsize, Nat.mul_add_div hsize]

theorem cells_describe (hfits : ∀ segment ∈ segments, merger.Fits segment) (createdAt : String) :
    (merger.describe segments (merger.mergedCells segments) createdAt).cells =
      extentsFrom 0 ((merger.mergedCells segments).map fun run ↦
        run.length / Posting.size merger.codebook.codeSize) := by
  unfold describe mergedCells
  rw [List.map_map]
  exact congrArg (extentsFrom 0) (List.map_congr_left fun cell _ ↦ cellLength_eq hfits cell)

theorem covered_describe (hfits : ∀ segment ∈ segments, merger.Fits segment)
    (createdAt : String) :
    covered (merger.describe segments (merger.mergedCells segments) createdAt).cells =
      totalCount segments := by
  have hruns : ∀ run ∈ merger.mergedCells segments,
      Posting.size merger.codebook.codeSize ∣ run.length :=
    fun run hrun ↦ dvd_length_of_mem_mergedCells hfits hrun
  apply Nat.eq_of_mul_eq_mul_right (Posting.size_pos merger.codebook.codeSize)
  rw [← length_flatten_mergedCells hfits, cells_describe hfits]
  exact covered_extentsFrom hruns 0

theorem covered_extentsFrom_eq_sum (start : Nat) (lengths : List Nat) :
    covered (extentsFrom start lengths) = lengths.sum := by
  induction lengths generalizing start with
  | nil => rfl
  | cons length rest ih => rw [extentsFrom, covered, ih, List.sum_cons]

section

variable {size : Nat} (hsize : ∀ segment ∈ segments, segment.entrySize = size)
include hsize

theorem cellLength_mul_eq_sum (cell : CellId) : cellLength segments cell * size =
    (segments.map fun segment ↦ (segment.cellBytes cell).length / size * size).sum := by
  induction segments with
  | nil => exact Nat.zero_mul size
  | cons segment rest ih =>
    obtain ⟨hsegment, hrest⟩ := List.forall_mem_cons.mp hsize
    rw [cellLength, Nat.add_mul, ih hrest, hsegment, List.map_cons, List.sum_cons]

/-- The whole postings of a cell take no more than its merged bytes. -/
theorem cellLength_mul_le (cell : CellId) :
    cellLength segments cell * size ≤ (cellBytes segments cell).length := by
  rw [cellLength_mul_eq_sum hsize, cellBytes, List.length_flatMap]
  exact List.sum_le_sum fun segment _ ↦ Nat.div_mul_le_self _ _

end

theorem IsSound.entrySize {segment : Segment} (hsound : merger.IsSound segment) :
    segment.entrySize = Posting.size merger.codebook.codeSize :=
  congrArg Posting.size hsound.layout.2

theorem covered_describe_mul (merger : SegmentMerger) (segments : List Segment)
    (createdAt : String) (size : Nat) :
    covered (merger.describe segments (merger.mergedCells segments) createdAt).cells * size =
      ((List.range merger.codebook.cellCount).map fun cell ↦
        cellLength segments cell * size).sum := by
  rw [List.sum_map_mul_right, ← covered_extentsFrom_eq_sum 0]
  rfl

/-- The extents of any segments of the codebook's layout cover no more postings than the merged data
have room for. -/
theorem covered_describe_le (hsound : ∀ segment ∈ segments, merger.IsSound segment)
    (createdAt : String) :
    covered (merger.describe segments (merger.mergedCells segments) createdAt).cells *
      Posting.size merger.codebook.codeSize ≤ (merger.mergedCells segments).flatten.length := by
  rw [covered_describe_mul, mergedCells, List.length_flatten, List.map_map]
  exact List.sum_le_sum fun cell _ ↦
    cellLength_mul_le (fun segment hsegment ↦ (hsound segment hsegment).entrySize) cell

/-- Where an extent says lie the postings of its cell. -/
theorem slice_describe (hfits : ∀ segment ∈ segments, merger.Fits segment) (createdAt : String)
    {cell : CellId}
    (hcell : cell <
      (merger.describe segments (merger.mergedCells segments) createdAt).cells.length) :
    ((merger.mergedCells segments).flatten.drop
      ((merger.describe segments (merger.mergedCells segments) createdAt).cells[cell].offset *
        Posting.size merger.codebook.codeSize)).take
      ((merger.describe segments (merger.mergedCells segments) createdAt).cells[cell].length *
        Posting.size merger.codebook.codeSize) = cellBytes segments cell := by
  have hruns : ∀ run ∈ merger.mergedCells segments,
      Posting.size merger.codebook.codeSize ∣ run.length :=
    fun run hrun ↦ dvd_length_of_mem_mergedCells hfits hrun
  have hlength : cell < (merger.mergedCells segments).length := by
    rwa [length_mergedCells, ← length_cells_describe merger segments createdAt]
  simp only [cells_describe hfits] at hcell ⊢
  rw [← getElem_mergedCells hlength]
  exact slice_extentsFrom hruns hlength hcell

/-! ## Errors of a merge -/

/-- What can go wrong once the order of a merge is accepted. A crash is one over a cell that does not
lie within its file. -/
inductive IsMergeError : IndexError → Prop where
  | missing (partition : PartitionIndex) (path : Path) :
    IsMergeError (.mergeMissingSegment partition path)
  | corrupt (path : Path) (reason : String) : IsMergeError (.indexCorrupt path reason)
  | read (path : Path) (fault : StoreFault) : IsMergeError (.fileRead path fault)
  | write (path : Path) (fault : StoreFault) : IsMergeError (.fileWrite path fault)
  | panicked : IsMergeError .panicked

theorem isMergeError_of_checkAll {α : Type} {test : α → Except IndexError Unit}
    (htest : ∀ value error, test value = .error error → IsMergeError error) {values : List α}
    {error : IndexError} (herror : Segment.checkAll test values = .error error) :
    IsMergeError error := by
  induction values with
  | nil => cases herror
  | cons value rest ih =>
    rw [Segment.checkAll] at herror
    cases hvalue : test value with
    | ok done =>
      rw [hvalue] at herror
      exact ih herror
    | error cause =>
      rw [hvalue] at herror
      exact Except.error.inj herror ▸ htest value cause hvalue

theorem isMergeError_of_checkCells {segment : Segment}
    {test : CellId → Posting → Except IndexError Unit}
    (htest : ∀ cell posting error, test cell posting = .error error → IsMergeError error)
    {cells : List CellId} {error : IndexError}
    (herror : segment.checkCells test cells = .error error) : IsMergeError error := by
  induction cells with
  | nil => cases herror
  | cons cell rest ih =>
    rw [Segment.checkCells] at herror
    split at herror
    · exact Except.error.inj herror ▸ .panicked
    · split at herror
      · exact ih herror
      · next hcause =>
        exact Except.error.inj herror ▸ isMergeError_of_checkAll (htest cell) hcause

theorem isMergeError_of_checkSegment {partition : PartitionIndex} {segment : Segment}
    {error : IndexError} (herror : merger.checkSegment partition segment = .error error) :
    IsMergeError error := by
  unfold checkSegment at herror
  rcases Result.guard_error.mp herror with ⟨-, rfl⟩ | ⟨-, herror⟩
  · exact .corrupt _ _
  rcases Result.bind_error.mp herror with hcodebook | ⟨_, -, herror⟩
  · unfold Segment.checkCodebook at hcodebook
    split at hcodebook
    · exact Except.error.inj hcodebook ▸ .corrupt _ _
    · split at hcodebook
      · exact Except.error.inj hcodebook ▸ .corrupt _ _
      · cases hcodebook
  rcases Result.bind_error.mp herror with hids | ⟨_, -, hcodes⟩
  · refine isMergeError_of_checkCells (fun cell posting cause hcause ↦ ?_) hids
    split at hcause
    · cases hcause
    · exact Except.error.inj hcause ▸ .corrupt _ _
  · refine isMergeError_of_checkCells (fun cell posting cause hcause ↦ ?_) hcodes
    obtain ⟨fault, -, rfl⟩ := Result.mapError_error.mp hcause
    exact .corrupt _ _

theorem raises_requireSegments (merger : SegmentMerger) (order : List PartitionIndex) :
    Raises IsMergeError (merger.requireSegments order) := by
  induction order with
  | nil => exact raises_pure ()
  | cons partition rest ih =>
    unfold requireSegments
    refine raises_bind (raises_lift _) fun present ↦ ?_
    cases present with
    | true => exact ih
    | false => exact raises_throw (.missing _ _)

theorem raises_open (path : Path) : Raises IsMergeError (Segment.open path) := by
  unfold Segment.open
  refine raises_bind (raises_perform _) fun answer ↦ ?_
  refine raises_bind (raises_check (.read path) answer) fun source ↦ ?_
  split
  · exact raises_throw (.read _ _)
  · refine raises_ofExcept fun error herror ↦ ?_
    obtain ⟨reason, -, rfl⟩ := Result.mapError_error.mp herror
    exact .corrupt _ _

theorem raises_openSegments (merger : SegmentMerger) (order : List PartitionIndex) :
    Raises IsMergeError (merger.openSegments order) := by
  induction order with
  | nil => exact raises_pure []
  | cons partition rest ih =>
    unfold openSegments
    refine raises_bind (raises_open _) fun segment ↦ ?_
    refine raises_bind (raises_ofExcept fun _ ↦ isMergeError_of_checkSegment) fun _ ↦ ?_
    exact raises_bind ih fun segments ↦ raises_pure _

/-- Merging segments fails when they do not tile the ids, and else only when a file cannot be
written. -/
theorem raises_mergeSegments {errors : IndexError → Prop}
    (hwrite : ∀ path fault, errors (.fileWrite path fault)) (merger : SegmentMerger)
    {segments : List Segment}
    (htiling : ∀ fault, checkTiling (segments.map (·.idRange)) (totalCount segments) =
      .error fault → errors (.indexCorrupt merger.directory fault.message)) :
    Raises errors (merger.mergeSegments segments) := by
  have hmetadata : ∀ metadata, Raises errors (merger.stageMetadata metadata) := by
    intro metadata
    refine raises_bind (StagedFile.raises_create hwrite _) fun staged ↦ ?_
    refine raises_bind (raises_onFailure (StagedFile.raises_append hwrite _ _ _) _) fun _ ↦ ?_
    exact raises_pure staged
  have hmerge : ∀ staged, Raises errors (merger.stageMerge segments staged) := by
    intro staged
    refine raises_bind (raises_perform _) fun moment ↦ ?_
    refine raises_bind (StagedFile.raises_append hwrite _ _ _) fun _ ↦ ?_
    refine raises_bind (raises_lift _) fun previous ↦ ?_
    exact raises_bind (hmetadata _) fun stagedMetadata ↦ raises_pure _
  have hpublish : ∀ data name metadata, Raises errors (publish data name metadata) := by
    intro data name metadata
    refine raises_bind (raises_onFailure (StagedFile.raises_persist hwrite _ _) _) fun _ ↦ ?_
    exact StagedFile.raises_commit hwrite metadata
  unfold mergeSegments
  refine raises_bind (raises_ofExcept fun error herror ↦ ?_) fun _ ↦ ?_
  · obtain ⟨fault, hfault, rfl⟩ := Result.mapError_error.mp herror
    exact htiling fault hfault
  refine raises_bind (StagedFile.raises_createIn hwrite _) fun staged ↦ ?_
  refine raises_bind (raises_onFailure (hmerge staged) _) fun written ↦ ?_
  refine raises_bind (hpublish _ _ _) fun _ ↦ ?_
  exact raises_bind (raises_lift _) fun _ ↦ raises_pure _

/-- What goes wrong in a merge is an order that is refused, or a segment or a file. -/
theorem error_of_mergeInOrder {order : List PartitionIndex} {error : IndexError}
    (herror : ((merger.mergeInOrder order).runOn tree).1 = .error error) :
    IsMergeError error ∨ checkOrder order = .error error := by
  unfold mergeInOrder at herror
  cases hcheck : checkOrder order with
  | error refused =>
    rw [hcheck] at herror
    exact .inr (congrArg Except.error (Except.error.inj herror))
  | ok done =>
    have hraises : Raises IsMergeError (do
        merger.requireSegments order
        let segments ← merger.openSegments order
        merger.mergeSegments (segments.mergeSort fun a b ↦ a.partition ≤ b.partition)) := by
      refine raises_bind (merger.raises_requireSegments order) fun _ ↦ ?_
      refine raises_bind (merger.raises_openSegments order) fun segments ↦ ?_
      exact merger.raises_mergeSegments .write fun fault _ ↦ .corrupt _ _
    rw [hcheck] at herror
    exact .inl (hraises.runOn herror)

theorem Holds.sound {count : Nat} (hholds : merger.Holds tree count segments) :
    ∀ segment ∈ segments, merger.IsSound segment :=
  fun segment hsegment ↦ (hholds.accepts segment hsegment).sound

theorem Holds.fits {count : Nat} (hholds : merger.Holds tree count segments)
    (hexact : ∀ segment ∈ segments, segment.IsExact) : ∀ segment ∈ segments, merger.Fits segment :=
  fun segment hsegment ↦ (hholds.sound segment hsegment).fits (hexact segment hsegment)

theorem Holds.open_eq {count : Nat} (hholds : merger.Holds tree count segments) {segment : Segment}
    (hsegment : segment ∈ segments) :
    (Segment.open (segmentPath merger.directory segment.partition)).runOn tree =
      (.ok segment, tree) :=
  Segment.open_ok.mpr ⟨rfl, (hholds.accepts segment hsegment).1⟩

theorem Publishes.read_data {before after : Tree} {data : Bytes} {metadata : Metadata}
    (hpublishes : merger.Publishes before after data metadata)
    (hname : Path.IsName metadata.dataFile) :
    after.read (Path.join merger.directory metadata.dataFile) = .ok data :=
  (Tree.read_join hname).mpr ⟨hpublishes.directory, hpublishes.data_eq⟩

theorem Publishes.read_metadata {before after : Tree} {data : Bytes} {metadata : Metadata}
    (hpublishes : merger.Publishes before after data metadata) :
    after.read merger.metadataPath = .ok metadata.toBytes :=
  (Tree.read_join Metadata.isName_fileName).mpr ⟨hpublishes.directory, hpublishes.metadata_eq⟩

/-- Every cell of a segment that a merge takes has been looked into. -/
theorem Holds.cellSlice?_eq {count : Nat} (hholds : merger.Holds tree count segments)
    {segment : Segment} (hsegment : segment ∈ segments) {cell : CellId}
    (hcell : cell < merger.codebook.cellCount) :
    segment.cellSlice? cell = some (segment.cellBytes cell) := by
  obtain ⟨-, -, -, hcodes⟩ := checkSegment_eq_ok.mp (hholds.accepts segment hsegment).2
  obtain ⟨hcells, -⟩ := (hholds.sound segment hsegment).layout
  obtain ⟨bytes, hbytes⟩ :=
    Option.isSome_iff_exists.mp (Segment.checkCodes_eq_ok.mp hcodes cell (hcells ▸ hcell)).1
  rw [Segment.cellBytes, hbytes, Option.getD_some]

/-- Two cells of one dimension, and two codewords. -/
def smallCodebook : Codebook :=
  let one : Binary32 := ⟨0x3f800000⟩
  let centroids : List Vec := [[one], [⟨0xbf800000⟩]]
  let quantizer : Quantizer := ⟨1, 1, 1, 1, [[[⟨0⟩], [one]]]⟩
  let params : TrainingParams := ⟨2, 1, 1, 7, 2⟩
  ⟨1, centroids, quantizer, params, .of (Codebook.pack centroids quantizer params)⟩

/-- A codebook, and a segment with a posting in each cell. -/
def smallTree : Tree :=
  let draft := ((SegmentDraft.start 0 0 smallCodebook).push 1 ⟨0, [1]⟩).push 0 ⟨1, [0]⟩
  ⟨[(["index"], .directory), (["index", "segment_0.seg"], .file draft.toBytes 0),
    (["index", "trained.index"], .file smallCodebook.toBytes 0)], 0⟩

theorem hosts_small : smallTree.Hosts "index" :=
  Tree.hosts_of_entries (by decide)

/-- A posting in each cell for either of two partitions. -/
def pairedDraft : PartitionIndex → SegmentDraft
  | 0 => ((SegmentDraft.start 0 0 smallCodebook).push 1 ⟨0, [1]⟩).push 0 ⟨1, [0]⟩
  | partition => ((SegmentDraft.start partition 2 smallCodebook).push 0 ⟨2, [1]⟩).push 1 ⟨3, [0]⟩

def pairedSegment (partition : PartitionIndex) : Segment :=
  .fromBytes (segmentPath "index" partition) (pairedDraft partition).toBytes

theorem accepts_paired {partition : PartitionIndex} (hpartition : partition < 2)
    (hread : tree.read (segmentPath "index" partition) = .ok (pairedDraft partition).toBytes) :
    Accepts ⟨"index", smallCodebook⟩ tree partition (pairedSegment partition) := by
  have hchecks : ∀ partition < 2,
      (Segment.ofBytes (segmentPath "index" partition) (pairedDraft partition).toBytes).isOk = true ∧
      (checkSegment ⟨"index", smallCodebook⟩ partition (pairedSegment partition)).isOk = true := by
    decide +kernel
  obtain ⟨hopen, htaken⟩ := hchecks partition hpartition
  exact accepts_of_isOk hread hopen htaken

theorem exists_small_merge : ∃ metadata changed,
    (mergeInOrder ⟨"index", smallCodebook⟩ [0]).runOn smallTree = (.ok metadata, changed) ∧
      metadata.vectorCount = 2 := by
  have hholds : Holds ⟨"index", smallCodebook⟩ smallTree 1 [pairedSegment 0] :=
    ⟨by decide, List.forall_mem_singleton.mpr (accepts_paired (by decide) rfl)⟩
  have htiling : checkTiling ([pairedSegment 0].map (·.idRange))
      (totalCount [pairedSegment 0]) = .ok () := by
    rw [List.map_singleton, IdRange.checkTiling_of_sorted (List.pairwise_singleton _ _)]
    exact Result.isOk_iff.mp (by decide)
  obtain ⟨createdAt, changed, hmerge, -⟩ :=
    exists_merge_of_holds hosts_small (List.Perm.refl [0]) hholds htiling
  exact ⟨_, changed, hmerge, rfl⟩

/-- A segment of one posting whose directory counts this many in each of its two cells. -/
def wrappingContents (first second : Nat) : Bytes :=
  let draft := (SegmentDraft.start 0 0 smallCodebook).push 0 ⟨0, [0]⟩
  let directory := [0, first, first, second].flatMap (Bytes.littleEndian 8)
  draft.toBytes.take 72 ++ directory ++ draft.toBytes.drop 104

def wrappingTree (first second : Nat) : Tree :=
  ⟨[(["index"], .directory), (["index", "segment_0.seg"], .file (wrappingContents first second) 0),
    (["index", "trained.index"], .file smallCodebook.toBytes 0)], 0⟩

/-- The segment is merged, and its one vector is in no extent. -/
theorem exists_wrapping_merge : ∃ metadata changed,
    (mergeInOrder ⟨"index", smallCodebook⟩ [0]).runOn
        (wrappingTree 14347467612885206813 4099276460824344804) = (.ok metadata, changed) ∧
      metadata.vectorCount = 1 ∧ covered metadata.cells = 0 := by
  have hhosts : (wrappingTree 14347467612885206813 4099276460824344804).Hosts
      (mk "index" smallCodebook).directory :=
    Tree.hosts_of_entries (by decide +kernel)
  obtain ⟨createdAt, changed, hmerge, -⟩ := exists_sole_merge hhosts rfl (by decide +kernel)
    (by decide +kernel) (by decide +kernel)
  have hcovered : covered (extentsFrom 0 ((List.range smallCodebook.cellCount).map
      (cellLength [.fromBytes (segmentPath "index" 0)
        (wrappingContents 14347467612885206813 4099276460824344804)]))) = 0 := by
    decide +kernel
  exact ⟨_, changed, hmerge, rfl, hcovered⟩

end SegmentMerger
end VectorIndex
