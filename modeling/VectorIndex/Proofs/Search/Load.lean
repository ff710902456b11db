import VectorIndex.Proofs.Codebook.File
import VectorIndex.Proofs.Postings.Ids
import VectorIndex.Proofs.Postings.Metadata
import VectorIndex.Search.Engine

/-!
# What is merged can be loaded

The metadata of a merge pass every check of the loader, and so do the data that they describe. An
engine loaded after a merge has the metadata that the merge gave, and scans for each cell the
postings of the segments in the order of their partitions.
-/

namespace VectorIndex

namespace QueryEngine

open IndexProgram (runOn_bind runOn_bind_ok runOn_adapt runOn_ofExcept_ok runOn_pure_ok)

/-! ## The checks of the loader -/

theorem checkCodebook_eq_ok {metadata : Metadata} {codebook : Codebook} :
    checkCodebook metadata codebook = .ok () ↔
      codebook.fingerprint = metadata.fingerprint ∧ codebook.dimension = metadata.dimension ∧
        codebook.cellCount = metadata.cellCount ∧ codebook.codeSize = metadata.codeSize := by
  unfold checkCodebook
  by_cases hfingerprint : codebook.fingerprint = metadata.fingerprint
  · rw [if_neg (not_not_intro hfingerprint)]
    by_cases hshape : codebook.dimension = metadata.dimension ∧
        codebook.cellCount = metadata.cellCount ∧ codebook.codeSize = metadata.codeSize
    · rw [if_neg (by simpa using hshape)]
      exact iff_of_true rfl ⟨hfingerprint, hshape⟩
    · rw [if_pos (by simpa only [ne_eq, ← Decidable.not_and_iff_not_or_not] using hshape)]
      exact iff_of_false (by simp) fun hsame ↦ hshape hsame.2
  · rw [if_pos hfingerprint]
    exact iff_of_false (by simp) fun hsame ↦ hfingerprint hsame.1

theorem checkData_eq_ok {metadata : Metadata} {data : Bytes} :
    checkData metadata data = .ok () ↔
      data.length = place data.length metadata.dataLength ∧
        Fingerprint.of data = metadata.checksum := by
  unfold checkData
  dsimp only
  rw [Result.guard_ok, Decidable.not_not]
  apply and_congr_right'
  by_cases hchecksum : Fingerprint.of data = metadata.checksum
  · simp only [hchecksum, ne_eq, not_true_eq_false, if_false, iff_true]
    rfl
  · simp only [hchecksum, ne_eq, not_false_eq_true, if_true, iff_false]
    exact nofun

theorem checkCodes_eq_ok {quantizer : Quantizer} {postings : List Posting} {position : Nat} :
    checkCodes quantizer position postings = .ok () ↔
      ∀ posting ∈ postings, quantizer.checkCode posting.code = .ok () := by
  induction postings generalizing position with
  | nil => exact iff_of_true rfl nofun
  | cons posting postings ih =>
    rw [checkCodes, List.forall_mem_cons]
    cases quantizer.checkCode posting.code with
    | ok done => simpa using ih
    | error fault => simp

/-- The data file is read when it holds vectors and has the described length and digest. -/
theorem readData_ok {path : Path} {metadata : Metadata} {tree changed : Tree} {data : Bytes} :
    (readData path metadata).runOn tree = (.ok data, changed) ↔
      changed = tree ∧ metadata.vectorCount ≠ 0 ∧ tree.read path = .ok data ∧
        checkData metadata data = .ok () := by
  unfold readData
  by_cases hvectors : metadata.vectorCount = 0
  · simp [hvectors]
  · simp only [hvectors, if_false]
    rw [runOn_bind, IndexProgram.runOn_perform, Tree.answer_fetch]
    unfold Tree.read
    cases tree.lookup path with
    | error fault => simp [runOn_bind]
    | ok entry =>
      cases entry with
      | directory =>
        generalize place directorySize metadata.dataLength = described
        by_cases hsize : directorySize = described
        · simp [runOn_bind, hsize]
        · simp [runOn_bind, hsize]
      | file contents modified =>
        show (IndexProgram.ofExcept ((checkData metadata contents).mapError
          (IndexError.indexCorrupt path)) >>= fun _ ↦ pure contents).runOn tree = _ ↔ _
        constructor
        · intro hrun
          obtain ⟨_, _, hcheck, hpure⟩ := runOn_bind_ok.mp hrun
          obtain ⟨hchecked, rfl⟩ := runOn_ofExcept_ok.mp hcheck
          obtain ⟨rfl, rfl⟩ := runOn_pure_ok.mp hpure
          exact ⟨rfl, hvectors, rfl, Result.mapError_ok.mp hchecked⟩
        · rintro ⟨rfl, -, hread, hcheck⟩
          obtain rfl := Except.ok.inj hread
          refine runOn_bind_ok.mpr ⟨(), _, runOn_ofExcept_ok.mpr ⟨?_, rfl⟩, rfl⟩
          exact Result.mapError_ok.mpr hcheck

/-- A program whose errors are renamed succeeds as the program does. -/
theorem runOn_adapt_ok {α : Type} {wrap : IndexError → IndexError} {program : IndexProgram α}
    {value : α} {tree changed : Tree} :
    IndexProgram.runOn (ExceptT.adapt wrap program) tree = (.ok value, changed) ↔
      program.runOn tree = (.ok value, changed) := by
  rw [runOn_adapt, Prod.ext_iff, Prod.ext_iff]
  simp only [Result.mapError_ok]

/-- An engine holds what the files of its directory hold, and that passes every check. -/
structure Verified (tree : Tree) (engine : QueryEngine) : Prop where
  metadata : (Metadata.load (Path.join engine.root Metadata.fileName)).runOn tree =
    (.ok engine.metadata, tree)
  valid : engine.metadata.validate = .ok ()
  codebook : (Codebook.load (Path.join engine.root Layout.codebookFile)).runOn tree =
    (.ok engine.codebook, tree)
  agrees : checkCodebook engine.metadata engine.codebook = .ok ()
  data : (readData (Path.join engine.root engine.metadata.dataFile) engine.metadata).runOn tree =
    (.ok engine.data, tree)
  codes : checkCodes engine.codebook.quantizer 0
    (Posting.split engine.metadata.codeSize engine.data) = .ok ()

/-- Loading gives the verified engine of a directory and leaves the tree. -/
theorem load_ok {directory : Path} {probes : Nat} {tree changed : Tree} {engine : QueryEngine} :
    (load directory probes).runOn tree = (.ok engine, changed) ↔
      changed = tree ∧ engine.root = directory ∧ engine.probes = max probes 1 ∧
        engine.Verified tree := by
  unfold load
  constructor
  · intro hrun
    obtain ⟨metadata, first, hmetadata, hrun₁⟩ := runOn_bind_ok.mp hrun
    obtain ⟨_, second, hvalid, hrun₂⟩ := runOn_bind_ok.mp hrun₁
    obtain ⟨codebook, third, hcodebook, hrun₃⟩ := runOn_bind_ok.mp hrun₂
    obtain ⟨_, fourth, hagrees, hrun₄⟩ := runOn_bind_ok.mp hrun₃
    obtain ⟨data, fifth, hdata, hrun₅⟩ := runOn_bind_ok.mp hrun₄
    obtain ⟨_, sixth, hcodes, hrun₆⟩ := runOn_bind_ok.mp hrun₅
    rw [runOn_adapt_ok] at hmetadata hcodebook
    rw [runOn_ofExcept_ok, Result.mapError_ok] at hvalid hagrees hcodes
    obtain rfl : tree = first := (Prod.mk.inj ((Metadata.runOn_load ..).symm.trans hmetadata)).2
    obtain ⟨hvalid, rfl⟩ := hvalid
    obtain ⟨rfl, hcodebook'⟩ := Codebook.load_ok.mp hcodebook
    obtain ⟨hagrees, rfl⟩ := hagrees
    obtain ⟨rfl, hdata'⟩ := readData_ok.mp hdata
    obtain ⟨hcodes, rfl⟩ := hcodes
    obtain ⟨rfl, rfl⟩ := runOn_pure_ok.mp hrun₆
    exact ⟨rfl, rfl, rfl, hmetadata, hvalid, hcodebook, hagrees, hdata, hcodes⟩
  · obtain ⟨root, metadata, codebook, data, count⟩ := engine
    rintro ⟨rfl, rfl, rfl, hverified⟩
    refine runOn_bind_ok.mpr ⟨_, _, runOn_adapt_ok.mpr hverified.metadata, ?_⟩
    refine runOn_bind_ok.mpr ⟨(), _, runOn_ofExcept_ok.mpr ⟨?_, rfl⟩, ?_⟩
    · exact Result.mapError_ok.mpr hverified.valid
    refine runOn_bind_ok.mpr ⟨_, _, runOn_adapt_ok.mpr hverified.codebook, ?_⟩
    refine runOn_bind_ok.mpr ⟨(), _, runOn_ofExcept_ok.mpr ⟨?_, rfl⟩, ?_⟩
    · exact Result.mapError_ok.mpr hverified.agrees
    refine runOn_bind_ok.mpr ⟨_, _, hverified.data, ?_⟩
    refine runOn_bind_ok.mpr ⟨(), _, runOn_ofExcept_ok.mpr ⟨?_, rfl⟩, rfl⟩
    exact Result.mapError_ok.mpr hverified.codes

/-- Metadata and codebook are what the files of the directory hold, and they pass the checks that
come before the data are read. -/
structure Described (tree : Tree) (directory : Path) (metadata : Metadata) (codebook : Codebook) :
    Prop where
  load_metadata : (Metadata.load (Path.join directory Metadata.fileName)).runOn tree =
    (.ok metadata, tree)
  valid : metadata.validate = .ok ()
  load_codebook : (Codebook.load (Path.join directory Layout.codebookFile)).runOn tree =
    (.ok codebook, tree)
  agrees : checkCodebook metadata codebook = .ok ()

/-- Loading ends before the data are read when metadata count no vectors. -/
theorem load_of_no_vectors {directory : Path} {tree : Tree} {metadata : Metadata}
    {codebook : Codebook} (hdescribed : Described tree directory metadata codebook)
    (hvectors : metadata.vectorCount = 0) (probes : Nat) :
    (load directory probes).runOn tree = (.error (.indexCorrupt
      (Path.join directory metadata.dataFile) "index holds no vectors"), tree) := by
  have hmetadata : IndexProgram.runOn (ExceptT.adapt (asCorrupt (Layout.metadata ⟨directory⟩))
      (Metadata.load (Layout.metadata ⟨directory⟩))) tree = (.ok metadata, tree) :=
    runOn_adapt_ok.mpr hdescribed.load_metadata
  have hcodebook : IndexProgram.runOn (ExceptT.adapt (asCorrupt (Layout.codebook ⟨directory⟩))
      (Codebook.load (Layout.codebook ⟨directory⟩))) tree = (.ok codebook, tree) :=
    runOn_adapt_ok.mpr hdescribed.load_codebook
  unfold load
  rw [runOn_bind, hmetadata]
  dsimp only
  rw [hdescribed.valid, runOn_bind, IndexProgram.runOn_ofExcept]
  dsimp only [Result.ok_mapError]
  rw [runOn_bind, hcodebook]
  dsimp only
  rw [hdescribed.agrees, runOn_bind, IndexProgram.runOn_ofExcept]
  dsimp only [Result.ok_mapError]
  rw [runOn_bind]
  unfold readData
  rw [if_pos hvectors]
  rfl

end QueryEngine

namespace SegmentMerger

open Metadata (covered)

variable {merger : SegmentMerger} {tree changed : Tree} {segments : List Segment}
  {createdAt : String}

/-! ## The metadata are valid -/

theorem checkExtents_extentsFrom {count start : Nat} {lengths : List Nat} (cell : CellId)
    (hcount : start + covered (extentsFrom start lengths) = count)
    (hlimit : count < 0x10000000000000000) :
    Metadata.checkExtents count cell start (extentsFrom start lengths) = .ok () := by
  induction lengths generalizing start cell with
  | nil => exact if_pos hcount
  | cons length lengths ih =>
    rw [extentsFrom] at hcount ⊢
    refine (Metadata.checkExtents_cons_eq_ok (hcount ▸ hlimit)).mpr ⟨rfl, ih (cell + 1) ?_⟩
    rw [Nat.add_assoc]
    exact hcount

theorem ids_describe_perm (merger : SegmentMerger) (segments : List Segment) (cells : List Bytes)
    (createdAt : String) :
    ((merger.describe segments cells createdAt).partitions.map (·.ids)).Perm
      (segments.map (·.idRange)) := by
  have hsorted := (List.mergeSort_perm
    (segments.map fun s ↦ (⟨s.partition, s.idRange⟩ : PartitionExtent))
    fun a b ↦ a.ids.start ≤ b.ids.start).map (·.ids)
  rw [List.map_map] at hsorted
  exact hsorted

/-- The metadata of segments that tile the ids are valid. -/
theorem validate_describe (hfits : ∀ segment ∈ segments, merger.Fits segment)
    (htiling : checkTiling (segments.map (·.idRange)) (totalCount segments) = .ok ()) :
    (merger.describe segments (merger.mergedCells segments) createdAt).validate = .ok () := by
  have hcovered := covered_describe hfits createdAt
  have hpartitions := checkTiling_congr
    (ids_describe_perm merger segments (merger.mergedCells segments) createdAt)
    (totalCount segments)
  refine Metadata.validate_eq_ok.mpr ⟨rfl, length_cells_describe .., ?_, hpartitions.trans htiling⟩
  exact checkExtents_extentsFrom 0 ((Nat.zero_add _).trans hcovered)
    (total_lt_of_checkTiling htiling)

/-- The metadata count exactly where the data are not too long. -/
theorem isExact_describe (hfits : ∀ segment ∈ segments, merger.Fits segment) (createdAt : String)
    (hlength : (merger.describe segments (merger.mergedCells segments) createdAt).dataLength <
      0x10000000000000000) :
    (merger.describe segments (merger.mergedCells segments) createdAt).IsExact := by
  refine ⟨?_, hlength⟩
  rw [covered_describe hfits createdAt]
  exact Nat.lt_of_le_of_lt (Nat.le_mul_of_pos_right _ (Posting.size_pos _)) hlength

/-! ## The metadata are read back -/

theorem stop_le_of_mem_extentsFrom {start : Nat} {lengths : List Nat} {extent : CellExtent}
    (hextent : extent ∈ extentsFrom start lengths) :
    extent.offset + extent.length ≤ start + covered (extentsFrom start lengths) := by
  induction lengths generalizing start with
  | nil => cases hextent
  | cons length lengths ih =>
    rw [extentsFrom, covered, ← Nat.add_assoc]
    rcases List.mem_cons.mp hextent with rfl | hrest
    · exact Nat.le_add_right _ _
    · exact ih hrest

theorem stop_le_of_mem_cells (hfits : ∀ segment ∈ segments, merger.Fits segment)
    {extent : CellExtent} (hextent : extent ∈
      (merger.describe segments (merger.mergedCells segments) createdAt).cells) :
    extent.offset + extent.length ≤ totalCount segments := by
  rw [← covered_describe hfits createdAt, ← Nat.zero_add (covered _)]
  exact stop_le_of_mem_extentsFrom hextent

theorem cells_describe_lt {limit : Nat}
    (hlimit : covered (merger.describe segments (merger.mergedCells segments) createdAt).cells <
      limit) :
    ∀ extent ∈ (merger.describe segments (merger.mergedCells segments) createdAt).cells,
      extent.offset < limit ∧ extent.length < limit := by
  intro extent hextent
  have hstop := stop_le_of_mem_extentsFrom hextent
  rw [Nat.zero_add] at hstop
  have hlt := Nat.lt_of_le_of_lt hstop hlimit
  exact ⟨Nat.lt_of_le_of_lt (Nat.le_add_right _ _) hlt,
    Nat.lt_of_le_of_lt (Nat.le_add_left _ _) hlt⟩

section

variable (hsound : ∀ segment ∈ segments, merger.IsSound segment)
  (htiling : checkTiling (segments.map (·.idRange)) (totalCount segments) = .ok ())
  (hcovered : covered (merger.describe segments (merger.mergedCells segments) createdAt).cells <
    0x10000000000000000)
include hsound htiling hcovered

/-- The numbers of the segments come from fields no wider than those of the metadata. -/
theorem fitsFields_describe_of_sizes
    (hdimension : merger.codebook.dimension < 0x10000000000000000)
    (hcells : merger.codebook.cellCount < 0x10000000000000000)
    (hcodes : merger.codebook.codeSize < 0x10000000000000000) :
    (merger.describe segments (merger.mergedCells segments) createdAt).FitsFields := by
  refine ⟨show 1 < 0x100000000 by decide, hdimension, hcells, hcodes,
    total_lt_of_checkTiling htiling, cells_describe_lt hcovered, ?_⟩
  intro extent hextent
  obtain ⟨segment, hsegment, rfl⟩ := List.mem_map.mp ((List.mergeSort_perm _ _).mem_iff.mp hextent)
  obtain ⟨path, contents, hopen⟩ := (hsound segment hsegment).read
  exact ⟨Segment.partition_lt_of_ofBytes hopen, Segment.idRange_lt_of_ofBytes hopen⟩

/-- The numbers of a codebook that was read come from such fields, too. -/
theorem fitsFields_describe {bytes : Bytes}
    (hcodebook : Codebook.ofBytes bytes = .ok merger.codebook) :
    (merger.describe segments (merger.mergedCells segments) createdAt).FitsFields := by
  obtain ⟨hdimension, hcells, hcodes⟩ := Codebook.shape_lt_of_ofBytes hcodebook
  exact fitsFields_describe_of_sizes hsound htiling hcovered (Nat.lt_trans hdimension (by decide))
    (Nat.lt_trans hcells (by decide)) (Nat.lt_trans hcodes (by decide))

end

/-! ## The data pass the checks of the loader -/

/-- The merger has checked every code that the loader checks. -/
theorem checkCodes_mergedCells (hfits : ∀ segment ∈ segments, merger.Fits segment) :
    QueryEngine.checkCodes merger.codebook.quantizer 0
      (Posting.split merger.codebook.codeSize (merger.mergedCells segments).flatten) = .ok () := by
  rw [QueryEngine.checkCodes_eq_ok]
  intro posting hposting
  obtain ⟨segment, hsegment, cell, hcell, hposting⟩ :=
    (areWhole_of_fits hfits).mem_split_mergedCells hposting
  rw [← (hfits segment hsegment).cellCount] at hcell
  exact (Segment.checkCodes_eq_ok.mp (hfits segment hsegment).codes cell hcell).2 posting hposting

/-! ## The codebook stays where it is -/

/-- A merge leaves every file that is neither metadata nor merged data. -/
theorem Publishes.read_other {before after : Tree} {data : Bytes} {metadata : Metadata}
    (hpublishes : merger.Publishes before after data metadata) {name : String}
    (hname : Path.IsName name) (hdata : name ≠ metadata.dataFile)
    (hmetadata : name ≠ Metadata.fileName)
    (hsuffix : ¬ Metadata.dataSuffix.toList <:+ name.toList) {contents : Bytes}
    (hread : before.read (Path.join merger.directory name) = .ok contents) :
    after.read (Path.join merger.directory name) = .ok contents := by
  obtain ⟨-, hcontents⟩ := (Tree.read_join hname).mp hread
  rw [← hpublishes.files_other hdata hmetadata hsuffix] at hcontents
  exact (Tree.read_join hname).mpr ⟨hpublishes.directory, hcontents⟩

theorem Publishes.load_codebook {before after : Tree} {data : Bytes} {metadata : Metadata}
    (hpublishes : merger.Publishes before after data metadata)
    (hdata : metadata.dataFile ≠ Layout.codebookFile) {codebook : Codebook}
    (hload : (Codebook.load (Path.join merger.directory Layout.codebookFile)).runOn before =
      (.ok codebook, before)) :
    (Codebook.load (Path.join merger.directory Layout.codebookFile)).runOn after =
      (.ok codebook, after) := by
  obtain ⟨-, bytes, hread, hcodebook⟩ := Codebook.load_ok.mp hload
  have hkept := hpublishes.read_other Layout.isName_codebookFile hdata.symm (by decide)
    Layout.not_dataSuffix_codebookFile hread
  exact Codebook.load_ok.mpr ⟨rfl, bytes, hkept, hcodebook⟩

/-- A merge leaves the segments, and can be repeated. -/
theorem Publishes.holds {before after : Tree} {data : Bytes} {metadata : Metadata}
    (hpublishes : merger.Publishes before after data metadata) {checksum : Fingerprint}
    (hdata : metadata.dataFile = Metadata.dataFileName checksum) {count : Nat}
    (hholds : merger.Holds before count segments) : merger.Holds after count segments := by
  refine ⟨hholds.partitions, fun segment hsegment ↦ ?_⟩
  obtain ⟨⟨contents, hread, hopen⟩, hcheck⟩ := hholds.accepts segment hsegment
  refine ⟨⟨contents, ?_, hopen⟩, hcheck⟩
  apply hpublishes.read_other (isName_segmentName segment.partition) ?_
    (segmentName_ne _ (by decide)) (not_dataSuffix_segmentName segment.partition) hread
  rw [hdata]
  exact segmentName_ne _ (by rw [Metadata.head_dataFileName]; decide)

/-! ## Cells -/

theorem cellBytes_eq_nil {segment : Segment} {cell : CellId}
    (hfits : merger.Fits segment) (hcell : merger.codebook.cellCount ≤ cell) :
    segment.cellBytes cell = [] := by
  have hnone : segment.directory[cell]? = none :=
    List.getElem?_eq_none (hfits.valid.length_directory ▸ hfits.cellCount ▸ hcell)
  rw [hfits.valid.cellBytes_eq_slice hfits.exact, List.getD_eq_getElem?_getD, hnone,
    Option.getD_none, Segment.slice, Nat.zero_mul, List.take_zero]

/-- The loader finds the postings of a cell where the merger put them; there are none past the last
cell. -/
theorem cellSlice?_describe (hfits : ∀ segment ∈ segments, merger.Fits segment) (root : Path)
    (probes : Nat) (cell : CellId) :
    QueryEngine.cellSlice? ⟨root, merger.describe segments (merger.mergedCells segments) createdAt,
      merger.codebook, (merger.mergedCells segments).flatten, probes⟩ cell =
        some (cellBytes segments cell) := by
  unfold QueryEngine.cellSlice?
  dsimp only
  rw [List.getD_eq_getElem?_getD]
  by_cases hcell : cell <
      (merger.describe segments (merger.mergedCells segments) createdAt).cells.length
  · have hstop := stop_le_of_mem_cells hfits (List.getElem_mem hcell)
    have hwithin := Nat.mul_le_mul_right (Posting.size merger.codebook.codeSize) hstop
    rw [← length_flatten_mergedCells hfits] at hwithin
    rw [List.getElem?_eq_getElem hcell, Option.getD_some, ← slice_describe hfits createdAt hcell]
    refine (run?_eq_some ?_).trans ?_
    · exact Nat.le_trans (Nat.le_of_eq (Nat.zero_add _)) hwithin
    · rw [Nat.zero_add]
      rfl
  · have hnil : cellBytes segments cell = [] := by
      rw [cellBytes, List.flatMap_eq_nil_iff]
      rw [length_cells_describe, Nat.not_lt] at hcell
      exact fun segment hsegment ↦ cellBytes_eq_nil (hfits segment hsegment) hcell
    rw [List.getElem?_eq_none (Nat.le_of_not_lt hcell), hnil, Option.getD_none]
    refine (run?_eq_some ?_).trans ?_
    · show 0 + 0 * _ ≤ _
      rw [Nat.zero_mul]
      exact Nat.zero_le _
    · rw [Nat.zero_mul, List.take_zero]

end SegmentMerger

namespace QueryEngine

/-- The engine of the data of segments, as a merge describes them. -/
def ofMerge (merger : SegmentMerger) (segments : List Segment) (createdAt : String)
    (probes : Nat) : QueryEngine :=
  ⟨merger.directory, merger.describe segments (merger.mergedCells segments) createdAt,
    merger.codebook, (merger.mergedCells segments).flatten, probes⟩

section

variable {merger : SegmentMerger} {tree changed : Tree} {count : Nat} {segments : List Segment}
  {createdAt : String} (hholds : merger.Holds tree count segments)
  (hexact : ∀ segment ∈ segments, segment.IsExact)
  (htiling : checkTiling (segments.map (·.idRange)) (SegmentMerger.totalCount segments) = .ok ())
  (hvectors : SegmentMerger.totalCount segments ≠ 0)
include hholds hexact htiling

/-- The metadata of a merge pass every check that comes before the data are read. -/
theorem described_ofMerge
    (hcodebook : (Codebook.load (Path.join merger.directory Layout.codebookFile)).runOn changed =
      (.ok merger.codebook, changed))
    (hmetadata : changed.read merger.metadataPath =
      .ok (merger.describe segments (merger.mergedCells segments) createdAt).toBytes) :
    Described changed merger.directory
      (merger.describe segments (merger.mergedCells segments) createdAt) merger.codebook := by
  obtain ⟨-, bytes, -, hbytes⟩ := Codebook.load_ok.mp hcodebook
  have hcovered := SegmentMerger.covered_describe (hholds.fits hexact) createdAt
  refine ⟨?_, SegmentMerger.validate_describe (hholds.fits hexact) htiling, hcodebook,
    checkCodebook_eq_ok.mpr ⟨rfl, rfl, rfl, rfl⟩⟩
  rw [Metadata.runOn_load]
  show (changed.read merger.metadataPath >>= _, changed) = _
  rw [hmetadata]
  exact congrArg (·, changed)
    (Metadata.ofBytes_toBytes (SegmentMerger.fitsFields_describe hholds.sound htiling
      (hcovered ▸ total_lt_of_checkTiling htiling) hbytes) _)

theorem described_of_publishes
    (hcodebook : (Codebook.load (Path.join merger.directory Layout.codebookFile)).runOn tree =
      (.ok merger.codebook, tree))
    (hpublishes : merger.Publishes tree changed (merger.mergedCells segments).flatten
      (merger.describe segments (merger.mergedCells segments) createdAt)) :
    Described changed merger.directory
      (merger.describe segments (merger.mergedCells segments) createdAt) merger.codebook := by
  have hdata : (merger.describe segments (merger.mergedCells segments) createdAt).dataFile ≠
      Layout.codebookFile := (Metadata.ne_dataFileName (by decide) _).symm
  exact described_ofMerge hholds hexact htiling (hpublishes.load_codebook hdata hcodebook)
    hpublishes.read_metadata

include hvectors

/-- The metadata and the data of a merge pass every check of the loader. -/
theorem verified_ofMerge
    (hcodebook : (Codebook.load (Path.join merger.directory Layout.codebookFile)).runOn changed =
      (.ok merger.codebook, changed))
    (hmetadata : changed.read merger.metadataPath =
      .ok (merger.describe segments (merger.mergedCells segments) createdAt).toBytes)
    (hdata : changed.read (Path.join merger.directory
      (merger.describe segments (merger.mergedCells segments) createdAt).dataFile) =
        .ok (merger.mergedCells segments).flatten) (probes : Nat) :
    (ofMerge merger segments createdAt probes).Verified changed := by
  have hfits := hholds.fits hexact
  have hlength := SegmentMerger.length_flatten_mergedCells hfits
  have hdescribed := hlength.trans (place_of_le (Nat.le_of_eq hlength.symm)).symm
  obtain ⟨hloads, hvalid, hcodebook, hagrees⟩ :=
    described_ofMerge hholds hexact htiling hcodebook hmetadata
  exact ⟨hloads, hvalid, hcodebook, hagrees,
    readData_ok.mpr ⟨rfl, hvectors, hdata, checkData_eq_ok.mpr ⟨hdescribed, rfl⟩⟩,
    SegmentMerger.checkCodes_mergedCells hfits⟩

/-- What the checks of a merge leave for the loader to find. -/
theorem verified_of_publishes
    (hcodebook : (Codebook.load (Path.join merger.directory Layout.codebookFile)).runOn tree =
      (.ok merger.codebook, tree))
    (hpublishes : merger.Publishes tree changed (merger.mergedCells segments).flatten
      (merger.describe segments (merger.mergedCells segments) createdAt)) (probes : Nat) :
    (ofMerge merger segments createdAt probes).Verified changed := by
  obtain ⟨-, -, hcodebook, -⟩ :=
    described_of_publishes hholds hexact htiling hcodebook hpublishes
  exact verified_ofMerge hholds hexact htiling hvectors hcodebook hpublishes.read_metadata
    (hpublishes.read_data (Metadata.isName_dataFileName _)) probes

end

/-- After a merge that holds vectors the directory can be loaded: the engine has the metadata of the
merge, which are valid, and scans for every cell the postings of the segments in the order of their
partitions. No directory of a segment counts more postings than 64 bits hold. -/
theorem load_merge {directory : Path} {codebook : Codebook} {count : Nat} {tree changed : Tree}
    {metadata : Metadata}
    (hcodebook : (Codebook.load (Path.join directory Layout.codebookFile)).runOn tree =
      (.ok codebook, tree))
    (hmerge : (SegmentMerger.merge ⟨directory, codebook⟩ count).runOn tree =
      (.ok metadata, changed))
    (hexact : SegmentMerger.OpensExactly ⟨directory, codebook⟩ tree (count % 0x100000000))
    (hvectors : 0 < metadata.vectorCount) :
    metadata.validate = .ok () ∧
      ∃ segments : List Segment,
        segments.map (·.partition) = List.range (count % 0x100000000) ∧
        (∀ segment ∈ segments,
          (Segment.open (segmentPath directory segment.partition)).runOn tree =
            (.ok segment, tree)) ∧
        ∀ probes, ∃ engine, (load directory probes).runOn changed = (.ok engine, changed) ∧
          engine.metadata = metadata ∧
          ∀ cell, engine.cellSlice? cell = some (segments.flatMap (·.cellBytes cell)) := by
  obtain ⟨-, segments, hholds, hpublish⟩ := SegmentMerger.mergeInOrder_ok.mp hmerge
  obtain ⟨htiling, ⟨createdAt, rfl⟩, hpublishes⟩ := SegmentMerger.mergeSegments_ok hpublish
  rw [List.length_range] at hholds
  have hcounted := hholds.exact hexact
  have hfits := hholds.fits hcounted
  refine ⟨SegmentMerger.validate_describe hfits htiling, segments, hholds.partitions,
    fun segment ↦ hholds.open_eq, fun probes ↦ ?_⟩
  have hverified := verified_of_publishes hholds hcounted htiling (Nat.ne_of_gt hvectors)
    hcodebook hpublishes (max probes 1)
  exact ⟨_, load_ok.mpr ⟨rfl, rfl, rfl, hverified⟩, rfl,
    fun cell ↦ SegmentMerger.cellSlice?_describe hfits directory (max probes 1) cell⟩

theorem ofBytes_smallCodebook :
    Codebook.ofBytes SegmentMerger.smallCodebook.toBytes = .ok SegmentMerger.smallCodebook := by
  decide +kernel

theorem load_smallCodebook :
    (Codebook.load (Path.join "index" Layout.codebookFile)).runOn SegmentMerger.smallTree =
      (.ok SegmentMerger.smallCodebook, SegmentMerger.smallTree) :=
  Codebook.load_ok.mpr ⟨rfl, _, rfl, ofBytes_smallCodebook⟩

theorem opensExactly_small :
    SegmentMerger.OpensExactly ⟨"index", SegmentMerger.smallCodebook⟩ SegmentMerger.smallTree 1 :=
  SegmentMerger.opensExactly_of_all (by decide +kernel)

/-- What a merge of one partition leaves for a loader. -/
theorem exists_engine_of_merge {merger : SegmentMerger} {tree changed : Tree} {metadata : Metadata}
    (hmerge : (merger.mergeInOrder [0]).runOn tree = (.ok metadata, changed))
    (hcodebook : (Codebook.load (Path.join merger.directory Layout.codebookFile)).runOn tree =
      (.ok merger.codebook, tree))
    (hopens : merger.OpensExactly tree 1) (hvectors : metadata.vectorCount ≠ 0) (probes : Nat) :
    ∃ segments createdAt, merger.Holds changed 1 segments ∧
      (∀ segment ∈ segments, segment.IsExact) ∧
      SegmentMerger.totalCount segments = metadata.vectorCount ∧
      (load merger.directory probes).runOn changed =
        (.ok (ofMerge merger segments createdAt (max probes 1)), changed) := by
  obtain ⟨-, segments, hholds, hsegments⟩ := SegmentMerger.mergeInOrder_ok.mp hmerge
  obtain ⟨htiling, ⟨createdAt, rfl⟩, hpublishes⟩ := SegmentMerger.mergeSegments_ok hsegments
  have hexact := hholds.exact hopens
  exact ⟨segments, createdAt, hpublishes.holds rfl hholds, hexact, rfl,
    load_ok.mpr ⟨rfl, rfl, rfl, verified_of_publishes hholds hexact htiling hvectors hcodebook
      hpublishes _⟩⟩

/-- The engine of the small index, as its merge leaves it. -/
theorem exists_small_engine : ∃ start segments createdAt,
    SegmentMerger.Holds ⟨"index", SegmentMerger.smallCodebook⟩ start [0].length segments ∧
    (∀ segment ∈ segments, segment.IsExact) ∧ SegmentMerger.totalCount segments = 2 ∧
    (load "index" 4).runOn start =
      (.ok (ofMerge ⟨"index", SegmentMerger.smallCodebook⟩ segments createdAt 4), start) := by
  obtain ⟨metadata, start, hmerge, hcount⟩ := SegmentMerger.exists_small_merge
  obtain ⟨segments, createdAt, hholds, hexact, htotal, hload⟩ :=
    exists_engine_of_merge hmerge load_smallCodebook opensExactly_small (by omega) 4
  exact ⟨start, segments, createdAt, hholds, hexact, htotal.trans hcount, hload⟩

/-- The small index can be loaded after its merge. -/
theorem load_merge_small : ∃ changed engine,
    (load "index" 4).runOn changed = (.ok engine, changed) ∧ engine.metadata.vectorCount = 2 := by
  obtain ⟨metadata, changed, hrun, hcount⟩ := SegmentMerger.exists_small_merge
  have hmerge : (SegmentMerger.merge ⟨"index", SegmentMerger.smallCodebook⟩ 1).runOn
      SegmentMerger.smallTree = (.ok metadata, changed) := hrun
  obtain ⟨-, _, -, -, hload⟩ :=
    load_merge load_smallCodebook hmerge opensExactly_small (by omega)
  obtain ⟨engine, hengine, hmetadata, -⟩ := hload 4
  exact ⟨changed, engine, hengine, by rw [hmetadata, hcount]⟩

/-! ## An index of one posting -/

/-- Its metadata, with the name of the data file and the extents of the two cells. -/
def soleMetadata (dataFile : String) (cells : List CellExtent) : Metadata :=
  let codebook := SegmentMerger.smallCodebook
  { version := Metadata.formatVersion
    dataFile := dataFile
    fingerprint := codebook.fingerprint
    dimension := codebook.dimension
    cellCount := codebook.cellCount
    codeSize := codebook.codeSize
    vectorCount := 1
    cells := cells
    partitions := [⟨0, 0, 1⟩]
    checksum := .of (Posting.toBytes ⟨0, [1]⟩)
    createdAt := "" }

theorem load_sole {root : Path} {dataFile : String} {cells : List CellExtent} {tree : Tree}
    (hfits : (soleMetadata dataFile cells).FitsFields)
    (hvalid : (soleMetadata dataFile cells).validate.isOk = true)
    (hmetadata : tree.read (Path.join root Metadata.fileName) =
      .ok (soleMetadata dataFile cells).toBytes)
    (hcodebook : tree.read (Path.join root Layout.codebookFile) =
      .ok SegmentMerger.smallCodebook.toBytes)
    (hdata : tree.read (Path.join root dataFile) = .ok (Posting.toBytes ⟨0, [1]⟩)) :
    (load root 4).runOn tree = (.ok ⟨root, soleMetadata dataFile cells,
      SegmentMerger.smallCodebook, Posting.toBytes ⟨0, [1]⟩, 4⟩, tree) := by
  refine load_ok.mpr ⟨rfl, rfl, rfl, ?_, Result.isOk_iff.mp hvalid, ?_, ?_, ?_, ?_⟩
  · rw [Metadata.runOn_load]
    exact Prod.ext (Result.bind_ok.mpr ⟨_, hmetadata, Metadata.ofBytes_toBytes hfits _⟩) rfl
  · exact Codebook.load_ok.mpr ⟨rfl, _, hcodebook, ofBytes_smallCodebook⟩
  · exact checkCodebook_eq_ok.mpr ⟨rfl, rfl, rfl, rfl⟩
  · exact readData_ok.mpr ⟨rfl, Nat.one_ne_zero, hdata, checkData_eq_ok.mpr ⟨rfl, rfl⟩⟩
  · exact Result.isOk_iff.mp (show (checkCodes SegmentMerger.smallCodebook.quantizer 0
      (Posting.split 1 (Posting.toBytes ⟨0, [1]⟩))).isOk = true by decide +kernel)

end QueryEngine
end VectorIndex
