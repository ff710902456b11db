import VectorIndex.Proofs.Codebook.Table
import VectorIndex.Proofs.Search.Load
import VectorIndex.Proofs.Search.Ranking

/-!
# Searching within bounds

A search once more, where every slice and every index that is taken has to be there: the extent of
a cell in the metadata and in the data, whole postings with an id in front, the pieces of the query
and the rows and places of its table. What the loader checks, together with the shape of a trained
codebook, leaves nothing that can be missing.
-/

namespace VectorIndex

/-! ## Accesses that fail out of bounds -/

/-- The whole chunks of a list; there are none of no items. -/
def wholeChunks? {α : Type} (size : Nat) (items : List α) : Option (List (List α)) :=
  if size = 0 then none else some ((chunks size items).filter (·.length = size))

/-- The product of vectors of one dimension. -/
def Vec.innerProduct? (a b : Vec) : Option Binary32 :=
  if a.length = b.length then some (a.innerProduct b) else none

/-- The posting in bytes that have room for an id. -/
def Posting.ofBytes? (bytes : Bytes) : Option Posting :=
  if idSize ≤ bytes.length then some (ofBytes bytes) else none

namespace Codebook

/-- The number of a cell, which has to fit 32 bits, with the product of its centroid. -/
def scoredCell? (query centroid : Vec) (cell : CellId) : Option (CellId × Binary32) := do
  if cell < 0x100000000 then return (cell, ← query.innerProduct? centroid) else none

def rankedCells? (codebook : Codebook) (query : Vec) : Option (List (CellId × Binary32)) := do
  let cells ← codebook.centroids.zipIdx.mapM fun (c, cell) ↦ scoredCell? query c cell
  return cells.mergeSort nearer

/-- The cells to visit. Their number is clamped between one and the number of cells, so there has
to be a cell. -/
def probe? (codebook : Codebook) (query : Vec) (count : Nat) :
    Option (List (CellId × Binary32)) := do
  if codebook.cellCount = 0 then none
  else return (← codebook.rankedCells? query).take (min (max count 1) codebook.cellCount)

end Codebook

namespace QueryEngine

def cellBytes? (engine : QueryEngine) (cell : CellId) : Option Bytes := do
  let extent ← engine.metadata.cells[cell]?
  let size := engine.metadata.entrySize
  slice? engine.data (extent.offset * size) (extent.offset * size + extent.length * size)

def postings? (engine : QueryEngine) (cell : CellId) : Option (List Posting) := do
  let entries ← wholeChunks? engine.metadata.entrySize (← engine.cellBytes? cell)
  entries.mapM Posting.ofBytes?

def score? (engine : QueryEngine) (table : List Binary32) (coarse : Binary32)
    (posting : Posting) : Option SearchHit := do
  let fine ← engine.codebook.quantizer.tableScore? table posting.code
  return ⟨posting.id, .one - (coarse + fine)⟩

def visit? (engine : QueryEngine) (table : List Binary32) (visited : CellId × Binary32) :
    Option (List SearchHit) := do
  (← engine.postings? visited.1).mapM (engine.score? table visited.2)

def candidates? (engine : QueryEngine) (query : Vec) (probes : Nat) :
    Option (List SearchHit) := do
  let table ← engine.codebook.quantizer.productTable? query
  let visited ← engine.codebook.probe? query probes
  return (← visited.mapM (engine.visit? table)).flatten

/-- A search in which no access may be out of bounds. -/
def search? (engine : QueryEngine) (query : Vec) (k : Nat) (probes : Option Nat) :
    Option (Except IndexError (List SearchHit)) := do
  let expected := engine.metadata.dimension
  if query.length ≠ expected then
    return .error (.queryDimensionMismatch expected query.length)
  else if k = 0 then return .ok []
  else
    let hits ← engine.candidates? query (probes.getD engine.probes)
    return .ok (hits.foldl (SearchHit.keep k) [])

end QueryEngine

/-! ## Extents lie in the data -/

/-- Extents that count exactly and pass the check lie one after the other up to the last vector. -/
theorem Metadata.extent_le_of_checkExtents {count : Nat} {cell offset : Nat}
    {extents : List CellExtent} (hexact : offset + covered extents < 0x10000000000000000)
    (hcheck : checkExtents count cell offset extents = .ok ()) :
    offset + covered extents = count ∧
      ∀ extent ∈ extents, extent.offset + extent.length ≤ count := by
  induction extents generalizing cell offset with
  | nil =>
    rw [checkExtents] at hcheck
    split at hcheck
    · next heq => exact ⟨heq, List.forall_mem_nil _⟩
    · cases hcheck
  | cons extent rest ih =>
    obtain ⟨rfl, hrest⟩ := (checkExtents_cons_eq_ok hexact).mp hcheck
    rw [covered, ← Nat.add_assoc] at hexact ⊢
    obtain ⟨hcount, hwithin⟩ := ih hexact hrest
    exact ⟨hcount, List.forall_mem_cons.mpr ⟨hcount ▸ Nat.le_add_right _ _, hwithin⟩⟩

/-- The postings of a run of whole postings inside others are among those. -/
theorem Posting.split_slice_subset {codeSize offset length : Nat} {data : Bytes}
    (hslice : (offset + length) * size codeSize ≤ data.length) :
    split codeSize ((data.drop (offset * size codeSize)).take (length * size codeSize)) ⊆
      split codeSize data := by
  rw [Nat.add_mul] at hslice
  have hbefore : size codeSize ∣ (data.take (offset * size codeSize)).length := by
    rw [List.length_take, Nat.min_eq_left (by omega)]
    exact Nat.dvd_mul_left ..
  have hrun : size codeSize ∣
      ((data.drop (offset * size codeSize)).take (length * size codeSize)).length := by
    rw [List.length_take, List.length_drop, Nat.min_eq_left (by omega)]
    exact Nat.dvd_mul_left ..
  intro posting hposting
  rw [← List.take_append_drop (offset * size codeSize) data, split_append hbefore,
    ← List.take_append_drop (length * size codeSize) (data.drop (offset * size codeSize)),
    split_append hrun]
  exact List.mem_append_right _ (List.mem_append_left _ hposting)

namespace QueryEngine

variable {engine : QueryEngine} {tree : Tree}

section

variable (hverified : engine.Verified tree) (hexact : engine.metadata.IsExact)
include hverified hexact

theorem Verified.length_data :
    engine.data.length = engine.metadata.vectorCount * engine.metadata.entrySize := by
  obtain ⟨-, -, -, hcheck⟩ := readData_ok.mp hverified.data
  exact (checkData_eq_ok.mp hcheck).1.trans (place_of_lt hexact.data)

/-- The extents of valid metadata cover the data. -/
theorem Verified.length_data_eq : engine.data.length =
    Metadata.covered engine.metadata.cells * engine.metadata.entrySize := by
  obtain ⟨-, -, hextents, -⟩ := Metadata.validate_eq_ok.mp hverified.valid
  have hcovered := (Nat.zero_add _).trans_lt hexact.covered
  obtain ⟨hcount, -⟩ := Metadata.extent_le_of_checkExtents hcovered hextents
  rw [hverified.length_data hexact, ← hcount, Nat.zero_add]

theorem Verified.extent_le (cell : CellId) :
    ((engine.metadata.cells.getD cell ⟨0, 0⟩).offset +
      (engine.metadata.cells.getD cell ⟨0, 0⟩).length) * engine.metadata.entrySize ≤
        engine.data.length := by
  obtain ⟨-, -, hextents, -⟩ := Metadata.validate_eq_ok.mp hverified.valid
  have hcovered := (Nat.zero_add _).trans_lt hexact.covered
  obtain ⟨-, hwithin⟩ := Metadata.extent_le_of_checkExtents hcovered hextents
  rw [hverified.length_data hexact, List.getD_eq_getElem?_getD]
  apply Nat.mul_le_mul_right
  cases hcell : engine.metadata.cells[cell]? with
  | none => exact Nat.zero_le _
  | some extent => exact hwithin extent (List.mem_of_getElem? hcell)

/-- The postings of every cell lie within the data. -/
theorem Verified.cellSlice?_eq (cell : CellId) :
    engine.cellSlice? cell = some ((engine.data.drop
      ((engine.metadata.cells.getD cell ⟨0, 0⟩).offset * engine.metadata.entrySize)).take
        ((engine.metadata.cells.getD cell ⟨0, 0⟩).length * engine.metadata.entrySize)) := by
  have hextent := hverified.extent_le hexact cell
  rw [← Nat.zero_add (_ * _)] at hextent
  rw [cellSlice?, run?_eq_some hextent, Nat.zero_add]

theorem Verified.reaches (query : Vec) (count : Nat) : engine.reaches query count = true := by
  refine List.all_eq_true.mpr fun visited _ ↦ ?_
  dsimp only
  rw [hverified.cellSlice?_eq hexact, Option.isSome_some]

/-- The postings of a cell are postings of the data. -/
theorem Verified.postings_subset (cell : CellId) :
    engine.postings cell ⊆ Posting.split engine.metadata.codeSize engine.data := by
  unfold postings cellBytes
  rw [hverified.cellSlice?_eq hexact, Option.getD_some]
  exact Posting.split_slice_subset (hverified.extent_le hexact cell)

end

theorem Verified.length_cells (hverified : engine.Verified tree) :
    engine.metadata.cells.length = engine.codebook.cellCount := by
  obtain ⟨-, hcells, -⟩ := Metadata.validate_eq_ok.mp hverified.valid
  obtain ⟨-, -, hcount, -⟩ := checkCodebook_eq_ok.mp hverified.agrees
  exact hcells.trans hcount.symm

section

variable (hverified : engine.Verified tree) (hexact : engine.metadata.IsExact) {cell : CellId}
  (hcell : cell < engine.codebook.cellCount)
include hverified hexact hcell

theorem Verified.cellBytes?_eq :
    engine.cellBytes? cell = some (engine.cellBytes cell) ∧
      engine.metadata.entrySize ∣ (engine.cellBytes cell).length := by
  have hextent := hverified.extent_le hexact cell
  rw [← hverified.length_cells] at hcell
  unfold cellBytes? cellBytes
  rw [hverified.cellSlice?_eq hexact, Option.getD_some]
  rw [List.getD_eq_getElem?_getD, List.getElem?_eq_getElem hcell, Option.getD_some] at hextent ⊢
  rw [Nat.add_mul] at hextent
  refine ⟨slice?_eq_some hextent, ?_⟩
  rw [List.length_take, List.length_drop, Nat.min_eq_left (by omega)]
  exact Nat.dvd_mul_left ..

theorem Verified.postings?_eq : engine.postings? cell = some (engine.postings cell) := by
  obtain ⟨hbytes, hdvd⟩ := hverified.cellBytes?_eq hexact hcell
  have hsize : 0 < engine.metadata.entrySize := Posting.size_pos _
  have hlength : ∀ entry ∈ chunks engine.metadata.entrySize (engine.cellBytes cell),
      entry.length = engine.metadata.entrySize :=
    fun entry hentry ↦ length_of_mem_chunks hsize hdvd hentry
  have hfilter : (chunks engine.metadata.entrySize (engine.cellBytes cell)).filter
      (·.length = engine.metadata.entrySize) =
        chunks engine.metadata.entrySize (engine.cellBytes cell) :=
    List.filter_eq_self.mpr (by simpa using hlength)
  have hwhole : wholeChunks? engine.metadata.entrySize (engine.cellBytes cell) =
      some (chunks engine.metadata.entrySize (engine.cellBytes cell)) := by
    rw [wholeChunks?, if_neg (Nat.ne_of_gt hsize), hfilter]
  have hids : ∀ entry ∈ chunks engine.metadata.entrySize (engine.cellBytes cell),
      Posting.ofBytes? entry = some (Posting.ofBytes entry) := by
    intro entry hentry
    rw [Posting.ofBytes?, if_pos]
    rw [hlength entry hentry]
    exact Nat.le_add_right _ _
  unfold postings?
  rw [hbytes]
  show (wholeChunks? _ _ >>= _) = _
  rw [hwhole]
  exact (mapM_eq_some_map hids).trans
    (congrArg (fun entries ↦ some (entries.map Posting.ofBytes)) hfilter.symm)

end

end QueryEngine

/-! ## Visiting cells -/

namespace Codebook

/-- A codebook with cells that queries of its dimension can be compared with. -/
structure IsSearchable (codebook : Codebook) : Prop where
  quantizer : codebook.quantizer.IsShaped
  dimension : codebook.quantizer.dimension = codebook.dimension
  cells : codebook.cellCount ≠ 0
  cells_lt : codebook.cellCount < 0x100000000
  length_centroid : ∀ c ∈ codebook.centroids, c.length = codebook.dimension

/-- What is read from the file of a trained codebook can be searched with. -/
theorem isSearchable_of_train {settings : TrainingSettings} {sample : List Vec}
    {codebook other : Codebook} (htrain : train settings sample = .ok codebook)
    (hread : ofBytes codebook.toBytes = .ok other) : other.IsSearchable := by
  obtain ⟨hmade, -⟩ := train_ok htrain
  obtain ⟨hdimension, hcentroids, hquantizer⟩ :=
    parts_of_ofBytes hmade codebook.drop_toBytes hread
  constructor
  · exact hquantizer ▸ isShaped_of_train htrain
  · rw [hquantizer, hdimension, hmade.dimension]
  · rw [cellCount, hcentroids]
    exact fun hnone ↦ hmade.centroids_ne_nil (List.eq_nil_of_length_eq_zero hnone)
  · exact (shape_lt_of_ofBytes hread).2.1
  · rw [hcentroids, hdimension, hmade.dimension]
    exact hmade.length_centroid

variable {codebook : Codebook} {query : Vec}

theorem scoredCell?_eq (hsearchable : codebook.IsSearchable)
    (hquery : query.length = codebook.dimension) {c : Vec} {cell : CellId}
    (hcell : (c, cell) ∈ codebook.centroids.zipIdx) :
    scoredCell? query c cell = some (cell, query.innerProduct c) := by
  have hget : codebook.centroids[cell]? = some c := List.mk_mem_zipIdx_iff_getElem?.mp hcell
  have hlt : cell < codebook.cellCount := (List.getElem?_eq_some_iff.mp hget).1
  have hlength := hquery.trans (hsearchable.length_centroid c (List.mem_of_getElem? hget)).symm
  rw [scoredCell?, if_pos (Nat.lt_trans hlt hsearchable.cells_lt), Vec.innerProduct?,
    if_pos hlength]
  rfl

theorem probe?_eq (hsearchable : codebook.IsSearchable)
    (hquery : query.length = codebook.dimension) (count : Nat) :
    codebook.probe? query count = some (codebook.probe query count) := by
  have hranked : codebook.rankedCells? query = some (codebook.rankedCells query) := by
    unfold rankedCells? rankedCells
    rw [mapM_eq_some_map fun entry hentry ↦ scoredCell?_eq hsearchable hquery hentry]
    rfl
  rw [probe?, if_neg hsearchable.cells, hranked]
  rfl

/-- Only cells of the codebook are visited. -/
theorem lt_of_mem_probe {count : Nat} {visited : CellId × Binary32}
    (hvisited : visited ∈ codebook.probe query count) : visited.1 < codebook.cellCount := by
  have hmem := (codebook.rankedCells_perm query).mem_iff.mp (List.mem_of_mem_take hvisited)
  obtain ⟨cell, hcell, rfl⟩ := List.mem_map.mp hmem
  exact List.mem_range.mp hcell

end Codebook

namespace QueryEngine

variable {engine : QueryEngine} {tree : Tree} {query : Vec}

/-- A visited cell is scored within its bounds. -/
theorem Verified.visit?_eq (hverified : engine.Verified tree) (hexact : engine.metadata.IsExact)
    (hsearchable : engine.codebook.IsSearchable) {table : Array Binary32}
    (htable : engine.codebook.quantizer.productTable query = some table)
    {visited : CellId × Binary32} (hvisited : visited.1 < engine.codebook.cellCount) :
    engine.visit? table.toList visited =
      some ((engine.postings visited.1).map (engine.score table visited.2)) := by
  have hcodes := checkCodes_eq_ok.mp hverified.codes
  have hscores : ∀ posting ∈ engine.postings visited.1,
      engine.score? table.toList visited.2 posting =
        some (engine.score table visited.2 posting) := by
    intro posting hposting
    have hcheck := hcodes posting (hverified.postings_subset hexact visited.1 hposting)
    rw [score?, Quantizer.tableScore?_eq hsearchable.quantizer htable hcheck]
    rfl
  rw [visit?, hverified.postings?_eq hexact hvisited]
  exact mapM_eq_some_map hscores

theorem Verified.candidates?_eq (hverified : engine.Verified tree)
    (hexact : engine.metadata.IsExact) (hsearchable : engine.codebook.IsSearchable)
    (hquery : query.length = engine.codebook.dimension) :
    ∃ table, engine.codebook.quantizer.productTable query = some table ∧
      ∀ count, engine.candidates? query count = some (engine.candidates query table count) := by
  have hlength := hquery.trans hsearchable.dimension.symm
  have htable := Quantizer.productTable_eq hsearchable.quantizer hlength
  refine ⟨_, htable, fun count ↦ ?_⟩
  have hvisits := mapM_eq_some_map fun visited (hvisited : visited ∈
    engine.codebook.probe query count) ↦ hverified.visit?_eq hexact hsearchable htable
      (Codebook.lt_of_mem_probe hvisited)
  unfold candidates? candidates
  rw [Quantizer.productTable?_eq hsearchable.quantizer hlength, Option.bind_eq_bind,
    Option.bind_some, Codebook.probe?_eq hsearchable hquery, Option.bind_eq_bind,
    Option.bind_some, hvisits]
  rfl

/-- A verified engine whose codebook can be searched with answers every query of its dimension and
refuses every other, and no access is out of bounds. -/
theorem Verified.search?_eq (hverified : engine.Verified tree) (hexact : engine.metadata.IsExact)
    (hsearchable : engine.codebook.IsSearchable) (query : Vec) (k : Nat) (probes : Option Nat) :
    engine.search? query k probes = some (engine.search query k probes) ∧
      (query.length = engine.metadata.dimension →
        ∃ hits, engine.search query k probes = .ok hits) := by
  obtain ⟨-, hdimension, -⟩ := checkCodebook_eq_ok.mp hverified.agrees
  by_cases hquery : query.length = engine.metadata.dimension
  · obtain ⟨table, htable, hcandidates⟩ :=
      hverified.candidates?_eq hexact hsearchable (hquery.trans hdimension.symm)
    have hreaches := hverified.reaches hexact query (probes.getD engine.probes)
    refine ⟨?_, fun _ ↦ ⟨_, search_eq_take hquery htable k probes hreaches⟩⟩
    unfold search? search
    by_cases hk : k = 0
    · simp [hquery, hk]
    · rw [hcandidates, htable]
      simp [hquery, hk, hreaches]
  · refine ⟨?_, fun heq ↦ absurd heq hquery⟩
    unfold search? search
    simp [hquery]

/-- An engine that is loaded with the file of a trained codebook, whatever else the directory
holds, answers every query of its dimension and refuses every other one for its dimension, and
takes no slice and no index out of bounds. Extents and sizes do not exceed 64 bits. -/
theorem search_within_bounds {settings : TrainingSettings} {sample : List Vec}
    {codebook : Codebook} (htrain : Codebook.train settings sample = .ok codebook)
    {directory : Path} {probes : Nat} {changed : Tree}
    (hcodebook : tree.read (Path.join directory Layout.codebookFile) = .ok codebook.toBytes)
    (hload : (load directory probes).runOn tree = (.ok engine, changed))
    (hexact : engine.metadata.IsExact) (query : Vec) (k : Nat) (visits : Option Nat) :
    engine.search? query k visits = some (engine.search query k visits) ∧
      (engine.search query k visits =
          .error (.queryDimensionMismatch engine.metadata.dimension query.length) ∨
        query.length = engine.metadata.dimension ∧
          ∃ hits, engine.search query k visits = .ok hits) := by
  obtain ⟨-, rfl, -, hverified⟩ := load_ok.mp hload
  obtain ⟨-, bytes, hread, hbytes⟩ := Codebook.load_ok.mp hverified.codebook
  obtain rfl := Except.ok.inj (hcodebook.symm.trans hread)
  obtain ⟨hchecked, hanswered⟩ :=
    hverified.search?_eq hexact (Codebook.isSearchable_of_train htrain hbytes) query k visits
  refine ⟨hchecked, ?_⟩
  by_cases hquery : query.length = engine.metadata.dimension
  · exact .inr ⟨hquery, hanswered hquery⟩
  · exact .inl (if_pos hquery)

def crossSettings : TrainingSettings := ⟨2, 2, 1, 0, 1, 1⟩

/-- Four directions of the plane. -/
def crossSample : List Vec :=
  let one : Binary32 := ⟨0x3f800000⟩
  let minus : Binary32 := ⟨0xbf800000⟩
  [[one, .zero], [.zero, one], [minus, .zero], [.zero, minus]]

/-- What is trained on them: two cells and two subspaces. -/
def crossCodebook : Codebook :=
  let one : Binary32 := ⟨0x3f800000⟩
  let minus : Binary32 := ⟨0xbf800000⟩
  let third : Binary32 := ⟨0x3eaaaaab⟩
  let centroids : List Vec := [[.zero, minus], [.zero, one]]
  let quantizer : Quantizer := ⟨2, 2, 1, 1, [[[third], [minus]], [[one], [.zero]]]⟩
  let params : TrainingParams := ⟨2, 2, 1, 0, 4⟩
  ⟨2, centroids, quantizer, params, .of (Codebook.pack centroids quantizer params)⟩

theorem train_cross : Codebook.train crossSettings crossSample = .ok crossCodebook :=
  Result.toOption_eq_some.mp (by decide +kernel)

/-- The codebook, and a segment with a vector in each cell. -/
def crossTree : Tree :=
  let draft := ((SegmentDraft.start 0 0 crossCodebook).push 0 ⟨0, [0, 1]⟩).push 1 ⟨1, [1, 0]⟩
  ⟨[(["index"], .directory), (["index", "segment_0.seg"], .file draft.toBytes 0),
    (["index", "trained.index"], .file crossCodebook.toBytes 0)], 0⟩

theorem exists_cross_merge : ∃ metadata changed,
    (SegmentMerger.merge ⟨"index", crossCodebook⟩ 1).runOn crossTree = (.ok metadata, changed) ∧
      metadata.vectorCount = 2 ∧ metadata.dimension = 2 ∧ metadata.dataLength = 20 := by
  have hhosts : crossTree.Hosts (SegmentMerger.mk "index" crossCodebook).directory :=
    Tree.hosts_of_entries (by decide)
  obtain ⟨createdAt, changed, hmerge, -⟩ := SegmentMerger.exists_sole_merge hhosts rfl
    (by decide +kernel) (by decide +kernel) (by decide +kernel)
  exact ⟨_, changed, hmerge, rfl, rfl, rfl⟩

/-- The index of two cells and two subspaces answers every query of two components, and no other. -/
theorem search_within_bounds_cross : ∃ codebook tree engine,
    Codebook.train crossSettings crossSample = .ok codebook ∧
      tree.read (Path.join "index" Layout.codebookFile) = .ok codebook.toBytes ∧
      (load "index" 1).runOn tree = (.ok engine, tree) ∧ engine.metadata.IsExact ∧
      ∀ query k visits, engine.search? query k visits = some (engine.search query k visits) ∧
        (engine.search query k visits = .error (.queryDimensionMismatch 2 query.length) ∨
          query.length = 2 ∧ ∃ hits, engine.search query k visits = .ok hits) := by
  obtain ⟨metadata, tree, hmerge, hcount, hdimension, hlength⟩ := exists_cross_merge
  have hbytes : Codebook.ofBytes crossCodebook.toBytes = .ok crossCodebook := by decide +kernel
  have hread : crossTree.read (Path.join "index" Layout.codebookFile) =
      .ok crossCodebook.toBytes := rfl
  have hload : (Codebook.load (Path.join "index" Layout.codebookFile)).runOn crossTree =
      (.ok crossCodebook, crossTree) := Codebook.load_ok.mpr ⟨rfl, _, hread, hbytes⟩
  have hopens : SegmentMerger.OpensExactly ⟨"index", crossCodebook⟩ crossTree 1 :=
    SegmentMerger.opensExactly_of_all (by decide +kernel)
  obtain ⟨-, segments, hholds, hpublish⟩ := SegmentMerger.mergeInOrder_ok.mp hmerge
  obtain ⟨htiling, ⟨createdAt, rfl⟩, hpublishes⟩ := SegmentMerger.mergeSegments_ok hpublish
  have htotal : SegmentMerger.totalCount segments = 2 := hcount
  have hcounted := hholds.exact hopens
  have hexact := SegmentMerger.isExact_describe (hholds.fits hcounted) createdAt
    (hlength ▸ by decide)
  have hverified :=
    verified_of_publishes hholds hcounted htiling (by omega) hload hpublishes 1
  have hengine := load_ok.mpr ⟨rfl, rfl, (Nat.max_self 1).symm, hverified⟩
  have hkept := hpublishes.read_other Layout.isName_codebookFile
    (Metadata.ne_dataFileName (by decide) _) (by decide) Layout.not_dataSuffix_codebookFile hread
  refine ⟨crossCodebook, tree, _, train_cross, hkept, hengine, hexact, fun query k visits ↦ ?_⟩
  have hsearch := search_within_bounds train_cross hkept hengine hexact query k visits
  rwa [show (ofMerge ⟨"index", crossCodebook⟩ segments createdAt 1).metadata.dimension = 2
    from hdimension] at hsearch

end QueryEngine
end VectorIndex
