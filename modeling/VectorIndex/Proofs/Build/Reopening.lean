import VectorIndex.Proofs.Build.Documents

/-!
# A draft is read back

The bytes that a draft is written as are those of a segment: when the numbers of the draft fit the
fields of the header, the file opens, the header gives the numbers back, and behind the directory
stand the postings that were pushed, cell after cell.
-/

namespace VectorIndex

open Bytes (littleEndian natAt)

namespace SegmentDraft

variable {draft : SegmentDraft}

/-- Every number of the draft fits its field of the header. -/
structure FitsFields (draft : SegmentDraft) : Prop where
  dimension : draft.dimension < 0x100000000
  partition : draft.partition < 0x100000000
  base : draft.base < 0x10000000000000000
  count : draft.count < 0x10000000000000000
  cellCount : draft.cellCount < 0x100000000
  codeSize : draft.codeSize < 0x100000000

/-- Every posting was pushed to one of the cells, with a code of the right size and an id of 64
bits. -/
structure IsFilled (draft : SegmentDraft) : Prop where
  cells : ∀ push ∈ draft.pushes, push.1 < draft.cellCount
  codes : ∀ push ∈ draft.pushes, push.2.code.length = draft.codeSize
  ids : ∀ push ∈ draft.pushes, push.2.id < 0x10000000000000000

/-- The segment says of itself what the draft says, and holds the draft's postings. -/
structure Reopens (draft : SegmentDraft) (segment : Segment) : Prop where
  dimension : segment.dimension = draft.dimension
  partition : segment.partition = draft.partition
  base : segment.base = draft.base
  count : segment.count = draft.count
  cellCount : segment.cellCount = draft.cellCount
  codeSize : segment.codeSize = draft.codeSize
  fingerprint : segment.fingerprint = draft.fingerprint
  postings : (Posting.split segment.codeSize segment.body).Perm (draft.pushes.map (·.2))

/-- The cells hold what was pushed. -/
theorem IsFilled.flatten_cells_perm (hfilled : draft.IsFilled) :
    draft.cells.flatten.Perm (draft.pushes.map (·.2)) := by
  have hcells : draft.cells.flatten = ((List.range draft.cellCount).flatMap fun cell ↦
      draft.pushes.filter (·.1 = cell)).map (·.2) := by
    rw [List.map_flatMap, List.flatMap_def]
    rfl
  rw [hcells]
  exact (flatMap_filter_perm hfilled.cells).map _

theorem IsFilled.length_flatten_cells (hfilled : draft.IsFilled) :
    draft.cells.flatten.length = draft.count := by
  rw [hfilled.flatten_cells_perm.length_eq, List.length_map, count]

theorem IsFilled.length_code (hfilled : draft.IsFilled) :
    ∀ posting ∈ draft.cells.flatten, posting.code.length = draft.codeSize := by
  intro posting hposting
  obtain ⟨push, hpush, rfl⟩ := List.mem_map.mp (hfilled.flatten_cells_perm.mem_iff.mp hposting)
  exact hfilled.codes push hpush

theorem IsFilled.id_lt (hfilled : draft.IsFilled) :
    ∀ posting ∈ draft.cells.flatten, posting.id < 0x10000000000000000 := by
  intro posting hposting
  obtain ⟨push, hpush, rfl⟩ := List.mem_map.mp (hfilled.flatten_cells_perm.mem_iff.mp hposting)
  exact hfilled.ids push hpush

/-- The directory that is written is in order. -/
theorem checkDirectory_directory (cell : CellId) {count offset : Nat} {cells : List (List Posting)}
    (hcount : offset + cells.flatten.length = count) (hlt : count < 0x10000000000000000) :
    Segment.checkDirectory count cell offset
      ((chunks Segment.directoryEntrySize (directory offset cells)).map fun entry ↦
        (natAt entry 0 8, natAt entry 8 8)) = .ok () := by
  induction cells generalizing cell offset with
  | nil =>
    rw [directory, chunks_nil]
    exact if_pos hcount
  | cons postings rest ih =>
    rw [List.flatten_cons, List.length_append] at hcount
    have hlength : (littleEndian 8 offset ++ littleEndian 8 postings.length).length =
        Segment.directoryEntrySize := by
      rw [List.length_append, Bytes.length_littleEndian, Bytes.length_littleEndian]
      rfl
    have hne : littleEndian 8 offset ++ littleEndian 8 postings.length ≠ [] :=
      List.ne_nil_of_length_pos (by rw [hlength]; decide)
    have hoffset : natAt (littleEndian 8 offset ++ littleEndian 8 postings.length) 0 8 = offset :=
      Bytes.natAt_of_drop rfl (show offset < 0x10000000000000000 by omega)
    have hentries : natAt (littleEndian 8 offset ++ littleEndian 8 postings.length) 8 8 =
        postings.length :=
      Bytes.natAt_of_drop (List.append_nil _).symm
        (show postings.length < 0x10000000000000000 by omega)
    rw [directory, chunks_append_of_length hne hlength, List.map_cons, hoffset, hentries,
      Segment.checkDirectory, if_pos rfl,
      Nat.mod_eq_of_lt (show offset + postings.length < 0x10000000000000000 by omega)]
    exact ih _ (by omega)

/-! The numbers of the header, as they are read from the bytes. -/

variable (draft : SegmentDraft)

theorem take_magic_toBytes : draft.toBytes.take 4 = Segment.magic := rfl

theorem natAt_version : natAt draft.toBytes 4 4 = Segment.formatVersion :=
  Bytes.natAt_of_drop (show draft.toBytes.drop 4 =
    littleEndian 4 Segment.formatVersion ++ draft.toBytes.drop 8 from rfl) (by decide)

theorem natAt_dimension (hdimension : draft.dimension < 0x100000000) :
    natAt draft.toBytes 8 4 = draft.dimension :=
  Bytes.natAt_of_drop (show draft.toBytes.drop 8 =
    littleEndian 4 draft.dimension ++ draft.toBytes.drop 12 from rfl) hdimension

theorem natAt_partition (hpartition : draft.partition < 0x100000000) :
    natAt draft.toBytes 12 4 = draft.partition :=
  Bytes.natAt_of_drop (show draft.toBytes.drop 12 =
    littleEndian 4 draft.partition ++ draft.toBytes.drop 16 from rfl) hpartition

theorem natAt_base (hbase : draft.base < 0x10000000000000000) :
    natAt draft.toBytes 16 8 = draft.base :=
  Bytes.natAt_of_drop (show draft.toBytes.drop 16 =
    littleEndian 8 draft.base ++ draft.toBytes.drop 24 from rfl) hbase

theorem natAt_count (hcount : draft.count < 0x10000000000000000) :
    natAt draft.toBytes 24 8 = draft.count :=
  Bytes.natAt_of_drop (show draft.toBytes.drop 24 =
    littleEndian 8 draft.count ++ draft.toBytes.drop 32 from rfl) hcount

theorem natAt_cellCount (hcells : draft.cellCount < 0x100000000) :
    natAt draft.toBytes 32 4 = draft.cellCount :=
  Bytes.natAt_of_drop (show draft.toBytes.drop 32 =
    littleEndian 4 draft.cellCount ++ draft.toBytes.drop 36 from rfl) hcells

theorem natAt_codeSize (hsize : draft.codeSize < 0x100000000) :
    natAt draft.toBytes 36 4 = draft.codeSize :=
  Bytes.natAt_of_drop (show draft.toBytes.drop 36 =
    littleEndian 4 draft.codeSize ++ draft.toBytes.drop 40 from rfl) hsize

theorem ofPrefix_drop_toBytes :
    Fingerprint.ofPrefix (draft.toBytes.drop 40) = draft.fingerprint := by
  have hdrop : draft.toBytes.drop 40 = draft.fingerprint.bytes ++ directory 0 draft.cells ++
      (draft.cells.flatMap fun cell ↦ cell.flatMap Posting.toBytes) := rfl
  rw [hdrop, List.append_assoc, Fingerprint.ofPrefix_append]

variable {draft}

/-- What was written opens as what was drafted. -/
theorem exists_ofBytes_toBytes (hfits : draft.FitsFields) (hfilled : draft.IsFilled)
    (path : Path) :
    ∃ segment, Segment.ofBytes path draft.toBytes = .ok segment ∧ draft.Reopens segment := by
  have hmagic := draft.take_magic_toBytes
  have hversion := draft.natAt_version
  have hdimension := draft.natAt_dimension hfits.dimension
  have hpartition := draft.natAt_partition hfits.partition
  have hbase := draft.natAt_base hfits.base
  have hcount := draft.natAt_count hfits.count
  have hcells := draft.natAt_cellCount hfits.cellCount
  have hsize := draft.natAt_codeSize hfits.codeSize
  have hfingerprint := draft.ofPrefix_drop_toBytes
  have hwritten := draft.take_drop_toBytes
  have hbody : draft.toBytes.drop (Segment.headerSize + draft.cellCount *
      Segment.directoryEntrySize) = draft.cells.flatten.flatMap Posting.toBytes := by
    rw [drop_toBytes, flatMap_cells]
  have hlength : draft.toBytes.length = draft.count * Posting.size draft.codeSize +
      (Segment.headerSize + draft.cellCount * Segment.directoryEntrySize) := by
    rw [length_toBytes, Posting.length_flatMap_toBytes hfilled.length_code,
      hfilled.length_flatten_cells]
  have hdirectory := checkDirectory_directory 0
    ((Nat.zero_add _).trans hfilled.length_flatten_cells) hfits.count
  have hsplit := Posting.split_flatMap_toBytes hfilled.length_code hfilled.id_lt
  -- From here on only what is read from the bytes counts, not how they were written.
  generalize draft.toBytes = bytes at *
  rw [← hwritten, ← hcells, ← hcount] at hdirectory
  rw [← hcells] at hbody
  rw [← hsize, ← hbody] at hsplit
  have hheader : Segment.headerSize ≤ bytes.length := by
    rw [hlength]
    omega
  rw [← hcount, ← hsize, ← hcells] at hlength
  exact ⟨Segment.fromBytes path bytes,
    Segment.ofBytes_eq_ok.mpr ⟨rfl, hheader, hmagic, hversion, hlength.symm, hdirectory⟩,
    hdimension, hpartition, hbase, hcount, hcells, hsize, hfingerprint,
    hsplit ▸ hfilled.flatten_cells_perm⟩

end SegmentDraft
end VectorIndex
