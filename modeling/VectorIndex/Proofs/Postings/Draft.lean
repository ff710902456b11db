import VectorIndex.Proofs.Postings.Segment

/-!
# Opening what a draft has written

The bytes of a draft say how long they are. When they are opened with the number of cells and the
size of codes that the draft has, every cell holds the postings that were pushed to it.
-/

namespace VectorIndex

namespace SegmentDraft

open Bytes (littleEndian natAt)

/-! ## Lengths -/

theorem length_header (draft : SegmentDraft) : draft.header.length = Segment.headerSize := by
  unfold header
  simp only [List.length_append, Bytes.length_littleEndian, draft.fingerprint.length_bytes]
  rfl

theorem length_directory (offset : Nat) (cells : List (List Posting)) :
    (directory offset cells).length = cells.length * Segment.directoryEntrySize := by
  induction cells generalizing offset with
  | nil => simp [directory]
  | cons cell rest ih =>
    calc (directory offset (cell :: rest)).length
      _ = Segment.directoryEntrySize + rest.length * Segment.directoryEntrySize := by
        rw [directory, List.length_append, List.length_append, Bytes.length_littleEndian,
          Bytes.length_littleEndian, ih]
        rfl
      _ = rest.length * Segment.directoryEntrySize + Segment.directoryEntrySize :=
        Nat.add_comm _ _
      _ = (cell :: rest).length * Segment.directoryEntrySize := by
        rw [List.length_cons, Nat.succ_mul]

theorem length_cells (draft : SegmentDraft) : draft.cells.length = draft.cellCount := by
  simp [cells]

/-- The postings of all cells, cell after cell. -/
theorem flatMap_cells (draft : SegmentDraft) :
    (draft.cells.flatMap fun cell ↦ cell.flatMap Posting.toBytes) =
      draft.cells.flatten.flatMap Posting.toBytes := by
  rw [← List.flatMap_id, List.flatMap_assoc]
  rfl

theorem length_toBytes (draft : SegmentDraft) :
    draft.toBytes.length = (draft.cells.flatten.flatMap Posting.toBytes).length +
      (Segment.headerSize + draft.cellCount * Segment.directoryEntrySize) := by
  calc draft.toBytes.length
    _ = (draft.header ++ directory 0 draft.cells).length +
        (draft.cells.flatMap fun cell ↦ cell.flatMap Posting.toBytes).length :=
      List.length_append
    _ = Segment.headerSize + draft.cellCount * Segment.directoryEntrySize +
        (draft.cells.flatten.flatMap Posting.toBytes).length := by
      rw [List.length_append, length_header, length_directory, length_cells, flatMap_cells]
    _ = _ := Nat.add_comm _ _

/-! ## The directory -/

/-- The counts of the directory that is read are the counts that were written, up to their
width. -/
theorem map_natAt_directory (offset : Nat) (cells : List (List Posting)) :
    (chunks Segment.directoryEntrySize (directory offset cells)).map (natAt · 8 8) =
      cells.map fun cell ↦ cell.length % 0x10000000000000000 := by
  induction cells generalizing offset with
  | nil =>
    rw [directory, chunks_nil]
    rfl
  | cons cell rest ih =>
    have hlength : (littleEndian 8 offset ++ littleEndian 8 cell.length).length =
        Segment.directoryEntrySize := by
      rw [List.length_append, Bytes.length_littleEndian, Bytes.length_littleEndian]
      rfl
    have hne : littleEndian 8 offset ++ littleEndian 8 cell.length ≠ [] :=
      List.ne_nil_of_length_pos (by rw [hlength]; decide)
    have hcount : natAt (littleEndian 8 offset ++ littleEndian 8 cell.length) 8 8 =
        cell.length % 0x10000000000000000 := by
      unfold natAt
      rw [List.drop_left' (Bytes.length_littleEndian 8 offset),
        List.take_of_length_le (Nat.le_of_eq (Bytes.length_littleEndian 8 cell.length))]
      exact Bytes.toNat_littleEndian 8 cell.length
    rw [directory, chunks_append_of_length hne hlength, List.map_cons, ih, hcount, List.map_cons]

variable {draft : SegmentDraft} {path : Path} {segment : Segment}

/-- The directory stands behind the header. -/
theorem take_drop_toBytes :
    (draft.toBytes.drop Segment.headerSize).take (draft.cellCount * Segment.directoryEntrySize) =
      directory 0 draft.cells := by
  unfold toBytes
  rw [List.append_assoc, List.drop_left' draft.length_header, List.take_left']
  rw [length_directory, length_cells]

theorem map_readDirectory :
    (Segment.readDirectory draft.cellCount (draft.toBytes.drop Segment.headerSize)).map (·.2) =
      draft.cells.map fun cell ↦ cell.length % 0x10000000000000000 := by
  unfold Segment.readDirectory
  rw [take_drop_toBytes, List.map_map]
  exact map_natAt_directory 0 draft.cells

theorem drop_toBytes :
    draft.toBytes.drop (Segment.headerSize + draft.cellCount * Segment.directoryEntrySize) =
      draft.cells.flatMap fun cell ↦ cell.flatMap Posting.toBytes := by
  unfold toBytes
  rw [List.drop_left']
  rw [List.length_append, length_header, length_directory, length_cells]

/-! ## The postings of cells -/

theorem length_code_of_mem (hcodes : ∀ push ∈ draft.pushes, push.2.code.length = draft.codeSize)
    {cells : List Posting} (hcells : cells ∈ draft.cells) {posting : Posting}
    (hposting : posting ∈ cells) : posting.code.length = draft.codeSize := by
  obtain ⟨cell, -, rfl⟩ := List.mem_map.mp hcells
  obtain ⟨push, hpush, rfl⟩ := List.mem_map.mp hposting
  exact hcodes push (List.mem_filter.mp hpush).1

section

variable (hopen : Segment.ofBytes path draft.toBytes = .ok segment)
  (hcells : segment.cellCount = draft.cellCount) (hsize : segment.codeSize = draft.codeSize)
  (hcodes : ∀ push ∈ draft.pushes, push.2.code.length = draft.codeSize)
include hopen hcells

theorem body_of_ofBytes :
    segment.body = draft.cells.flatMap fun cell ↦ cell.flatMap Posting.toBytes := by
  rw [Segment.body, Segment.dataStart, (Segment.eq_of_ofBytes hopen).2, hcells, drop_toBytes]

include hsize hcodes

/-- The opened segment counts what the cells of the draft hold. -/
theorem count_of_ofBytes : segment.count = draft.cells.flatten.length := by
  obtain ⟨-, -, -, -, hlength, -⟩ := Segment.ofBytes_eq_ok.mp hopen
  have hflatten : ∀ posting ∈ draft.cells.flatten, posting.code.length = draft.codeSize := by
    intro posting hposting
    obtain ⟨cell, hcell, hmem⟩ := List.mem_flatten.mp hposting
    exact length_code_of_mem hcodes hcell hmem
  rw [length_toBytes, Segment.dataStart, hcells, Nat.add_right_cancel_iff,
    Posting.length_flatMap_toBytes hflatten, Segment.entrySize, hsize] at hlength
  exact Nat.eq_of_mul_eq_mul_right (Posting.size_pos _) hlength

/-- The opened directory counts what each cell of the draft holds. -/
theorem counts_of_ofBytes : segment.directory.map (·.2) = draft.cells.map List.length := by
  have hcount := count_of_ofBytes hopen hcells hsize hcodes
  have hlt := (Segment.idRange_lt_of_ofBytes hopen).2
  rw [(Segment.eq_of_ofBytes hopen).1, hcells, map_readDirectory]
  apply List.map_congr_left
  intro cell hcell
  have hle := (List.sublist_flatten_of_mem hcell).length_le
  exact Nat.mod_eq_of_lt (Nat.lt_of_le_of_lt (hcount ▸ hle) hlt)

/-- The counts of a draft that fits its header do not overflow. -/
theorem isExact_of_ofBytes : segment.IsExact := by
  rw [Segment.IsExact, Segment.entryTotal, counts_of_ofBytes hopen hcells hsize hcodes,
    ← List.length_flatten, ← count_of_ofBytes hopen hcells hsize hcodes]
  exact (Segment.idRange_lt_of_ofBytes hopen).2

/-- A cell of the opened segment holds the postings that were pushed to it, in their order. -/
theorem cellBytes_of_ofBytes {cell : CellId} (hcell : cell < draft.cellCount) :
    segment.cellBytes cell = (draft.postings cell).flatMap Posting.toBytes := by
  have hvalid := Segment.IsValid.of_ofBytes hopen
  have hexact := isExact_of_ofBytes hopen hcells hsize hcodes
  have hslices : ∀ entry ∈ segment.directory,
      (Segment.slice segment.body segment.entrySize entry).length =
        entry.2 * segment.entrySize := fun entry hentry ↦
    Segment.length_slice hvalid.length_body ((hvalid.slices hexact).2 entry hentry)
  have hcounts := counts_of_ofBytes hopen hcells hsize hcodes
  have hmaps : (List.range segment.cellCount).map segment.cellBytes =
      draft.cells.map fun cell ↦ cell.flatMap Posting.toBytes := by
    rw [List.eq_iff_flatten_eq, ← List.flatMap_def, ← List.flatMap_def,
      hvalid.flatMap_cellBytes hexact, body_of_ofBytes hopen hcells]
    refine ⟨rfl, ?_⟩
    calc ((List.range segment.cellCount).map segment.cellBytes).map List.length
        = (segment.directory.map (·.2)).map (· * segment.entrySize) := by
          rw [hvalid.map_cellBytes hexact, List.map_map, List.map_map]
          exact List.map_congr_left hslices
      _ = (draft.cells.map fun cell ↦ cell.flatMap Posting.toBytes).map List.length := by
          rw [hcounts, List.map_map, List.map_map]
          apply List.map_congr_left
          intro cell hcell
          have hlength := Posting.length_flatMap_toBytes fun posting hposting ↦
            length_code_of_mem hcodes hcell hposting
          exact (congrArg (cell.length * Posting.size ·) hsize).trans hlength.symm
  have hget := congrArg (·[cell]?) hmaps
  simpa [cells, hcells, hcell] using hget

end

end SegmentDraft
end VectorIndex
