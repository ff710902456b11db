import VectorIndex.Proofs.Postings.Order

/-!
# Which files are segments

The format of a segment file as a property of its bytes alone: a header, a length that is what the
header describes, and a directory whose offsets are the sums of the counts before them. The bytes
that have it are those that are opened. Whatever is read from them afterwards lies within them, and
cell after cell it is all that follows the directory. Sums and products are exact, and so are those
of the reader when the counts of the directory add up to a number of 64 bits.
-/

namespace VectorIndex

/-! ## Numbers in parts of bytes -/

namespace Bytes

theorem natAt_drop (bytes : Bytes) (start offset width : Nat) :
    natAt (bytes.drop start) offset width = natAt bytes (start + offset) width := by
  rw [natAt, natAt, List.drop_drop]

theorem natAt_take {bytes : Bytes} {stop offset width : Nat} (hstop : offset + width ≤ stop) :
    natAt (bytes.take stop) offset width = natAt bytes offset width := by
  rw [natAt, natAt, List.drop_take, List.take_take, Nat.min_eq_left (by omega)]

/-- The number in the `width` bytes from `offset` on, when all of them are there. -/
def natAt? (bytes : Bytes) (offset width : Nat) : Option Nat :=
  (slice? bytes offset (offset + width)).map toNat

theorem natAt?_eq_some {bytes : Bytes} {offset width : Nat}
    (hstop : offset + width ≤ bytes.length) :
    natAt? bytes offset width = some (natAt bytes offset width) := by
  rw [natAt?, slice?_eq_some hstop]
  rfl

end Bytes

namespace Segment

open Bytes (natAt natAt?)

/-! ## The format -/

/-- Where the postings of a file start. -/
def bodyStart (bytes : Bytes) : Nat := headerSize + natAt bytes 32 4 * directoryEntrySize

/-- The offset and the count that the directory of a file has for a cell. -/
def extentAt (bytes : Bytes) (cell : CellId) : Nat × Nat :=
  (natAt bytes (headerSize + cell * directoryEntrySize) 8,
    natAt bytes (headerSize + cell * directoryEntrySize + 8) 8)

/-- How many postings the cells before a cell have. -/
def entriesBefore (extent : CellId → Nat × Nat) : CellId → Nat
  | 0 => 0
  | cell + 1 => entriesBefore extent cell + (extent cell).2

/-- Bytes of a segment file. The header has the number of cells in its bytes 32 to 35, the size of a
code in its bytes 36 to 39 and the number of postings in its bytes 24 to 31. -/
structure IsFile (bytes : Bytes) : Prop where
  header : headerSize ≤ bytes.length
  magic : bytes.take 4 = Segment.magic
  version : natAt bytes 4 4 = formatVersion
  length : bytes.length = bodyStart bytes + natAt bytes 24 8 * Posting.size (natAt bytes 36 4)
  offset : ∀ cell < natAt bytes 32 4,
    (extentAt bytes cell).1 = entriesBefore (extentAt bytes) cell
  count : entriesBefore (extentAt bytes) (natAt bytes 32 4) = natAt bytes 24 8

/-! ## The directory -/

theorem entriesBefore_add_entryTotal (extent : CellId → Nat × Nat) (cell cells : Nat) :
    entriesBefore extent cell + entryTotal ((List.range' cell cells).map extent) =
      entriesBefore extent (cell + cells) := by
  induction cells generalizing cell with
  | zero => rfl
  | succ cells ih =>
    rw [List.range'_succ, List.map_cons, entryTotal_cons, ← Nat.add_assoc]
    exact (ih (cell + 1)).trans (congrArg _ (by omega))

theorem checkDirectory_map_range' (count : Nat) {extent : CellId → Nat × Nat} {cell cells : Nat}
    (hexact : entriesBefore extent (cell + cells) < 0x10000000000000000) :
    checkDirectory count cell (entriesBefore extent cell)
        ((List.range' cell cells).map extent) = .ok () ↔
      (∀ later, cell ≤ later → later < cell + cells →
        (extent later).1 = entriesBefore extent later) ∧
        entriesBefore extent (cell + cells) = count := by
  induction cells generalizing cell with
  | zero =>
    rw [List.range'_zero, List.map_nil, checkDirectory_nil_eq_ok, Nat.add_zero]
    exact (and_iff_right fun later hle hlt ↦ absurd hle (Nat.not_le_of_lt hlt)).symm
  | succ cells ih =>
    have hnext : cell + 1 + cells = cell + (cells + 1) := by omega
    have hrest := ih (hnext ▸ hexact)
    rw [hnext, entriesBefore] at hrest
    rw [← entriesBefore_add_entryTotal] at hexact
    rw [List.range'_succ, List.map_cons] at hexact ⊢
    rw [checkDirectory_cons_eq_ok hexact, hrest, ← and_assoc]
    refine and_congr_left fun _ ↦ ⟨fun ⟨hoffset, hlater⟩ later hle hlt ↦ ?_, fun hlater ↦
      ⟨hlater cell (Nat.le_refl cell) (by omega),
        fun later hle ↦ hlater later (Nat.le_of_succ_le hle)⟩⟩
    rcases Nat.eq_or_lt_of_le hle with rfl | hgt
    · exact hoffset
    · exact hlater later hgt hlt

/-- The directory that is read has the offset and the count of each cell. -/
theorem readDirectory_eq_map {bytes : Bytes} {cells : Nat}
    (hlength : headerSize + cells * directoryEntrySize ≤ bytes.length) :
    readDirectory cells (bytes.drop headerSize) = (List.range cells).map (extentAt bytes) := by
  have htable : ((bytes.drop headerSize).take (cells * directoryEntrySize)).length =
      cells * directoryEntrySize := by
    rw [List.length_take, List.length_drop]
    omega
  unfold readDirectory
  rw [chunks_eq_map_range (by decide) htable, List.map_map]
  apply List.map_congr_left
  intro cell hcell
  have hroom : cell * directoryEntrySize + directoryEntrySize ≤ cells * directoryEntrySize := by
    rw [← Nat.succ_mul]
    exact Nat.mul_le_mul_right _ (List.mem_range.mp hcell)
  have hfield {offset width : Nat} (hwidth : offset + width ≤ directoryEntrySize) :
      natAt ((((bytes.drop headerSize).take (cells * directoryEntrySize)).drop
        (cell * directoryEntrySize)).take directoryEntrySize) offset width =
          natAt bytes (headerSize + cell * directoryEntrySize + offset) width := by
    rw [Bytes.natAt_take hwidth, Bytes.natAt_drop, Bytes.natAt_take (by omega), Bytes.natAt_drop,
      Nat.add_assoc]
  exact congrArg₂ Prod.mk (hfield (by decide)) (hfield (by decide))

/-! ## Opening -/

/-- The counts in the directory of a file add up to a number of 64 bits, if the file has all of its
directory. -/
def CountsExactly (bytes : Bytes) : Prop :=
  bodyStart bytes ≤ bytes.length →
    entriesBefore (extentAt bytes) (natAt bytes 32 4) < 0x10000000000000000

theorem isExact_fromBytes {bytes : Bytes} (hexact : CountsExactly bytes)
    (hlength : bodyStart bytes ≤ bytes.length) (path : Path) : (fromBytes path bytes).IsExact := by
  have htotal := entriesBefore_add_entryTotal (extentAt bytes) 0 (natAt bytes 32 4)
  rw [← List.range_eq_range', ← readDirectory_eq_map hlength, entriesBefore, Nat.zero_add,
    Nat.zero_add] at htotal
  exact Nat.lt_of_le_of_lt (Nat.le_of_eq htotal) (hexact hlength)

theorem ofBytes_eq_ok_iff_isFile {path : Path} {bytes : Bytes} {segment : Segment}
    (hexact : CountsExactly bytes) :
    ofBytes path bytes = .ok segment ↔ segment = fromBytes path bytes ∧ IsFile bytes := by
  rw [ofBytes_eq_ok]
  refine and_congr_right ?_
  rintro rfl
  have hdirectory (hlength : bodyStart bytes ≤ bytes.length) :
      checkDirectory (natAt bytes 24 8) 0 0 (fromBytes path bytes).directory = .ok () ↔
        (∀ cell < natAt bytes 32 4, (extentAt bytes cell).1 = entriesBefore (extentAt bytes) cell) ∧
          entriesBefore (extentAt bytes) (natAt bytes 32 4) = natAt bytes 24 8 := by
    have htotal := hexact hlength
    rw [← Nat.zero_add (natAt bytes 32 4)] at htotal
    have hchecked := checkDirectory_map_range' (natAt bytes 24 8) htotal
    rw [← List.range_eq_range', ← readDirectory_eq_map hlength, Nat.zero_add] at hchecked
    exact hchecked.trans (and_congr_left' ⟨fun hoffset cell ↦ hoffset cell (Nat.zero_le cell),
      fun hoffset cell _ ↦ hoffset cell⟩)
  constructor
  · rintro ⟨hheader, hmagic, hversion, hlength, hcheck⟩
    obtain ⟨hoffset, hcount⟩ := (hdirectory (hlength ▸ Nat.le_add_left _ _)).mp hcheck
    exact ⟨hheader, hmagic, hversion, hlength.symm.trans (Nat.add_comm _ _), hoffset, hcount⟩
  · rintro ⟨hheader, hmagic, hversion, hlength, hoffset, hcount⟩
    exact ⟨hheader, hmagic, hversion, (Nat.add_comm _ _).trans hlength.symm,
      (hdirectory (hlength ▸ Nat.le_add_right _ _)).mpr ⟨hoffset, hcount⟩⟩

/-! ## The bytes of cells -/

/-- The bytes of a cell's postings, which have to be there, as has the entry of the directory. -/
def cellBytes? (bytes : Bytes) (cell : CellId) : Option Bytes := do
  let entry := headerSize + cell * directoryEntrySize
  let offset ← natAt? bytes entry 8
  let entries ← natAt? bytes (entry + 8) 8
  let size := Posting.size (natAt bytes 36 4)
  let start := bodyStart bytes + offset * size
  slice? bytes start (start + entries * size)

theorem entriesBefore_mono {extent : CellId → Nat × Nat} {cell later : CellId}
    (hle : cell ≤ later) : entriesBefore extent cell ≤ entriesBefore extent later := by
  induction hle with
  | refl => exact Nat.le_refl _
  | step _ ih => exact Nat.le_trans ih (Nat.le_add_right _ _)

namespace IsFile

variable {bytes : Bytes} (hfile : IsFile bytes)
include hfile

theorem bodyStart_le : bodyStart bytes ≤ bytes.length := hfile.length ▸ Nat.le_add_right _ _

theorem directory_eq (path : Path) :
    (fromBytes path bytes).directory =
      (List.range (natAt bytes 32 4)).map (extentAt bytes) :=
  readDirectory_eq_map hfile.bodyStart_le

/-- The postings of a cell end within the file. -/
theorem stop_le {cell : CellId} (hcell : cell < natAt bytes 32 4) :
    bodyStart bytes + (extentAt bytes cell).1 * Posting.size (natAt bytes 36 4) +
      (extentAt bytes cell).2 * Posting.size (natAt bytes 36 4) ≤ bytes.length := by
  have hcount : (extentAt bytes cell).1 + (extentAt bytes cell).2 ≤ natAt bytes 24 8 :=
    calc (extentAt bytes cell).1 + (extentAt bytes cell).2
      _ = entriesBefore (extentAt bytes) (cell + 1) := by
        rw [hfile.offset cell hcell, entriesBefore]
      _ ≤ entriesBefore (extentAt bytes) (natAt bytes 32 4) := entriesBefore_mono hcell
      _ = natAt bytes 24 8 := hfile.count
  rw [hfile.length, Nat.add_assoc, ← Nat.add_mul]
  exact Nat.add_le_add_left (Nat.mul_le_mul_right _ hcount) _

/-- Nothing is missing when the postings of a cell are taken from the file. -/
theorem cellBytes?_eq (path : Path) {cell : CellId} (hcell : cell < natAt bytes 32 4) :
    cellBytes? bytes cell = some ((fromBytes path bytes).cellBytes cell) := by
  have hentry : headerSize + cell * directoryEntrySize + directoryEntrySize ≤ bytes.length := by
    refine Nat.le_trans ?_ hfile.bodyStart_le
    rw [Nat.add_assoc, ← Nat.succ_mul]
    exact Nat.add_le_add_left (Nat.mul_le_mul_right _ hcell) _
  have hoffset : headerSize + cell * directoryEntrySize + 8 ≤ bytes.length :=
    Nat.le_trans (Nat.add_le_add_left (by decide) _) hentry
  have hentries : headerSize + cell * directoryEntrySize + 8 + 8 ≤ bytes.length := hentry
  have hdirectory : (fromBytes path bytes).directory.getD cell (0, 0) = extentAt bytes cell := by
    rw [hfile.directory_eq, List.getD_eq_getElem?_getD, List.getElem?_map,
      List.getElem?_range hcell]
    rfl
  have hstop := hfile.stop_le hcell
  have hslice : (fromBytes path bytes).cellSlice? cell =
      some ((bytes.drop (bodyStart bytes +
        (extentAt bytes cell).1 * Posting.size (natAt bytes 36 4))).take
          ((extentAt bytes cell).2 * Posting.size (natAt bytes 36 4))) := by
    rw [cellSlice?, hdirectory]
    apply run?_eq_some
    rwa [Nat.add_mul, ← Nat.add_assoc]
  unfold cellBytes?
  dsimp only
  rw [Bytes.natAt?_eq_some hoffset, Bytes.natAt?_eq_some hentries, cellBytes, hslice]
  exact slice?_eq_some hstop

/-- A file that is cut off is no segment any more. -/
theorem not_take {stop : Nat} (hstop : stop < bytes.length) : ¬IsFile (bytes.take stop) := by
  intro hcut
  have hlength : (bytes.take stop).length = stop := by
    rw [List.length_take, Nat.min_eq_left (Nat.le_of_lt hstop)]
  have hheader : 72 ≤ stop := hlength ▸ hcut.header
  have hsame := hcut.length
  rw [hlength, bodyStart, Bytes.natAt_take (by omega), Bytes.natAt_take (by omega),
    Bytes.natAt_take (by omega)] at hsame
  exact absurd (hsame.trans hfile.length.symm) (Nat.ne_of_lt hstop)

end IsFile

/-- A file that can be read, and whose directory counts no more postings than 64 bits hold, is opened
when it is a segment, and is corrupt otherwise. Of an opened segment the bytes of every cell lie
within the file, they are whole postings, and cell after cell they are what follows the directory. -/
theorem open_checks {path : Path} {tree : Tree} {bytes : Bytes}
    (hread : tree.read path = .ok bytes) (hexact : CountsExactly bytes) :
    ((∃ segment, (Segment.open path).runOn tree = (.ok segment, tree)) ↔ IsFile bytes) ∧
      (¬IsFile bytes →
        ∃ reason, (Segment.open path).runOn tree = (.error (.indexCorrupt path reason), tree)) ∧
      ∀ segment changed, (Segment.open path).runOn tree = (.ok segment, changed) →
        segment.cellCount = natAt bytes 32 4 ∧ segment.codeSize = natAt bytes 36 4 ∧
          (∀ cell < segment.cellCount, cellBytes? bytes cell = some (segment.cellBytes cell) ∧
            segment.entrySize ∣ (segment.cellBytes cell).length) ∧
          (List.range segment.cellCount).flatMap segment.cellBytes =
            bytes.drop (bodyStart bytes) := by
  have hopened {segment : Segment} :
      (ofBytes path bytes).mapError (IndexError.indexCorrupt path) = .ok segment ↔
        segment = fromBytes path bytes ∧ IsFile bytes :=
    Result.mapError_ok.trans (ofBytes_eq_ok_iff_isFile hexact)
  rw [runOn_open hread]
  refine ⟨?_, ?_, ?_⟩
  · simp only [Prod.mk.injEq, and_true, hopened]
    exact ⟨fun ⟨_, _, hfile⟩ ↦ hfile, fun hfile ↦ ⟨_, rfl, hfile⟩⟩
  · intro hfile
    cases hbytes : ofBytes path bytes with
    | error reason => exact ⟨reason, rfl⟩
    | ok segment => exact absurd ((ofBytes_eq_ok_iff_isFile hexact).mp hbytes).2 hfile
  · intro segment changed hrun
    obtain ⟨rfl, hfile⟩ := hopened.mp (Prod.mk.inj hrun).1
    have hvalid : (fromBytes path bytes).IsValid :=
      .of_ofBytes ((ofBytes_eq_ok_iff_isFile hexact).mpr ⟨rfl, hfile⟩)
    have hcounted := isExact_fromBytes hexact hfile.bodyStart_le path
    refine ⟨rfl, rfl, fun cell hcell ↦ ?_, hvalid.flatMap_cellBytes hcounted⟩
    exact ⟨hfile.cellBytes?_eq path hcell, hvalid.size_dvd_cellBytes hcounted cell⟩

/-- A segment of three cells, the middle one without postings, and the same file without its last
byte. -/
def sparseDraft : SegmentDraft :=
  ⟨4, 8, 2, 1, 3, .ofPrefix [], [(2, ⟨8, [1]⟩), (0, ⟨9, [0]⟩), (2, ⟨10, [1]⟩)]⟩

def sparseTree : Tree :=
  ⟨[(["whole.seg"], .file sparseDraft.toBytes 0),
    (["cut.seg"], .file (sparseDraft.toBytes.take 146) 0)], 0⟩

theorem isFile_sparseDraft : IsFile sparseDraft.toBytes :=
  ⟨by decide +kernel, by decide +kernel, by decide +kernel, by decide +kernel, by decide +kernel,
    by decide +kernel⟩

/-- The whole file is opened and all its cells are there; the other file is corrupt. -/
theorem open_checks_sparse :
    (∃ segment, (Segment.open "whole.seg").runOn sparseTree = (.ok segment, sparseTree) ∧
      ∀ cell < 3, ∃ entries, cellBytes? sparseDraft.toBytes cell = some entries ∧
        9 ∣ entries.length) ∧
      ∃ reason, (Segment.open "cut.seg").runOn sparseTree =
        (.error (.indexCorrupt "cut.seg" reason), sparseTree) := by
  have hwhole : sparseTree.read "whole.seg" = .ok sparseDraft.toBytes := rfl
  have hcut : sparseTree.read "cut.seg" = .ok (sparseDraft.toBytes.take 146) := rfl
  obtain ⟨hopens, -, hcells⟩ := open_checks hwhole fun _ ↦ by decide
  obtain ⟨-, hcorrupt, -⟩ := open_checks hcut fun _ ↦ by decide
  obtain ⟨segment, hopen⟩ := hopens.mpr isFile_sparseDraft
  obtain ⟨hcellCount, hcodeSize, hbytes, -⟩ := hcells segment sparseTree hopen
  have hsize : segment.entrySize = 9 := congrArg Posting.size hcodeSize
  refine ⟨⟨segment, hopen, fun cell hcell ↦ ?_⟩,
    hcorrupt (isFile_sparseDraft.not_take (by decide +kernel))⟩
  obtain ⟨hsome, hdvd⟩ := hbytes cell (hcellCount ▸ hcell)
  exact ⟨_, hsome, hsize ▸ hdvd⟩

end Segment
end VectorIndex
