import Mathlib.Algebra.GroupWithZero.Nat
import VectorIndex.Postings.Segment
import VectorIndex.Proofs.Result
import VectorIndex.Proofs.Sequence.Chunks

/-!
# What an opened segment holds

The directory of an opened segment cuts its body into the postings of its cells, cell after cell
and with nothing left over, when it counts no more postings than 64 bits hold. A directory that
counts more may come round to the number in the header and is not refused; what it says of a cell is
then not what is behind it. A cell is looked into only where its bytes lie within the file.
-/

namespace VectorIndex

/-! ## Postings -/

namespace Posting

theorem size_pos (codeSize : Nat) : 0 < size codeSize := by
  unfold size idSize
  omega

theorem length_toBytes (posting : Posting) :
    posting.toBytes.length = size posting.code.length := by
  unfold toBytes size
  rw [List.length_append, Bytes.length_littleEndian]

/-- Whole runs of postings are split where they are joined. -/
theorem split_append {codeSize : Nat} {first : Bytes} (hdvd : size codeSize ∣ first.length)
    (second : Bytes) :
    split codeSize (first ++ second) = split codeSize first ++ split codeSize second := by
  unfold split
  rw [chunks_append (size_pos codeSize) hdvd, List.filter_append, List.map_append]

/-- Nothing is left over from whole postings. -/
theorem split_eq_map {codeSize : Nat} {bytes : Bytes} (hdvd : size codeSize ∣ bytes.length) :
    split codeSize bytes = (chunks (size codeSize) bytes).map ofBytes := by
  unfold split
  rw [List.filter_eq_self.mpr]
  exact fun chunk hchunk ↦
    decide_eq_true (length_of_mem_chunks (size_pos codeSize) hdvd hchunk)

theorem split_flatten {codeSize : Nat} {runs : List Bytes}
    (hruns : ∀ run ∈ runs, size codeSize ∣ run.length) :
    split codeSize runs.flatten = runs.flatMap (split codeSize) := by
  induction runs with
  | nil => simp [split]
  | cons run rest ih =>
    obtain ⟨hrun, hrest⟩ := List.forall_mem_cons.mp hruns
    rw [List.flatten_cons, split_append hrun, ih hrest, List.flatMap_cons]

/-- The length of the bytes of postings with codes of one size. -/
theorem length_flatMap_toBytes {codeSize : Nat} {postings : List Posting}
    (hcodes : ∀ posting ∈ postings, posting.code.length = codeSize) :
    (postings.flatMap toBytes).length = postings.length * size codeSize := by
  induction postings with
  | nil => simp
  | cons posting rest ih =>
    obtain ⟨hcode, hrest⟩ := List.forall_mem_cons.mp hcodes
    calc ((posting :: rest).flatMap toBytes).length
      _ = posting.toBytes.length + (rest.flatMap toBytes).length := by
        rw [List.flatMap_cons, List.length_append]
      _ = size codeSize + rest.length * size codeSize := by rw [length_toBytes, hcode, ih hrest]
      _ = (posting :: rest).length * size codeSize := by
        rw [List.length_cons, Nat.succ_mul, Nat.add_comm]

end Posting

namespace Segment

open Bytes (natAt)
open Result (guard_ok bind_ok pure_ok mapError_ok)

/-! ## The directory -/

/-- How many postings a directory counts. -/
def entryTotal (directory : List (Nat × Nat)) : Nat := (directory.map (·.2)).sum

theorem entryTotal_cons (entry : Nat × Nat) (rest : List (Nat × Nat)) :
    entryTotal (entry :: rest) = entry.2 + entryTotal rest := List.sum_cons

theorem checkDirectory_nil_eq_ok {count : Nat} {cell : CellId} {next : Nat} :
    checkDirectory count cell next [] = .ok () ↔ next = count := by
  rw [checkDirectory]
  split
  · next heq => exact iff_of_true rfl heq
  · next hne => exact iff_of_false nofun hne

/-- A directory without an overflow is in order when its first cell starts where it should and the
rest is in order behind that cell. -/
theorem checkDirectory_cons_eq_ok {count : Nat} {cell : CellId} {next : Nat} {entry : Nat × Nat}
    {rest : List (Nat × Nat)} (hexact : next + entryTotal (entry :: rest) < 0x10000000000000000) :
    checkDirectory count cell next (entry :: rest) = .ok () ↔
      entry.1 = next ∧ checkDirectory count (cell + 1) (next + entry.2) rest = .ok () := by
  rw [entryTotal_cons] at hexact
  have hnext : (next + entry.2) % 0x10000000000000000 = next + entry.2 :=
    Nat.mod_eq_of_lt (by omega)
  rw [checkDirectory, hnext]
  split
  · next hoffset => exact (and_iff_right hoffset).symm
  · next hoffset => exact iff_of_false nofun fun hcheck ↦ hoffset hcheck.1

/-- What a directory in order counts is what is left from where it starts. -/
theorem checkDirectory_total {count : Nat} {cell : CellId} {next : Nat}
    {directory : List (Nat × Nat)} (hexact : next + entryTotal directory < 0x10000000000000000)
    (hcheck : checkDirectory count cell next directory = .ok ()) :
    next + entryTotal directory = count := by
  induction directory generalizing cell next with
  | nil => exact checkDirectory_nil_eq_ok.mp hcheck
  | cons entry rest ih =>
    obtain ⟨-, hrest⟩ := (checkDirectory_cons_eq_ok hexact).mp hcheck
    rw [entryTotal_cons, ← Nat.add_assoc] at hexact ⊢
    exact ih hexact hrest

/-- The bytes of as many postings as an entry of the directory says, from its offset on. -/
def slice (body : Bytes) (size : Nat) (entry : Nat × Nat) : Bytes :=
  (body.drop (entry.1 * size)).take (entry.2 * size)

theorem length_slice {body : Bytes} {size count : Nat} (hbody : body.length = count * size)
    {entry : Nat × Nat} (hle : entry.1 + entry.2 ≤ count) :
    (slice body size entry).length = entry.2 * size := by
  have hmul : (entry.1 + entry.2) * size ≤ body.length := hbody ▸ Nat.mul_le_mul_right size hle
  rw [Nat.add_mul] at hmul
  rw [slice, List.length_take, List.length_drop]
  omega

/-- A directory that is in order cuts the rest of the body into runs that lie within it. -/
theorem slices_of_checkDirectory {body : Bytes} {size count : Nat}
    (hbody : body.length = count * size) {directory : List (Nat × Nat)} {cell : CellId} {next : Nat}
    (hexact : next + entryTotal directory < 0x10000000000000000)
    (hcheck : checkDirectory count cell next directory = .ok ()) :
    (directory.map (slice body size)).flatten = body.drop (next * size) ∧
      ∀ entry ∈ directory, entry.1 + entry.2 ≤ count := by
  induction directory generalizing cell next with
  | nil =>
    obtain rfl := checkDirectory_nil_eq_ok.mp hcheck
    refine ⟨?_, nofun⟩
    rw [← hbody, List.drop_length, List.map_nil, List.flatten_nil]
  | cons entry rest ih =>
    have hcount := checkDirectory_total hexact hcheck
    obtain ⟨rfl, hrest⟩ := (checkDirectory_cons_eq_ok hexact).mp hcheck
    rw [entryTotal_cons, ← Nat.add_assoc] at hexact hcount
    obtain ⟨hflatten, hwithin⟩ := ih hexact hrest
    constructor
    · rw [List.map_cons, List.flatten_cons, hflatten, Nat.add_mul, ← List.drop_drop]
      exact List.take_append_drop _ _
    · exact List.forall_mem_cons.mpr ⟨hcount ▸ Nat.le_add_right _ _, hwithin⟩

theorem length_readDirectory {cellCount : Nat} {bytes : Bytes}
    (hlength : cellCount * directoryEntrySize ≤ bytes.length) :
    (readDirectory cellCount bytes).length = cellCount := by
  unfold readDirectory
  rw [List.length_map]
  apply length_chunks (by decide)
  rw [List.length_take, Nat.min_eq_left hlength]

/-! ## Opening -/

/-- What the header describes is what follows it, and the directory is in order. -/
structure IsValid (segment : Segment) : Prop where
  length_directory : segment.directory.length = segment.cellCount
  length_bytes : segment.count * segment.entrySize + segment.dataStart = segment.bytes.length
  checkDirectory : checkDirectory segment.count 0 0 segment.directory = .ok ()

theorem IsValid.length_body {segment : Segment} (hvalid : segment.IsValid) :
    segment.body.length = segment.count * segment.entrySize := by
  rw [body, List.length_drop]
  exact Nat.sub_eq_of_eq_add hvalid.length_bytes.symm

/-- The directory counts no more postings than 64 bits hold. -/
def IsExact (segment : Segment) : Prop := entryTotal segment.directory < 0x10000000000000000

instance (segment : Segment) : Decidable segment.IsExact := inferInstanceAs (Decidable (_ < _))

/-- The directory cuts the body, and counts what the header says. -/
theorem IsValid.slices {segment : Segment} (hvalid : segment.IsValid) (hexact : segment.IsExact) :
    (segment.directory.map (slice segment.body segment.entrySize)).flatten = segment.body ∧
      ∀ entry ∈ segment.directory, entry.1 + entry.2 ≤ segment.count := by
  have hslices := slices_of_checkDirectory hvalid.length_body
    ((Nat.zero_add _).symm ▸ hexact) hvalid.checkDirectory
  rwa [Nat.zero_mul, List.drop_zero] at hslices

/-- The segment that bytes hold when they hold one. -/
def fromBytes (path : Path) (bytes : Bytes) : Segment :=
  let cellCount := natAt bytes 32 4
  ⟨path, natAt bytes 8 4, natAt bytes 12 4, natAt bytes 16 8, natAt bytes 24 8, cellCount,
    natAt bytes 36 4, .ofPrefix (bytes.drop 40), readDirectory cellCount (bytes.drop headerSize),
    bytes⟩

/-- Bytes hold a segment when they have a header, as many bytes behind it as it describes, and a
directory in order. -/
theorem ofBytes_eq_ok {path : Path} {bytes : Bytes} {segment : Segment} :
    ofBytes path bytes = .ok segment ↔
      segment = fromBytes path bytes ∧ headerSize ≤ bytes.length ∧ bytes.take 4 = magic ∧
        natAt bytes 4 4 = formatVersion ∧
        segment.count * segment.entrySize + segment.dataStart = bytes.length ∧
        Segment.checkDirectory segment.count 0 0 segment.directory = .ok () := by
  unfold ofBytes
  simp only [guard_ok, bind_ok, pure_ok]
  constructor
  · rintro ⟨hheader, hmagic, hversion, hlength, done, hdirectory, rfl⟩
    exact ⟨rfl, Nat.le_of_not_lt hheader, Decidable.of_not_not hmagic,
      Decidable.of_not_not hversion, Decidable.of_not_not hlength, hdirectory⟩
  · rintro ⟨rfl, hheader, hmagic, hversion, hlength, hdirectory⟩
    exact ⟨Nat.not_lt_of_le hheader, not_not_intro hmagic, not_not_intro hversion,
      not_not_intro hlength, (), hdirectory, rfl⟩

theorem IsValid.of_ofBytes {path : Path} {bytes : Bytes} {segment : Segment}
    (hopen : ofBytes path bytes = .ok segment) : segment.IsValid := by
  obtain ⟨rfl, hheader, hmagic, hversion, hlength, hdirectory⟩ := ofBytes_eq_ok.mp hopen
  refine ⟨?_, hlength, hdirectory⟩
  apply length_readDirectory
  have hle : headerSize + natAt bytes 32 4 * directoryEntrySize ≤ bytes.length :=
    hlength ▸ Nat.le_add_left _ _
  rw [List.length_drop]
  omega

theorem idRange_lt_of_ofBytes {path : Path} {bytes : Bytes} {segment : Segment}
    (hopen : ofBytes path bytes = .ok segment) :
    segment.base < 0x10000000000000000 ∧ segment.count < 0x10000000000000000 := by
  obtain ⟨rfl, -⟩ := ofBytes_eq_ok.mp hopen
  exact ⟨Bytes.natAt_lt bytes 16 8, Bytes.natAt_lt bytes 24 8⟩

theorem partition_lt_of_ofBytes {path : Path} {bytes : Bytes} {segment : Segment}
    (hopen : ofBytes path bytes = .ok segment) : segment.partition < 0x100000000 := by
  obtain ⟨rfl, -⟩ := ofBytes_eq_ok.mp hopen
  exact Bytes.natAt_lt bytes 12 4

/-- The directory and the body are what follows the header. -/
theorem eq_of_ofBytes {path : Path} {bytes : Bytes} {segment : Segment}
    (hopen : ofBytes path bytes = .ok segment) :
    segment.directory = readDirectory segment.cellCount (bytes.drop headerSize) ∧
      segment.bytes = bytes := by
  obtain ⟨rfl, -⟩ := ofBytes_eq_ok.mp hopen
  exact ⟨rfl, rfl⟩

/-! ## The postings of cells -/

/-- The bytes of a cell lie within the file. -/
theorem IsValid.cellSlice?_eq {segment : Segment} (hvalid : segment.IsValid)
    (hexact : segment.IsExact) (cell : CellId) :
    segment.cellSlice? cell =
      some (slice segment.body segment.entrySize (segment.directory.getD cell (0, 0))) := by
  have hwithin : (segment.directory.getD cell (0, 0)).1 + (segment.directory.getD cell (0, 0)).2 ≤
      segment.count := by
    rw [List.getD_eq_getElem?_getD]
    cases hentry : segment.directory[cell]? with
    | none => exact Nat.zero_le _
    | some entry => exact (hvalid.slices hexact).2 entry (List.mem_of_getElem? hentry)
  generalize hentry : segment.directory.getD cell (0, 0) = entry at hwithin
  have hstop : segment.dataStart + (entry.1 + entry.2) * segment.entrySize ≤
      segment.bytes.length := by
    rw [← hvalid.length_bytes, Nat.add_comm]
    exact Nat.add_le_add_right (Nat.mul_le_mul_right _ hwithin) _
  rw [cellSlice?, hentry]
  dsimp only
  rw [run?_eq_some hstop, slice, body, List.drop_drop]

theorem IsValid.cellBytes_eq_slice {segment : Segment} (hvalid : segment.IsValid)
    (hexact : segment.IsExact) (cell : CellId) :
    segment.cellBytes cell =
      slice segment.body segment.entrySize (segment.directory.getD cell (0, 0)) := by
  rw [cellBytes, hvalid.cellSlice?_eq hexact, Option.getD_some]

theorem IsValid.map_cellBytes {segment : Segment} (hvalid : segment.IsValid)
    (hexact : segment.IsExact) :
    (List.range segment.cellCount).map segment.cellBytes =
      segment.directory.map (slice segment.body segment.entrySize) := by
  apply List.ext_getElem
  · rw [List.length_map, List.length_map, List.length_range, hvalid.length_directory]
  · intro cell hcell hcell'
    rw [List.length_map] at hcell'
    rw [List.getElem_map, List.getElem_map, List.getElem_range, hvalid.cellBytes_eq_slice hexact,
      List.getD_eq_getElem?_getD, List.getElem?_eq_getElem hcell', Option.getD_some]

/-- Cell after cell the postings are the body. -/
theorem IsValid.flatMap_cellBytes {segment : Segment} (hvalid : segment.IsValid)
    (hexact : segment.IsExact) :
    (List.range segment.cellCount).flatMap segment.cellBytes = segment.body := by
  rw [List.flatMap_def, hvalid.map_cellBytes hexact, (hvalid.slices hexact).1]

theorem IsValid.length_cellBytes {segment : Segment} (hvalid : segment.IsValid)
    (hexact : segment.IsExact) (cell : CellId) :
    (segment.cellBytes cell).length =
      (segment.directory.getD cell (0, 0)).2 * segment.entrySize := by
  rw [hvalid.cellBytes_eq_slice hexact, List.getD_eq_getElem?_getD]
  cases hentry : segment.directory[cell]? with
  | none => simp [slice]
  | some entry =>
    exact length_slice hvalid.length_body
      ((hvalid.slices hexact).2 entry (List.mem_of_getElem? hentry))

theorem IsValid.size_dvd_cellBytes {segment : Segment} (hvalid : segment.IsValid)
    (hexact : segment.IsExact) (cell : CellId) :
    segment.entrySize ∣ (segment.cellBytes cell).length :=
  ⟨_, (hvalid.length_cellBytes hexact cell).trans (Nat.mul_comm _ _)⟩

/-! ## Checks -/

theorem checkAll_eq_ok {α : Type} {test : α → Except IndexError Unit} {values : List α} :
    checkAll test values = .ok () ↔ ∀ value ∈ values, test value = .ok () := by
  induction values with
  | nil => simp [checkAll]
  | cons value rest ih =>
    rw [checkAll, List.forall_mem_cons, ← ih]
    cases test value with
    | ok done => simp
    | error error => simp

/-- Cells pass a test when they lie within the file and their postings pass it. -/
theorem checkCells_eq_ok {segment : Segment} {test : CellId → Posting → Except IndexError Unit}
    {cells : List CellId} :
    segment.checkCells test cells = .ok () ↔ ∀ cell ∈ cells,
      (segment.cellSlice? cell).isSome ∧ ∀ posting ∈ segment.postings cell,
        test cell posting = .ok () := by
  induction cells with
  | nil => simp [checkCells]
  | cons cell rest ih =>
    rw [List.forall_mem_cons, ← ih, checkCells, postings, cellBytes]
    cases segment.cellSlice? cell with
    | none => simp
    | some bytes =>
      rw [Option.getD_some, ← checkAll_eq_ok]
      dsimp only
      cases checkAll (test cell) (Posting.split segment.codeSize bytes) with
      | ok done => simp
      | error error => simp

/-- Cells of a segment without an overflow pass a test when their postings do. -/
theorem IsValid.checkCells_eq_ok {segment : Segment} (hvalid : segment.IsValid)
    (hexact : segment.IsExact) {test : CellId → Posting → Except IndexError Unit}
    {cells : List CellId} :
    segment.checkCells test cells = .ok () ↔
      ∀ cell ∈ cells, ∀ posting ∈ segment.postings cell, test cell posting = .ok () := by
  rw [Segment.checkCells_eq_ok]
  simp [hvalid.cellSlice?_eq hexact]

theorem mem_allPostings {segment : Segment} {cell : CellId} {posting : Posting} :
    (cell, posting) ∈ segment.allPostings ↔
      cell < segment.cellCount ∧ posting ∈ segment.postings cell := by
  unfold allPostings
  simp [List.mem_flatMap]

theorem checkCodes_eq_ok {segment : Segment} {codebook : Codebook} :
    segment.checkCodes codebook = .ok () ↔
      ∀ cell < segment.cellCount, (segment.cellSlice? cell).isSome ∧
        ∀ posting ∈ segment.postings cell,
          codebook.quantizer.checkCode posting.code = .ok () := by
  unfold checkCodes
  rw [checkCells_eq_ok]
  simp only [mapError_ok, List.mem_range]

theorem IsValid.checkCodes_eq_ok {segment : Segment} (hvalid : segment.IsValid)
    (hexact : segment.IsExact) {codebook : Codebook} :
    segment.checkCodes codebook = .ok () ↔
      ∀ cell < segment.cellCount, ∀ posting ∈ segment.postings cell,
        codebook.quantizer.checkCode posting.code = .ok () := by
  unfold checkCodes
  rw [hvalid.checkCells_eq_ok hexact]
  simp only [mapError_ok, List.mem_range]

theorem checkCodebook_eq_ok {segment : Segment} {codebook : Codebook} :
    segment.checkCodebook codebook = .ok () ↔
      segment.fingerprint = codebook.fingerprint ∧ segment.dimension = codebook.dimension ∧
        segment.cellCount = codebook.cellCount ∧ segment.codeSize = codebook.codeSize := by
  unfold checkCodebook
  by_cases hfingerprint : segment.fingerprint = codebook.fingerprint
  · by_cases hshape : segment.dimension ≠ codebook.dimension ∨
        segment.cellCount ≠ codebook.cellCount ∨ segment.codeSize ≠ codebook.codeSize
    · simp only [hfingerprint, hshape, ne_eq, not_true_eq_false, if_false, if_true]
      exact ⟨nofun, fun ⟨_, hdimension, hcells, hcodes⟩ ↦ by simp_all⟩
    · simp_all
  · simp [hfingerprint]

end Segment
end VectorIndex
