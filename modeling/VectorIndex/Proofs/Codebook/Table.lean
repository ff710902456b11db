import VectorIndex.Proofs.Codebook.Shape
import VectorIndex.Proofs.Sequence.Chunks

/-!
# Tables within their bounds

There is a table of a query where the query has a piece for every codebook and the table has the
places for its row. The table and the score of a code are read once more, where no row may be longer
than the stride and every place that is taken has to be there. For a quantizer of a trained shape
nothing is missing, and a code that names codewords takes one place from the row of each
subspace.
-/

namespace VectorIndex

namespace Quantizer

/-- The products of a piece with the codewords of its subspace, and zeros in the places past
them. -/
def tableRow (quantizer : Quantizer) (piece : Vec) (codewords : List Vec) : List Binary32 :=
  let products := codewords.map piece.innerProduct
  products ++ List.replicate (quantizer.stride - products.length) .zero

/-- The rows of all subspaces, one behind the other. -/
def tableRows (quantizer : Quantizer) (query : Vec) : List Binary32 :=
  quantizer.codebooks.zipIdx.flatMap fun (codewords, subspace) ↦
    quantizer.tableRow (query.slice subspace quantizer.subspaceWidth) codewords

/-- The table of a query, where no subspace may have more codewords than its row has places. -/
def productTable? (quantizer : Quantizer) (query : Vec) : Option (List Binary32) :=
  if quantizer.codebooks.all (·.length ≤ quantizer.stride) then
    (quantizer.productTable query).map Array.toList
  else none

/-- A query of a dimension has a piece for every codebook, and its table the places for the row of
every codebook. A table is no longer than an array of numbers of four bytes can be. -/
structure HasTable (quantizer : Quantizer) (dimension : Nat) : Prop where
  size : quantizer.subspaces * quantizer.stride < 0x2000000000000000
  piece : ∀ subspace < quantizer.codebooks.length,
    (subspace + 1) * quantizer.subspaceWidth ≤ dimension
  row : ∀ subspace (hsubspace : subspace < quantizer.codebooks.length),
    subspace * quantizer.stride + quantizer.codebooks[subspace].length ≤
      quantizer.subspaces * quantizer.stride

/-- The place of a code in the row of its subspace, when the row and the table have it. -/
def place? (quantizer : Quantizer) (table : List Binary32) (index : UInt8) (subspace : Nat) :
    Option Binary32 :=
  if index.toNat < quantizer.stride then table[subspace * quantizer.stride + index.toNat]?
  else none

def tableScore? (quantizer : Quantizer) (table : List Binary32) (code : Code) :
    Option Binary32 :=
  (code.zipIdx.mapM fun (index, subspace) ↦ quantizer.place? table index subspace).map .sum

variable {quantizer : Quantizer}

/-! ## Writing a table -/

theorem length_writeRow? {table row written : List Binary32} {start : Nat}
    (hwritten : writeRow? table start row = some written) : written.length = table.length := by
  unfold writeRow? at hwritten
  split at hwritten
  · next hfits =>
    obtain rfl := Option.some.inj hwritten
    simp only [List.length_append, List.length_take, List.length_drop]
    omega
  · cases hwritten

theorem isSome_writeRow? {table row : List Binary32} {start : Nat} :
    (writeRow? table start row).isSome ↔ start + row.length ≤ table.length := by
  unfold writeRow?
  split
  · next hfits => exact iff_of_true rfl hfits
  · next hfits => exact iff_of_false nofun hfits

/-- Rows can be written when there is a piece and there are places for each of them. -/
theorem exists_writeRows? {query : Vec} {codebooks : List (List Vec)} {subspace : Nat}
    {table : List Binary32}
    (hpieces : ∀ i < codebooks.length,
      (subspace + i + 1) * quantizer.subspaceWidth ≤ query.length)
    (hrows : ∀ i (hi : i < codebooks.length),
      (subspace + i) * quantizer.stride + codebooks[i].length ≤ table.length) :
    ∃ written, quantizer.writeRows? query subspace codebooks table = some written := by
  induction codebooks generalizing subspace table with
  | nil => exact ⟨table, rfl⟩
  | cons codewords rest ih =>
    have hpiece : subspace * quantizer.subspaceWidth + quantizer.subspaceWidth ≤ query.length := by
      rw [← Nat.succ_mul]
      exact hpieces 0 (Nat.succ_pos _)
    have hrow : subspace * quantizer.stride + codewords.length ≤ table.length :=
      hrows 0 (Nat.succ_pos _)
    obtain ⟨piece, hslice⟩ : ∃ piece, slice? query (subspace * quantizer.subspaceWidth)
        ((subspace + 1) * quantizer.subspaceWidth) = some piece :=
      ⟨_, (Nat.succ_mul ..).symm ▸ slice?_eq_some hpiece⟩
    obtain ⟨written, hwritten⟩ := Option.isSome_iff_exists.mp
      (isSome_writeRow?.mpr (show subspace * quantizer.stride +
        (codewords.map (Vec.innerProduct piece)).length ≤ table.length by rwa [List.length_map]))
    have hlength := length_writeRow? hwritten
    obtain ⟨all, hall⟩ :
        ∃ all, quantizer.writeRows? query (subspace + 1) rest written = some all := by
      refine ih (fun i hi ↦ ?_) fun i hi ↦ ?_
      · have hlater := hpieces (i + 1) (Nat.succ_lt_succ hi)
        rwa [show subspace + (i + 1) + 1 = subspace + 1 + i + 1 by omega] at hlater
      · have hlater := hrows (i + 1) (Nat.succ_lt_succ hi)
        rwa [show subspace + (i + 1) = subspace + 1 + i by omega, List.getElem_cons_succ,
          ← hlength] at hlater
    refine ⟨all, ?_⟩
    rw [writeRows?, hslice]
    show (writeRow? _ _ _ >>= _) = _
    rw [hwritten]
    exact hall

theorem HasTable.exists_productTable {query : Vec} (htable : quantizer.HasTable query.length) :
    ∃ table, quantizer.productTable query = some table := by
  obtain ⟨written, hwritten⟩ : ∃ written, quantizer.writeRows? query 0 quantizer.codebooks
      (List.replicate (quantizer.subspaces * quantizer.stride) .zero) = some written := by
    refine exists_writeRows? (fun i hi ↦ ?_) fun i hi ↦ ?_
    · rw [Nat.zero_add]
      exact htable.piece i hi
    · rw [Nat.zero_add, List.length_replicate]
      exact htable.row i hi
  exact ⟨written.toArray, by rw [productTable, hwritten, Option.map_some]⟩

theorem length_tableRow {codewords : List Vec} (hcodewords : codewords.length ≤ quantizer.stride)
    (piece : Vec) : (quantizer.tableRow piece codewords).length = quantizer.stride := by
  unfold tableRow
  rw [List.length_append, List.length_replicate, List.length_map]
  omega

/-- A row of zeros becomes the row of a subspace. -/
theorem writeRow?_zeros {codewords : List Vec} (hcodewords : codewords.length ≤ quantizer.stride)
    (piece : Vec) {rows : List Binary32} {subspace : Nat}
    (hrows : rows.length = subspace * quantizer.stride) (later : Nat) :
    writeRow? (rows ++ List.replicate (quantizer.stride + later) .zero)
        (subspace * quantizer.stride) (codewords.map piece.innerProduct) =
      some (rows ++ quantizer.tableRow piece codewords ++ List.replicate later .zero) := by
  have hzeros : List.replicate (quantizer.stride + later) Binary32.zero =
      List.replicate codewords.length .zero ++
        (List.replicate (quantizer.stride - codewords.length) .zero ++
          List.replicate later .zero) := by
    rw [List.replicate_append_replicate, List.replicate_append_replicate]
    congr 1
    omega
  have hdrop : (rows ++ List.replicate (quantizer.stride + later) Binary32.zero).drop
      (subspace * quantizer.stride + codewords.length) =
        List.replicate (quantizer.stride - codewords.length) .zero ++
          List.replicate later .zero := by
    rw [← hrows, List.drop_length_add_append, hzeros]
    exact List.drop_left' (List.length_replicate ..)
  unfold writeRow? tableRow
  dsimp only
  rw [List.length_map, hdrop, ← hrows, List.take_left, if_pos]
  · simp only [List.append_assoc]
  · rw [List.length_append, List.length_replicate]
    omega

/-- Rows are written behind those that are there, over zeros. -/
theorem writeRows?_zeros {query : Vec} {codebooks : List (List Vec)}
    (hcodewords : ∀ codewords ∈ codebooks, codewords.length ≤ quantizer.stride)
    {subspace : Nat}
    (hpieces : (subspace + codebooks.length) * quantizer.subspaceWidth ≤ query.length)
    {rows : List Binary32} (hrows : rows.length = subspace * quantizer.stride) :
    quantizer.writeRows? query subspace codebooks
        (rows ++ List.replicate (codebooks.length * quantizer.stride) .zero) =
      some (rows ++ (codebooks.zipIdx subspace).flatMap fun (codewords, subspace) ↦
        quantizer.tableRow (query.slice subspace quantizer.subspaceWidth) codewords) := by
  induction codebooks generalizing subspace rows with
  | nil => simp [writeRows?]
  | cons codewords rest ih =>
    obtain ⟨hfirst, hrest⟩ := List.forall_mem_cons.mp hcodewords
    have hpiece : slice? query (subspace * quantizer.subspaceWidth)
        ((subspace + 1) * quantizer.subspaceWidth) =
          some (query.slice subspace quantizer.subspaceWidth) := by
      rw [Nat.succ_mul]
      apply slice?_eq_some
      rw [← Nat.succ_mul]
      refine Nat.le_trans (Nat.mul_le_mul_right _ ?_) hpieces
      rw [List.length_cons]
      omega
    have hwritten := writeRow?_zeros hfirst (query.slice subspace quantizer.subspaceWidth) hrows
      (rest.length * quantizer.stride)
    have hlength : (rows ++ quantizer.tableRow (query.slice subspace quantizer.subspaceWidth)
        codewords).length = (subspace + 1) * quantizer.stride := by
      rw [List.length_append, hrows, length_tableRow hfirst, Nat.succ_mul]
    rw [List.length_cons, ← Nat.add_assoc, Nat.add_right_comm] at hpieces
    rw [writeRows?, hpiece, List.length_cons, Nat.succ_mul, Nat.add_comm (_ * _)]
    show (writeRow? _ _ _ >>= _) = _
    rw [hwritten]
    show quantizer.writeRows? query (subspace + 1) rest _ = _
    rw [ih hrest hpieces hlength, List.zipIdx_cons, List.flatMap_cons, List.append_assoc]

/-- The table of a query that has a piece for each subspace are the rows, each in its places. -/
theorem productTable_eq (hshaped : quantizer.IsShaped) {query : Vec}
    (hquery : query.length = quantizer.dimension) :
    quantizer.productTable query = some (quantizer.tableRows query).toArray := by
  have hpieces : (0 + quantizer.codebooks.length) * quantizer.subspaceWidth ≤ query.length := by
    rw [Nat.zero_add, hshaped.codebooks, hquery]
    exact hshaped.pieces
  have hnone : ([] : List Binary32).length = 0 * quantizer.stride := (Nat.zero_mul _).symm
  have hwritten := writeRows?_zeros hshaped.codewords hpieces hnone
  rw [hshaped.codebooks] at hwritten
  exact congrArg (Option.map List.toArray) hwritten

/-- That table is written within its bounds. -/
theorem productTable?_eq (hshaped : quantizer.IsShaped) {query : Vec}
    (hquery : query.length = quantizer.dimension) :
    quantizer.productTable? query = some (quantizer.tableRows query) := by
  unfold productTable?
  rw [if_pos, productTable_eq hshaped hquery, Option.map_some]
  exact List.all_eq_true.mpr fun codewords hcodewords ↦
    decide_eq_true (hshaped.codewords codewords hcodewords)

/-- A table has a row of places for each subspace, whatever is written to them. -/
theorem length_of_writeRows? {query : Vec} {codebooks : List (List Vec)} {subspace : Nat}
    {table written : List Binary32}
    (hwritten : quantizer.writeRows? query subspace codebooks table = some written) :
    written.length = table.length := by
  induction codebooks generalizing subspace table with
  | nil =>
    obtain rfl := Option.some.inj hwritten
    rfl
  | cons codewords rest ih =>
    rw [writeRows?] at hwritten
    obtain ⟨piece, -, hrows⟩ := Option.bind_eq_some_iff.mp hwritten
    obtain ⟨first, hfirst, hrest⟩ := Option.bind_eq_some_iff.mp hrows
    exact (ih hrest).trans (length_writeRow? hfirst)

theorem size_productTable {query : Vec} {table : Array Binary32}
    (htable : quantizer.productTable query = some table) :
    table.size = quantizer.subspaces * quantizer.stride := by
  obtain ⟨written, hwritten, rfl⟩ := Option.map_eq_some_iff.mp htable
  rw [List.size_toArray, length_of_writeRows? hwritten, List.length_replicate]

/-! ## Reading a table -/

theorem getElem?_tableRow {codewords : List Vec} {index : Nat} {c : Vec}
    (hc : codewords[index]? = some c) (piece : Vec) :
    (quantizer.tableRow piece codewords)[index]? = some (piece.innerProduct c) := by
  have hindex : index < (codewords.map piece.innerProduct).length := by
    rw [List.length_map]
    exact (List.getElem?_eq_some_iff.mp hc).1
  rw [tableRow, List.getElem?_append_left hindex, List.getElem?_map, hc, Option.map_some]

/-- The row of a codebook lies behind one row for each codebook before it, however few codewords
those have. -/
theorem getElem?_flatMap_tableRow {codebooks : List (List Vec)}
    (hcodewords : ∀ codewords ∈ codebooks, codewords.length ≤ quantizer.stride) (query : Vec)
    (start : Nat) {subspace index : Nat} {codewords : List Vec} {c : Vec}
    (hcodebook : codebooks[subspace]? = some codewords) (hc : codewords[index]? = some c) :
    ((codebooks.zipIdx start).flatMap fun (codewords, subspace) ↦
      quantizer.tableRow (query.slice subspace quantizer.subspaceWidth) codewords)[
        subspace * quantizer.stride + index]? =
      some ((query.slice (start + subspace) quantizer.subspaceWidth).innerProduct c) := by
  induction codebooks generalizing start subspace with
  | nil => cases hcodebook
  | cons first rest ih =>
    obtain ⟨hfirst, hrest⟩ := List.forall_mem_cons.mp hcodewords
    rw [List.zipIdx_cons, List.flatMap_cons]
    cases subspace with
    | zero =>
      obtain rfl : first = codewords := Option.some.inj hcodebook
      have hindex : index < quantizer.stride :=
        Nat.lt_of_lt_of_le (List.getElem?_eq_some_iff.mp hc).1 hfirst
      rw [Nat.zero_mul, Nat.zero_add, List.getElem?_append_left (by rwa [length_tableRow hfirst]),
        getElem?_tableRow hc]
      rfl
    | succ subspace =>
      have hplace : (subspace + 1) * quantizer.stride + index =
          quantizer.stride + (subspace * quantizer.stride + index) := by
        rw [Nat.succ_mul]
        omega
      rw [hplace, List.getElem?_append_right (by rw [length_tableRow hfirst]; omega),
        length_tableRow hfirst, Nat.add_sub_cancel_left, ih hrest (start + 1) hcodebook,
        Nat.add_assoc, Nat.add_comm 1]

/-- The place of a codeword in the rows holds its product with the query's piece. -/
theorem getD_tableRows (hshaped : quantizer.IsShaped) (query : Vec) {subspace index : Nat}
    {codewords : List Vec} {c : Vec} (hcodebook : quantizer.codebooks[subspace]? = some codewords)
    (hc : codewords[index]? = some c) :
    (quantizer.tableRows query).toArray.getD (subspace * quantizer.stride + index) .zero =
      (query.slice subspace quantizer.subspaceWidth).innerProduct c := by
  have hplace := getElem?_flatMap_tableRow hshaped.codewords query 0 hcodebook hc
  rw [Nat.zero_add] at hplace
  rw [tableRows, Array.getD_eq_getD_getElem?, List.getElem?_toArray, hplace, Option.getD_some]

theorem checkIndices_eq_ok {pairs : List (List Vec × UInt8)} {subspace : Nat} :
    checkIndices subspace pairs = .ok () ↔ ∀ pair ∈ pairs, pair.2.toNat < pair.1.length := by
  induction pairs generalizing subspace with
  | nil => exact iff_of_true rfl nofun
  | cons pair rest ih =>
    rw [checkIndices, List.forall_mem_cons]
    split
    · next hle => exact iff_of_false nofun fun hall ↦ Nat.not_lt_of_le hle hall.1
    · next hlt => exact ih.trans (iff_and_self.mpr fun _ ↦ Nat.lt_of_not_le hlt)

/-- A code passes the check when it has one index for each subspace, and each names a codeword. -/
theorem checkCode_eq_ok {code : Code} :
    quantizer.checkCode code = .ok () ↔ code.length = quantizer.subspaces ∧
      ∀ pair ∈ quantizer.codebooks.zip code, pair.2.toNat < pair.1.length := by
  unfold checkCode
  split
  · next hlength => exact iff_of_false nofun fun hall ↦ hlength hall.1
  · next hlength =>
    exact checkIndices_eq_ok.trans (iff_and_self.mpr fun _ ↦ Decidable.of_not_not hlength)

/-- An index of a checked code stays within the row of its subspace. -/
theorem lt_stride_of_checkCode (hshaped : quantizer.IsShaped) {code : Code}
    (hcheck : quantizer.checkCode code = .ok ()) {index : UInt8} {subspace : Nat}
    (hindex : (index, subspace) ∈ code.zipIdx) :
    subspace < quantizer.subspaces ∧ index.toNat < quantizer.stride := by
  obtain ⟨hlength, hindices⟩ := checkCode_eq_ok.mp hcheck
  have hcode : code[subspace]? = some index := List.mk_mem_zipIdx_iff_getElem?.mp hindex
  have hlt : subspace < quantizer.subspaces :=
    hlength ▸ (List.getElem?_eq_some_iff.mp hcode).1
  have hcodewords : subspace < quantizer.codebooks.length := hshaped.codebooks ▸ hlt
  have hpair : (quantizer.codebooks[subspace], index) ∈ quantizer.codebooks.zip code :=
    List.mem_of_getElem? (List.getElem?_zip_eq_some.mpr
      ⟨List.getElem?_eq_getElem hcodewords, hcode⟩)
  exact ⟨hlt, Nat.lt_of_lt_of_le (hindices _ hpair)
    (hshaped.codewords _ (List.getElem_mem hcodewords))⟩

/-- A checked code is scored within any table, each index in the row of its subspace. -/
theorem tableScore?_eq (hshaped : quantizer.IsShaped) {query : Vec} {table : Array Binary32}
    (htable : quantizer.productTable query = some table) {code : Code}
    (hcheck : quantizer.checkCode code = .ok ()) :
    quantizer.tableScore? table.toList code = some (quantizer.tableScore table code) := by
  have hplaces : ∀ entry ∈ code.zipIdx,
      quantizer.place? table.toList entry.1 entry.2 =
        some (table.getD (entry.2 * quantizer.stride + entry.1.toNat) .zero) := by
    rintro ⟨index, subspace⟩ hentry
    obtain ⟨hsubspace, hindex⟩ := lt_stride_of_checkCode hshaped hcheck hentry
    have hplace : subspace * quantizer.stride + index.toNat < table.toList.length := by
      have hrow := Nat.mul_le_mul_right quantizer.stride (Nat.succ_le_of_lt hsubspace)
      rw [Nat.succ_mul] at hrow
      rw [Array.length_toList, size_productTable htable]
      omega
    rw [place?, if_pos hindex, List.getElem?_eq_getElem hplace, Array.getElem_toList,
      Array.getD, dif_pos (by simpa using hplace)]
    rfl
  unfold tableScore? tableScore
  rw [mapM_eq_some_map hplaces]
  rfl

end Quantizer
end VectorIndex
