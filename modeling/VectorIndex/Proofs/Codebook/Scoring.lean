import VectorIndex.Proofs.Clustering.Nearest
import VectorIndex.Proofs.Codebook.WellFormed

/-!
# Codes scored by a table

A query's table has a row for each subspace, with room for every index of its bits, and the place
of an index holds the product of the query's piece with the codeword of that index. Decoding puts
the same codewords side by side. So to look up the places of a code and to multiply the query with
what the code is decoded to, piece by piece, is to add the same products in the same order.
-/

namespace VectorIndex

namespace Quantizer

variable {quantizer : Quantizer}

/-- The byte of a subspace names the first of the codewords that are nearest to the vector's
piece. -/
def NamesNearest (quantizer : Quantizer) (v : Vec) (code : Code) (subspace : Nat) : Prop :=
  ∃ codewords index, quantizer.codebooks[subspace]? = some codewords ∧
    code[subspace]? = some index ∧
    IsFirstLeast
      (fun c ↦ ((v.slice subspace quantizer.subspaceWidth).squaredDistance c).remoteness)
      codewords index.toNat

/-- Codes are decoded exactly when they pass the check, to vectors of the dimension. A vector is
encoded to such a code, which names the first of the nearest codewords in each subspace. The score
of such a code in the table of a query is the sum, from left to right, of the products of the
query's pieces with the pieces of the decoded code. Nothing is missing on the way. -/
structure CodesFaithfully (quantizer : Quantizer) : Prop where
  decode : ∀ code, (quantizer.decode code).isSome ↔ quantizer.checkCode code = .ok ()
  encode : ∀ v : Vec, v.length = quantizer.dimension →
    quantizer.encode? v = some (quantizer.encode v) ∧
      quantizer.checkCode (quantizer.encode v) = .ok () ∧
      ∀ subspace < quantizer.subspaces, quantizer.NamesNearest v (quantizer.encode v) subspace
  score : ∀ code, quantizer.checkCode code = .ok () →
    ∃ v, quantizer.decode code = some v ∧ v.length = quantizer.dimension ∧
      ∀ query : Vec, query.length = quantizer.dimension → ∃ table,
        quantizer.productTable query = some table ∧
        quantizer.productTable? query = some table.toList ∧
        quantizer.tableScore? table.toList code = some (quantizer.tableScore table code) ∧
        quantizer.tableScore table code =
          .sum ((List.range quantizer.subspaces).map fun subspace ↦
            (query.slice subspace quantizer.subspaceWidth).innerProduct
              (v.slice subspace quantizer.subspaceWidth))

namespace IsWellFormed

variable (hwell : quantizer.IsWellFormed)
include hwell

theorem namesNearest_encode (v : Vec) {subspace : Nat}
    (hsubspace : subspace < quantizer.subspaces) :
    quantizer.NamesNearest v (quantizer.encode v) subspace := by
  have hcodebook : subspace < quantizer.codebooks.length := hwell.codebooks ▸ hsubspace
  have hne := hwell.codewords_ne_nil _ (List.getElem_mem hcodebook)
  obtain ⟨index, hindex, hbest⟩ := exists_byte_encode hwell.isMade hwell.isShaped v
    (List.getElem?_eq_getElem hcodebook) hne
  refine ⟨_, index, List.getElem?_eq_getElem hcodebook, hindex, ?_⟩
  rw [hbest]
  exact isFirstLeast_nearestCentroid .squaredEuclidean hne _

/-- What a code is decoded to has in each subspace the codeword that the code names there. -/
theorem slice_decode {code : Code} (hcheck : quantizer.checkCode code = .ok ()) {subspace : Nat}
    {codewords : List Vec} {index : UInt8} {c : Vec}
    (hpair : (quantizer.codebooks.zip code)[subspace]? = some (codewords, index))
    (hc : codewords[index.toNat]? = some c) :
    Vec.slice (quantizer.named code).flatten subspace quantizer.subspaceWidth = c := by
  have hnamed : (quantizer.named code)[subspace]? = some c := by
    rw [named, List.getElem?_map, hpair, Option.map_some, List.getD_eq_getElem?_getD, hc,
      Option.getD_some]
  obtain ⟨hsubspace, rfl⟩ := List.getElem?_eq_some_iff.mp hnamed
  exact slice_flatten_of_length (hwell.length_of_mem_named hcheck) hsubspace

/-- Places of the table and products with the decoded code are the same, subspace by subspace. -/
theorem tableScore_eq (query : Vec) {code : Code} (hcheck : quantizer.checkCode code = .ok ()) :
    quantizer.tableScore (quantizer.tableRows query).toArray code =
      .sum ((List.range quantizer.subspaces).map fun subspace ↦
        (query.slice subspace quantizer.subspaceWidth).innerProduct
          (Vec.slice (quantizer.named code).flatten subspace quantizer.subspaceWidth)) := by
  obtain ⟨hlength, hindices⟩ := checkCode_eq_ok.mp hcheck
  unfold tableScore
  congr 1
  apply List.ext_getElem
  · rw [List.length_map, List.length_zipIdx, List.length_map, List.length_range, hlength]
  · intro subspace hleft hright
    have hsubspace : subspace < quantizer.subspaces := by simpa using hright
    have hcodebook := List.getElem?_eq_getElem (hwell.codebooks ▸ hsubspace)
    have hindex : code[subspace]? = some code[subspace] := List.getElem?_eq_getElem _
    have hpair : (quantizer.codebooks.zip code)[subspace]? = some (_, code[subspace]) :=
      List.getElem?_zip_eq_some.mpr ⟨hcodebook, hindex⟩
    have hc := List.getElem?_eq_getElem (hindices _ (List.mem_of_getElem? hpair))
    rw [List.getElem_map, List.getElem_zipIdx, List.getElem_map, List.getElem_range,
      hwell.slice_decode hcheck hpair hc]
    dsimp only
    rw [Nat.zero_add, getD_tableRows hwell.isShaped query hcodebook hc]

theorem codesFaithfully : quantizer.CodesFaithfully where
  decode _ := isSome_decode
  encode v hv := ⟨hwell.encode?_eq hv,
    checkCode_encode hwell.isMade hwell.isShaped hwell.codewords_ne_nil v,
    fun _ ↦ hwell.namesNearest_encode v⟩
  score code hcheck := by
    obtain ⟨v, hdecode, hlength⟩ := hwell.exists_decode hcheck
    obtain rfl := Option.some.inj ((decode_eq hcheck).symm.trans hdecode)
    refine ⟨_, hdecode, hlength, fun query hquery ↦ ?_⟩
    have htable := productTable_eq hwell.isShaped hquery
    exact ⟨_, htable, productTable?_eq hwell.isShaped hquery,
      tableScore?_eq hwell.isShaped htable hcheck, hwell.tableScore_eq query hcheck⟩

end IsWellFormed

/-- A quantizer codes faithfully whatever residuals it was trained with, where the shape that it was
trained for passes its check. -/
theorem codesFaithfully_of_train {residuals : List Vec} {subspaces bits : Nat} {seed : UInt64}
    {maxIterations : Nat} {quantizer : Quantizer}
    (hshape : checkShape (residuals.headD []).length subspaces bits = .ok ())
    (htrain : train residuals subspaces bits seed maxIterations = .ok quantizer) :
    quantizer.CodesFaithfully :=
  (isWellFormed_of_train hshape htrain).codesFaithfully

/-- Four codewords a subspace would fit. The first components give two, and the second ones, one of
which is no number, give one. -/
def wildQuantizer : Quantizer :=
  ⟨2, 2, 1, 2, [[[.zero], [.one]], [[⟨0x7fc00000⟩]]]⟩

theorem codesFaithfully_of_train_wild :
    train [[.one, ⟨0x7fc00000⟩], [.zero, .one], [.one, .one]] 2 2 7 3 = .ok wildQuantizer ∧
      wildQuantizer.checkCode [1, 0] = .ok () ∧ wildQuantizer.checkCode [1, 1] ≠ .ok () ∧
      wildQuantizer.CodesFaithfully := by
  have htrain : train [[.one, ⟨0x7fc00000⟩], [.zero, .one], [.one, .one]] 2 2 7 3 =
      .ok wildQuantizer := by decide +kernel
  exact ⟨htrain, rfl, by decide, codesFaithfully_of_train rfl htrain⟩

end Quantizer
end VectorIndex
