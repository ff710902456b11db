import VectorIndex.Proofs.Codebook.Table

/-!
# Codes name codewords

A code passes the check of codes exactly when it can be decoded, and it is decoded to the codewords
that its bytes name. The nearest of some points is one of them, so a vector that a trained quantizer
encodes gets a code that passes.
-/

namespace VectorIndex

namespace Quantizer

variable {quantizer : Quantizer}

/-- The codewords that the bytes of a code name, one for each subspace. -/
def named (quantizer : Quantizer) (code : Code) : List Vec :=
  (quantizer.codebooks.zip code).map fun pair ↦ pair.1.getD pair.2.toNat []

theorem isSome_decode {code : Code} :
    (quantizer.decode code).isSome ↔ quantizer.checkCode code = .ok () := by
  rw [checkCode_eq_ok]
  unfold decode
  split
  · next hlength => exact iff_of_false nofun fun hchecked ↦ hlength hchecked.1
  · next hlength =>
    rw [Option.isSome_map, isSome_mapM]
    simp only [isSome_getElem?]
    exact (and_iff_right (Decidable.of_not_not hlength)).symm

/-- A checked code is decoded to the codewords that it names, side by side. -/
theorem decode_eq {code : Code} (hcheck : quantizer.checkCode code = .ok ()) :
    quantizer.decode code = some (quantizer.named code).flatten := by
  obtain ⟨hlength, hindices⟩ := checkCode_eq_ok.mp hcheck
  have hnamed : (quantizer.codebooks.zip code).mapM
      (fun pair : List Vec × UInt8 ↦ pair.1[pair.2.toNat]?) = some (quantizer.named code) := by
    apply mapM_eq_some_map
    intro pair hpair
    rw [List.getD_eq_getElem?_getD, List.getElem?_eq_getElem (hindices pair hpair),
      Option.getD_some]
  rw [decode, if_neg (not_not_intro hlength), hnamed, Option.map_some]

/-- A row has room for no more codewords than a byte has values. -/
theorem IsMade.stride_le (hmade : quantizer.IsMade) : quantizer.stride ≤ 0x100 := by
  rw [stride, indexCount_eq hmade.bits]
  exact Nat.pow_le_pow_right (by decide) hmade.bits

/-- The byte that is written for a subspace is the position of the nearest codeword. -/
theorem exists_byte_encode (hmade : quantizer.IsMade) (hshaped : quantizer.IsShaped) (v : Vec)
    {subspace : Nat} {codewords : List Vec}
    (hcodebook : quantizer.codebooks[subspace]? = some codewords) (hne : codewords ≠ []) :
    ∃ index, (quantizer.encode v)[subspace]? = some index ∧
      index.toNat = (nearestCentroid .squaredEuclidean codewords
        (v.slice subspace quantizer.subspaceWidth)).1 := by
  have hsubspace : subspace < quantizer.subspaces :=
    hshaped.codebooks ▸ (List.getElem?_eq_some_iff.mp hcodebook).1
  have hbest : (nearestCentroid .squaredEuclidean codewords
      (v.slice subspace quantizer.subspaceWidth)).1 < codewords.length := firstBest_map_lt hne
  have hroom := Nat.le_trans (hshaped.codewords _ (List.mem_of_getElem? hcodebook)) hmade.stride_le
  refine ⟨UInt8.ofNat (nearestCentroid .squaredEuclidean codewords
    (v.slice subspace quantizer.subspaceWidth)).1, ?_, ?_⟩
  · rw [encode, List.getElem?_map, List.getElem?_range hsubspace, Option.map_some,
      List.getD_eq_getElem?_getD, hcodebook, Option.getD_some]
  · rw [UInt8.toNat_ofNat', Nat.mod_eq_of_lt (Nat.lt_of_lt_of_le hbest hroom)]

/-- A quantizer that has codewords for every subspace, and no more than bytes can name, gives every
vector a code that names codewords. -/
theorem checkCode_encode (hmade : quantizer.IsMade) (hshaped : quantizer.IsShaped)
    (hcodewords : ∀ codewords ∈ quantizer.codebooks, codewords ≠ []) (v : Vec) :
    quantizer.checkCode (quantizer.encode v) = .ok () := by
  refine checkCode_eq_ok.mpr ⟨by rw [encode, List.length_map, List.length_range], ?_⟩
  rintro ⟨codewords, index⟩ hpair
  obtain ⟨subspace, hget⟩ := List.mem_iff_getElem?.mp hpair
  obtain ⟨hcodebook, hcode⟩ := List.getElem?_zip_eq_some.mp hget
  have hne := hcodewords _ (List.mem_of_getElem? hcodebook)
  obtain ⟨byte, hbyte, hbest⟩ := exists_byte_encode hmade hshaped v hcodebook hne
  obtain rfl : byte = index := Option.some.inj (hbyte.symm.trans hcode)
  show byte.toNat < codewords.length
  rw [hbest]
  exact firstBest_map_lt hne

end Quantizer

/-- The codes of a trained codebook pass the check of codes. -/
theorem Codebook.checkCode_encode_of_train {settings : TrainingSettings} {sample : List Vec}
    {codebook : Codebook} (htrain : train settings sample = .ok codebook) (v : Vec) :
    codebook.quantizer.checkCode (codebook.encode v).2 = .ok () := by
  obtain ⟨_, _, _, hquantizer, -⟩ := exists_parts_of_train htrain
  exact Quantizer.checkCode_encode (train_ok htrain).1.quantizer (isShaped_of_train htrain)
    (Quantizer.codewords_ne_nil_of_train hquantizer) _

end VectorIndex
