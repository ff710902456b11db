import VectorIndex.Proofs.Clustering.Lengths
import VectorIndex.Proofs.Codebook.Training

/-!
# The shape of a trained codebook

A trained subspace has codewords, since clustering gives at least one centroid. They fit one row of
a query's table, since it gives no more than were asked for, and the pieces of the subspaces lie
side by side in a vector. A codeword is as long as a piece.
-/

namespace VectorIndex

open Result (bind_ok pure_ok)

theorem Result.exists_of_mem_mapM_ok {ε α β : Type} {f : α → Except ε β} {items : List α}
    {values : List β} (hvalues : items.mapM f = .ok values) {value : β} (hvalue : value ∈ values) :
    ∃ item ∈ items, f item = .ok value := by
  induction items generalizing values with
  | nil =>
    obtain rfl := Except.ok.inj hvalues
    cases hvalue
  | cons item rest ih =>
    rw [List.mapM_cons] at hvalues
    obtain ⟨first, hfirst, hrest⟩ := bind_ok.mp hvalues
    obtain ⟨later, hlater, hlast⟩ := bind_ok.mp hrest
    obtain rfl := pure_ok.mp hlast
    rcases List.mem_cons.mp hvalue with rfl | hvalue
    · exact ⟨item, List.mem_cons_self, hfirst⟩
    · obtain ⟨other, hother, heq⟩ := ih hlater hvalue
      exact ⟨other, List.mem_cons_of_mem _ hother, heq⟩

theorem Vec.length_slice {v : Vec} {index width : Nat} (hstop : index * width + width ≤ v.length) :
    (v.slice index width).length = width := by
  rw [slice, List.length_take, List.length_drop]
  omega

/-- Each subspace has a row of a table with room for its codewords, and its piece of a vector. -/
structure Quantizer.IsShaped (quantizer : Quantizer) : Prop where
  codebooks : quantizer.codebooks.length = quantizer.subspaces
  codewords : ∀ codewords ∈ quantizer.codebooks, codewords.length ≤ quantizer.stride
  pieces : quantizer.subspaces * quantizer.subspaceWidth ≤ quantizer.dimension

/-- The pieces of a subspace end within a vector. -/
theorem Quantizer.IsShaped.stop_le {quantizer : Quantizer} (hshaped : quantizer.IsShaped) {v : Vec}
    (hv : v.length = quantizer.dimension) {subspace : Nat}
    (hsubspace : subspace < quantizer.subspaces) :
    subspace * quantizer.subspaceWidth + quantizer.subspaceWidth ≤ v.length := by
  rw [← Nat.succ_mul, hv]
  exact Nat.le_trans (Nat.mul_le_mul_right _ hsubspace) hshaped.pieces

/-- The codewords of a subspace are the centroids of the pieces that the residuals have there. -/
theorem Quantizer.exists_kmeans_of_train {residuals : List Vec} {subspaces bits : Nat}
    {seed : UInt64} {maxIterations : Nat} {quantizer : Quantizer}
    (htrain : train residuals subspaces bits seed maxIterations = .ok quantizer)
    {codewords : List Vec} (hcodewords : codewords ∈ quantizer.codebooks) :
    ∃ clustering count seed, ∃ subspace < quantizer.subspaces, count ≤ quantizer.stride ∧
      kmeans .squaredEuclidean count seed maxIterations
        (residuals.map (Vec.slice · subspace quantizer.subspaceWidth)) = .ok clustering ∧
      clustering.centroids = codewords := by
  obtain ⟨_, _, codebooks, rfl, rfl, hcodebooks⟩ := exists_of_train htrain
  obtain ⟨subspace, hsubspace, hclustered⟩ := Result.exists_of_mem_mapM_ok hcodebooks hcodewords
  obtain ⟨clustering, hkmeans, hcentroids⟩ := bind_ok.mp hclustered
  exact ⟨clustering, _, _, subspace, List.mem_range.mp hsubspace, Nat.min_le_left _ _, hkmeans,
    pure_ok.mp hcentroids⟩

theorem Quantizer.isShaped_of_train {residuals : List Vec} {subspaces bits : Nat} {seed : UInt64}
    {maxIterations : Nat} {quantizer : Quantizer}
    (htrain : train residuals subspaces bits seed maxIterations = .ok quantizer) :
    quantizer.IsShaped := by
  have hcodewords : ∀ codewords ∈ quantizer.codebooks, codewords.length ≤ quantizer.stride := by
    intro codewords hmem
    obtain ⟨clustering, count, _, _, -, hcount, hkmeans, rfl⟩ := exists_kmeans_of_train htrain hmem
    exact Nat.le_trans (length_kmeans hkmeans).2 hcount
  have hlength := length_codebooks_of_train htrain
  obtain ⟨_, _, _, rfl, rfl, -⟩ := exists_of_train htrain
  exact ⟨hlength, hcodewords, Nat.mul_div_le ..⟩

/-- Every subspace has codewords. -/
theorem Quantizer.codewords_ne_nil_of_train {residuals : List Vec} {subspaces bits : Nat}
    {seed : UInt64} {maxIterations : Nat} {quantizer : Quantizer}
    (htrain : train residuals subspaces bits seed maxIterations = .ok quantizer) :
    ∀ codewords ∈ quantizer.codebooks, codewords ≠ [] := by
  intro codewords hmem
  obtain ⟨clustering, _, _, _, -, -, hkmeans, rfl⟩ := exists_kmeans_of_train htrain hmem
  exact List.ne_nil_of_length_pos (length_kmeans hkmeans).1

/-- Clustering wants pieces of one length, and the first residual has its pieces in full. -/
theorem Quantizer.length_codeword_of_train {residuals : List Vec} {subspaces bits : Nat}
    {seed : UInt64} {maxIterations : Nat} {quantizer : Quantizer}
    (htrain : train residuals subspaces bits seed maxIterations = .ok quantizer) :
    ∀ codewords ∈ quantizer.codebooks, ∀ c ∈ codewords, c.length = quantizer.subspaceWidth := by
  intro codewords hmem c hc
  have hshaped := isShaped_of_train htrain
  obtain ⟨clustering, _, _, subspace, hsubspace, -, hkmeans, rfl⟩ :=
    exists_kmeans_of_train htrain hmem
  obtain ⟨-, -, ⟨width, -, hpieces⟩, -⟩ := kmeans_eq_ok.mp hkmeans
  obtain ⟨first, rest, _, rfl, hquantizer, -⟩ := exists_of_train htrain
  have hfirst : first.length = quantizer.dimension := by rw [hquantizer]
  calc c.length
    _ = width := (fits_of_kmeans hpieces hkmeans).length_centroid c hc
    _ = (first.slice subspace quantizer.subspaceWidth).length :=
      (hpieces _ (List.mem_map_of_mem List.mem_cons_self)).symm
    _ = quantizer.subspaceWidth := Vec.length_slice (hshaped.stop_le hfirst hsubspace)

namespace Codebook

theorem quantizer_ofParts {centroids : List Vec} {quantizer : Quantizer} {params : TrainingParams}
    {codebook : Codebook} (hparts : ofParts centroids quantizer params = .ok codebook) :
    codebook.quantizer = quantizer := by
  obtain ⟨-, -, -, rfl⟩ := ofParts_eq_ok.mp hparts
  rfl

theorem dimension_pos_of_ofParts {centroids : List Vec} {quantizer : Quantizer}
    {params : TrainingParams} {codebook : Codebook}
    (hparts : ofParts centroids quantizer params = .ok codebook) : 0 < codebook.dimension := by
  obtain ⟨-, -, hpos, rfl⟩ := ofParts_eq_ok.mp hparts
  exact hpos

/-- A trained codebook is put together from centroids and a quantizer that was trained. -/
theorem exists_parts_of_train {settings : TrainingSettings} {sample : List Vec}
    {codebook : Codebook} (htrain : train settings sample = .ok codebook) :
    ∃ centroids residuals params,
      Quantizer.train residuals settings.subspaces settings.bitsPerSubspace
          (UInt64.ofNat settings.seed) settings.maxIterations = .ok codebook.quantizer ∧
        ofParts centroids codebook.quantizer params = .ok codebook := by
  obtain ⟨_, _, quantizer, -, -, -, -, -, -, hquantizer, hparts⟩ := train_eq_ok.mp htrain
  obtain rfl := quantizer_ofParts hparts
  exact ⟨_, _, _, hquantizer, hparts⟩

theorem isShaped_of_train {settings : TrainingSettings} {sample : List Vec} {codebook : Codebook}
    (htrain : train settings sample = .ok codebook) : codebook.quantizer.IsShaped := by
  obtain ⟨_, _, _, hquantizer, -⟩ := exists_parts_of_train htrain
  exact Quantizer.isShaped_of_train hquantizer

end Codebook
end VectorIndex
