import VectorIndex.Codebook.Training
import VectorIndex.Proofs.Codebook.File

/-!
# What training makes

A trained codebook has centroids, all of the dimension of its quantizer, one codebook for each
subspace, and the parameters that it was trained with. A codebook of the same parameters that is
read from its file is the same codebook.
-/

namespace VectorIndex

open Result (bind_ok guard_ok mapError_ok pure_ok)

theorem Result.length_of_mapM_ok {ε α β : Type} {f : α → Except ε β} {items : List α}
    {values : List β} (hvalues : items.mapM f = .ok values) : values.length = items.length := by
  induction items generalizing values with
  | nil =>
    obtain rfl := Except.ok.inj hvalues
    rfl
  | cons item rest ih =>
    rw [List.mapM_cons] at hvalues
    obtain ⟨value, -, hrest⟩ := bind_ok.mp hvalues
    obtain ⟨later, hlater, hlast⟩ := bind_ok.mp hrest
    obtain rfl := pure_ok.mp hlast
    rw [List.length_cons, List.length_cons, ih hlater]

/-- Bits that pass the check are not cut off when a number is shifted by them. -/
theorem Quantizer.indexCount_eq {bits : Nat} (hbits : bits ≤ maxBits) :
    indexCount bits = Nat.pow 2 bits := by
  unfold maxBits at hbits
  rw [indexCount, Nat.mod_eq_of_lt (by omega)]

theorem Quantizer.checkShape_ok {dimension subspaces bits : Nat}
    (hshape : checkShape dimension subspaces bits = .ok ()) :
    0 < dimension ∧ 0 < subspaces ∧ dimension % subspaces = 0 ∧ 0 < bits ∧ bits ≤ maxBits := by
  unfold checkShape at hshape
  split at hshape
  · cases hshape
  · split at hshape
    · cases hshape
    · split at hshape
      · cases hshape
      · omega

/-- The codewords of each subspace are the centroids of the pieces that the residuals have there. -/
theorem Quantizer.exists_of_train {residuals : List Vec} {subspaces bits : Nat} {seed : UInt64}
    {maxIterations : Nat} {quantizer : Quantizer}
    (htrain : train residuals subspaces bits seed maxIterations = .ok quantizer) :
    ∃ first rest codebooks, residuals = first :: rest ∧
      quantizer = ⟨first.length, subspaces, first.length / subspaces, bits, codebooks⟩ ∧
      ((List.range subspaces).mapM fun subspace ↦ do
        let result ← kmeans .squaredEuclidean (min (indexCount bits) residuals.length)
          (seed + UInt64.ofNat (subspace + 1)) maxIterations
          (residuals.map (Vec.slice · subspace (first.length / subspaces)))
        return result.centroids) = .ok codebooks := by
  unfold train at htrain
  cases residuals with
  | nil => cases htrain
  | cons first rest =>
    obtain ⟨codebooks, hcodebooks, hlast⟩ := bind_ok.mp htrain
    exact ⟨first, rest, codebooks, rfl, (pure_ok.mp hlast).symm, hcodebooks⟩

/-- One codebook is trained for each subspace. -/
theorem Quantizer.length_codebooks_of_train {residuals : List Vec} {subspaces bits : Nat}
    {seed : UInt64} {maxIterations : Nat} {quantizer : Quantizer}
    (htrain : train residuals subspaces bits seed maxIterations = .ok quantizer) :
    quantizer.codebooks.length = quantizer.subspaces := by
  obtain ⟨_, _, codebooks, rfl, rfl, hcodebooks⟩ := exists_of_train htrain
  rw [Result.length_of_mapM_ok hcodebooks, List.length_range]

theorem Quantizer.isMade_of_train {residuals : List Vec} {subspaces bits : Nat} {seed : UInt64}
    {maxIterations : Nat} {quantizer : Quantizer} (hbits : bits ≤ maxBits)
    (htrain : train residuals subspaces bits seed maxIterations = .ok quantizer) :
    quantizer.IsMade := by
  have hlength := length_codebooks_of_train htrain
  obtain ⟨_, _, _, rfl, rfl, -⟩ := exists_of_train htrain
  exact ⟨hbits, hlength, Nat.div_le_self _ _⟩

namespace Codebook

/-- A codebook is put together when there are centroids and all of them have the dimension of the
quantizer, which is not zero. -/
theorem ofParts_eq_ok {centroids : List Vec} {quantizer : Quantizer} {params : TrainingParams}
    {codebook : Codebook} :
    ofParts centroids quantizer params = .ok codebook ↔
      centroids ≠ [] ∧ (∀ c ∈ centroids, c.length = quantizer.dimension) ∧
        0 < quantizer.dimension ∧ codebook = ⟨quantizer.dimension, centroids, quantizer, params,
          .of (pack centroids quantizer params)⟩ := by
  unfold ofParts Dimension.ofNat
  simp only [guard_ok, bind_ok, pure_ok, mapError_ok, Bool.or_eq_true, List.isEmpty_iff,
    List.any_eq_true, decide_eq_true_iff, not_or, not_exists, not_and, Decidable.not_not]
  constructor
  · rintro ⟨⟨hne, hlength⟩, dimension, hdimension, rfl⟩
    split at hdimension
    · next hpos =>
      obtain rfl := Except.ok.inj hdimension
      exact ⟨hne, hlength, hpos, rfl⟩
    · cases hdimension
  · rintro ⟨hne, hlength, hpos, rfl⟩
    exact ⟨⟨hne, hlength⟩, ⟨quantizer.dimension, hpos⟩, dif_pos hpos, rfl⟩

theorem ofParts_ok {centroids : List Vec} {quantizer : Quantizer} {params : TrainingParams}
    {codebook : Codebook} (hquantizer : quantizer.IsMade)
    (hparts : ofParts centroids quantizer params = .ok codebook) :
    codebook.IsMade ∧ codebook.params = params := by
  obtain ⟨hne, hlength, -, rfl⟩ := ofParts_eq_ok.mp hparts
  exact ⟨⟨hquantizer, rfl, hne, hlength, rfl⟩, rfl⟩

/-- Training succeeds on unit vectors that are enough, can be split, and give as many centroids as
there are cells. -/
theorem train_eq_ok {settings : TrainingSettings} {sample : List Vec} {codebook : Codebook} :
    train settings sample = .ok codebook ↔ ∃ dimension coarse quantizer,
      max settings.requiredSamples 1 ≤ sample.length ∧
      Quantizer.checkShape (sample.headD []).length settings.subspaces
        settings.bitsPerSubspace = .ok () ∧
      Dimension.ofNat (sample.headD []).length = .ok dimension ∧
      checkSample dimension 0 sample = .ok () ∧
      kmeans .innerProduct settings.cells (UInt64.ofNat settings.seed) settings.maxIterations
        sample = .ok coarse ∧
      settings.cells ≤ coarse.centroids.length ∧
      Quantizer.train (residuals coarse.centroids sample) settings.subspaces
        settings.bitsPerSubspace (UInt64.ofNat settings.seed) settings.maxIterations =
          .ok quantizer ∧
      ofParts coarse.centroids quantizer (settings.params sample.length) = .ok codebook := by
  unfold train
  dsimp only
  simp only [guard_ok, bind_ok, mapError_ok, Nat.not_lt]
  constructor
  · rintro ⟨hlength, ⟨⟩, hshape, dimension, hdimension, ⟨⟩, hsample, coarse, hcoarse, hcells,
      quantizer, hquantizer, hparts⟩
    exact ⟨dimension, coarse, quantizer, hlength, hshape, hdimension, hsample, hcoarse, hcells,
      hquantizer, hparts⟩
  · rintro ⟨dimension, coarse, quantizer, hlength, hshape, hdimension, hsample, hcoarse, hcells,
      hquantizer, hparts⟩
    exact ⟨hlength, (), hshape, dimension, hdimension, (), hsample, coarse, hcoarse, hcells,
      quantizer, hquantizer, hparts⟩

/-- Training makes a codebook of its settings. -/
theorem train_ok {settings : TrainingSettings} {sample : List Vec} {codebook : Codebook}
    (htrain : train settings sample = .ok codebook) :
    codebook.IsMade ∧ codebook.params = settings.params sample.length := by
  obtain ⟨_, _, _, -, hshape, -, -, -, -, hquantizer, hparts⟩ := train_eq_ok.mp htrain
  obtain ⟨-, -, -, -, hbits⟩ := Quantizer.checkShape_ok hshape
  exact ofParts_ok (Quantizer.isMade_of_train hbits hquantizer) hparts

/-- When the file of a trained codebook is read, its cells and subspaces are recorded in full. -/
theorem params_of_ofBytes_train {settings : TrainingSettings} {sample : List Vec}
    {codebook other : Codebook} (htrain : train settings sample = .ok codebook)
    (hread : ofBytes codebook.toBytes = .ok other) : settings.params sample.length =
      ⟨settings.cells, settings.subspaces, settings.bitsPerSubspace, settings.seed,
        sample.length⟩ := by
  obtain ⟨hmade, -⟩ := train_ok htrain
  obtain ⟨-, hcentroids, hquantizer⟩ := parts_of_ofBytes hmade codebook.drop_toBytes hread
  obtain ⟨-, hcount, hsize⟩ := shape_lt_of_ofBytes hread
  rw [cellCount, hcentroids] at hcount
  rw [codeSize, hquantizer] at hsize
  obtain ⟨_, coarse, quantizer, -, -, -, -, -, hcells, htrained, hparts⟩ := train_eq_ok.mp htrain
  obtain ⟨-, -, -, rfl⟩ := ofParts_eq_ok.mp hparts
  have hsubspaces : quantizer.subspaces = settings.subspaces := by
    obtain ⟨_, _, _, -, rfl, -⟩ := Quantizer.exists_of_train htrained
    rfl
  unfold TrainingSettings.params
  rw [Nat.mod_eq_of_lt (Nat.lt_of_le_of_lt hcells hcount), Nat.mod_eq_of_lt (hsubspaces ▸ hsize)]

end Codebook
end VectorIndex
