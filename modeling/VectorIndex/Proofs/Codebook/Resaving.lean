import VectorIndex.Proofs.Bytes.Shortest
import VectorIndex.Proofs.Codebook.RoundTrip

/-!
# Saving a codebook that was loaded

Whatever bytes a codebook was loaded from, its numbers fit the fields of a file, and the payload that
is written for it is the one that was read or shorter than that. Saving keeps the fingerprint of the
bytes that were read. So a codebook that was read from a longer form is saved under a fingerprint
that its new payload does not have, and the saved file is refused.
-/

namespace VectorIndex.Codebook

open Packed.Decoder (Covers Sound covers_byte run_bind_eq_some run_pure_eq_some sound_list
  sound_number sound_single)

/-! ## What a payload was read to -/

theorem sound_vectors :
    Sound vectors (Packed.list (Packed.list Packed.single)) fun items ↦
      ∀ v ∈ items, ∀ x ∈ v, True := sound_list (sound_list sound_single)

theorem sound_quantizer : Sound quantizerDecoder packQuantizer Quantizer.FitsFields := by
  intro bytes quantizer rest hread
  obtain ⟨dimension, bytes₁, hdimension, hread⟩ := run_bind_eq_some.mp hread
  obtain ⟨subspaces, bytes₂, hsubspaces, hread⟩ := run_bind_eq_some.mp hread
  obtain ⟨width, bytes₃, hwidth, hread⟩ := run_bind_eq_some.mp hread
  obtain ⟨bits, bytes₄, hbits, hread⟩ := run_bind_eq_some.mp hread
  obtain ⟨codebooks, bytes₅, hcodebooks, hread⟩ := run_bind_eq_some.mp hread
  obtain ⟨rfl, rfl⟩ := run_pure_eq_some.mp hread
  obtain ⟨hdimension, hcovers₁⟩ := sound_number (by decide) hdimension
  obtain ⟨hsubspaces, hcovers₂⟩ := sound_number (by decide) hsubspaces
  obtain ⟨hwidth, hcovers₃⟩ := sound_number (by decide) hwidth
  obtain ⟨-, hcovers₅⟩ := sound_list sound_vectors hcodebooks
  exact ⟨⟨hdimension, hsubspaces, hwidth, bits.toNat_lt⟩,
    (((hcovers₁.append hcovers₂).append hcovers₃).append (covers_byte hbits)).append hcovers₅⟩

theorem sound_params : Sound paramsDecoder packParams TrainingParams.FitsFields := by
  intro bytes params rest hread
  obtain ⟨cells, bytes₁, hcells, hread⟩ := run_bind_eq_some.mp hread
  obtain ⟨subspaces, bytes₂, hsubspaces, hread⟩ := run_bind_eq_some.mp hread
  obtain ⟨bits, bytes₃, hbits, hread⟩ := run_bind_eq_some.mp hread
  obtain ⟨seed, bytes₄, hseed, hread⟩ := run_bind_eq_some.mp hread
  obtain ⟨samples, bytes₅, hsamples, hread⟩ := run_bind_eq_some.mp hread
  obtain ⟨rfl, rfl⟩ := run_pure_eq_some.mp hread
  obtain ⟨hcells, hcovers₁⟩ := sound_number (by decide) hcells
  obtain ⟨hsubspaces, hcovers₂⟩ := sound_number (by decide) hsubspaces
  obtain ⟨hseed, hcovers₄⟩ := sound_number (by decide) hseed
  obtain ⟨hsamples, hcovers₅⟩ := sound_number (by decide) hsamples
  exact ⟨⟨hcells, hsubspaces, bits.toNat_lt, hseed, hsamples⟩,
    (((hcovers₁.append hcovers₂).append (covers_byte hbits)).append hcovers₄).append hcovers₅⟩

theorem sound_payload : Sound payloadDecoder
    (fun (centroids, quantizer, params) ↦ pack centroids quantizer params)
    (fun (_, quantizer, params) ↦ quantizer.FitsFields ∧ params.FitsFields) := by
  intro bytes value rest hread
  obtain ⟨centroids, bytes₁, hcentroids, hread⟩ := run_bind_eq_some.mp hread
  obtain ⟨quantizer, bytes₂, hquantizer, hread⟩ := run_bind_eq_some.mp hread
  obtain ⟨params, bytes₃, hparams, hread⟩ := run_bind_eq_some.mp hread
  obtain ⟨rfl, rfl⟩ := run_pure_eq_some.mp hread
  obtain ⟨-, hcovers₁⟩ := sound_vectors hcentroids
  obtain ⟨hquantizer, hcovers₂⟩ := sound_quantizer hquantizer
  obtain ⟨hparams, hcovers₃⟩ := sound_params hparams
  exact ⟨⟨hquantizer, hparams⟩, (hcovers₁.append hcovers₂).append hcovers₃⟩

variable {codebook : Codebook} {bytes : Bytes}

/-- The payload of a loaded codebook is the one in the file or shorter. -/
theorem IsIn.payload (hin : codebook.IsIn bytes) :
    bytes.drop headerSize = codebook.payload ∨
      codebook.payload.length < (bytes.drop headerSize).length := by
  obtain ⟨-, hcovers⟩ := sound_payload hin.decoded
  rwa [Covers, List.append_nil, List.length_nil, Nat.add_zero] at hcovers

/-- A loaded codebook is one that a file can hold. -/
theorem IsIn.isLoadable (hin : codebook.IsIn bytes) : codebook.IsLoadable := by
  obtain ⟨⟨hquantizer, hparams⟩, hcovers⟩ := sound_payload hin.decoded
  obtain ⟨hdimension, hcells, hsize⟩ := shape_lt_of_ofBytes hin.ofBytes
  have hlength : codebook.payload.length ≤ (bytes.drop headerSize).length :=
    Nat.le_trans (Nat.le_add_right _ _) hcovers.length_le
  have hbound := Bytes.natAt_lt bytes 24 8
  rw [← hin.length_payload] at hbound
  exact ⟨⟨hdimension, hcells, hsize, hparams, Nat.lt_of_le_of_lt hlength hbound⟩, hquantizer,
    hin.quantizer, hin.positive, hin.length_centroid⟩

/-! ## Saving it again -/

/-- What is read from the file of a codebook depends on its fingerprint alone: it is the codebook
when the fingerprint is that of its payload. -/
theorem IsLoadable.ofBytes_toBytes (hloadable : codebook.IsLoadable) :
    ofBytes codebook.toBytes =
      if codebook.fingerprint = .of codebook.payload then .ok codebook
      else .error (mismatch codebook.fingerprint (.of codebook.payload)) := by
  split
  · next heq => exact (hloadable.isIn_toBytes heq).ofBytes
  · next hne => exact codebook.ofBytes_of_fingerprint_ne _ hloadable.fits.payload (Ne.symm hne)

/-- A codebook that is loaded and saved is loaded again exactly when the payload that was read and
the payload that was written have one fingerprint. They are the same payload, or the one that was
written is shorter; and when the fingerprints differ, the saved file is refused. -/
theorem load_resaved {path copy : Path} {tree before changed : Tree} {done : Unit}
    (hload : (load path).runOn tree = (.ok codebook, tree))
    (hread : tree.read path = .ok bytes)
    (hsave : (codebook.save copy).runOn before = (.ok done, changed)) :
    (bytes.drop headerSize = codebook.payload ∨
        codebook.payload.length < (bytes.drop headerSize).length) ∧
      codebook.fingerprint = .of (bytes.drop headerSize) ∧
      (load copy).runOn changed =
        (if Fingerprint.of (bytes.drop headerSize) = .of codebook.payload then .ok codebook
        else .error (.indexCorrupt copy
          (mismatch (.of (bytes.drop headerSize)) (.of codebook.payload))), changed) := by
  obtain ⟨-, contents, hcontents, hofBytes⟩ := load_ok.mp hload
  obtain rfl := Except.ok.inj (hread.symm.trans hcontents)
  have hin := isIn_of_ofBytes hofBytes
  refine ⟨hin.payload, hin.fingerprint, ?_⟩
  rw [runOn_load (read_of_save hsave), hin.isLoadable.ofBytes_toBytes, hin.fingerprint]
  split
  · rw [Result.ok_mapError]
  · rw [Result.error_mapError]

/-- The payload of a codebook with one centroid, their number in a form of three bytes. -/
def longPayload : Bytes :=
  [251, 1, 0] ++ Packed.list Packed.single [.one] ++
    packQuantizer ⟨1, 1, 1, 1, [[[.one]]]⟩ ++ packParams ⟨1, 1, 1, 7, 1⟩

def longCodebook : Codebook :=
  ⟨1, [[.one]], ⟨1, 1, 1, 1, [[[.one]]]⟩, ⟨1, 1, 1, 7, 1⟩, .of longPayload⟩

def longTree : Tree :=
  ⟨[(["long.index"], .file (longCodebook.header longPayload.length ++ longPayload) 0)], 0⟩

/-- The codebook is loaded and saved, and what was saved is refused. -/
theorem load_resaved_long : ∃ changed,
    (load "long.index").runOn longTree = (.ok longCodebook, longTree) ∧
      (longCodebook.save "copy.index").runOn longTree = (.ok (), changed) ∧
      longCodebook.payload ≠ longPayload ∧
      (load "copy.index").runOn changed =
        (.error (.indexCorrupt "copy.index"
          (mismatch (.of longPayload) (.of longCodebook.payload))), changed) := by
  obtain ⟨_, changed, hsave⟩ := IndexProgram.exists_runOn_ok
    (show ((longCodebook.save "copy.index").runOn longTree).1.isOk = true by decide)
  have hread : longTree.read "long.index" =
      .ok (longCodebook.header longPayload.length ++ longPayload) := rfl
  have hload : (load "long.index").runOn longTree = (.ok longCodebook, longTree) :=
    load_ok.mpr ⟨rfl, _, hread, Result.toOption_eq_some.mp (by decide +kernel)⟩
  obtain ⟨-, -, hcopy⟩ := load_resaved hload hread hsave
  rw [drop_header, if_neg (by decide +kernel)] at hcopy
  exact ⟨changed, hload, hsave, by decide, hcopy⟩

end VectorIndex.Codebook
