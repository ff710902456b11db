import VectorIndex.Proofs.Codebook.Training
import VectorIndex.Proofs.Store.Staging

/-!
# A codebook is read back

A codebook as training makes it, whose numbers fit the fields of its file, is what the bytes of the
file hold. Loading the saved file gives the same codebook, and a file that was cut off, or that was
written on, is refused.
-/

namespace VectorIndex

open Bytes (littleEndian natAt natAt_of_drop)
open Packed.Decoder (Reads reads_byte reads_number reads_number_of_width)
open Result (guard_error)

/-- The parameters have the widths that they are stored with. -/
structure TrainingParams.FitsFields (params : TrainingParams) : Prop where
  cells : params.cells < 0x100000000
  subspaces : params.subspaces < 0x100000000
  bits : params.bitsPerSubspace < 0x100
  seed : params.seed < 0x10000000000000000
  samples : params.samples < 0x10000000000000000

instance (params : TrainingParams) : Decidable params.FitsFields :=
  decidable_of_iff (params.cells < 0x100000000 ∧ params.subspaces < 0x100000000 ∧
    params.bitsPerSubspace < 0x100 ∧ params.seed < 0x10000000000000000 ∧
      params.samples < 0x10000000000000000)
    ⟨fun ⟨hcells, hsubspaces, hbits, hseed, hsamples⟩ ↦
      ⟨hcells, hsubspaces, hbits, hseed, hsamples⟩,
    fun hfits ↦ ⟨hfits.cells, hfits.subspaces, hfits.bits, hfits.seed, hfits.samples⟩⟩

namespace Codebook

/-- Every number of the codebook fits its field of the file. -/
structure FitsFields (codebook : Codebook) : Prop where
  dimension : codebook.dimension < 0x100000000
  cellCount : codebook.cellCount < 0x100000000
  codeSize : codebook.codeSize < 0x100000000
  params : codebook.params.FitsFields
  payload : codebook.payload.length < 0x10000000000000000

instance (codebook : Codebook) : Decidable codebook.FitsFields :=
  decidable_of_iff (codebook.dimension < 0x100000000 ∧ codebook.cellCount < 0x100000000 ∧
    codebook.codeSize < 0x100000000 ∧ codebook.params.FitsFields ∧
      codebook.payload.length < 0x10000000000000000)
    ⟨fun ⟨hdimension, hcells, hcode, hparams, hpayload⟩ ↦
      ⟨hdimension, hcells, hcode, hparams, hpayload⟩,
    fun hfits ↦ ⟨hfits.dimension, hfits.cellCount, hfits.codeSize, hfits.params, hfits.payload⟩⟩

theorem reads_params {params : TrainingParams} (hfits : params.FitsFields) :
    Reads paramsDecoder (packParams params) params := by
  have hbits : (UInt8.ofNat params.bitsPerSubspace).toNat = params.bitsPerSubspace := by
    rw [UInt8.toNat_ofNat']
    exact Nat.mod_eq_of_lt hfits.bits
  have hfour : ∀ {value : Nat}, value < 0x100000000 →
      Reads (Packed.Decoder.number 4) (Packed.number value) value := fun hvalue ↦
    reads_number_of_width (fun _ ↦ Nat.le_refl 4) (fun hlarge ↦ absurd hvalue (by omega))
      (Nat.lt_trans hvalue (by decide))
  have hsamples := (reads_number hfits.samples).map fun samples ↦ (⟨params.cells, params.subspaces,
    (UInt8.ofNat params.bitsPerSubspace).toNat, params.seed, samples⟩ : TrainingParams)
  unfold packParams paramsDecoder
  simp only [List.append_assoc]
  apply (hfour hfits.cells).bind
  apply (hfour hfits.subspaces).bind
  apply (reads_byte (UInt8.ofNat params.bitsPerSubspace)).bind
  apply (reads_number hfits.seed).bind
  rwa [hbits] at hsamples ⊢

variable {codebook : Codebook}

theorem reads_payload (hquantizer : codebook.quantizer.FitsFields) (hfits : codebook.FitsFields) :
    Reads payloadDecoder codebook.payload
      (codebook.centroids, codebook.quantizer, codebook.params) := by
  have hlength := hfits.payload
  rw [payload_eq, List.length_append, List.length_append] at hlength
  rw [payload_eq]
  apply (reads_vectors (by omega)).bind
  apply (reads_quantizer hquantizer (by omega)).bind
  exact (reads_params hfits.params).map fun params ↦ (codebook.centroids, codebook.quantizer, params)

/-! ## The header

The fields of the header, as they are read from bytes that start with it. -/

section

variable (codebook) {payloadLength : Nat} {rest : Bytes}

theorem take_magic_header : (codebook.header payloadLength ++ rest).take 4 = magic := rfl

theorem natAt_version : natAt (codebook.header payloadLength ++ rest) 4 4 = formatVersion :=
  natAt_of_drop (show (codebook.header payloadLength ++ rest).drop 4 =
    littleEndian 4 formatVersion ++ (codebook.header payloadLength ++ rest).drop 8 from rfl)
    (by decide)

theorem natAt_dimension (hdimension : codebook.dimension < 0x100000000) :
    natAt (codebook.header payloadLength ++ rest) 8 4 = codebook.dimension :=
  natAt_of_drop (show (codebook.header payloadLength ++ rest).drop 8 =
    littleEndian 4 codebook.dimension ++ (codebook.header payloadLength ++ rest).drop 12 from rfl)
    hdimension

theorem natAt_cellCount (hcells : codebook.cellCount < 0x100000000) :
    natAt (codebook.header payloadLength ++ rest) 12 4 = codebook.cellCount :=
  natAt_of_drop (show (codebook.header payloadLength ++ rest).drop 12 =
    littleEndian 4 codebook.cellCount ++ (codebook.header payloadLength ++ rest).drop 16 from rfl)
    hcells

theorem natAt_codeSize (hsize : codebook.codeSize < 0x100000000) :
    natAt (codebook.header payloadLength ++ rest) 16 4 = codebook.codeSize :=
  natAt_of_drop (show (codebook.header payloadLength ++ rest).drop 16 =
    littleEndian 4 codebook.codeSize ++ (codebook.header payloadLength ++ rest).drop 20 from rfl)
    hsize

theorem natAt_bits (hbits : codebook.quantizer.bits < 0x100000000) :
    natAt (codebook.header payloadLength ++ rest) 20 4 = codebook.quantizer.bits :=
  natAt_of_drop (show (codebook.header payloadLength ++ rest).drop 20 =
    littleEndian 4 codebook.quantizer.bits ++ (codebook.header payloadLength ++ rest).drop 24
    from rfl) hbits

theorem natAt_payload (hpayload : payloadLength < 0x10000000000000000) :
    natAt (codebook.header payloadLength ++ rest) 24 8 = payloadLength :=
  natAt_of_drop (show (codebook.header payloadLength ++ rest).drop 24 =
    littleEndian 8 payloadLength ++ (codebook.header payloadLength ++ rest).drop 32 from rfl) hpayload

theorem ofPrefix_header :
    Fingerprint.ofPrefix ((codebook.header payloadLength ++ rest).drop 32) =
      codebook.fingerprint := by
  have hdrop : (codebook.header payloadLength ++ rest).drop 32 =
      codebook.fingerprint.bytes ++ rest := rfl
  rw [hdrop, Fingerprint.ofPrefix_append]

theorem drop_header : (codebook.header payloadLength ++ rest).drop headerSize = rest :=
  List.drop_left' (codebook.length_header payloadLength)

theorem headerSize_le : headerSize ≤ (codebook.header payloadLength ++ rest).length := by
  rw [List.length_append, length_header]
  exact Nat.le_add_right _ _

end

/-! ## What is read back -/

/-- A codebook that a file can hold: its numbers fit their fields, and it has a dimension, which its
quantizer and its centroids share. -/
structure IsLoadable (codebook : Codebook) : Prop where
  fits : codebook.FitsFields
  quantizer_fits : codebook.quantizer.FitsFields
  quantizer : codebook.dimension = codebook.quantizer.dimension
  positive : 0 < codebook.dimension
  length_centroid : ∀ c ∈ codebook.centroids, c.length = codebook.dimension

theorem IsLoadable.isIn_toBytes (hloadable : codebook.IsLoadable)
    (hfingerprint : codebook.fingerprint = .of codebook.payload) :
    codebook.IsIn codebook.toBytes := by
  have hdecoded := reads_payload hloadable.quantizer_fits hloadable.fits []
  rw [List.append_nil] at hdecoded
  have hdrop := codebook.drop_toBytes
  exact {
    length_header := codebook.headerSize_le
    magic := codebook.take_magic_header
    version := codebook.natAt_version
    length_payload := by rw [hdrop]; exact (codebook.natAt_payload hloadable.fits.payload).symm
    stored := codebook.ofPrefix_header.symm
    fingerprint := by rw [hdrop]; exact hfingerprint
    decoded := by rw [hdrop]; exact hdecoded
    quantizer := hloadable.quantizer
    dimension := (codebook.natAt_dimension hloadable.fits.dimension).symm
    cellCount := (codebook.natAt_cellCount hloadable.fits.cellCount).symm
    codeSize := (codebook.natAt_codeSize hloadable.fits.codeSize).symm
    bits := (codebook.natAt_bits (Nat.lt_trans hloadable.quantizer_fits.bits (by decide))).symm
    positive := hloadable.positive
    length_centroid := hloadable.length_centroid }

theorem IsMade.isLoadable (hmade : codebook.IsMade) (hpositive : 0 < codebook.dimension)
    (hfits : codebook.FitsFields) : codebook.IsLoadable := by
  have hlength := hfits.payload
  unfold payload pack at hlength
  rw [List.length_append, List.length_append] at hlength
  have hdimension := hfits.dimension
  rw [hmade.dimension] at hdimension
  exact ⟨hfits, fitsFields_of_isMade hmade.quantizer (by omega) (by omega), hmade.dimension, hpositive,
    hmade.dimension ▸ hmade.length_centroid⟩

/-- A codebook survives its file. -/
theorem ofBytes_toBytes (hmade : codebook.IsMade) (hpositive : 0 < codebook.dimension)
    (hfits : codebook.FitsFields) : ofBytes codebook.toBytes = .ok codebook :=
  ((hmade.isLoadable hpositive hfits).isIn_toBytes hmade.fingerprint).ofBytes

/-! ## What is refused -/

/-- What is said of a payload whose digest is not the stored one. -/
def mismatch (stored actual : Fingerprint) : String :=
  s!"fingerprint mismatch: header {stored.toHex}, payload {actual.toHex}"

section

variable (codebook) (payload : Bytes)

/-- Bytes that start with a header pass what is checked of the header alone. -/
theorem accepts_header (payloadLength : Nat) :
    ¬ (codebook.header payloadLength ++ payload).length < headerSize ∧
      ¬ (codebook.header payloadLength ++ payload).take 4 ≠ magic ∧
      ¬ natAt (codebook.header payloadLength ++ payload) 4 4 ≠ formatVersion :=
  ⟨Nat.not_lt_of_le codebook.headerSize_le, not_not_intro codebook.take_magic_header,
    not_not_intro codebook.natAt_version⟩

/-- A payload that is not as long as the header says is refused. -/
theorem ofBytes_of_length_ne {payloadLength : Nat} (hlength : payloadLength < 0x10000000000000000)
    (hne : payload.length ≠ payloadLength) :
    ofBytes (codebook.header payloadLength ++ payload) =
      .error s!"payload is {payload.length} bytes, header says {payloadLength}" := by
  obtain ⟨hheader, hmagic, hversion⟩ := codebook.accepts_header payload payloadLength
  unfold ofBytes
  rw [codebook.natAt_payload hlength, codebook.drop_header]
  refine guard_error.mpr (.inr ⟨hheader, guard_error.mpr (.inr ⟨hmagic, ?_⟩)⟩)
  exact guard_error.mpr (.inr ⟨hversion, guard_error.mpr (.inl ⟨hne, rfl⟩)⟩)

/-- A payload whose digest is not the fingerprint in the header is refused. -/
theorem ofBytes_of_fingerprint_ne (hlength : payload.length < 0x10000000000000000)
    (hne : Fingerprint.of payload ≠ codebook.fingerprint) :
    ofBytes (codebook.header payload.length ++ payload) =
      .error (mismatch codebook.fingerprint (.of payload)) := by
  obtain ⟨hheader, hmagic, hversion⟩ := codebook.accepts_header payload payload.length
  unfold ofBytes
  rw [codebook.natAt_payload hlength, codebook.drop_header, codebook.ofPrefix_header]
  refine guard_error.mpr (.inr ⟨hheader, guard_error.mpr (.inr ⟨hmagic, ?_⟩)⟩)
  refine guard_error.mpr (.inr ⟨hversion, guard_error.mpr (.inr ⟨not_not_intro rfl, ?_⟩)⟩)
  exact guard_error.mpr (.inl ⟨hne, rfl⟩)

end

/-- A file that was cut off, or that was written on, starts with as much of the header as it has,
and what it has behind the header is not as long as the header says. -/
theorem exists_error_of_cut (hlength : codebook.payload.length < 0x10000000000000000)
    {bytes : Bytes} (hne : bytes ≠ codebook.toBytes)
    (hcut : bytes <+: codebook.toBytes ∨ codebook.toBytes <+: bytes) :
    ∃ reason, ofBytes bytes = .error reason := by
  by_cases hheader : bytes.length < headerSize
  · refine ⟨"file too small to contain a codebook header", ?_⟩
    unfold ofBytes
    exact guard_error.mpr (.inl ⟨hheader, rfl⟩)
  · have hstart : codebook.header codebook.payload.length <+: codebook.toBytes :=
      List.prefix_append _ _
    have hlonger : (codebook.header codebook.payload.length).length ≤ bytes.length := by
      rw [length_header]
      exact Nat.le_of_not_lt hheader
    have hstarts : codebook.header codebook.payload.length <+: bytes :=
      hcut.elim (List.prefix_of_prefix_length_le hstart · hlonger) hstart.trans
    obtain ⟨payload, rfl⟩ := hstarts
    have hpayload : payload.length ≠ codebook.payload.length := by
      intro heq
      have hsame : (codebook.header codebook.payload.length ++ payload).length =
          codebook.toBytes.length := by
        rw [toBytes, List.length_append, List.length_append, heq]
      exact hne (hcut.elim (·.eq_of_length hsame) fun hextends ↦
        (hextends.eq_of_length hsame.symm).symm)
    exact ⟨_, codebook.ofBytes_of_length_ne payload hlength hpayload⟩

/-! ## Saving and loading -/

theorem read_of_save {path : Path} {tree changed : Tree} {done : Unit}
    (hsave : (codebook.save path).runOn tree = (.ok done, changed)) :
    changed.read path = .ok codebook.toBytes := read_of_publishFile hsave

/-- A codebook of a trained quantizer can be held by a file when the numbers of its shape and its
parameters fit their fields. -/
theorem isLoadable_of_ofParts {residuals centroids : List Vec} {subspaces bits : Nat} {seed : UInt64}
    {maxIterations : Nat} {quantizer : Quantizer} {params : TrainingParams} (hbits : bits < 0x100)
    (htrain : Quantizer.train residuals subspaces bits seed maxIterations = .ok quantizer)
    (hparts : ofParts centroids quantizer params = .ok codebook) (hfits : codebook.FitsFields) :
    codebook.IsLoadable := by
  obtain ⟨first, _, codebooks, rfl, rfl, -⟩ := Quantizer.exists_of_train htrain
  obtain ⟨-, hlength, hpositive, rfl⟩ := ofParts_eq_ok.mp hparts
  have hdimension : first.length < 0x100000000 := hfits.dimension
  have hsubspaces : subspaces < 0x100000000 := hfits.codeSize
  have hwidth : first.length / subspaces ≤ first.length := Nat.div_le_self _ _
  refine ⟨hfits, ⟨?_, ?_, ?_, hbits⟩, rfl, hpositive, hlength⟩
  · exact Nat.lt_trans hdimension (by decide)
  · exact Nat.lt_trans hsubspaces (by decide)
  · exact Nat.lt_trans (Nat.lt_of_le_of_lt hwidth hdimension) (by decide)

/-- A codebook that was put together of any centroids and a trained quantizer is loaded from the file
that it was saved to, and that file is corrupt, wherever it is, when it is cut off at any byte or
when anything is written behind it. -/
theorem load_save {residuals centroids : List Vec} {subspaces bits : Nat} {seed : UInt64}
    {maxIterations : Nat} {quantizer : Quantizer} {params : TrainingParams} {path : Path}
    {tree changed : Tree} {done : Unit} (hbits : bits < 0x100)
    (htrain : Quantizer.train residuals subspaces bits seed maxIterations = .ok quantizer)
    (hparts : ofParts centroids quantizer params = .ok codebook) (hfits : codebook.FitsFields)
    (hsave : (codebook.save path).runOn tree = (.ok done, changed)) :
    changed.read path = .ok codebook.toBytes ∧
      (load path).runOn changed = (.ok codebook, changed) ∧
      ∀ other copy bytes, other.read copy = .ok bytes → bytes ≠ codebook.toBytes →
        bytes <+: codebook.toBytes ∨ codebook.toBytes <+: bytes →
        ∃ reason, (load copy).runOn other = (.error (.indexCorrupt copy reason), other) := by
  have hread := read_of_save hsave
  have hloadable := isLoadable_of_ofParts hbits htrain hparts hfits
  obtain ⟨-, -, -, hcodebook⟩ := ofParts_eq_ok.mp hparts
  have hfingerprint : codebook.fingerprint = .of codebook.payload := by
    rw [hcodebook]
    rfl
  refine ⟨hread, load_ok.mpr ⟨rfl, _, hread, (hloadable.isIn_toBytes hfingerprint).ofBytes⟩, ?_⟩
  intro other copy bytes hcopy hne hcut
  obtain ⟨reason, hreason⟩ := exists_error_of_cut hfits.payload hne hcut
  exact ⟨reason, by rw [runOn_load hcopy, hreason, Result.error_mapError]⟩

/-- A codebook of two cells and two subspaces. One centroid has a NaN with a payload and a negative
zero for its components. -/
def oddCodebook : Codebook :=
  let centroids : List Vec := [[⟨0x7fc00001⟩, ⟨0x80000000⟩], [.one, .zero]]
  let quantizer : Quantizer := ⟨2, 2, 1, 1, [[[.one]], [[.half]]]⟩
  let params : TrainingParams := ⟨2, 2, 1, 3, 1⟩
  ⟨2, centroids, quantizer, params, .of (pack centroids quantizer params)⟩

/-- The file of the odd codebook, with its last byte missing. -/
def cutTree : Tree := ⟨[(["cut.index"], .file oddCodebook.toBytes.dropLast 0)], 0⟩

theorem load_save_odd : ∃ changed reason,
    (oddCodebook.save "index/trained.index").runOn .empty = (.ok (), changed) ∧
      (load "index/trained.index").runOn changed = (.ok oddCodebook, changed) ∧
      (load "cut.index").runOn cutTree =
        (.error (.indexCorrupt "cut.index" reason), cutTree) := by
  obtain ⟨_, changed, hsave⟩ := IndexProgram.exists_runOn_ok
    (show ((oddCodebook.save "index/trained.index").runOn .empty).1.isOk = true by decide)
  have htrain : Quantizer.train [[.one, .half]] 2 1 3 2 = .ok oddCodebook.quantizer :=
    Result.toOption_eq_some.mp (by decide)
  have hparts : ofParts oddCodebook.centroids oddCodebook.quantizer oddCodebook.params =
      .ok oddCodebook := ofParts_eq_ok.mpr ⟨by decide, by decide, by decide, rfl⟩
  have hfits : oddCodebook.FitsFields :=
    ⟨by decide, by decide, by decide, ⟨by decide, by decide, by decide, by decide, by decide⟩,
      by decide⟩
  obtain ⟨-, hload, hcut⟩ := load_save (by decide) htrain hparts hfits hsave
  have hstarted : oddCodebook.toBytes.dropLast <+: oddCodebook.toBytes := List.dropLast_prefix _
  have hne : oddCodebook.toBytes.dropLast ≠ oddCodebook.toBytes := by
    intro heq
    have hlength := congrArg List.length heq
    rw [List.length_dropLast] at hlength
    have hheader : headerSize ≤ oddCodebook.toBytes.length := oddCodebook.headerSize_le
    unfold headerSize at hheader
    omega
  obtain ⟨reason, hcorrupt⟩ := hcut cutTree "cut.index" _ rfl hne (.inl hstarted)
  exact ⟨changed, reason, hsave, hload, hcorrupt⟩

end Codebook
end VectorIndex
