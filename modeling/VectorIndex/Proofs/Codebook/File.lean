import VectorIndex.Codebook.File
import VectorIndex.Proofs.Bytes.Packed
import VectorIndex.Proofs.Result
import VectorIndex.Proofs.Store.Program

/-!
# What a codebook file holds

The header of a codebook file stores the shape of the codebook in fields of four bytes, so the
numbers of a loaded codebook are below `2 ^ 32`. The payload gives centroids and quantizer back.
-/

namespace VectorIndex

/-- A quantizer as training makes it, whose numbers are bounded by its dimension and by the number
of its codebooks. -/
structure Quantizer.IsMade (quantizer : Quantizer) : Prop where
  bits : quantizer.bits ≤ Quantizer.maxBits
  codebooks : quantizer.codebooks.length = quantizer.subspaces
  width : quantizer.subspaceWidth ≤ quantizer.dimension

/-- The numbers of the quantizer have the widths that they are stored with. -/
structure Quantizer.FitsFields (quantizer : Quantizer) : Prop where
  dimension : quantizer.dimension < 0x10000000000000000
  subspaces : quantizer.subspaces < 0x10000000000000000
  subspaceWidth : quantizer.subspaceWidth < 0x10000000000000000
  bits : quantizer.bits < 0x100

namespace Codebook

open Bytes (natAt natAt_lt)
open Result (guard_ok pure_ok)

/-- The codebook is what the bytes of a file hold: a header of this format, whose length and
fingerprint are those of the payload behind it, a payload that is one packed codebook, and numbers
in the header that agree with it. -/
structure IsIn (codebook : Codebook) (bytes : Bytes) : Prop where
  length_header : headerSize ≤ bytes.length
  magic : bytes.take 4 = magic
  version : natAt bytes 4 4 = formatVersion
  length_payload : (bytes.drop headerSize).length = natAt bytes 24 8
  stored : codebook.fingerprint = .ofPrefix (bytes.drop 32)
  fingerprint : codebook.fingerprint = .of (bytes.drop headerSize)
  decoded : payloadDecoder (bytes.drop headerSize) =
    some ((codebook.centroids, codebook.quantizer, codebook.params), [])
  quantizer : codebook.dimension = codebook.quantizer.dimension
  dimension : codebook.dimension = natAt bytes 8 4
  cellCount : codebook.cellCount = natAt bytes 12 4
  codeSize : codebook.codeSize = natAt bytes 16 4
  bits : codebook.quantizer.bits = natAt bytes 20 4
  positive : 0 < codebook.dimension
  length_centroid : ∀ c ∈ codebook.centroids, c.length = codebook.dimension

theorem isIn_of_ofBytes {bytes : Bytes} {codebook : Codebook}
    (hread : ofBytes bytes = .ok codebook) : codebook.IsIn bytes := by
  unfold ofBytes at hread
  obtain ⟨hheader, hread₁⟩ := guard_ok.mp hread
  obtain ⟨hmagic, hread₂⟩ := guard_ok.mp hread₁
  obtain ⟨hversion, hread₃⟩ := guard_ok.mp hread₂
  obtain ⟨hlength, hread₄⟩ := guard_ok.mp hread₃
  obtain ⟨hstored, hread₅⟩ := guard_ok.mp hread₄
  dsimp only at hread₅
  split at hread₅
  · next centroids quantizer params rest hpayload =>
    obtain ⟨hrest, hread₆⟩ := guard_ok.mp hread₅
    obtain ⟨hshape, hread₇⟩ := guard_ok.mp hread₆
    obtain ⟨hcentroids, hread₈⟩ := guard_ok.mp hread₇
    obtain rfl := pure_ok.mp hread₈
    simp only [Bool.not_eq_true', Bool.not_eq_false, List.isEmpty_iff] at hrest
    simp only [Bool.or_eq_true, decide_eq_true_iff, not_or, Decidable.not_not] at hshape
    simp only [Bool.or_eq_true, decide_eq_true_iff, not_or, List.any_eq_true, not_exists, not_and,
      Decidable.not_not] at hcentroids
    subst hrest
    obtain ⟨⟨⟨hdimension, hcells⟩, hsubspaces⟩, hbits⟩ := hshape
    exact {
      length_header := Nat.le_of_not_lt hheader
      magic := Decidable.not_not.mp hmagic
      version := Decidable.not_not.mp hversion
      length_payload := Decidable.not_not.mp hlength
      stored := Decidable.not_not.mp hstored
      fingerprint := rfl
      decoded := hpayload
      quantizer := hdimension.symm
      dimension := rfl
      cellCount := hcells
      codeSize := hsubspaces
      bits := hbits
      positive := Nat.pos_of_ne_zero hcentroids.1
      length_centroid := hcentroids.2 }
  · cases hread₅

/-- What bytes hold is what is read from them. -/
theorem IsIn.ofBytes {codebook : Codebook} {bytes : Bytes} (hin : codebook.IsIn bytes) :
    Codebook.ofBytes bytes = .ok codebook := by
  obtain ⟨hheader, hmagic, hversion, hlength, hstored, hfingerprint, hdecoded, hquantizer,
    hdimension, hcells, hsubspaces, hbits, hpositive, hcentroids⟩ := hin
  unfold Codebook.ofBytes
  refine guard_ok.mpr ⟨Nat.not_lt_of_le hheader, guard_ok.mpr ⟨not_not_intro hmagic, ?_⟩⟩
  refine guard_ok.mpr ⟨not_not_intro hversion, guard_ok.mpr ⟨not_not_intro hlength, ?_⟩⟩
  refine guard_ok.mpr ⟨not_not_intro (hfingerprint.symm.trans hstored), ?_⟩
  dsimp only
  rw [hdecoded]
  refine guard_ok.mpr ⟨by simp, guard_ok.mpr ⟨?_, guard_ok.mpr ⟨?_, ?_⟩⟩⟩
  · have hcells' : codebook.centroids.length = natAt bytes 12 4 := hcells
    have hsubspaces' : codebook.quantizer.subspaces = natAt bytes 16 4 := hsubspaces
    simp [← hdimension, ← hquantizer, hcells', hsubspaces', hbits]
  · rw [← hdimension]
    simpa [Nat.ne_of_gt hpositive] using hcentroids
  · rw [← hdimension, ← hfingerprint]
    rfl

/-- Files with one payload hold one codebook. -/
theorem IsIn.unique {first second : Bytes} {codebook other : Codebook}
    (hfirst : codebook.IsIn first) (hsecond : other.IsIn second)
    (hpayload : first.drop headerSize = second.drop headerSize) : codebook = other := by
  have hdecoded := hfirst.decoded
  have hdecoded' := hsecond.decoded
  rw [hpayload, hdecoded'] at hdecoded
  simp only [Option.some.injEq, Prod.mk.injEq] at hdecoded
  obtain ⟨⟨hcentroids, hquantizer, hparams⟩, -⟩ := hdecoded
  have hdimension : codebook.dimension = other.dimension := by
    rw [hfirst.quantizer, hsecond.quantizer, hquantizer]
  have hfingerprint : codebook.fingerprint = other.fingerprint := by
    rw [hfirst.fingerprint, hsecond.fingerprint, hpayload]
  cases codebook
  cases other
  rw [mk.injEq]
  exact ⟨hdimension, hcentroids.symm, hquantizer.symm, hparams.symm, hfingerprint⟩

theorem shape_lt_of_ofBytes {bytes : Bytes} {codebook : Codebook}
    (hread : ofBytes bytes = .ok codebook) :
    codebook.dimension < 0x100000000 ∧ codebook.cellCount < 0x100000000 ∧
      codebook.codeSize < 0x100000000 := by
  have hin := isIn_of_ofBytes hread
  rw [hin.dimension, hin.cellCount, hin.codeSize]
  exact ⟨natAt_lt bytes 8 4, natAt_lt bytes 12 4, natAt_lt bytes 16 4⟩

/-! ## The payload is read back -/

open Packed (length_form_le length_le_length_list length_list_pos)
open Packed.Decoder (Reads reads_byte reads_list reads_number reads_pure reads_single)

theorem length_single_pos (x : Binary32) : 0 < (Packed.single x).length := by
  unfold Packed.single
  rw [Bytes.length_littleEndian]
  decide

theorem reads_vectors {items : List Vec}
    (hlength : (Packed.list (Packed.list Packed.single) items).length < 0x10000000000000000) :
    Reads vectors (Packed.list (Packed.list Packed.single) items) items := by
  apply reads_list
  · intro v hv
    apply reads_list
    · exact fun x _ ↦ reads_single x
    · have hform : (Packed.list Packed.single v).length ≤ _ := length_form_le hv
      have hitems := length_le_length_list fun x (_ : x ∈ v) ↦ length_single_pos x
      omega
  · have hitems := length_le_length_list fun v (_ : v ∈ items) ↦ length_list_pos Packed.single v
    omega

/-- A quantizer is read back when its numbers fit and there are no more bytes than numbers count. -/
theorem reads_quantizer {quantizer : Quantizer} (hfits : quantizer.FitsFields)
    (hlength : (packQuantizer quantizer).length < 0x10000000000000000) :
    Reads quantizerDecoder (packQuantizer quantizer) quantizer := by
  have hlist : (Packed.list (Packed.list (Packed.list Packed.single))
      quantizer.codebooks).length < 0x10000000000000000 := by
    unfold packQuantizer at hlength
    rw [List.length_append] at hlength
    omega
  have hitems := length_le_length_list fun v (_ : v ∈ quantizer.codebooks) ↦
    length_list_pos (Packed.list Packed.single) v
  have hbits : (UInt8.ofNat quantizer.bits).toNat = quantizer.bits := by
    rw [UInt8.toNat_ofNat']
    exact Nat.mod_eq_of_lt hfits.bits
  have hcodebooks : Reads (Packed.Decoder.list vectors)
      (Packed.list (Packed.list (Packed.list Packed.single)) quantizer.codebooks)
      quantizer.codebooks := by
    apply reads_list
    · intro codewords hcodewords
      apply reads_vectors
      have hform : (Packed.list (Packed.list Packed.single) codewords).length ≤ _ :=
        length_form_le hcodewords
      omega
    · omega
  have hlast := hcodebooks.map fun codebooks ↦ (⟨quantizer.dimension, quantizer.subspaces,
    quantizer.subspaceWidth, (UInt8.ofNat quantizer.bits).toNat, codebooks⟩ : Quantizer)
  unfold packQuantizer quantizerDecoder
  simp only [List.append_assoc]
  apply (reads_number hfits.dimension).bind
  apply (reads_number hfits.subspaces).bind
  apply (reads_number hfits.subspaceWidth).bind
  apply (reads_byte (UInt8.ofNat quantizer.bits)).bind
  rwa [hbits] at hlast ⊢

/-- The number of subspaces of a made quantizer is bounded by the bytes of its codebooks. -/
theorem fitsFields_of_isMade {quantizer : Quantizer} (hmade : quantizer.IsMade)
    (hlength : (packQuantizer quantizer).length < 0x10000000000000000)
    (hdimension : quantizer.dimension < 0x10000000000000000) : quantizer.FitsFields := by
  have hitems := length_le_length_list fun v (_ : v ∈ quantizer.codebooks) ↦
    length_list_pos (Packed.list Packed.single) v
  rw [hmade.codebooks] at hitems
  unfold packQuantizer at hlength
  rw [List.length_append] at hlength
  exact ⟨hdimension, by omega, Nat.lt_of_le_of_lt hmade.width hdimension,
    Nat.lt_of_le_of_lt hmade.bits (by decide)⟩

/-- A codebook as training makes it. -/
structure IsMade (codebook : Codebook) : Prop where
  quantizer : codebook.quantizer.IsMade
  dimension : codebook.dimension = codebook.quantizer.dimension
  centroids_ne_nil : codebook.centroids ≠ []
  length_centroid : ∀ c ∈ codebook.centroids, c.length = codebook.quantizer.dimension
  fingerprint : codebook.fingerprint = .of codebook.payload

theorem IsMade.dimension_le {codebook : Codebook} (hmade : codebook.IsMade) :
    codebook.quantizer.dimension ≤
      (Packed.list (Packed.list Packed.single) codebook.centroids).length := by
  obtain ⟨c, hc⟩ := List.exists_mem_of_ne_nil _ hmade.centroids_ne_nil
  have hform : (Packed.list Packed.single c).length ≤ _ := length_form_le hc
  have hitems := length_le_length_list fun x (_ : x ∈ c) ↦ length_single_pos x
  rw [hmade.length_centroid c hc] at hitems
  omega

/-- The payload in the order in which it is read. -/
theorem payload_eq (codebook : Codebook) : codebook.payload =
    Packed.list (Packed.list Packed.single) codebook.centroids ++
      (packQuantizer codebook.quantizer ++ packParams codebook.params) :=
  List.append_assoc _ _ _

/-- Whatever is read of the parameters, centroids and quantizer are those that were packed. -/
theorem payloadDecoder_payload {codebook : Codebook} (hmade : codebook.IsMade)
    (hlength : codebook.payload.length < 0x10000000000000000) {centroids : List Vec}
    {quantizer : Quantizer} {params : TrainingParams} {rest : Bytes}
    (hread : payloadDecoder codebook.payload = some ((centroids, quantizer, params), rest)) :
    centroids = codebook.centroids ∧ quantizer = codebook.quantizer := by
  have hdimension := hmade.dimension_le
  rw [payload_eq, List.length_append, List.length_append] at hlength
  have hcentroids := reads_vectors (show (Packed.list (Packed.list Packed.single)
    codebook.centroids).length < _ by omega)
  have hpacked : (packQuantizer codebook.quantizer).length < 0x10000000000000000 := by omega
  have hquantizer := reads_quantizer
    (fitsFields_of_isMade hmade.quantizer hpacked (by omega)) hpacked
  rw [payload_eq] at hread
  have hquantized := (hcentroids.run_bind _ _).symm.trans hread
  have hparams := (hquantizer.run_bind _ _).symm.trans hquantized
  rw [StateT.run_bind] at hparams
  obtain ⟨⟨found, left⟩, -, hlast⟩ := Option.bind_eq_some_iff.mp hparams
  obtain ⟨hall, -⟩ := Prod.mk.inj (Option.some.inj hlast)
  obtain ⟨hfirst, hlater⟩ := Prod.mk.inj hall
  exact ⟨hfirst.symm, (Prod.mk.inj hlater).1.symm⟩

theorem length_header (codebook : Codebook) (payloadLength : Nat) :
    (codebook.header payloadLength).length = headerSize := by
  unfold header
  simp only [List.length_append, Bytes.length_littleEndian, codebook.fingerprint.length_bytes]
  rfl

theorem drop_toBytes (codebook : Codebook) :
    codebook.toBytes.drop headerSize = codebook.payload := by
  unfold toBytes
  rw [← codebook.length_header codebook.payload.length, List.drop_left]

/-- Bytes whose payload is that of a codebook hold its dimension, its centroids and its quantizer,
whatever is read of the parameters. -/
theorem parts_of_ofBytes {codebook other : Codebook} {bytes : Bytes} (hmade : codebook.IsMade)
    (hbytes : bytes.drop headerSize = codebook.payload) (hread : ofBytes bytes = .ok other) :
    other.dimension = codebook.dimension ∧ other.centroids = codebook.centroids ∧
      other.quantizer = codebook.quantizer := by
  have hin := isIn_of_ofBytes hread
  have hdecoded := hin.decoded
  rw [hbytes] at hdecoded
  have hbound := natAt_lt bytes 24 8
  rw [← hin.length_payload, hbytes] at hbound
  obtain ⟨hcentroids, hquantizer⟩ := payloadDecoder_payload hmade hbound hdecoded
  exact ⟨by rw [hin.quantizer, hquantizer, hmade.dimension], hcentroids, hquantizer⟩

/-- A codebook that is read from the file of another one, with the parameters of that one, is that
one. -/
theorem eq_of_ofBytes {codebook other : Codebook} (hmade : codebook.IsMade)
    (hread : ofBytes codebook.toBytes = .ok other) (hparams : other.params = codebook.params) :
    other = codebook := by
  obtain ⟨hdimension, hcentroids, hquantizer⟩ :=
    parts_of_ofBytes hmade codebook.drop_toBytes hread
  have hfingerprint := (isIn_of_ofBytes hread).fingerprint
  rw [drop_toBytes, ← hmade.fingerprint] at hfingerprint
  cases codebook
  cases other
  rw [mk.injEq]
  exact ⟨hdimension, hcentroids, hquantizer, hparams, hfingerprint⟩

/-! ## Loading -/

/-- Loading reads the file and says what is wrong with it. -/
theorem runOn_load {path : Path} {tree : Tree} {bytes : Bytes} (hread : tree.read path = .ok bytes) :
    (load path).runOn tree = ((ofBytes bytes).mapError (.indexCorrupt path), tree) := by
  unfold load
  rw [IndexProgram.runOn_bind, IndexProgram.runOn_readFile, hread]
  rfl

/-- Loading reads the file and leaves the tree. -/
theorem load_ok {path : Path} {tree changed : Tree} {codebook : Codebook} :
    (load path).runOn tree = (.ok codebook, changed) ↔
      changed = tree ∧ ∃ bytes, tree.read path = .ok bytes ∧ ofBytes bytes = .ok codebook := by
  cases hread : tree.read path with
  | error error =>
    unfold load
    rw [IndexProgram.runOn_bind, IndexProgram.runOn_readFile, hread]
    simp
  | ok bytes =>
    rw [runOn_load hread, Prod.mk.injEq, Result.mapError_ok, eq_comm (a := tree), and_comm]
    simp

end Codebook
end VectorIndex
