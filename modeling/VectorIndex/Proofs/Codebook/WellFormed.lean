import VectorIndex.Proofs.Codebook.Codewords
import VectorIndex.Proofs.Codebook.Resaving

/-!
# Well-formed codebooks

Encoding once more, where every codebook, every centroid and every piece that is taken has to be
there, and where what is compared has one length. A codebook with centroids and with codewords for
each subspace, all of the right lengths, encodes vectors, decodes codes and scores them within these
bounds. Training makes quantizers of that kind. Loading does not see to it: of the shape it checks
the dimension of the centroids alone, so a file without centroids or without codewords is loaded
like any other.
-/

namespace VectorIndex

namespace Quantizer

/-- The nearest of some codewords, all of which have to be as long as the piece. -/
def nearest? (codewords : List Vec) (piece : Vec) : Option Nat :=
  if codewords.all (·.length = piece.length) then
    some (nearestCentroid .squaredEuclidean codewords piece).1
  else none

/-- The byte of a code for one subspace, which has to have a codebook, and the vector a piece. -/
def encodePiece? (quantizer : Quantizer) (v : Vec) (subspace : Nat) : Option UInt8 := do
  let piece : Vec ← slice? v (subspace * quantizer.subspaceWidth)
    ((subspace + 1) * quantizer.subspaceWidth)
  let codewords ← quantizer.codebooks[subspace]?
  return UInt8.ofNat (← nearest? codewords piece)

def encode? (quantizer : Quantizer) (v : Vec) : Option Code :=
  (List.range quantizer.subspaces).mapM (quantizer.encodePiece? v)

/-- The pieces of the subspaces make up a vector, and each subspace has codewords of the length of
its piece, no more of them than the bits of a code can tell apart. -/
structure IsWellFormed (quantizer : Quantizer) : Prop where
  bits_pos : 0 < quantizer.bits
  bits_le : quantizer.bits ≤ maxBits
  subspaces_pos : 0 < quantizer.subspaces
  pieces : quantizer.subspaces * quantizer.subspaceWidth = quantizer.dimension
  codebooks : quantizer.codebooks.length = quantizer.subspaces
  codewords_ne_nil : ∀ codewords ∈ quantizer.codebooks, codewords ≠ []
  codewords_le : ∀ codewords ∈ quantizer.codebooks, codewords.length ≤ Nat.pow 2 quantizer.bits
  length_codeword : ∀ codewords ∈ quantizer.codebooks, ∀ c ∈ codewords,
    c.length = quantizer.subspaceWidth

namespace IsWellFormed

variable {quantizer : Quantizer} (hwell : quantizer.IsWellFormed)
include hwell

theorem isShaped : quantizer.IsShaped :=
  ⟨hwell.codebooks, fun codewords hcodewords ↦ by
    rw [stride, indexCount_eq hwell.bits_le]
    exact hwell.codewords_le codewords hcodewords, Nat.le_of_eq hwell.pieces⟩

theorem isMade : quantizer.IsMade := by
  refine ⟨hwell.bits_le, hwell.codebooks, ?_⟩
  rw [← hwell.pieces]
  exact Nat.le_mul_of_pos_left _ hwell.subspaces_pos

theorem encodePiece?_eq {v : Vec} (hv : v.length = quantizer.dimension) {subspace : Nat}
    (hsubspace : subspace < quantizer.subspaces) :
    quantizer.encodePiece? v subspace = some (UInt8.ofNat
      (nearestCentroid .squaredEuclidean (quantizer.codebooks.getD subspace [])
        (v.slice subspace quantizer.subspaceWidth)).1) := by
  have hcodebook : subspace < quantizer.codebooks.length := hwell.codebooks ▸ hsubspace
  have hstop := hwell.isShaped.stop_le hv hsubspace
  have hpiece : (v.slice subspace quantizer.subspaceWidth).length = quantizer.subspaceWidth :=
    Vec.length_slice hstop
  have hslice : slice? v (subspace * quantizer.subspaceWidth)
      ((subspace + 1) * quantizer.subspaceWidth) =
        some (v.slice subspace quantizer.subspaceWidth) := by
    rw [Nat.succ_mul]
    exact slice?_eq_some hstop
  have hnearest : nearest? quantizer.codebooks[subspace]
      (v.slice subspace quantizer.subspaceWidth) =
        some (nearestCentroid .squaredEuclidean quantizer.codebooks[subspace]
          (v.slice subspace quantizer.subspaceWidth)).1 := by
    rw [nearest?, if_pos]
    rw [hpiece, List.all_eq_true]
    exact fun c hc ↦ decide_eq_true (hwell.length_codeword _ (List.getElem_mem hcodebook) c hc)
  unfold encodePiece?
  rw [hslice, List.getElem?_eq_getElem hcodebook, List.getD_eq_getElem?_getD,
    List.getElem?_eq_getElem hcodebook]
  show (nearest? _ _ >>= _) = _
  rw [hnearest]
  rfl

theorem encode?_eq {v : Vec} (hv : v.length = quantizer.dimension) :
    quantizer.encode? v = some (quantizer.encode v) :=
  mapM_eq_some_map fun _ hsubspace ↦ hwell.encodePiece?_eq hv (List.mem_range.mp hsubspace)

/-- A checked code names a codeword of each subspace. -/
theorem length_named {code : Code} (hcheck : quantizer.checkCode code = .ok ()) :
    (quantizer.named code).length = quantizer.subspaces := by
  rw [named, List.length_map, List.length_zip, hwell.codebooks, (checkCode_eq_ok.mp hcheck).1,
    Nat.min_self]

theorem length_of_mem_named {code : Code} (hcheck : quantizer.checkCode code = .ok ()) :
    ∀ c ∈ quantizer.named code, c.length = quantizer.subspaceWidth := by
  obtain ⟨-, hindices⟩ := checkCode_eq_ok.mp hcheck
  unfold named
  rw [List.forall_mem_map]
  intro pair hpair
  rw [List.getD_eq_getElem?_getD, List.getElem?_eq_getElem (hindices pair hpair), Option.getD_some]
  exact hwell.length_codeword _ (List.of_mem_zip hpair).1 _ (List.getElem_mem _)

/-- A checked code names codewords, and joined they have the length of a vector. -/
theorem exists_decode {code : Code} (hcheck : quantizer.checkCode code = .ok ()) :
    ∃ v, quantizer.decode code = some v ∧ v.length = quantizer.dimension := by
  refine ⟨_, decode_eq hcheck, ?_⟩
  rw [length_flatten_of_length (hwell.length_of_mem_named hcheck), hwell.length_named hcheck,
    hwell.pieces]

end IsWellFormed

/-- Training with a shape that passes its check makes a well-formed quantizer. -/
theorem isWellFormed_of_train {residuals : List Vec} {subspaces bits : Nat} {seed : UInt64}
    {maxIterations : Nat} {quantizer : Quantizer}
    (hshape : checkShape (residuals.headD []).length subspaces bits = .ok ())
    (htrain : train residuals subspaces bits seed maxIterations = .ok quantizer) :
    quantizer.IsWellFormed := by
  obtain ⟨-, hsubspaces, hdvd, hbits, hmax⟩ := checkShape_ok hshape
  have hshaped := isShaped_of_train htrain
  have hne := codewords_ne_nil_of_train htrain
  have hlength := length_codeword_of_train htrain
  obtain ⟨_, _, _, rfl, rfl, -⟩ := exists_of_train htrain
  exact ⟨hbits, hmax, hsubspaces, Nat.mul_div_cancel' (Nat.dvd_of_mod_eq_zero hdvd),
    hshaped.codebooks, hne, indexCount_eq hmax ▸ hshaped.codewords, hlength⟩

end Quantizer

namespace Codebook

/-- The cell of a vector and the code of its residual. The centroids have to be as long as the
vector, and its cell has to have one. -/
def encode? (codebook : Codebook) (v : Vec) : Option (CellId × Code) := do
  if codebook.centroids.all (·.length = v.length) then
    let centroid ← codebook.centroids[codebook.assign v]?
    return (codebook.assign v, ← codebook.quantizer.encode? (v.sub centroid))
  else none

/-- There are centroids, all of them of one dimension, and the quantizer of the residuals is well
formed. -/
structure IsWellFormed (codebook : Codebook) : Prop where
  centroids_ne_nil : codebook.centroids ≠ []
  length_centroid : ∀ c ∈ codebook.centroids, c.length = codebook.dimension
  dimension : codebook.dimension = codebook.quantizer.dimension
  quantizer : codebook.quantizer.IsWellFormed

/-- Nothing is missing when vectors of the dimension are encoded, when the codes that name codewords
are decoded, and when they are scored with the table of a query. Encoding gives such codes. -/
structure StaysInBounds (codebook : Codebook) : Prop where
  encode : ∀ v : Vec, v.length = codebook.dimension →
    codebook.encode? v = some (codebook.encode v) ∧
      codebook.quantizer.encode? v = some (codebook.quantizer.encode v)
  checkCode : ∀ v, codebook.quantizer.checkCode (codebook.quantizer.encode v) = .ok ()
  decode : ∀ code, codebook.quantizer.checkCode code = .ok () →
    ∃ v, codebook.quantizer.decode code = some v ∧ v.length = codebook.dimension
  table : ∀ query : Vec, query.length = codebook.dimension → ∃ table,
    codebook.quantizer.productTable query = some table ∧
      codebook.quantizer.productTable? query = some table.toList
  score : ∀ query table code, codebook.quantizer.productTable query = some table →
    codebook.quantizer.checkCode code = .ok () →
      codebook.quantizer.tableScore? table.toList code =
        some (codebook.quantizer.tableScore table code)

variable {codebook : Codebook}

theorem IsWellFormed.encode?_eq (hwell : codebook.IsWellFormed) {v : Vec}
    (hv : v.length = codebook.dimension) : codebook.encode? v = some (codebook.encode v) := by
  have hlengths : codebook.centroids.all (fun c ↦ decide (c.length = v.length)) = true := by
    rw [List.all_eq_true, hv]
    exact fun c hc ↦ decide_eq_true (hwell.length_centroid c hc)
  have hcell : codebook.assign v < codebook.centroids.length := firstBest_map_lt hwell.centroids_ne_nil
  have hresidual : (v.sub codebook.centroids[codebook.assign v]).length =
      codebook.quantizer.dimension := by
    rw [Vec.length_sub, hv, hwell.length_centroid _ (List.getElem_mem hcell), Nat.min_self,
      hwell.dimension]
  unfold encode? encode
  dsimp only [centroid]
  rw [if_pos hlengths, List.getD_eq_getElem?_getD, List.getElem?_eq_getElem hcell]
  show (codebook.quantizer.encode? _ >>= _) = _
  rw [hwell.quantizer.encode?_eq hresidual]
  rfl

theorem IsWellFormed.staysInBounds (hwell : codebook.IsWellFormed) : codebook.StaysInBounds where
  encode _ hv := ⟨hwell.encode?_eq hv, hwell.quantizer.encode?_eq (hv.trans hwell.dimension)⟩
  checkCode := Quantizer.checkCode_encode hwell.quantizer.isMade hwell.quantizer.isShaped
    hwell.quantizer.codewords_ne_nil
  decode _ hcheck := hwell.dimension ▸ hwell.quantizer.exists_decode hcheck
  table _ hquery := ⟨_,
    Quantizer.productTable_eq hwell.quantizer.isShaped (hquery.trans hwell.dimension),
    Quantizer.productTable?_eq hwell.quantizer.isShaped (hquery.trans hwell.dimension)⟩
  score _ _ _ htable hcheck := Quantizer.tableScore?_eq hwell.quantizer.isShaped htable hcheck

/-- Of a well-formed codebook loading leaves open whether it has centroids and whether its quantizer
is well formed. -/
theorem IsLoadable.isWellFormed_iff (hloadable : codebook.IsLoadable) :
    codebook.IsWellFormed ↔ codebook.centroids ≠ [] ∧ codebook.quantizer.IsWellFormed :=
  ⟨fun hwell ↦ ⟨hwell.centroids_ne_nil, hwell.quantizer⟩, fun ⟨hne, hquantizer⟩ ↦
    ⟨hne, hloadable.length_centroid, hloadable.quantizer, hquantizer⟩⟩

/-- Any file is corrupt, or it is loaded to a codebook that a file can hold. Such a codebook has
centroids of its dimension, and when it has any, and its quantizer is well formed, all that is done
with vectors of the dimension stays in bounds. But nothing more is checked: every codebook that a
file can hold is loaded from its file. -/
theorem load_checks {path : Path} {tree : Tree} {bytes : Bytes}
    (hread : tree.read path = .ok bytes) :
    ((∃ reason, (load path).runOn tree = (.error (.indexCorrupt path reason), tree)) ∨
      ∃ codebook, (load path).runOn tree = (.ok codebook, tree) ∧ codebook.IsLoadable ∧
        (codebook.IsWellFormed ↔ codebook.centroids ≠ [] ∧ codebook.quantizer.IsWellFormed) ∧
        (codebook.IsWellFormed → codebook.StaysInBounds)) ∧
      ∀ codebook : Codebook, codebook.IsLoadable → codebook.fingerprint = .of codebook.payload →
        bytes = codebook.toBytes → (load path).runOn tree = (.ok codebook, tree) := by
  constructor
  · rw [runOn_load hread]
    cases hbytes : ofBytes bytes with
    | error reason => exact .inl ⟨reason, rfl⟩
    | ok codebook =>
      have hloadable := (isIn_of_ofBytes hbytes).isLoadable
      exact .inr ⟨codebook, rfl, hloadable, hloadable.isWellFormed_iff, IsWellFormed.staysInBounds⟩
  · rintro codebook hloadable hfingerprint rfl
    rw [runOn_load hread, (hloadable.isIn_toBytes hfingerprint).ofBytes, Result.ok_mapError]

/-- A codebook of one dimension. -/
def bareCodebook (centroids : List Vec) (codebooks : List (List Vec)) : Codebook :=
  let quantizer : Quantizer := ⟨1, 1, 1, 1, codebooks⟩
  let params : TrainingParams := ⟨1, 1, 1, 7, 1⟩
  ⟨1, centroids, quantizer, params, .of (pack centroids quantizer params)⟩

theorem isLoadable_bareCodebook {centroids : List Vec} {codebooks : List (List Vec)}
    (hcells : centroids.length < 0x100000000) (hcentroids : ∀ c ∈ centroids, c.length = 1)
    (hpayload : (bareCodebook centroids codebooks).payload.length < 0x10000000000000000) :
    (bareCodebook centroids codebooks).IsLoadable := by
  have hone : 1 < 0x100000000 := by decide
  have hlong : 1 < 0x10000000000000000 := by decide
  have hparams : TrainingParams.FitsFields ⟨1, 1, 1, 7, 1⟩ :=
    ⟨by decide, by decide, by decide, by decide, by decide⟩
  exact ⟨⟨hone, hcells, hone, hparams, hpayload⟩, ⟨hlong, hlong, hlong, (by decide : 1 < 0x100)⟩, rfl,
    Nat.one_pos, hcentroids⟩

/-- A file without centroids, one without the codebook of its subspace, and a well-formed one. -/
def bareTree : Tree :=
  ⟨[(["first.index"], .file (bareCodebook [] [[[.one]]]).toBytes 0),
    (["second.index"], .file (bareCodebook [[.one]] []).toBytes 0),
    (["third.index"], .file (bareCodebook [[.one]] [[[.one]]]).toBytes 0)], 0⟩

/-- All three files are loaded, and with what the first two hold no vector can be encoded. -/
theorem load_checks_bare :
    ((load "first.index").runOn bareTree = (.ok (bareCodebook [] [[[.one]]]), bareTree) ∧
        ¬ (bareCodebook [] [[[.one]]]).IsWellFormed ∧
        (bareCodebook [] [[[.one]]]).encode? [.one] = none) ∧
      ((load "second.index").runOn bareTree = (.ok (bareCodebook [[.one]] []), bareTree) ∧
        ¬ (bareCodebook [[.one]] []).IsWellFormed ∧
        (bareCodebook [[.one]] []).encode? [.one] = none) ∧
      (load "third.index").runOn bareTree = (.ok (bareCodebook [[.one]] [[[.one]]]), bareTree) ∧
        (bareCodebook [[.one]] [[[.one]]]).IsWellFormed := by
  have hfirst : (bareCodebook [] [[[.one]]]).IsLoadable :=
    isLoadable_bareCodebook (by decide) (by decide) (by decide)
  have hsecond : (bareCodebook [[.one]] []).IsLoadable :=
    isLoadable_bareCodebook (by decide) (by decide) (by decide)
  have hthird : (bareCodebook [[.one]] [[[.one]]]).IsLoadable :=
    isLoadable_bareCodebook (by decide) (by decide) (by decide)
  have hquantizer : (bareCodebook [[.one]] [[[.one]]]).quantizer.IsWellFormed :=
    ⟨by decide, by decide, by decide, rfl, rfl, by decide, by decide, by decide⟩
  refine ⟨⟨(load_checks rfl).2 _ hfirst rfl rfl, fun hwell ↦ hwell.centroids_ne_nil rfl, by decide⟩,
    ⟨(load_checks rfl).2 _ hsecond rfl rfl, fun hwell ↦ ?_, by decide⟩,
    (load_checks rfl).2 _ hthird rfl rfl, hthird.isWellFormed_iff.mpr ⟨nofun, hquantizer⟩⟩
  exact absurd hwell.quantizer.codebooks (by decide)

end Codebook
end VectorIndex
