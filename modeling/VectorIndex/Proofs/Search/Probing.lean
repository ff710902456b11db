import VectorIndex.Proofs.Clustering.Nearest
import VectorIndex.Proofs.Search.Ranking

/-!
# The cell of a vector and the cells that it probes

A vector is stored in the cell with the largest product, found by a scan that compares numbers; a
query visits the cells in the total order of their products. The two orders agree on all finite
numbers but the zeros, which are equal as numbers and differ in the total order. So the first cell
that a stored vector probes has the product of the cell that holds it, and is that very cell unless
the largest product is zero and occurs with both signs, the negative one first.
-/

namespace VectorIndex

namespace Binary32

theorem not_isNaN_of_isFinite {x : Binary32} (hx : x.isFinite) : ¬ x.isNaN := by
  simp only [isFinite, isNaN, decide_eq_true_eq, UInt32.lt_iff_toNat_lt] at *
  omega

/-- The total order refines the order of the numbers. -/
theorem totalRank_lt_of_rank_lt {x y : Binary32} (hlt : x.rank < y.rank) :
    x.totalRank < y.totalRank := by
  unfold rank at hlt
  unfold totalRank
  grind

/-- Equal numbers that the total order tells apart are the two zeros. -/
theorem zeros_of_rank_eq {x y : Binary32} (heq : x.rank = y.rank)
    (hlt : x.totalRank < y.totalRank) : x = negZero ∧ y = zero := by
  have hzero : y.totalRank = 0 ∧ x.totalRank = -1 := by
    unfold rank at heq
    unfold totalRank at *
    grind
  exact ⟨totalRank_injective (hzero.2.trans (by decide)),
    totalRank_injective (hzero.1.trans (by decide))⟩

end Binary32

namespace Codebook

variable {codebook : Codebook} {v : Vec}

/-- The cell of a vector: no product is larger, and those of lower cells are smaller. -/
theorem assign_spec (hcentroids : codebook.centroids ≠ [])
    (hfinite : ∀ c ∈ codebook.centroids, (v.innerProduct c).isFinite) :
    codebook.assign v < codebook.cellCount ∧
      (∀ cell < codebook.cellCount,
        (codebook.product v cell).rank ≤ (codebook.product v (codebook.assign v)).rank) ∧
      ∀ cell < codebook.assign v,
        (codebook.product v cell).rank < (codebook.product v (codebook.assign v)).rank := by
  have hbest : IsFirstLeast (fun c ↦ (v.innerProduct c).shortfall) codebook.centroids
      (codebook.assign v) := isFirstLeast_largestProduct hcentroids v
  have hproduct (cell : Nat) (hcell : cell < codebook.centroids.length) :
      (v.innerProduct codebook.centroids[cell]).shortfall = -(codebook.product v cell).rank := by
    have hnumber := Binary32.not_isNaN_of_isFinite (hfinite _ (List.getElem_mem hcell))
    rw [product, centroid, List.getD_eq_getElem?_getD, List.getElem?_eq_getElem hcell,
      Option.getD_some]
    exact if_neg hnumber
  refine ⟨hbest.lt, fun cell hcell ↦ ?_, fun cell hcell ↦ ?_⟩
  · have hleast := hbest.least _ (List.getElem_mem hcell)
    rw [hproduct _ hbest.lt, hproduct cell hcell] at hleast
    exact Int.neg_le_neg_iff.mp hleast
  · have hfirst := hbest.first cell hcell
    rw [hproduct _ hbest.lt, hproduct cell (Nat.lt_trans hcell hbest.lt)] at hfirst
    exact Int.neg_lt_neg_iff.mp hfirst

/-! ## The first of the probed cells -/

/-- The first probed cell comes before all others, however many are probed. -/
theorem exists_head_probe (codebook : Codebook) (v : Vec) (hcentroids : codebook.centroids ≠ []) :
    ∃ cell < codebook.cellCount,
      (∀ count, (codebook.probe v count).head? = some (cell, codebook.product v cell)) ∧
      ∀ other < codebook.cellCount, other ≠ cell →
        (codebook.product v other).totalRank < (codebook.product v cell).totalRank ∨
          ((codebook.product v cell).totalRank = (codebook.product v other).totalRank ∧
            cell ≤ other) := by
  obtain ⟨cells, hcells, hprobe⟩ := codebook.exists_cellRanking v
  have hcount : 0 < codebook.cellCount := List.length_pos_iff.mpr hcentroids
  have hlength : cells.length = codebook.cellCount := by simpa using hcells.perm.length_eq
  obtain ⟨cell, rest, rfl⟩ := List.exists_cons_of_length_pos (hlength ▸ hcount)
  refine ⟨cell, by simpa using hcells.perm.mem_iff.mp List.mem_cons_self, fun count ↦ ?_,
    fun other hother hne ↦ ?_⟩
  · obtain ⟨more, hmore⟩ : ∃ more, min (max count 1) codebook.cellCount = more + 1 :=
      Nat.exists_eq_succ_of_ne_zero (by omega)
    rw [hprobe, hmore, List.take_succ_cons, List.map_cons, List.head?_cons]
  · have hmem : other ∈ cell :: rest := hcells.perm.mem_iff.mpr (List.mem_range.mpr hother)
    exact (List.pairwise_cons.mp hcells.sorted).1 other (List.mem_of_ne_of_mem hne hmem)

/-- The largest product is zero and occurs with both signs, in the vector's own cell with the
negative one. -/
def HasZeroTie (codebook : Codebook) (v : Vec) : Prop :=
  codebook.product v (codebook.assign v) = .negZero ∧
    ∃ cell < codebook.cellCount, codebook.product v cell = .zero

/-- The first cell that a stored vector probes has the largest product of all, and it is the cell
that holds the vector unless two zeros tie. -/
theorem exists_head_probe_encode (codebook : Codebook) (v : Vec)
    (hcentroids : codebook.centroids ≠ [])
    (hfinite : ∀ c ∈ codebook.centroids, (v.innerProduct c).isFinite) :
    ∃ cell, (∀ count, (codebook.probe v count).head? = some (cell, codebook.product v cell)) ∧
      (codebook.product v cell).rank = (codebook.product v (codebook.encode v).1).rank ∧
      (cell = (codebook.encode v).1 ↔ ¬ codebook.HasZeroTie v) := by
  show ∃ cell, _ ∧ (codebook.product v cell).rank = (codebook.product v (codebook.assign v)).rank ∧
    (cell = codebook.assign v ↔ _)
  obtain ⟨hassign, hlargest, hfirst⟩ := assign_spec hcentroids hfinite
  obtain ⟨cell, hcell, hhead, hbefore⟩ := exists_head_probe codebook v hcentroids
  have htotal : (codebook.product v (codebook.assign v)).totalRank ≤
      (codebook.product v cell).totalRank := by
    by_cases hsame : codebook.assign v = cell
    · exact Int.le_of_eq (congrArg (fun c ↦ (codebook.product v c).totalRank) hsame)
    · rcases hbefore _ hassign hsame with hlt | ⟨heq, -⟩ <;> omega
  have hrank : (codebook.product v cell).rank = (codebook.product v (codebook.assign v)).rank := by
    have hle := hlargest cell hcell
    have hge := fun hlt ↦ Binary32.totalRank_lt_of_rank_lt
      (x := codebook.product v cell) (y := codebook.product v (codebook.assign v)) hlt
    omega
  refine ⟨cell, hhead, hrank, fun hsame ⟨hnegative, zeroCell, hzeroCell, hzero⟩ ↦ ?_, fun htie ↦ ?_⟩
  · -- the cell with the positive zero comes before a cell with the negative one
    have hne : zeroCell ≠ cell := by
      rintro rfl
      rw [hsame, hnegative] at hzero
      exact absurd hzero (by decide)
    have hlast := hbefore zeroCell hzeroCell hne
    rw [hsame, hnegative, hzero] at hlast
    exact absurd hlast (by
      rw [show Binary32.zero.totalRank = 0 from rfl, show Binary32.negZero.totalRank = -1 from rfl]
      omega)
  · have hsame : (codebook.product v cell).totalRank =
        (codebook.product v (codebook.assign v)).totalRank := by
      refine Int.le_antisymm (Int.not_lt.mp fun hlt ↦ htie ?_) htotal
      obtain ⟨hnegative, hzero⟩ := Binary32.zeros_of_rank_eq hrank.symm hlt
      exact ⟨hnegative, cell, hcell, hzero⟩
    have hlow : ¬ cell < codebook.assign v := fun hlt ↦ by
      have := hfirst cell hlt
      omega
    by_cases hne : codebook.assign v = cell
    · exact hne.symm
    · rcases hbefore _ hassign hne with hlt | ⟨-, hle⟩
      · omega
      · exact Nat.le_antisymm hle (Nat.not_lt.mp hlow)

/-- Two cells, whose products with a vector of second component zero are zeros of both signs. -/
def tiedCodebook : Codebook :=
  ⟨2, [[.negZero, ⟨0xbf800000⟩], [.zero, ⟨0x3f800000⟩]], ⟨1, 1, 1, 1, [[[⟨0⟩], [⟨0x3f800000⟩]]]⟩,
    ⟨2, 1, 1, 7, 2⟩, .of []⟩

/-- The vector `(1, 0)` is stored in the first cell and probes the second. -/
theorem exists_head_probe_encode_tied :
    (tiedCodebook.encode [⟨0x3f800000⟩, .zero]).1 = 0 ∧
      ∃ cell, (∀ count, (tiedCodebook.probe [⟨0x3f800000⟩, .zero] count).head? =
        some (cell, tiedCodebook.product [⟨0x3f800000⟩, .zero] cell)) ∧ cell ≠ 0 := by
  have hcell : (tiedCodebook.encode [⟨0x3f800000⟩, .zero]).1 = 0 := by decide
  have htie : tiedCodebook.HasZeroTie [⟨0x3f800000⟩, .zero] :=
    ⟨by decide, 1, by decide, by decide⟩
  obtain ⟨cell, hhead, -, hsame⟩ := exists_head_probe_encode tiedCodebook [⟨0x3f800000⟩, .zero]
    (by decide) (by decide)
  exact ⟨hcell, cell, hhead, fun hzero ↦ hsame.mp (hzero.trans hcell.symm) htie⟩

end Codebook
end VectorIndex
