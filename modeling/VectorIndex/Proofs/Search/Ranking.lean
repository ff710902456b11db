import VectorIndex.Search.Engine

/-!
# The best hits of a stream

Hits are ranked by the total order of their distances and equally distant ones by id, so a list of
hits has exactly one ranking. The bounded list that takes one hit after the other and drops its
last holds at every moment the beginning of the ranking of all that it was offered. A query is
therefore answered with the first `k` of the ranking of every posting in the cells that come first
for it, whatever the order in which the postings arrive and however many of them are equal.
-/

namespace VectorIndex

namespace SearchHit

/-- Closer, or equally distant with an id that is no higher. -/
def Precedes (a b : SearchHit) : Prop :=
  a.distance.totalRank < b.distance.totalRank ∨
    (a.distance.totalRank = b.distance.totalRank ∧ a.id ≤ b.id)

instance (a b : SearchHit) : Decidable (a.Precedes b) := inferInstanceAs (Decidable (_ ∨ _))

/-- The hits, each as often as it occurs, from the closest to the farthest. -/
structure IsRanking (hits ranking : List SearchHit) : Prop where
  perm : ranking.Perm hits
  sorted : ranking.Pairwise Precedes

theorem precedes_antisymm {a b : SearchHit} (hab : a.Precedes b) (hba : b.Precedes a) : a = b := by
  unfold Precedes DocumentId at hab hba
  have hdistance : a.distance = b.distance := by
    apply Binary32.totalRank_injective
    omega
  have hid : a.id = b.id := by
    unfold DocumentId
    omega
  cases a
  cases b
  simp_all

theorem precedes_trans {a b c : SearchHit} (hab : a.Precedes b) (hbc : b.Precedes c) :
    a.Precedes c := by
  unfold Precedes DocumentId at *
  omega

theorem precedes_of_not_precedes {a b : SearchHit} (hba : ¬ b.Precedes a) : a.Precedes b := by
  unfold Precedes DocumentId at *
  omega

/-- Hits that are ranked together have one ranking only. -/
theorem IsRanking.unique {hits first second : List SearchHit} (hfirst : IsRanking hits first)
    (hsecond : IsRanking hits second) : first = second :=
  (hfirst.perm.trans hsecond.perm.symm).eq_of_pairwise
    (fun _ _ _ _ hab hba ↦ precedes_antisymm hab hba) hfirst.sorted hsecond.sorted

/-- The comparison of the program is strict precedence. -/
theorem lt_iff (a b : SearchHit) : lt a b = true ↔ ¬ b.Precedes a := by
  unfold lt compare Binary32.totalCompare Precedes DocumentId
  rcases Int.lt_trichotomy a.distance.totalRank b.distance.totalRank with hrank | hrank | hrank
  · rw [Int.compare_eq_lt.mpr hrank]
    simp only [beq_self_eq_true, true_iff]
    omega
  · rw [Int.compare_eq_eq.mpr hrank]
    simp only [beq_iff_eq, Nat.compare_eq_lt]
    omega
  · rw [Int.compare_eq_gt.mpr hrank]
    simp [hrank]

/-! ## Inserting one hit -/

theorem insert_perm (hit : SearchHit) (best : List SearchHit) :
    (insert hit best).Perm (hit :: best) := by
  induction best with
  | nil => exact List.Perm.refl _
  | cons other rest ih =>
    unfold insert
    split
    · exact List.Perm.refl _
    · exact (ih.cons other).trans (List.Perm.swap hit other rest)

theorem insert_sorted {hit : SearchHit} {best : List SearchHit} (hbest : best.Pairwise Precedes) :
    (insert hit best).Pairwise Precedes := by
  induction best with
  | nil => simp [insert]
  | cons other rest ih =>
    obtain ⟨hother, hrest⟩ := List.pairwise_cons.mp hbest
    unfold insert
    split
    · next hlt =>
      have hhit : hit.Precedes other := precedes_of_not_precedes ((lt_iff hit other).mp hlt)
      apply List.pairwise_cons.mpr
      refine ⟨fun later hlater ↦ ?_, hbest⟩
      rcases List.mem_cons.mp hlater with rfl | hlater
      · exact hhit
      · exact precedes_trans hhit (hother later hlater)
    · next hlt =>
      have hprecedes : other.Precedes hit :=
        Decidable.of_not_not fun hnot ↦ hlt ((lt_iff hit other).mpr hnot)
      apply List.pairwise_cons.mpr
      refine ⟨fun later hlater ↦ ?_, ih hrest⟩
      rcases List.mem_cons.mp ((insert_perm hit rest).mem_iff.mp hlater) with rfl | hlater
      · exact hprecedes
      · exact hother later hlater

/-- A hit that precedes none of the others is put behind them all. -/
theorem insert_of_last {hit : SearchHit} {best : List SearchHit}
    (hlast : ∀ other ∈ best, other.Precedes hit) : insert hit best = best ++ [hit] := by
  induction best with
  | nil => rfl
  | cons other rest ih =>
    have hother : ¬ lt hit other = true := fun hlt ↦
      (lt_iff hit other).mp hlt (hlast other List.mem_cons_self)
    unfold insert
    rw [if_neg hother, ih fun later hlater ↦ hlast later (List.mem_cons_of_mem other hlater)]
    rfl

/-- Where a hit goes does not depend on what stands behind a hit that it strictly precedes. -/
theorem insert_append_of_lt {hit last : SearchHit} (first : List SearchHit)
    (hlt : lt hit last = true) : insert hit (first ++ [last]) = insert hit first ++ [last] := by
  induction first with
  | nil => simp [insert, hlt]
  | cons other rest ih =>
    simp only [List.cons_append, insert]
    split
    · rfl
    · rw [ih, List.cons_append]

theorem take_insert_take (k : Nat) (hit : SearchHit) (best : List SearchHit) :
    (insert hit (best.take k)).take k = (insert hit best).take k := by
  induction best generalizing k with
  | nil => simp
  | cons other rest ih =>
    cases k with
    | zero => simp
    | succ k =>
      simp only [List.take_succ_cons, insert]
      split
      · cases k with
        | zero => simp
        | succ k => simp [List.take_take]
      · rw [List.take_succ_cons, List.take_succ_cons, ih]

/-! ## The bounded list -/

/-- Taking a hit into a full list is taking it into a list without bound and cutting that off. -/
theorem keep_eq_take_insert {k : Nat} {best : List SearchHit} (hit : SearchHit) (hk : 0 < k)
    (hbest : best.Pairwise Precedes) (hlength : best.length ≤ k) :
    keep k best hit = (insert hit best).take k := by
  have hinserted := (insert_perm hit best).length_eq
  unfold keep
  split
  · next hroom =>
    rw [List.take_of_length_le]
    rw [hinserted, List.length_cons]
    omega
  · next hfull =>
    rcases List.eq_nil_or_concat best with rfl | ⟨first, last, hconcat⟩
    · simp at hfull
      omega
    · rw [List.concat_eq_append] at hconcat
      subst hconcat
      simp only [List.getLast?_concat, List.dropLast_concat]
      have hfirst : first.length + 1 = k := by
        simp only [List.length_append, List.length_singleton] at hlength hfull
        omega
      split
      · next hlt =>
        have hlengthFirst := (insert_perm hit first).length_eq
        rw [insert_append_of_lt first hlt, List.take_left']
        rw [hlengthFirst, List.length_cons, hfirst]
      · next hlt =>
        have hlast : last.Precedes hit :=
          Decidable.of_not_not fun hnot ↦ hlt ((lt_iff hit last).mpr hnot)
        have hall : ∀ other ∈ first ++ [last], other.Precedes hit := by
          intro other hother
          rcases List.mem_append.mp hother with hother | hother
          · have hbefore := (List.pairwise_append.mp hbest).2.2 other hother last (by simp)
            exact precedes_trans hbefore hlast
          · rw [List.mem_singleton.mp hother]
            exact hlast
        rw [insert_of_last hall, List.take_left']
        rw [List.length_append, List.length_singleton, hfirst]

/-- All hits of a stream put into their places one after the other. -/
def insertAll (ranked : List SearchHit) (hits : List SearchHit) : List SearchHit :=
  hits.foldl (fun ranked hit ↦ insert hit ranked) ranked

theorem insertAll_perm (ranked hits : List SearchHit) :
    (insertAll ranked hits).Perm (hits ++ ranked) := by
  induction hits generalizing ranked with
  | nil => exact List.Perm.refl _
  | cons hit rest ih =>
    calc insertAll ranked (hit :: rest)
      _ = insertAll (insert hit ranked) rest := rfl
      _ |>.Perm (rest ++ insert hit ranked) := ih (insert hit ranked)
      _ |>.Perm (rest ++ hit :: ranked) := (insert_perm hit ranked).append_left rest
      _ |>.Perm (hit :: rest ++ ranked) := List.perm_middle

theorem insertAll_nil_perm (hits : List SearchHit) : (insertAll [] hits).Perm hits := by
  simpa using insertAll_perm [] hits

/-- The invariant of the bounded list: it is the beginning of the ranking of what came so far. -/
theorem foldl_keep {k : Nat} (hk : 0 < k) (hits : List SearchHit) {ranked : List SearchHit}
    (hranked : ranked.Pairwise Precedes) :
    hits.foldl (keep k) (ranked.take k) = (insertAll ranked hits).take k := by
  induction hits generalizing ranked with
  | nil => rfl
  | cons hit rest ih =>
    have hstep : keep k (ranked.take k) hit = (insert hit ranked).take k := by
      rw [keep_eq_take_insert hit hk (hranked.sublist (List.take_sublist k ranked))
        (List.length_take_le k ranked), take_insert_take]
    rw [List.foldl_cons, hstep]
    exact ih (insert_sorted hranked)

end SearchHit

namespace Codebook

/-- The product of a query with the centroid of a cell. -/
def product (codebook : Codebook) (query : Vec) (cell : CellId) : Binary32 :=
  query.innerProduct (codebook.centroid cell)

/-- All cells, larger products with the query first and equal products by cell. -/
structure IsCellRanking (codebook : Codebook) (query : Vec) (cells : List CellId) : Prop where
  perm : cells.Perm (List.range codebook.cellCount)
  sorted : cells.Pairwise fun a b ↦
    (codebook.product query b).totalRank < (codebook.product query a).totalRank ∨
      ((codebook.product query a).totalRank = (codebook.product query b).totalRank ∧ a ≤ b)

theorem nearer_iff (a b : CellId × Binary32) : nearer a b = true ↔
    b.2.totalRank < a.2.totalRank ∨ (a.2.totalRank = b.2.totalRank ∧ a.1 ≤ b.1) := by
  unfold nearer Binary32.totalCompare CellId
  rcases Int.lt_trichotomy b.2.totalRank a.2.totalRank with hrank | hrank | hrank
  · rw [Int.compare_eq_lt.mpr hrank]
    simp [hrank]
  · rw [Int.compare_eq_eq.mpr hrank]
    simp [hrank]
  · rw [Int.compare_eq_gt.mpr hrank]
    simp only [Bool.false_eq_true, false_iff]
    omega

theorem scoredCells_eq (codebook : Codebook) (query : Vec) :
    (codebook.centroids.zipIdx.map fun (c, cell) ↦ (cell, query.innerProduct c)) =
      (List.range codebook.cellCount).map fun cell ↦ (cell, codebook.product query cell) := by
  apply List.ext_getElem
  · simp [cellCount]
  · intro cell hleft hright
    have hcell : cell < codebook.centroids.length := by simpa using hleft
    simp [product, centroid, hcell]

theorem rankedCells_perm (codebook : Codebook) (query : Vec) :
    (codebook.rankedCells query).Perm
      ((List.range codebook.cellCount).map fun cell ↦ (cell, codebook.product query cell)) := by
  rw [← scoredCells_eq]
  exact List.mergeSort_perm _ _

theorem rankedCells_sorted (codebook : Codebook) (query : Vec) :
    (codebook.rankedCells query).Pairwise fun a b ↦ nearer a b := by
  apply List.pairwise_mergeSort
  · intro a b c hab hbc
    rw [nearer_iff] at *
    unfold CellId at *
    omega
  · intro a b
    rw [Bool.or_eq_true, nearer_iff, nearer_iff]
    unfold CellId
    omega

theorem rankedCells_eq_map (codebook : Codebook) (query : Vec) :
    codebook.rankedCells query =
      ((codebook.rankedCells query).map Prod.fst).map
        fun cell ↦ (cell, codebook.product query cell) := by
  have hself : ∀ pair ∈ codebook.rankedCells query,
      (pair.1, codebook.product query pair.1) = pair := by
    intro pair hpair
    obtain ⟨cell, _, rfl⟩ :=
      List.mem_map.mp ((codebook.rankedCells_perm query).mem_iff.mp hpair)
    rfl
  rw [List.map_map]
  exact ((List.map_congr_left hself).trans (List.map_id' _)).symm

/-- The visited cells are the first of the one ranking of all cells. -/
theorem exists_cellRanking (codebook : Codebook) (query : Vec) :
    ∃ cells, codebook.IsCellRanking query cells ∧ ∀ count, codebook.probe query count =
      (cells.take (min (max count 1) codebook.cellCount)).map
        fun cell ↦ (cell, codebook.product query cell) := by
  refine ⟨(codebook.rankedCells query).map Prod.fst, ⟨?_, ?_⟩, fun count ↦ ?_⟩
  · have hperm := (codebook.rankedCells_perm query).map Prod.fst
    rw [List.map_map] at hperm
    simpa [Function.comp_def] using hperm
  · have hsorted := (codebook.rankedCells_sorted query).imp
      fun {a b} hab ↦ (nearer_iff a b).mp hab
    rw [rankedCells_eq_map, List.pairwise_map] at hsorted
    exact hsorted
  · unfold probe
    rw [List.map_take, ← rankedCells_eq_map]

end Codebook

namespace QueryEngine

variable {engine : QueryEngine} {query : Vec} {table : Array Binary32}

/-- A query that has a table is answered with the beginning of the ranking of the candidates, when
the postings of every visited cell lie within the data. -/
theorem search_eq_take (hquery : query.length = engine.metadata.dimension)
    (htable : engine.codebook.quantizer.productTable query = some table) (k : Nat)
    (probes : Option Nat) (hreaches : engine.reaches query (probes.getD engine.probes) = true) :
    engine.search query k probes = .ok ((SearchHit.insertAll []
      (engine.candidates query table (probes.getD engine.probes))).take k) := by
  unfold search
  dsimp only
  rw [if_neg (not_not_intro hquery), htable]
  dsimp only
  rw [if_pos hreaches]
  split
  · next hk => rw [hk, List.take_zero]
  · next hk =>
    have hfold := SearchHit.foldl_keep (Nat.pos_of_ne_zero hk)
      (engine.candidates query table (probes.getD engine.probes)) List.Pairwise.nil
    rw [List.take_nil] at hfold
    exact congrArg Except.ok hfold

/-- What is answered has the dimension and, unless nothing is asked for, a table and cells within the
data. -/
theorem exists_table_of_search {k : Nat} {probes : Option Nat} {hits : List SearchHit}
    (hsearch : engine.search query k probes = .ok hits) :
    query.length = engine.metadata.dimension ∧
      (k = 0 ∧ hits = [] ∨
        (∃ table, engine.codebook.quantizer.productTable query = some table) ∧
          engine.reaches query (probes.getD engine.probes) = true) := by
  unfold search at hsearch
  dsimp only at hsearch
  split at hsearch
  · cases hsearch
  · next hquery =>
    refine ⟨Decidable.of_not_not hquery, ?_⟩
    split at hsearch
    · next hk => exact .inl ⟨hk, (Except.ok.inj hsearch).symm⟩
    · split at hsearch
      · next table htable =>
        split at hsearch
        · next hreaches => exact .inr ⟨⟨table, htable⟩, hreaches⟩
        · cases hsearch
      · cases hsearch

end QueryEngine
end VectorIndex
