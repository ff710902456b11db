import Mathlib.Data.List.Nodup
import VectorIndex.Proofs.Clustering.Bounds

/-!
# Which points become centroids

A point whose weight is at the floor or below is covered. Weights only fall, and what is drawn keeps
no weight, so a covered point stays covered and is not drawn again; a weight that is no number is
neither covered nor does it count into the total. While the total is above the floor some point is
not covered, so there is always one to draw. Hence the first centroids are made of points at
pairwise different positions.
-/

namespace VectorIndex

namespace Binary64

theorem lt_iff {x y : Binary64} : x < y ↔ ¬ x.isNaN ∧ ¬ y.isNaN ∧ x.rank < y.rank := by
  show x.lt y = true ↔ _
  simp [lt, and_assoc]

theorem le_iff {x y : Binary64} : x ≤ y ↔ ¬ x.isNaN ∧ ¬ y.isNaN ∧ x.rank ≤ y.rank := by
  show x.le y = true ↔ _
  simp [le, and_assoc]

theorem le_of_lt_of_le {x y z : Binary64} (hxy : x < y) (hyz : y ≤ z) : x ≤ z := by
  rw [lt_iff] at hxy
  rw [le_iff] at hyz ⊢
  exact ⟨hxy.1, hyz.2.1, Int.le_trans (Int.le_of_lt hxy.2.2) hyz.2.2⟩

theorem not_lt_of_le {x y : Binary64} (hxy : x ≤ y) : ¬ y < x := by
  rw [le_iff] at hxy
  rw [lt_iff]
  exact fun hyx ↦ Int.not_lt_of_ge hxy.2.2 hyx.2.2

end Binary64

namespace Seeding

variable {metric : Metric} {vectors : List Vec} {state next : State}

/-! ## There is always a point to draw -/

/-- A total above the floor is that of some weight above it. -/
theorem exists_open_of_total {weights : List Binary64} (htotal : ¬ total weights ≤ weightFloor) :
    ∃ weight ∈ weights, ¬ weight ≤ weightFloor := by
  by_contra hnone
  have hcovered : ∀ weight ∈ weights, weight ≤ weightFloor := fun weight hweight ↦
    Decidable.of_not_not fun hopen ↦ hnone ⟨weight, hweight, hopen⟩
  have hempty : weights.filter (fun w ↦ weightFloor < w) = [] :=
    List.filter_eq_nil_iff.mpr fun weight hweight habove ↦
      Binary64.not_lt_of_le (hcovered weight hweight) (of_decide_eq_true habove)
  rw [total, hempty] at htotal
  exact htotal (by decide)

theorem pick.go_isSome {target reached : Binary64} {last : Option Nat} {weights : List Binary64}
    {position : Nat} (hsome : last.isSome ∨ ∃ weight ∈ weights, ¬ weight ≤ weightFloor) :
    (go target position reached last weights).isSome := by
  induction weights generalizing position reached last with
  | nil =>
    rcases hsome with hlast | ⟨other, hother, -⟩
    · exact hlast
    · exact absurd hother List.not_mem_nil
  | cons weight rest ih =>
    rw [go]
    split
    · next hcovered =>
      refine ih (hsome.imp_right ?_)
      rintro ⟨other, hother, hopen⟩
      rcases List.mem_cons.mp hother with rfl | hrest
      · exact absurd hcovered hopen
      · exact ⟨other, hrest, hopen⟩
    · split
      · rfl
      · exact ih (.inl rfl)

/-- Whatever the target is, a position is picked while the total is above the floor. -/
theorem exists_pick (target : Binary64) {weights : List Binary64}
    (htotal : ¬ total weights ≤ weightFloor) : ∃ position, pick target weights = some position :=
  Option.isSome_iff_exists.mp (pick.go_isSome (.inr (exists_open_of_total htotal)))

/-! ## Covered points -/

/-- The weight at the position is not above the floor. -/
def IsCovered (weights : List Binary64) (position : Nat) : Prop :=
  ∃ weight, weights[position]? = some weight ∧ weight ≤ weightFloor

theorem isCovered_set {weights : List Binary64} {position : Nat}
    (hposition : position < weights.length) : IsCovered (weights.set position .zero) position :=
  ⟨.zero, by rw [List.getElem?_set_self hposition], by decide⟩

/-- A point that is covered stays so. -/
theorem IsCovered.step (hfits : state.Fits vectors)
    (hstep : Seeding.step metric vectors state = some next) {position : Nat}
    (hcovered : IsCovered state.weights position) : IsCovered next.weights position := by
  obtain ⟨weight, hweight, hle⟩ := hcovered
  obtain ⟨drawn, hpick, -, hweights⟩ := exists_of_step hstep
  have hlt : position < state.weights.length := (List.getElem?_eq_some_iff.mp hweight).1
  have hoffered := length_weightsTo metric vectors (centroidAt metric vectors drawn)
  rw [hweights]
  by_cases hdrawn : drawn = position
  · subst hdrawn
    refine isCovered_set ?_
    rwa [List.length_zipWith, hoffered, hfits.weights, Nat.min_self, ← hfits.weights]
  · have hoffer : position < vectors.length := hfits.weights ▸ hlt
    rw [← hoffered] at hoffer
    rw [IsCovered, List.getElem?_set_ne hdrawn, List.getElem?_zipWith, hweight,
      List.getElem?_eq_getElem hoffer]
    refine ⟨_, rfl, ?_⟩
    split
    · next hlower => exact Binary64.le_of_lt_of_le hlower hle
    · exact hle

/-- The point that is drawn is not covered before and covered after. -/
theorem exists_drawn (hfits : state.Fits vectors)
    (hstep : Seeding.step metric vectors state = some next) :
    ∃ position, next.positions = state.positions ++ [position] ∧
      ¬ IsCovered state.weights position ∧ IsCovered next.weights position := by
  obtain ⟨position, hpick, hpositions, hweights⟩ := exists_of_step hstep
  obtain ⟨weight, hweight, hopen⟩ := pick_open hpick
  refine ⟨position, hpositions, fun ⟨other, hother, hle⟩ ↦ ?_, ?_⟩
  · exact hopen (Option.some.inj (hweight.symm.trans hother) ▸ hle)
  · rw [hweights]
    apply isCovered_set
    rw [List.length_zipWith, length_weightsTo, hfits.weights, Nat.min_self]
    exact hfits.weights ▸ pick_lt hpick

/-! ## Whole runs -/

/-- Later rounds draw different positions, none of which is covered before them. -/
theorem exists_drawn_run (hfits : state.Fits vectors) (count : Nat) :
    ∃ drawn, (run metric vectors count state).positions = state.positions ++ drawn ∧
      drawn.Nodup ∧ ∀ position ∈ drawn, ¬ IsCovered state.weights position := by
  induction count generalizing state with
  | zero => exact ⟨[], (List.append_nil _).symm, .nil, nofun⟩
  | succ count ih =>
    rw [run]
    cases hstep : step metric vectors state with
    | none => exact ⟨[], (List.append_nil _).symm, .nil, nofun⟩
    | some next =>
      obtain ⟨position, hpositions, hopen, hcovered⟩ := exists_drawn hfits hstep
      obtain ⟨later, hlater, hnodup, hlaterOpen⟩ := ih (hfits.step hstep)
      refine ⟨position :: later, ?_, ?_, List.forall_mem_cons.mpr ⟨hopen, ?_⟩⟩
      · show (run metric vectors count next).positions = _
        rw [hlater, hpositions, List.append_assoc, List.singleton_append]
      · exact List.nodup_cons.mpr ⟨fun hagain ↦ hlaterOpen position hagain hcovered, hnodup⟩
      · exact fun other hother hbefore ↦ hlaterOpen other hother (hbefore.step hfits hstep)

/-- Rounds go on from the state that earlier rounds left. -/
theorem run_add (metric : Metric) (vectors : List Vec) (earlier later : Nat) (state : State) :
    run metric vectors (earlier + later) state =
      run metric vectors later (run metric vectors earlier state) := by
  induction earlier generalizing state with
  | zero => rw [Nat.zero_add, run]
  | succ earlier ih =>
    rw [Nat.succ_add, run, run]
    cases hstep : step metric vectors state with
    | some next => exact ih next
    | none =>
      cases later with
      | zero => rfl
      | succ later =>
        dsimp only
        rw [run, hstep]

/-- The first position is drawn once as well, since its point starts without a weight. -/
theorem nodup_positions (hne : vectors ≠ []) (k : Nat) (stream : KeyStream) :
    (positions metric vectors k stream).Nodup := by
  have hfirst := KeyStream.below_lt (List.length_pos_iff.mpr hne) stream
  obtain ⟨drawn, hdrawn, hnodup, hopen⟩ :=
    exists_drawn_run (fits_start metric hne stream) (k - 1)
  have hcovered : IsCovered (start metric vectors stream).weights (stream.below vectors.length).1 :=
    isCovered_set (by rwa [length_weightsTo])
  rw [positions, hdrawn]
  exact List.nodup_cons.mpr ⟨fun hagain ↦ hopen _ hagain hcovered, hnodup⟩

/-- For points of one length, whatever their components are, the first centroids can be drawn, at
least one and at most `k` of them. They are made of points at pairwise different positions, the ones
that are drawn. A point that is covered after some rounds is not drawn in any later one. There is a
position to pick whenever the total is above the floor, whatever the weights and the target are. -/
theorem exists_distinct_draws (metric : Metric) {vectors : List Vec} {width k : Nat}
    (hne : vectors ≠ []) (hvectors : ∀ v ∈ vectors, v.length = width) (hk : 0 < k)
    (stream : KeyStream) :
    centroids? metric vectors k stream = some (centroids metric vectors k stream) ∧
      (1 ≤ (centroids metric vectors k stream).length ∧
        (centroids metric vectors k stream).length ≤ k) ∧
      (∃ drawn : List (Fin vectors.length), drawn.Nodup ∧
        drawn.map Fin.val = positions metric vectors k stream ∧
        centroids metric vectors k stream = drawn.map fun i ↦ metric.prepare vectors[i]) ∧
      (∀ earlier later, ∃ drawn,
        (run metric vectors (earlier + later) (start metric vectors stream)).positions =
          (run metric vectors earlier (start metric vectors stream)).positions ++ drawn ∧
        ∀ position weight,
          (run metric vectors earlier (start metric vectors stream)).weights[position]? =
            some weight → weight ≤ weightFloor → position ∉ drawn) ∧
      ∀ target weights, ¬ total weights ≤ weightFloor →
        ∃ position, pick target weights = some position := by
  refine ⟨centroids?_eq hvectors hne k stream, length_centroids hk stream, ?_, ?_,
    fun target weights ↦ exists_pick target⟩
  · have hlt : ∀ position ∈ positions metric vectors k stream, position < vectors.length :=
      fun _ ↦ lt_of_mem_positions hne
    let drawn : List (Fin vectors.length) :=
      (positions metric vectors k stream).pmap (fun position h ↦ ⟨position, h⟩) hlt
    have hdrawn : drawn.map Fin.val = positions metric vectors k stream := by
      simp [drawn, List.map_pmap]
    refine ⟨drawn, ?_, hdrawn, ?_⟩
    · exact List.Nodup.of_map Fin.val (hdrawn ▸ nodup_positions hne k stream)
    · rw [centroids, ← hdrawn, List.map_map]
      apply List.map_congr_left
      intro i _
      simp [centroidAt, List.getD_eq_getElem?_getD]
  · intro earlier later
    have hfits : (run metric vectors earlier (start metric vectors stream)).Fits vectors :=
      (fits_start metric hne stream).run earlier
    obtain ⟨drawn, hdrawn, -, hopen⟩ := exists_drawn_run hfits later
    rw [run_add]
    exact ⟨drawn, hdrawn, fun position weight hweight hle hagain ↦
      hopen position hagain ⟨weight, hweight, hle⟩⟩

/-- Two points that are no numbers, and two that are. -/
def patchyPoints : List Vec := [[⟨0x7fc00000⟩], [.one], [.zero], [⟨0x7fc00000⟩]]

/-- Such points are drawn too, in any case at most once: of four centroids that are asked for there
are three, and the one at the end comes second. -/
theorem exists_distinct_draws_patchy :
    (patchyPoints ≠ [] ∧ ∀ v ∈ patchyPoints, v.length = 1) ∧
      positions .squaredEuclidean patchyPoints 4 (.ofSeed 7) = [1, 3, 2] ∧
      (centroids .squaredEuclidean patchyPoints 4 (.ofSeed 7)).length ≤ 4 ∧
      (∃ drawn : List (Fin patchyPoints.length), drawn.Nodup ∧ drawn.map Fin.val = [1, 3, 2] ∧
        centroids .squaredEuclidean patchyPoints 4 (.ofSeed 7) =
          drawn.map fun i ↦ Metric.prepare .squaredEuclidean patchyPoints[i]) ∧
      ∃ position, pick .zero [⟨0x7ff8000000000000⟩, ⟨0x3ff0000000000000⟩] = some position := by
  have hne : patchyPoints ≠ [] := List.cons_ne_nil _ _
  have hlengths : ∀ v ∈ patchyPoints, v.length = 1 := by decide
  have hdrawn : positions .squaredEuclidean patchyPoints 4 (.ofSeed 7) = [1, 3, 2] := by
    decide +kernel
  obtain ⟨-, ⟨-, hfew⟩, hdistinct, -, hpick⟩ :=
    exists_distinct_draws .squaredEuclidean hne hlengths (Nat.succ_pos 3) (.ofSeed 7)
  rw [hdrawn] at hdistinct
  exact ⟨⟨hne, hlengths⟩, hdrawn, hfew, hdistinct, hpick _ _ (by decide +kernel)⟩

end Seeding
end VectorIndex
