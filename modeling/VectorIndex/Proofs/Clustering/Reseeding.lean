import Mathlib.Data.List.Nodup
import VectorIndex.Proofs.Clustering.Bounds
import VectorIndex.Proofs.Clustering.Nearest

/-!
# Where centroids move

A centroid with points moves to the scaled sum of its points. One without points moves to the
worst-served point that no other such centroid has moved to in the same turn, the first of the
farthest among the points that are not at their centroids; it stays only when there is none left.
The clusters without points are gone through in order, so the points they take are a list that each
of them prolongs by one, and which of them a cluster takes is told by the number of clusters without
points before it.
-/

namespace VectorIndex

namespace Binary32

/-- On what is positive the total order ranks as the order of numbers does. -/
theorem totalRank_eq_rank {x : Binary32} (hx : 0 < x.rank) : x.totalRank = x.rank := by
  unfold rank at hx
  unfold totalRank rank
  split at hx
  · omega
  · next hsign => rw [if_neg hsign, if_neg hsign]

/-- Above a positive number the total order is the order of numbers. -/
theorem lt_iff_totalRank_lt {bound x y : Binary32} (hbound : 0 < bound.rank) (hx : bound < x)
    (hy : bound < y) : x < y ↔ x.totalRank < y.totalRank := by
  obtain ⟨-, hxNumber, hxRank⟩ := lt_iff.mp hx
  obtain ⟨-, hyNumber, hyRank⟩ := lt_iff.mp hy
  rw [totalRank_eq_rank (Int.lt_trans hbound hxRank),
    totalRank_eq_rank (Int.lt_trans hbound hyRank), lt_iff]
  exact ⟨fun hlt ↦ hlt.2.2, fun hlt ↦ ⟨hxNumber, hyNumber, hlt⟩⟩

end Binary32

namespace Clustering

/-! ## The sum of some points -/

/-- The sum of one component, taken over the points in order. -/
def componentSum (points : List Vec) (component : Nat) : Binary32 :=
  points.foldl (fun sum v ↦ sum + v.getD component .zero) .zero

/-- Points of one length are added component by component. -/
theorem foldl_add_eq_map {width : Nat} {points : List Vec}
    (hpoints : ∀ v ∈ points, v.length = width) {start : Vec} (hstart : start.length = width) :
    points.foldl Vec.add start = (List.range width).map fun component ↦
      points.foldl (fun sum v ↦ sum + v.getD component .zero) (start.getD component .zero) := by
  induction points generalizing start with
  | nil =>
    apply List.ext_getElem
    · simp [hstart]
    · intro component hcomponent _
      have hlt : component < start.length := hcomponent
      simp [List.getD_eq_getElem?_getD, hlt]
  | cons v rest ih =>
    obtain ⟨hv, hrest⟩ := List.forall_mem_cons.mp hpoints
    rw [List.foldl_cons, ih hrest (by rw [Vec.length_add, hstart, hv, Nat.min_self])]
    apply List.map_congr_left
    intro component hcomponent
    have hlt := List.mem_range.mp hcomponent
    have hsum : (start.add v).getD component .zero =
        start.getD component .zero + v.getD component .zero := by
      simp [Vec.add, List.getD_eq_getElem?_getD, hstart, hv, hlt]
    rw [List.foldl_cons, hsum]

/-- The sum of some points, each component times what one divided by their number is. -/
def scaledSum (width : Nat) (points : List Vec) : Vec :=
  (List.range width).map fun component ↦
    componentSum points component * (.one / .ofNat points.length)

theorem mean_eq (metric : Metric) {width : Nat} {points : List Vec}
    (hpoints : ∀ v ∈ points, v.length = width) :
    mean metric width points = metric.prepare (scaledSum width points) := by
  have hzeros : (List.replicate width Binary32.zero).length = width := List.length_replicate
  rw [mean, foldl_add_eq_map hpoints hzeros, List.map_map, scaledSum]
  congr 1
  apply List.map_congr_left
  intro component hcomponent
  have hstart : (List.replicate width Binary32.zero).getD component .zero = .zero := by
    rw [List.getD_eq_getElem?_getD, List.getElem?_replicate_of_lt (List.mem_range.mp hcomponent),
      Option.getD_some]
  rw [Function.comp_apply, hstart, componentSum]

/-! ## Points by their positions -/

/-- The positions of the points that are assigned to a cluster, in order. -/
def positionsIn (assignments : List Nat) (cluster : Nat) : List Nat :=
  (List.range assignments.length).filter fun position ↦ assignments[position]? = some cluster

/-- The points at some positions. -/
def pointsAt (vectors : List Vec) (positions : List Nat) : List Vec :=
  positions.map (vectors.getD · [])

/-- How far the point at a position is from the centroid that it is assigned to. -/
def distanceAt (metric : Metric) (vectors : List Vec) (assignments : List Nat)
    (previous : List Vec) (position : Nat) : Binary32 :=
  metric.distance (vectors.getD position [])
    (previous.getD (assignments.getD position 0) [])

section

variable {metric : Metric} {vectors : List Vec} {assignments : List Nat} {previous : List Vec}
  (hlength : assignments.length = vectors.length)
include hlength

theorem zip_eq_map_range : vectors.zip assignments = (List.range vectors.length).map fun position ↦
    (vectors.getD position [], assignments.getD position 0) := by
  apply List.ext_getElem
  · simp [hlength]
  · intro position hposition _
    have hlt : position < vectors.length := by
      rw [List.length_zip] at hposition
      omega
    simp [List.getD_eq_getElem?_getD, hlt, hlength]

theorem members_eq (cluster : Nat) :
    members vectors assignments cluster = pointsAt vectors (positionsIn assignments cluster) := by
  rw [members, zip_eq_map_range hlength, List.filter_map, List.map_map, positionsIn, hlength]
  refine congrArg _ (List.filter_congr fun position hposition ↦ ?_)
  have hlt : position < assignments.length := hlength ▸ List.mem_range.mp hposition
  simp [List.getD_eq_getElem?_getD, hlt]

/-- A cluster without points is one that no point is assigned to. -/
theorem members_eq_nil (cluster : Nat) :
    members vectors assignments cluster = [] ↔ cluster ∉ assignments := by
  rw [members_eq hlength, pointsAt, List.map_eq_nil_iff, positionsIn, List.filter_eq_nil_iff]
  constructor
  · intro hnone hmem
    obtain ⟨position, hposition, heq⟩ := List.getElem_of_mem hmem
    refine hnone position (List.mem_range.mpr hposition) ?_
    rw [List.getElem?_eq_getElem hposition, heq, decide_eq_true_iff]
  · intro hnone position _ hat
    exact hnone (List.mem_of_getElem? (of_decide_eq_true hat))

end

/-! ## The worst-served point -/

/-- A point that a centroid without points may move to: none has moved there yet, and the point is
not at its own centroid. -/
structure MayReseed (metric : Metric) (vectors : List Vec) (assignments : List Nat)
    (previous : List Vec) (taken : List Nat) (position : Nat) : Prop where
  lt : position < vectors.length
  unused : position ∉ taken
  far : Vec.epsilon < distanceAt metric vectors assignments previous position

/-- Of the points that may be moved to none is farther from its centroid, and of those that are as
far it is the first. -/
structure IsWorstServed (metric : Metric) (vectors : List Vec) (assignments : List Nat)
    (previous : List Vec) (taken : List Nat) (position : Nat) : Prop where
  mayReseed : MayReseed metric vectors assignments previous taken position
  greatest : ∀ other, MayReseed metric vectors assignments previous taken other →
    ¬ distanceAt metric vectors assignments previous position <
      distanceAt metric vectors assignments previous other
  lowest : ∀ other, MayReseed metric vectors assignments previous taken other →
    ¬ distanceAt metric vectors assignments previous other <
      distanceAt metric vectors assignments previous position → position ≤ other

/-- The scan keeps the first of the greatest where positions ascend. -/
theorem foldl_farther_first {first best : Nat × Binary32} {rest : List (Nat × Binary32)}
    (hascend : (first :: rest).Pairwise (·.1 < ·.1))
    (hbest : rest.foldl (fun best next ↦
      if best.2.totalRank < next.2.totalRank then next else best) first = best) :
    ∀ other ∈ first :: rest, other.2.totalRank ≤ best.2.totalRank ∧
      (other.2.totalRank = best.2.totalRank → best.1 ≤ other.1) := by
  induction rest generalizing first with
  | nil =>
    intro other hother
    obtain rfl := List.mem_singleton.mp hother
    obtain rfl : other = best := hbest
    exact ⟨Int.le_refl _, fun _ ↦ Nat.le_refl _⟩
  | cons next rest ih =>
    obtain ⟨hfirst, hnext⟩ := List.pairwise_cons.mp hascend
    have hbefore := hfirst next List.mem_cons_self
    rw [List.foldl_cons] at hbest
    split at hbest
    · next hfarther =>
      have hlater := ih hnext hbest
      have hhead := (hlater next List.mem_cons_self).1
      exact List.forall_mem_cons.mpr ⟨⟨by omega, by omega⟩, hlater⟩
    · next hfarther =>
      have hskipped : (first :: rest).Pairwise (·.1 < ·.1) :=
        hascend.sublist ((List.sublist_cons_self next rest).cons_cons first)
      obtain ⟨hhead, hrest⟩ := List.forall_mem_cons.mp (ih hskipped hbest)
      have hpassed : next.2.totalRank = best.2.totalRank → best.1 ≤ next.1 := by
        intro heq
        have hlowest := hhead.2 (by omega)
        omega
      exact List.forall_mem_cons.mpr
        ⟨hhead, List.forall_mem_cons.mpr ⟨⟨by omega, hpassed⟩, hrest⟩⟩

section

variable {metric : Metric} {vectors : List Vec} {assignments : List Nat} {previous : List Vec}
  (hlength : assignments.length = vectors.length) {taken : List Nat}
include hlength

theorem candidates_eq : candidates metric vectors assignments previous taken =
    ((List.range vectors.length).map fun position ↦
      (position, distanceAt metric vectors assignments previous position)).filter
        fun (position, distance) ↦ !taken.contains position && decide (Vec.epsilon < distance) := by
  unfold candidates
  congr 1
  apply List.ext_getElem
  · simp [hlength]
  · intro position hposition _
    have hlt : position < vectors.length := by
      rw [List.length_map, List.length_zipIdx, List.length_zip] at hposition
      omega
    simp [distanceAt, List.getD_eq_getElem?_getD, hlt, hlength]

theorem mem_candidates {position : Nat} {distance : Binary32} :
    (position, distance) ∈ candidates metric vectors assignments previous taken ↔
      MayReseed metric vectors assignments previous taken position ∧
        distanceAt metric vectors assignments previous position = distance := by
  rw [candidates_eq hlength, List.mem_filter, List.mem_map]
  constructor
  · rintro ⟨⟨other, hother, hpair⟩, hholds⟩
    obtain ⟨rfl, rfl⟩ := Prod.mk.inj hpair
    simp only [Bool.and_eq_true, Bool.not_eq_true', List.contains_eq_mem, decide_eq_false_iff_not,
      decide_eq_true_eq] at hholds
    exact ⟨⟨List.mem_range.mp hother, hholds.1, hholds.2⟩, rfl⟩
  · rintro ⟨hmay, rfl⟩
    refine ⟨⟨position, List.mem_range.mpr hmay.lt, rfl⟩, ?_⟩
    simp [hmay.unused, hmay.far]

theorem pairwise_candidates :
    (candidates metric vectors assignments previous taken).Pairwise (·.1 < ·.1) := by
  rw [candidates_eq hlength]
  have hall : ((List.range vectors.length).map fun position ↦
      (position, distanceAt metric vectors assignments previous position)).Pairwise
        (·.1 < ·.1) := List.pairwise_map.mpr List.pairwise_lt_range
  exact hall.filter _

/-- The candidate that is chosen is the worst-served point. -/
theorem isWorstServed_of_farthest {position : Nat}
    (hfarthest : farthest (candidates metric vectors assignments previous taken) = some position) :
    IsWorstServed metric vectors assignments previous taken position := by
  have hascend : (candidates metric vectors assignments previous taken).Pairwise (·.1 < ·.1) :=
    pairwise_candidates hlength
  have hmem {other : Nat} {distance : Binary32} :
      (other, distance) ∈ candidates metric vectors assignments previous taken ↔
        MayReseed metric vectors assignments previous taken other ∧
          distanceAt metric vectors assignments previous other = distance :=
    mem_candidates hlength
  cases hcandidates : candidates metric vectors assignments previous taken with
  | nil =>
    rw [hcandidates] at hfarthest
    cases hfarthest
  | cons first rest =>
    rw [hcandidates] at hfarthest hascend hmem
    rcases hbest : rest.foldl (fun best next ↦
      if best.2.totalRank < next.2.totalRank then next else best) first with ⟨found, distance⟩
    obtain rfl : found = position :=
      (congrArg Prod.fst hbest).symm.trans (Option.some.inj hfarthest)
    obtain ⟨hmay, rfl⟩ := hmem.mp (hbest ▸ foldl_farther_mem rest first)
    have hleast := foldl_farther_first hascend hbest
    have hpositive : 0 < Vec.epsilon.rank := by decide
    refine ⟨hmay, fun other hother ↦ ?_, fun other hother hno ↦ ?_⟩
    · have hle := (hleast _ (hmem.mpr ⟨hother, rfl⟩)).1
      rw [Binary32.lt_iff_totalRank_lt hpositive hmay.far hother.far]
      exact Int.not_lt.mpr hle
    · have hfirst := hleast _ (hmem.mpr ⟨hother, rfl⟩)
      rw [Binary32.lt_iff_totalRank_lt hpositive hother.far hmay.far] at hno
      exact hfirst.2 (Int.le_antisymm hfirst.1 (Int.not_lt.mp hno))

/-- Where no candidate is chosen, no point is left. -/
theorem not_mayReseed_of_farthest
    (hfarthest : farthest (candidates metric vectors assignments previous taken) = none)
    (position : Nat) : ¬ MayReseed metric vectors assignments previous taken position := by
  intro hmay
  have hmem := (mem_candidates hlength).mpr ⟨hmay, rfl⟩
  cases hcandidates : candidates metric vectors assignments previous taken with
  | nil =>
    rw [hcandidates] at hmem
    cases hmem
  | cons first rest =>
    rw [hcandidates] at hfarthest
    cases hfarthest

end

/-! ## The points that are taken -/

/-- The points that `count` centroids in a row take, when some are taken already. -/
def reseeds (metric : Metric) (vectors : List Vec) (assignments : List Nat) (previous : List Vec) :
    Nat → List Nat → List Nat
  | 0, _ => []
  | count + 1, taken =>
    match farthest (candidates metric vectors assignments previous taken) with
    | some position =>
      position :: reseeds metric vectors assignments previous count (taken ++ [position])
    | none => []

section

variable {metric : Metric} {vectors : List Vec} {assignments : List Nat} {previous : List Vec}

variable (metric vectors assignments previous) in
/-- Each of them is chosen where those before it are taken, and they end where none is chosen. -/
theorem farthest_reseeds {count i : Nat} (hi : i < count) (taken : List Nat) :
    farthest (candidates metric vectors assignments previous
      (taken ++ (reseeds metric vectors assignments previous count taken).take i)) =
        (reseeds metric vectors assignments previous count taken)[i]? := by
  induction count generalizing i taken with
  | zero => exact absurd hi (Nat.not_lt_zero i)
  | succ count ih =>
    rw [reseeds]
    split
    · next position hfarthest =>
      cases i with
      | zero => rwa [List.take_zero, List.append_nil]
      | succ i =>
        have hrest := ih (Nat.lt_of_succ_lt_succ hi) (taken ++ [position])
        rwa [List.append_assoc, List.singleton_append] at hrest
    · next hfarthest => rwa [List.take_nil, List.append_nil]

/-- The number of clusters without points before a cluster. -/
def vacantBefore (assignments : List Nat) (cluster : Nat) : Nat :=
  (List.range cluster).countP (· ∉ assignments)

theorem vacantBefore_succ (assignments : List Nat) (cluster : Nat) :
    vacantBefore assignments (cluster + 1) =
      vacantBefore assignments cluster + if cluster ∈ assignments then 0 else 1 := by
  rw [vacantBefore, List.range_succ, List.countP_append, vacantBefore]
  congr 1
  by_cases hmem : cluster ∈ assignments <;> simp [hmem]

theorem vacantBefore_le (assignments : List Nat) (cluster : Nat) :
    vacantBefore assignments cluster ≤ cluster := by
  have hle : (List.range cluster).countP (· ∉ assignments) ≤ (List.range cluster).length :=
    List.countP_le_length
  rwa [List.length_range] at hle

/-- Where a centroid moves when those without points take `seeds` in order. -/
def movedTo (metric : Metric) (vectors : List Vec) (assignments : List Nat) (width : Nat)
    (seeds : List Nat) (cluster : Nat) (kept : Vec) : Vec :=
  if cluster ∈ assignments then mean metric width (members vectors assignments cluster)
  else match seeds[vacantBefore assignments cluster]? with
    | some position => metric.prepare (vectors.getD position [])
    | none => kept

/-- Where each seed is chosen after those before it, every centroid moves as the seeds say. -/
theorem updateFrom_eq_mapIdx (hlength : assignments.length = vectors.length) (width : Nat)
    {seeds : List Nat} {count : Nat}
    (hseeds : ∀ i < count,
      farthest (candidates metric vectors assignments previous (seeds.take i)) = seeds[i]?)
    (kept : List Vec) (cluster : Nat) (hcount : cluster + kept.length ≤ count) :
    updateFrom metric vectors assignments previous width kept cluster
      (seeds.take (vacantBefore assignments cluster)) =
        kept.mapIdx fun i ↦ movedTo metric vectors assignments width seeds (cluster + i) := by
  -- Before every cluster the points taken are the first of the seeds, one for each cluster without
  -- points that was passed, so a turn takes one more of them or none.
  induction kept generalizing cluster with
  | nil => rfl
  | cons centroid rest ih =>
    rw [List.length_cons] at hcount
    have hrest := ih (cluster + 1) (by omega)
    have hbefore := vacantBefore_succ assignments cluster
    have hnext : seeds.take (vacantBefore assignments cluster + 1) =
      seeds.take (vacantBefore assignments cluster) ++
        seeds[vacantBefore assignments cluster]?.toList := List.take_add_one
    have hchosen := hseeds (vacantBefore assignments cluster)
      (Nat.lt_of_le_of_lt (vacantBefore_le assignments cluster) (by omega))
    have hshift : (fun i ↦ movedTo metric vectors assignments width seeds (cluster + (i + 1))) =
        fun i ↦ movedTo metric vectors assignments width seeds (cluster + 1 + i) := by
      funext i
      rw [Nat.add_assoc, Nat.add_comm 1]
    rw [updateFrom, List.mapIdx_cons, hshift, ← hrest, hbefore]
    simp only [movedTo, Nat.add_zero]
    split
    · next hnone =>
      have hvacant := (members_eq_nil hlength cluster).mp hnone
      rw [if_neg hvacant, if_neg hvacant, hnext, hchosen]
      cases seeds[vacantBefore assignments cluster]? with
      | some position => rfl
      | none => rw [Option.toList_none, List.append_nil]
    · next hmembers =>
      have hmem : cluster ∈ assignments := by
        by_contra hvacant
        exact hmembers ((members_eq_nil hlength cluster).mpr hvacant)
      rw [if_pos hmem, if_pos hmem]
      rfl

/-- No point is taken twice, and none that was taken before. -/
theorem nodup_reseeds (hlength : assignments.length = vectors.length) (count : Nat)
    (taken : List Nat) : (reseeds metric vectors assignments previous count taken).Nodup ∧
      ∀ position ∈ reseeds metric vectors assignments previous count taken, position ∉ taken := by
  induction count generalizing taken with
  | zero => exact ⟨List.nodup_nil, nofun⟩
  | succ count ih =>
    rw [reseeds]
    split
    · next position hfarthest =>
      obtain ⟨hnodup, hunused⟩ := ih (taken ++ [position])
      have hposition := (isWorstServed_of_farthest hlength hfarthest).mayReseed.unused
      refine ⟨List.nodup_cons.mpr ⟨fun hagain ↦ ?_, hnodup⟩,
        List.forall_mem_cons.mpr ⟨hposition, fun other hother hbefore ↦ ?_⟩⟩
      · exact hunused position hagain (List.mem_append_right _ (List.mem_singleton_self _))
      · exact hunused other hother (List.mem_append_left _ hbefore)
    · exact ⟨List.nodup_nil, nofun⟩

variable (metric previous) in
/-- The centroids after a turn are those of before, each where it moves. -/
theorem update_eq_mapIdx (hlength : assignments.length = vectors.length) {width : Nat}
    (hne : vectors ≠ []) (hvectors : ∀ v ∈ vectors, v.length = width) :
    update metric vectors assignments previous = previous.mapIdx (movedTo metric vectors assignments
      width (reseeds metric vectors assignments previous previous.length [])) := by
  have hmoved := updateFrom_eq_mapIdx hlength width
    (fun i hi ↦ farthest_reseeds metric vectors assignments previous hi []) previous 0
    (Nat.le_of_eq (Nat.zero_add _))
  simp only [Nat.zero_add] at hmoved
  exact (update_eq_updateFrom hvectors metric hne assignments previous).trans hmoved

end

/-- Whatever the components are, points and centroids of one length can be moved on, and there are
as many centroids of that length as before. One with points moves to the scaled sum of exactly its
points, in order. Those without points take pairwise different points in order, each of them the
worst-served one that none before it has taken; where no such point is left the centroid stays, and
only there. -/
theorem exists_reseeds_of_update (metric : Metric) {vectors : List Vec} {assignments : List Nat}
    {previous : List Vec} {width : Nat} (hne : vectors ≠ [])
    (hvectors : ∀ v ∈ vectors, v.length = width) (hlength : assignments.length = vectors.length)
    (hassignments : ∀ cluster ∈ assignments, cluster < previous.length)
    (hprevious : ∀ c ∈ previous, c.length = width) :
    ∃ moved, update? metric vectors assignments previous = some moved ∧
      update metric vectors assignments previous = moved ∧
      moved.length = previous.length ∧ (∀ c ∈ moved, c.length = width) ∧
      (∀ cluster ∈ assignments, moved[cluster]? = some (metric.prepare
        (scaledSum width (pointsAt vectors (positionsIn assignments cluster))))) ∧
      ∃ seeds : List Nat, seeds.Nodup ∧ ∀ cluster < previous.length, cluster ∉ assignments →
        (∃ position, seeds[vacantBefore assignments cluster]? = some position ∧
          IsWorstServed metric vectors assignments previous
            (seeds.take (vacantBefore assignments cluster)) position ∧
          moved[cluster]? = some (metric.prepare (vectors.getD position []))) ∨
        (seeds[vacantBefore assignments cluster]? = none ∧
          (∀ position, ¬ MayReseed metric vectors assignments previous
            (seeds.take (vacantBefore assignments cluster)) position) ∧
          moved[cluster]? = previous[cluster]?) := by
  have hmoved := update_eq_mapIdx metric previous hlength hne hvectors
  refine ⟨_, update?_eq hvectors hassignments hprevious hne, rfl, ?_, ?_, ?_,
    reseeds metric vectors assignments previous previous.length [],
    (nodup_reseeds hlength previous.length []).1, ?_⟩
  · rw [hmoved, List.length_mapIdx]
  · exact length_of_mem_update hvectors hne assignments hprevious
  · intro cluster hcluster
    have hlt := hassignments cluster hcluster
    rw [hmoved, List.getElem?_mapIdx, List.getElem?_eq_getElem hlt, Option.map_some, movedTo,
      if_pos hcluster, mean_eq metric fun v hv ↦ hvectors v (mem_of_mem_members hv),
      members_eq hlength]
  · intro cluster hcluster hvacant
    have hbefore := Nat.lt_of_le_of_lt (vacantBefore_le assignments cluster) hcluster
    have hchosen := farthest_reseeds metric vectors assignments previous hbefore []
    rw [hmoved, List.getElem?_mapIdx, List.getElem?_eq_getElem hcluster, Option.map_some, movedTo,
      if_neg hvacant]
    rw [List.nil_append] at hchosen
    generalize reseeds metric vectors assignments previous previous.length [] = seeds at hchosen ⊢
    cases hseed : seeds[vacantBefore assignments cluster]? with
    | some position =>
      exact .inl ⟨position, rfl, isWorstServed_of_farthest hlength (hchosen.trans hseed), rfl⟩
    | none =>
      exact .inr ⟨rfl, not_mayReseed_of_farthest hlength (hchosen.trans hseed), rfl⟩

/-- Two points at zero, two at two, and one that is no number. -/
def strayPoints : List Vec := [[.zero], [.zero], [⟨0x40000000⟩], [⟨0x40000000⟩], [⟨0x7fc00000⟩]]

/-- Centroids at zero and one, with points, and at five, six and seven, without. -/
def strayCentroids : List Vec := [[.zero], [.one], [⟨0x40a00000⟩], [⟨0x40c00000⟩], [⟨0x40e00000⟩]]

/-- Of two points that are as far the first is taken first. The one that is no number is never
taken, so the last centroid stays. -/
theorem exists_reseeds_of_update_stray :
    (strayPoints ≠ [] ∧ (∀ v ∈ strayPoints, v.length = 1) ∧
      [0, 0, 0, 0, 1].length = strayPoints.length ∧
      (∀ cluster ∈ [0, 0, 0, 0, 1], cluster < strayCentroids.length) ∧
      ∀ c ∈ strayCentroids, c.length = 1) ∧
      update? .squaredEuclidean strayPoints [0, 0, 0, 0, 1] strayCentroids =
        some [[.one], [⟨0x7fc00000⟩], [⟨0x40000000⟩], [⟨0x40000000⟩], [⟨0x40e00000⟩]] ∧
      ∃ seeds : List Nat, seeds.Nodup ∧
        (∃ position, seeds[0]? = some position ∧ IsWorstServed .squaredEuclidean strayPoints
          [0, 0, 0, 0, 1] strayCentroids [] position) ∧
        (∃ position, seeds[1]? = some position ∧ IsWorstServed .squaredEuclidean strayPoints
          [0, 0, 0, 0, 1] strayCentroids (seeds.take 1) position) ∧
        ∀ position, ¬ MayReseed .squaredEuclidean strayPoints [0, 0, 0, 0, 1] strayCentroids
          (seeds.take 2) position := by
  have hne : strayPoints ≠ [] := List.cons_ne_nil _ _
  have hvectors : ∀ v ∈ strayPoints, v.length = 1 := by decide
  have hlength : [0, 0, 0, 0, 1].length = strayPoints.length := rfl
  have hassignments : ∀ cluster ∈ [0, 0, 0, 0, 1], cluster < strayCentroids.length := by decide
  have hprevious : ∀ c ∈ strayCentroids, c.length = 1 := by decide
  have hupdated : update .squaredEuclidean strayPoints [0, 0, 0, 0, 1] strayCentroids =
      [[.one], [⟨0x7fc00000⟩], [⟨0x40000000⟩], [⟨0x40000000⟩], [⟨0x40e00000⟩]] := by
    decide
  obtain ⟨moved, hmoved, heq, -, -, -, seeds, hnodup, hseeds⟩ := exists_reseeds_of_update
    .squaredEuclidean hne hvectors hlength hassignments hprevious
  obtain rfl := hupdated.symm.trans heq
  refine ⟨⟨hne, hvectors, hlength, hassignments, hprevious⟩, hmoved, seeds, hnodup, ?_, ?_, ?_⟩
  · rcases hseeds 2 (by decide) (by decide) with ⟨position, hat, hworst, -⟩ | ⟨-, -, hstays⟩
    · exact ⟨position, hat, hworst⟩
    · exact absurd hstays (by decide)
  · rcases hseeds 3 (by decide) (by decide) with ⟨position, hat, hworst, -⟩ | ⟨-, -, hstays⟩
    · exact ⟨position, hat, hworst⟩
    · exact absurd hstays (by decide)
  · rcases hseeds 4 (by decide) (by decide) with ⟨position, -, hworst, htaken⟩ | ⟨-, hnone, -⟩
    · have hother : ∀ position < 5, strayPoints.getD position [] ≠ [⟨0x40e00000⟩] := by decide
      exact absurd (Option.some.inj htaken).symm (hother position hworst.mayReseed.lt)
    · exact hnone

end Clustering
end VectorIndex
