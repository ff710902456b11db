import VectorIndex.Proofs.Clustering.Lengths
import VectorIndex.Proofs.Sequence.Chunks

/-!
# Clustering within its bounds

Clustering once more, where every point, weight and centroid that is taken has to be there, and
vectors that are compared have to be of one length. Whatever is to be clustered, nothing is missing.
-/

namespace VectorIndex

/-- The distance of two vectors, which have to be of one length. -/
def Metric.distance? (metric : Metric) (a b : Vec) : Option Binary32 :=
  if a.length = b.length then some (metric.distance a b) else none

/-- The nearest centroid and its distance, where every centroid has to be as long as the vector. -/
def nearestCentroid? (metric : Metric) (centroids : List Vec) (v : Vec) :
    Option (Nat × Binary32) :=
  (centroids.mapM (metric.distance? v)).map (firstBest (fun a b ↦ a < b) .infinity)

theorem Metric.distance?_eq (metric : Metric) {a b : Vec} (hlength : a.length = b.length) :
    metric.distance? a b = some (metric.distance a b) := if_pos hlength

theorem nearestCentroid?_eq (metric : Metric) {centroids : List Vec} {v : Vec}
    (hlengths : ∀ c ∈ centroids, c.length = v.length) :
    nearestCentroid? metric centroids v = some (nearestCentroid metric centroids v) := by
  unfold nearestCentroid?
  rw [mapM_eq_some_map fun c hc ↦ metric.distance?_eq (hlengths c hc).symm]
  rfl

/-! ## Drawing the first centroids -/

namespace Seeding

def centroidAt? (metric : Metric) (vectors : List Vec) (position : Nat) : Option Vec :=
  vectors[position]?.map metric.prepare

def weightsTo? (metric : Metric) (vectors : List Vec) (v : Vec) : Option (List Binary64) :=
  vectors.mapM fun point ↦ (metric.distance? point v).map metric.seedingWeight

/-- The weights, with none left at a position that has to have one. -/
def cover? (weights : List Binary64) (position : Nat) : Option (List Binary64) :=
  if position < weights.length then some (weights.set position .zero) else none

def start? (metric : Metric) (vectors : List Vec) (stream : KeyStream) : Option State := do
  let (first, stream) := stream.below vectors.length
  let weights ← weightsTo? metric vectors (← centroidAt? metric vectors first)
  return ⟨[first], ← cover? weights first, stream⟩

/-- One more position if a point is left that is not covered; none where something is missing. -/
def step? (metric : Metric) (vectors : List Vec) (state : State) : Option (Option State) :=
  let total := total state.weights
  if total ≤ weightFloor then some none
  else
    let (fraction, stream) := state.stream.fraction
    match pick (fraction * total) state.weights with
    | none => some none
    | some position => do
      let offered ← weightsTo? metric vectors (← centroidAt? metric vectors position)
      let weights := List.zipWith (fun offer kept ↦ if offer < kept then offer else kept)
        offered state.weights
      return some ⟨state.positions ++ [position], ← cover? weights position, stream⟩

def run? (metric : Metric) (vectors : List Vec) : Nat → State → Option State
  | 0, state => some state
  | count + 1, state => do
    match ← step? metric vectors state with
    | some state => run? metric vectors count state
    | none => return state

def centroids? (metric : Metric) (vectors : List Vec) (k : Nat) (stream : KeyStream) :
    Option (List Vec) := do
  let last ← run? metric vectors (k - 1) (← start? metric vectors stream)
  last.positions.mapM (centroidAt? metric vectors)

variable {metric : Metric} {vectors : List Vec} {width : Nat}

theorem centroidAt?_eq (metric : Metric) {position : Nat} (hposition : position < vectors.length) :
    centroidAt? metric vectors position = some (centroidAt metric vectors position) := by
  rw [centroidAt?, centroidAt, List.getD_eq_getElem?_getD, List.getElem?_eq_getElem hposition]
  rfl

theorem cover?_eq {weights : List Binary64} {position : Nat}
    (hposition : position < weights.length) :
    cover? weights position = some (weights.set position .zero) := if_pos hposition

variable (hvectors : ∀ v ∈ vectors, v.length = width)
include hvectors

theorem weightsTo?_eq {position : Nat} (hposition : position < vectors.length) :
    weightsTo? metric vectors (centroidAt metric vectors position) =
      some (weightsTo metric vectors (centroidAt metric vectors position)) := by
  apply mapM_eq_some_map
  intro point hpoint
  have hlength := (hvectors point hpoint).trans
    (length_centroidAt hvectors metric hposition).symm
  rw [metric.distance?_eq hlength, Option.map_some]

theorem start?_eq (hne : vectors ≠ []) (stream : KeyStream) :
    start? metric vectors stream = some (start metric vectors stream) := by
  have hfirst := KeyStream.below_lt (List.length_pos_iff.mpr hne) stream
  unfold start? start
  simp only [centroidAt?_eq metric hfirst, Option.bind_eq_bind, Option.bind_some,
    weightsTo?_eq hvectors hfirst]
  rw [cover?_eq]
  · rfl
  · rwa [length_weightsTo]

theorem step?_eq {state : State} (hfits : state.Fits vectors) :
    step? metric vectors state = some (step metric vectors state) := by
  unfold step? step
  dsimp only
  split
  · rfl
  · cases hpick : pick (state.stream.fraction.1 * total state.weights) state.weights with
    | none => rfl
    | some position =>
      have hposition : position < vectors.length := hfits.weights ▸ pick_lt hpick
      simp only [centroidAt?_eq metric hposition, Option.bind_eq_bind, Option.bind_some,
        weightsTo?_eq hvectors hposition]
      rw [cover?_eq]
      · rfl
      · rw [List.length_zipWith, length_weightsTo, hfits.weights, Nat.min_self]
        exact hposition

theorem run?_eq (count : Nat) {state : State} (hfits : state.Fits vectors) :
    run? metric vectors count state = some (run metric vectors count state) := by
  induction count generalizing state with
  | zero => rfl
  | succ count ih =>
    rw [run?, run, step?_eq hvectors hfits]
    cases hstep : step metric vectors state with
    | none => rfl
    | some next => exact ih (hfits.step hstep)

theorem centroids?_eq (hne : vectors ≠ []) (k : Nat) (stream : KeyStream) :
    centroids? metric vectors k stream = some (centroids metric vectors k stream) := by
  have hstart := fits_start metric hne stream
  unfold centroids?
  rw [start?_eq hvectors hne]
  simp only [Option.bind_eq_bind, Option.bind_some, run?_eq hvectors (k - 1) hstart]
  exact mapM_eq_some_map fun position hposition ↦
    centroidAt?_eq metric ((hstart.run (k - 1)).positions position hposition)

end Seeding

/-! ## Turns -/

namespace Clustering

def assign? (metric : Metric) (vectors centroids : List Vec) : Option (List Nat) :=
  vectors.mapM fun v ↦ (nearestCentroid? metric centroids v).map (·.1)

/-- The candidates, where every point has to have its centroid. -/
def candidates? (metric : Metric) (vectors : List Vec) (assignments : List Nat)
    (previous : List Vec) (taken : List Nat) : Option (List (Nat × Binary32)) := do
  let found ← (vectors.zip assignments).zipIdx.mapM fun ((v, cluster), position) ↦ do
    return (position, ← metric.distance? v (← previous[cluster]?))
  return found.filter fun (position, distance) ↦
    !taken.contains position && decide (Vec.epsilon < distance)

def updateFrom? (metric : Metric) (vectors : List Vec) (assignments : List Nat)
    (previous : List Vec) (dimension : Nat) : List Vec → Nat → List Nat → Option (List Vec)
  | [], _, _ => some []
  | kept :: rest, cluster, taken =>
    match members vectors assignments cluster with
    | [] => do
      match farthest (← candidates? metric vectors assignments previous taken) with
      | some position =>
        return (← Seeding.centroidAt? metric vectors position) ::
          (← updateFrom? metric vectors assignments previous dimension rest (cluster + 1)
            (taken ++ [position]))
      | none =>
        return kept ::
          (← updateFrom? metric vectors assignments previous dimension rest (cluster + 1) taken)
    | points => do
      return mean metric dimension points ::
        (← updateFrom? metric vectors assignments previous dimension rest (cluster + 1) taken)

/-- The moved centroids, where there has to be a point, and a centroid for every point. -/
def update? (metric : Metric) (vectors : List Vec) (assignments : List Nat) (previous : List Vec) :
    Option (List Vec) := do
  let first ← vectors.head?
  if assignments.all (· < previous.length) then
    updateFrom? metric vectors assignments previous first.length previous 0 []
  else none

def movement? (metric : Metric) (old new : List Vec) : Option Binary32 := do
  let distances ← (old.zip new).mapM fun (before, after) ↦ metric.distance? before after
  return .sum distances / .ofNat old.length

def turn? (metric : Metric) (vectors : List Vec) (current : Clustering) :
    Option (Clustering × Bool) := do
  let centroids ← update? metric vectors current.assignments current.centroids
  let moved ← movement? metric current.centroids centroids
  let assignments ← assign? metric vectors centroids
  return (⟨centroids, assignments, current.iterations + 1⟩,
    assignments = current.assignments || decide (moved < movementTolerance))

def turns? (metric : Metric) (vectors : List Vec) : Nat → Clustering → Option Clustering
  | 0, current => some current
  | count + 1, current => do
    match ← turn? metric vectors current with
    | (next, true) => return next
    | (next, false) => turns? metric vectors count next

variable {metric : Metric} {vectors : List Vec} {width : Nat}
  (hvectors : ∀ v ∈ vectors, v.length = width)
include hvectors

theorem assign?_eq {centroids : List Vec} (hcentroids : ∀ c ∈ centroids, c.length = width) :
    assign? metric vectors centroids = some (assign metric vectors centroids) := by
  apply mapM_eq_some_map
  intro v hv
  have hlengths : ∀ c ∈ centroids, c.length = v.length :=
    fun c hc ↦ (hcentroids c hc).trans (hvectors v hv).symm
  rw [nearestCentroid?_eq metric hlengths, Option.map_some]

section

variable {assignments : List Nat} {previous : List Vec}
  (hassignments : ∀ cluster ∈ assignments, cluster < previous.length)
  (hprevious : ∀ c ∈ previous, c.length = width)
include hassignments hprevious

theorem candidates?_eq (taken : List Nat) :
    candidates? metric vectors assignments previous taken =
      some (candidates metric vectors assignments previous taken) := by
  unfold candidates?
  rw [mapM_eq_some_map (g := fun ((v, cluster), position) ↦
    (position, metric.distance v (previous.getD cluster [])))]
  · rfl
  · rintro ⟨⟨v, cluster⟩, position⟩ hfound
    obtain ⟨hv, hcluster⟩ := List.of_mem_zip (List.fst_mem_of_mem_zipIdx hfound)
    have hlt := hassignments cluster hcluster
    have hlength : v.length = previous[cluster].length :=
      (hvectors v hv).trans (hprevious _ (List.getElem_mem hlt)).symm
    dsimp only
    rw [List.getD_eq_getElem?_getD, List.getElem?_eq_getElem hlt, Option.bind_eq_bind,
      Option.bind_some, metric.distance?_eq hlength]
    rfl

theorem updateFrom?_eq (dimension : Nat) (kept : List Vec) (cluster : Nat) (taken : List Nat) :
    updateFrom? metric vectors assignments previous dimension kept cluster taken =
      some (updateFrom metric vectors assignments previous dimension kept cluster taken) := by
  induction kept generalizing cluster taken with
  | nil => rfl
  | cons centroid rest ih =>
    rw [updateFrom?, updateFrom]
    cases members vectors assignments cluster with
    | cons first others =>
      dsimp only
      rw [ih]
      rfl
    | nil =>
      dsimp only
      rw [candidates?_eq hvectors hassignments hprevious, Option.bind_eq_bind, Option.bind_some]
      cases hfarthest : farthest (candidates metric vectors assignments previous taken) with
      | none =>
        dsimp only
        rw [ih]
        rfl
      | some position =>
        obtain ⟨distance, hmem⟩ := exists_of_farthest hfarthest
        dsimp only
        rw [ih, Seeding.centroidAt?_eq metric (lt_of_mem_candidates hmem)]
        rfl

theorem update?_eq (hne : vectors ≠ []) :
    update? metric vectors assignments previous =
      some (update metric vectors assignments previous) := by
  obtain ⟨first, rest, rfl⟩ := List.exists_cons_of_ne_nil hne
  have hall : assignments.all (· < previous.length) = true :=
    List.all_eq_true.mpr fun cluster hcluster ↦ decide_eq_true (hassignments cluster hcluster)
  unfold update? update
  rw [List.head?_cons, Option.bind_eq_bind, Option.bind_some, if_pos hall]
  exact updateFrom?_eq hvectors hassignments hprevious _ _ _ _

end

omit hvectors in
theorem movement?_eq {old new : List Vec} (hold : ∀ c ∈ old, c.length = width)
    (hnew : ∀ c ∈ new, c.length = width) :
    movement? metric old new = some (movement metric old new) := by
  unfold movement?
  rw [mapM_eq_some_map (g := fun (before, after) ↦ metric.distance before after)]
  · rw [List.zip, List.map_zipWith]
    rfl
  · rintro ⟨before, after⟩ hpair
    obtain ⟨hbefore, hafter⟩ := List.of_mem_zip hpair
    exact metric.distance?_eq ((hold before hbefore).trans (hnew after hafter).symm)

theorem turn?_eq {current : Clustering} (hne : vectors ≠ []) (hfits : current.Fits vectors width) :
    turn? metric vectors current = some (turn metric vectors current) := by
  obtain ⟨-, hmoved⟩ := hfits.update hvectors metric hne
  unfold turn?
  rw [update?_eq hvectors hfits.assignments_lt hfits.length_centroid hne]
  simp only [Option.bind_eq_bind, Option.bind_some,
    movement?_eq hfits.length_centroid hmoved, assign?_eq hvectors hmoved]
  rfl

theorem turns?_eq (hne : vectors ≠ []) (count : Nat) {current : Clustering}
    (hfits : current.Fits vectors width) :
    turns? metric vectors count current = some (turns metric vectors count current) := by
  induction count generalizing current with
  | zero => rfl
  | succ count ih =>
    have hturn := hfits.turn hvectors metric hne
    rw [turns?, turns, turn?_eq hvectors hne hfits, Option.bind_eq_bind, Option.bind_some]
    rcases hnext : turn metric vectors current with ⟨next, last⟩
    rw [hnext] at hturn
    cases last with
    | true => rfl
    | false => exact ih hturn

end Clustering

/-! ## Clustering as a whole -/

def kmeans? (metric : Metric) (k : Nat) (seed : UInt64) (maxIterations : Nat)
    (vectors : List Vec) : Option (Except ClusteringError Clustering) :=
  match vectors with
  | [] => some (.error .emptyVectorSet)
  | first :: _ =>
    if k = 0 ∨ vectors.length < k then some (.error (.invalidClusterCount k))
    else if first.length = 0 ∨ vectors.any (·.length ≠ first.length) then
      some (.error .dimensionMismatch)
    else do
      let centroids ← Seeding.centroids? metric vectors k (.ofSeed seed)
      let assignments ← Clustering.assign? metric vectors centroids
      return .ok (← Clustering.turns? metric vectors (max 1 maxIterations)
        ⟨centroids, assignments, 0⟩)

/-- Clustering stays within its bounds, since it refuses what it could not cluster. -/
theorem kmeans?_eq (metric : Metric) (k : Nat) (seed : UInt64) (maxIterations : Nat)
    (vectors : List Vec) :
    kmeans? metric k seed maxIterations vectors =
      some (kmeans metric k seed maxIterations vectors) := by
  cases vectors with
  | nil => rfl
  | cons first rest =>
    unfold kmeans? kmeans
    dsimp only
    split
    · rfl
    · next hcount =>
      split
      · rfl
      · next hlengths =>
        have hne : first :: rest ≠ [] := List.cons_ne_nil first rest
        have hvectors : ∀ v ∈ first :: rest, v.length = first.length := by
          simpa [List.any_eq_true] using (not_or.mp hlengths).2
        have hfits := Clustering.fits_drawn hvectors metric hne
          (Nat.pos_of_ne_zero (not_or.mp hcount).1) seed
        unfold Clustering.drawn at hfits
        rw [Seeding.centroids?_eq hvectors hne]
        simp only [Option.bind_eq_bind, Option.bind_some,
          Clustering.assign?_eq hvectors hfits.length_centroid,
          Clustering.turns?_eq hvectors hne _ hfits]
        rfl

end VectorIndex
