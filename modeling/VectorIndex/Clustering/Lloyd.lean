import VectorIndex.Clustering.Seeding

/-!
# K-means clustering

Points go to the nearest centroid and centroids move to the mean of their points, in turns, until
no point changes its centroid, the centroids hardly move, or the turns are used up. A centroid
without points is moved to the worst-served point, each time another one. Identical input and
seed give identical bits; with fewer distinct points than clusters there are fewer centroids.
-/

namespace VectorIndex

inductive ClusteringError where
  | emptyVectorSet
  | invalidClusterCount (count : Nat)
  | dimensionMismatch
  deriving DecidableEq

def ClusteringError.message : ClusteringError → String
  | .emptyVectorSet =>
    "Empty vector set provided for clustering\n" ++
      "Suggestion: Ensure vectors are encoded before training"
  | .invalidClusterCount count =>
    s!"Invalid cluster count: {count}\nSuggestion: Use k between 1 and the number of vectors"
  | .dimensionMismatch =>
    "Dimension mismatch in vectors\n" ++
      "Suggestion: Ensure all vectors come from the same embedding model"

structure Clustering where
  centroids : List Vec
  /-- The position of each point's centroid. -/
  assignments : List Nat
  iterations : Nat
  deriving DecidableEq

namespace Clustering

def defaultIterations : Nat := 25

/-- A mean movement below `1e-6` ends the turns. -/
def movementTolerance : Binary32 := ⟨0x358637bd⟩

def assign (metric : Metric) (vectors centroids : List Vec) : List Nat :=
  vectors.map fun v ↦ (nearestCentroid metric centroids v).1

/-- The points assigned to a cluster, in input order. -/
def members (vectors : List Vec) (assignments : List Nat) (cluster : Nat) : List Vec :=
  ((vectors.zip assignments).filter (·.2 = cluster)).map (·.1)

/-- The scaled sum of a cluster's points, which starts from zeros. -/
def mean (metric : Metric) (dimension : Nat) (points : List Vec) : Vec :=
  let sum := points.foldl Vec.add (List.replicate dimension .zero)
  let inverse := Binary32.one / .ofNat points.length
  metric.prepare (sum.map (· * inverse))

/-- Positions that may reseed an empty cluster: not used yet and farther than `epsilon` from the
centroid they are assigned to. -/
def candidates (metric : Metric) (vectors : List Vec) (assignments : List Nat)
    (previous : List Vec) (taken : List Nat) : List (Nat × Binary32) :=
  ((vectors.zip assignments).zipIdx.map fun ((v, cluster), position) ↦
      (position, metric.distance v (previous.getD cluster []))).filter
    fun (position, distance) ↦ !taken.contains position && decide (Vec.epsilon < distance)

/-- The first of the farthest. -/
def farthest : List (Nat × Binary32) → Option Nat
  | [] => none
  | first :: rest =>
    some (rest.foldl (fun best next ↦
      if best.2.totalRank < next.2.totalRank then next else best) first).1

/-- The centroids of the clusters from `cluster` on, given the positions used for reseeding. -/
def updateFrom (metric : Metric) (vectors : List Vec) (assignments : List Nat)
    (previous : List Vec) (dimension : Nat) : List Vec → Nat → List Nat → List Vec
  | [], _, _ => []
  | kept :: rest, cluster, taken =>
    match members vectors assignments cluster with
    | [] =>
      match farthest (candidates metric vectors assignments previous taken) with
      | some position =>
        metric.prepare (vectors.getD position []) ::
          updateFrom metric vectors assignments previous dimension rest (cluster + 1)
            (taken ++ [position])
      | none =>
        kept :: updateFrom metric vectors assignments previous dimension rest (cluster + 1) taken
    | points =>
      mean metric dimension points ::
        updateFrom metric vectors assignments previous dimension rest (cluster + 1) taken

def update (metric : Metric) (vectors : List Vec) (assignments : List Nat) (previous : List Vec) :
    List Vec :=
  updateFrom metric vectors assignments previous (vectors.headD []).length previous 0 []

/-- The mean distance between old and new centroids. -/
def movement (metric : Metric) (old new : List Vec) : Binary32 :=
  .sum (List.zipWith metric.distance old new) / .ofNat old.length

/-- One turn, and whether it was the last. -/
def turn (metric : Metric) (vectors : List Vec) (current : Clustering) : Clustering × Bool :=
  let centroids := update metric vectors current.assignments current.centroids
  let moved := movement metric current.centroids centroids
  let assignments := assign metric vectors centroids
  (⟨centroids, assignments, current.iterations + 1⟩,
    assignments = current.assignments || decide (moved < movementTolerance))

def turns (metric : Metric) (vectors : List Vec) : Nat → Clustering → Clustering
  | 0, current => current
  | count + 1, current =>
    match turn metric vectors current with
    | (next, true) => next
    | (next, false) => turns metric vectors count next

end Clustering

/-- Clusters `vectors` into at most `k` clusters, taking at least one turn. -/
def kmeans (metric : Metric) (k : Nat) (seed : UInt64) (maxIterations : Nat) (vectors : List Vec) :
    Except ClusteringError Clustering :=
  match vectors with
  | [] => .error .emptyVectorSet
  | first :: _ =>
    if k = 0 ∨ vectors.length < k then .error (.invalidClusterCount k)
    else if first.length = 0 ∨ vectors.any (·.length ≠ first.length) then .error .dimensionMismatch
    else
      let centroids := Seeding.centroids metric vectors k (.ofSeed seed)
      let start := ⟨centroids, Clustering.assign metric vectors centroids, 0⟩
      .ok (Clustering.turns metric vectors (max 1 maxIterations) start)

end VectorIndex
