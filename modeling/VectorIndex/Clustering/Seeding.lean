import VectorIndex.Clustering.Metric
import VectorIndex.Random.KeyStream

/-!
# Drawing the first centroids

The first centroid is a point drawn evenly. Each later one is drawn with a probability that
grows with the distance to the centroids drawn so far, until enough are drawn or every point
coincides with one. Positions are drawn, and centroids are the points at them.
-/

namespace VectorIndex.Seeding

/-- A point of a weight of `1e-12` or less is covered already. -/
def weightFloor : Binary64 := ⟨0x3d719799812dea11⟩

structure State where
  /-- In the order drawn. -/
  positions : List Nat
  weights : List Binary64
  stream : KeyStream

/-- The weights that the centroid at `v` leaves to the points. -/
def weightsTo (metric : Metric) (vectors : List Vec) (v : Vec) : List Binary64 :=
  vectors.map fun point ↦ metric.seedingWeight (metric.distance point v)

def centroidAt (metric : Metric) (vectors : List Vec) (position : Nat) : Vec :=
  metric.prepare (vectors.getD position [])

def start (metric : Metric) (vectors : List Vec) (stream : KeyStream) : State :=
  let (first, stream) := stream.below vectors.length
  let weights := weightsTo metric vectors (centroidAt metric vectors first)
  ⟨[first], weights.set first .zero, stream⟩

/-- The position at which the running sum of the uncovered weights reaches `target`, or the last
uncovered one. -/
def pick (target : Binary64) (weights : List Binary64) : Option Nat :=
  go 0 .zero none weights
where
  go (position : Nat) (reached : Binary64) (last : Option Nat) : List Binary64 → Option Nat
    | [] => last
    | weight :: rest =>
      if weight ≤ weightFloor then go (position + 1) reached last rest
      else if target ≤ reached + weight then some position
      else go (position + 1) (reached + weight) (some position) rest

def total (weights : List Binary64) : Binary64 := .sum (weights.filter fun w ↦ weightFloor < w)

/-- Draws one more position, if a point is left that is not covered. -/
def step (metric : Metric) (vectors : List Vec) (state : State) : Option State :=
  let total := total state.weights
  if total ≤ weightFloor then none
  else
    let (fraction, stream) := state.stream.fraction
    (pick (fraction * total) state.weights).map fun position ↦
      let offered := weightsTo metric vectors (centroidAt metric vectors position)
      let weights := List.zipWith (fun offer kept ↦ if offer < kept then offer else kept)
        offered state.weights
      ⟨state.positions ++ [position], weights.set position .zero, stream⟩

def run (metric : Metric) (vectors : List Vec) : Nat → State → State
  | 0, state => state
  | count + 1, state =>
    match step metric vectors state with
    | some state => run metric vectors count state
    | none => state

/-- The positions of at most `k` centroids. -/
def positions (metric : Metric) (vectors : List Vec) (k : Nat) (stream : KeyStream) : List Nat :=
  (run metric vectors (k - 1) (start metric vectors stream)).positions

def centroids (metric : Metric) (vectors : List Vec) (k : Nat) (stream : KeyStream) : List Vec :=
  (positions metric vectors k stream).map (centroidAt metric vectors)

end VectorIndex.Seeding
