import VectorIndex.Vector.Basic
import VectorIndex.Numeric.Binary64

/-!
# Nearness to a centroid

Two measures: inner products of unit vectors and squared Euclidean distance. Ties go to the
lowest index, and a distance that is not a number never wins.
-/

namespace VectorIndex

inductive Metric where
  /-- Larger inner products are nearer; centroids are kept at unit length. -/
  | innerProduct
  | squaredEuclidean
  deriving DecidableEq

namespace Metric

/-- Smaller is nearer. -/
def distance : Metric → Vec → Vec → Binary32
  | innerProduct, a, b => (.one - a.innerProduct b).clampNegative
  | squaredEuclidean, a, b => a.squaredDistance b

/-- The share of a point at a distance when the next centroid is drawn. -/
def seedingWeight : Metric → Binary32 → Binary64
  | innerProduct, d => .ofBinary32 d * .ofBinary32 d
  | squaredEuclidean, d => .ofBinary32 d

/-- What a point becomes when it is made a centroid. -/
def prepare : Metric → Vec → Vec
  | innerProduct, v => v.normalize
  | squaredEuclidean, v => v

@[simp] theorem length_prepare (metric : Metric) (v : Vec) :
    (metric.prepare v).length = v.length := by cases metric <;> simp [prepare]

end Metric

/-- The first position whose value improves on all values before it and on `start`, with that
value; position zero and `start` when none does. -/
def firstBest (better : Binary32 → Binary32 → Bool) (start : Binary32) (values : List Binary32) :
    Nat × Binary32 :=
  go 0 (0, start) values
where
  go (position : Nat) (best : Nat × Binary32) : List Binary32 → Nat × Binary32
    | [] => best
    | value :: rest =>
      go (position + 1) (if better value best.2 then (position, value) else best) rest

/-- The nearest centroid and its distance. -/
def nearestCentroid (metric : Metric) (centroids : List Vec) (v : Vec) : Nat × Binary32 :=
  firstBest (fun a b ↦ a < b) .infinity (centroids.map (metric.distance v))

/-- The centroid with the largest inner product, and that product. -/
def largestProduct (centroids : List Vec) (v : Vec) : Nat × Binary32 :=
  firstBest (fun a b ↦ b < a) .negInfinity (centroids.map v.innerProduct)

end VectorIndex
