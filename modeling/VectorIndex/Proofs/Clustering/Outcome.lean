import VectorIndex.Proofs.Clustering.Bounds

/-!
# The outcome of a clustering

The points are assigned anew after every move of the centroids, so whichever turn is the last, the
assignments returned are those of the centroids returned. The turns are counted, and there is at
least one of them.
-/

namespace VectorIndex

namespace Clustering

variable {metric : Metric} {vectors : List Vec}

/-- Every point is assigned to the centroid nearest to it. -/
def IsAssigned (metric : Metric) (vectors : List Vec) (clustering : Clustering) : Prop :=
  clustering.assignments = assign metric vectors clustering.centroids

theorem isAssigned_turn (current : Clustering) :
    (turn metric vectors current).1.IsAssigned metric vectors := rfl

theorem isAssigned_turns (count : Nat) {current : Clustering}
    (hcurrent : current.IsAssigned metric vectors) :
    (turns metric vectors count current).IsAssigned metric vectors :=
  turns_keep (·.IsAssigned metric vectors) (fun current _ ↦ isAssigned_turn current) count hcurrent

theorem iterations_turn (current : Clustering) :
    (turn metric vectors current).1.iterations = current.iterations + 1 := rfl

/-- There is a turn where one is allowed, and there are no more than are allowed. -/
theorem iterations_turns (metric : Metric) (vectors : List Vec) (count : Nat)
    (current : Clustering) :
    current.iterations + min count 1 ≤ (turns metric vectors count current).iterations ∧
      (turns metric vectors count current).iterations ≤ current.iterations + count := by
  induction count generalizing current with
  | zero => exact ⟨Nat.le_refl _, Nat.le_refl _⟩
  | succ count ih =>
    have hturn : (turn metric vectors current).1.iterations = current.iterations + 1 :=
      iterations_turn current
    rw [turns]
    split
    · next next heq =>
      rw [heq] at hturn
      dsimp only at hturn
      omega
    · next next heq =>
      rw [heq] at hturn
      dsimp only at hturn
      have hlater := ih next
      omega

end Clustering

/-- Points of one positive length, whatever their components are, are clustered into at least one
and at most `k` clusters, and nothing is missing on the way. The centroids have the length of the
points and are as many as were drawn, since no move of centroids changes their number. Every point
is assigned to the centroid that is nearest to it among those returned, after one turn at least and
no more turns than are allowed. -/
theorem exists_kmeans_assigned (metric : Metric) {k : Nat} {vectors : List Vec} {width : Nat}
    (hk : 0 < k) (hle : k ≤ vectors.length) (hwidth : 0 < width)
    (hvectors : ∀ v ∈ vectors, v.length = width) (seed : UInt64) {maxIterations : Nat}
    (hiterations : 0 < maxIterations) :
    ∃ clustering, kmeans metric k seed maxIterations vectors = .ok clustering ∧
      kmeans? metric k seed maxIterations vectors = some (.ok clustering) ∧
      (0 < clustering.centroids.length ∧ clustering.centroids.length ≤ k) ∧
      (∀ c ∈ clustering.centroids, c.length = width) ∧
      clustering.assignments =
        vectors.map (fun v ↦ (nearestCentroid metric clustering.centroids v).1) ∧
      (∀ cluster ∈ clustering.assignments, cluster < clustering.centroids.length) ∧
      (0 < clustering.iterations ∧ clustering.iterations ≤ maxIterations) ∧
      clustering.centroids.length = (Seeding.centroids metric vectors k (.ofSeed seed)).length ∧
      ∀ assignments previous,
        (Clustering.update metric vectors assignments previous).length = previous.length := by
  obtain ⟨clustering, hkmeans⟩ :=
    exists_of_kmeans metric hk hle hwidth hvectors seed maxIterations
  have hfits := fits_of_kmeans hvectors hkmeans
  obtain ⟨-, -, -, hturns⟩ := kmeans_eq_ok.mp hkmeans
  rw [Nat.max_eq_right hiterations] at hturns
  refine ⟨clustering, hkmeans, ?_, length_kmeans hkmeans, hfits.length_centroid, ?_,
    hfits.assignments_lt, ?_, ?_, fun assignments previous ↦ Clustering.length_updateFrom ..⟩
  · rw [kmeans?_eq, hkmeans]
  · rw [← hturns]
    exact Clustering.isAssigned_turns maxIterations rfl
  · have hcounted := Clustering.iterations_turns metric vectors maxIterations
      (.drawn metric vectors k seed)
    have hstart : (Clustering.drawn metric vectors k seed).iterations = 0 := rfl
    rw [← hturns]
    omega
  · rw [← hturns, Clustering.length_turns]
    rfl

/-- A point that is no number, one at infinity, and one. -/
def wildPoints : List Vec := [[⟨0x7fc00000⟩], [.infinity], [.one]]

/-- Such points are clustered like any others. -/
theorem exists_kmeans_assigned_wild :
    (2 ≤ wildPoints.length ∧ ∀ v ∈ wildPoints, v.length = 1) ∧
      ∃ clustering, kmeans .squaredEuclidean 2 7 3 wildPoints = .ok clustering ∧
        0 < clustering.centroids.length ∧ clustering.centroids.length ≤ 2 ∧
        clustering.assignments = wildPoints.map
          (fun v ↦ (nearestCentroid .squaredEuclidean clustering.centroids v).1) ∧
        0 < clustering.iterations ∧ clustering.iterations ≤ 3 := by
  have hcount : 2 ≤ wildPoints.length := by decide
  have hlengths : ∀ v ∈ wildPoints, v.length = 1 := by decide
  obtain ⟨clustering, hkmeans, -, ⟨hsome, hfew⟩, -, hassigned, -, ⟨hturn, hturns⟩, -, -⟩ :=
    exists_kmeans_assigned .squaredEuclidean Nat.two_pos hcount Nat.one_pos hlengths 7
      (Nat.succ_pos 2)
  exact ⟨⟨hcount, hlengths⟩, clustering, hkmeans, hsome, hfew, hassigned, hturn, hturns⟩

end VectorIndex
