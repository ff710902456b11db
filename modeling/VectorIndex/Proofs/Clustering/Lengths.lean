import VectorIndex.Clustering.Lloyd

/-!
# What clustering gives

Clustering into `k` clusters gives at least one centroid and at most `k`: one is drawn in any case
and no more than `k` are, and a turn moves centroids without adding or removing any. What is drawn
are positions of points. Where all points have one length so have the centroids, before the first
turn and after every turn, and each point has one of the centroids.
-/

namespace VectorIndex

/-! ## The best of some values -/

theorem firstBest.go_lt {better : Binary32 → Binary32 → Bool} {values : List Binary32}
    {position count : Nat} {best : Nat × Binary32} (hbest : best.1 < count)
    (hcount : position + values.length ≤ count) : (go better position best values).1 < count := by
  induction values generalizing position best with
  | nil => exact hbest
  | cons value rest ih =>
    rw [List.length_cons] at hcount
    rw [go]
    apply ih _ (by omega)
    split
    · show position < count
      omega
    · exact hbest

/-- The best of some items has one of their positions. -/
theorem firstBest_map_lt {α : Type} {better : Binary32 → Binary32 → Bool} {start : Binary32}
    {value : α → Binary32} {items : List α} (hne : items ≠ []) :
    (firstBest better start (items.map value)).1 < items.length := by
  apply firstBest.go_lt (List.length_pos_iff.mpr hne)
  exact Nat.le_of_eq ((Nat.zero_add _).trans (List.length_map _))

/-! ## Draws -/

/-- A draw is below its bound. The second word carries into the result only where the first leaves
room for one more. -/
theorem KeyStream.below_lt {bound : Nat} (hbound : 0 < bound) (stream : KeyStream) :
    (stream.below bound).1 < bound := by
  have hfirst := stream.word.1.toNat_lt
  have hproduct : stream.word.1.toNat * bound ≤ 0xffffffff * bound :=
    Nat.mul_le_mul_right _ (by omega)
  have hcarry (word : UInt32) : word.toNat * bound / 0x100000000 < bound := by
    have hword : word.toNat * bound < 0x100000000 * bound :=
      Nat.mul_lt_mul_of_pos_right word.toNat_lt hbound
    omega
  have hsecond := hcarry stream.word.2.word.1
  unfold below
  dsimp only
  split
  · dsimp only
    split <;> omega
  · dsimp only
    omega

/-! ## How many centroids clustering gives -/

namespace Seeding

variable {metric : Metric} {vectors : List Vec}

/-- A step adds the position that is picked, lowers the weights to what its centroid offers and
leaves the position no weight. -/
theorem exists_of_step {state next : State} (hstep : step metric vectors state = some next) :
    ∃ position, pick (state.stream.fraction.1 * total state.weights) state.weights = some position ∧
      next.positions = state.positions ++ [position] ∧
      next.weights = (List.zipWith (fun offer kept ↦ if offer < kept then offer else kept)
        (weightsTo metric vectors (centroidAt metric vectors position)) state.weights).set
          position .zero := by
  unfold step at hstep
  by_cases htotal : total state.weights ≤ weightFloor
  · rw [if_pos htotal] at hstep
    cases hstep
  · rw [if_neg htotal] at hstep
    obtain ⟨position, hpick, rfl⟩ := Option.map_eq_some_iff.mp hstep
    exact ⟨position, hpick, rfl, rfl⟩

theorem length_positions_step {state next : State} (hstep : step metric vectors state = some next) :
    next.positions.length = state.positions.length + 1 := by
  obtain ⟨position, -, hpositions, -⟩ := exists_of_step hstep
  rw [hpositions, List.length_append, List.length_singleton]

theorem length_positions_run (metric : Metric) (vectors : List Vec) (count : Nat) (state : State) :
    state.positions.length ≤ (run metric vectors count state).positions.length ∧
      (run metric vectors count state).positions.length ≤ state.positions.length + count := by
  induction count generalizing state with
  | zero => exact ⟨Nat.le_refl _, Nat.le_refl _⟩
  | succ count ih =>
    rw [run]
    split
    · next next hstep =>
      have hlater := ih next
      rw [length_positions_step hstep] at hlater
      omega
    · exact ⟨Nat.le_refl _, Nat.le_add_right _ _⟩

theorem length_centroids {k : Nat} (hk : 0 < k) (stream : KeyStream) :
    0 < (centroids metric vectors k stream).length ∧
      (centroids metric vectors k stream).length ≤ k := by
  have hrun := length_positions_run metric vectors (k - 1) (start metric vectors stream)
  have hstart : (start metric vectors stream).positions.length = 1 := rfl
  rw [centroids, List.length_map, positions]
  omega

end Seeding

namespace Clustering

variable {metric : Metric} {vectors : List Vec}

theorem length_updateFrom (assignments : List Nat) (previous : List Vec) (dimension : Nat)
    (kept : List Vec) (cluster : Nat) (taken : List Nat) :
    (updateFrom metric vectors assignments previous dimension kept cluster taken).length =
      kept.length := by
  induction kept generalizing cluster taken with
  | nil => rfl
  | cons centroid rest ih =>
    rw [updateFrom]
    split
    · split
      · rw [List.length_cons, ih, List.length_cons]
      · rw [List.length_cons, ih, List.length_cons]
    · rw [List.length_cons, ih, List.length_cons]

theorem length_turn (metric : Metric) (vectors : List Vec) (current : Clustering) :
    (turn metric vectors current).1.centroids.length = current.centroids.length :=
  length_updateFrom ..

/-- What every turn keeps holds after any number of turns. -/
theorem turns_keep (holds : Clustering → Prop)
    (hturn : ∀ current, holds current → holds (turn metric vectors current).1) (count : Nat)
    {current : Clustering} (hcurrent : holds current) :
    holds (turns metric vectors count current) := by
  induction count generalizing current with
  | zero => exact hcurrent
  | succ count ih =>
    have hnext := hturn current hcurrent
    rw [turns]
    split
    · next next heq =>
      rw [heq] at hnext
      exact hnext
    · next next heq =>
      rw [heq] at hnext
      exact ih hnext

theorem length_turns (count : Nat) (current : Clustering) :
    (turns metric vectors count current).centroids.length = current.centroids.length :=
  turns_keep (fun later ↦ later.centroids.length = current.centroids.length)
    (fun _ ↦ (length_turn metric vectors _).trans) count rfl

/-- The centroids that are drawn, and the nearest of them for every point. -/
def drawn (metric : Metric) (vectors : List Vec) (k : Nat) (seed : UInt64) : Clustering :=
  let centroids := Seeding.centroids metric vectors k (.ofSeed seed)
  ⟨centroids, assign metric vectors centroids, 0⟩

end Clustering

/-- Points of one positive length are clustered, into at most as many clusters as there are points,
and nothing else is. -/
theorem kmeans_eq_ok {metric : Metric} {k : Nat} {seed : UInt64} {maxIterations : Nat}
    {vectors : List Vec} {clustering : Clustering} :
    kmeans metric k seed maxIterations vectors = .ok clustering ↔
      0 < k ∧ k ≤ vectors.length ∧ (∃ width, 0 < width ∧ ∀ v ∈ vectors, v.length = width) ∧
        Clustering.turns metric vectors (max 1 maxIterations)
          (.drawn metric vectors k seed) = clustering := by
  cases vectors with
  | nil => exact iff_of_false nofun fun ⟨hk, hle, _⟩ ↦ Nat.not_le_of_lt hk hle
  | cons first rest =>
    have haccepted : ¬(first.length = 0 ∨ (first :: rest).any (·.length ≠ first.length) = true) ↔
        ∃ width, 0 < width ∧ ∀ v ∈ first :: rest, v.length = width := by
      rw [not_or, List.any_eq_true]
      constructor
      · rintro ⟨hfirst, hnone⟩
        refine ⟨first.length, Nat.pos_of_ne_zero hfirst, fun v hv ↦ ?_⟩
        exact Decidable.of_not_not fun hother ↦ hnone ⟨v, hv, decide_eq_true hother⟩
      · rintro ⟨width, hwidth, hlengths⟩
        have hfirst := hlengths first List.mem_cons_self
        refine ⟨by omega, fun ⟨v, hv, hother⟩ ↦ ?_⟩
        exact of_decide_eq_true hother ((hlengths v hv).trans hfirst.symm)
    unfold kmeans
    dsimp only
    split
    · next hcount => exact iff_of_false nofun fun ⟨hk, hle, _⟩ ↦ by omega
    · next hcount =>
      split
      · next hrefused => exact iff_of_false nofun fun hok ↦ haccepted.mpr hok.2.2.1 hrefused
      · next hlengths =>
        rw [Except.ok.injEq]
        exact ⟨fun heq ↦ ⟨by omega, by omega, haccepted.mp hlengths, heq⟩, fun hok ↦ hok.2.2.2⟩

theorem length_kmeans {metric : Metric} {k : Nat} {seed : UInt64} {maxIterations : Nat}
    {vectors : List Vec} {clustering : Clustering}
    (hkmeans : kmeans metric k seed maxIterations vectors = .ok clustering) :
    0 < clustering.centroids.length ∧ clustering.centroids.length ≤ k := by
  obtain ⟨hk, -, -, rfl⟩ := kmeans_eq_ok.mp hkmeans
  rw [Clustering.length_turns]
  exact Seeding.length_centroids hk _

/-! ## Which points are drawn -/

namespace Seeding

variable {metric : Metric} {vectors : List Vec}

/-- Whatever holds of the uncovered positions, and of the one that is held, holds of what is
picked. -/
theorem pick.go_open (holds : Nat → Prop) {target reached : Binary64} {last : Option Nat}
    {weights : List Binary64} {position drawn : Nat}
    (hlast : ∀ earlier, last = some earlier → holds earlier)
    (hopen : ∀ i weight, weights[i]? = some weight → ¬weight ≤ weightFloor → holds (position + i))
    (hpick : go target position reached last weights = some drawn) : holds drawn := by
  induction weights generalizing position reached last with
  | nil => exact hlast drawn hpick
  | cons weight rest ih =>
    have hrest : ∀ i later, rest[i]? = some later → ¬later ≤ weightFloor →
        holds (position + 1 + i) := fun i later hlater ↦ by
      rw [Nat.add_assoc, Nat.add_comm 1]
      exact hopen (i + 1) later hlater
    rw [go] at hpick
    split at hpick
    · exact ih hlast hrest hpick
    · next huncovered =>
      have hposition : holds position := hopen 0 weight rfl huncovered
      split at hpick
      · exact Option.some.inj hpick ▸ hposition
      · exact ih (fun _ hearlier ↦ Option.some.inj hearlier ▸ hposition) hrest hpick

/-- A position that is picked has a weight, and is not covered. -/
theorem pick_open {target : Binary64} {weights : List Binary64} {position : Nat}
    (hpick : pick target weights = some position) :
    ∃ weight, weights[position]? = some weight ∧ ¬weight ≤ weightFloor := by
  refine pick.go_open (∃ weight, weights[·]? = some weight ∧ ¬weight ≤ weightFloor)
    (fun earlier hearlier ↦ ?_) (fun i weight hweight huncovered ↦ ?_) hpick
  · cases hearlier
  · rw [Nat.zero_add]
    exact ⟨weight, hweight, huncovered⟩

/-- A position is drawn among the weights. -/
theorem pick_lt {target : Binary64} {weights : List Binary64} {position : Nat}
    (hpick : pick target weights = some position) : position < weights.length := by
  obtain ⟨weight, hweight, -⟩ := pick_open hpick
  exact (List.getElem?_eq_some_iff.mp hweight).1

/-- The positions are those of points, and every point has a weight. -/
structure State.Fits (vectors : List Vec) (state : State) : Prop where
  positions : ∀ position ∈ state.positions, position < vectors.length
  weights : state.weights.length = vectors.length

theorem length_weightsTo (metric : Metric) (vectors : List Vec) (v : Vec) :
    (weightsTo metric vectors v).length = vectors.length := List.length_map _

theorem fits_start (metric : Metric) (hne : vectors ≠ []) (stream : KeyStream) :
    (start metric vectors stream).Fits vectors := by
  have hfirst := KeyStream.below_lt (List.length_pos_iff.mpr hne) stream
  refine ⟨fun position hposition ↦ ?_, ?_⟩
  · obtain rfl := List.mem_singleton.mp hposition
    exact hfirst
  · exact (List.length_set ..).trans (length_weightsTo ..)

theorem State.Fits.step {state next : State} (hfits : state.Fits vectors)
    (hstep : Seeding.step metric vectors state = some next) : next.Fits vectors := by
  obtain ⟨position, hpick, hpositions, hweights⟩ := exists_of_step hstep
  refine ⟨fun drawn hdrawn ↦ ?_, ?_⟩
  · rw [hpositions] at hdrawn
    rcases List.mem_append.mp hdrawn with hearlier | hlast
    · exact hfits.positions drawn hearlier
    · obtain rfl := List.mem_singleton.mp hlast
      exact hfits.weights ▸ pick_lt hpick
  · rw [hweights, List.length_set, List.length_zipWith, length_weightsTo, hfits.weights,
      Nat.min_self]

theorem State.Fits.run {state : State} (hfits : state.Fits vectors) (count : Nat) :
    (Seeding.run metric vectors count state).Fits vectors := by
  induction count generalizing state with
  | zero => exact hfits
  | succ count ih =>
    rw [Seeding.run]
    split
    · next next hstep => exact ih (hfits.step hstep)
    · exact hfits

theorem lt_of_mem_positions (hne : vectors ≠ []) {k : Nat} {stream : KeyStream} {position : Nat}
    (hposition : position ∈ positions metric vectors k stream) : position < vectors.length :=
  ((fits_start metric hne stream).run (k - 1)).positions position hposition

variable {width : Nat} (hvectors : ∀ v ∈ vectors, v.length = width)
include hvectors

theorem length_centroidAt (metric : Metric) {position : Nat}
    (hposition : position < vectors.length) :
    (centroidAt metric vectors position).length = width := by
  rw [centroidAt, Metric.length_prepare, List.getD_eq_getElem?_getD,
    List.getElem?_eq_getElem hposition]
  exact hvectors _ (List.getElem_mem hposition)

theorem length_of_mem_centroids (hne : vectors ≠ []) {k : Nat} {stream : KeyStream} {c : Vec}
    (hc : c ∈ centroids metric vectors k stream) : c.length = width := by
  obtain ⟨position, hposition, rfl⟩ := List.mem_map.mp hc
  exact length_centroidAt hvectors metric (lt_of_mem_positions hne hposition)

end Seeding

/-! ## What a turn keeps -/

namespace Clustering

variable {metric : Metric} {vectors : List Vec} {width : Nat}

/-- The centroids have a length, there is at least one, and every point has one of them. -/
structure Fits (vectors : List Vec) (width : Nat) (clustering : Clustering) : Prop where
  centroids_ne_nil : clustering.centroids ≠ []
  length_centroid : ∀ c ∈ clustering.centroids, c.length = width
  length_assignments : clustering.assignments.length = vectors.length
  assignments_lt : ∀ cluster ∈ clustering.assignments, cluster < clustering.centroids.length

theorem fits_assign {centroids : List Vec} (hne : centroids ≠ [])
    (hlengths : ∀ c ∈ centroids, c.length = width) (iterations : Nat) :
    Fits vectors width ⟨centroids, assign metric vectors centroids, iterations⟩ := by
  refine ⟨hne, hlengths, List.length_map _, fun cluster hcluster ↦ ?_⟩
  obtain ⟨v, -, rfl⟩ := List.mem_map.mp hcluster
  exact firstBest_map_lt hne

/-- Every point has one of the centroids that were drawn. -/
theorem fits_drawn (hvectors : ∀ v ∈ vectors, v.length = width) (metric : Metric)
    (hne : vectors ≠ []) {k : Nat} (hk : 0 < k) (seed : UInt64) :
    (drawn metric vectors k seed).Fits vectors width := by
  have hdrawn : 0 < (Seeding.centroids metric vectors k (.ofSeed seed)).length :=
    (Seeding.length_centroids hk _).1
  exact fits_assign (List.ne_nil_of_length_pos hdrawn)
    (fun c ↦ Seeding.length_of_mem_centroids hvectors hne) 0

theorem length_foldl_add {points : List Vec} (hpoints : ∀ v ∈ points, v.length = width) {sum : Vec}
    (hsum : sum.length = width) : (points.foldl Vec.add sum).length = width := by
  induction points generalizing sum with
  | nil => exact hsum
  | cons v rest ih =>
    obtain ⟨hv, hrest⟩ := List.forall_mem_cons.mp hpoints
    exact ih hrest (by rw [Vec.length_add, hsum, hv, Nat.min_self])

theorem length_mean {points : List Vec} (hpoints : ∀ v ∈ points, v.length = width) :
    (mean metric width points).length = width := by
  rw [mean, Metric.length_prepare, List.length_map]
  exact length_foldl_add hpoints (List.length_replicate ..)

theorem foldl_farther_mem (rest : List (Nat × Binary32)) (best : Nat × Binary32) :
    rest.foldl (fun best next ↦ if best.2.totalRank < next.2.totalRank then next else best) best ∈
      best :: rest := by
  induction rest generalizing best with
  | nil => exact List.mem_singleton_self best
  | cons next rest ih =>
    rw [List.foldl_cons]
    split
    · exact List.mem_cons_of_mem _ (ih next)
    · rcases List.mem_cons.mp (ih best) with hbest | hrest
      · exact List.mem_cons.mpr (.inl hbest)
      · exact List.mem_cons_of_mem _ (List.mem_cons_of_mem _ hrest)

/-- The farthest of some candidates is one of them. -/
theorem exists_of_farthest {found : List (Nat × Binary32)} {position : Nat}
    (hfarthest : farthest found = some position) : ∃ distance, (position, distance) ∈ found := by
  cases found with
  | nil => cases hfarthest
  | cons first rest =>
    obtain rfl := Option.some.inj hfarthest
    exact ⟨_, foldl_farther_mem rest first⟩

theorem lt_of_mem_candidates {assignments : List Nat} {previous : List Vec} {taken : List Nat}
    {position : Nat} {distance : Binary32}
    (hmem : (position, distance) ∈ candidates metric vectors assignments previous taken) :
    position < vectors.length := by
  obtain ⟨⟨⟨v, cluster⟩, found⟩, hfound, hpair⟩ := List.mem_map.mp (List.mem_filter.mp hmem).1
  obtain rfl : found = position := congrArg Prod.fst hpair
  have hlt := (List.mem_zipIdx' hfound).1
  rw [List.length_zip] at hlt
  omega

theorem mem_of_mem_members {assignments : List Nat} {cluster : Nat} {v : Vec}
    (hv : v ∈ members vectors assignments cluster) : v ∈ vectors := by
  obtain ⟨pair, hpair, rfl⟩ := List.mem_map.mp hv
  exact (List.of_mem_zip (List.mem_filter.mp hpair).1).1

variable (hvectors : ∀ v ∈ vectors, v.length = width)
include hvectors

/-- Centroids are means, points, or stay as they are. -/
theorem length_of_mem_updateFrom (assignments : List Nat) (previous : List Vec) {kept : List Vec}
    (hkept : ∀ c ∈ kept, c.length = width) (cluster : Nat) (taken : List Nat) :
    ∀ c ∈ updateFrom metric vectors assignments previous width kept cluster taken,
      c.length = width := by
  induction kept generalizing cluster taken with
  | nil => exact nofun
  | cons centroid rest ih =>
    obtain ⟨hcentroid, hrest⟩ := List.forall_mem_cons.mp hkept
    rw [updateFrom]
    split
    · split
      · next position hfarthest =>
        obtain ⟨distance, hmem⟩ := exists_of_farthest hfarthest
        exact List.forall_mem_cons.mpr
          ⟨Seeding.length_centroidAt hvectors metric (lt_of_mem_candidates hmem), ih hrest _ _⟩
      · exact List.forall_mem_cons.mpr ⟨hcentroid, ih hrest _ _⟩
    · exact List.forall_mem_cons.mpr
        ⟨length_mean fun v hv ↦ hvectors v (mem_of_mem_members hv), ih hrest _ _⟩

/-- What is moved is as long as the points are. -/
theorem update_eq_updateFrom (metric : Metric) (hne : vectors ≠ []) (assignments : List Nat)
    (previous : List Vec) : update metric vectors assignments previous =
      updateFrom metric vectors assignments previous width previous 0 [] := by
  obtain ⟨first, rest, rfl⟩ := List.exists_cons_of_ne_nil hne
  rw [update, List.headD_cons, hvectors first List.mem_cons_self]

theorem length_of_mem_update (hne : vectors ≠ []) (assignments : List Nat) {previous : List Vec}
    (hprevious : ∀ c ∈ previous, c.length = width) :
    ∀ c ∈ update metric vectors assignments previous, c.length = width := by
  rw [update_eq_updateFrom hvectors metric hne]
  exact length_of_mem_updateFrom hvectors _ _ hprevious 0 []

theorem Fits.update (metric : Metric) {current : Clustering} (hne : vectors ≠ [])
    (hfits : current.Fits vectors width) :
    Clustering.update metric vectors current.assignments current.centroids ≠ [] ∧
      ∀ c ∈ Clustering.update metric vectors current.assignments current.centroids,
        c.length = width := by
  refine ⟨List.ne_nil_of_length_pos ?_,
    length_of_mem_update hvectors hne _ hfits.length_centroid⟩
  rw [Clustering.update, length_updateFrom]
  exact List.length_pos_iff.mpr hfits.centroids_ne_nil

theorem Fits.turn (metric : Metric) {current : Clustering} (hne : vectors ≠ [])
    (hfits : current.Fits vectors width) :
    (Clustering.turn metric vectors current).1.Fits vectors width := by
  obtain ⟨hupdated, hlengths⟩ := hfits.update hvectors metric hne
  exact fits_assign hupdated hlengths _

theorem Fits.turns {current : Clustering} (hne : vectors ≠ []) (hfits : current.Fits vectors width)
    (count : Nat) : (Clustering.turns metric vectors count current).Fits vectors width :=
  turns_keep (·.Fits vectors width) (fun _ hcurrent ↦ hcurrent.turn hvectors metric hne) count hfits

end Clustering

/-! ## Clustering as a whole -/

/-- Points of one positive length are clustered, into as many clusters as there are points or
fewer. -/
theorem exists_of_kmeans (metric : Metric) {k : Nat} {vectors : List Vec} {width : Nat}
    (hk : 0 < k) (hle : k ≤ vectors.length) (hwidth : 0 < width)
    (hvectors : ∀ v ∈ vectors, v.length = width) (seed : UInt64) (maxIterations : Nat) :
    ∃ clustering, kmeans metric k seed maxIterations vectors = .ok clustering :=
  ⟨_, kmeans_eq_ok.mpr ⟨hk, hle, ⟨width, hwidth, hvectors⟩, rfl⟩⟩

/-- A clustering of points of one length has centroids of that length. -/
theorem fits_of_kmeans {metric : Metric} {k : Nat} {seed : UInt64} {maxIterations : Nat}
    {vectors : List Vec} {width : Nat} (hvectors : ∀ v ∈ vectors, v.length = width)
    {clustering : Clustering}
    (hkmeans : kmeans metric k seed maxIterations vectors = .ok clustering) :
    clustering.Fits vectors width := by
  obtain ⟨hk, hle, -, rfl⟩ := kmeans_eq_ok.mp hkmeans
  have hne : vectors ≠ [] := List.ne_nil_of_length_pos (Nat.lt_of_lt_of_le hk hle)
  exact (Clustering.fits_drawn hvectors metric hne hk seed).turns hvectors hne _

end VectorIndex
