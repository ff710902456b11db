import VectorIndex.Clustering.Metric

/-!
# The first of the best

A scan that takes what is better than what it holds ends with the first of the best items, whatever
the items are. What is no number is never better than a number, so it counts as the worst there is:
a distance that is no number is as far as infinity, a product that is none falls as far short.
-/

namespace VectorIndex

namespace Binary32

theorem lt_iff {x y : Binary32} : x < y ↔ ¬ x.isNaN ∧ ¬ y.isNaN ∧ x.rank < y.rank := by
  show x.lt y = true ↔ _
  simp [lt, and_assoc]

/-- Numbers lie between the infinities. -/
theorem rank_le_infinity {x : Binary32} (hx : ¬ x.isNaN) :
    -infinity.rank ≤ x.rank ∧ x.rank ≤ infinity.rank := by
  have hmagnitude : x.magnitude.toNat ≤ 0x7f800000 := by
    simpa [isNaN, UInt32.lt_iff_toNat_lt] using hx
  have hinfinity : infinity.rank = 0x7f800000 := by decide
  rw [hinfinity]
  unfold rank
  split <;> omega

/-- The place of a distance among the distances, nearer ones first. -/
def remoteness (distance : Binary32) : Int :=
  if distance.isNaN then infinity.rank else distance.rank

/-- The place of a product among the products, larger ones first. -/
def shortfall (product : Binary32) : Int :=
  if product.isNaN then infinity.rank else -product.rank

end Binary32

/-- The scan that prefers what is `better` looks for the least key: a value of the greatest key is
held at the start, and where a number is held the better values are those of a lower key. -/
structure Seeks (better : Binary32 → Binary32 → Bool) (start : Binary32) (key : Binary32 → Int) :
    Prop where
  start_isNumber : ¬ start.isNaN
  key_le : ∀ value, key value ≤ key start
  isNumber : ∀ {value held}, better value held = true → ¬ value.isNaN
  better_iff : ∀ {value held : Binary32}, ¬ held.isNaN →
    (better value held = true ↔ key value < key held)

/-- Numbers are sought by their ranks, taken as they are or turned around. -/
theorem seeks_of_rank {better : Binary32 → Binary32 → Bool} {start : Binary32}
    {key : Binary32 → Int} (place : Int → Int)
    (hkey : ∀ value : Binary32,
      key value = if value.isNaN then Binary32.infinity.rank else place value.rank)
    (hplace : ∀ value : Binary32, ¬ value.isNaN → place value.rank ≤ Binary32.infinity.rank)
    (hstart : ¬ start.isNaN) (hworst : key start = Binary32.infinity.rank)
    (hbetter : ∀ value held : Binary32, better value held = true ↔
      ¬ value.isNaN ∧ ¬ held.isNaN ∧ place value.rank < place held.rank) :
    Seeks better start key := by
  have hle (value : Binary32) : key value ≤ Binary32.infinity.rank := by
    rw [hkey]
    split
    · exact Int.le_refl _
    · next hvalue => exact hplace value hvalue
  refine ⟨hstart, fun value ↦ hworst ▸ hle value, fun hprefers ↦ ((hbetter _ _).mp hprefers).1,
    fun {value held} hheld ↦ ?_⟩
  rw [hbetter]
  by_cases hvalue : value.isNaN
  · refine iff_of_false (fun hprefers ↦ hprefers.1 hvalue) (Int.not_lt.mpr ?_)
    rw [hkey value, if_pos hvalue]
    exact hle held
  · rw [hkey value, hkey held, if_neg hvalue, if_neg hheld]
    exact ⟨fun hprefers ↦ hprefers.2.2, fun hlt ↦ ⟨hvalue, hheld, hlt⟩⟩

theorem seeks_nearest : Seeks (fun a b ↦ a < b) .infinity Binary32.remoteness := by
  refine seeks_of_rank id (fun _ ↦ rfl)
    (fun value hvalue ↦ (Binary32.rank_le_infinity hvalue).2) ?_ ?_ ?_
  · decide
  · rfl
  · intro value held
    rw [decide_eq_true_iff, Binary32.lt_iff]
    rfl

theorem seeks_largest : Seeks (fun a b ↦ b < a) .negInfinity Binary32.shortfall := by
  refine seeks_of_rank (- ·) (fun _ ↦ rfl)
    (fun value hvalue ↦ Int.neg_le_of_neg_le (Binary32.rank_le_infinity hvalue).1) ?_ ?_ ?_
  · decide
  · decide
  · intro value held
    rw [decide_eq_true_iff, Binary32.lt_iff, Int.neg_lt_neg_iff]
    exact and_left_comm

/-! ## The scan -/

/-- The position of the first of the items with the least key. -/
structure IsFirstLeast {α : Type} (key : α → Int) (items : List α) (position : Nat) : Prop where
  lt : position < items.length
  least : ∀ item ∈ items, key items[position] ≤ key item
  first : ∀ other (_ : other < position), key items[position] < key items[other]

/-- What a scan holds when it has seen some values: a number, which none of the values beats and
those before its position do not equal. It is one of the values unless none was taken. -/
structure HoldsBest (key : Binary32 → Int) (start : Binary32) (seen : List Binary32)
    (held : Nat × Binary32) : Prop where
  isNumber : ¬ held.2.isNaN
  least : ∀ value ∈ seen, key held.2 ≤ key value
  first : ∀ position < held.1, ∀ value, seen[position]? = some value → key held.2 < key value
  found : held = (0, start) ∨ seen[held.1]? = some held.2

variable {better : Binary32 → Binary32 → Bool} {start : Binary32} {key : Binary32 → Int}

theorem HoldsBest.next (hseeks : Seeks better start key) {seen : List Binary32}
    {held : Nat × Binary32} (hholds : HoldsBest key start seen held) (value : Binary32) :
    HoldsBest key start (seen ++ [value])
      (if better value held.2 then (seen.length, value) else held) := by
  split
  · next hbetter =>
    have hlt := (hseeks.better_iff hholds.isNumber).mp hbetter
    refine ⟨hseeks.isNumber hbetter, fun other hother ↦ ?_, fun position hbefore other hother ↦ ?_,
      .inr (by simp)⟩
    · rcases List.mem_append.mp hother with hother | hother
      · exact Int.le_trans (Int.le_of_lt hlt) (hholds.least other hother)
      · obtain rfl := List.mem_singleton.mp hother
        exact Int.le_refl _
    · rw [List.getElem?_append_left hbefore] at hother
      exact Int.lt_of_lt_of_le hlt (hholds.least other (List.mem_of_getElem? hother))
  · next hbetter =>
    have hle := Int.not_lt.mp (mt (hseeks.better_iff hholds.isNumber).mpr hbetter)
    refine ⟨hholds.isNumber, fun other hother ↦ ?_, fun position hbefore other hother ↦ ?_, ?_⟩
    · rcases List.mem_append.mp hother with hother | hother
      · exact hholds.least other hother
      · rw [List.mem_singleton.mp hother]
        exact hle
    · rcases hholds.found with hstart | hfound
      · rw [hstart] at hbefore
        exact absurd hbefore (Nat.not_lt_zero _)
      · have hseen := (List.getElem?_eq_some_iff.mp hfound).1
        rw [List.getElem?_append_left (Nat.lt_trans hbefore hseen)] at hother
        exact hholds.first position hbefore other hother
    · refine hholds.found.imp_right fun hfound ↦ ?_
      rw [List.getElem?_append_left (List.getElem?_eq_some_iff.mp hfound).1]
      exact hfound

theorem HoldsBest.go (hseeks : Seeks better start key) {seen : List Binary32}
    {held : Nat × Binary32} (hholds : HoldsBest key start seen held) (rest : List Binary32) :
    HoldsBest key start (seen ++ rest) (firstBest.go better seen.length held rest) := by
  induction rest generalizing seen held with
  | nil => rwa [List.append_nil]
  | cons value rest ih =>
    have hnext := ih (hholds.next hseeks value)
    rwa [List.length_append, List.length_singleton, List.append_assoc] at hnext

/-- Among some items the scan finds the first with the least key. -/
theorem isFirstLeast_firstBest (hseeks : Seeks better start key) {α : Type} {value : α → Binary32}
    {items : List α} (hne : items ≠ []) :
    IsFirstLeast (fun item ↦ key (value item)) items
      (firstBest better start (items.map value)).1 := by
  have hnone : HoldsBest key start [] (0, start) :=
    ⟨hseeks.start_isNumber, nofun, nofun, .inl rfl⟩
  have hholds : HoldsBest key start (items.map value)
      (firstBest better start (items.map value)) := hnone.go hseeks (items.map value)
  generalize firstBest better start (items.map value) = held at hholds
  have hleast (item : α) (hitem : item ∈ items) : key held.2 ≤ key (value item) :=
    hholds.least _ (List.mem_map_of_mem hitem)
  rcases hholds.found with rfl | hfound
  · have hlt : 0 < items.length := List.length_pos_iff.mpr hne
    exact ⟨hlt, fun item hitem ↦ Int.le_trans (hseeks.key_le _) (hleast item hitem), nofun⟩
  · obtain ⟨item, hitem, hvalue⟩ := Option.map_eq_some_iff.mp (List.getElem?_map.symm.trans hfound)
    obtain ⟨hlt, rfl⟩ := List.getElem?_eq_some_iff.mp hitem
    refine ⟨hlt, fun item hitem ↦ hvalue ▸ hleast item hitem, fun other hother ↦ ?_⟩
    have hother' : (items.map value)[other]? = some (value items[other]) := by
      rw [List.getElem?_map, List.getElem?_eq_getElem]
      rfl
    exact hvalue ▸ hholds.first other hother _ hother'

/-- The nearest centroid is the first of those at the least distance. -/
theorem isFirstLeast_nearestCentroid (metric : Metric) {centroids : List Vec}
    (hne : centroids ≠ []) (v : Vec) :
    IsFirstLeast (fun c ↦ (metric.distance v c).remoteness) centroids
      (nearestCentroid metric centroids v).1 :=
  isFirstLeast_firstBest seeks_nearest hne

/-- The centroid of the largest product is the first of those. -/
theorem isFirstLeast_largestProduct {centroids : List Vec} (hne : centroids ≠ []) (v : Vec) :
    IsFirstLeast (fun c ↦ (v.innerProduct c).shortfall) centroids (largestProduct centroids v).1 :=
  isFirstLeast_firstBest seeks_largest hne

end VectorIndex
