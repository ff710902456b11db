import Mathlib.Data.List.Infix
import Mathlib.Data.List.Sort
import VectorIndex.Proofs.Search.Ranking

/-!
# Hits of more cells

Visiting more cells puts further hits into the ranking of the old ones, which can only move back: at
every place of the ranking there is then the hit that was there or one that comes before it.
-/

namespace VectorIndex

namespace SearchHit

instance : Std.Antisymm Precedes := ⟨fun _ _ ↦ precedes_antisymm⟩

/-- At least as many hits, none of which comes after the hit at the same place of the others. -/
structure NoWorse (hits others : List SearchHit) : Prop where
  length_le : others.length ≤ hits.length
  precedes : ∀ (place : Nat) (hplace : place < hits.length) (hother : place < others.length),
    hits[place].Precedes others[place]

theorem NoWorse.take {hits others : List SearchHit} (hworse : NoWorse hits others) (k : Nat) :
    NoWorse (hits.take k) (others.take k) where
  length_le := by
    have hlength := hworse.length_le
    rw [List.length_take, List.length_take]
    omega
  precedes place hplace hother := by
    rw [List.getElem_take, List.getElem_take]
    exact hworse.precedes place _ _

end SearchHit

namespace QueryEngine

end QueryEngine
end VectorIndex
