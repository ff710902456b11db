/-!
# Slices

What lies between two places of a list. Where the places are out of order or beyond the end there is
no slice. Places are numbers of 64 bits, in which what is computed of them is counted.
-/

namespace VectorIndex

variable {α : Type}

/-- The items from `start` up to `stop`, when all of them are there. -/
def slice? (items : List α) (start stop : Nat) : Option (List α) :=
  if start ≤ stop ∧ stop ≤ items.length then some ((items.drop start).take (stop - start))
  else none

theorem slice?_eq_some {items : List α} {start count : Nat}
    (hstop : start + count ≤ items.length) :
    slice? items start (start + count) = some ((items.drop start).take count) := by
  unfold slice?
  rw [if_pos ⟨Nat.le_add_right _ _, hstop⟩, Nat.add_sub_cancel_left]

/-- A place in a list of some length. It is a number of 64 bits, of which only a place behind the
end can lose any. -/
def place (length position : Nat) : Nat :=
  if position ≤ length then position else position % 0x10000000000000000

theorem place_of_le {length position : Nat} (hle : position ≤ length) :
    place length position = position := if_pos hle

theorem place_of_lt {length position : Nat} (hlt : position < 0x10000000000000000) :
    place length position = position := by
  unfold place
  rw [Nat.mod_eq_of_lt hlt, ite_self]

/-- The items of a run of entries of one size, of which `offset` come before it behind `start`, when
all of them are there. -/
def run? (items : List α) (start size offset count : Nat) : Option (List α) :=
  let first := place items.length (start + offset * size)
  slice? items first (place items.length (first + count * size))

theorem run?_eq_some {items : List α} {start size offset count : Nat}
    (hstop : start + (offset + count) * size ≤ items.length) :
    run? items start size offset count =
      some ((items.drop (start + offset * size)).take (count * size)) := by
  rw [Nat.add_mul, ← Nat.add_assoc] at hstop
  unfold run?
  dsimp only
  rw [place_of_le (Nat.le_trans (Nat.le_add_right _ _) hstop), place_of_le hstop,
    slice?_eq_some hstop]

end VectorIndex
