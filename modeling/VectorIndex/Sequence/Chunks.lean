/-!
# Consecutive chunks

A list cut into chunks of one size, of which the last may be shorter. No chunk is empty, and the
chunks joined are the list.
-/

namespace VectorIndex

/-- Chunks of `size` items, or of one item when `size` is zero. -/
def chunks {α : Type} (size : Nat) : List α → List (List α)
  | [] => []
  | item :: rest => (item :: rest.take (size - 1)) :: chunks size (rest.drop (size - 1))
termination_by items => items.length
decreasing_by simp only [List.length_drop, List.length_cons]; omega

@[simp] theorem chunks_nil {α : Type} (size : Nat) : chunks size ([] : List α) = [] := by
  rw [chunks]

theorem chunks_cons {α : Type} (size : Nat) (item : α) (rest : List α) :
    chunks size (item :: rest) =
      (item :: rest.take (size - 1)) :: chunks size (rest.drop (size - 1)) := by
  rw [chunks]

theorem flatten_chunks {α : Type} (size : Nat) (items : List α) :
    (chunks size items).flatten = items := by
  fun_induction chunks size items with
  | case1 => rfl
  | case2 item rest ih => simp [ih]

end VectorIndex
