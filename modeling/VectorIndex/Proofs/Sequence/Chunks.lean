import Mathlib.Data.List.Perm.Basic
import VectorIndex.Sequence.Chunks
import VectorIndex.Sequence.Slice

/-!
# Pieces of joined lists

Joined pieces are cut apart again where they meet: by chunks when every piece has the size of a
chunk, and by the length of what stands before a piece otherwise. What is taken beyond the end of a
list is missing.
-/

namespace VectorIndex

variable {α β : Type}

/-! ## Chunks -/

theorem chunks_of_length_le {size : Nat} {items : List α} (hne : items ≠ [])
    (hle : items.length ≤ size) : chunks size items = [items] := by
  obtain ⟨item, rest, rfl⟩ := List.exists_cons_of_ne_nil hne
  rw [List.length_cons] at hle
  rw [chunks_cons, List.take_of_length_le (by omega), List.drop_of_length_le (by omega),
    chunks_nil]

/-- A list whose length is the size of a chunk is a chunk of what starts with it. -/
theorem chunks_append_of_length {size : Nat} {piece : List α} (hne : piece ≠ [])
    (hlength : piece.length = size) (rest : List α) :
    chunks size (piece ++ rest) = piece :: chunks size rest := by
  obtain ⟨item, tail, rfl⟩ := List.exists_cons_of_ne_nil hne
  obtain rfl : size = tail.length + 1 := by rw [← hlength, List.length_cons]
  rw [List.cons_append, chunks_cons, Nat.add_sub_cancel, List.take_left, List.drop_left]

theorem chunks_flatten {size : Nat} (hsize : 0 < size) {pieces : List (List α)}
    (hpieces : ∀ piece ∈ pieces, piece.length = size) : chunks size pieces.flatten = pieces := by
  induction pieces with
  | nil => rw [List.flatten_nil, chunks_nil]
  | cons piece rest ih =>
    obtain ⟨hpiece, hrest⟩ := List.forall_mem_cons.mp hpieces
    have hne : piece ≠ [] := List.ne_nil_of_length_pos (by omega)
    calc chunks size (piece :: rest).flatten
      _ = chunks size (piece ++ rest.flatten) := by rw [List.flatten_cons]
      _ = piece :: chunks size rest.flatten := chunks_append_of_length hne hpiece _
      _ = piece :: rest := by rw [ih hrest]

/-- A list that is long enough for a chunk starts with one. -/
theorem chunks_eq_take_cons {size : Nat} (hsize : 0 < size) {items : List α}
    (hle : size ≤ items.length) :
    chunks size items = items.take size :: chunks size (items.drop size) := by
  have hlength : (items.take size).length = size := by
    rw [List.length_take, Nat.min_eq_left hle]
  have hne : items.take size ≠ [] := List.ne_nil_of_length_pos (by omega)
  calc chunks size items
    _ = chunks size (items.take size ++ items.drop size) := by rw [List.take_append_drop]
    _ = items.take size :: chunks size (items.drop size) :=
      chunks_append_of_length hne hlength _

/-- The chunks of a list of whole chunks and of what follows it. -/
theorem chunks_append {size : Nat} (hsize : 0 < size) {first : List α}
    (hdvd : size ∣ first.length) (second : List α) :
    chunks size (first ++ second) = chunks size first ++ chunks size second := by
  obtain ⟨count, hcount⟩ := hdvd
  induction count generalizing first with
  | zero =>
    obtain rfl : first = [] := List.eq_nil_of_length_eq_zero hcount
    rw [chunks_nil]
    rfl
  | succ count ih =>
    rw [Nat.mul_succ] at hcount
    have hle : size ≤ first.length := by omega
    have hdrop : (first.drop size).length = size * count := by rw [List.length_drop]; omega
    calc chunks size (first ++ second)
      _ = (first ++ second).take size :: chunks size ((first ++ second).drop size) := by
        apply chunks_eq_take_cons hsize
        rw [List.length_append]
        omega
      _ = first.take size :: chunks size (first.drop size ++ second) := by
        rw [List.take_append_of_le_length hle, List.drop_append_of_le_length hle]
      _ = first.take size :: chunks size (first.drop size) ++ chunks size second := by
        rw [ih hdrop, List.cons_append]
      _ = chunks size first ++ chunks size second := by rw [chunks_eq_take_cons hsize hle]

/-- Where the size divides the length, no chunk is shorter than the size. -/
theorem length_of_mem_chunks {size : Nat} (hsize : 0 < size) {items chunk : List α}
    (hdvd : size ∣ items.length) (hchunk : chunk ∈ chunks size items) : chunk.length = size := by
  fun_induction chunks size items with
  | case1 => cases hchunk
  | case2 item rest ih =>
    rw [List.length_cons] at hdvd
    have hle := Nat.le_of_dvd (Nat.succ_pos _) hdvd
    rcases List.mem_cons.mp hchunk with rfl | hchunk
    · rw [List.length_cons, List.length_take]
      omega
    · refine ih ?_ hchunk
      rw [List.length_drop, show rest.length - (size - 1) = rest.length + 1 - size by omega]
      exact Nat.dvd_sub hdvd (Nat.dvd_refl size)

theorem length_chunks {size : Nat} (hsize : 0 < size) {items : List α} {count : Nat}
    (hcount : items.length = count * size) : (chunks size items).length = count := by
  induction count generalizing items with
  | zero =>
    obtain rfl : items = [] := List.eq_nil_of_length_eq_zero (by omega)
    rw [chunks_nil]
    rfl
  | succ count ih =>
    rw [Nat.succ_mul] at hcount
    rw [chunks_eq_take_cons hsize (by omega), List.length_cons]
    apply congrArg (· + 1)
    apply ih
    rw [List.length_drop]
    omega

/-- Where a list is as long as so many chunks, they are taken at the multiples of the size. -/
theorem chunks_eq_map_range {size : Nat} (hsize : 0 < size) {items : List α} {count : Nat}
    (hcount : items.length = count * size) :
    chunks size items = (List.range count).map fun i ↦ (items.drop (i * size)).take size := by
  induction count generalizing items with
  | zero =>
    obtain rfl : items = [] := List.eq_nil_of_length_eq_zero (by omega)
    rw [chunks_nil]
    rfl
  | succ count ih =>
    rw [Nat.succ_mul] at hcount
    have hrest : (items.drop size).length = count * size := by rw [List.length_drop]; omega
    rw [chunks_eq_take_cons hsize (by omega), ih hrest, List.range_succ_eq_map, List.map_cons,
      Nat.zero_mul, List.drop_zero, List.map_map]
    congr 1
    apply List.map_congr_left
    intro i _
    show ((items.drop size).drop (i * size)).take size = (items.drop ((i + 1) * size)).take size
    rw [List.drop_drop, Nat.succ_mul, Nat.add_comm]

theorem chunks_map (f : α → β) (size : Nat) (items : List α) :
    chunks size (items.map f) = (chunks size items).map (·.map f) := by
  fun_induction chunks size items with
  | case1 => rw [List.map_nil, chunks_nil, List.map_nil]
  | case2 item rest ih =>
    calc chunks size ((item :: rest).map f)
      _ = (f item :: (rest.map f).take (size - 1)) ::
          chunks size ((rest.map f).drop (size - 1)) := by rw [List.map_cons, chunks_cons]
      _ = (item :: rest.take (size - 1)).map f ::
          chunks size ((rest.drop (size - 1)).map f) := by
        rw [← List.map_take, ← List.map_drop, List.map_cons]
      _ = ((item :: rest.take (size - 1)) :: chunks size (rest.drop (size - 1))).map (·.map f) := by
        rw [ih]
        rfl

/-- A piece lies behind the pieces before it. -/
theorem slice_flatten (pieces : List (List α)) {position : Nat}
    (hposition : position < pieces.length) :
    (pieces.flatten.drop (pieces.take position).flatten.length).take pieces[position].length =
      pieces[position] := by
  induction pieces generalizing position with
  | nil => cases hposition
  | cons piece rest ih =>
    cases position with
    | zero => simp
    | succ position =>
      rw [List.length_cons] at hposition
      rw [List.take_succ_cons, List.flatten_cons, List.flatten_cons, List.length_append,
        List.drop_length_add_append, List.getElem_cons_succ]
      exact ih (by omega)

theorem length_flatten_of_length {size : Nat} {pieces : List (List α)}
    (hpieces : ∀ piece ∈ pieces, piece.length = size) :
    pieces.flatten.length = pieces.length * size := by
  rw [List.length_flatten, List.map_congr_left hpieces, List.map_const', List.sum_replicate_nat]

/-- Pieces of one size lie at the multiples of it. -/
theorem slice_flatten_of_length {size : Nat} {pieces : List (List α)}
    (hpieces : ∀ piece ∈ pieces, piece.length = size) {position : Nat}
    (hposition : position < pieces.length) :
    (pieces.flatten.drop (position * size)).take size = pieces[position] := by
  have hbefore : (pieces.take position).flatten.length = position * size := by
    rw [length_flatten_of_length fun piece hpiece ↦ hpieces piece (List.mem_of_mem_take hpiece),
      List.length_take_of_le (Nat.le_of_lt hposition)]
  have hslice := slice_flatten pieces hposition
  rwa [hbefore, hpieces _ (List.getElem_mem hposition)] at hslice

/-- Rows read column by column hold what the columns hold. -/
theorem flatMap_flatMap_perm (rows : List α) (columns : List β) {γ : Type}
    (cell : α → β → List γ) :
    (columns.flatMap fun column ↦ rows.flatMap fun row ↦ cell row column).Perm
      (rows.flatMap fun row ↦ columns.flatMap fun column ↦ cell row column) := by
  induction rows with
  | nil => simp
  | cons row rest ih =>
    simp only [List.flatMap_cons]
    exact (List.flatMap_append_perm columns _ _).symm.trans (ih.append_left _)

/-! ## Steps that may fail -/

theorem mapM_eq_some_map {α β : Type} {f : α → Option β} {g : α → β} {items : List α}
    (hitems : ∀ item ∈ items, f item = some (g item)) : items.mapM f = some (items.map g) := by
  induction items with
  | nil => rfl
  | cons item rest ih =>
    obtain ⟨hitem, hrest⟩ := List.forall_mem_cons.mp hitems
    rw [List.mapM_cons, hitem, ih hrest]
    rfl

theorem isSome_mapM {α β : Type} {f : α → Option β} {items : List α} :
    (items.mapM f).isSome ↔ ∀ item ∈ items, (f item).isSome := by
  induction items with
  | nil => exact iff_of_true rfl nofun
  | cons item rest ih =>
    rw [List.mapM_cons, List.forall_mem_cons, ← ih]
    cases f item with
    | none => simp
    | some value => cases rest.mapM f <;> simp

end VectorIndex
