import VectorIndex.Corpus.Partition
import VectorIndex.Proofs.Document.Tiling
import VectorIndex.Proofs.Sequence.Chunks

/-!
# The partitions of readable texts

Texts are collected when every one of them can be read, and give their first error otherwise. When
every text can be read, the partitions are the chunks of the texts: they are numbered from zero on,
and the ids of each follow on those of the ones before, so their ranges tile the ids of the texts.
-/

namespace VectorIndex

namespace Partition

theorem collect_map_ok {α : Type} (items : List α) :
    collect (items.map (.ok : α → Except IndexError α)) = .ok items := by
  induction items with
  | nil => rfl
  | cons item rest ih => rw [List.map_cons, collect, ih]

/-- All texts are collected when none of them is an error. -/
theorem collect_eq_ok {α : Type} {items : List (Except IndexError α)}
    {values : List α} : collect items = .ok values ↔ items = values.map .ok := by
  constructor
  · intro hcollect
    induction items generalizing values with
    | nil =>
      obtain rfl := Except.ok.inj hcollect
      rfl
    | cons item rest ih =>
      cases item with
      | error error => cases hcollect
      | ok value =>
        rw [collect] at hcollect
        cases hrest : collect rest with
        | error error => simp [hrest] at hcollect
        | ok later =>
          rw [hrest] at hcollect
          obtain rfl := Except.ok.inj hcollect
          rw [List.map_cons, ← ih hrest]
  · rintro rfl
    exact collect_map_ok values

/-- Items with an error among them give the first. -/
theorem exists_of_collect_error {α : Type} {items : List (Except IndexError α)}
    {error : IndexError} (herror : collect items = .error error) :
    ∃ (readable : List α) (rest : List (Except IndexError α)),
      items = readable.map .ok ++ .error error :: rest := by
  induction items with
  | nil => cases herror
  | cons item later ih =>
    cases item with
    | error first =>
      obtain rfl := Except.error.inj herror
      exact ⟨[], later, rfl⟩
    | ok value =>
      rw [collect] at herror
      cases hlater : collect later with
      | ok values => simp [hlater] at herror
      | error found =>
        rw [hlater] at herror
        obtain ⟨readable, rest, rfl⟩ := ih (hlater.trans herror)
        exact ⟨value :: readable, rest, rfl⟩

/-- The partitions with the given items, numbered from `index` on, with ids from `base` on. -/
def ofItems : PartitionIndex → DocumentId → List (List String) → List Partition
  | _, _, [] => []
  | index, base, items :: rest =>
    ⟨index, base, items⟩ :: ofItems (index + 1) (base + items.length) rest

theorem numbered_map_ok (index : PartitionIndex) (base : DocumentId) (pieces : List (List String)) :
    numbered index base (pieces.map (·.map .ok)) = (ofItems index base pieces).map .ok := by
  induction pieces generalizing index base with
  | nil => rfl
  | cons items rest ih =>
    rw [List.map_cons, numbered, collect_map_ok, ofItems, List.map_cons]
    exact congrArg _ (ih _ _)

theorem map_index_ofItems (index : PartitionIndex) (base : DocumentId)
    (pieces : List (List String)) :
    (ofItems index base pieces).map (·.index) = List.range' index pieces.length := by
  induction pieces generalizing index base with
  | nil => rfl
  | cons items rest ih => rw [ofItems, List.map_cons, ih, List.length_cons, List.range'_succ]

theorem map_items_ofItems (index : PartitionIndex) (base : DocumentId)
    (pieces : List (List String)) : (ofItems index base pieces).map (·.items) = pieces := by
  induction pieces generalizing index base with
  | nil => rfl
  | cons items rest ih => rw [ofItems, List.map_cons, ih]

/-- What is made of each partition and grows along the ids is made of all items at once. -/
theorem flatMap_ofItems {β : Type} (make : DocumentId → List String → List β)
    (hnil : ∀ base, make base [] = [])
    (hmake : ∀ base first second,
      make base (first ++ second) = make base first ++ make (base + first.length) second)
    (index : PartitionIndex) (base : DocumentId) (pieces : List (List String)) :
    ((ofItems index base pieces).flatMap fun partition ↦ make partition.base partition.items) =
      make base pieces.flatten := by
  induction pieces generalizing index base with
  | nil => exact (hnil base).symm
  | cons items rest ih => rw [ofItems, List.flatMap_cons, ih, List.flatten_cons, hmake]

/-! ## The ids of partitions -/

theorem le_base_of_mem_ofItems {index : PartitionIndex} {base : DocumentId}
    {pieces : List (List String)} {partition : Partition}
    (hpartition : partition ∈ ofItems index base pieces) :
    base ≤ partition.base ∧
      partition.base + partition.items.length ≤ base + pieces.flatten.length := by
  induction pieces generalizing index base with
  | nil => cases hpartition
  | cons items rest ih =>
    rw [ofItems] at hpartition
    rw [List.flatten_cons, List.length_append]
    rcases List.mem_cons.mp hpartition with rfl | hpartition
    · exact ⟨Nat.le_refl _, Nat.add_le_add_left (Nat.le_add_right _ _) base⟩
    · obtain ⟨hbase, hstop⟩ := ih hpartition
      unfold DocumentId at *
      omega

theorem pairwise_before_ofItems (index : PartitionIndex) (base : DocumentId)
    (pieces : List (List String)) :
    ((ofItems index base pieces).map idRange).Pairwise fun a b ↦ a.before b = true := by
  induction pieces generalizing index base with
  | nil => exact List.Pairwise.nil
  | cons items rest ih =>
    rw [ofItems, List.map_cons]
    refine List.Pairwise.cons (fun range hrange ↦ ?_) (ih _ _)
    obtain ⟨partition, hpartition, rfl⟩ := List.mem_map.mp hrange
    obtain ⟨hbase, -⟩ := le_base_of_mem_ofItems hpartition
    rw [IdRange.before_iff]
    show base < partition.base ∨ base = partition.base ∧ items.length ≤ partition.items.length
    unfold DocumentId at *
    omega

theorem sweep_ofItems {total : Nat} (index : PartitionIndex) {base : DocumentId}
    {pieces : List (List String)} (hlimit : total < 0x10000000000000000)
    (htotal : base + pieces.flatten.length = total) :
    sweep total base ((ofItems index base pieces).map idRange) = .ok () := by
  induction pieces generalizing index base with
  | nil => exact if_pos htotal
  | cons items rest ih =>
    rw [List.flatten_cons, List.length_append, ← Nat.add_assoc] at htotal
    have hexact : IdRange.IsExact ⟨base, items.length⟩ :=
      Nat.lt_of_le_of_lt (htotal ▸ Nat.le_add_right _ _) hlimit
    rw [ofItems, List.map_cons, sweep_cons_eq_ok]
    refine ⟨rfl, ?_⟩
    rw [idRange, hexact.stop_eq]
    exact ih _ htotal

/-- The ranges of partitions tile the ids of their items, if there are not too many of them. -/
theorem checkTiling_ofItems {pieces : List (List String)}
    (hlimit : pieces.flatten.length < 0x10000000000000000) :
    checkTiling ((ofItems 0 0 pieces).map idRange) pieces.flatten.length = .ok () := by
  rw [IdRange.checkTiling_of_sorted (pairwise_before_ofItems 0 0 pieces)]
  exact sweep_ofItems 0 hlimit (Nat.zero_add _)

end Partition

theorem partitions_map_ok (texts : List String) (size : Nat) :
    partitions (texts.map .ok) size =
      (Partition.ofItems 0 0 (chunks size texts)).map .ok := by
  unfold partitions
  rw [chunks_map, Partition.numbered_map_ok]

end VectorIndex
