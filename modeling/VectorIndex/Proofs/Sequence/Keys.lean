import Mathlib.Data.List.Perm.Basic

/-!
# Lists compared by keys

A list that is sorted by a number is in the order of it, and the numbers of two such lists are the
same in the same order when they are the same in some order. Items with the same distinct keys in
the same order are related one by one when each has a partner of its key.
-/

namespace VectorIndex

/-- Sorting by a number sorts by it. -/
theorem pairwise_mergeSort_le {α : Type} (key : α → Nat) (items : List α) :
    (items.mergeSort fun a b ↦ key a ≤ key b).Pairwise fun a b ↦ key a ≤ key b := by
  have hsorted : (items.mergeSort fun a b ↦ key a ≤ key b).Pairwise fun a b ↦
      decide (key a ≤ key b) = true := by
    apply List.pairwise_mergeSort
    · intro a b c hab hbc
      exact decide_eq_true (Nat.le_trans (of_decide_eq_true hab) (of_decide_eq_true hbc))
    · intro a b
      rw [Bool.or_eq_true, decide_eq_true_iff, decide_eq_true_iff]
      exact Nat.le_total _ _
  exact hsorted.imp fun hle ↦ of_decide_eq_true hle

theorem map_mergeSort_le {α β : Type} (f : α → Nat) (g : β → Nat) {first : List α}
    {second : List β} (hperm : (first.map f).Perm (second.map g)) :
    (first.mergeSort fun a b ↦ f a ≤ f b).map f =
      (second.mergeSort fun a b ↦ g a ≤ g b).map g := by
  have hsorted : ((first.mergeSort fun a b ↦ f a ≤ f b).map f).Perm
      ((second.mergeSort fun a b ↦ g a ≤ g b).map g) :=
    (((List.mergeSort_perm _ _).map f).trans hperm).trans ((List.mergeSort_perm _ _).map g).symm
  apply hsorted.eq_of_pairwise fun _ _ _ _ ↦ Nat.le_antisymm
  · exact List.pairwise_map.mpr (pairwise_mergeSort_le f first)
  · exact List.pairwise_map.mpr (pairwise_mergeSort_le g second)

/-- Two lists with the same keys, in the same order, are related item by item when every item of
the second is related to the item of its key. -/
theorem forall₂_of_map_eq {α β γ : Type} {relation : α → β → Prop} {first : List α}
    {second : List β} {f : α → γ} {g : β → γ} (hmap : first.map f = second.map g)
    (hinjective : (first.map f).Nodup)
    (hall : ∀ b ∈ second, ∃ a ∈ first, f a = g b ∧ relation a b) :
    List.Forall₂ relation first second := by
  induction first generalizing second with
  | nil =>
    rw [List.map_nil, eq_comm, List.map_eq_nil_iff] at hmap
    exact hmap ▸ .nil
  | cons a rest ih =>
    cases second with
    | nil => cases hmap
    | cons b others =>
      rw [List.map_cons, List.map_cons, List.cons.injEq] at hmap
      rw [List.map_cons, List.nodup_cons] at hinjective
      rw [List.forall_mem_cons] at hall
      obtain ⟨hkey, hkeys⟩ := hmap
      obtain ⟨⟨found, hfound, hsame, hrelated⟩, hothers⟩ := hall
      constructor
      · rcases List.mem_cons.mp hfound with rfl | hfound
        · exact hrelated
        · exact absurd (hkey ▸ hsame ▸ List.mem_map_of_mem hfound) hinjective.1
      · apply ih hkeys hinjective.2
        intro other hother
        obtain ⟨found, hfound, hsame, hrelated⟩ := hothers other hother
        rcases List.mem_cons.mp hfound with rfl | hfound
        · exact absurd (hkeys ▸ hsame ▸ List.mem_map_of_mem hother) hinjective.1
        · exact ⟨found, hfound, hsame, hrelated⟩

end VectorIndex
