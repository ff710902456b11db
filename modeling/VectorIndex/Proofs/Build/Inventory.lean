import VectorIndex.Proofs.Build.Stages

/-!
# The segments that a directory lists

A directory is asked for its segments by the names in it. The name of a segment gives its number
back, other names may be read as numbers too, and the count that the listing comes to is the least
one above all of these numbers.
-/

namespace VectorIndex

/-! ## Numbers in names -/

namespace Decimal

theorem digitsValue_toDigits (n : Nat) : digitsValue (Nat.toDigits 10 n) = n := by
  have hstep : (fun (value : Nat) (c : Char) ↦ value * 10 + (c.toNat - '0'.toNat)) =
      fun value c ↦ 10 * value + (c.toNat - '0'.toNat) := by
    funext value c
    rw [Nat.mul_comm]
  unfold digitsValue
  rw [hstep, ← Nat.ofDigitChars_eq_foldl]
  exact Nat.ofDigitChars_toDigits (by decide) (by decide)

theorem digits?_toDigits (n : Nat) : digits? (Nat.toDigits 10 n) = some n := by
  have hdigits : (Nat.toDigits 10 n).all Char.isDigit = true :=
    List.all_eq_true.mpr fun c hc ↦ Nat.isDigit_of_mem_toDigits (by decide) (by decide) hc
  have hne : (Nat.toDigits 10 n).isEmpty = false :=
    List.isEmpty_eq_false_iff.mpr Nat.toDigits_ne_nil
  unfold digits?
  rw [hdigits, hne, digitsValue_toDigits]
  rfl

/-- The digits of a number are read as the number, if it has few enough bits. -/
theorem natural?_toDigits (bits n : Nat) :
    natural? bits (Nat.toDigits 10 n) = if n < Nat.pow 2 bits then some n else none := by
  have hplus : '+' ∉ Nat.toDigits 10 n := by
    intro hplus
    exact absurd (Nat.isDigit_of_mem_toDigits (by decide) (by decide) hplus) (by decide)
  unfold natural?
  split
  · next heq =>
    rw [heq] at hplus
    exact absurd List.mem_cons_self hplus
  · dsimp only
    rw [digits?_toDigits, Option.filter_some]
    simp only [decide_eq_true_eq]

end Decimal

namespace Layout

theorem between?_append (beginning middle ending : List Char) :
    between? beginning ending (beginning ++ (middle ++ ending)) = some middle := by
  have hlength : (beginning ++ (middle ++ ending)).length - beginning.length - ending.length =
      middle.length := by
    rw [List.length_append, List.length_append]
    omega
  unfold between?
  rw [hlength, List.drop_left, List.take_left, if_pos]
  exact ⟨List.isPrefixOf_iff_prefix.mpr (List.prefix_append _ _),
    List.isSuffixOf_iff_suffix.mpr (List.suffix_append _ _)⟩

/-- The name of a segment gives its number back, if that has 32 bits. -/
theorem partitionOfName?_segmentName (number : PartitionIndex) :
    partitionOfName? (segmentName number) =
      if number < 0x100000000 then some number else none := by
  unfold partitionOfName?
  rw [toList_segmentName, between?_append, Option.bind_some, Decimal.natural?_toDigits]

theorem head_of_partitionOfName? {name : String} {number : PartitionIndex}
    (hname : partitionOfName? name = some number) : name.toList.head? = some 's' := by
  obtain ⟨middle, hbetween, -⟩ := Option.bind_eq_some_iff.mp hname
  unfold between? at hbetween
  split at hbetween
  · next hends =>
    obtain ⟨rest, hrest⟩ := List.isPrefixOf_iff_prefix.mp hends.1
    rw [← hrest]
    rfl
  · cases hbetween

/-! ## Listing -/

/-- There is something in the directory that is named as the segment of the partition. -/
def Lists (layout : Layout) (tree : Tree) (number : PartitionIndex) : Prop :=
  ∃ name, tree.find? (Location.ofDirectory layout.root ++ [name]) ≠ none ∧
    partitionOfName? name = some number

/-- What is one more than the last number is the least bound of sorted numbers. -/
theorem afterLast_le_iff {numbers : List Nat} (hsorted : numbers.Pairwise (· ≤ ·)) (bound : Nat) :
    (match numbers.getLast? with
      | some last => last + 1
      | none => 0) ≤ bound ↔ ∀ number ∈ numbers, number < bound := by
  rcases List.eq_nil_or_concat numbers with rfl | ⟨front, last, rfl⟩
  · simp
  · rw [List.concat_eq_append] at hsorted ⊢
    rw [List.getLast?_concat]
    have hlast := (List.pairwise_append.mp hsorted).2.2
    constructor
    · intro hbound number hnumber
      rcases List.mem_append.mp hnumber with hfront | hequal
      · exact Nat.lt_of_le_of_lt (hlast number hfront last List.mem_cons_self) hbound
      · exact List.mem_singleton.mp hequal ▸ hbound
    · intro hall
      exact hall last (List.mem_append_right _ List.mem_cons_self)

variable {layout : Layout} {tree : Tree}

theorem exists_existingSegments (hroot : layout.root ≠ "")
    (hdirectory : tree.IsDirectory (Location.ofDirectory layout.root)) :
    ∃ numbers, layout.existingSegments.run tree = (.ok numbers, tree) ∧
      numbers.Pairwise (· ≤ ·) ∧ ∀ number, number ∈ numbers ↔ layout.Lists tree number := by
  obtain ⟨names, hrun, hnames⟩ := SegmentMerger.exists_names hroot hdirectory
  refine ⟨(names.filterMap partitionOfName?).mergeSort (· ≤ ·), ?_,
    pairwise_mergeSort_le (fun number ↦ number) _, fun number ↦ ?_⟩
  · unfold existingSegments
    rw [StoreProgram.run_bind, hrun]
    rfl
  · rw [List.mem_mergeSort, List.mem_filterMap]
    exact exists_congr fun name ↦ and_congr_left fun _ ↦ hnames name

end Layout

namespace Pipeline

variable {pipeline : Pipeline} {tree : Tree}

/-- The count of partitions on disk is the least one above all that the directory lists. -/
theorem exists_partitionsOnDisk (hroot : pipeline.layout.root ≠ "")
    (hdirectory : tree.IsDirectory pipeline.directory) :
    ∃ count, pipeline.partitionsOnDisk.runOn tree = (.ok count, tree) ∧
      ∀ bound, count ≤ bound ↔ ∀ number, pipeline.layout.Lists tree number → number < bound := by
  obtain ⟨numbers, hrun, hsorted, hlists⟩ := Layout.exists_existingSegments hroot hdirectory
  refine ⟨_, ?_, fun bound ↦ (Layout.afterLast_le_iff hsorted bound).trans
    (forall_congr' fun number ↦ imp_congr_left (hlists number))⟩
  unfold partitionsOnDisk
  rw [IndexProgram.runOn_bind, IndexProgram.runOn_lift, hrun]
  rfl

/-- No partition is found through the empty path. -/
theorem partitionsOnDisk_of_empty (hroot : pipeline.layout.root = "") (tree : Tree) :
    pipeline.partitionsOnDisk.runOn tree = (.ok 0, tree) := by
  have hnames : (Layout.names "").run tree = (.ok [], tree) := rfl
  have hrun : pipeline.layout.existingSegments.run tree = (.ok [], tree) := by
    unfold Layout.existingSegments
    rw [hroot, StoreProgram.run_bind, hnames]
    dsimp only [Except.map]
    rw [List.filterMap_nil, List.mergeSort_nil]
    rfl
  unfold partitionsOnDisk
  rw [IndexProgram.runOn_bind, IndexProgram.runOn_lift, hrun]
  rfl

end Pipeline
end VectorIndex
