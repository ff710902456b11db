import VectorIndex.Postings.Merge
import VectorIndex.Proofs.Postings.Segment
import VectorIndex.Proofs.Sequence.Keys
import VectorIndex.Proofs.Store.Program

/-!
# The order of a merge

An order is accepted when it visits every partition below its length once. The segments are opened
in that order and put into the order of their partitions, so what is merged does not depend on it:
it is the one list of segments that the files of the partitions hold.
-/

namespace VectorIndex

namespace Segment

/-- Opening reads the file and says what is wrong with it. -/
theorem runOn_open {path : Path} {tree : Tree} {contents : Bytes}
    (hread : tree.read path = .ok contents) :
    (Segment.open path).runOn tree =
      ((ofBytes path contents).mapError (.indexCorrupt path), tree) := by
  unfold Segment.open
  rw [IndexProgram.runOn_bind, IndexProgram.runOn_perform, Tree.answer_fetch]
  unfold Tree.read at hread
  cases hlookup : tree.lookup path with
  | error fault => simp [hlookup] at hread
  | ok entry =>
    cases entry with
    | directory => simp [hlookup] at hread
    | file found modified =>
      rw [hlookup] at hread
      cases hread
      rfl

/-- Opening reads the file and leaves the tree. -/
theorem open_ok {path : Path} {tree changed : Tree} {segment : Segment} :
    (Segment.open path).runOn tree = (.ok segment, changed) ↔
      changed = tree ∧
        ∃ contents, tree.read path = .ok contents ∧ ofBytes path contents = .ok segment := by
  cases hread : tree.read path with
  | ok contents =>
    rw [runOn_open hread, Prod.mk.injEq, Result.mapError_ok, eq_comm (a := tree), and_comm]
    simp
  | error error =>
    unfold Segment.open
    rw [IndexProgram.runOn_bind, IndexProgram.runOn_perform, Tree.answer_fetch]
    unfold Tree.read at hread
    cases hlookup : tree.lookup path with
    | error fault => simp [IndexProgram.runOn_bind]
    | ok entry =>
      cases entry with
      | directory => simp [IndexProgram.runOn_bind]
      | file contents modified => simp [hlookup] at hread

end Segment

namespace SegmentMerger

open IndexProgram (runOn_bind runOn_bind_ok runOn_pure_ok runOn_ofExcept runOn_ofExcept_ok runOn_lift)

variable {merger : SegmentMerger} {tree changed : Tree}

/-! ## Which orders are accepted -/

theorem checkOrderFrom_eq_ok {count : Nat} {seen order : List PartitionIndex} :
    checkOrderFrom count seen order = .ok () ↔
      order.Nodup ∧ ∀ partition ∈ order, partition < count ∧ partition ∉ seen := by
  induction order generalizing seen with
  | nil => simp [checkOrderFrom]
  | cons partition rest ih =>
    rw [checkOrderFrom]
    split
    · next hrefused =>
      simp only [List.forall_mem_cons, reduceCtorEq, false_iff, not_and]
      intro _ haccepted
      unfold PartitionIndex at *
      rcases hrefused with hlarge | hseen
      · omega
      · exact absurd hseen haccepted.2
    · next haccepted =>
      rw [not_or, Nat.not_le] at haccepted
      rw [ih, List.nodup_cons, List.forall_mem_cons]
      constructor
      · rintro ⟨hnodup, hall⟩
        refine ⟨⟨fun hmem ↦ ?_, hnodup⟩, haccepted, fun p hp ↦ ⟨(hall p hp).1, ?_⟩⟩
        · exact (hall partition hmem).2 List.mem_cons_self
        · exact fun hseen ↦ (hall p hp).2 (List.mem_cons_of_mem _ hseen)
      · rintro ⟨⟨hmem, hnodup⟩, -, hall⟩
        refine ⟨hnodup, fun p hp ↦ ⟨(hall p hp).1, ?_⟩⟩
        rw [List.mem_cons, not_or]
        exact ⟨fun heq ↦ hmem (heq ▸ hp), (hall p hp).2⟩

/-- The orders that are accepted are those of the partitions below their length. -/
theorem checkOrder_eq_ok {order : List PartitionIndex} :
    checkOrder order = .ok () ↔ order.Perm (List.range order.length) := by
  unfold checkOrder
  rw [checkOrderFrom_eq_ok]
  constructor
  · rintro ⟨hnodup, hall⟩
    have hsubset : order ⊆ List.range order.length :=
      fun partition hp ↦ List.mem_range.mpr (hall partition hp).1
    exact (List.subperm_of_subset hnodup hsubset).perm_of_length_le (by simp)
  · intro hperm
    refine ⟨hperm.nodup_iff.mpr List.nodup_range, fun partition hp ↦ ⟨?_, by simp⟩⟩
    exact List.mem_range.mp (hperm.mem_iff.mp hp)

/-- An order is refused with a configuration error only. -/
theorem checkOrderFrom_error {count : Nat} {seen order : List PartitionIndex} {error : IndexError}
    (herror : checkOrderFrom count seen order = .error error) :
    ∃ reason, error = .invalidConfig reason := by
  induction order generalizing seen with
  | nil => cases herror
  | cons partition rest ih =>
    rw [checkOrderFrom] at herror
    split at herror
    · cases herror
      exact ⟨_, rfl⟩
    · exact ih herror

/-! ## Opening the segments of an order -/

/-- The file of the partition holds the segment, and the merger takes it. -/
def Accepts (merger : SegmentMerger) (tree : Tree) (partition : PartitionIndex)
    (segment : Segment) : Prop :=
  (∃ contents, tree.read (segmentPath merger.directory partition) = .ok contents ∧
    Segment.ofBytes (segmentPath merger.directory partition) contents = .ok segment) ∧
      merger.checkSegment partition segment = .ok ()

/-- The files of the partitions below `count` hold the segments, and the merger takes them. -/
structure Holds (merger : SegmentMerger) (tree : Tree) (count : Nat) (segments : List Segment) :
    Prop where
  partitions : segments.map (·.partition) = List.range count
  accepts : ∀ segment ∈ segments, merger.Accepts tree segment.partition segment

theorem accepts_of_isOk {partition : PartitionIndex} {contents : Bytes}
    (hread : tree.read (segmentPath merger.directory partition) = .ok contents)
    (hopen : (Segment.ofBytes (segmentPath merger.directory partition) contents).isOk = true)
    (htaken : (merger.checkSegment partition
      (.fromBytes (segmentPath merger.directory partition) contents)).isOk = true) :
    merger.Accepts tree partition
      (.fromBytes (segmentPath merger.directory partition) contents) := by
  refine ⟨⟨contents, hread, ?_⟩, Result.isOk_iff.mp htaken⟩
  cases hresult : Segment.ofBytes (segmentPath merger.directory partition) contents with
  | error reason =>
    rw [hresult] at hopen
    cases hopen
  | ok segment => rw [(Segment.ofBytes_eq_ok.mp hresult).1]

/-- The segments that can be opened for the partitions below `count` have directories that count no
more postings than 64 bits hold. -/
def OpensExactly (merger : SegmentMerger) (tree : Tree) (count : Nat) : Prop :=
  ∀ partition < count, ∀ segment,
    (Segment.open (segmentPath merger.directory partition)).runOn tree = (.ok segment, tree) →
      segment.IsExact

theorem opensExactly_of_all {count : Nat} (hall : ∀ partition < count,
    ((Segment.open (segmentPath merger.directory partition)).runOn tree).1.toOption.all
      (fun segment ↦ segment.IsExact) = true) : merger.OpensExactly tree count := by
  intro partition hpartition segment hopen
  have hexact := hall partition hpartition
  rw [hopen] at hexact
  exact of_decide_eq_true hexact

theorem Holds.exact {count : Nat} {segments : List Segment}
    (hholds : merger.Holds tree count segments) (hexact : merger.OpensExactly tree count) :
    ∀ segment ∈ segments, segment.IsExact := by
  intro segment hsegment
  have hpartition : segment.partition ∈ List.range count :=
    hholds.partitions ▸ List.mem_map_of_mem hsegment
  exact hexact _ (List.mem_range.mp hpartition) segment
    (Segment.open_ok.mpr ⟨rfl, (hholds.accepts segment hsegment).1⟩)

theorem Accepts.unique {partition : PartitionIndex} {first second : Segment}
    (hfirst : merger.Accepts tree partition first)
    (hsecond : merger.Accepts tree partition second) : first = second := by
  obtain ⟨⟨contents, hread, hopen⟩, -⟩ := hfirst
  obtain ⟨⟨others, hread', hopen'⟩, -⟩ := hsecond
  obtain rfl := Except.ok.inj (hread.symm.trans hread')
  exact Except.ok.inj (hopen.symm.trans hopen')

theorem checkSegment_eq_ok {partition : PartitionIndex} {segment : Segment} :
    merger.checkSegment partition segment = .ok () ↔ segment.partition = partition ∧
      segment.checkCodebook merger.codebook = .ok () ∧ segment.checkIds = .ok () ∧
        segment.checkCodes merger.codebook = .ok () := by
  unfold checkSegment
  rw [Result.guard_ok, Decidable.not_not]
  apply and_congr_right'
  constructor
  · intro hchecks
    obtain ⟨_, hcodebook, hrest⟩ := Result.bind_ok.mp hchecks
    obtain ⟨_, hids, hcodes⟩ := Result.bind_ok.mp hrest
    exact ⟨hcodebook, hids, hcodes⟩
  · rintro ⟨hcodebook, hids, hcodes⟩
    exact Result.bind_ok.mpr ⟨(), hcodebook, Result.bind_ok.mpr ⟨(), hids, hcodes⟩⟩

theorem partition_of_checkSegment {partition : PartitionIndex} {segment : Segment}
    (hcheck : merger.checkSegment partition segment = .ok ()) : segment.partition = partition :=
  (checkSegment_eq_ok.mp hcheck).1

theorem run_exists? (path : Path) (tree : Tree) :
    (IndexProgram.exists? path).run tree = ((tree.answer (.inspect path)).1.isSome, tree) := rfl

theorem requireSegments_ok {order : List PartitionIndex} {done : Unit} :
    (merger.requireSegments order).runOn tree = (.ok done, changed) ↔
      changed = tree ∧ ∀ partition ∈ order,
        (tree.answer (.inspect (segmentPath merger.directory partition))).1.isSome := by
  induction order with
  | nil =>
    simp only [requireSegments, List.not_mem_nil, false_imp_iff, implies_true, and_true]
    exact runOn_pure_ok.trans ⟨fun h ↦ h.2.symm, fun h ↦ ⟨rfl, h.symm⟩⟩
  | cons partition rest ih =>
    rw [requireSegments, runOn_bind, runOn_lift, run_exists?, List.forall_mem_cons]
    cases (tree.answer (.inspect (segmentPath merger.directory partition))).1.isSome with
    | false => simp
    | true => simpa using ih

theorem openSegments_ok {order : List PartitionIndex} {segments : List Segment} :
    (merger.openSegments order).runOn tree = (.ok segments, changed) ↔
      changed = tree ∧ segments.map (·.partition) = order ∧
        ∀ segment ∈ segments, merger.Accepts tree segment.partition segment := by
  induction order generalizing segments with
  | nil =>
    unfold openSegments
    rw [runOn_pure_ok]
    constructor
    · rintro ⟨rfl, rfl⟩
      simp
    · rintro ⟨rfl, hnil, -⟩
      exact ⟨(List.map_eq_nil_iff.mp hnil).symm, rfl⟩
  | cons partition rest ih =>
    rw [openSegments]
    constructor
    · intro hrun
      obtain ⟨segment, opened, hopen, hchecks⟩ := runOn_bind_ok.mp hrun
      obtain ⟨_, checked, hcheck, hothers⟩ := runOn_bind_ok.mp hchecks
      obtain ⟨later, last, hlater, hpure⟩ := runOn_bind_ok.mp hothers
      obtain ⟨rfl, rfl⟩ := runOn_pure_ok.mp hpure
      obtain ⟨hchecked, rfl⟩ := runOn_ofExcept_ok.mp hcheck
      obtain ⟨rfl, hcontents⟩ := Segment.open_ok.mp hopen
      obtain ⟨rfl, hpartitions, haccepts⟩ := ih.mp hlater
      obtain rfl := partition_of_checkSegment hchecked
      refine ⟨rfl, by rw [List.map_cons, hpartitions], List.forall_mem_cons.mpr ⟨?_, haccepts⟩⟩
      exact ⟨hcontents, hchecked⟩
    · rintro ⟨rfl, hpartitions, haccepts⟩
      obtain ⟨segment, later, rfl, rfl, hlater⟩ := List.map_eq_cons_iff.mp hpartitions
      obtain ⟨⟨hcontents, hcheck⟩, hrest⟩ := List.forall_mem_cons.mp haccepts
      refine runOn_bind_ok.mpr ⟨segment, _, Segment.open_ok.mpr ⟨rfl, hcontents⟩, ?_⟩
      refine runOn_bind_ok.mpr ⟨(), _, by rw [runOn_ofExcept, hcheck], ?_⟩
      exact runOn_bind_ok.mpr ⟨later, _, ih.mpr ⟨rfl, hlater, hrest⟩, rfl⟩

/-! ## The segments that the files hold -/

/-- Accepted segments in an order of the partitions below `count` are those that the files hold
when they are put into the order of their partitions. -/
theorem holds_mergeSort {order : List PartitionIndex} {count : Nat}
    (horder : order.Perm (List.range count)) {segments : List Segment}
    (hpartitions : segments.map (·.partition) = order)
    (haccepts : ∀ segment ∈ segments, merger.Accepts tree segment.partition segment) :
    merger.Holds tree count (segments.mergeSort fun a b ↦ a.partition ≤ b.partition) := by
  have hperm := List.mergeSort_perm segments fun a b ↦ a.partition ≤ b.partition
  refine ⟨?_, fun segment hsegment ↦ haccepts segment (hperm.mem_iff.mp hsegment)⟩
  have hsorted : ((segments.mergeSort fun a b ↦ a.partition ≤ b.partition).map
      (·.partition)).Pairwise (· ≤ ·) := by
    rw [List.pairwise_map]
    exact pairwise_mergeSort_le Segment.partition segments
  have hrange : (List.range count).Pairwise (· ≤ ·) := List.pairwise_lt_range.imp Nat.le_of_lt
  exact List.Perm.eq_of_pairwise (fun _ _ _ _ ↦ Nat.le_antisymm) hsorted hrange
    ((hperm.map _).trans (hpartitions ▸ horder))

/-- Two stores hold the same segments when they hold the same segment for each partition. -/
theorem Holds.eq_of_accepts {other : Tree} {count : Nat} {first second : List Segment}
    (hfirst : merger.Holds tree count first) (hsecond : merger.Holds other count second)
    (hsame : ∀ {partition : PartitionIndex} {here there : Segment},
      merger.Accepts tree partition here → merger.Accepts other partition there → here = there) :
    first = second := by
  have hpartitions := hfirst.partitions.trans hsecond.partitions.symm
  have hlength : first.length = second.length := by simpa using congrArg List.length hpartitions
  apply List.ext_getElem hlength
  intro i hi hi'
  have hpartition : first[i].partition = second[i].partition := by
    have hget := congrArg (·[i]?) hpartitions
    simpa [hi, hi'] using hget
  exact hsame (hfirst.accepts _ (List.getElem_mem hi))
    (hpartition ▸ hsecond.accepts _ (List.getElem_mem hi'))

theorem Holds.unique {count : Nat} {first second : List Segment}
    (hfirst : merger.Holds tree count first) (hsecond : merger.Holds tree count second) :
    first = second :=
  hfirst.eq_of_accepts hsecond Accepts.unique

theorem exists_accepted {order : List PartitionIndex}
    (haccepts : ∀ partition ∈ order, ∃ segment, merger.Accepts tree partition segment) :
    ∃ segments : List Segment, segments.map (·.partition) = order ∧
      ∀ segment ∈ segments, merger.Accepts tree segment.partition segment := by
  induction order with
  | nil => exact ⟨[], rfl, nofun⟩
  | cons partition rest ih =>
    obtain ⟨⟨segment, hsegment⟩, hrest⟩ := List.forall_mem_cons.mp haccepts
    obtain ⟨segments, rfl, hsegments⟩ := ih hrest
    obtain rfl := partition_of_checkSegment hsegment.2
    exact ⟨segment :: segments, rfl, List.forall_mem_cons.mpr ⟨hsegment, hsegments⟩⟩

/-- When the files hold segments that the merger takes, merging comes to merging these. -/
theorem runOn_mergeInOrder {order : List PartitionIndex}
    (horder : order.Perm (List.range order.length)) {segments : List Segment}
    (hholds : merger.Holds tree order.length segments) :
    (merger.mergeInOrder order).runOn tree = (merger.mergeSegments segments).runOn tree := by
  have haccepts : ∀ partition ∈ order, ∃ segment, merger.Accepts tree partition segment := by
    intro partition hpartition
    rw [horder.mem_iff, ← hholds.partitions, List.mem_map] at hpartition
    obtain ⟨segment, hsegment, rfl⟩ := hpartition
    exact ⟨segment, hholds.accepts segment hsegment⟩
  have hpresent : ∀ partition ∈ order,
      (tree.answer (.inspect (segmentPath merger.directory partition))).1.isSome := by
    intro partition hpartition
    obtain ⟨segment, ⟨contents, hread, -⟩, -⟩ := haccepts partition hpartition
    exact Tree.inspect_isSome_of_read hread
  obtain ⟨opened, hpartitions, hopened⟩ := exists_accepted haccepts
  have hsame := (holds_mergeSort horder hpartitions hopened).unique hholds
  have hrequire : (merger.requireSegments order).runOn tree = (.ok (), tree) :=
    requireSegments_ok.mpr ⟨rfl, hpresent⟩
  have hopen : (merger.openSegments order).runOn tree = (.ok opened, tree) :=
    openSegments_ok.mpr ⟨rfl, hpartitions, hopened⟩
  unfold mergeInOrder
  rw [runOn_bind, runOn_ofExcept, checkOrder_eq_ok.mpr horder]
  dsimp only
  rw [runOn_bind, hrequire]
  dsimp only
  rw [runOn_bind, hopen]
  dsimp only
  rw [hsame]

/-- Merging in an order merges the segments that the files of the partitions hold. -/
theorem mergeInOrder_ok {order : List PartitionIndex} {metadata : Metadata} :
    (merger.mergeInOrder order).runOn tree = (.ok metadata, changed) ↔
      order.Perm (List.range order.length) ∧ ∃ segments,
        merger.Holds tree order.length segments ∧
          (merger.mergeSegments segments).runOn tree = (.ok metadata, changed) := by
  constructor
  · intro hrun
    unfold mergeInOrder at hrun
    obtain ⟨_, checked, hcheck, hpresent⟩ := runOn_bind_ok.mp hrun
    obtain ⟨_, present, hrequire, hopens⟩ := runOn_bind_ok.mp hpresent
    obtain ⟨segments, opened, hopen, hmerge⟩ := runOn_bind_ok.mp hopens
    obtain ⟨hchecked, rfl⟩ := runOn_ofExcept_ok.mp hcheck
    obtain ⟨rfl, -⟩ := requireSegments_ok.mp hrequire
    obtain ⟨rfl, hpartitions, haccepts⟩ := openSegments_ok.mp hopen
    have horder := checkOrder_eq_ok.mp hchecked
    exact ⟨horder, _, holds_mergeSort horder hpartitions haccepts, hmerge⟩
  · rintro ⟨horder, segments, hholds, hmerge⟩
    exact (runOn_mergeInOrder horder hholds).trans hmerge

end SegmentMerger
end VectorIndex
