import Mathlib.Data.List.Induction
import Mathlib.Data.List.Pairwise
import VectorIndex.Proofs.Build.Inventory

/-!
# Which names are listed as segments

A name is taken for a segment when it spells a number of 32 bits between the beginning and the
ending of such names. A number has many spellings, since a plus sign and zeros may stand in front of
its digits, but a segment has the name without them. The listing of a directory holds the numbers of
all names that spell one, so it is the list of the segments that are there exactly when every such
name is that of a segment.
-/

namespace VectorIndex

/-! ## Spellings of numbers -/

namespace Decimal

theorem digitsValue_append_digit (front : List Char) (last : Char) :
    digitsValue (front ++ [last]) = 10 * digitsValue front + (last.toNat - '0'.toNat) := by
  unfold digitsValue
  rw [List.foldl_append, List.foldl_cons, List.foldl_nil, Nat.mul_comm]

/-- A run of digits is the number that it reads as, with zeros in front. -/
theorem exists_zeros_of_digits {digits : List Char} (hne : digits ≠ [])
    (hdigits : ∀ c ∈ digits, c.isDigit = true) :
    ∃ zeros, digits = List.replicate zeros '0' ++ Nat.toDigits 10 (digitsValue digits) := by
  induction digits using List.reverseRecOn with
  | nil => exact absurd rfl hne
  | append_singleton front last ih =>
    obtain ⟨d, hd, rfl⟩ : ∃ d < 10, last = Nat.digitChar d := by
      have hlast := hdigits last (List.mem_append_right _ List.mem_cons_self)
      rw [Char.isDigit_iff_toNat] at hlast
      change 48 ≤ last.toNat ∧ last.toNat ≤ 57 at hlast
      refine ⟨last.toNat - 48, by omega, Char.toNat_inj.mp ?_⟩
      rw [Nat.toNat_digitChar_of_lt_ten (by omega)]
      omega
    have hvalue : (Nat.digitChar d).toNat - '0'.toNat = d := by
      rw [Nat.toNat_digitChar_of_lt_ten hd]
      exact Nat.add_sub_cancel_left 48 d
    rw [digitsValue_append_digit, hvalue, ← Nat.toDigits_of_lt_base hd]
    by_cases hfront : front = []
    · subst hfront
      exact ⟨0, by simp [digitsValue]⟩
    · obtain ⟨zeros, heq⟩ := ih hfront fun c hc ↦ hdigits c (List.mem_append_left _ hc)
      by_cases hzero : digitsValue front = 0
      · -- What stands in front of the last digit is nothing but zeros.
        rw [hzero, Nat.toDigits_zero] at heq
        refine ⟨zeros + 1, ?_⟩
        rw [hzero, Nat.mul_zero, Nat.zero_add, heq, List.replicate_succ']
      · refine ⟨zeros, ?_⟩
        rw [← Nat.toDigits_append_toDigits (by decide) (Nat.pos_of_ne_zero hzero) hd,
          ← List.append_assoc, ← heq]

theorem digits?_eq_some {text : List Char} {number : Nat} :
    digits? text = some number ↔
      ∃ zeros, text = List.replicate zeros '0' ++ Nat.toDigits 10 number := by
  constructor
  · intro hread
    unfold digits? at hread
    split at hread
    · next htext =>
      obtain rfl := Option.some.inj hread
      simp only [Bool.and_eq_true, Bool.not_eq_true', List.isEmpty_eq_false_iff,
        List.all_eq_true] at htext
      exact exists_zeros_of_digits htext.1 htext.2
    · cases hread
  · rintro ⟨zeros, rfl⟩
    induction zeros with
    | zero => exact digits?_toDigits number
    | succ zeros ih =>
      unfold digits? digitsValue at *
      rw [List.replicate_succ, List.cons_append, List.foldl_cons]
      split at ih
      · next htext =>
        rw [Bool.and_eq_true] at htext
        rw [List.all_cons, htext.2]
        exact ih
      · cases ih

/-- Spellings of a number: a sign or none, any zeros, and its digits. -/
def Spells (number : Nat) (text : List Char) : Prop :=
  ∃ sign zeros, (sign = [] ∨ sign = ['+']) ∧
    text = sign ++ (List.replicate zeros '0' ++ Nat.toDigits 10 number)

theorem natural?_eq_some {bits number : Nat} {text : List Char} :
    natural? bits text = some number ↔ Spells number text ∧ number < Nat.pow 2 bits := by
  unfold natural?
  rw [Option.filter_eq_some_iff, decide_eq_true_iff, digits?_eq_some]
  refine and_congr_left fun _ ↦ ⟨?_, ?_⟩
  · split
    · rintro ⟨zeros, rfl⟩
      exact ⟨['+'], zeros, .inr rfl, rfl⟩
    · rintro ⟨zeros, rfl⟩
      exact ⟨[], zeros, .inl rfl, rfl⟩
  · rintro ⟨sign, zeros, rfl | rfl, rfl⟩
    · refine ⟨zeros, ?_⟩
      split
      · next rest hplus =>
        -- No digit is a sign.
        have hmem : '+' ∈ List.replicate zeros '0' ++ Nat.toDigits 10 number := by
          rw [← List.nil_append (_ ++ _), hplus]
          exact List.mem_cons_self
        rcases List.mem_append.mp hmem with hzero | hdigit
        · exact absurd (List.eq_of_mem_replicate hzero) (by decide)
        · exact absurd (Nat.isDigit_of_mem_toDigits (by decide) (by decide) hdigit) (by decide)
      · rfl
    · exact ⟨zeros, rfl⟩

end Decimal

namespace Layout

theorem between?_eq_some {beginning ending name middle : List Char} :
    between? beginning ending name = some middle ↔ name = beginning ++ (middle ++ ending) := by
  constructor
  · intro hbetween
    unfold between? at hbetween
    split at hbetween
    · next hends =>
      obtain ⟨rest, rfl⟩ := List.isPrefixOf_iff_prefix.mp hends.1
      rw [List.drop_left] at hends hbetween
      obtain ⟨front, rfl⟩ := List.isSuffixOf_iff_suffix.mp hends.2
      rw [List.length_append, List.length_append, Nat.add_sub_cancel_left, Nat.add_sub_cancel_right,
        List.take_left, Option.some.injEq] at hbetween
      rw [hbetween]
    · cases hbetween
  · rintro rfl
    exact between?_append _ _ _

/-- Names that are taken for the segment of the partition. -/
def NamesSegment (number : PartitionIndex) (name : String) : Prop :=
  ∃ text, Decimal.Spells number text ∧
    name.toList = "segment_".toList ++ (text ++ ".seg".toList) ∧ number < 0x100000000

theorem partitionOfName?_eq_some {name : String} {number : PartitionIndex} :
    partitionOfName? name = some number ↔ NamesSegment number name := by
  unfold partitionOfName? NamesSegment
  rw [Option.bind_eq_some_iff]
  refine exists_congr fun text ↦ ?_
  rw [between?_eq_some, Decimal.natural?_eq_some, ← and_assoc, ← and_assoc, and_comm (a := _ = _)]

theorem namesSegment_segmentName {number : PartitionIndex} (hnumber : number < 0x100000000) :
    NamesSegment number (segmentName number) :=
  ⟨_, ⟨[], 0, .inl rfl, rfl⟩, toList_segmentName number, hnumber⟩

/-! ## The listing of a directory -/

section

variable {layout : Layout} {tree : Tree} {names : List String}

/-- A directory whose names are listed is there, and they are the names of what it holds. -/
theorem isDirectory_of_list (hlist : tree.list layout.root = .ok names) :
    layout.root ≠ "" ∧ tree.IsDirectory (Location.ofDirectory layout.root) ∧
      ∀ name, name ∈ names ↔ tree.find? (Location.ofDirectory layout.root ++ [name]) ≠ none := by
  have hroot : layout.root ≠ "" := by
    intro hempty
    rw [hempty] at hlist
    cases hlist
  have hpath := Location.ofPath_of_ne_empty hroot
  obtain ⟨entry, hlookup, -⟩ := Result.bind_ok.mp hlist
  cases entry with
  | file contents modified =>
    rw [Tree.list, hlookup] at hlist
    cases hlist
  | directory =>
    obtain ⟨habove, hfind, -⟩ := (Tree.lookup_eq_ok hpath).mp hlookup
    have hdirectory := Tree.isDirectory_of_above habove hfind
    obtain ⟨listed, hlisted, hmem⟩ := Tree.exists_list hpath hdirectory
    obtain rfl := Except.ok.inj (hlist.symm.trans hlisted)
    exact ⟨hroot, hdirectory, hmem⟩

/-- The segment of a partition is there when its name is listed. -/
theorem exists?_segment (hlist : tree.list layout.root = .ok names) (number : PartitionIndex) :
    ((IndexProgram.exists? (layout.segment number)).run tree).1 = true ↔
      segmentName number ∈ names := by
  obtain ⟨-, hdirectory, hmem⟩ := isDirectory_of_list hlist
  have hname := isName_segmentName number
  have hlookup (entry : Entry) : tree.lookup (Path.join layout.root (segmentName number)) =
      .ok entry ↔ tree.find? (Location.ofDirectory layout.root ++ [segmentName number]) =
        some entry :=
    Tree.lookup_eq_ok_of_isDirectory hdirectory (Location.ofPath_join layout.root hname)
      (Path.endsWithSlash_join layout.root hname)
  rw [hmem, Option.ne_none_iff_exists']
  simp only [← hlookup]
  show (tree.answer (.inspect (layout.segment number))).1.isSome = true ↔ _
  rw [Tree.answer_inspect, Layout.segment, segmentPath_eq_join]
  cases tree.lookup (Path.join layout.root (segmentName number)) with
  | error fault => simp
  | ok entry => cases entry <;> simp

/-- The numbers that some names spell are all different when no two names spell the same one. -/
theorem nodup_filterMap_iff (hnodup : names.Nodup) :
    (names.filterMap partitionOfName?).Nodup ↔ ∀ first ∈ names, ∀ second ∈ names, ∀ number,
      NamesSegment number first → NamesSegment number second → first = second := by
  unfold List.Nodup at *
  rw [List.pairwise_filterMap]
  constructor
  · intro hpairs first hfirst second hsecond number hread hagain
    by_contra hne
    have : Std.Symm fun first second : String ↦ ∀ number, partitionOfName? first = some number →
        ∀ other, partitionOfName? second = some other → number ≠ other :=
      ⟨fun _ _ hpair number hnumber other hother heq ↦ hpair other hother number hnumber heq.symm⟩
    exact hpairs.forall hfirst hsecond hne number (partitionOfName?_eq_some.mpr hread) number
      (partitionOfName?_eq_some.mpr hagain) rfl
  · intro hinjective
    refine hnodup.imp_of_mem fun hfirst hsecond hne number hnumber other hother heq ↦ hne ?_
    exact hinjective _ hfirst _ hsecond number (partitionOfName?_eq_some.mp hnumber)
      (partitionOfName?_eq_some.mp (heq ▸ hother))

/-- The listing of a directory holds, in order, the number of each name that is taken for a
segment. It ascends strictly and holds exactly the numbers of 32 bits whose segments are there if
and only if every such name is the name of a segment. -/
theorem existingSegments_of_list (hlist : tree.list layout.root = .ok names)
    (hnodup : names.Nodup) :
    ∃ numbers, layout.existingSegments.run tree = (.ok numbers, tree) ∧
      numbers.Pairwise (· ≤ ·) ∧ numbers.Perm (names.filterMap partitionOfName?) ∧
      (∀ name number, partitionOfName? name = some number ↔ NamesSegment number name) ∧
      ((numbers.Pairwise (· < ·) ∧ ∀ number < 0x100000000, number ∈ numbers ↔
          ((IndexProgram.exists? (layout.segment number)).run tree).1 = true) ↔
        ∀ name ∈ names, ∀ number, NamesSegment number name → name = segmentName number) := by
  obtain ⟨hroot, hdirectory, -⟩ := isDirectory_of_list hlist
  have hlocation := Location.ofPath_of_ne_empty hroot
  have hperm : ((names.filterMap partitionOfName?).mergeSort (· ≤ ·)).Perm
      (names.filterMap partitionOfName?) := List.mergeSort_perm ..
  have hsorted := pairwise_mergeSort_le (fun number ↦ number) (names.filterMap partitionOfName?)
  refine ⟨_, ?_, hsorted, hperm, fun name number ↦ partitionOfName?_eq_some, ?_, ?_⟩
  · unfold existingSegments Layout.names
    rw [StoreProgram.run_bind, StoreProgram.run_bind, SegmentMerger.run_exists?,
      Tree.answer_inspect, Tree.lookup_directory hlocation hdirectory]
    show ((tree.list layout.root).map _, tree) = _
    rw [hlist]
    rfl
  · rintro ⟨hstrict, hpresent⟩ name hname number hspells
    have hlisted : number ∈ names.filterMap partitionOfName? :=
      List.mem_filterMap.mpr ⟨name, hname, partitionOfName?_eq_some.mpr hspells⟩
    obtain ⟨-, -, -, hnumber⟩ := id hspells
    have hsegment := (exists?_segment hlist number).mp
      ((hpresent number hnumber).mp (hperm.mem_iff.mpr hlisted))
    have hdistinct := hperm.nodup_iff.mp (hstrict.imp Nat.ne_of_lt)
    exact (nodup_filterMap_iff hnodup).mp hdistinct name hname _ hsegment number hspells
      (namesSegment_segmentName hnumber)
  · intro hnamed
    have hdistinct : (names.filterMap partitionOfName?).Nodup :=
      (nodup_filterMap_iff hnodup).mpr fun first hfirst second hsecond number hread hagain ↦
        (hnamed first hfirst number hread).trans (hnamed second hsecond number hagain).symm
    refine ⟨hsorted.imp₂ (fun _ _ hle hne ↦ Nat.lt_of_le_of_ne hle hne)
      (hperm.nodup_iff.mpr hdistinct), fun number hnumber ↦ ?_⟩
    rw [hperm.mem_iff, List.mem_filterMap, exists?_segment hlist]
    constructor
    · rintro ⟨name, hname, hread⟩
      exact hnamed name hname number (partitionOfName?_eq_some.mp hread) ▸ hname
    · exact fun hsegment ↦ ⟨_, hsegment,
        partitionOfName?_eq_some.mpr (namesSegment_segmentName hnumber)⟩

/-- A directory with one segment, another name that is read as its number, and a number that is
spelled only with a zero in front. -/
def spelledTree : Tree :=
  ⟨[(["d"], .directory), (["d", "segment_01.seg"], .file [] 0),
    (["d", "segment_2.seg"], .file [] 0), (["d", "segment_+2.seg"], .file [] 0)], 0⟩

theorem existingSegments_of_list_spelled : ∃ numbers,
    spelledTree.list "d" = .ok ["segment_01.seg", "segment_2.seg", "segment_+2.seg"] ∧
      ["segment_01.seg", "segment_2.seg", "segment_+2.seg"].Nodup ∧
      (Layout.mk "d").existingSegments.run spelledTree = (.ok numbers, spelledTree) ∧
      numbers.Perm [1, 2, 2] ∧
      ((IndexProgram.exists? "d/segment_1.seg").run spelledTree).1 = false ∧
      ¬ (numbers.Pairwise (· < ·) ∧ ∀ number < 0x100000000, number ∈ numbers ↔
        ((IndexProgram.exists? ((Layout.mk "d").segment number)).run spelledTree).1 = true) := by
  have hlist : spelledTree.list "d" =
      .ok ["segment_01.seg", "segment_2.seg", "segment_+2.seg"] := by decide
  have hnodup : ["segment_01.seg", "segment_2.seg", "segment_+2.seg"].Nodup := by decide
  obtain ⟨numbers, hrun, -, hperm, hreads, hiff⟩ :=
    existingSegments_of_list (show spelledTree.list (Layout.mk "d").root = _ from hlist) hnodup
  refine ⟨numbers, hlist, hnodup, hrun, hperm, by decide, ?_⟩
  rw [hiff]
  intro hnamed
  have hzero := hnamed "segment_01.seg" (by decide) 1 ((hreads _ _).mp (by decide))
  exact absurd hzero (by decide)

end

end Layout
end VectorIndex
