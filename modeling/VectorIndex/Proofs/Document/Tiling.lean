import Mathlib.Algebra.GroupWithZero.Nat
import VectorIndex.Document.Id

/-!
# Tilings

The ranges are swept in the order of their starts and lengths, which is a linear order, so a
tiling is judged alike in whatever order its ranges are given. The ranges of a tiling own every id
below the total, once each, and ranges that do so are a tiling unless one without ids lies inside
another. That is so of ranges whose ids end below `2 ^ 64`; the end of any other is not where its
ids would end.
-/

namespace VectorIndex

namespace IdRange

theorem before_iff {a b : IdRange} :
    a.before b = true ↔ a.start < b.start ∨ a.start = b.start ∧ a.length ≤ b.length := by
  simp [before]

theorem before_trans {a b c : IdRange} (hab : a.before b = true) (hbc : b.before c = true) :
    a.before c = true := by
  rw [before_iff] at *
  unfold DocumentId at *
  omega

theorem before_total (a b : IdRange) : (a.before b || b.before a) = true := by
  rw [Bool.or_eq_true, before_iff, before_iff]
  unfold DocumentId at *
  omega

theorem before_antisymm {a b : IdRange} (hab : a.before b = true) (hba : b.before a = true) :
    a = b := by
  rw [before_iff] at hab hba
  have hstart : a.start = b.start := by
    unfold DocumentId at *
    omega
  have hlength : a.length = b.length := by
    unfold DocumentId at *
    omega
  cases a
  cases b
  rw [IdRange.mk.injEq]
  exact ⟨hstart, hlength⟩

theorem sorted_mergeSort (ranges : List IdRange) :
    (ranges.mergeSort before).Pairwise fun a b ↦ a.before b = true := by
  apply List.pairwise_mergeSort
  · exact fun _ _ _ hab hbc ↦ before_trans hab hbc
  · exact fun a b ↦ before_total a b

theorem mergeSort_before_congr {first second : List IdRange} (hperm : first.Perm second) :
    first.mergeSort before = second.mergeSort before := by
  apply List.Perm.eq_of_pairwise (fun _ _ _ _ ↦ before_antisymm) (sorted_mergeSort first)
    (sorted_mergeSort second)
  exact ((List.mergeSort_perm first before).trans hperm).trans (List.mergeSort_perm second before).symm

/-- Ranges that are in order are swept as they are. -/
theorem checkTiling_of_sorted {ranges : List IdRange}
    (hsorted : ranges.Pairwise fun a b ↦ a.before b = true) (total : Nat) :
    checkTiling ranges total = sweep total 0 ranges := by
  rw [checkTiling, List.mergeSort_of_pairwise hsorted]

/-- The end of the range is a number of 64 bits. -/
def IsExact (range : IdRange) : Prop := range.start + range.length < 0x10000000000000000

instance (range : IdRange) : Decidable range.IsExact := inferInstanceAs (Decidable (_ < _))

theorem IsExact.stop_eq {range : IdRange} (hexact : range.IsExact) :
    range.stop = range.start + range.length :=
  Nat.mod_eq_of_lt hexact

theorem stop_le (range : IdRange) : range.stop ≤ range.start + range.length := Nat.mod_le _ _

end IdRange

theorem checkTiling_congr {first second : List IdRange} (hperm : first.Perm second) (total : Nat) :
    checkTiling first total = checkTiling second total := by
  rw [checkTiling, IdRange.mergeSort_before_congr hperm, checkTiling]

/-- A sweep goes on behind a range that starts where it stands. -/
theorem sweep_cons_eq_ok {total reached : Nat} {range : IdRange} {rest : List IdRange} :
    sweep total reached (range :: rest) = .ok () ↔
      range.start = reached ∧ sweep total range.stop rest = .ok () := by
  rw [sweep]
  rcases Nat.lt_trichotomy range.start reached with hlt | heq | hgt
  · simp [hlt, Nat.ne_of_lt hlt]
  · simp [heq]
  · simp [hgt, Nat.not_lt_of_lt hgt, Nat.ne_of_gt hgt]

/-- Ranges that a sweep accepts own the ids from where it stands up to the total, in order. -/
theorem flatMap_ids_of_sweep {total reached : Nat} {ranges : List IdRange}
    (hexact : ∀ range ∈ ranges, range.IsExact) (hsweep : sweep total reached ranges = .ok ()) :
    reached ≤ total ∧ ranges.flatMap IdRange.ids = List.range' reached (total - reached) := by
  induction ranges generalizing reached with
  | nil =>
    rw [sweep] at hsweep
    split at hsweep
    · next heq => simp [heq]
    · cases hsweep
  | cons range rest ih =>
    obtain ⟨rfl, hlater⟩ := sweep_cons_eq_ok.mp hsweep
    obtain ⟨hfirst, hothers⟩ := List.forall_mem_cons.mp hexact
    obtain ⟨hle, hrest⟩ := ih hothers hlater
    rw [hfirst.stop_eq] at hle hrest
    refine ⟨by omega, ?_⟩
    rw [List.flatMap_cons, hrest, IdRange.ids, hfirst.stop_eq, Nat.add_sub_cancel_left,
      List.range'_append_1]
    congr 1
    omega

theorem flatMap_ids_perm_of_checkTiling {ranges : List IdRange} {total : Nat}
    (hexact : ∀ range ∈ ranges, range.IsExact) (htiling : checkTiling ranges total = .ok ()) :
    (ranges.flatMap IdRange.ids).Perm (List.range total) := by
  have hperm := List.mergeSort_perm ranges IdRange.before
  have hsorted := hperm.flatMap_right IdRange.ids
  have hids := (flatMap_ids_of_sweep (fun range hrange ↦ hexact range (hperm.mem_iff.mp hrange))
    htiling).2
  rw [hids, Nat.sub_zero, ← List.range_eq_range'] at hsorted
  exact hsorted.symm

theorem total_le_of_sweep {total reached : Nat} {ranges : List IdRange}
    (hsweep : sweep total reached ranges = .ok ()) :
    total ≤ reached + (ranges.map IdRange.length).sum := by
  induction ranges generalizing reached with
  | nil =>
    rw [sweep] at hsweep
    split at hsweep
    · next heq => exact Nat.le_of_eq heq.symm
    · cases hsweep
  | cons range rest ih =>
    obtain ⟨rfl, hlater⟩ := sweep_cons_eq_ok.mp hsweep
    have hstop := range.stop_le
    have hrest := ih hlater
    rw [List.map_cons, List.sum_cons]
    unfold DocumentId at *
    omega

/-- A sweep that ends where the lengths add up to has lost nothing of any end. -/
theorem isExact_of_sweep {total reached : Nat} {ranges : List IdRange}
    (hsweep : sweep total reached ranges = .ok ())
    (htotal : total = reached + (ranges.map IdRange.length).sum) :
    ∀ range ∈ ranges, range.IsExact := by
  induction ranges generalizing reached with
  | nil => exact nofun
  | cons range rest ih =>
    obtain ⟨rfl, hlater⟩ := sweep_cons_eq_ok.mp hsweep
    rw [List.map_cons, List.sum_cons] at htotal
    have hle := range.stop_le
    have hrest := total_le_of_sweep hlater
    have hstop : range.stop = range.start + range.length := by
      unfold DocumentId at *
      omega
    have hexact : range.IsExact := by
      unfold IdRange.IsExact
      rw [← hstop]
      exact Nat.mod_lt _ (by decide)
    exact List.forall_mem_cons.mpr ⟨hexact, ih hlater (by rw [htotal, hstop, Nat.add_assoc])⟩

theorem isExact_of_checkTiling {ranges : List IdRange}
    (htiling : checkTiling ranges (ranges.map IdRange.length).sum = .ok ()) :
    ∀ range ∈ ranges, range.IsExact := by
  have hperm := List.mergeSort_perm ranges IdRange.before
  have hsum := (hperm.map IdRange.length).sum_nat
  intro range hrange
  exact isExact_of_sweep htiling (by rw [hsum, Nat.zero_add]) range (hperm.mem_iff.mpr hrange)

/-- A sweep ends at the end of a range, or where it began. -/
theorem total_lt_of_sweep {total reached : Nat} {ranges : List IdRange}
    (hreached : reached < 0x10000000000000000) (hsweep : sweep total reached ranges = .ok ()) :
    total < 0x10000000000000000 := by
  induction ranges generalizing reached with
  | nil =>
    rw [sweep] at hsweep
    split at hsweep
    · next heq => exact heq ▸ hreached
    · cases hsweep
  | cons range rest ih => exact ih (Nat.mod_lt _ (by decide)) (sweep_cons_eq_ok.mp hsweep).2

theorem total_lt_of_checkTiling {ranges : List IdRange} {total : Nat}
    (htiling : checkTiling ranges total = .ok ()) : total < 0x10000000000000000 :=
  total_lt_of_sweep (by decide) htiling

/-! ## What the check accepts -/

/-- The ids from `first` up to `total` are owned once each and no others are, and a range of no ids
starts at the end or where a range with ids starts. -/
structure Tiles (first total : Nat) (ranges : List IdRange) : Prop where
  owned : ∀ id : Nat, first ≤ id → id < total → ranges.countP (·.contains id) = 1
  within : ∀ range ∈ ranges, ∀ id : Nat, range.contains id = true → first ≤ id ∧ id < total
  empty : ∀ range ∈ ranges, range.length = 0 →
    range.start = total ∨ ∃ other ∈ ranges, 0 < other.length ∧ other.start = range.start

namespace IdRange

theorem contains_iff {range : IdRange} {id : Nat} :
    range.contains id = true ↔ range.start ≤ id ∧ id < range.stop := by
  rw [contains, Bool.and_eq_true, decide_eq_true_iff, decide_eq_true_iff]

theorem contains_start {range : IdRange} (hexact : range.IsExact) (hlength : 0 < range.length) :
    range.contains range.start = true :=
  contains_iff.mpr ⟨Nat.le_refl _, hexact.stop_eq ▸ Nat.lt_add_of_pos_right hlength⟩

theorem IsExact.start_le {range : IdRange} (hexact : range.IsExact) : range.start ≤ range.stop :=
  hexact.stop_eq ▸ Nat.le_add_right _ _

theorem IsExact.stop_eq_start {range : IdRange} (hexact : range.IsExact) (hempty : range.length = 0) :
    range.stop = range.start := by
  rw [hexact.stop_eq, hempty, Nat.add_zero]

end IdRange

namespace Tiles

variable {first total : Nat} {range : IdRange} {ranges rest : List IdRange}

theorem nil_iff : Tiles first total [] ↔ total ≤ first := by
  constructor
  · intro htiles
    exact Nat.le_of_not_lt fun hlt ↦ absurd (htiles.owned first (Nat.le_refl _) hlt) (by simp)
  · exact fun hle ↦ ⟨fun id hfirst htotal ↦ by omega, nofun, nofun⟩

/-- The first id, where there is one to be owned, is the first of its owner. -/
theorem exists_first (hexact : ∀ range ∈ ranges, range.IsExact) (htiles : Tiles first total ranges)
    (hlt : first < total) :
    ∃ owner ∈ ranges, 0 < owner.length ∧ owner.start = first := by
  have hcount : 0 < ranges.countP (·.contains first) := by
    rw [htiles.owned first (Nat.le_refl _) hlt]
    exact Nat.one_pos
  obtain ⟨owner, howner, hcontains⟩ := List.countP_pos_iff.mp hcount
  obtain ⟨hstart, hstop⟩ := IdRange.contains_iff.mp hcontains
  have hlength : 0 < owner.length := by
    rw [(hexact owner howner).stop_eq] at hstop
    unfold DocumentId at *
    omega
  have hcontained := IdRange.contains_start (hexact owner howner) hlength
  have hfirst := (htiles.within owner howner _ hcontained).1
  exact ⟨owner, howner, hlength, Nat.le_antisymm hstart hfirst⟩

/-- A range before a tiling makes a longer one. -/
theorem cons (hexact : ∀ other ∈ range :: rest, other.IsExact) (hstart : range.start = first)
    (hstop : range.stop ≤ total) (hrest : Tiles range.stop total rest) :
    Tiles first total (range :: rest) := by
  subst hstart
  obtain ⟨hrange, hothers⟩ := List.forall_mem_cons.mp hexact
  refine ⟨fun id hfirst htotal ↦ ?_, fun other hother id hid ↦ ?_, fun other hother hempty ↦ ?_⟩
  · rw [List.countP_cons]
    by_cases hid : id < range.stop
    · have hothers : rest.countP (·.contains id) = 0 := by
        rw [List.countP_eq_zero]
        exact fun other hother hcontains ↦
          absurd (hrest.within other hother id hcontains).1 (Nat.not_le_of_lt hid)
      rw [hothers, if_pos (IdRange.contains_iff.mpr ⟨hfirst, hid⟩)]
    · rw [hrest.owned id (Nat.le_of_not_lt hid) htotal,
        if_neg fun hcontains ↦ hid (IdRange.contains_iff.mp hcontains).2]
  · rcases List.mem_cons.mp hother with rfl | hother
    · obtain ⟨hfirst, hlast⟩ := IdRange.contains_iff.mp hid
      exact ⟨hfirst, Nat.lt_of_lt_of_le hlast hstop⟩
    · obtain ⟨hfirst, hlast⟩ := hrest.within other hother id hid
      exact ⟨Nat.le_trans hrange.start_le hfirst, hlast⟩
  · rcases List.mem_cons.mp hother with rfl | hother
    · rw [hrange.stop_eq_start hempty] at hstop hrest
      rcases Nat.lt_or_eq_of_le hstop with hlt | heq
      · obtain ⟨owner, howner, hfirst⟩ := hrest.exists_first hothers hlt
        exact .inr ⟨owner, List.mem_cons_of_mem other howner, hfirst⟩
      · exact .inl heq
    · rcases hrest.empty other hother hempty with hend | ⟨owner, howner, hfirst⟩
      · exact .inl hend
      · exact .inr ⟨owner, List.mem_cons_of_mem range howner, hfirst⟩

/-- Every range of a tiling lies in what is tiled, those without ids included. -/
theorem bounds (hexact : ∀ range ∈ ranges, range.IsExact) (hle : first ≤ total)
    (htiles : Tiles first total ranges) (hrange : range ∈ ranges) :
    first ≤ range.start ∧ range.stop ≤ total := by
  have hstarts (owner : IdRange) (howner : owner ∈ ranges) (hlength : 0 < owner.length) :
      first ≤ owner.start ∧ owner.start < total :=
    htiles.within owner howner _ (IdRange.contains_start (hexact owner howner) hlength)
  rcases Nat.eq_zero_or_pos range.length with hempty | hlength
  · rw [(hexact range hrange).stop_eq_start hempty]
    rcases htiles.empty range hrange hempty with hend | ⟨owner, howner, hsome, hstart⟩
    · rw [hend]
      exact ⟨hle, Nat.le_refl _⟩
    · obtain ⟨hfirst, hlast⟩ := hstarts owner howner hsome
      rw [← hstart]
      exact ⟨hfirst, Nat.le_of_lt hlast⟩
  · refine ⟨(hstarts range hrange hlength).1, ?_⟩
    have hstop := (hexact range hrange).stop_eq
    have hlast : range.contains (range.stop - 1) = true :=
      IdRange.contains_iff.mpr (by unfold DocumentId at *; omega)
    exact Nat.le_of_pred_lt (htiles.within range hrange _ hlast).2

/-- The first range of a tiling in order starts where the tiling does. -/
theorem start_eq (hexact : ∀ other ∈ range :: rest, other.IsExact) (hle : first ≤ total)
    (htiles : Tiles first total (range :: rest))
    (hsorted : ∀ other ∈ rest, range.before other = true) : range.start = first := by
  obtain ⟨hfirst, hstop⟩ := htiles.bounds hexact hle List.mem_cons_self
  refine Nat.le_antisymm ?_ hfirst
  rcases Nat.lt_or_eq_of_le hle with hlt | heq
  · obtain ⟨owner, howner, -, hstart⟩ := htiles.exists_first hexact hlt
    rw [← hstart]
    rcases List.mem_cons.mp howner with rfl | howner
    · exact Nat.le_refl _
    · rcases IdRange.before_iff.mp (hsorted owner howner) with hbefore | ⟨hsame, -⟩
      · exact Nat.le_of_lt hbefore
      · exact Nat.le_of_eq hsame
  · rw [heq]
    exact Nat.le_trans (hexact range List.mem_cons_self).start_le hstop

/-- The other ranges of a tiling in order tile what the first leaves. -/
theorem tail (hexact : range.IsExact) (htiles : Tiles range.start total (range :: rest))
    (hsorted : ∀ other ∈ rest, range.before other = true) : Tiles range.stop total rest := by
  have howned (id : Nat) (hfirst : range.start ≤ id) (htotal : id < total) :
      rest.countP (·.contains id) + (if range.contains id then 1 else 0) = 1 :=
    List.countP_cons.symm.trans (htiles.owned id hfirst htotal)
  refine ⟨fun id hfirst htotal ↦ ?_, fun other hother id hid ↦ ?_, fun other hother hempty ↦ ?_⟩
  · have hrest := howned id (Nat.le_trans hexact.start_le hfirst) htotal
    rwa [if_neg fun hcontains ↦
      absurd (IdRange.contains_iff.mp hcontains).2 (Nat.not_lt_of_le hfirst)] at hrest
  · obtain ⟨hfirst, htotal⟩ := htiles.within other (List.mem_cons_of_mem range hother) id hid
    refine ⟨Nat.le_of_not_lt fun hlt ↦ ?_, htotal⟩
    -- otherwise the id would be owned twice
    have hrest := howned id hfirst htotal
    rw [if_pos (IdRange.contains_iff.mpr ⟨hfirst, hlt⟩)] at hrest
    exact List.countP_eq_zero.mp (Nat.add_right_cancel hrest) other hother hid
  · rcases htiles.empty other (List.mem_cons_of_mem range hother) hempty with
      hend | ⟨owner, howner, hsome, hstart⟩
    · exact .inl hend
    · rcases List.mem_cons.mp howner with rfl | howner
      · have hbefore := IdRange.before_iff.mp (hsorted other hother)
        unfold DocumentId at *
        omega
      · exact .inr ⟨owner, howner, hsome, hstart⟩

theorem perm {second : List IdRange} (hperm : ranges.Perm second)
    (htiles : Tiles first total ranges) : Tiles first total second where
  owned id hfirst htotal := (hperm.countP_eq _).symm.trans (htiles.owned id hfirst htotal)
  within range hrange := htiles.within range (hperm.mem_iff.mpr hrange)
  empty range hrange hempty := (htiles.empty range (hperm.mem_iff.mpr hrange) hempty).imp_right
    fun ⟨owner, howner, hfirst⟩ ↦ ⟨owner, hperm.mem_iff.mp howner, hfirst⟩

end Tiles

/-- A sweep over ranges in order accepts the tilings of what is left. -/
theorem sweep_eq_ok_iff {total reached : Nat} {ranges : List IdRange}
    (hexact : ∀ range ∈ ranges, range.IsExact) (hle : reached ≤ total)
    (hsorted : ranges.Pairwise fun a b ↦ a.before b = true) :
    sweep total reached ranges = .ok () ↔ Tiles reached total ranges := by
  induction ranges generalizing reached with
  | nil =>
    rw [Tiles.nil_iff, sweep]
    split
    · next heq => exact iff_of_true rfl (Nat.le_of_eq heq.symm)
    · next hne => exact iff_of_false nofun fun hge ↦ hne (Nat.le_antisymm hle hge)
  | cons range rest ih =>
    obtain ⟨hbefore, hrest⟩ := List.pairwise_cons.mp hsorted
    obtain ⟨hrange, hothers⟩ := List.forall_mem_cons.mp hexact
    rw [sweep_cons_eq_ok]
    constructor
    · rintro ⟨hstart, hsweep⟩
      have hstop := (flatMap_ids_of_sweep hothers hsweep).1
      exact .cons hexact hstart hstop ((ih hothers hstop hrest).mp hsweep)
    · intro htiles
      obtain rfl := htiles.start_eq hexact hle hbefore
      have hstop := (htiles.bounds hexact hle List.mem_cons_self).2
      exact ⟨rfl, (ih hothers hstop hrest).mpr (htiles.tail hrange hbefore)⟩

/-- Ranges whose ends are numbers of 64 bits pass the check exactly when every id below the total
lies in one of them and in no other, no id from the total on lies in any, and every range of no ids
starts at the total or where a range with ids starts. In whatever order they are given, the verdict
is the same. -/
theorem checkTiling_eq_ok_iff (ranges : List IdRange) (total : Nat)
    (hexact : ∀ range ∈ ranges, range.start + range.length < 0x10000000000000000) :
    (checkTiling ranges total = .ok () ↔
      (∀ id < total, ranges.countP (·.contains id) = 1) ∧
        (∀ id, total ≤ id → ∀ range ∈ ranges, range.contains id = false) ∧
        ∀ range ∈ ranges, range.length = 0 →
          range.start = total ∨ ∃ other ∈ ranges, 0 < other.length ∧ other.start = range.start) ∧
      ∀ other, other.Perm ranges → checkTiling other total = checkTiling ranges total := by
  have hperm := List.mergeSort_perm ranges IdRange.before
  have hsorted : ∀ range ∈ ranges.mergeSort IdRange.before, range.IsExact :=
    fun range hrange ↦ hexact range (hperm.mem_iff.mp hrange)
  have htiles : checkTiling ranges total = .ok () ↔ Tiles 0 total ranges :=
    (sweep_eq_ok_iff hsorted (Nat.zero_le _) (IdRange.sorted_mergeSort ranges)).trans
      ⟨Tiles.perm hperm, Tiles.perm hperm.symm⟩
  refine ⟨htiles.trans ⟨fun htiles ↦ ⟨?_, ?_, htiles.empty⟩, fun ⟨howned, hwithin, hempty⟩ ↦ ?_⟩,
    fun other hother ↦ checkTiling_congr hother total⟩
  · exact fun id htotal ↦ htiles.owned id (Nat.zero_le _) htotal
  · intro id htotal range hrange
    rw [Bool.eq_false_iff]
    exact fun hid ↦ absurd (htiles.within range hrange id hid).2 (Nat.not_lt_of_le htotal)
  · refine ⟨fun id _ ↦ howned id, fun range hrange id hid ↦ ⟨Nat.zero_le _, ?_⟩, hempty⟩
    exact Nat.lt_of_not_le fun htotal ↦ by simp [hwithin id htotal range hrange] at hid

/-- Three ranges out of order, one of them without ids, with what makes them a tiling. -/
theorem checkTiling_eq_ok_iff_unsorted :
    (∀ range ∈ [⟨2, 3⟩, ⟨0, 2⟩, ⟨2, 0⟩], IdRange.start range + range.length < 0x10000000000000000) ∧
      checkTiling [⟨2, 3⟩, ⟨0, 2⟩, ⟨2, 0⟩] 5 = .ok () ∧
      checkTiling [⟨2, 0⟩, ⟨2, 3⟩, ⟨0, 2⟩] 5 = .ok () := by
  have hexact : ∀ range ∈ [⟨2, 3⟩, ⟨0, 2⟩, ⟨2, 0⟩],
      IdRange.start range + range.length < 0x10000000000000000 := by decide
  obtain ⟨hiff, horder⟩ := checkTiling_eq_ok_iff [⟨2, 3⟩, ⟨0, 2⟩, ⟨2, 0⟩] 5 hexact
  have htiling : checkTiling [⟨2, 3⟩, ⟨0, 2⟩, ⟨2, 0⟩] 5 = .ok () := by
    refine hiff.mpr ⟨by decide, fun id htotal ↦ ?_, by decide⟩
    have hstops : ∀ range ∈ [⟨2, 3⟩, ⟨0, 2⟩, ⟨2, 0⟩], IdRange.stop range ≤ 5 := by decide
    intro range hrange
    rw [Bool.eq_false_iff]
    exact fun hid ↦ absurd (IdRange.contains_iff.mp hid).2
      (Nat.not_lt_of_le (Nat.le_trans (hstops range hrange) htotal))
  exact ⟨hexact, htiling, (horder _ (by decide)).trans htiling⟩

end VectorIndex
