import VectorIndex.Proofs.Document.Tiling
import VectorIndex.Proofs.Postings.Interruption
import VectorIndex.Proofs.Store.Hosting

/-!
# When a merge succeeds

In a directory that hosts files a merge fails only for its order, for its segments, or because they
do not tile the ids. What it publishes is then known without running it.
-/

namespace VectorIndex

open IndexProgram (runOn_bind_ok runOn_lift_ok runOn_ofExcept_ok runOn_onFailure_ok runOn_perform
  runOn_pure_ok)

namespace SegmentMerger

variable {merger : SegmentMerger} {tree : Tree} {segments : List Segment}

section

variable (hhosts : tree.Hosts merger.directory)
include hhosts

theorem exists_stageMetadata (metadata : Metadata) : ∃ staged changed,
    (merger.stageMetadata metadata).runOn tree = (.ok staged, changed) ∧
      changed.Hosts merger.directory ∧ Path.endsWithSlash staged.temporary = false := by
  obtain ⟨staged, created, hcreate, hhosted, hslash⟩ :=
    StagedFile.exists_create hhosts.admits Metadata.isName_fileName
  obtain ⟨temporary, -, -, hlocation, -, -, hbecomes⟩ :=
    StagedFile.create_ok Metadata.isName_fileName hcreate
  have hempty : created.files (Location.ofDirectory merger.directory ++ [temporary]) = some [] := by
    rw [hbecomes.files_eq, Files.put_self]
  obtain ⟨changed, happend, hkept⟩ := StagedFile.exists_append hhosted hlocation hslash hempty
    merger.metadataPath metadata.toBytes
  unfold stageMetadata
  exact ⟨staged, changed, runOn_bind_ok.mpr ⟨staged, created, hcreate, runOn_bind_ok.mpr
    ⟨(), changed, runOn_onFailure_ok.mpr happend, runOn_pure_ok.mpr ⟨rfl, rfl⟩⟩⟩, hkept, hslash⟩

theorem exists_stageMerge (segments : List Segment) {staged : StagedFile} {temporary : String}
    {contents : Bytes}
    (hlocation : Location.ofPath staged.temporary =
      some (Location.ofDirectory merger.directory ++ [temporary]))
    (hslash : Path.endsWithSlash staged.temporary = false)
    (hcontents : tree.files (Location.ofDirectory merger.directory ++ [temporary]) =
      some contents) : ∃ metadata previous stagedMetadata changed,
      (merger.stageMerge segments staged).runOn tree =
          (.ok (metadata, previous, stagedMetadata), changed) ∧
        changed.Hosts merger.directory ∧
        Path.endsWithSlash stagedMetadata.temporary = false := by
  have hticked : (tree.answer .now).2.Hosts merger.directory := hhosts.answer nofun
  obtain ⟨appended, happend, hhosted⟩ := StagedFile.exists_append hticked hlocation hslash hcontents
    merger.directory (merger.mergedCells segments).flatten
  obtain ⟨stagedMetadata, changed, hstage, hkept, hslash'⟩ := exists_stageMetadata hhosted
    (merger.describe segments (merger.mergedCells segments)
      (Calendar.write (tree.answer .now).1))
  have hload : ((Metadata.load merger.metadataPath).attempt.run appended).2 = appended := by
    rw [IndexProgram.run_attempt, Metadata.runOn_load]
  unfold stageMerge
  refine ⟨merger.describe segments (merger.mergedCells segments)
    (Calendar.write (tree.answer .now).1), ((Metadata.load merger.metadataPath).attempt.run
      appended).1, stagedMetadata, changed,
    runOn_bind_ok.mpr ⟨_, _, runOn_perform .now tree, ?_⟩, hkept, hslash'⟩
  refine runOn_bind_ok.mpr ⟨(), appended, happend, ?_⟩
  refine runOn_bind_ok.mpr ⟨_, appended, runOn_lift_ok.mpr ⟨rfl, hload⟩, ?_⟩
  exact runOn_bind_ok.mpr ⟨stagedMetadata, changed, hstage, runOn_pure_ok.mpr ⟨rfl, rfl⟩⟩

theorem exists_publish {data metadata : StagedFile} {name first second : String}
    {bytes described : Bytes} (hname : Path.IsName name)
    (hdirectory : data.directory = merger.directory)
    (hfirst : Location.ofPath data.temporary =
      some (Location.ofDirectory merger.directory ++ [first]))
    (hslash : Path.endsWithSlash data.temporary = false)
    (hbytes : tree.files (Location.ofDirectory merger.directory ++ [first]) = some bytes)
    (htarget : metadata.target = some merger.metadataPath)
    (hsecond : Location.ofPath metadata.temporary =
      some (Location.ofDirectory merger.directory ++ [second]))
    (hslash' : Path.endsWithSlash metadata.temporary = false) (hne : second ≠ first)
    (hother : second ≠ name)
    (hdescribed : tree.files (Location.ofDirectory merger.directory ++ [second]) =
      some described) :
    ∃ changed, (publish data name metadata).runOn tree = (.ok (), changed) ∧
      changed.Hosts merger.directory := by
  have hplace := Location.ofPath_join merger.directory hname
  obtain ⟨between, hdata, hhosted⟩ := StagedFile.exists_persist hhosts hfirst hslash hbytes hname
  obtain ⟨_, -, hmoved⟩ := StagedFile.persist_ok hfirst hplace hdata
  have hkept : between.files (Location.ofDirectory merger.directory ++ [second]) =
      some described := by
    rw [hmoved.files_eq, Files.put_other _ _ (by simpa using hother),
      Files.put_other _ _ (by simpa using hne), hdescribed]
  obtain ⟨changed, hmetadata, hpublished⟩ :=
    StagedFile.exists_persist hhosted hsecond hslash' hkept Metadata.isName_fileName
  unfold publish StagedFile.commitAs StagedFile.commit
  rw [hdirectory, htarget]
  exact ⟨changed, runOn_bind_ok.mpr ⟨(), between, runOn_onFailure_ok.mpr hdata, hmetadata⟩,
    hpublished⟩

/-- Segments that tile the ids are merged. -/
theorem exists_mergeSegments
    (htiling : checkTiling (segments.map (·.idRange)) (totalCount segments) = .ok ()) :
    ∃ metadata changed, (merger.mergeSegments segments).runOn tree = (.ok metadata, changed) ∧
      changed.Hosts merger.directory := by
  obtain ⟨staged, created, hcreate, hhosted, hslash⟩ := StagedFile.exists_createIn hhosts.admits
  obtain ⟨temporary, -, hdirectory, hlocation, -, -, hstaged⟩ := StagedFile.createIn_ok hcreate
  have hempty : created.files (Location.ofDirectory merger.directory ++ [temporary]) = some [] := by
    rw [hstaged.files_eq, Files.put_self]
  obtain ⟨metadata, previous, stagedMetadata, written, hwrite, hkept, hslash'⟩ :=
    exists_stageMerge hhosted segments hlocation hslash hempty
  obtain ⟨createdAt, name, rfl, hname, hne, htarget, hplace, -, -, hmerged⟩ :=
    stageMerge_ok hlocation hempty hwrite
  have hfile := Metadata.isName_dataFileName
    (Fingerprint.of (merger.mergedCells segments).flatten)
  have hother : name ≠ Metadata.dataFileName
      (Fingerprint.of (merger.mergedCells segments).flatten) :=
    hname.ne (by rw [Metadata.head_dataFileName]; decide)
  have hdata : written.files (Location.ofDirectory merger.directory ++ [temporary]) =
      some (merger.mergedCells segments).flatten := by
    rw [hmerged.files_eq, Files.put_other _ _ (by simpa using hne.symm), Files.put_self]
  obtain ⟨published, hpublish, hpublished⟩ := exists_publish hkept hfile hdirectory hlocation hslash hdata
    htarget hplace hslash' hne hother (by rw [hmerged.files_eq, Files.put_self])
  -- which stale files are removed is of no account
  obtain ⟨last, hremove, hlast⟩ : ∃ last, IndexProgram.runOn (ExceptT.lift (removeStale
      merger.directory (Metadata.dataFileName (Fingerprint.of
        (merger.mergedCells segments).flatten) ::
          (previous.toOption.map (·.dataFile)).toList))) published = (.ok (), last) ∧
      last.Hosts merger.directory :=
    ⟨_, runOn_lift_ok.mpr ⟨rfl, rfl⟩, hpublished.run_of_takes (takes_removeStale _ _)⟩
  unfold mergeSegments
  refine ⟨merger.describe segments (merger.mergedCells segments) createdAt, last,
    runOn_bind_ok.mpr ⟨(), tree, runOn_ofExcept_ok.mpr ⟨Result.mapError_ok.mpr htiling, rfl⟩, ?_⟩,
    hlast⟩
  refine runOn_bind_ok.mpr ⟨staged, created, hcreate, ?_⟩
  refine runOn_bind_ok.mpr ⟨_, written, runOn_onFailure_ok.mpr hwrite, ?_⟩
  refine runOn_bind_ok.mpr ⟨(), published, hpublish, ?_⟩
  exact runOn_bind_ok.mpr ⟨(), last, hremove, runOn_pure_ok.mpr ⟨rfl, rfl⟩⟩

/-- A merge succeeds exactly when the order visits every partition below its length once and the
files of the partitions hold segments that the merger takes and that tile the ids. -/
theorem exists_mergeInOrder_iff {order : List PartitionIndex} :
    (∃ metadata changed, (merger.mergeInOrder order).runOn tree = (.ok metadata, changed)) ↔
      order.Perm (List.range order.length) ∧ ∃ segments,
        merger.Holds tree order.length segments ∧
          checkTiling (segments.map (·.idRange)) (totalCount segments) = .ok () := by
  constructor
  · rintro ⟨metadata, changed, hrun⟩
    obtain ⟨horder, segments, hholds, hmerge⟩ := mergeInOrder_ok.mp hrun
    exact ⟨horder, segments, hholds, (mergeSegments_ok hmerge).1⟩
  · rintro ⟨horder, segments, hholds, htiling⟩
    obtain ⟨metadata, changed, hmerge, -⟩ := exists_mergeSegments hhosts htiling
    exact ⟨metadata, changed, mergeInOrder_ok.mpr ⟨horder, segments, hholds, hmerge⟩⟩

/-- What a merge publishes is known from the segments. -/
theorem exists_merge_of_holds {order : List PartitionIndex}
    (horder : order.Perm (List.range order.length))
    (hholds : merger.Holds tree order.length segments)
    (htiling : checkTiling (segments.map (·.idRange)) (totalCount segments) = .ok ()) :
    ∃ createdAt changed,
      (merger.mergeInOrder order).runOn tree =
          (.ok (merger.describe segments (merger.mergedCells segments) createdAt), changed) ∧
        merger.Publishes tree changed (merger.mergedCells segments).flatten
          (merger.describe segments (merger.mergedCells segments) createdAt) ∧
        changed.Hosts merger.directory := by
  obtain ⟨metadata, changed, hmerge, hhosted⟩ := exists_mergeSegments hhosts htiling
  obtain ⟨-, ⟨createdAt, rfl⟩, hpublishes⟩ := mergeSegments_ok hmerge
  exact ⟨createdAt, changed, mergeInOrder_ok.mpr ⟨horder, segments, hholds, hmerge⟩, hpublishes,
    hhosted⟩

/-- The merge of the one segment that the bytes hold. -/
theorem exists_sole_merge {contents : Bytes}
    (hread : tree.read (segmentPath merger.directory 0) = .ok contents)
    (hopen : (Segment.ofBytes (segmentPath merger.directory 0) contents).isOk = true)
    (htaken : (merger.checkSegment 0
      (.fromBytes (segmentPath merger.directory 0) contents)).isOk = true)
    (htiling : (sweep (Segment.fromBytes (segmentPath merger.directory 0) contents).count 0
      [(Segment.fromBytes (segmentPath merger.directory 0) contents).idRange]).isOk = true) :
    let segments := [Segment.fromBytes (segmentPath merger.directory 0) contents]
    ∃ createdAt changed,
      (merger.mergeInOrder [0]).runOn tree =
          (.ok (merger.describe segments (merger.mergedCells segments) createdAt), changed) ∧
        merger.Publishes tree changed (merger.mergedCells segments).flatten
          (merger.describe segments (merger.mergedCells segments) createdAt) := by
  have haccepts := accepts_of_isOk hread hopen htaken
  have hpartition := partition_of_checkSegment haccepts.2
  have hholds : merger.Holds tree [0].length
      [Segment.fromBytes (segmentPath merger.directory 0) contents] := by
    refine ⟨?_, ?_⟩
    · rw [List.map_singleton, hpartition]
      rfl
    · rw [List.forall_mem_singleton, hpartition]
      exact haccepts
  have hchecked := (IdRange.checkTiling_of_sorted (List.pairwise_singleton _ _) _).trans
    (Result.isOk_iff.mp htiling)
  obtain ⟨createdAt, changed, hmerge, hpublishes, -⟩ :=
    exists_merge_of_holds hhosts (List.Perm.refl [0]) hholds hchecked
  exact ⟨createdAt, changed, hmerge, hpublishes⟩

end

/-! ## What can be looked up -/

/-- The directory hosts files, and the segments that are opened are in the order of their ids and
tile as many as they count. -/
def Mergeable (merger : SegmentMerger) (tree : Tree) (count total : Nat) : Prop :=
  tree.EntriesHost merger.directory ∧
    (((merger.openSegments (List.range count)).runOn tree).1.toOption.any fun segments ↦
      decide ((segments.map (·.idRange)).Pairwise fun a b ↦ a.before b = true) &&
        decide (totalCount segments = total) &&
          (sweep total 0 (segments.map (·.idRange))).isOk) = true

instance (merger : SegmentMerger) (tree : Tree) (count total : Nat) :
    Decidable (merger.Mergeable tree count total) :=
  inferInstanceAs (Decidable (_ ∧ _))

theorem Mergeable.exists_merge {count total : Nat} (hmergeable : merger.Mergeable tree count total) :
    ∃ metadata changed, (merger.mergeInOrder (List.range count)).runOn tree =
      (.ok metadata, changed) ∧ metadata.vectorCount = total := by
  obtain ⟨hlisted, hopened⟩ := hmergeable
  cases hresult : ((merger.openSegments (List.range count)).runOn tree).1 with
  | error error =>
    rw [hresult] at hopened
    cases hopened
  | ok segments =>
    rw [hresult] at hopened
    obtain ⟨hchecked, hsweep⟩ := Bool.and_eq_true_iff.mp hopened
    obtain ⟨hsorted, htotal⟩ := Bool.and_eq_true_iff.mp hchecked
    obtain rfl := of_decide_eq_true htotal
    obtain ⟨-, hpartitions, haccepts⟩ := openSegments_ok.mp (Prod.ext hresult rfl)
    have hlength : (List.range count).length = count := List.length_range
    have hholds : merger.Holds tree (List.range count).length segments := by
      rw [hlength]
      exact ⟨hpartitions, haccepts⟩
    obtain ⟨createdAt, changed, hmerge, -⟩ := exists_merge_of_holds (Tree.hosts_of_entries hlisted)
      (by rw [hlength]) hholds ((IdRange.checkTiling_of_sorted (of_decide_eq_true hsorted) _).trans
        (Result.isOk_iff.mp hsweep))
    exact ⟨_, changed, hmerge, rfl⟩

end SegmentMerger
end VectorIndex
