import VectorIndex.Proofs.Postings.Interruption
import VectorIndex.Proofs.Search.Load
import VectorIndex.Proofs.Store.Writers

/-!
# How a merge shares its directory

A merge writes to its own two staged files. It publishes data under the name that their digest
gives, and then metadata that tell this digest and the fingerprint of its codebook. Whatever others
publish meanwhile, metadata of a merge stand for data that the same merge has published before.
-/

namespace VectorIndex

open IndexProgram (Conducts conducts_bind conducts_imp conducts_lift conducts_ofExcept
  conducts_onFailure conducts_perform_check_bind conducts_pure conducts_throw)

variable {may : Action → Bool} {admits : List Event → String → Bytes → Prop} {root : Path}
  {events : List Event}

theorem Segment.open_conducts (path : Path) :
    Conducts root may admits (fun segment _ ↦ ∃ contents, ofBytes path contents = .ok segment)
      (fun _ ↦ True) (Segment.open path) events := by
  unfold Segment.open
  apply conducts_perform_check_bind
  intro tree answer changed _ _
  refine ⟨.looks rfl, ?_⟩
  cases answer with
  | error fault => trivial
  | ok source =>
    cases source with
    | directory => exact conducts_throw trivial
    | file contents =>
      exact conducts_ofExcept (fun segment hread ↦ ⟨contents, Result.mapError_ok.mp hread⟩)
        fun _ _ ↦ trivial

namespace SegmentMerger

open StagedFile (IsTemporary)

variable {merger : SegmentMerger} {segments : List Segment}

/-! ## Reading the segments -/

theorem requireSegments_conducts (order : List PartitionIndex) :
    Conducts root may admits (fun _ _ ↦ True) (fun _ ↦ True) (merger.requireSegments order)
      events := by
  induction order generalizing events with
  | nil => exact conducts_pure trivial
  | cons partition rest ih =>
    unfold requireSegments
    apply conducts_bind
    apply conducts_lift
    intro tree kind changed _ _
    refine ⟨.looks rfl, ?_⟩
    cases kind with
    | none => trivial
    | some kind => exact ih

/-- Each segment was read from a file, whichever files there were meanwhile. -/
theorem openSegments_conducts (order : List PartitionIndex) :
    Conducts root may admits (fun segments _ ↦ ∀ segment ∈ segments, merger.IsSound segment)
      (fun _ ↦ True) (merger.openSegments order) events := by
  induction order generalizing events with
  | nil => exact conducts_pure nofun
  | cons partition rest ih =>
    unfold openSegments
    apply conducts_bind
    apply conducts_imp (Segment.open_conducts _) _ fun _ h ↦ h
    rintro segment opened ⟨contents, hread⟩
    apply conducts_bind
    apply conducts_ofExcept _ fun _ _ ↦ trivial
    intro _ hcheck
    obtain rfl := partition_of_checkSegment hcheck
    apply conducts_bind
    apply conducts_imp ih _ fun _ h ↦ h
    intro later last hlater
    exact conducts_pure (List.forall_mem_cons.mpr ⟨⟨⟨_, contents, hread⟩, hcheck⟩, hlater⟩)

/-! ## Staging -/

/-- A staged file of the writer that is complete. -/
structure Completed (root : Path) (staged : StagedFile) (location : Location) (contents : Bytes)
    (events : List Event) : Prop where
  isIn : staged.IsIn root location
  drafted : draftsOf events location = some (.holds contents)

theorem Completed.spared {staged : StagedFile} {location : Location} {contents : Bytes}
    {last : List Event} (hcompleted : Completed root staged location contents events)
    (hspared : Spared events last) : Completed root staged location contents last :=
  ⟨hcompleted.isIn, hspared _ _ hcompleted.drafted⟩

theorem stageMetadata_conducts (metadata : Metadata) :
    Conducts merger.directory may admits
      (fun staged last ↦ staged.target = some merger.metadataPath ∧ ∃ location,
        Completed merger.directory staged location metadata.toBytes last ∧
          draftsOf events location = none ∧ Spared events last)
      (Spared events) (merger.stageMetadata metadata) events := by
  unfold stageMetadata StagedFile.create
  apply conducts_bind
  apply conducts_bind
  apply conducts_imp (StagedFile.createIn_conducts merger.directoryOf_metadataPath) _
    fun _ h ↦ h
  rintro created between ⟨-, location, hin, hfree, hmade⟩
  apply conducts_pure
  apply conducts_bind
  apply conducts_onFailure
  have hplaced : ({ created with target := some merger.metadataPath } : StagedFile).IsIn
    merger.directory location := hin
  apply conducts_imp (StagedFile.append_conducts hplaced hmade.self _ _)
  · intro _ last hwritten
    exact conducts_pure ⟨rfl, location, ⟨hplaced, hwritten.self⟩, hfree,
      (hmade.trans hwritten).spared hfree⟩
  · intro broken hbroken
    apply StoreProgram.Conducts.imp (StagedFile.discard_conducts hplaced hbroken.self)
    exact fun _ last hlast ↦ ((hmade.trans hbroken).trans hlast).spared hfree

/-- What a merge has done before it publishes. -/
structure Staged (merger : SegmentMerger) (segments : List Segment) (data : StagedFile)
    (location : Location) (metadata : Metadata) (second : StagedFile) (events : List Event) :
    Prop where
  described : ∃ createdAt,
    metadata = merger.describe segments (merger.mergedCells segments) createdAt
  data : Completed merger.directory data location (merger.mergedCells segments).flatten events
  target : second.target = some merger.metadataPath
  metadata : ∃ other, other ≠ location ∧
    Completed merger.directory second other metadata.toBytes events

theorem stageMerge_conducts {data : StagedFile} {location : Location}
    (hin : data.IsIn merger.directory location)
    (hempty : draftsOf events location = some (.holds [])) (segments : List Segment) :
    Conducts merger.directory may admits
      (fun result last ↦ merger.Staged segments data location result.1 result.2.2 last)
      (fun last ↦ ∃ draft, draftsOf last location = some draft)
      (merger.stageMerge segments data) events := by
  unfold stageMerge
  apply conducts_bind
  intro tree moment changed _ _
  have hstill : draftsOf (⟨.now, moment⟩ :: events) location = some (.holds []) := hempty
  refine ⟨.looks rfl, ?_⟩
  apply conducts_bind
  apply conducts_imp (StagedFile.append_conducts hin hstill merger.directory _) _
    fun _ h ↦ ⟨_, h.self⟩
  intro _ written hwritten
  obtain ⟨given, hload, -⟩ := Metadata.attempt_load merger.metadataPath
  apply conducts_bind
  apply conducts_lift
  rw [hload]
  intro tree answer changed _ _
  have hcompleted : Completed merger.directory data location (merger.mergedCells segments).flatten
      (⟨.fetch merger.metadataPath, answer⟩ :: written) := ⟨hin, hwritten.self⟩
  refine ⟨.looks rfl, ?_⟩
  apply conducts_bind
  apply conducts_imp (stageMetadata_conducts _)
  · rintro second last ⟨htarget, other, hother, hfree, hspared⟩
    refine conducts_pure ⟨⟨_, rfl⟩, hcompleted.spared hspared, htarget, other, ?_, hother⟩
    rintro rfl
    rw [hcompleted.drafted] at hfree
    cases hfree
  · exact fun last hspared ↦ ⟨_, hspared _ _ hcompleted.drafted⟩

/-! ## Publishing -/

/-- The contents are metadata of the merger, for data that the writer has published. -/
def Announces (merger : SegmentMerger) (events : List Event) (contents : Bytes) : Prop :=
  ∃ (metadata : Metadata) (data : Bytes), contents = metadata.toBytes ∧
    (data.length < 0x10000000000000000 → metadata.FitsFields) ∧
    metadata.dataFile = Metadata.dataFileName metadata.checksum ∧
    metadata.checksum = .of data ∧ metadata.fingerprint = merger.codebook.fingerprint ∧
    Wrote events (Path.join merger.directory metadata.dataFile) data

/-- What a merge publishes under a name. -/
def Admits (merger : SegmentMerger) (events : List Event) (name : String) (contents : Bytes) :
    Prop :=
  name = Metadata.fileName → merger.Announces events contents

theorem Announces.mono {few many : List Event} {contents : Bytes}
    (hannounces : merger.Announces few contents) (hmany : few <:+ many) :
    merger.Announces many contents := by
  obtain ⟨metadata, data, hcontents, hfits, hname, hchecksum, hfingerprint, hwrote⟩ := hannounces
  exact ⟨metadata, data, hcontents, hfits, hname, hchecksum, hfingerprint, hwrote.mono hmany⟩

section

variable {bytes : Bytes} (hcodebook : Codebook.ofBytes bytes = .ok merger.codebook)
  (hsound : ∀ segment ∈ segments, merger.IsSound segment)
  (htiling : checkTiling (segments.map (·.idRange)) (totalCount segments) = .ok ())
include hcodebook hsound htiling

theorem announces_describe {createdAt : String}
    (hwrote : Wrote events (Path.join merger.directory (merger.dataName segments))
      (merger.mergedCells segments).flatten) :
    merger.Announces events
      (merger.describe segments (merger.mergedCells segments) createdAt).toBytes := by
  refine ⟨_, _, rfl, fun hlength ↦ ?_, rfl, rfl, rfl, hwrote⟩
  refine fitsFields_describe hsound htiling ?_ hcodebook
  have hroom := covered_describe_le hsound createdAt
  exact Nat.lt_of_le_of_lt (Nat.le_trans (Nat.le_mul_of_pos_right _ (Posting.size_pos _)) hroom)
    hlength

theorem publish_conducts {data second : StagedFile} {location : Location} {metadata : Metadata}
    (hdirectory : data.directory = merger.directory)
    (hstaged : merger.Staged segments data location metadata second events) :
    Conducts merger.directory may merger.Admits (fun _ _ ↦ True) (fun _ ↦ True)
      (publish data metadata.dataFile second) events := by
  obtain ⟨⟨createdAt, rfl⟩, hdata, htarget, other, hother, hmetadata⟩ := hstaged
  unfold publish StagedFile.commitAs StagedFile.commit
  rw [hdirectory, htarget]
  have hnever : ∀ more, events <:+ more →
      merger.Admits more (merger.dataName segments) (merger.mergedCells segments).flatten :=
    fun more _ hname ↦ absurd hname (merger.dataName_ne_fileName segments)
  apply conducts_bind
  apply conducts_onFailure
  apply conducts_imp (StagedFile.persist_conducts hdata.isIn (merger.isName_dataName segments)
    (merger.head_dataName segments) hdata.drafted hnever)
  · rintro _ moved ⟨hwrote, hmoved⟩
    have hstill := hmoved.other hother
    apply conducts_imp (StagedFile.persist_conducts hmetadata.isIn Metadata.isName_fileName
      (by decide) (hstill.trans hmetadata.drafted) _)
    · exact fun _ _ _ ↦ trivial
    · exact fun _ _ ↦ trivial
    · exact fun more hmore _ ↦ announces_describe hcodebook hsound htiling (hwrote.mono hmore)
  · intro failed hfailed
    have hstill := (hfailed.other hother).trans hmetadata.drafted
    exact (StagedFile.discard_conducts hmetadata.isIn hstill).imp fun _ _ _ ↦ trivial

end

/-! ## Removing what is stale -/

theorem names_conducts (directory : Path) :
    (Layout.names directory).Conducts root may admits (fun _ _ ↦ True) events := by
  intro tree kind changed _ _
  refine ⟨.looks rfl, ?_⟩
  cases kind with
  | none => trivial
  | some kind => exact fun tree answer changed _ _ ↦ ⟨.looks rfl, trivial⟩

theorem dataFiles_conducts (directory : Path) :
    (Layout.dataFiles directory).Conducts root may admits (fun _ _ ↦ True) events := by
  unfold Layout.dataFiles
  apply StoreProgram.Conducts.bind
  exact (names_conducts directory).imp fun _ _ hnames ↦ hnames

/-- No staged file is named as data files are. -/
theorem not_dataSuffix_temporary {name : String} (hname : IsTemporary name) :
    ¬ Metadata.dataSuffix.toList <:+ name.toList := by
  obtain ⟨tree, rfl⟩ := hname
  intro hending
  have hmem : 'v' ∈ tree.freshName.toList := hending.subset (by decide)
  rw [Tree.freshName, String.toList_append, List.mem_append] at hmem
  rcases hmem with hmem | hmem
  · exact absurd hmem (by decide)
  · rw [String.toList_ofList] at hmem
    exact absurd (List.eq_of_mem_replicate hmem) (by decide)

theorem temporary_ne_of_isDataPlace {location : Location} (hplace : IsDataPlace location)
    {name : String} (hname : IsTemporary name) : location ≠ Location.ofDirectory root ++ [name] := by
  obtain ⟨parents, other, rfl, hending⟩ := hplace
  intro heq
  obtain ⟨-, hother⟩ := List.append_inj' heq rfl
  rw [(List.cons.inj hother).1] at hending
  exact not_dataSuffix_temporary hname hending

theorem removeAll_conducts {kept : List String} {paths : List Path}
    (hpaths : ∀ path ∈ paths, ∃ location, Location.ofPath path = some location ∧
      IsStale kept location) :
    StoreProgram.Conducts root may admits (fun _ _ ↦ True)
      (paths.forM fun path ↦ do
        let _ ← StoreProgram.perform (.remove path)) events := by
  induction paths generalizing events with
  | nil => trivial
  | cons path rest ih =>
    obtain ⟨⟨location, hlocation, hplace, -⟩, hrest⟩ := List.forall_mem_cons.mp hpaths
    intro tree answer changed _ _
    refine ⟨.removes hlocation (.inr fun name hname ↦ ?_), ih hrest⟩
    exact temporary_ne_of_isDataPlace hplace hname

theorem removeStale_conducts (directory : Path) (kept : List String) :
    (removeStale directory kept).Conducts root may admits (fun _ _ ↦ True) events := by
  unfold removeStale
  apply StoreProgram.Conducts.bind
  apply ((dataFiles_conducts directory).always (dataFiles_always directory)).imp
  rintro result last ⟨-, hnames⟩
  cases result with
  | error fault => trivial
  | ok paths => exact removeAll_conducts (exists_stale_places hnames)

/-! ## The whole merge -/

theorem mergeSegments_conducts {bytes : Bytes}
    (hcodebook : Codebook.ofBytes bytes = .ok merger.codebook)
    (hsound : ∀ segment ∈ segments, merger.IsSound segment) :
    Conducts merger.directory may merger.Admits (fun _ _ ↦ True) (fun _ ↦ True)
      (merger.mergeSegments segments) events := by
  unfold mergeSegments
  apply conducts_bind
  apply conducts_ofExcept _ fun _ _ ↦ trivial
  intro _ htiled
  have htiling := Result.mapError_ok.mp htiled
  apply conducts_bind
  apply conducts_imp (StagedFile.createIn_conducts rfl) _ fun _ _ ↦ trivial
  rintro data created ⟨hdirectory, location, hin, -, hmade⟩
  apply conducts_bind
  apply conducts_onFailure
  apply conducts_imp (stageMerge_conducts hin hmade.self segments)
  · rintro ⟨metadata, previous, second⟩ staged hstaged
    apply conducts_bind
    apply conducts_imp (publish_conducts hcodebook hsound htiling hdirectory hstaged) _
      fun _ _ ↦ trivial
    intro _ published _
    apply conducts_bind
    apply conducts_lift
    apply (removeStale_conducts merger.directory _).imp
    exact fun _ _ _ ↦ trivial
  · rintro failed ⟨draft, hdraft⟩
    exact (StagedFile.discard_conducts hin hdraft).imp fun _ _ _ ↦ trivial

/-- A merge conducts itself: its metadata stand for data of its own. -/
theorem mergeInOrder_conducts (merger : SegmentMerger) {bytes : Bytes}
    (hcodebook : Codebook.ofBytes bytes = .ok merger.codebook) (order : List PartitionIndex) :
    Conducts merger.directory may merger.Admits (fun _ _ ↦ True) (fun _ ↦ True)
      (merger.mergeInOrder order) events := by
  unfold mergeInOrder
  apply conducts_bind
  apply conducts_ofExcept _ fun _ _ ↦ trivial
  intro _ _
  apply conducts_bind
  apply conducts_imp (requireSegments_conducts order) _ fun _ _ ↦ trivial
  intro _ required _
  apply conducts_bind
  apply conducts_imp (openSegments_conducts order) _ fun _ _ ↦ trivial
  intro segments opened hsound
  apply mergeSegments_conducts hcodebook
  intro segment hsegment
  exact hsound segment ((List.mergeSort_perm _ _).mem_iff.mp hsegment)

end SegmentMerger
end VectorIndex
