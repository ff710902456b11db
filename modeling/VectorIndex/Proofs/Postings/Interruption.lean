import VectorIndex.Proofs.Postings.Publish
import VectorIndex.Proofs.Store.Faults

/-!
# A merge that is interrupted

Before it has moved its metadata to their place a merge has changed nothing but staged files and,
at the very end, the file that its data are named by. Afterwards the new metadata and the new data
are there, and every other file is as it was or is a stale data file. This holds after each action,
whatever fails and wherever the merge is cut off.
-/

namespace VectorIndex

open IndexProgram (Faithful faithful_bind faithful_exists? faithful_fetch faithful_ofExcept
  faithful_pure passes_bind runOn_bind_ok runOn_ofExcept_ok runOn_onFailure_ok runOn_pure_ok
  Withstands withstands_bind withstands_imp withstands_ofExcept withstands_onFailure
  withstands_perform withstands_pure)
open StagedFile (IsTemporary)

namespace Segment

theorem faithful_open (path : Path) : Faithful (Segment.open path) := by
  unfold Segment.open
  rw [← bind_assoc]
  apply faithful_bind (faithful_fetch path _)
  intro source
  cases source with
  | directory => exact faithful_ofExcept (.error _)
  | file contents => exact faithful_ofExcept _

end Segment

/-- Loading metadata is opening their file and nothing else. -/
theorem Metadata.attempt_load (path : Path) :
    ∃ given : Except StoreFault Source → Except IndexError Metadata,
      (Metadata.load path).attempt = .act (.fetch path) (fun answer ↦ .done (given answer)) ∧
        ∀ fault, given (.error fault) = .error (.fileRead path fault) := by
  refine ⟨fun answer ↦ do
    let source ← answer.mapError (IndexError.fileRead path)
    let bytes ← source.read.mapError (IndexError.fileRead path)
    Metadata.ofBytes path bytes, ?_, fun _ ↦ rfl⟩
  show StoreProgram.act _ _ = _
  congr 1
  funext answer
  cases answer with
  | error fault => rfl
  | ok source => cases source <;> rfl

namespace SegmentMerger

variable {merger : SegmentMerger}

/-! ## Reading the segments -/

theorem faithful_requireSegments (order : List PartitionIndex) :
    Faithful (merger.requireSegments order) := by
  induction order with
  | nil => exact faithful_pure ()
  | cons partition rest ih => exact faithful_exists? _ _ ih

theorem faithful_openSegments (order : List PartitionIndex) :
    Faithful (merger.openSegments order) := by
  induction order with
  | nil => exact faithful_pure []
  | cons partition rest ih =>
    apply faithful_bind (Segment.faithful_open _)
    intro segment
    apply faithful_bind (faithful_ofExcept _)
    intro _
    apply faithful_bind ih
    exact fun later ↦ faithful_pure _

/-! ## The store before and after the commit -/

/-- The name of the data that the segments make together. -/
def dataName (merger : SegmentMerger) (segments : List Segment) : String :=
  Metadata.dataFileName (Fingerprint.of (merger.mergedCells segments).flatten)

/-- Every file is as it was, except for staged files and data under their own name. -/
structure Prepared (merger : SegmentMerger) (count : Nat) (start tree : Tree) : Prop where
  directories : ∀ location, start.IsDirectory location → tree.IsDirectory location
  files_eq : ∀ location, (∀ name, IsTemporary name →
    location ≠ Location.ofDirectory merger.directory ++ [name]) →
      tree.files location = start.files location ∨
        ∃ segments, merger.Holds start count segments ∧
          location = Location.ofDirectory merger.directory ++ [merger.dataName segments] ∧
            tree.files location = some (merger.mergedCells segments).flatten

/-- The metadata and the data of the segments are there, and every other file is as it was, except
for staged files and stale data files that are gone. -/
structure Renewed (merger : SegmentMerger) (kept : List String) (segments : List Segment)
    (createdAt : String) (start tree : Tree) : Prop where
  directories : ∀ location, start.IsDirectory location → tree.IsDirectory location
  directory : tree.IsDirectory (Location.ofDirectory merger.directory)
  data : tree.files (Location.ofDirectory merger.directory ++ [merger.dataName segments]) =
    some (merger.mergedCells segments).flatten
  metadata : tree.files (Location.ofDirectory merger.directory ++ [Metadata.fileName]) =
    some (merger.describe segments (merger.mergedCells segments) createdAt).toBytes
  others : ∀ location, (∀ name, IsTemporary name →
    location ≠ Location.ofDirectory merger.directory ++ [name]) →
      location ≠ Location.ofDirectory merger.directory ++ [merger.dataName segments] →
        location ≠ Location.ofDirectory merger.directory ++ [Metadata.fileName] →
          tree.files location = start.files location ∨
            (tree.files location = none ∧ IsStale (merger.dataName segments :: kept) location)

/-- The metadata in the directory. -/
def recorded? (merger : SegmentMerger) (tree : Tree) : Option Metadata :=
  (tree.files (Location.ofDirectory merger.directory ++ [Metadata.fileName])).bind fun bytes ↦
    (Metadata.ofBytes merger.metadataPath bytes).toOption

/-- The data file that is sure to be kept for readers of the old metadata. -/
def spared (merger : SegmentMerger) (may : Action → Bool) (start : Tree) : List String :=
  if may (.fetch merger.metadataPath) then []
  else ((merger.recorded? start).map (·.dataFile)).toList

/-- What a merge of the segments in a store is watched for. -/
def watch (merger : SegmentMerger) (may : Action → Bool) (count : Nat) (start : Tree) : Watch where
  may
  target := merger.metadataPath
  safe committed tree :=
    if committed then ∃ segments createdAt, merger.Holds start count segments ∧
      checkTiling (segments.map (·.idRange)) (totalCount segments) = .ok () ∧
        merger.Renewed (merger.spared may start) segments createdAt start tree
    else merger.Prepared count start tree

variable {may : Action → Bool} {count : Nat} {start tree changed : Tree} {segments : List Segment}
  {createdAt : String} {kept : List String}

theorem prepared_self (merger : SegmentMerger) (count : Nat) (start : Tree) :
    merger.Prepared count start start := ⟨fun _ h ↦ h, fun _ _ ↦ .inl rfl⟩

/-- A name that no staged file has. -/
theorem ne_temporary {directory : Location} {name : String} (hhead : name.toList.head? ≠ some '.')
    (temporary : String) (htemporary : IsTemporary temporary) :
    directory ++ [name] ≠ directory ++ [temporary] := by
  intro heq
  exact htemporary.ne hhead (by simpa using heq.symm)

/-- No staged file is named as metadata are. -/
theorem metadata_ne_temporary (merger : SegmentMerger) (temporary : String)
    (htemporary : IsTemporary temporary) :
    Location.ofDirectory merger.directory ++ [Metadata.fileName] ≠
      Location.ofDirectory merger.directory ++ [temporary] :=
  ne_temporary (by decide) temporary htemporary

theorem head_dataName (merger : SegmentMerger) (segments : List Segment) :
    (merger.dataName segments).toList.head? ≠ some '.' := by
  unfold dataName
  rw [Metadata.head_dataFileName]
  decide

theorem isName_dataName (merger : SegmentMerger) (segments : List Segment) :
    Path.IsName (merger.dataName segments) := Metadata.isName_dataFileName _

theorem dataName_ne_fileName (merger : SegmentMerger) (segments : List Segment) :
    merger.dataName segments ≠ Metadata.fileName := Metadata.dataFileName_ne_fileName _

theorem Prepared.drafts (hprepared : merger.Prepared count start tree)
    (hdrafts : tree.Drafts (Location.ofDirectory merger.directory) changed) :
    merger.Prepared count start changed := by
  refine ⟨fun location h ↦ hdrafts.directories _ (hprepared.directories _ h), ?_⟩
  intro location hlocation
  rw [hdrafts.files_eq location hlocation]
  exact hprepared.files_eq location hlocation

theorem Renewed.drafts (hrenewed : merger.Renewed kept segments createdAt start tree)
    (hdrafts : tree.Drafts (Location.ofDirectory merger.directory) changed) :
    merger.Renewed kept segments createdAt start changed where
  directories location h := hdrafts.directories _ (hrenewed.directories _ h)
  directory := hdrafts.directories _ hrenewed.directory
  data := by
    rw [hdrafts.files_eq _ (ne_temporary (merger.head_dataName segments))]
    exact hrenewed.data
  metadata := by
    rw [hdrafts.files_eq _ merger.metadata_ne_temporary]
    exact hrenewed.metadata
  others location hlocation := by
    rw [hdrafts.files_eq location hlocation]
    exact hrenewed.others location hlocation

/-- Stale data files may be taken away. -/
theorem Renewed.loses (hrenewed : merger.Renewed kept segments createdAt start tree)
    (hloses : tree.Loses changed (IsStale (merger.dataName segments :: kept))) :
    merger.Renewed kept segments createdAt start changed where
  directories location h := hloses.directories _ (hrenewed.directories _ h)
  directory := hloses.directories _ hrenewed.directory
  data := (hloses.keeps (not_isStale_of_mem List.mem_cons_self _)).trans hrenewed.data
  metadata := (hloses.keeps (not_isStale_fileName _ _)).trans hrenewed.metadata
  others location htemporary hdata hmetadata := by
    rcases hloses.files_eq location with hsame | hgone
    · rw [hsame]
      exact hrenewed.others location htemporary hdata hmetadata
    · exact .inr hgone

theorem overlooks_watch (merger : SegmentMerger) (may : Action → Bool) (count : Nat)
    (start : Tree) :
    (merger.watch may count start).Overlooks (Location.ofDirectory merger.directory) := by
  intro committed before after hdrafts hsafe
  cases committed with
  | false => exact Prepared.drafts hsafe hdrafts
  | true =>
    obtain ⟨segments, createdAt, hholds, htiling, hrenewed⟩ := hsafe
    exact ⟨segments, createdAt, hholds, htiling, hrenewed.drafts hdrafts⟩

/-! ## Staging -/

theorem directoryOf_metadataPath (merger : SegmentMerger) :
    Location.ofDirectory (StagedFile.directoryOf merger.metadataPath) =
      Location.ofDirectory merger.directory :=
  Location.ofDirectory_directoryOf_join merger.directory Metadata.isName_fileName

section

variable {watch : Watch} (hoverlooks : watch.Overlooks (Location.ofDirectory merger.directory))
  {committed : Bool} (hsafe : watch.safe committed tree)
include hoverlooks hsafe

theorem stageMetadata_withstands (metadata : Metadata) :
    Withstands watch (watch.Still committed fun result changed ↦ ∀ staged, result = .ok staged →
      ∃ temporary, IsTemporary temporary ∧ staged.target = some merger.metadataPath ∧
        Location.ofPath staged.temporary =
          some (Location.ofDirectory merger.directory ++ [temporary]) ∧
        tree.files (Location.ofDirectory merger.directory ++ [temporary]) = none ∧
        changed.IsDirectory (Location.ofDirectory merger.directory) ∧
        tree.Becomes changed (tree.files.put
          (Location.ofDirectory merger.directory ++ [temporary]) (some metadata.toBytes)))
      (merger.stageMetadata metadata) committed tree := by
  have hplace := merger.directoryOf_metadataPath
  unfold stageMetadata StagedFile.create
  apply withstands_bind
  apply withstands_bind
  apply withstands_imp (StagedFile.createIn_withstands hoverlooks hsafe hplace)
  rintro result last created ⟨rfl, hstill, hcreated⟩
  cases result with
  | error error => exact ⟨rfl, hstill, nofun⟩
  | ok staged =>
    obtain ⟨temporary, htemporary, -, hlocation, hunused, hdirectory, hmade⟩ := hcreated staged rfl
    apply withstands_pure
    apply withstands_bind
    apply withstands_onFailure
    have hheld : created.files (Location.ofDirectory merger.directory ++ [temporary]) = some [] := by
      rw [hmade.files_eq, Files.put_self]
    have hplaced : Location.ofPath
        ({ staged with target := some merger.metadataPath } : StagedFile).temporary =
          some (Location.ofDirectory merger.directory ++ [temporary]) := hlocation
    apply withstands_imp
      (StagedFile.append_withstands hoverlooks hstill htemporary hplaced hheld _ _)
    rintro result last appended ⟨rfl, hstill, happended⟩
    cases result with
    | error error =>
      apply (StagedFile.discard_withstands hoverlooks hstill htemporary hplaced).imp
      exact fun _ _ _ hdiscarded ↦ ⟨hdiscarded.1, hdiscarded.2.1, nofun⟩
    | ok done =>
      have hbecomes := happended rfl
      rw [hmade.files_eq, Files.put_put, List.nil_append] at hbecomes
      apply withstands_pure
      refine ⟨rfl, hstill, ?_⟩
      rintro _ hstaged
      obtain rfl := Except.ok.inj hstaged
      exact ⟨temporary, htemporary, rfl, hlocation, hunused,
        hbecomes.directories _ hdirectory, hmade.trans hbecomes⟩

omit hoverlooks in
/-- The metadata that are replaced are those in the directory, or could not be read. -/
theorem load_withstands (hdirectory : tree.IsDirectory (Location.ofDirectory merger.directory)) :
    StoreProgram.Withstands watch (fun previous last final ↦ last = committed ∧ final = tree ∧
      (previous.toOption = none ∨ previous.toOption = merger.recorded? tree) ∧
      (watch.may (.fetch merger.metadataPath) = false →
        previous.toOption = merger.recorded? tree))
      (Metadata.load merger.metadataPath).attempt committed tree := by
  have hrecorded : ((Metadata.load merger.metadataPath).runOn tree).1.toOption =
      merger.recorded? tree := by
    ext metadata
    rw [Metadata.runOn_load, Result.toOption_eq_some, Result.bind_ok]
    unfold recorded? metadataPath
    simp only [Tree.read_join Metadata.isName_fileName, hdirectory, true_and]
    rw [Option.bind_eq_some_iff]
    simp only [Result.toOption_eq_some]
  obtain ⟨given, hload, hfailed⟩ := Metadata.attempt_load merger.metadataPath
  have hgiven : ((Metadata.load merger.metadataPath).runOn tree).1 =
      given (tree.answer (.fetch merger.metadataPath)).1 := congrArg (·.run tree |>.1) hload
  rw [hload]
  intro answer changed hattempt
  rw [show Event.commits watch.target ⟨.fetch merger.metadataPath, answer⟩ = false from rfl,
    Bool.or_false]
  cases hattempt with
  | works =>
    rw [hgiven] at hrecorded
    exact ⟨hsafe, rfl, rfl, .inr hrecorded, fun _ ↦ hrecorded⟩
  | fails hmay hanswer =>
    obtain rfl := Option.some.inj hanswer
    refine ⟨hsafe, rfl, rfl, .inl (congrArg Except.toOption (hfailed _)), fun hnever ↦ ?_⟩
    rw [hnever] at hmay
    cases hmay
  | breaks _ haction => cases haction

/-- Until it is published, a merge has only added two staged files. -/
theorem stageMerge_withstands
    (hdirectory : tree.IsDirectory (Location.ofDirectory merger.directory)) {temporary : String}
    (htemporary : IsTemporary temporary) {staged : StagedFile}
    (hlocation : Location.ofPath staged.temporary =
      some (Location.ofDirectory merger.directory ++ [temporary]))
    (hempty : tree.files (Location.ofDirectory merger.directory ++ [temporary]) = some [])
    (segments : List Segment) :
    Withstands watch (watch.Still committed fun result changed ↦
      ∀ metadata previous stagedMetadata, result = .ok (metadata, previous, stagedMetadata) →
        (∃ createdAt,
          metadata = merger.describe segments (merger.mergedCells segments) createdAt) ∧
        (previous.toOption = none ∨ previous.toOption = merger.recorded? tree) ∧
        (watch.may (.fetch merger.metadataPath) = false →
          previous.toOption = merger.recorded? tree) ∧
        ∃ name, IsTemporary name ∧ name ≠ temporary ∧
          stagedMetadata.target = some merger.metadataPath ∧
          Location.ofPath stagedMetadata.temporary =
            some (Location.ofDirectory merger.directory ++ [name]) ∧
          changed.IsDirectory (Location.ofDirectory merger.directory) ∧
          tree.Becomes changed
            ((tree.files.put (Location.ofDirectory merger.directory ++ [temporary])
              (some (merger.mergedCells segments).flatten)).put
                (Location.ofDirectory merger.directory ++ [name]) (some metadata.toBytes)))
      (merger.stageMerge segments staged) committed tree := by
  unfold stageMerge
  apply withstands_bind
  apply withstands_perform
  intro moment ticked hnow
  rw [show Event.commits watch.target ⟨.now, moment⟩ = false from rfl, Bool.or_false]
  obtain ⟨hticked, hkept⟩ : ticked.files = tree.files ∧
      ∀ location, tree.IsDirectory location → ticked.IsDirectory location := by
    cases hnow with
    | works => exact ⟨rfl, fun _ h ↦ h⟩
    | fails => exact ⟨rfl, fun _ h ↦ h⟩
    | breaks _ haction => cases haction
  have hstill := hoverlooks committed tree ticked ⟨hkept, fun l _ ↦ congrFun hticked l⟩ hsafe
  refine ⟨hstill, ?_⟩
  apply withstands_bind
  apply withstands_imp (StagedFile.append_withstands hoverlooks hstill htemporary hlocation
    (hticked ▸ hempty) merger.directory (merger.mergedCells segments).flatten)
  rintro result last appended ⟨rfl, hstill, happended⟩
  cases result with
  | error error => exact ⟨rfl, hstill, nofun⟩
  | ok done =>
    have hwritten := happended rfl
    rw [hticked, List.nil_append] at hwritten
    have hrecorded : merger.recorded? appended = merger.recorded? tree := by
      unfold recorded?
      rw [hwritten.files_eq, Files.put_other _ _ (merger.metadata_ne_temporary temporary htemporary)]
    apply withstands_bind
    apply StoreProgram.Withstands.bind
    apply (load_withstands hstill (hwritten.directories _ (hkept _ hdirectory))).imp
    rintro previous last same ⟨rfl, rfl, hread, hsure⟩
    rw [hrecorded] at hread hsure
    apply withstands_bind
    apply withstands_imp (stageMetadata_withstands hoverlooks hstill _)
    rintro result last final ⟨rfl, hstill, hstaged⟩
    cases result with
    | error error => exact ⟨rfl, hstill, nofun⟩
    | ok stagedMetadata =>
      obtain ⟨name, hname, htarget, hplace, hunused, hthere, hbecomes⟩ := hstaged _ rfl
      apply withstands_pure
      refine ⟨rfl, hstill, ?_⟩
      rintro _ _ _ hresult
      simp only [Except.ok.injEq, Prod.mk.injEq] at hresult
      obtain ⟨rfl, rfl, rfl⟩ := hresult
      have hne : name ≠ temporary := by
        rintro rfl
        rw [hwritten.files_eq, Files.put_self] at hunused
        cases hunused
      rw [hwritten.files_eq] at hbecomes
      refine ⟨⟨_, rfl⟩, hread, hsure, name, hname, hne, htarget, hplace, hthere, ?_⟩
      exact ⟨hbecomes.files_eq,
        fun l h ↦ hbecomes.directories l (hwritten.directories l (hkept l h))⟩

end

/-! ## Publishing -/

section

variable (hholds : merger.Holds start count segments) {first second : String}
  (hfirst : IsTemporary first) (hsecond : IsTemporary second)

/-- The files when both staged files are written. -/
def stagedFiles (merger : SegmentMerger) (segments : List Segment) (createdAt : String)
    (first second : String) (files : Files) : Files :=
  (files.put (Location.ofDirectory merger.directory ++ [first])
    (some (merger.mergedCells segments).flatten)).put
      (Location.ofDirectory merger.directory ++ [second])
        (some (merger.describe segments (merger.mergedCells segments) createdAt).toBytes)

/-- The files when the data are moved to their name. -/
def movedFiles (merger : SegmentMerger) (segments : List Segment) (first : String)
    (files : Files) : Files :=
  (files.put (Location.ofDirectory merger.directory ++ [first]) none).put
    (Location.ofDirectory merger.directory ++ [merger.dataName segments])
      (some (merger.mergedCells segments).flatten)

/-- The files when the metadata are moved to their name. -/
def committedFiles (merger : SegmentMerger) (segments : List Segment) (createdAt : String)
    (second : String) (files : Files) : Files :=
  (files.put (Location.ofDirectory merger.directory ++ [second]) none).put
    (Location.ofDirectory merger.directory ++ [Metadata.fileName])
      (some (merger.describe segments (merger.mergedCells segments) createdAt).toBytes)

theorem append_ne_append (directory : Location) {a b : String} (hne : a ≠ b) :
    directory ++ [a] ≠ directory ++ [b] :=
  fun heq ↦ hne (by simpa using heq)

include hfirst hsecond in
theorem prepared_of_staged
    (hstaged : start.Becomes tree (merger.stagedFiles segments createdAt first second start.files)) :
    merger.Prepared count start tree := by
  refine ⟨hstaged.directories, fun location hlocation ↦ .inl ?_⟩
  rw [hstaged.files_eq, stagedFiles, Files.put_other _ _ (hlocation second hsecond),
    Files.put_other _ _ (hlocation first hfirst)]

include hholds hfirst in
theorem Prepared.moved (hprepared : merger.Prepared count start tree)
    (hmoved : tree.Becomes changed (merger.movedFiles segments first tree.files)) :
    merger.Prepared count start changed := by
  refine ⟨fun l h ↦ hmoved.directories l (hprepared.directories l h), ?_⟩
  intro location hlocation
  rw [hmoved.files_eq, movedFiles]
  by_cases hdata : location = Location.ofDirectory merger.directory ++ [merger.dataName segments]
  · exact .inr ⟨segments, hholds, hdata, by rw [hdata, Files.put_self]⟩
  · rw [Files.put_other _ _ hdata, Files.put_other _ _ (hlocation first hfirst)]
    exact hprepared.files_eq location hlocation

include hfirst hsecond in
/-- Staging, moving the data and moving the metadata renews the directory. -/
theorem renewed_of_committed {middle last : Tree}
    (hthere : tree.IsDirectory (Location.ofDirectory merger.directory))
    (hstaged : start.Becomes tree (merger.stagedFiles segments createdAt first second start.files))
    (hmoved : tree.Becomes middle (merger.movedFiles segments first tree.files))
    (hcommitted : middle.Becomes last
      (merger.committedFiles segments createdAt second middle.files)) :
    merger.Renewed kept segments createdAt start last where
  directories l h :=
    hcommitted.directories l (hmoved.directories l (hstaged.directories l h))
  directory := hcommitted.directories _ (hmoved.directories _ hthere)
  data := by
    rw [hcommitted.files_eq, committedFiles,
      Files.put_other _ _ (append_ne_append _ (merger.dataName_ne_fileName segments)),
      Files.put_other _ _ (ne_temporary (merger.head_dataName segments) second hsecond),
      hmoved.files_eq, movedFiles, Files.put_self]
  metadata := by
    rw [hcommitted.files_eq, committedFiles, Files.put_self]
  others location htemporary hdata hmetadata := by
    refine .inl ?_
    rw [hcommitted.files_eq, committedFiles, Files.put_other _ _ hmetadata,
      Files.put_other _ _ (htemporary second hsecond), hmoved.files_eq, movedFiles,
      Files.put_other _ _ hdata, Files.put_other _ _ (htemporary first hfirst),
      hstaged.files_eq, stagedFiles, Files.put_other _ _ (htemporary second hsecond),
      Files.put_other _ _ (htemporary first hfirst)]

/-- The path of a data file is not that of the metadata. -/
theorem join_dataName_ne (merger : SegmentMerger) (segments : List Segment) :
    Path.join merger.directory (merger.dataName segments) ≠ merger.metadataPath := by
  intro heq
  have hsame := congrArg Location.ofPath heq
  rw [metadataPath, Location.ofPath_join _ (merger.isName_dataName segments),
    Location.ofPath_join _ Metadata.isName_fileName] at hsame
  exact append_ne_append _ (merger.dataName_ne_fileName segments) (Option.some.inj hsame)

include hholds hfirst hsecond in
/-- The data are published first and the metadata, which are the commit, last. -/
theorem publish_withstands
    (htiling : checkTiling (segments.map (·.idRange)) (totalCount segments) = .ok ())
    {data metadata : StagedFile} (hdirectory : data.directory = merger.directory)
    (htarget : metadata.target = some merger.metadataPath) (hne : second ≠ first)
    (hdata : Location.ofPath data.temporary =
      some (Location.ofDirectory merger.directory ++ [first]))
    (hmetadata : Location.ofPath metadata.temporary =
      some (Location.ofDirectory merger.directory ++ [second]))
    (hthere : tree.IsDirectory (Location.ofDirectory merger.directory))
    (hstaged : start.Becomes tree
      (merger.stagedFiles segments createdAt first second start.files)) :
    Withstands (merger.watch may count start) (fun result last final ↦ ∀ done,
      result = .ok done → last = true ∧ (merger.watch may count start).safe true final)
      (publish data (merger.dataName segments) metadata) false tree := by
  have hoverlooks := merger.overlooks_watch may count start
  have hprepared : (merger.watch may count start).safe false tree :=
    prepared_of_staged hfirst hsecond hstaged
  have hheld : tree.files (Location.ofDirectory merger.directory ++ [first]) =
      some (merger.mergedCells segments).flatten := by
    rw [hstaged.files_eq, stagedFiles, Files.put_other _ _ (append_ne_append _ hne.symm),
      Files.put_self]
  have hplace : Location.ofPath (Path.join data.directory (merger.dataName segments)) =
      some (Location.ofDirectory merger.directory ++ [merger.dataName segments]) := by
    rw [hdirectory]
    exact Location.ofPath_join _ (merger.isName_dataName segments)
  have hother : (false || decide (Path.join data.directory (merger.dataName segments) =
      (merger.watch may count start).target)) = false := by
    rw [hdirectory, Bool.false_or]
    exact decide_eq_false (merger.join_dataName_ne segments)
  have hcommit : (false || decide (Path.join merger.directory Metadata.fileName =
      (merger.watch may count start).target)) = true := decide_eq_true rfl
  have hmoved : ∀ changed, tree.Becomes changed (merger.movedFiles segments first tree.files) →
      (merger.watch may count start).safe false changed :=
    fun changed hbecomes ↦ Prepared.moved hholds hfirst hprepared hbecomes
  unfold publish
  apply withstands_bind
  apply withstands_onFailure
  apply withstands_imp (StagedFile.persist_withstands hoverlooks hprepared hfirst hdata hheld hplace
    (by rw [hother]; exact hmoved))
  intro result last between hresult
  cases result with
  | error error =>
    obtain ⟨rfl, hstill⟩ := hresult
    exact (StagedFile.discard_withstands hoverlooks hstill hsecond hmetadata).imp
      fun _ _ _ _ ↦ nofun
  | ok done =>
    obtain ⟨rfl, hbetween⟩ := hresult
    rw [hother]
    have hdescribed : between.files (Location.ofDirectory merger.directory ++ [second]) =
        some (merger.describe segments (merger.mergedCells segments) createdAt).toBytes := by
      rw [hbetween.files_eq,
        Files.put_other _ _ (ne_temporary (merger.head_dataName segments) second hsecond).symm,
        Files.put_other _ _ (append_ne_append _ hne), hstaged.files_eq, stagedFiles,
        Files.put_self]
    have hcommitted : ∀ changed, between.Becomes changed
        (merger.committedFiles segments createdAt second between.files) →
          (merger.watch may count start).safe true changed :=
      fun changed hbecomes ↦ ⟨segments, createdAt, hholds, htiling,
        renewed_of_committed hfirst hsecond hthere hstaged hbetween hbecomes⟩
    show Withstands _ _ metadata.commit false between
    unfold StagedFile.commit
    rw [htarget]
    apply withstands_imp (StagedFile.persist_withstands hoverlooks (hmoved _ hbetween) hsecond
      hmetadata hdescribed (Location.ofPath_join merger.directory Metadata.isName_fileName)
      (by rw [hcommit]; exact hcommitted))
    intro result last final hresult
    cases result with
    | error error => exact nofun
    | ok done => exact fun _ _ ↦ ⟨hresult.1.trans hcommit, hcommitted final hresult.2⟩

end

/-! ## Removing what is stale -/

section

variable {watch : Watch} {committed : Bool} (hsafe : watch.safe committed tree)
include hsafe

theorem names_withstands (directory : Path) :
    (Layout.names directory).Withstands watch (fun _ last final ↦ last = committed ∧ final = tree)
      committed tree := by
  intro kind same hinspect
  rw [show Event.commits watch.target ⟨.inspect directory, kind⟩ = false from rfl, Bool.or_false]
  obtain rfl : same = tree := by
    cases hinspect with
    | works => rfl
    | fails => rfl
    | breaks _ haction => cases haction
  refine ⟨hsafe, ?_⟩
  cases kind with
  | none => exact ⟨rfl, rfl⟩
  | some kind =>
    intro answer final hlist
    rw [show Event.commits watch.target ⟨.list directory, answer⟩ = false from rfl, Bool.or_false]
    obtain rfl : final = same := by
      cases hlist with
      | works => rfl
      | fails => rfl
      | breaks _ haction => cases haction
    exact ⟨hsafe, rfl, rfl⟩

theorem dataFiles_withstands (directory : Path) :
    (Layout.dataFiles directory).Withstands watch (fun result last final ↦
      (last = committed ∧ final = tree) ∧ AreDataFiles directory result) committed tree := by
  refine StoreProgram.Withstands.always ?_ (dataFiles_always directory)
  unfold Layout.dataFiles
  apply StoreProgram.Withstands.bind
  exact (names_withstands hsafe directory).imp fun _ _ _ hsame ↦ hsame

/-- As long as stale files may be gone, whatever is removed of them leaves the store safe. -/
theorem removeAll_withstands {places : Location → Prop}
    (hloses : ∀ before after, watch.safe committed before → before.Loses after places →
      watch.safe committed after) {paths : List Path}
    (hpaths : ∀ path ∈ paths, ∃ location, Location.ofPath path = some location ∧ places location) :
    StoreProgram.Withstands watch (fun _ last final ↦ last = committed ∧ watch.safe committed final)
      (paths.forM fun path ↦ do
        let _ ← StoreProgram.perform (.remove path)) committed tree := by
  induction paths generalizing tree with
  | nil => exact ⟨rfl, hsafe⟩
  | cons path rest ih =>
    obtain ⟨⟨location, hpath, hplace⟩, hrest⟩ := List.forall_mem_cons.mp hpaths
    intro answer changed hremove
    rw [show Event.commits watch.target ⟨.remove path, answer⟩ = false from rfl, Bool.or_false]
    have hstill : watch.safe committed changed := by
      cases hremove with
      | works => exact hloses _ _ hsafe (Tree.loses_remove hpath hplace)
      | fails => exact hsafe
      | breaks _ haction => cases haction
    exact ⟨hstill, ih hstill hrest⟩

theorem removeStale_withstands (directory : Path) {kept : List String}
    (hloses : ∀ before after, watch.safe committed before → before.Loses after (IsStale kept) →
      watch.safe committed after) :
    (removeStale directory kept).Withstands watch
      (fun _ last final ↦ last = committed ∧ watch.safe committed final) committed tree := by
  unfold removeStale
  apply StoreProgram.Withstands.bind
  apply (dataFiles_withstands hsafe directory).imp
  rintro result last final ⟨⟨rfl, rfl⟩, hnames⟩
  cases result with
  | error fault => exact ⟨rfl, hsafe⟩
  | ok paths => exact removeAll_withstands hsafe hloses (exists_stale_places hnames)

omit hsafe in
theorem takes_removeStale (directory : Path) (kept : List String) :
    (removeStale directory kept).Takes (·.clears = true) := by
  have hremoves : ∀ paths : List Path, StoreProgram.Takes (·.clears = true)
      (paths.forM fun path ↦ do
        let _ ← StoreProgram.perform (.remove path)) := by
    intro paths
    induction paths with
    | nil => trivial
    | cons path rest ih => exact ⟨rfl, fun _ ↦ ih⟩
  have hnames : (Layout.names directory).Takes (·.clears = true) := by
    refine ⟨rfl, fun kind ↦ ?_⟩
    cases kind with
    | none => trivial
    | some kind => exact ⟨rfl, fun _ ↦ trivial⟩
  unfold removeStale Layout.dataFiles
  apply StoreProgram.Takes.bind
  · exact StoreProgram.Takes.bind hnames fun _ ↦ trivial
  · intro result
    cases result with
    | error fault => trivial
    | ok paths => exact hremoves _

end

/-! ## The whole merge -/

/-- The data files in the directory are named by the metadata or by those that they have replaced. -/
def Cleared (merger : SegmentMerger) (start : Tree) (metadata : Metadata) (tree : Tree) : Prop :=
  ∀ name, Path.IsName name → Layout.isDataName name = true →
    tree.files (Location.ofDirectory merger.directory ++ [name]) ≠ none →
      name = metadata.dataFile ∨
        ∃ replaced, merger.recorded? start = some replaced ∧ name = replaced.dataFile

theorem IsStale.mono {few many : List String} {location : Location}
    (hmany : ∀ name ∈ few, name ∈ many) (hstale : IsStale many location) :
    IsStale few location :=
  ⟨hstale.1, fun name hname ↦ hstale.2 name (hmany name hname)⟩

/-- What is removed after the commit may be removed. -/
theorem safe_of_loses (hholds : merger.Holds start count segments) {kept : List String}
    (hkept : ∀ name ∈ merger.dataName segments :: merger.spared may start, name ∈ kept)
    {before after : Tree} (hsafe : (merger.watch may count start).safe true before)
    (hloses : before.Loses after (IsStale kept)) :
    (merger.watch may count start).safe true after := by
  obtain ⟨others, createdAt, hothers, htiling, hrenewed⟩ := hsafe
  obtain rfl := hothers.unique hholds
  refine ⟨others, createdAt, hholds, htiling, hrenewed.loses ⟨hloses.directories, fun location ↦ ?_⟩⟩
  rcases hloses.files_eq location with hsame | ⟨hgone, hstale⟩
  · exact .inl hsame
  · exact .inr ⟨hgone, hstale.mono hkept⟩

/-- Nothing fails that the merge does to find data files and to remove them. -/
def Clears (merger : SegmentMerger) (may : Action → Bool) : Prop :=
  merger.directory ≠ "" ∧ ∀ action : Action, action.clears = true → may action = false

theorem removeStale_cleared
    (hdirectory : tree.IsDirectory (Location.ofDirectory merger.directory))
    (hplace : merger.directory ≠ "") {metadata : Metadata} {previous : Except IndexError Metadata}
    (hprevious : previous.toOption = none ∨ previous.toOption = merger.recorded? start) :
    merger.Cleared start metadata ((removeStale merger.directory
      (metadata.dataFile :: (previous.toOption.map (·.dataFile)).toList)).run tree).2 := by
  intro name hname hdata hfile
  have hkept : name ∈ metadata.dataFile :: (previous.toOption.map (·.dataFile)).toList := by
    by_contra hkept
    exact hfile (removeStale_clears hplace hdirectory hname hdata hkept)
  rcases List.mem_cons.mp hkept with rfl | hkept
  · exact .inl rfl
  · rw [Option.mem_toList, Option.map_eq_some_iff] at hkept
    obtain ⟨replaced, hreplaced, rfl⟩ := hkept
    rcases hprevious with hnone | hrecorded
    · rw [hnone] at hreplaced
      cases hreplaced
    · exact .inr ⟨replaced, hrecorded.symm.trans hreplaced, rfl⟩

/-- Whatever happens to the removal of stale files after the commit, the store stays safe. When none
of it fails, what is left is named. -/
theorem removeStale_withstands_committed (hholds : merger.Holds start count segments)
    (hsafe : (merger.watch may count start).safe true tree) {metadata : Metadata}
    (hdata : metadata.dataFile = merger.dataName segments) {previous : Except IndexError Metadata}
    (hread : previous.toOption = none ∨ previous.toOption = merger.recorded? start)
    (hsure : may (.fetch merger.metadataPath) = false →
      previous.toOption = merger.recorded? start) :
    (removeStale merger.directory
      (metadata.dataFile :: (previous.toOption.map (·.dataFile)).toList)).Withstands
        (merger.watch may count start)
        (fun _ _ final ↦ merger.Clears may → merger.Cleared start metadata final) true tree := by
  have hkept : ∀ name ∈ merger.dataName segments :: merger.spared may start,
      name ∈ metadata.dataFile :: (previous.toOption.map (·.dataFile)).toList := by
    intro name hname
    rcases List.mem_cons.mp hname with rfl | hname
    · exact hdata ▸ List.mem_cons_self
    · apply List.mem_cons_of_mem
      unfold spared at hname
      cases hmay : may (.fetch merger.metadataPath) with
      | true => simp [hmay] at hname
      | false =>
        rw [hsure hmay]
        simpa [hmay] using hname
  have hremoved := removeStale_withstands hsafe merger.directory
    fun before after ↦ safe_of_loses hholds hkept
  by_cases hclears : merger.Clears may
  · have htakes := takes_removeStale merger.directory
      (metadata.dataFile :: (previous.toOption.map (·.dataFile)).toList)
    apply (hremoved.undisturbed htakes hclears.2).imp
    rintro _ last final ⟨-, hrun⟩ -
    obtain ⟨others, moment, -, -, hrenewed⟩ := hsafe
    obtain rfl : _ = final := congrArg Prod.snd hrun
    exact removeStale_cleared hrenewed.directory hclears.1 hread
  · exact hremoved.imp fun _ _ _ _ h ↦ absurd h hclears

theorem mergeSegments_withstands (hholds : merger.Holds start count segments) :
    Withstands (merger.watch may count start) (fun result _ final ↦ ∀ metadata,
      result = .ok metadata → merger.Clears may → merger.Cleared start metadata final)
      (merger.mergeSegments segments) false start := by
  have hoverlooks := merger.overlooks_watch may count start
  have hstart : (merger.watch may count start).safe false start := merger.prepared_self count start
  unfold mergeSegments
  apply withstands_bind
  apply withstands_ofExcept
  cases htiling : checkTiling (segments.map (·.idRange)) (totalCount segments) with
  | error fault => exact nofun
  | ok done =>
    apply withstands_bind
    apply withstands_imp (StagedFile.createIn_withstands hoverlooks hstart rfl)
    rintro result last created ⟨rfl, hstill, hcreated⟩
    cases result with
    | error error => exact nofun
    | ok staged =>
      obtain ⟨first, hfirst, hdirectory, hlocation, hunused, hthere, hmade⟩ := hcreated staged rfl
      have hempty : created.files (Location.ofDirectory merger.directory ++ [first]) = some [] := by
        rw [hmade.files_eq, Files.put_self]
      have hrecorded : merger.recorded? created = merger.recorded? start := by
        unfold recorded?
        rw [hmade.files_eq, Files.put_other _ _ (merger.metadata_ne_temporary first hfirst)]
      apply withstands_bind
      apply withstands_onFailure
      apply withstands_imp (stageMerge_withstands hoverlooks hstill hthere hfirst hlocation hempty
        segments)
      rintro result last written ⟨rfl, hstill, hwritten⟩
      cases result with
      | error error =>
        exact (StagedFile.discard_withstands hoverlooks hstill hfirst hlocation).imp
          fun _ _ _ _ ↦ nofun
      | ok triple =>
        obtain ⟨metadata, previous, stagedMetadata⟩ := triple
        obtain ⟨⟨createdAt, rfl⟩, hread, hsure, second, hsecond, hne, htarget, hplace, hthere,
          hbecomes⟩ := hwritten _ _ _ rfl
        rw [hmade.files_eq, Files.put_put] at hbecomes
        apply withstands_bind
        apply withstands_imp (publish_withstands hholds hfirst hsecond htiling hdirectory htarget hne
          hlocation hplace hthere (hmade.trans hbecomes))
        intro result last published hpublished
        cases result with
        | error error => exact nofun
        | ok done =>
          obtain ⟨rfl, hsafe⟩ := hpublished done rfl
          rw [hrecorded] at hread hsure
          apply withstands_bind
          apply StoreProgram.Withstands.bind
          apply (removeStale_withstands_committed hholds hsafe rfl hread hsure).imp
          intro _ last final hcleared _ hmetadata
          obtain rfl := Except.ok.inj hmetadata
          exact hcleared

/-- A merge withstands every fault and every cut. -/
theorem mergeInOrder_withstands (merger : SegmentMerger) (may : Action → Bool)
    (order : List PartitionIndex) (start : Tree) :
    Withstands (merger.watch may order.length start) (fun result _ final ↦ ∀ metadata,
      result = .ok metadata → merger.Clears may → merger.Cleared start metadata final)
      (merger.mergeInOrder order) false start := by
  have hstart : (merger.watch may order.length start).safe false start :=
    merger.prepared_self order.length start
  unfold mergeInOrder
  apply withstands_bind
  apply withstands_ofExcept
  cases horder : checkOrder order with
  | error error => exact nofun
  | ok done =>
    apply withstands_bind
    apply withstands_imp (faithful_requireSegments order _ false start hstart)
    rintro result last same ⟨rfl, rfl, -⟩
    cases result with
    | error error => exact nofun
    | ok done =>
      apply withstands_bind
      apply withstands_imp (faithful_openSegments order _ false _ hstart)
      rintro result last same ⟨rfl, rfl, hopened⟩
      cases result with
      | error error => exact nofun
      | ok segments =>
        obtain ⟨-, hpartitions, haccepts⟩ := openSegments_ok.mp (hopened segments rfl)
        apply mergeSegments_withstands
        exact holds_mergeSort (checkOrder_eq_ok.mp horder) hpartitions haccepts

/-! ## Between the data and the metadata -/

/-- The merged data are in their place while the metadata are the old ones. -/
structure HalfPublished (merger : SegmentMerger) (metadata : Metadata) (start tree : Tree) :
    Prop where
  data : ∃ data, Fingerprint.of data = metadata.checksum ∧
    tree.files (Location.ofDirectory merger.directory ++ [metadata.dataFile]) = some data
  metadata : tree.files (Location.ofDirectory merger.directory ++ [Metadata.fileName]) =
    start.files (Location.ofDirectory merger.directory ++ [Metadata.fileName])

theorem mergeSegments_passes {metadata : Metadata}
    (hrun : (merger.mergeSegments segments).runOn start = (.ok metadata, changed)) :
    StoreProgram.Passes may (merger.HalfPublished metadata start)
      (merger.mergeSegments segments).run start := by
  unfold mergeSegments at hrun ⊢
  obtain ⟨_, checked, hcheck, hrun₁⟩ := runOn_bind_ok.mp hrun
  obtain ⟨staged, created, hstage, hrun₂⟩ := runOn_bind_ok.mp hrun₁
  obtain ⟨⟨written, previous, stagedMetadata⟩, merged, hwrite, hrun₃⟩ := runOn_bind_ok.mp hrun₂
  obtain ⟨_, published, hpublish, hrun₄⟩ := runOn_bind_ok.mp hrun₃
  obtain ⟨_, last, -, hpure⟩ := runOn_bind_ok.mp hrun₄
  obtain ⟨rfl, -⟩ := runOn_pure_ok.mp hpure
  unfold publish at hpublish ⊢
  obtain ⟨_, placed, hplace, -⟩ := runOn_bind_ok.mp hpublish
  apply passes_bind hcheck
  apply passes_bind hstage
  apply passes_bind hwrite
  dsimp only
  rw [bind_assoc]
  apply passes_bind hplace
  apply StoreProgram.passes_here
  obtain ⟨-, rfl⟩ := runOn_ofExcept_ok.mp hcheck
  obtain ⟨temporary, htemporary, hdirectory, hlocation, hunused, -, hcreated⟩ :=
    StagedFile.createIn_ok hstage
  obtain ⟨createdAt, name, rfl, hname, hne, -, -, -, -, hmerged⟩ :=
    stageMerge_ok hlocation (by rw [hcreated.files_eq, Files.put_self])
      (runOn_onFailure_ok.mp hwrite)
  have htarget := Location.ofPath_join merger.directory (merger.isName_dataName segments)
  rw [← hdirectory] at htarget
  obtain ⟨bytes, hbytes, hmoved⟩ :=
    StagedFile.persist_ok hlocation htarget (runOn_onFailure_ok.mp hplace)
  rw [hmerged.files_eq, hcreated.files_eq, Files.put_put] at hbytes hmoved
  refine ⟨⟨_, rfl, ?_⟩, ?_⟩
  · rw [Files.put_other _ _ (append_ne_append _ hne.symm), Files.put_self, Option.some.injEq]
      at hbytes
    rw [hmoved.files_eq, hdirectory, hbytes]
    exact Files.put_self _ _ _
  · have hfirst := merger.metadata_ne_temporary temporary htemporary
    have hdata := (merger.dataName_ne_fileName segments).symm
    rw [hmoved.files_eq, hdirectory, Files.put_other _ _ (append_ne_append _ hdata),
      Files.put_other _ _ hfirst, Files.put_other _ _ (merger.metadata_ne_temporary name hname),
      Files.put_other _ _ hfirst]

/-- A merge that succeeds could have been cut off between the two. -/
theorem mergeInOrder_passes {order : List PartitionIndex} {metadata : Metadata}
    (hrun : (merger.mergeInOrder order).runOn start = (.ok metadata, changed)) :
    StoreProgram.Passes may (merger.HalfPublished metadata start)
      (merger.mergeInOrder order).run start := by
  unfold mergeInOrder at hrun ⊢
  obtain ⟨_, _, hcheck, hrun₁⟩ := runOn_bind_ok.mp hrun
  obtain ⟨_, _, hrequire, hrun₂⟩ := runOn_bind_ok.mp hrun₁
  obtain ⟨segments, opened, hopen, hmerge⟩ := runOn_bind_ok.mp hrun₂
  obtain ⟨-, rfl⟩ := runOn_ofExcept_ok.mp hcheck
  obtain ⟨rfl, -⟩ := requireSegments_ok.mp hrequire
  obtain ⟨rfl, -, -⟩ := openSegments_ok.mp hopen
  exact passes_bind hcheck (passes_bind hrequire (passes_bind hopen (mergeSegments_passes hmerge)))

end SegmentMerger
end VectorIndex
