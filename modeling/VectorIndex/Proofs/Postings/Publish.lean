import VectorIndex.Proofs.Postings.Names
import VectorIndex.Proofs.Postings.Order
import VectorIndex.Proofs.Store.Staging

/-!
# What a merge leaves in the store

After a merge the data file and the metadata are in the directory of the index. Every other file is
as it was, except for data files that the merge has removed.
-/

namespace VectorIndex

open IndexProgram (runOn_bind runOn_bind_ok runOn_onFailure_ok runOn_pure_ok runOn_ofExcept_ok
  runOn_lift_ok runOn_readFile)

/-! ## Loading metadata -/

theorem Metadata.runOn_load (path : Path) (tree : Tree) :
    (Metadata.load path).runOn tree = (tree.read path >>= Metadata.ofBytes path, tree) := by
  unfold Metadata.load
  rw [runOn_bind, runOn_readFile]
  cases tree.read path with
  | error error => rfl
  | ok bytes => rfl

/-! ## Removing what is stale -/

/-- A place whose name ends as the names of data files do. -/
def IsDataPlace (location : Location) : Prop :=
  ∃ parents name, location = parents ++ [name] ∧ Metadata.dataSuffix.toList <:+ name.toList

namespace SegmentMerger

theorem run_names (directory : Path) (tree : Tree) :
    ((Layout.names directory).run tree).2 = tree := by
  unfold Layout.names
  rw [StoreProgram.run_bind, run_exists?]
  split
  · rfl
  · rfl

theorem run_dataFiles (directory : Path) (tree : Tree) :
    ((Layout.dataFiles directory).run tree).2 = tree := by
  unfold Layout.dataFiles
  rw [StoreProgram.run_bind]
  exact run_names directory tree

/-- Whatever the directory lists, only names of data files are taken. -/
def AreDataFiles (directory : Path) (result : Except StoreFault (List Path)) : Prop :=
  ∀ paths, result = .ok paths → ∀ path ∈ paths,
    ∃ name, Layout.isDataName name = true ∧ path = Path.join directory name

theorem dataFiles_always (directory : Path) :
    (Layout.dataFiles directory).Always (AreDataFiles directory) := by
  unfold Layout.dataFiles
  apply StoreProgram.Always.bind
  apply StoreProgram.Always.of_forall
  intro result paths hpaths path hpath
  cases result with
  | error fault => cases hpaths
  | ok names =>
    obtain rfl := Except.ok.inj hpaths
    obtain ⟨name, hname, rfl⟩ := List.mem_map.mp hpath
    rw [List.mem_mergeSort] at hname
    exact ⟨name, (List.mem_filter.mp hname).2, rfl⟩

/-- The places from which a merge removes data files: none with a name that is kept. -/
def IsStale (kept : List String) (location : Location) : Prop :=
  IsDataPlace location ∧ ∀ name ∈ kept, location.getLast? ≠ some name

theorem not_isStale_of_mem {kept : List String} {name : String} (hname : name ∈ kept)
    (directory : Location) : ¬ IsStale kept (directory ++ [name]) := by
  rintro ⟨-, hkept⟩
  exact hkept name hname List.getLast?_concat

/-- The metadata are no data file, so they are never stale. -/
theorem not_isStale_fileName (kept : List String) (directory : Location) :
    ¬ IsStale kept (directory ++ [Metadata.fileName]) := by
  rintro ⟨⟨parents, name, hplace, hending⟩, -⟩
  obtain ⟨-, hname⟩ := List.append_inj' hplace rfl
  rw [← (List.cons.inj hname).1] at hending
  exact absurd (List.isSuffixOf_iff_suffix.mpr hending) (by decide)

theorem removeAll_loses {places : Location → Prop} {paths : List Path}
    (hpaths : ∀ path ∈ paths, ∃ location, Location.ofPath path = some location ∧ places location)
    (tree : Tree) :
    tree.Loses ((paths.forM fun path ↦ do
      let _ ← StoreProgram.perform (.remove path)).run tree).2 places := by
  induction paths generalizing tree with
  | nil => exact Tree.Loses.refl tree
  | cons path rest ih =>
    obtain ⟨⟨location, hpath, hplace⟩, hrest⟩ := List.forall_mem_cons.mp hpaths
    exact (Tree.loses_remove hpath hplace).trans (ih hrest _)

/-- A data file whose name is not kept has a place from which it may be removed. -/
theorem exists_stale_place (directory : Path) {name : String}
    (hname : Layout.isDataName name = true) {kept : List String}
    (hkept : Path.fileName (Path.join directory name) ∉ kept) :
    ∃ location, Location.ofPath (Path.join directory name) = some location ∧
      IsStale kept location := by
  obtain ⟨hslash, hending, hlast⟩ := Layout.fileName_of_isDataName directory hname
  obtain ⟨parents, hlocation⟩ := Location.ofPath_fileName hlast hslash
  refine ⟨_, hlocation, ⟨parents, _, rfl, hending⟩, fun other hother heq ↦ ?_⟩
  rw [List.getLast?_concat] at heq
  exact hkept (Option.some.inj heq ▸ hother)

/-- What is removed of the data files of a directory is stale. -/
theorem exists_stale_places {directory : Path} {kept : List String} {paths : List Path}
    (hpaths : AreDataFiles directory (.ok paths)) :
    ∀ path ∈ paths.filter fun path ↦ !kept.contains (Path.fileName path),
      ∃ location, Location.ofPath path = some location ∧ IsStale kept location := by
  intro path hpath
  obtain ⟨hmem, hkept⟩ := List.mem_filter.mp hpath
  obtain ⟨name, hname, rfl⟩ := hpaths paths rfl path hmem
  exact exists_stale_place directory hname (by simpa using hkept)

theorem removeStale_loses (directory : Path) (kept : List String) (tree : Tree) :
    tree.Loses ((removeStale directory kept).run tree).2 (IsStale kept) := by
  have hnames := (dataFiles_always directory).run tree
  unfold removeStale
  rw [StoreProgram.run_bind, run_dataFiles directory tree]
  cases hpaths : ((Layout.dataFiles directory).run tree).1 with
  | error fault => exact Tree.Loses.refl tree
  | ok paths => exact removeAll_loses (exists_stale_places (hpaths ▸ hnames)) tree

theorem removeAll_clears {places : Location → Prop} {paths : List Path}
    (hpaths : ∀ path ∈ paths, ∃ location, Location.ofPath path = some location ∧ places location)
    {path : Path} (hmem : path ∈ paths) {directory : Location} {name : String}
    (hpath : Location.ofPath path = some (directory ++ [name]))
    (hslash : Path.endsWithSlash path = false) {tree : Tree} (hdirectory : tree.IsDirectory directory) :
    ((paths.forM fun path ↦ do
      let _ ← StoreProgram.perform (.remove path)).run tree).2.files (directory ++ [name]) = none := by
  induction paths generalizing tree with
  | nil => cases hmem
  | cons first rest ih =>
    obtain ⟨⟨location, hfirst, hplace⟩, hrest⟩ := List.forall_mem_cons.mp hpaths
    rcases List.mem_cons.mp hmem with rfl | hmem
    · have hgone := Tree.files_remove hpath hslash hdirectory
      rcases (removeAll_loses hrest _).files_eq (directory ++ [name]) with hsame | ⟨hnone, -⟩
      · exact hsame.trans hgone
      · exact hnone
    · exact ih hrest hmem ((Tree.loses_remove hfirst hplace).directories _ hdirectory)

/-- The names in a directory are those of everything that it holds. -/
theorem exists_names {directory : Path} {tree : Tree} (hplace : directory ≠ "")
    (hdirectory : tree.IsDirectory (Location.ofDirectory directory)) :
    ∃ names, (Layout.names directory).run tree = (.ok names, tree) ∧ ∀ name,
      name ∈ names ↔ tree.find? (Location.ofDirectory directory ++ [name]) ≠ none := by
  have hlocation := Location.ofPath_of_ne_empty hplace
  obtain ⟨names, hlist, hnames⟩ := Tree.exists_list hlocation hdirectory
  refine ⟨names, ?_, hnames⟩
  unfold Layout.names
  rw [StoreProgram.run_bind, run_exists?, Tree.answer_inspect,
    Tree.lookup_directory hlocation hdirectory]
  exact congrArg (·, tree) hlist

/-- The empty path cannot be listed, so nothing is removed there. -/
theorem run_removeStale_empty (kept : List String) (tree : Tree) :
    (removeStale "" kept).run tree = ((), tree) := by
  have hnowhere : tree.lookup "" = .error .notFound := rfl
  have hnames : (Layout.names "").run tree = (.ok [], tree) := by
    unfold Layout.names
    rw [StoreProgram.run_bind, run_exists?, Tree.answer, hnowhere]
    rfl
  unfold removeStale Layout.dataFiles
  simp only [StoreProgram.run_bind, hnames, StoreProgram.run_pure, Except.map, List.filter_nil,
    List.mergeSort_nil, List.map_nil]
  rfl

/-- Every data file of a directory is found. -/
theorem exists_dataFiles {directory : Path} {tree : Tree} (hplace : directory ≠ "")
    (hdirectory : tree.IsDirectory (Location.ofDirectory directory)) :
    ∃ paths, ((Layout.dataFiles directory).run tree).1 = .ok paths ∧
      ∀ name, Layout.isDataName name = true →
        tree.files (Location.ofDirectory directory ++ [name]) ≠ none →
          Path.join directory name ∈ paths := by
  obtain ⟨names, hrun, hnames⟩ := exists_names hplace hdirectory
  unfold Layout.dataFiles
  rw [StoreProgram.run_bind, hrun]
  refine ⟨_, rfl, fun name hname hfile ↦ List.mem_map_of_mem ?_⟩
  rw [List.mem_mergeSort]
  exact List.mem_filter.mpr ⟨(hnames name).mpr (mt Tree.files_of_none hfile), hname⟩

/-- Of the data files in a directory only those that are kept are left. -/
theorem removeStale_clears {directory : Path} {tree : Tree} (hplace : directory ≠ "")
    (hdirectory : tree.IsDirectory (Location.ofDirectory directory)) {name : String}
    (hname : Path.IsName name) (hdata : Layout.isDataName name = true) {kept : List String}
    (hkept : name ∉ kept) :
    ((removeStale directory kept).run tree).2.files (Location.ofDirectory directory ++ [name]) =
      none := by
  have hloses := removeStale_loses directory kept tree
  by_cases hfile : tree.files (Location.ofDirectory directory ++ [name]) = none
  · rcases hloses.files_eq (Location.ofDirectory directory ++ [name]) with hsame | ⟨hgone, -⟩
    · exact hsame.trans hfile
    · exact hgone
  · have hlocation := Location.ofPath_join directory hname
    obtain ⟨hslash, -, hlast⟩ := Layout.fileName_of_isDataName directory hdata
    obtain ⟨parents, hparents⟩ := Location.ofPath_fileName hlast hslash
    rw [hlocation, Option.some.injEq] at hparents
    have hsame := congrArg List.getLast? hparents
    rw [List.getLast?_concat, List.getLast?_concat, Option.some.injEq] at hsame
    obtain ⟨paths, hpaths, hfound⟩ := exists_dataFiles hplace hdirectory
    have hmem : Path.join directory name ∈
        paths.filter fun path ↦ !kept.contains (Path.fileName path) := by
      refine List.mem_filter.mpr ⟨hfound name hdata hfile, ?_⟩
      rw [← hsame]
      simpa using hkept
    have hnames := (dataFiles_always directory).run tree
    rw [hpaths] at hnames
    unfold removeStale
    rw [StoreProgram.run_bind, run_dataFiles directory tree, hpaths]
    exact removeAll_clears (exists_stale_places hnames) hmem hlocation hslash hdirectory

/-! ## Publishing -/

/-- The data file and the metadata are there, and every other file is as it was or is a stale data
file that is gone. -/
structure Publishes (merger : SegmentMerger) (before after : Tree) (data : Bytes)
    (metadata : Metadata) : Prop where
  directories : ∀ location, before.IsDirectory location → after.IsDirectory location
  directory : after.IsDirectory (Location.ofDirectory merger.directory)
  data_eq : after.files (Location.ofDirectory merger.directory ++ [metadata.dataFile]) = some data
  metadata_eq : after.files (Location.ofDirectory merger.directory ++ [Metadata.fileName]) =
    some metadata.toBytes
  others : ∀ location, location ≠ Location.ofDirectory merger.directory ++ [metadata.dataFile] →
    location ≠ Location.ofDirectory merger.directory ++ [Metadata.fileName] →
      after.files location = before.files location ∨
        (after.files location = none ∧ IsStale [metadata.dataFile] location)

/-- A merge leaves every file of its directory that is neither metadata nor merged data. -/
theorem Publishes.files_other {merger : SegmentMerger} {before after : Tree} {data : Bytes}
    {metadata : Metadata} (hpublishes : merger.Publishes before after data metadata)
    {name : String} (hdata : name ≠ metadata.dataFile) (hmetadata : name ≠ Metadata.fileName)
    (hsuffix : ¬ Metadata.dataSuffix.toList <:+ name.toList) :
    after.files (Location.ofDirectory merger.directory ++ [name]) =
      before.files (Location.ofDirectory merger.directory ++ [name]) := by
  rcases hpublishes.others (Location.ofDirectory merger.directory ++ [name])
    (by simpa using hdata) (by simpa using hmetadata) with hsame | ⟨-, hplace, -⟩
  · exact hsame
  · obtain ⟨parents, other, heq, hending⟩ := hplace
    obtain ⟨-, hother⟩ := List.append_inj' heq rfl
    rw [← (List.cons.inj hother).1] at hending
    exact absurd hending hsuffix

theorem dataFile_describe (merger : SegmentMerger) (segments : List Segment) (cells : List Bytes)
    (createdAt : String) : (merger.describe segments cells createdAt).dataFile =
      Metadata.dataFileName (Fingerprint.of cells.flatten) := rfl

theorem stageMetadata_ok {merger : SegmentMerger} {metadata : Metadata} {staged : StagedFile}
    {tree changed : Tree} (hrun : (merger.stageMetadata metadata).runOn tree = (.ok staged, changed)) :
    ∃ temporary, StagedFile.IsTemporary temporary ∧ staged.target = some merger.metadataPath ∧
      Location.ofPath staged.temporary =
        some (Location.ofDirectory merger.directory ++ [temporary]) ∧
      tree.files (Location.ofDirectory merger.directory ++ [temporary]) = none ∧
      changed.IsDirectory (Location.ofDirectory merger.directory) ∧
      tree.Becomes changed (tree.files.put (Location.ofDirectory merger.directory ++ [temporary])
        (some metadata.toBytes)) := by
  unfold stageMetadata at hrun
  obtain ⟨created, first, hcreate, hwrite⟩ := runOn_bind_ok.mp hrun
  obtain ⟨_, second, happend, hlast⟩ := runOn_bind_ok.mp hwrite
  obtain ⟨rfl, rfl⟩ := runOn_pure_ok.mp hlast
  obtain ⟨temporary, htemporary, htarget, hlocation, hunused, hdirectory, hstaged⟩ :=
    StagedFile.create_ok Metadata.isName_fileName hcreate
  obtain ⟨contents, hcontents, happended⟩ :=
    StagedFile.append_ok hlocation (runOn_onFailure_ok.mp happend)
  rw [hstaged.files_eq, Files.put_self] at hcontents
  rw [hstaged.files_eq, Files.put_put, ← Option.some.inj hcontents, List.nil_append] at happended
  exact ⟨temporary, htemporary, htarget, hlocation, hunused,
    happended.directories _ hdirectory, hstaged.trans happended⟩

/-- Until it is published, a merge has only added two files of names that no other file has. -/
theorem stageMerge_ok {merger : SegmentMerger} {segments : List Segment} {staged : StagedFile}
    {temporary : String}
    (hlocation : Location.ofPath staged.temporary =
      some (Location.ofDirectory merger.directory ++ [temporary]))
    {tree changed : Tree}
    (hempty : tree.files (Location.ofDirectory merger.directory ++ [temporary]) = some [])
    {metadata : Metadata} {previous : Except IndexError Metadata} {stagedMetadata : StagedFile}
    (hrun : (merger.stageMerge segments staged).runOn tree =
      (.ok (metadata, previous, stagedMetadata), changed)) :
    ∃ createdAt name,
      metadata = merger.describe segments (merger.mergedCells segments) createdAt ∧
      StagedFile.IsTemporary name ∧ name ≠ temporary ∧
      stagedMetadata.target = some merger.metadataPath ∧
      Location.ofPath stagedMetadata.temporary =
        some (Location.ofDirectory merger.directory ++ [name]) ∧
      tree.files (Location.ofDirectory merger.directory ++ [name]) = none ∧
      changed.IsDirectory (Location.ofDirectory merger.directory) ∧
      tree.Becomes changed ((tree.files.put (Location.ofDirectory merger.directory ++ [temporary])
        (some (merger.mergedCells segments).flatten)).put
          (Location.ofDirectory merger.directory ++ [name]) (some metadata.toBytes)) := by
  unfold stageMerge at hrun
  obtain ⟨moment, ticked, hnow, hrun₁⟩ := runOn_bind_ok.mp hrun
  obtain ⟨_, appended, happend, hrun₂⟩ := runOn_bind_ok.mp hrun₁
  obtain ⟨loaded, same, hload, hrun₃⟩ := runOn_bind_ok.mp hrun₂
  obtain ⟨second, last, hstage, hpure⟩ := runOn_bind_ok.mp hrun₃
  obtain ⟨heq, rfl⟩ := runOn_pure_ok.mp hpure
  simp only [Prod.mk.injEq] at heq
  obtain ⟨rfl, rfl, rfl⟩ := heq
  obtain ⟨-, rfl⟩ := Prod.mk.inj hnow
  obtain ⟨-, rfl⟩ := runOn_lift_ok.mp hload
  rw [IndexProgram.run_attempt, Metadata.runOn_load] at hstage
  obtain ⟨contents, hcontents, happended⟩ := StagedFile.append_ok hlocation happend
  have hticked : tree.tick.files = tree.files := rfl
  obtain rfl : contents = [] := Option.some.inj (hcontents.symm.trans hempty)
  obtain ⟨name, hname, htarget, hplace, hunused, hdirectory, hstaged⟩ := stageMetadata_ok hstage
  rw [hticked, List.nil_append] at happended
  rw [happended.files_eq] at hunused hstaged
  have hne : name ≠ temporary := by
    rintro rfl
    rw [Files.put_self] at hunused
    cases hunused
  rw [Files.put_other _ _ (by simpa using hne)] at hunused
  have happended' : tree.Becomes appended _ := ⟨happended.files_eq, happended.directories⟩
  exact ⟨_, name, rfl, hname, hne, htarget, hplace, hunused, hdirectory,
    happended'.trans hstaged⟩

/-- Publishing moves both staged files to their names. -/
theorem publish_ok {merger : SegmentMerger} {data metadata : StagedFile} {name first second : String}
    (hname : Path.IsName name) (hdirectory : data.directory = merger.directory)
    (hfirst : Location.ofPath data.temporary =
      some (Location.ofDirectory merger.directory ++ [first]))
    (htarget : metadata.target = some merger.metadataPath)
    (hsecond : Location.ofPath metadata.temporary =
      some (Location.ofDirectory merger.directory ++ [second]))
    {tree changed : Tree} {done : Unit}
    (hrun : (publish data name metadata).runOn tree = (.ok done, changed)) :
    ∃ bytes described,
      tree.files (Location.ofDirectory merger.directory ++ [first]) = some bytes ∧
      ((tree.files.put (Location.ofDirectory merger.directory ++ [first]) none).put
        (Location.ofDirectory merger.directory ++ [name]) (some bytes))
          (Location.ofDirectory merger.directory ++ [second]) = some described ∧
      tree.Becomes changed ((((tree.files.put
        (Location.ofDirectory merger.directory ++ [first]) none).put
          (Location.ofDirectory merger.directory ++ [name]) (some bytes)).put
            (Location.ofDirectory merger.directory ++ [second]) none).put
              (Location.ofDirectory merger.directory ++ [Metadata.fileName]) (some described)) := by
  unfold publish at hrun
  obtain ⟨_, between, hdata, hmetadata⟩ := runOn_bind_ok.mp hrun
  unfold StagedFile.commit at hmetadata
  rw [htarget] at hmetadata
  have hplace := Location.ofPath_join merger.directory hname
  rw [← hdirectory] at hplace
  obtain ⟨bytes, hbytes, hmoved⟩ :=
    StagedFile.persist_ok hfirst hplace (runOn_onFailure_ok.mp hdata)
  obtain ⟨described, hdescribed, hlast⟩ := StagedFile.persist_ok hsecond
    (Location.ofPath_join merger.directory Metadata.isName_fileName) hmetadata
  rw [hmoved.files_eq, hdirectory] at hdescribed hlast
  exact ⟨bytes, described, hbytes, hdescribed, hmoved.trans hlast⟩

/-- The removal of stale data files takes away neither of the two published files. -/
theorem publishes_of_loses {merger : SegmentMerger} {before published after : Tree} {data : Bytes}
    {metadata : Metadata} {others : List String} (hkind : metadata.dataFile ≠ Metadata.fileName)
    (hdirectory : published.IsDirectory (Location.ofDirectory merger.directory))
    (hpublished : before.Becomes published
      ((before.files.put (Location.ofDirectory merger.directory ++ [metadata.dataFile])
        (some data)).put (Location.ofDirectory merger.directory ++ [Metadata.fileName])
          (some metadata.toBytes)))
    (hloses : published.Loses after (IsStale (metadata.dataFile :: others))) :
    merger.Publishes before after data metadata := by
  have hfiles := hpublished.files_eq
  refine ⟨?_, hloses.directories _ hdirectory, ?_, ?_, ?_⟩
  · exact fun location h ↦ hloses.directories location (hpublished.directories location h)
  · rw [hloses.keeps (not_isStale_of_mem List.mem_cons_self _), hfiles, Files.put_other,
      Files.put_self]
    simpa using hkind
  · rw [hloses.keeps (not_isStale_fileName _ _), hfiles, Files.put_self]
  · intro location hdata hmetadata
    have hsame : published.files location = before.files location := by
      rw [hfiles, Files.put_other _ _ hmetadata, Files.put_other _ _ hdata]
    rw [← hsame]
    rcases hloses.files_eq location with hkept | ⟨hgone, hplace, hstale⟩
    · exact .inl hkept
    · refine .inr ⟨hgone, hplace, fun name hname ↦ hstale name ?_⟩
      rw [List.mem_singleton.mp hname]
      exact List.mem_cons_self

/-- Merging segments that tile the ids moves their data and the metadata that describe them to their
names, and then removes what is stale. -/
theorem mergeSegments_becomes {merger : SegmentMerger} {segments : List Segment}
    {tree changed : Tree} {metadata : Metadata}
    (hrun : (merger.mergeSegments segments).runOn tree = (.ok metadata, changed)) :
    checkTiling (segments.map (·.idRange)) (totalCount segments) = .ok () ∧
      (∃ createdAt, metadata =
        merger.describe segments (merger.mergedCells segments) createdAt) ∧
      ∃ published others,
        published.IsDirectory (Location.ofDirectory merger.directory) ∧
        tree.Becomes published
          ((tree.files.put (Location.ofDirectory merger.directory ++ [metadata.dataFile])
            (some (merger.mergedCells segments).flatten)).put
              (Location.ofDirectory merger.directory ++ [Metadata.fileName])
                (some metadata.toBytes)) ∧
        changed =
          ((removeStale merger.directory (metadata.dataFile :: others)).run published).2 := by
  unfold mergeSegments at hrun
  obtain ⟨_, checked, hcheck, hrun₁⟩ := runOn_bind_ok.mp hrun
  obtain ⟨staged, first, hstage, hrun₂⟩ := runOn_bind_ok.mp hrun₁
  obtain ⟨⟨written, previous, stagedMetadata⟩, second, hwrite, hrun₃⟩ := runOn_bind_ok.mp hrun₂
  obtain ⟨_, third, hpublish, hrun₄⟩ := runOn_bind_ok.mp hrun₃
  obtain ⟨_, last, hremove, hpure⟩ := runOn_bind_ok.mp hrun₄
  obtain ⟨rfl, rfl⟩ := runOn_pure_ok.mp hpure
  obtain ⟨hchecked, rfl⟩ := runOn_ofExcept_ok.mp hcheck
  obtain ⟨-, rfl⟩ := runOn_lift_ok.mp hremove
  -- the data, the metadata and the two staged files have four different names
  obtain ⟨temporary, -, hstart, hlocation, hunused, hdirectory, hstaged⟩ :=
    StagedFile.createIn_ok hstage
  obtain ⟨createdAt, name, hwritten, hname, hne, htarget, hplace, hfree, -, hmerged⟩ :=
    stageMerge_ok hlocation (by rw [hstaged.files_eq, Files.put_self])
      (runOn_onFailure_ok.mp hwrite)
  obtain ⟨checksum, hfile⟩ : ∃ checksum, written.dataFile = Metadata.dataFileName checksum :=
    ⟨_, hwritten ▸ dataFile_describe ..⟩
  have hfileName : name ≠ written.dataFile := by
    rw [hfile]
    exact hname.ne (by rw [Metadata.head_dataFileName]; decide)
  obtain ⟨bytes, described, hbytes, hdescribed, hpublished⟩ := publish_ok
    (hfile ▸ Metadata.isName_dataFileName checksum) hstart hlocation htarget hplace hpublish
  have hlocations : ∀ {a b : String}, a ≠ b → Location.ofDirectory merger.directory ++ [a] ≠
      Location.ofDirectory merger.directory ++ [b] := by
    intro a b hab
    simpa using hab
  rw [hmerged.files_eq, hstaged.files_eq, Files.put_put] at hbytes hdescribed hpublished
  rw [Files.put_other _ _ (hlocations hne.symm), Files.put_self, Option.some.injEq] at hbytes
  rw [Files.put_other _ _ (hlocations hfileName), Files.put_other _ _ (hlocations hne),
    Files.put_self, Option.some.injEq] at hdescribed
  rw [hstaged.files_eq, Files.put_other _ _ (hlocations hne)] at hfree
  subst hbytes hdescribed
  rw [Files.put_moved _ _ hunused hfree (hlocations hne) (hlocations hfileName)] at hpublished
  exact ⟨Result.mapError_ok.mp hchecked, ⟨createdAt, hwritten⟩, third, _,
    (hmerged.trans hpublished).directories _ hdirectory,
    (hstaged.trans hmerged).trans hpublished, rfl⟩

/-- In the directory of the empty path a merge removes nothing. -/
theorem files_of_mergeSegments_empty {codebook : Codebook} {segments : List Segment}
    {tree changed : Tree} {metadata : Metadata}
    (hrun : (mergeSegments ⟨"", codebook⟩ segments).runOn tree = (.ok metadata, changed))
    {location : Location} (hdata : location ≠ [metadata.dataFile])
    (hmetadata : location ≠ [Metadata.fileName]) :
    changed.files location = tree.files location := by
  obtain ⟨-, -, published, others, -, hpublished, rfl⟩ := mergeSegments_becomes hrun
  rw [run_removeStale_empty, hpublished.files_eq]
  exact (Files.put_other _ _ hmetadata).trans (Files.put_other _ _ hdata)

/-- Merging segments that tile the ids publishes their data and the metadata that describe
them. -/
theorem mergeSegments_ok {merger : SegmentMerger} {segments : List Segment} {tree changed : Tree}
    {metadata : Metadata}
    (hrun : (merger.mergeSegments segments).runOn tree = (.ok metadata, changed)) :
    checkTiling (segments.map (·.idRange)) (totalCount segments) = .ok () ∧
      (∃ createdAt, metadata =
        merger.describe segments (merger.mergedCells segments) createdAt) ∧
      merger.Publishes tree changed (merger.mergedCells segments).flatten metadata := by
  obtain ⟨htiling, ⟨createdAt, hmetadata⟩, published, others, hdirectory, hpublished, rfl⟩ :=
    mergeSegments_becomes hrun
  have hkind : metadata.dataFile ≠ Metadata.fileName :=
    hmetadata ▸ Metadata.dataFileName_ne_fileName _
  exact ⟨htiling, ⟨createdAt, hmetadata⟩, publishes_of_loses hkind hdirectory hpublished
    (removeStale_loses merger.directory _ published)⟩

end SegmentMerger
end VectorIndex
