import VectorIndex.Proofs.Build.Barrier
import VectorIndex.Proofs.Build.Resumption

/-!
# What a failed build leaves of an index

A build into a directory that holds an index writes its mapping and its codebook under the names of
those of the index, before it merges anything. The metadata and the data of the index stay until the
merge publishes, but the index can only be loaded for as long as they find their codebook.
-/

namespace VectorIndex

/-- A file that becomes another is replaced. -/
theorem Tree.Becomes.replaces {before after : Tree} {place : Location} {contents : Bytes}
    (hbecomes : before.Becomes after (before.files.put place (some contents)))
    (directory : Location) : before.Replaces after directory place contents := by
  refine ⟨hbecomes.directories, fun location _ ↦ ?_⟩
  rw [hbecomes.files_eq]
  by_cases hplace : location = place
  · rw [hplace, Files.put_self]
    exact .inr ⟨rfl, rfl⟩
  · exact .inl (Files.put_other _ _ hplace)

namespace Pipeline

open SegmentMerger (ne_temporary)

variable {pipeline : Pipeline} {corpus : Corpus} {vectorOf : String → Vec}
  {records : List Record} {codebook : Codebook} {schedule : List Party} {error : IndexError}
  {progress last : Progress} {start mapped trained built tree changed : Tree}

/-! ## What is written before the merge -/

/-- The mapping and the codebook are as they were, or a build of the corpus has replaced them. -/
structure Rewrites (pipeline : Pipeline) (vectorOf : String → Vec) (corpus : Corpus)
    (start changed : Tree) : Prop where
  directories : ∀ location, start.IsDirectory location → changed.IsDirectory location
  mapping : changed.files (pipeline.directory ++ [Layout.mappingFile]) =
      start.files (pipeline.directory ++ [Layout.mappingFile]) ∨
    ∃ records, corpus.Lists start records ∧
      changed.files (pipeline.directory ++ [Layout.mappingFile]) =
        some (Utf8.encode (IdMapping.mk (records.map (·.externalId))).toJson.compact)
  codebook : changed.files (pipeline.directory ++ [Layout.codebookFile]) =
      start.files (pipeline.directory ++ [Layout.codebookFile]) ∨
    ∃ records codebook, corpus.Lists start records ∧
      pipeline.Trains vectorOf (records.map (·.text)) codebook ∧
        changed.files (pipeline.directory ++ [Layout.codebookFile]) = some codebook.toBytes

/-- The metadata and all data are as they were besides: of the files of an index, only their names
begin with this letter. -/
structure Touches (pipeline : Pipeline) (vectorOf : String → Vec) (corpus : Corpus)
    (start changed : Tree) : Prop extends Rewrites pipeline vectorOf corpus start changed where
  merged : ∀ name : String, name.toList.head? = some 'm' →
    changed.files (pipeline.directory ++ [name]) = start.files (pipeline.directory ++ [name])

theorem touches_self (pipeline : Pipeline) (vectorOf : String → Vec) (corpus : Corpus)
    (tree : Tree) : pipeline.Touches vectorOf corpus tree tree :=
  ⟨⟨fun _ h ↦ h, .inl rfl, .inl rfl⟩, fun _ _ ↦ rfl⟩

theorem touches_of_mapping (hlists : corpus.Lists start records)
    (hreplaces : start.Replaces mapped pipeline.directory
      (pipeline.directory ++ [Layout.mappingFile])
      (Utf8.encode (IdMapping.mk (records.map (·.externalId))).toJson.compact)) :
    pipeline.Touches vectorOf corpus start mapped where
  directories := hreplaces.directories
  mapping := (hreplaces.files_eq _ (ne_temporary (by decide))).imp_right
    fun hwritten ↦ ⟨records, hlists, hwritten.2⟩
  codebook := .inl (hreplaces.files_other (by decide) (by decide))
  merged name hname := hreplaces.files_other (by rw [hname]; decide)
    (by rintro rfl; exact absurd hname (by decide))

theorem Touches.of_codebook (htouches : pipeline.Touches vectorOf corpus start mapped)
    (hlists : corpus.Lists start records)
    (htrains : pipeline.Trains vectorOf (records.map (·.text)) codebook)
    (hreplaces : mapped.Replaces changed pipeline.directory
      (pipeline.directory ++ [Layout.codebookFile]) codebook.toBytes) :
    pipeline.Touches vectorOf corpus start changed where
  directories location h := hreplaces.directories _ (htouches.directories location h)
  mapping := by
    rw [hreplaces.files_other (by decide) (by decide)]
    exact htouches.mapping
  codebook := by
    have hhead : Layout.codebookFile.toList.head? ≠ some '.' := by decide
    rcases hreplaces.files_eq _ (ne_temporary hhead) with hsame | ⟨-, hwritten⟩
    · rw [hsame]
      exact htouches.codebook
    · exact .inr ⟨records, codebook, hlists, htrains, hwritten⟩
  merged name hname := (hreplaces.files_other (by rw [hname]; decide)
    (by rintro rfl; exact absurd hname (by decide))).trans (htouches.merged name hname)

/-- The mapping and the codebook stay what they are for as long as their files do. -/
theorem Rewrites.of_files (hrewrites : pipeline.Rewrites vectorOf corpus start built)
    (hdirectories : ∀ location, built.IsDirectory location → changed.IsDirectory location)
    (hmapping : changed.files (pipeline.directory ++ [Layout.mappingFile]) =
      built.files (pipeline.directory ++ [Layout.mappingFile]))
    (hcodebook : changed.files (pipeline.directory ++ [Layout.codebookFile]) =
      built.files (pipeline.directory ++ [Layout.codebookFile])) :
    pipeline.Rewrites vectorOf corpus start changed where
  directories location h := hdirectories _ (hrewrites.directories location h)
  mapping := by
    rw [hmapping]
    exact hrewrites.mapping
  codebook := by
    rw [hcodebook]
    exact hrewrites.codebook

/-- Building segments touches nothing of the index. -/
theorem Touches.of_leaves (htouches : pipeline.Touches vectorOf corpus start trained)
    {partitions : List Partition}
    (hleaves : pipeline.pool.Leaves codebook pipeline.layout.root vectorOf partitions trained
      built) : pipeline.Touches vectorOf corpus start built where
  toRewrites := htouches.toRewrites.of_files hleaves.alters.directories
    (hleaves.files_other (by decide) (by decide)) (hleaves.files_other (by decide) (by decide))
  merged name hname := (hleaves.files_other (by rw [hname]; decide)
    (by rw [hname]; decide)).trans (htouches.merged name hname)

theorem Mapped.touches (hmapped : pipeline.Mapped corpus records start mapped) :
    pipeline.Touches vectorOf corpus start mapped :=
  touches_of_mapping hmapped.lists (hmapped.becomes.replaces _)

theorem Mapped.touches_trained (hmapped : pipeline.Mapped corpus records start mapped)
    (htrained : pipeline.Trained vectorOf (records.map (·.text)) codebook mapped trained) :
    pipeline.Touches vectorOf corpus start trained := by
  rcases htrained.origin with ⟨-, rfl, -⟩ | ⟨htrains, hbecomes⟩
  · exact hmapped.touches
  · exact hmapped.touches.of_codebook hmapped.lists htrains (hbecomes.replaces _)

theorem Touches.of_tick (htouches : pipeline.Touches vectorOf corpus tree.tick changed) :
    pipeline.Touches vectorOf corpus tree changed where
  directories := htouches.directories
  mapping := htouches.mapping.imp_right fun ⟨records, hlists, hmapping⟩ ↦
    ⟨records, Corpus.lists_tick.mp hlists, hmapping⟩
  codebook := htouches.codebook.imp_right fun ⟨records, codebook, hlists, hcodebook⟩ ↦
    ⟨records, codebook, Corpus.lists_tick.mp hlists, hcodebook⟩
  merged := htouches.merged

/-! ## Builds that fail -/

theorem raises_merge_ne_partitionsFailed (pipeline : Pipeline) (codebook : Codebook) (count : Nat)
    (failures : List (PartitionIndex × IndexError)) :
    BuildProgram.Raises (· ≠ .partitionsFailed failures) (pipeline.merge codebook count) :=
  raises_merge_of (fun _ _ ↦ nofun) (fun _ hraised ↦ by cases hraised <;> exact nofun)
    (fun _ ↦ nofun) pipeline codebook count

/-- A build that fails has failed before its merge, or with what the merge has left. -/
theorem runAlong_touches (hmaps : pipeline.factory.Maps vectorOf)
    (hquiet : pipeline.factory.IsQuiet) (hspares : pipeline.Spares corpus)
    (hrun : (pipeline.runAlong schedule corpus).runOn progress tree =
      ((.error error, last), changed)) :
    ∃ built, pipeline.Touches vectorOf corpus tree built ∧
      (changed = built ∨
        (∃ codebook count,
          ((SegmentMerger.merge ⟨pipeline.layout.root, codebook⟩ count).runOn built).2 = changed) ∧
        ∀ failures, error ≠ .partitionsFailed failures) := by
  have hcourse := runAlong_course hmaps hquiet hspares hrun
  generalize hresult : (Except.error error : Except IndexError (Option BuildReport)) = result
    at hcourse
  cases hcourse with
  | unmapped hmapping =>
    refine ⟨changed, .of_tick ?_, .inl rfl⟩
    have hcases := pipeline.writeMapping_cases corpus tree.tick
    rw [hmapping] at hcases
    rcases hcases with hsame | ⟨records, hlists, hreplaces⟩
    · exact hsame ▸ touches_self pipeline vectorOf corpus _
    · exact touches_of_mapping hlists hreplaces
  | @untrained records mapped before _ _ hmapped htraining =>
    refine ⟨changed, .of_tick ?_, .inl rfl⟩
    have hcases := train_replaces hmaps hquiet (records.map (·.text)) before mapped
    rw [show ((pipeline.train (.ofList ((records.map (·.text)).map .ok))).runOn before mapped).2 =
      changed from congrArg Prod.snd htraining] at hcases
    rcases hcases with rfl | ⟨codebook, htrains, hreplaces⟩
    · exact hmapped.touches
    · exact hmapped.touches.of_codebook hmapped.lists htrains hreplaces
  | unbuilt hmapped htrained hbuilding =>
    refine ⟨changed, .of_tick ?_, .inl rfl⟩
    exact (hmapped.touches_trained htrained).of_leaves (buildShardsAlong_leaves hmaps hquiet
      (htrained.isDirectory hmapped) hbuilding nofun).1
  | unfinished => cases hresult
  | concluded hmapped htrained hbuilding hconclusion =>
    have hbuilt := (hmapped.touches_trained htrained).of_leaves (buildShardsAlong_leaves hmaps
      hquiet (htrained.isDirectory hmapped) hbuilding nofun).1
    refine ⟨_, hbuilt.of_tick, ?_⟩
    rcases conclude_cases hconclusion with ⟨cause, hmerge, rfl⟩ | ⟨_, _, _, hmerge, hreports⟩
    · obtain rfl := Except.error.inj hresult
      refine (changed_of_merge hmerge).imp_right fun hmerged ↦ ⟨⟨_, _, hmerged⟩, fun failures ↦ ?_⟩
      exact raises_merge_ne_partitionsFailed pipeline _ _ failures _ _ _ _ _ hmerge
    · split at hreports
      · obtain ⟨-, report, rfl, -⟩ := hreports
        cases hresult
      · obtain ⟨rfl, rfl⟩ := hreports
        obtain rfl := Except.error.inj hresult
        exact (changed_of_merge hmerge).imp_right fun hmerged ↦ ⟨⟨_, _, hmerged⟩, fun _ ↦ nofun⟩

/-- A build whose partitions fail leaves the metadata and all data alone. -/
theorem files_of_partitionsFailed (hmaps : pipeline.factory.Maps vectorOf)
    (hquiet : pipeline.factory.IsQuiet) (hspares : pipeline.Spares corpus)
    {failures : List (PartitionIndex × IndexError)}
    (hrun : (pipeline.runAlong schedule corpus).runOn progress tree =
      ((.error (.partitionsFailed failures), last), changed)) {name : String}
    (hname : name.toList.head? = some 'm') :
    changed.files (pipeline.directory ++ [name]) = tree.files (pipeline.directory ++ [name]) := by
  obtain ⟨built, htouches, rfl | ⟨-, hother⟩⟩ := runAlong_touches hmaps hquiet hspares hrun
  · exact htouches.merged name hname
  · exact absurd rfl (hother failures)

/-- A merge rewrites neither the mapping nor the codebook. -/
theorem Rewrites.of_merge {merger : SegmentMerger} (hroot : merger.directory = pipeline.layout.root)
    (hrewrites : pipeline.Rewrites vectorOf corpus start built) (count : Nat) :
    pipeline.Rewrites vectorOf corpus start ((merger.merge count).runOn built).2 := by
  have hdirectory : pipeline.directory = Location.ofDirectory merger.directory := by
    rw [hroot]
    rfl
  refine hrewrites.of_files (fun _ ↦ merger.directories_runOn_merge count built) ?_ ?_
  · rw [hdirectory]
    exact merger.files_runOn_merge count built (by decide) (by decide)
      Layout.not_dataSuffix_mappingFile
  · rw [hdirectory]
    exact merger.files_runOn_merge count built (by decide) (by decide)
      Layout.not_dataSuffix_codebookFile

end Pipeline

namespace QueryEngine

open IndexProgram (runOn_adapt runOn_bind runOn_ofExcept)

variable {engine : QueryEngine} {tree changed : Tree}

/-! ## Loading what is left -/

/-- A merge leaves data of the digest that the metadata before it record. -/
theorem exists_data_of_merge {merger : SegmentMerger} (hnamed : engine.IsNamed)
    (hdigest : Fingerprint.of engine.data = engine.metadata.checksum)
    (hrecorded : merger.recorded? tree = some engine.metadata)
    (hdata : tree.files (Location.ofDirectory merger.directory ++ [engine.metadata.dataFile]) =
      some engine.data) (count : Nat) :
    ∃ data, Fingerprint.of data = Fingerprint.of engine.data ∧
      ((merger.merge count).runOn tree).2.files
        (Location.ofDirectory merger.directory ++ [engine.metadata.dataFile]) = some data := by
  obtain ⟨committed, hsafe⟩ := merger.exists_safe_runOn_merge count tree
  rcases SegmentMerger.data_of_recorded hrecorded hnamed.head_ne
    (hnamed ▸ Metadata.dataFileName_ne_fileName _) hdata hsafe (fun _ ↦ rfl) with
    hsame | ⟨segments, -, hname, hnew⟩
  · exact ⟨engine.data, rfl, hsame⟩
  · refine ⟨_, ?_, hnew⟩
    rw [hdigest]
    exact (Metadata.dataFileName_injective (hnamed.symm.trans hname)).symm

/-- Metadata that find another codebook than their own cannot be loaded. -/
theorem load_of_codebook (hverified : engine.Verified tree)
    (hname : Path.IsName engine.metadata.dataFile)
    (hdirectory : changed.IsDirectory (Location.ofDirectory engine.root))
    (hmetadata : changed.files (Location.ofDirectory engine.root ++ [Metadata.fileName]) =
      tree.files (Location.ofDirectory engine.root ++ [Metadata.fileName]))
    {bytes : Bytes}
    (hcodebook : changed.files (Location.ofDirectory engine.root ++ [Layout.codebookFile]) =
      some bytes)
    (hother : Fingerprint.of (bytes.drop Codebook.headerSize) ≠ engine.metadata.fingerprint)
    (probes : Nat) :
    ∃ path reason,
      (load engine.root probes).runOn changed = (.error (.indexCorrupt path reason), changed) := by
  obtain ⟨-, ⟨described, hdescribed, hparsed⟩, -, -⟩ := hverified.files hname
  have hload : (Metadata.load (Layout.metadata ⟨engine.root⟩)).runOn changed =
      (.ok engine.metadata, changed) := by
    rw [Metadata.runOn_load, show changed.read (Layout.metadata ⟨engine.root⟩) = .ok described from
      (Tree.read_join Metadata.isName_fileName).mpr ⟨hdirectory, hmetadata.trans hdescribed⟩]
    exact congrArg (·, changed) hparsed
  have hopen : (Codebook.load (Layout.codebook ⟨engine.root⟩)).runOn changed =
      ((Codebook.ofBytes bytes).mapError (.indexCorrupt (Layout.codebook ⟨engine.root⟩)),
        changed) := by
    unfold Codebook.load
    rw [runOn_bind, IndexProgram.runOn_readFile,
      show changed.read (Layout.codebook ⟨engine.root⟩) = .ok bytes from
        (Tree.read_join Layout.isName_codebookFile).mpr ⟨hdirectory, hcodebook⟩]
    rfl
  unfold load
  rw [runOn_bind, runOn_adapt, hload]
  dsimp only [Result.ok_mapError]
  rw [runOn_bind, runOn_ofExcept, hverified.valid]
  dsimp only [Result.ok_mapError]
  rw [runOn_bind, runOn_adapt, hopen]
  cases hfound : Codebook.ofBytes bytes with
  | error reason => exact ⟨_, _, rfl⟩
  | ok found =>
    have hdiffers : found.fingerprint ≠ engine.metadata.fingerprint := by
      rwa [(Codebook.isIn_of_ofBytes hfound).fingerprint]
    dsimp only [Result.ok_mapError]
    rw [runOn_bind, runOn_ofExcept]
    unfold checkCodebook
    rw [if_pos hdiffers]
    exact ⟨_, _, rfl⟩

end QueryEngine

namespace Pipeline

variable {pipeline : Pipeline} {corpus : Corpus} {vectorOf : String → Vec}
  {schedule : List Party} {error : IndexError} {progress last : Progress} {tree changed : Tree}

/-- A build that fails leaves data of the digest that the metadata before it record. -/
theorem exists_data_of_runAlong (hmaps : pipeline.factory.Maps vectorOf)
    (hquiet : pipeline.factory.IsQuiet) (hspares : pipeline.Spares corpus) {engine : QueryEngine}
    (hroot : engine.root = pipeline.layout.root) (hverified : engine.Verified tree)
    (hnamed : engine.IsNamed)
    (hrun : (pipeline.runAlong schedule corpus).runOn progress tree =
      ((.error error, last), changed)) :
    pipeline.Rewrites vectorOf corpus tree changed ∧
      ∃ data, Fingerprint.of data = Fingerprint.of engine.data ∧
        changed.files (pipeline.directory ++ [engine.metadata.dataFile]) = some data := by
  obtain ⟨-, ⟨described, hdescribed, hparsed⟩, -, hdata⟩ := hverified.files hnamed.isName
  obtain ⟨-, -, -, hchecked⟩ := QueryEngine.readData_ok.mp hverified.data
  rw [hroot] at hdescribed hparsed hdata
  obtain ⟨built, htouches, hends⟩ := runAlong_touches hmaps hquiet hspares hrun
  have hheld := (htouches.merged engine.metadata.dataFile
    (hnamed ▸ Metadata.head_dataFileName _)).trans hdata
  rcases hends with rfl | ⟨⟨codebook, count, rfl⟩, -⟩
  · exact ⟨htouches.toRewrites, engine.data, rfl, hheld⟩
  · have hrecorded : SegmentMerger.recorded? ⟨pipeline.layout.root, codebook⟩ built =
        some engine.metadata :=
      SegmentMerger.recorded?_eq_some
        ((htouches.merged Metadata.fileName (by decide)).trans hdescribed) hparsed
    exact ⟨htouches.toRewrites.of_merge rfl count, QueryEngine.exists_data_of_merge hnamed
      (QueryEngine.checkData_eq_ok.mp hchecked).2 hrecorded hheld count⟩

/-- A build into the directory of an index fails before it publishes. The index can be loaded, with
all that it held, as long as the build has not replaced the codebook: then it cannot be loaded any
more, unless the codebook has the fingerprint of the old one. The mapping may be that of the new
corpus in either case. Data that take the place of the data of the index are those data, where the
digest tells them apart. -/
theorem load_after_failure (hmaps : pipeline.factory.Maps vectorOf)
    (hquiet : pipeline.factory.IsQuiet) (hspares : pipeline.Spares corpus) {old : QueryEngine}
    {probes : Nat}
    (hload : (QueryEngine.load pipeline.layout.root probes).runOn tree = (.ok old, tree))
    (hnamed : old.IsNamed)
    (hrun : (pipeline.runAlong schedule corpus).runOn progress tree =
      ((.error error, last), changed))
    (hunpublished : changed.files (pipeline.directory ++ [Metadata.fileName]) =
      tree.files (pipeline.directory ++ [Metadata.fileName]))
    (hdigest : ∀ data,
      changed.files (pipeline.directory ++ [old.metadata.dataFile]) = some data →
        Fingerprint.of data = Fingerprint.of old.data → data = old.data) :
    (changed.files (pipeline.directory ++ [Layout.mappingFile]) =
        tree.files (pipeline.directory ++ [Layout.mappingFile]) ∨
      ∃ records, corpus.Lists tree records ∧
        changed.files (pipeline.directory ++ [Layout.mappingFile]) =
          some (Utf8.encode (IdMapping.mk (records.map (·.externalId))).toJson.compact)) ∧
    (changed.files (pipeline.directory ++ [Layout.codebookFile]) =
        tree.files (pipeline.directory ++ [Layout.codebookFile]) ∧
      (QueryEngine.load pipeline.layout.root probes).runOn changed = (.ok old, changed) ∨
    ∃ records codebook, corpus.Lists tree records ∧
      pipeline.Trains vectorOf (records.map (·.text)) codebook ∧
        changed.files (pipeline.directory ++ [Layout.codebookFile]) = some codebook.toBytes ∧
          (codebook.fingerprint ≠ old.codebook.fingerprint → ∃ path reason,
            (QueryEngine.load pipeline.layout.root probes).runOn changed =
              (.error (.indexCorrupt path reason), changed))) := by
  obtain ⟨-, hroot, hprobes, hverified⟩ := QueryEngine.load_ok.mp hload
  obtain ⟨hrewrites, data, hsame, hheld⟩ :=
    exists_data_of_runAlong hmaps hquiet hspares hroot hverified hnamed hrun
  obtain rfl := hdigest data hheld hsame
  obtain ⟨hthere, -, -, hdata⟩ := hverified.files hnamed.isName
  have hdirectory := hrewrites.directories _ hthere
  refine ⟨hrewrites.mapping, hrewrites.codebook.imp (fun hkept ↦ ⟨hkept, ?_⟩) ?_⟩
  · refine QueryEngine.load_ok.mpr ⟨rfl, hroot, hprobes,
      hverified.of_files hnamed.isName hdirectory ?_⟩
    simp only [List.forall_mem_cons, List.not_mem_nil, false_imp_iff, implies_true, and_true]
    rw [hdata, hroot]
    exact ⟨hunpublished, hkept, hheld⟩
  · rintro ⟨records, codebook, hlists, htrains, hcodebook⟩
    refine ⟨records, codebook, hlists, htrains, hcodebook, fun hother ↦ ?_⟩
    have hagrees := (QueryEngine.checkCodebook_eq_ok.mp hverified.agrees).1
    have hmade := (Codebook.train_ok htrains).1
    rw [hmade.fingerprint, hagrees] at hother
    rw [← hroot]
    refine QueryEngine.load_of_codebook hverified hnamed.isName hdirectory ?_ ?_
      (by rwa [Codebook.drop_toBytes]) probes
    · rw [hroot]
      exact hunpublished
    · rw [hroot]
      exact hcodebook

/-- Two documents, one in each cell. -/
def standingEngine : QueryEngine :=
  let data := (Posting.mk 1 [0]).toBytes ++ (Posting.mk 0 [1]).toBytes
  ⟨"index",
    { version := 1
      dataFile := "merged-1149339a8a18971abd38345a593debc5e4b411895d5a5f40e2762eddee69e4ac.ivfdata"
      fingerprint := SegmentMerger.smallCodebook.fingerprint
      dimension := 1
      cellCount := 2
      codeSize := 1
      vectorCount := 2
      cells := [⟨0, 1⟩, ⟨1, 1⟩]
      partitions := [⟨0, ⟨0, 2⟩⟩]
      checksum := .of data
      createdAt := "" },
    SegmentMerger.smallCodebook, data, 4⟩

/-- The index of the two documents beside the corpus of two records. -/
def standingTree : Tree :=
  ⟨[(["index"], .directory),
    (["index", Metadata.fileName], .file standingEngine.metadata.toBytes 0),
    (["index", standingEngine.metadata.dataFile], .file standingEngine.data 0),
    (["index", Layout.codebookFile], .file SegmentMerger.smallCodebook.toBytes 0),
    (["records"], .file (Utf8.encode "\x7b\"code\":\"a\"\x7d\n\x7b\"code\":\"b\"\x7d\n") 0)], 1⟩

theorem isNamed_standingEngine : standingEngine.IsNamed := by
  unfold QueryEngine.IsNamed
  decide +kernel

theorem load_standingTree :
    (QueryEngine.load "index" 4).runOn standingTree = (.ok standingEngine, standingTree) := by
  refine QueryEngine.load_ok.mpr ⟨rfl, rfl, rfl, ?_⟩
  have hread : standingTree.read (Path.join "index" Metadata.fileName) =
      .ok standingEngine.metadata.toBytes := rfl
  refine ⟨?_, by decide +kernel, ?_, ?_, ?_, by decide +kernel⟩
  · refine (Metadata.runOn_load _ _).trans (Prod.ext (Result.bind_ok.mpr ⟨_, hread, ?_⟩) rfl)
    exact Metadata.ofBytes_toBytes
      ⟨by decide, by decide, by decide, by decide, by decide, by decide, by decide⟩ _
  · refine Codebook.load_ok.mpr ⟨rfl, SegmentMerger.smallCodebook.toBytes, rfl, ?_⟩
    decide +kernel
  · exact QueryEngine.checkCodebook_eq_ok.mpr ⟨rfl, rfl, rfl, rfl⟩
  · exact QueryEngine.readData_ok.mpr ⟨rfl, by decide, rfl,
      QueryEngine.checkData_eq_ok.mpr ⟨by decide, rfl⟩⟩

/-- The encoder crashes on the second record, when the codebook has been trained. -/
def tinyRebuild : (Except IndexError (Option BuildReport) × Progress) × Tree :=
  (runAlong ⟨tinyPipeline.settings, fun _ ↦ pure brittleEncoder⟩ smallSchedule tinyCorpus).runOn
    (.start .untrained) standingTree

theorem exists_tiny_rebuild :
    (∃ failures last, tinyRebuild = ((.error (.partitionsFailed failures), last), tinyRebuild.2)) ∧
      ∀ contents, tinyRebuild.2.files ["index", Layout.codebookFile] = some contents →
        Fingerprint.of (contents.drop Codebook.headerSize) ≠
          SegmentMerger.smallCodebook.fingerprint := by
  have hchecked : (failsInPartitions tinyRebuild.1.1 &&
      (tinyRebuild.2.files ["index", Layout.codebookFile]).all fun contents ↦
        decide (Fingerprint.of (contents.drop Codebook.headerSize) ≠
          SegmentMerger.smallCodebook.fingerprint)) = true := by
    decide +kernel
  obtain ⟨hfails, hcodebook⟩ := Bool.and_eq_true_iff.mp hchecked
  refine ⟨exists_failures _ hfails, fun contents hcontents ↦ ?_⟩
  rw [hcontents] at hcodebook
  exact of_decide_eq_true hcodebook

/-- The index of the two documents cannot be loaded any more after the build has failed. -/
theorem load_after_failure_tiny :
    (QueryEngine.load "index" 4).runOn standingTree = (.ok standingEngine, standingTree) ∧
      ∃ path reason, (QueryEngine.load "index" 4).runOn tinyRebuild.2 =
        (.error (.indexCorrupt path reason), tinyRebuild.2) := by
  obtain ⟨⟨failures, last, hrun⟩, hother⟩ := exists_tiny_rebuild
  have hmaps : EncoderFactory.Maps (fun _ ↦ pure brittleEncoder)
      (Encoder.hashedVector ⟨1, by decide⟩) := fun _ _ _ h ↦ Except.ok.inj h ▸ maps_brittleEncoder
  have hquiet : EncoderFactory.IsQuiet (fun _ ↦ pure brittleEncoder) := fun _ _ ↦ rfl
  have hspares : Spares ⟨tinyPipeline.settings, fun _ ↦ pure brittleEncoder⟩ tinyCorpus :=
    spares_tinyCorpus
  have hfiles : ∀ name : String, name.toList.head? = some 'm' →
      tinyRebuild.2.files ["index", name] = standingTree.files ["index", name] :=
    fun name hname ↦ files_of_partitionsFailed hmaps hquiet hspares hrun hname
  have hdigest : ∀ data,
      tinyRebuild.2.files ["index", standingEngine.metadata.dataFile] = some data →
        Fingerprint.of data = Fingerprint.of standingEngine.data → data = standingEngine.data := by
    intro data hdata _
    rw [hfiles _ (by decide)] at hdata
    exact (Option.some.inj hdata).symm
  obtain ⟨-, ⟨hkept, -⟩ | ⟨records, codebook, -, htrains, hcodebook, hcorrupt⟩⟩ :=
    load_after_failure hmaps hquiet hspares load_standingTree isNamed_standingEngine hrun
      (hfiles _ (by decide)) hdigest
  · refine absurd ?_ (hother SegmentMerger.smallCodebook.toBytes hkept)
    rw [Codebook.drop_toBytes]
    rfl
  · refine ⟨load_standingTree, hcorrupt ?_⟩
    have hdiffers := hother _ hcodebook
    rwa [Codebook.drop_toBytes, ← (Codebook.train_ok htrains).1.fingerprint] at hdiffers

end Pipeline
end VectorIndex
