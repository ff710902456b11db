import VectorIndex.Proofs.Build.Alignment
import VectorIndex.Proofs.Postings.Ids
import VectorIndex.Proofs.Search.Recovery

/-!
# What a finished build leaves

A build that returns a report has written the mapping of the records that its corpus listed at the
start, and has published an index with one vector for each of them. Whatever the encoder does, and
whether or not segments of an earlier build were kept, the data name no document that the mapping
does not name.
-/

namespace VectorIndex

/-- The mapping of records, as a build writes it. -/
def IdMapping.ofRecords (records : List Record) : IdMapping := ⟨records.map (·.externalId)⟩

/-- The directory holds the mapping of the records, and an index of as many vectors. If its data are
no longer than the cells of its metadata, they name only documents with a number below that of the
records. -/
structure Layout.Indexes (layout : Layout) (tree : Tree) (records : List Record) : Prop where
  directory : tree.IsDirectory (Location.ofDirectory layout.root)
  mapping : tree.files (Location.ofDirectory layout.root ++ [Layout.mappingFile]) =
    some (Utf8.encode (IdMapping.ofRecords records).toJson.compact)
  fits : ∀ record ∈ records, record.externalId.Fits
  index : ∃ (metadata : Metadata) (data : Bytes),
    tree.files (Location.ofDirectory layout.root ++ [Metadata.fileName]) =
        some metadata.toBytes ∧
      metadata.FitsFields ∧ metadata.IsExact ∧ Path.IsName metadata.dataFile ∧
      tree.files (Location.ofDirectory layout.root ++ [metadata.dataFile]) = some data ∧
      metadata.vectorCount = records.length ∧
      (data.length ≤ Metadata.covered metadata.cells * metadata.entrySize →
        ∀ posting ∈ Posting.split metadata.codeSize data, posting.id < records.length)

theorem Layout.Indexes.congr {layout : Layout} {tree changed : Tree} {records : List Record}
    (hindexes : layout.Indexes tree records)
    (hdirectory : tree.IsDirectory (Location.ofDirectory layout.root) →
      changed.IsDirectory (Location.ofDirectory layout.root))
    (hfiles : ∀ name, changed.files (Location.ofDirectory layout.root ++ [name]) =
      tree.files (Location.ofDirectory layout.root ++ [name])) : layout.Indexes changed records := by
  obtain ⟨hthere, hmapping, hfits, metadata, data, hmetadata, hfields, hexact, hname, hdata,
    hindexed⟩ := hindexes
  exact ⟨hdirectory hthere, (hfiles _).trans hmapping, hfits, metadata, data,
    (hfiles _).trans hmetadata, hfields, hexact, hname, (hfiles _).trans hdata, hindexed⟩

theorem Layout.Indexes.load_mapping {layout : Layout} {tree : Tree} {records : List Record}
    (hindexes : layout.Indexes tree records) :
    (IdMapping.load layout.mapping).runOn tree = (.ok (.ofRecords records), tree) := by
  refine IdMapping.load_ok.mpr ⟨rfl, _, (Tree.read_join Layout.isName_mappingFile).mpr
    ⟨hindexes.directory, hindexes.mapping⟩, IdMapping.ofBytes?_encode fun id hid ↦ ?_⟩
  obtain ⟨record, hrecord, rfl⟩ := List.mem_map.mp hid
  exact hindexes.fits record hrecord

namespace Pipeline

open BuildProgram (runOn_bind_ok runOn_lift_eq runOn_pure_ok)
open StagedFile (IsTemporary)

variable {pipeline : Pipeline} {corpus : Corpus} {vectorOf : String → Vec}
  {schedule : List Party} {codebook : Codebook} {records : List Record} {items : List String}
  {progress last : Progress} {tree changed : Tree}

section

variable (hquiet : pipeline.factory.IsQuiet)
include hquiet

/-- Training that succeeds alters no file but the codebook. -/
theorem train_alters {texts : Pass (Except IndexError String)}
    (hrun : (pipeline.train texts).runOn progress tree = ((.ok codebook, last), changed)) :
    tree.Alters changed (· = pipeline.directory ++ [Layout.codebookFile]) := by
  obtain ⟨head, -, ⟨-, rfl⟩ | hmade⟩ := runOn_train_ok hrun
  · exact Tree.alters_self _ _
  · rcases trainOn_saves hquiet head tree with
      ⟨error, herror⟩ | ⟨-, -, trained, -, -, -, hsave⟩
    · rw [herror] at hmade
      cases hmade
    · rw [hsave] at hmade
      obtain ⟨_, _, hsaved, hlast⟩ := IndexProgram.runOn_bind_ok.mp hmade
      obtain ⟨-, rfl⟩ := IndexProgram.runOn_pure_ok.mp hlast
      exact (publishFile_ok Layout.isName_codebookFile hsaved).2.alters

/-- Building segments alters no file but segments and temporary files. -/
theorem buildShardsAlong_alters (hdirectory : tree.IsDirectory pipeline.directory)
    {segments : List SegmentSummary}
    (hrun : (pipeline.buildShardsAlong schedule codebook (.ofList (items.map .ok))).runOn progress
      tree = ((.ok (some segments), last), changed)) :
    tree.Alters changed (pipeline.directory.Within fun name ↦
      IsTemporary name ∨ ∃ number, name = segmentName number) := by
  obtain ⟨entered, start, outcomes, report, henter, hpool, -⟩ :=
    exists_run_of_buildShardsAlong hrun
  have hentered := pipeline.runOn_enterShards progress tree
  rw [henter] at hentered
  rw [partitions_ofList] at hpool
  have hnested : start.NestedIn pipeline.directory := fun _ _ ↦ hentered.directories _ hdirectory
  obtain ⟨_, _, htraces, -⟩ := WorkerPool.runAlong_traces hquiet hnested hpool
  exact .trans ⟨fun location _ ↦ congrFun hentered.files_eq location, hentered.directories⟩
    htraces.aside

end

/-- Files whose names are neither those of segments nor of temporary files are left alone. -/
theorem files_of_building
    (halters : tree.Alters changed (pipeline.directory.Within fun name ↦
      IsTemporary name ∨ ∃ number, name = segmentName number))
    {name : String} (htemporary : name.toList.head? ≠ some '.')
    (hsegment : name.toList.head? ≠ some 's') :
    changed.files (pipeline.directory ++ [name]) = tree.files (pipeline.directory ++ [name]) := by
  apply halters.files_eq
  rw [Location.within_append]
  rintro (hname | ⟨number, hnumber⟩)
  · exact hname.ne htemporary rfl
  · exact segmentName_ne number hsegment hnumber.symm

/-- A build that returns a report has gone through all of its steps. -/
theorem runAlong_ok (hquiet : pipeline.factory.IsQuiet) (hspares : pipeline.Spares corpus)
    {report : BuildReport} (hrun : (pipeline.runAlong schedule corpus).runOn progress tree =
      ((.ok (some report), last), changed)) :
    ∃ records mapped built codebook between merged,
      pipeline.Mapped corpus records tree.tick mapped ∧
      (∃ trained, mapped.Alters trained (· = pipeline.directory ++ [Layout.codebookFile]) ∧
        trained.Alters built (pipeline.directory.Within fun name ↦
          IsTemporary name ∨ ∃ number, name = segmentName number)) ∧
      (SegmentMerger.merge ⟨pipeline.layout.root, codebook⟩ between).runOn built =
        (.ok report.metadata, merged) ∧
      report.metadata.vectorCount = records.length ∧ changed = merged.tick := by
  unfold runAlong at hrun
  obtain ⟨started, _, _, hnow, hrun₁⟩ := runOn_bind_ok.mp hrun
  cases hnow
  obtain ⟨mapping, _, mapped, hlift, hrun₂⟩ := runOn_bind_ok.mp hrun₁
  obtain ⟨hmapping, rfl⟩ := runOn_lift_eq.mp hlift
  obtain ⟨records, rfl, hmapped⟩ := mapped_of_writeMapping hmapping
  have hlists := hmapped.lists_mapped hspares
  rw [runOn_texts_bind hlists] at hrun₂
  obtain ⟨codebook, later, trained, htraining, hrun₃⟩ := runOn_bind_ok.mp hrun₂
  have htrained := train_alters hquiet htraining
  have hstill := hlists.alters htrained fun location h ↦ (hspares location h).2
  rw [runOn_texts_bind hstill] at hrun₃
  obtain ⟨segments?, between, built, hbuilding, hrun₄⟩ := runOn_bind_ok.mp hrun₃
  cases segments? with
  | none => cases hrun₄
  | some segments =>
    have hbuilt := buildShardsAlong_alters hquiet
      (htrained.directories _ hmapped.directory) hbuilding
    obtain ⟨found, _, _, hconclusion, hpure⟩ := runOn_bind_ok.mp hrun₄
    obtain ⟨hfound, -, rfl⟩ := runOn_pure_ok.mp hpure
    obtain rfl := Option.some.inj hfound
    rcases conclude_cases hconclusion with ⟨error, -, herror⟩ |
      ⟨metadata, _, merged, hmerge, hend⟩
    · cases herror
    by_cases hsize : (IdMapping.mk (records.map (·.externalId))).size = metadata.vectorCount
    · rw [if_pos hsize] at hend
      obtain ⟨rfl, report', hreport, rfl⟩ := hend
      obtain rfl := Except.ok.inj hreport
      exact ⟨records, mapped, built, codebook, _, merged, hmapped, ⟨trained, htrained, hbuilt⟩,
        merge_ok hmerge, hsize.symm.trans (List.length_map _), rfl⟩
    · rw [if_neg hsize] at hend
      cases hend.2

/-- A build leaves every file that is neither in its directory nor named like merged data. -/
theorem files_of_runAlong (hquiet : pipeline.factory.IsQuiet) (hspares : pipeline.Spares corpus)
    {report : BuildReport} (hrun : (pipeline.runAlong schedule corpus).runOn progress tree =
      ((.ok (some report), last), changed)) {location : Location}
    (houtside : ∀ name, location ≠ pipeline.directory ++ [name]) (hdata : ¬ IsDataPlace location) :
    changed.files location = tree.files location := by
  obtain ⟨_, mapped, built, codebook, _, merged, hmapped, ⟨trained, htrained, hbuilt⟩, hmerge, -,
    rfl⟩ := runAlong_ok hquiet hspares hrun
  obtain ⟨-, opened, -, hpublish⟩ := SegmentMerger.mergeInOrder_ok.mp hmerge
  obtain ⟨-, -, hpublishes⟩ := SegmentMerger.mergeSegments_ok hpublish
  calc merged.files location
    _ = built.files location :=
      (hpublishes.others location (houtside _) (houtside _)).resolve_right fun h ↦ hdata h.2.1
    _ = trained.files location :=
      hbuilt.files_eq location fun ⟨name, _, hname⟩ ↦ houtside name hname
    _ = mapped.files location := htrained.files_eq location (houtside _)
    _ = tree.files location := by
      rw [hmapped.becomes.files_eq, Files.put_other _ _ (houtside _)]
      rfl

/-- A finished build leaves the mapping of its records and an index that fits it. -/
theorem runAlong_indexes (hquiet : pipeline.factory.IsQuiet) (hspares : pipeline.Spares corpus)
    (hlists : corpus.Lists tree records) (hnumbers : records.length ≤ 0x8000000000000000)
    {report : BuildReport} (hfits : report.metadata.FitsFields)
    (hexact : report.metadata.IsExact)
    (hrun : (pipeline.runAlong schedule corpus).runOn progress tree =
      ((.ok (some report), last), changed)) : pipeline.layout.Indexes changed records := by
  obtain ⟨found, mapped, built, codebook, count, merged, hmapped, ⟨trained, htrained, hbuilt⟩,
    hmerge, hcount, rfl⟩ := runAlong_ok hquiet hspares hrun
  obtain rfl := (Corpus.lists_tick.mp hmapped.lists).unique hlists
  obtain ⟨-, segments, hholds, hpublish⟩ := SegmentMerger.mergeInOrder_ok.mp hmerge
  obtain ⟨htiling, ⟨createdAt, hdescribed⟩, hpublishes⟩ := SegmentMerger.mergeSegments_ok hpublish
  have hname : Path.IsName report.metadata.dataFile := by
    rw [hdescribed]
    exact Metadata.isName_dataFileName _
  refine ⟨hpublishes.directory, ?_, hlists.fits hnumbers, report.metadata,
    (SegmentMerger.mergedCells ⟨pipeline.layout.root, codebook⟩ segments).flatten,
    hpublishes.metadata_eq, hfits, hexact, hname, hpublishes.data_eq, hcount,
    fun hcovered posting hposting ↦ ?_⟩
  · calc merged.files (pipeline.directory ++ [Layout.mappingFile])
      _ = built.files (pipeline.directory ++ [Layout.mappingFile]) := by
        apply hpublishes.files_other _ (by decide) Layout.not_dataSuffix_mappingFile
        rw [hdescribed]
        exact Metadata.ne_dataFileName (by decide) _
      _ = trained.files (pipeline.directory ++ [Layout.mappingFile]) :=
        files_of_building hbuilt (by decide) (by decide)
      _ = mapped.files (pipeline.directory ++ [Layout.mappingFile]) := by
        apply htrained.files_eq
        simp [Layout.mappingFile, Layout.codebookFile]
      _ = _ := by
        rw [hmapped.becomes.files_eq, Files.put_self]
        rfl
  · rw [← hcount, hdescribed]
    rw [hdescribed] at hcovered hposting
    exact SegmentMerger.lt_of_mem_ids hholds.sound
      (SegmentMerger.areWhole_of_covered hholds.sound hcovered) htiling hposting

/-- An index that was built can be loaded if its codebook is read back from its file. -/
theorem exists_load_of_runAlong (hmaps : pipeline.factory.Maps vectorOf)
    (hquiet : pipeline.factory.IsQuiet) (hresume : pipeline.settings.build.resume = false)
    (hspares : pipeline.Spares corpus) (hlists : corpus.Lists tree records)
    (hrecords : records ≠ []) (hnumbers : pipeline.Numbers records)
    (hreads : ∀ codebook, pipeline.Trains vectorOf (records.map (·.text)) codebook →
      Codebook.ofBytes codebook.toBytes = .ok codebook ∧
        records.length * Posting.size codebook.codeSize < 0x10000000000000000)
    {report : BuildReport} (hrun : (pipeline.runAlong schedule corpus).runOn progress tree =
      ((.ok (some report), last), changed)) (probes : Nat) :
    report.metadata.FitsFields ∧ report.metadata.IsExact ∧
      ∃ engine : QueryEngine, engine.metadata = report.metadata ∧
        pipeline.Trains vectorOf (records.map (·.text)) engine.codebook ∧
        (QueryEngine.load pipeline.layout.root probes).runOn changed = (.ok engine, changed) := by
  obtain ⟨found, _, codebook, _, _, segments, _, built, _, merged, hmapped, htrained, hbuilding,
    hmerge, hcount, rfl⟩ := exists_of_runAlong_ok hmaps hquiet hspares hrun
  obtain rfl := (Corpus.lists_tick.mp hmapped.lists).unique hlists
  obtain ⟨htrue, -⟩ | ⟨htrains, hbecomes⟩ := htrained.origin
  · cases hresume.symm.trans htrue
  have hthere := hbecomes.directories _ hmapped.directory
  have hbuilt := buildShardsAlong_alters hquiet hthere hbuilding
  have hfile : built.files (pipeline.directory ++ [Layout.codebookFile]) =
      some codebook.toBytes := by
    rw [files_of_building hbuilt (by decide) (by decide), hbecomes.files_eq, Files.put_self]
  have hcodebook : (Codebook.load (Path.join pipeline.layout.root Layout.codebookFile)).runOn
      built = (.ok codebook, built) :=
    Codebook.load_ok.mpr ⟨rfl, _, (Tree.read_join Layout.isName_codebookFile).mpr
      ⟨hbuilt.directories _ hthere, hfile⟩, (hreads codebook htrains).1⟩
  obtain ⟨-, opened, hholds, hpublish⟩ := SegmentMerger.mergeInOrder_ok.mp (merge_ok hmerge)
  obtain ⟨htiling, ⟨createdAt, hdescribed⟩, hpublishes⟩ :=
    SegmentMerger.mergeSegments_ok hpublish
  have htotal : SegmentMerger.totalCount opened = found.length := by
    rw [← hcount, hdescribed]
    rfl
  obtain ⟨-, hlength, hmade⟩ := built_of_buildShardsAlong hmaps hquiet hresume hthere hbuilding
  have hcounted : ∀ segment ∈ opened, segment.IsExact :=
    (holds_partitionsOf hnumbers hlength hholds).exact_of_built hmade
  have hpositive := List.length_pos_iff.mpr hrecords
  have hexact : report.metadata.IsExact := by
    have hsize := (hreads codebook htrains).2
    rw [← htotal] at hsize
    rw [hdescribed]
    exact SegmentMerger.isExact_describe (hholds.fits hcounted) createdAt hsize
  rw [hdescribed] at hexact hpublishes ⊢
  have hverified := QueryEngine.verified_of_publishes hholds hcounted htiling (by omega)
    hcodebook hpublishes (max probes 1)
  have hlast : QueryEngine.Verified merged.tick _ :=
    hverified.of_files (Metadata.isName_dataFileName _) hpublishes.directory fun _ _ ↦ rfl
  exact ⟨SegmentMerger.fitsFields_describe hholds.sound htiling hexact.covered
    (hreads codebook htrains).1, hexact, _, rfl, htrains,
    QueryEngine.load_ok.mpr ⟨rfl, rfl, rfl, hlast⟩⟩

end Pipeline
end VectorIndex
