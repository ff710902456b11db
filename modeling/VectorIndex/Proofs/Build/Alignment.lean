import VectorIndex.Proofs.Build.Documents
import VectorIndex.Proofs.Build.Errors
import VectorIndex.Proofs.Corpus.Identity

/-!
# The mapping fits the index

A build reads its corpus once for the ids, once for the texts to train on and once for the texts to
encode. All passes see the same records, so the document of a number is the record of that number
in the mapping and in the data, and the sizes of the two never differ.
-/

namespace VectorIndex.Pipeline

variable {pipeline : Pipeline} {corpus : Corpus} {vectorOf : String → Vec}
  {records : List Record} {codebook : Codebook} {schedule : List Party}
  {progress between last : Progress} {start mapped trained built merged tree changed : Tree}
  {segments : List SegmentSummary} {metadata : Metadata}

/-- Records have ids of 63 bits and partitions have numbers of 32 bits. -/
def Numbers (pipeline : Pipeline) (records : List Record) : Prop :=
  records.length ≤ 0x8000000000000000 ∧
    (pipeline.partitionsOf (records.map (·.text))).length < 0x100000000

/-- A merge opens as many segments as there are partitions. -/
theorem holds_partitionsOf (hnumbers : pipeline.Numbers records)
    (hlength : segments.length = (pipeline.partitionsOf (records.map (·.text))).length)
    {opened : List Segment} (hholds : SegmentMerger.Holds ⟨pipeline.layout.root, codebook⟩ built
      (List.range (segments.length % 0x100000000)).length opened) :
    SegmentMerger.Holds ⟨pipeline.layout.root, codebook⟩ built
      (chunks pipeline.settings.build.partitionSize (records.map (·.text))).length opened := by
  rwa [List.length_range, hlength, Nat.mod_eq_of_lt hnumbers.2,
    length_partitionsOf pipeline (records.map (·.text))] at hholds

/-- What a merge after a build of all segments leaves in the directory. -/
theorem merge_built (htrained : pipeline.Trains vectorOf (records.map (·.text)) codebook)
    (hnumbers : pipeline.Numbers records)
    (hlength : segments.length = (pipeline.partitionsOf (records.map (·.text))).length)
    (hbuilt : ∀ partition ∈ pipeline.partitionsOf (records.map (·.text)),
      partition.IsBuilt codebook pipeline.layout.root vectorOf pipeline.pool.batchSize built)
    (hmerge : (pipeline.merge codebook segments.length).runOn between built =
      ((.ok metadata, last), merged)) :
    metadata.vectorCount = records.length ∧
      ∃ checksum, metadata.dataFile = Metadata.dataFileName checksum ∧
        SegmentMerger.Publishes ⟨pipeline.layout.root, codebook⟩ built merged
          (codebook.indexData ((records.map (·.text)).map vectorOf)) metadata := by
  have hne : codebook.centroids ≠ [] := (Codebook.train_ok htrained).1.centroids_ne_nil
  obtain ⟨-, opened, hholds, hpublish⟩ := SegmentMerger.mergeInOrder_ok.mp (merge_ok hmerge)
  obtain ⟨-, ⟨createdAt, rfl⟩, hpublishes⟩ := SegmentMerger.mergeSegments_ok hpublish
  replace hholds := holds_partitionsOf hnumbers hlength hholds
  have hdata := (hholds.mergedCells_of_built hbuilt).2
  rw [flatten_chunks] at hdata
  have hcount : SegmentMerger.totalCount opened = records.length := by
    have hexact := hholds.exact_of_built hbuilt
    have hbytes := SegmentMerger.length_flatten_mergedCells (hholds.fits hexact)
    rw [hdata, Codebook.length_indexData hne, List.length_map, List.length_map] at hbytes
    exact (Nat.eq_of_mul_eq_mul_right (Posting.size_pos _) hbytes).symm
  exact ⟨hcount, _, rfl, hdata ▸ hpublishes⟩

/-- The mapping of a build stays as it was written. -/
theorem load_mapping (hfits : records.length ≤ 0x8000000000000000)
    (hmapped : pipeline.Mapped corpus records start mapped)
    (htrained : pipeline.Trained vectorOf (records.map (·.text)) codebook mapped trained)
    (hleaves : pipeline.pool.Leaves codebook pipeline.layout.root vectorOf
      (pipeline.partitionsOf (records.map (·.text))) trained built)
    {checksum : Fingerprint} (hname : metadata.dataFile = Metadata.dataFileName checksum)
    {data : Bytes} (hpublishes : SegmentMerger.Publishes ⟨pipeline.layout.root, codebook⟩ built
      merged data metadata) :
    (IdMapping.load pipeline.layout.mapping).runOn merged.tick =
      (.ok ⟨records.map (·.externalId)⟩, merged.tick) := by
  have hfile : merged.files (pipeline.directory ++ [Layout.mappingFile]) =
      some (Utf8.encode (IdMapping.mk (records.map (·.externalId))).toJson.compact) := by
    calc merged.files (pipeline.directory ++ [Layout.mappingFile])
      _ = built.files (pipeline.directory ++ [Layout.mappingFile]) := by
        apply hpublishes.files_other _ (by decide) Layout.not_dataSuffix_mappingFile
        rw [hname]
        exact Metadata.ne_dataFileName (by decide) checksum
      _ = trained.files (pipeline.directory ++ [Layout.mappingFile]) :=
        hleaves.files_other (by decide) (by decide)
      _ = mapped.files (pipeline.directory ++ [Layout.mappingFile]) := by
        apply htrained.alters.files_eq
        simp [Layout.mappingFile, Layout.codebookFile]
      _ = _ := by rw [hmapped.becomes.files_eq, Files.put_self]
  have hread : merged.tick.read pipeline.layout.mapping = .ok _ :=
    Tree.read_tick_ok.mpr ((Tree.read_join Layout.isName_mappingFile).mpr
      ⟨hpublishes.directory, hfile⟩)
  refine IdMapping.load_ok.mpr ⟨rfl, _, hread, IdMapping.ofBytes?_encode fun id hid ↦ ?_⟩
  obtain ⟨record, hrecord, rfl⟩ := List.mem_map.mp hid
  exact hmapped.lists.fits hfits record hrecord

/-- Without resuming, what a build merges are the segments that it has built. -/
theorem built_of_buildShardsAlong (hmaps : pipeline.factory.Maps vectorOf)
    (hquiet : pipeline.factory.IsQuiet) (hresume : pipeline.settings.build.resume = false)
    (hdirectory : trained.IsDirectory pipeline.directory)
    (hbuilding : (pipeline.buildShardsAlong schedule codebook (textsOf records)).runOn progress
      trained = ((.ok (some segments), between), built)) :
    pipeline.pool.Leaves codebook pipeline.layout.root vectorOf
        (pipeline.partitionsOf (records.map (·.text))) trained built ∧
      segments.length = (pipeline.partitionsOf (records.map (·.text))).length ∧
        ∀ partition ∈ pipeline.partitionsOf (records.map (·.text)),
          partition.IsBuilt codebook pipeline.layout.root vectorOf pipeline.pool.batchSize
            built := by
  obtain ⟨hleaves, hsegments⟩ := buildShardsAlong_leaves hmaps hquiet hdirectory hbuilding nofun
  obtain ⟨hlength, hall⟩ := hsegments segments rfl
  refine ⟨hleaves, hlength, fun partition hpartition ↦ ?_⟩
  rcases hall partition hpartition with hbuilt | hkept
  · exact hbuilt
  · cases hresume.symm.trans hkept.resume

/-- A codebook that is not kept is trained on the texts. -/
theorem Trained.anew (hresume : pipeline.settings.build.resume = false) {items : List String}
    (hmapped : pipeline.Mapped corpus records start mapped)
    (htrained : pipeline.Trained vectorOf items codebook mapped trained) :
    pipeline.Trains vectorOf items codebook ∧ trained.IsDirectory pipeline.directory := by
  rcases htrained.origin with ⟨htrue, -⟩ | ⟨htrains, hbecomes⟩
  · cases hresume.symm.trans htrue
  · exact ⟨htrains, hbecomes.directories _ hmapped.directory⟩

/-- However a build that does not resume goes, it never finds that its mapping does not fit its
index. -/
theorem runAlong_ne_idMappingMismatch (hmaps : pipeline.factory.Maps vectorOf)
    (hquiet : pipeline.factory.IsQuiet)
    (hfactory : ∀ worker, (pipeline.factory worker).Raises IndexError.IsNoMismatch)
    (hresume : pipeline.settings.build.resume = false) (hspares : pipeline.Spares corpus)
    (hnumbers : ∀ records, corpus.Lists tree records → pipeline.Numbers records)
    {result : Except IndexError (Option BuildReport)}
    (hrun : (pipeline.runAlong schedule corpus).runOn progress tree = ((result, last), changed))
    (mapping indexed : Nat) : result ≠ .error (.idMappingMismatch mapping indexed) := by
  intro herror
  cases runAlong_course hmaps hquiet hspares hrun with
  | unmapped hmapping =>
    exact (raises_writeMapping pipeline corpus).runOn (congrArg Prod.fst hmapping) mapping indexed
      (Except.error.inj herror)
  | untrained hmapped htraining =>
    exact raises_train hfactory _ _ _ _ _ _ htraining mapping indexed (Except.error.inj herror)
  | unbuilt hmapped htrained hbuilding =>
    exact raises_buildShardsAlong _ _ _ _ _ _ hbuilding mapping indexed (Except.error.inj herror)
  | unfinished => cases herror
  | @concluded records _ _ _ _ _ _ _ _ _ _ hmapped htrained hbuilding hconclusion =>
    obtain ⟨htrains, hdirectory⟩ := htrained.anew hresume hmapped
    obtain ⟨-, hlength, hbuilt⟩ :=
      built_of_buildShardsAlong hmaps hquiet hresume hdirectory hbuilding
    have hnumbered := hnumbers _ (Corpus.lists_tick.mp hmapped.lists)
    rcases conclude_cases hconclusion with ⟨error, hmerge, rfl⟩ |
      ⟨metadata, later, merged, hmerge, hend⟩
    · exact raises_merge _ _ _ _ _ _ _ _ hmerge mapping indexed (Except.error.inj herror)
    obtain ⟨hcount, -⟩ := merge_built htrains hnumbered hlength hbuilt hmerge
    have hsize : (IdMapping.mk (records.map (·.externalId))).size = metadata.vectorCount :=
      (List.length_map _).trans hcount.symm
    rw [if_pos hsize] at hend
    obtain ⟨-, report, rfl, -⟩ := hend
    cases herror

/-- However a build that does not resume goes, it never finds that its mapping does not fit its
index. When it succeeds, the mapping names every record of the corpus in order, the data hold every
number of a record once, and the document of a number is the record of that number. -/
theorem runAlong_aligned (hmaps : pipeline.factory.Maps vectorOf)
    (hquiet : pipeline.factory.IsQuiet)
    (hfactory : ∀ worker, (pipeline.factory worker).Raises IndexError.IsNoMismatch)
    (hresume : pipeline.settings.build.resume = false) (hspares : pipeline.Spares corpus)
    (hnumbers : ∀ records, corpus.Lists tree records → pipeline.Numbers records)
    {result : Except IndexError (Option BuildReport)}
    (hrun : (pipeline.runAlong schedule corpus).runOn progress tree = ((result, last), changed)) :
    (∀ mapping indexed, result ≠ .error (.idMappingMismatch mapping indexed)) ∧
      ∀ report, result = .ok (some report) →
        ∃ (contents : Bytes) (records : List Record) (codebook : Codebook) (data : Bytes),
        (tree.read corpus.path = .ok contents ∧
          (Corpus.filled (Text.lines contents)).length = records.length ∧
          ∀ id text record, (Corpus.filled (Text.lines contents))[id]? = some text →
            records[id]? = some record →
              ∃ line, corpus.parse line id (String.ofList text) = .ok record) ∧
        (IdMapping.load pipeline.layout.mapping).runOn changed =
          (.ok ⟨records.map (·.externalId)⟩, changed) ∧
        report.metadata.vectorCount = records.length ∧
        (IndexProgram.readFile (Path.join pipeline.layout.root report.metadata.dataFile)).runOn
          changed = (.ok data, changed) ∧
        pipeline.Trains vectorOf (records.map (·.text)) codebook ∧
        data = codebook.indexData ((records.map (·.text)).map vectorOf) ∧
        ((Posting.split codebook.codeSize data).map (·.id)).Perm (List.range records.length) ∧
        ∀ id record, records[id]? = some record →
          ⟨id, (codebook.encode (vectorOf record.text)).2⟩ ∈
            Posting.split codebook.codeSize data := by
  refine ⟨runAlong_ne_idMappingMismatch hmaps hquiet hfactory hresume hspares hnumbers hrun, ?_⟩
  rintro report rfl
  obtain ⟨records, _, codebook, _, _, _, _, _, _, _, hmapped, htrained, hbuilding, hmerge, -,
    rfl⟩ := exists_of_runAlong_ok hmaps hquiet hspares hrun
  obtain ⟨htrains, hdirectory⟩ := htrained.anew hresume hmapped
  obtain ⟨hleaves, hlength, hbuilt⟩ :=
    built_of_buildShardsAlong hmaps hquiet hresume hdirectory hbuilding
  have hnumbered : pipeline.Numbers records := hnumbers records (Corpus.lists_tick.mp hmapped.lists)
  obtain ⟨hcount, checksum, hname, hpublishes⟩ :=
    merge_built htrains hnumbered hlength hbuilt hmerge
  obtain ⟨contents, hread, hrecords⟩ := hmapped.lists
  obtain ⟨hfilled, hparsed⟩ := Corpus.recordsFrom_ok hrecords
  have hne : codebook.centroids ≠ [] := (Codebook.train_ok htrains).1.centroids_ne_nil
  have hvectors : ((records.map (·.text)).map vectorOf).length = records.length := by
    rw [List.length_map, List.length_map]
  have hids : ((records.map (·.text)).map vectorOf).length ≤ 0x10000000000000000 := by
    rw [hvectors]
    exact Nat.le_trans hnumbered.1 (by decide)
  have hsplit := Codebook.split_indexData hne hids
  refine ⟨contents, records, codebook, _, ⟨Tree.read_tick_ok.mp hread, hfilled, ?_⟩, ?_, hcount, ?_,
    htrains, rfl, ?_, ?_⟩
  · intro id text record htext hrecord
    rw [← Nat.zero_add id]
    exact hparsed id text record htext hrecord
  · exact load_mapping hnumbered.1 hmapped htrained hleaves hname hpublishes
  · rw [IndexProgram.runOn_readFile, Tree.read_tick_ok.mpr (hpublishes.read_data
      (hname ▸ Metadata.isName_dataFileName checksum))]
  · rw [hsplit, ← hvectors]
    exact Codebook.map_id_postings_perm hne
  · intro id record hrecord
    rw [hsplit]
    apply Codebook.mem_postings hne
    rw [List.getElem?_map, List.getElem?_map, hrecord]
    rfl

def tinyCorpus : Corpus := ⟨"records", "code", "id"⟩

/-- The corpus has two records with a blank line between them, and only the second has an id. -/
def tinyTree : Tree :=
  Tree.empty.set ["records"]
    (.file (Utf8.encode "\x7b\"code\":\"a\"\x7d\n \n\x7b\"code\":\"b\",\"id\":\"x\"\x7d\n") 0)

def tinyBuild : (Except IndexError (Option BuildReport) × Progress) × Tree :=
  (tinyPipeline.runAlong smallSchedule tinyCorpus).runOn (.start .untrained) tinyTree

theorem spares_tinyCorpus : tinyPipeline.Spares tinyCorpus := by
  intro location hlocation
  obtain rfl := Option.some.inj hlocation
  decide

theorem numbers_of_length_eq_two {records : List Record} (hlength : records.length = 2) :
    tinyPipeline.Numbers records := by
  have hsize : (records.map (·.text)).length ≤ tinyPipeline.settings.build.partitionSize := by
    rw [List.length_map, hlength]
    decide
  have hne : records.map (·.text) ≠ [] := List.ne_nil_of_length_pos (by simp [hlength])
  refine ⟨by omega, ?_⟩
  rw [length_partitionsOf, chunks_of_length_le hne hsize, List.length_singleton]
  decide

theorem numbers_tinyPipeline (records : List Record) (hlists : tinyCorpus.Lists tinyTree records) :
    tinyPipeline.Numbers records := by
  obtain ⟨contents, hread, hrecords⟩ := hlists
  obtain rfl := Except.ok.inj hread
  have hcount := congrArg List.length hrecords
  rw [List.length_map] at hcount
  apply numbers_of_length_eq_two
  rw [← hcount]
  decide +kernel

theorem exists_tiny_build : ∃ report last changed,
    tinyBuild = ((.ok (some report), last), changed) ∧ report.metadata.vectorCount = 2 := by
  have hends : EndsConcludable tinyPipeline 1 2
      ((tinyPipeline.stagesAlong smallSchedule tinyCorpus).runOn (.start .untrained) tinyTree) := by
    decide +kernel
  exact exists_report_of_stages hends

/-- The mapping of the build names both records, which the index holds. -/
theorem runAlong_aligned_tiny : ∃ report ids, tinyBuild.1.1 = .ok (some report) ∧
    report.metadata.vectorCount = 2 ∧ ids.length = 2 ∧
      (IdMapping.load (Path.join "index" "id_mapping.json")).runOn tinyBuild.2 =
        (.ok ⟨ids⟩, tinyBuild.2) := by
  obtain ⟨report, last, changed, hbuild, hcount⟩ := exists_tiny_build
  obtain ⟨-, haligned⟩ := runAlong_aligned maps_tinyPipeline (fun _ _ ↦ rfl)
    (fun _ ↦ IndexProgram.raises_pure _) rfl spares_tinyCorpus numbers_tinyPipeline hbuild
  obtain ⟨_, records, _, _, -, hmapping, hrecords, -⟩ := haligned report rfl
  rw [hbuild]
  exact ⟨report, _, rfl, hcount, by rw [List.length_map, ← hrecords, hcount], hmapping⟩

end VectorIndex.Pipeline
