import VectorIndex.Proofs.Build.Completion
import VectorIndex.Proofs.Build.Sequential

/-!
# When a build succeeds

In a directory that hosts files nothing stops a build that starts anew when its corpus can be read,
the encoder encodes all texts, and a codebook can be trained on them. Partitions are numbered in 32
bits and ids in 64.
-/

namespace VectorIndex

open IndexProgram (perform_check_ok runOn_lift_ok runOn_ofExcept_ok)

/-! ## Encoding -/

/-- The encoder makes of every batch of the items the vectors of its texts. -/
def Encoder.EncodesAll (encoder : Encoder) (vectorOf : String → Vec) (items : List String) : Prop :=
  ∀ batch ⊆ items, encoder.Encodes batch (batch.map vectorOf)

theorem Encoder.Encodes.encodeBatch {encoder : Encoder} {batch : List String} {vectors : List Vec}
    (hencodes : encoder.Encodes batch vectors) (partition : Option PartitionIndex) :
    encoder.encodeBatch batch partition = .ok vectors :=
  encodeBatch_eq_ok.mpr ⟨hencodes.embed_eq, hencodes.length_eq, hencodes.isUnit⟩

/-- An encoder that embeds each text by itself, as a unit vector, encodes all batches. -/
theorem Encoder.encodesAll_hashed {dimension : Dimension} {items : List String}
    (hunit : ∀ text ∈ items,
      dimension.checkUnitVector (Encoder.hashedVector dimension text) = .ok ()) :
    (Encoder.hashed dimension).EncodesAll (Encoder.hashedVector dimension) items := by
  refine fun batch hbatch ↦ ⟨rfl, List.length_map _, fun v hv ↦ ?_⟩
  obtain ⟨text, htext, rfl⟩ := List.mem_map.mp hv
  exact hunit text (hbatch htext)

section

variable {encoder : Encoder} {vectorOf : String → Vec} {items : List String}
  (hencodes : encoder.EncodesAll vectorOf items)
include hencodes

theorem Pipeline.encodeSample_eq {batches : List (List String)}
    (hbatches : ∀ batch ∈ batches, batch ⊆ items) :
    encodeSample encoder batches = .ok (batches.flatten.map vectorOf) := by
  induction batches with
  | nil => rfl
  | cons batch rest ih =>
    obtain ⟨hbatch, hrest⟩ := List.forall_mem_cons.mp hbatches
    rw [encodeSample, (hencodes batch hbatch).encodeBatch, ih hrest, List.flatten_cons,
      List.map_append]
    rfl

theorem Shard.exists_encodeBatches (codebook : Codebook) (partition : PartitionIndex)
    (next : DocumentId) {batches : List (List String)}
    (hbatches : ∀ batch ∈ batches, batch ⊆ items) :
    ∃ pushes, encodeBatches codebook encoder partition next batches = .ok pushes := by
  induction batches generalizing next with
  | nil => exact ⟨[], rfl⟩
  | cons batch rest ih =>
    obtain ⟨hbatch, hrest⟩ := List.forall_mem_cons.mp hbatches
    obtain ⟨later, hlater⟩ := ih (next + (batch.map vectorOf).length) hrest
    rw [encodeBatches, (hencodes batch hbatch).encodeBatch]
    dsimp only
    rw [hlater]
    exact ⟨_, rfl⟩

/-! ## The segments -/

variable {codebook : Codebook} (hdimension : encoder.dimension.size = codebook.dimension)
  {directory : Path} {tree : Tree} (hhosts : tree.Hosts directory)
include hdimension hhosts

theorem Shard.exists_build (batchSize : Nat) {partition : Partition}
    (hitems : partition.items ⊆ items) : ∃ summary changed,
      (Shard.build codebook directory encoder batchSize partition).run tree =
          (.ok summary, changed) ∧
        changed.Hosts directory := by
  obtain ⟨pushes, hpushes⟩ :
      ∃ pushes, encode codebook encoder batchSize partition = .ok pushes := by
    unfold encode
    rw [if_neg (not_not_intro hdimension)]
    refine exists_encodeBatches hencodes codebook _ _ fun batch hbatch text htext ↦ hitems ?_
    rw [← flatten_chunks batchSize partition.items]
    exact List.mem_flatten_of_mem hbatch htext
  let draft : SegmentDraft :=
    { SegmentDraft.start partition.index partition.base codebook with pushes }
  obtain ⟨changed, hpublish, hhosted⟩ :=
    hhosts.admits.exists_publishFile (isName_segmentName partition.index) draft.toBytes
  rw [← segmentPath_eq_join] at hpublish
  have hfinish : (draft.finish (segmentPath directory partition.index)).runOn tree =
      (.ok ⟨draft.partition, draft.base, draft.count,
        segmentPath directory partition.index, false⟩, changed) :=
    IndexProgram.runOn_bind_ok.mpr ⟨(), changed, hpublish, rfl⟩
  unfold Shard.build
  rw [hpushes]
  dsimp only
  rw [StoreProgram.run_bind, IndexProgram.run_attempt, hfinish]
  exact ⟨_, changed, rfl, hhosted⟩

/-- A pool without earlier segments to keep builds every partition of the items. -/
theorem WorkerPool.exists_dispatch {pool : WorkerPool} (hresume : pool.resume = false)
    (taken : Nat) {partitions : List Partition}
    (hitems : ∀ partition ∈ partitions, partition.items ⊆ items) : ∃ outcomes changed,
      (pool.dispatch codebook directory (List.replicate pool.workerCount (.ok encoder)) taken
          (partitions.map .ok)).run tree = ((outcomes, none), changed) ∧
        (∀ outcome ∈ outcomes, ∃ summary, outcome.result = .ok summary) ∧
        changed.Hosts directory := by
  induction partitions generalizing taken tree with
  | nil => exact ⟨[], tree, rfl, nofun, hhosts⟩
  | cons partition rest ih =>
    obtain ⟨hpartition, hrest⟩ := List.forall_mem_cons.mp hitems
    have hreuse : (pool.reuse? codebook directory partition).runOn tree = (.ok none, tree) := by
      unfold reuse?
      rw [hresume]
      rfl
    have hworker : taken % pool.workerCount < pool.workerCount :=
      Nat.mod_lt _ (Nat.lt_of_lt_of_le Nat.one_pos (Nat.le_max_right _ _))
    obtain ⟨summary, built, hbuild, hbuilt⟩ :=
      Shard.exists_build hencodes hdimension hhosts pool.batchSize hpartition
    have hresult : (pool.buildOn codebook directory (taken % pool.workerCount)
        ((List.replicate pool.workerCount (.ok encoder)).getD (taken % pool.workerCount)
          (.error (.encoder "no such worker"))) partition).run tree = (.ok summary, built) := by
      rw [List.getD_eq_getElem?_getD, List.getElem?_replicate_of_lt hworker, Option.getD_some,
        buildOn_ok, StoreProgram.run_map, hbuild]
      rfl
    obtain ⟨outcomes, changed, hlater, hall, hhosted⟩ := ih hbuilt (taken + 1) hrest
    rw [List.map_cons, run_dispatch_built hreuse hresult, hlater]
    exact ⟨_, changed, rfl, List.forall_mem_cons.mpr ⟨⟨summary, rfl⟩, hall⟩, hhosted⟩

end

namespace Pipeline

open BuildProgram (runOn_bind_ok runOn_lift_eq runOn_advance_ok)

variable {pipeline : Pipeline} {encoder : Encoder} {vectorOf : String → Vec} {corpus : Corpus}
  {codebook : Codebook} {progress : Progress} {tree : Tree}
  (hfactory : pipeline.factory = fun _ ↦ pure encoder)
  (hresume : pipeline.settings.build.resume = false)
  (hdimension : encoder.dimension.size = codebook.dimension)
  (hhosts : tree.Hosts pipeline.layout.root)

include hfactory hresume hdimension hhosts in
/-- The segments are built along some schedule, the one that hands the partitions out in turn. -/
theorem exists_schedule_segments {items : List String}
    (hencodes : encoder.EncodesAll vectorOf items) (hstate : progress.state = .trained) :
    ∃ schedule segments built changed,
      (pipeline.buildShardsAlong schedule codebook (.ofList (items.map .ok))).runOn progress tree =
          ((.ok (some segments), built), changed) ∧
        built.state = .shardsComplete ∧ changed.Hosts pipeline.layout.root := by
  obtain ⟨hmade, hentered⟩ := hhosts.admits.makeDirectories
  have hentering : pipeline.enterShards.runOn progress tree =
      ((.ok (), { progress with state := .shardsBuilding }),
        (tree.answer (.makeDirectories pipeline.layout.root)).2) := by
    refine runOn_bind_ok.mpr ⟨(), _, _, runOn_advance_ok.mpr ⟨?_, rfl, rfl⟩,
      runOn_lift_eq.mpr ⟨perform_check_ok.mpr ⟨hmade, rfl⟩, rfl⟩⟩
    rw [hstate]
    rfl
  have hitems : ∀ partition ∈ pipeline.partitionsOf items, partition.items ⊆ items := by
    intro partition hpartition text htext
    rw [← flatten_chunks pipeline.settings.build.partitionSize items,
      ← Partition.map_items_ofItems 0 0 (chunks pipeline.settings.build.partitionSize items)]
    exact List.mem_flatten_of_mem (List.mem_map_of_mem hpartition) htext
  have hkeeps : pipeline.pool.resume = false := hresume
  obtain ⟨outcomes, changed, hdispatch, hall, hhosted⟩ :=
    WorkerPool.exists_dispatch hencodes hdimension hentered hkeeps 0 hitems
  have hordered : ((Partition.leading ((pipeline.partitionsOf items).map .ok)).map
      (·.index)).Pairwise (· ≤ ·) := by
    rw [Partition.leading_map_ok, partitionsOf, Partition.map_index_ofItems]
    exact List.pairwise_le_range'
  obtain ⟨schedule, hschedule⟩ := pipeline.pool.exists_schedule codebook pipeline.layout.root
    pipeline.factory hordered (tree.answer (.makeDirectories pipeline.layout.root)).2
  have hrun : (pipeline.pool.run codebook pipeline.layout.root pipeline.factory
      ((pipeline.partitionsOf items).map .ok)).run
        (tree.answer (.makeDirectories pipeline.layout.root)).2 =
      ((outcomes, .ok ⟨outcomes⟩), changed) := by
    unfold WorkerPool.run
    rw [hfactory, StoreProgram.run_bind, WorkerPool.run_createEncoders_pure]
    dsimp only
    rw [StoreProgram.run_bind, hdispatch]
    rfl
  rw [hrun, ← partitions_ofList] at hschedule
  obtain ⟨segments, hresult⟩ := PoolReport.exists_result hall
  obtain ⟨built, hbuilt, hcomplete⟩ :=
    exists_built_of_runAlong hentering hschedule hresult rfl
  exact ⟨schedule, segments, built, changed, hbuilt, hcomplete, hhosted⟩

include hfactory hresume hdimension hhosts in
/-- The codebook of the head of the texts is saved. -/
theorem exists_train {items : List String} (hencodes : encoder.EncodesAll vectorOf items)
    (hvalid : pipeline.settings.validateForDimension codebook.dimension = .ok ())
    (htrains : pipeline.Trains vectorOf items codebook) (hstate : progress.state = .untrained) :
    ∃ changed, (pipeline.train (.ofList (items.map .ok))).runOn progress tree =
        ((.ok codebook, { progress with state := .trained }), changed) ∧
      tree.Becomes changed (tree.files.put (pipeline.directory ++ [Layout.codebookFile])
        (some codebook.toBytes)) ∧ changed.Hosts pipeline.layout.root := by
  have hbatches : ∀ batch ∈ chunks pipeline.settings.build.batchSize (pipeline.head items),
      batch ⊆ items := by
    intro batch hbatch text htext
    have hhead := List.mem_flatten_of_mem hbatch htext
    rw [flatten_chunks] at hhead
    exact List.mem_of_mem_take hhead
  have hsample := encodeSample_eq hencodes hbatches
  rw [flatten_chunks] at hsample
  obtain ⟨changed, hsave, hhosted⟩ :=
    hhosts.admits.exists_publishFile Layout.isName_codebookFile codebook.toBytes
  have htrainOn :
      (pipeline.trainOn (pipeline.head items)).runOn tree = (.ok codebook, changed) := by
    unfold trainOn
    rw [hfactory]
    refine IndexProgram.runOn_bind_ok.mpr ⟨encoder, tree, rfl, ?_⟩
    refine IndexProgram.runOn_bind_ok.mpr ⟨(), tree, ?_, ?_⟩
    · rw [IndexProgram.runOn_ofExcept, hdimension, hvalid]
    refine IndexProgram.runOn_bind_ok.mpr ⟨_, tree, runOn_ofExcept_ok.mpr ⟨hsample, rfl⟩, ?_⟩
    refine IndexProgram.runOn_bind_ok.mpr ⟨codebook, tree, runOn_ofExcept_ok.mpr ⟨htrains, rfl⟩, ?_⟩
    exact IndexProgram.runOn_bind_ok.mpr ⟨(), changed, hsave, rfl⟩
  refine ⟨changed, ?_, (publishFile_ok Layout.isName_codebookFile hsave).2, hhosted⟩
  have hanew : pipeline.kept? (pipeline.head items).length tree = none := by
    unfold kept?
    rw [hresume]
    rfl
  rw [runOn_train, hanew]
  refine runOn_bind_ok.mpr ⟨codebook, progress, changed, runOn_lift_eq.mpr ⟨htrainOn, rfl⟩, ?_⟩
  refine runOn_bind_ok.mpr ⟨(), _, changed, runOn_advance_ok.mpr ⟨?_, rfl, rfl⟩, rfl⟩
  rw [hstate]
  rfl

/-- The mapping is written, for which the directory is made if it is missing. -/
theorem exists_writeMapping {records : List Record} (hlists : corpus.Lists tree records)
    (hadmits : tree.Admits pipeline.layout.root) :
    ∃ changed, (pipeline.writeMapping corpus).runOn tree =
        (.ok ⟨records.map (·.externalId)⟩, changed) ∧
      pipeline.Mapped corpus records tree changed ∧ changed.Hosts pipeline.layout.root := by
  obtain ⟨changed, hsave, hhosted⟩ := hadmits.exists_publishFile Layout.isName_mappingFile
    (Utf8.encode (IdMapping.mk (records.map (·.externalId))).toJson.compact)
  have hmapping : (IdMapping.ofCorpus corpus).runOn tree = (.ok _, tree) :=
    IdMapping.ofCorpus_ok.mpr ⟨rfl, records, hlists, rfl⟩
  obtain ⟨hdirectory, hbecomes⟩ := publishFile_ok Layout.isName_mappingFile hsave
  exact ⟨changed, IndexProgram.runOn_bind_ok.mpr ⟨_, tree, hmapping,
    IndexProgram.runOn_bind_ok.mpr ⟨(), changed, hsave, rfl⟩⟩, ⟨hlists, hdirectory, hbecomes⟩,
    hhosted⟩

include hresume in
/-- The segments of all records can be merged in a directory that hosts files. -/
theorem exists_merge {records : List Record} {schedule : List Party}
    {segments : List SegmentSummary} {built : Progress} {between : Tree}
    (hcodebook : codebook.IsComplete) (hfields : codebook.FitsFields)
    (hnumbers : pipeline.Numbers records)
    (hbuild : (pipeline.buildShardsAlong schedule codebook (textsOf records)).runOn progress tree =
      ((.ok (some segments), built), between))
    (hhosts : between.Hosts pipeline.layout.root) (hcomplete : built.state = .shardsComplete) :
    ∃ last changed metadata, (pipeline.merge codebook segments.length).runOn built between =
        ((.ok metadata, last), changed) ∧ metadata.vectorCount = records.length ∧
      changed.Hosts pipeline.layout.root := by
  have htexts : (textsOf records).toList.length = records.length := by
    have hitems : (textsOf records).toList = (records.map (·.text)).map .ok := List.append_nil _
    rw [hitems, List.length_map, List.length_map]
  have hcount : segments.length < 0x100000000 := by
    obtain ⟨start, outcomes, report, hrun, hresult⟩ := buildShardsAlong_ok hbuild
    unfold textsOf at hrun
    rw [partitions_ofList] at hrun
    rw [(WorkerPool.runAlong_segments hresume hrun hresult).1, ← length_partitionsOf]
    exact hnumbers.2
  have hids := hnumbers.1
  obtain ⟨opened, hholds, -, htotal, htiling⟩ := exists_holds_of_buildShardsAlong hresume hcodebook
    hfields hbuild hhosts.isDirectory hcount (by omega)
  have hrange : (List.range (segments.length % 0x100000000)).length = segments.length := by
    rw [List.length_range, Nat.mod_eq_of_lt hcount]
  have horder : (List.range (segments.length % 0x100000000)).Perm
      (List.range (List.range (segments.length % 0x100000000)).length) := by
    rw [List.length_range]
  obtain ⟨createdAt, changed, hmerge, -, hhosted⟩ :=
    SegmentMerger.exists_merge_of_holds hhosts horder (hrange.symm ▸ hholds) htiling
  obtain ⟨last, hmerged⟩ := exists_merged_of_merge hcomplete hmerge
  exact ⟨last, changed, _, hmerged, htotal.trans htexts, hhosted⟩

include hfactory hresume hdimension in
/-- The whole build succeeds along some schedule, and another build can follow. -/
theorem exists_schedule_runAlong {records : List Record}
    (hadmits : tree.Admits pipeline.layout.root)
    (hencodes : encoder.EncodesAll vectorOf (records.map (·.text)))
    (hspares : pipeline.Spares corpus) (hlists : corpus.Lists tree records)
    (hnumbers : pipeline.Numbers records)
    (hvalid : pipeline.settings.validateForDimension codebook.dimension = .ok ())
    (htrains : pipeline.Trains vectorOf (records.map (·.text)) codebook)
    (hfields : codebook.FitsFields) (hstate : progress.state = .untrained) :
    ∃ schedule report last changed, (pipeline.runAlong schedule corpus).runOn progress tree =
        ((.ok (some report), last), changed) ∧ changed.Hosts pipeline.layout.root := by
  obtain ⟨mapped, hmapping, hmapped, hhosted⟩ :=
    exists_writeMapping (Corpus.lists_tick.mpr hlists) hadmits.tick
  obtain ⟨trained, htraining, hbecomes, htrained⟩ :=
    exists_train hfactory hresume hdimension hhosted hencodes hvalid htrains hstate
  have hnext : ({ progress with state := .trained } : Progress).state = .trained := rfl
  obtain ⟨schedule, segments, built, between, hbuild, hcomplete, hbuilt⟩ :=
    exists_schedule_segments hfactory hresume hdimension htrained hencodes hnext
  obtain ⟨last, merged, metadata, hmerge, hsize, hmerged⟩ :=
    exists_merge hresume (Codebook.isComplete_of_train htrains) hfields hnumbers hbuild hbuilt
      hcomplete
  obtain ⟨report, hconclude, -⟩ :=
    exists_conclude hmerge ((List.length_map _).trans hsize.symm) (tree.answer .now).1
  have hmiddle := hmapped.lists_mapped hspares
  have hstill := hmiddle.alters hbecomes.alters fun location h ↦ (hspares location h).2
  refine ⟨schedule, report, last, merged.tick, ?_, hmerged.tick⟩
  unfold runAlong
  refine runOn_bind_ok.mpr ⟨(tree.answer .now).1, progress, tree.tick, rfl, ?_⟩
  refine runOn_bind_ok.mpr ⟨_, progress, mapped, runOn_lift_eq.mpr ⟨hmapping, rfl⟩, ?_⟩
  rw [runOn_texts_bind hmiddle]
  refine runOn_bind_ok.mpr ⟨codebook, _, trained, htraining, ?_⟩
  rw [runOn_texts_bind hstill]
  refine runOn_bind_ok.mpr ⟨some segments, built, between, hbuild, ?_⟩
  exact runOn_bind_ok.mpr ⟨report, last, merged.tick, hconclude, rfl⟩

end Pipeline
end VectorIndex
