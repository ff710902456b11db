import VectorIndex.Encoder.Fixed
import VectorIndex.Proofs.Build.Pipeline
import VectorIndex.Proofs.Build.Schedule
import VectorIndex.Proofs.Corpus.Partition
import VectorIndex.Proofs.Postings.Interruption
import VectorIndex.Proofs.Postings.Merge

/-!
# What a build and its merge publish

The data of an index are determined by the vectors of the texts: cell after cell, the id and the
code of each vector of the cell, in the order of the ids. Neither the partitions nor the batches
nor the workers and their schedule can be seen in them.
-/

namespace VectorIndex

namespace Codebook

variable (codebook : Codebook)

/-- The data of an index of vectors. -/
def indexData (vectors : List Vec) : Bytes :=
  (List.range codebook.cellCount).flatMap (codebook.entries 0 vectors)

/-- How many of the vectors belong to a cell. -/
def occupancy (vectors : List Vec) (cell : CellId) : Nat :=
  vectors.countP fun v ↦ (codebook.encode v).1 = cell

theorem length_entries (base : DocumentId) (vectors : List Vec) (cell : CellId) :
    (codebook.entries base vectors cell).length =
      codebook.occupancy vectors cell * Posting.size codebook.codeSize := by
  unfold entries occupancy
  induction vectors generalizing base with
  | nil => simp
  | cons v rest ih =>
    rw [List.zipIdx_cons, List.flatMap_cons, List.length_append, ih, List.countP_cons]
    by_cases hcell : (codebook.encode v).1 = cell
    · simp only [hcell, if_true, decide_true, List.length_append, Bytes.length_littleEndian,
        codebook.length_code, Nat.succ_mul, Posting.size, Posting.idSize]
      exact Nat.add_comm _ _
    · simp [hcell]

end Codebook

/-! ## Encoders -/

/-- Every encoder that the factory makes gives each text the vector of the function. -/
def EncoderFactory.Maps (factory : EncoderFactory) (vectorOf : String → Vec) : Prop :=
  ∀ worker tree encoder, ((factory worker).runOn tree).1 = .ok encoder → encoder.Maps vectorOf

theorem Encoder.maps_hashed (dimension : Dimension) :
    (Encoder.hashed dimension).Maps (Encoder.hashedVector dimension) :=
  fun _ _ hembed ↦ (Except.ok.inj hembed).symm

/-- What a program for each item returns is what it returns on some tree. -/
theorem StoreProgram.exists_of_mem_mapM {α β : Type} {program : α → StoreProgram β}
    {items : List α} {tree : Tree} {value : β}
    (hvalue : value ∈ ((items.mapM program).run tree).1) :
    ∃ item ∈ items, ∃ before, ((program item).run before).1 = value := by
  induction items generalizing tree with
  | nil => cases hvalue
  | cons item rest ih =>
    rw [List.mapM_cons, run_bind, run_bind] at hvalue
    rcases List.mem_cons.mp hvalue with rfl | hvalue
    · exact ⟨item, List.mem_cons_self, tree, rfl⟩
    · obtain ⟨other, hother, hfound⟩ := ih hvalue
      exact ⟨other, List.mem_cons_of_mem _ hother, hfound⟩

theorem WorkerPool.maps_of_createEncoders {pool : WorkerPool} {factory : EncoderFactory}
    {vectorOf : String → Vec} (hmaps : factory.Maps vectorOf) {tree : Tree} {encoder : Encoder}
    (hencoder : .ok encoder ∈ ((pool.createEncoders factory).run tree).1) :
    encoder.Maps vectorOf := by
  obtain ⟨index, -, before, hbefore⟩ := StoreProgram.exists_of_mem_mapM hencoder
  exact hmaps _ before encoder hbefore

/-! ## The segments of a build -/

/-- The segment of the partition is what an encoder that gives these vectors makes of it. -/
def Partition.IsBuilt (codebook : Codebook) (directory : Path) (vectorOf : String → Vec)
    (batchSize : Nat) (tree : Tree) (partition : Partition) : Prop :=
  ∃ encoder contents, Encoder.Maps encoder vectorOf ∧
    Shard.segmentBytes? codebook encoder batchSize partition = some contents ∧
      tree.files (Location.ofDirectory directory ++ [segmentName partition.index]) = some contents

/-- A pool that builds everything anew, and succeeds, leaves for every partition what one of its
encoders makes of it. -/
theorem WorkerPool.runAlong_segments {pool : WorkerPool} {codebook : Codebook} {directory : Path}
    {factory : EncoderFactory} (hresume : pool.resume = false) {pieces : List (List String)}
    {schedule : List Party} {start changed : Tree} {outcomes : List Outcome} {report : PoolReport}
    (hrun : (pool.runAlong codebook directory factory ((Partition.ofItems 0 0 pieces).map .ok)
      schedule).run start = (some (outcomes, .ok report), changed))
    {segments : List SegmentSummary} (hresult : report.result = .ok segments) :
    segments.length = pieces.length ∧ ∀ partition ∈ Partition.ofItems 0 0 pieces,
      ∃ encoder contents, .ok encoder ∈ ((pool.createEncoders factory).run start).1 ∧
        Shard.segmentBytes? codebook encoder pool.batchSize partition = some contents ∧
          changed.files (Location.ofDirectory directory ++ [segmentName partition.index]) =
            some contents := by
  unfold runAlong at hrun
  rw [StoreProgram.run_bind, StoreProgram.run_bind, StoreProgram.run_pure] at hrun
  obtain ⟨hreport, rfl⟩ := Prod.mk.inj hrun
  have hnodup : ((Partition.ofItems 0 0 pieces).map (·.index)).Nodup := by
    rw [Partition.map_index_ofItems]
    exact List.nodup_range'
  have hleading := Partition.leading_map_ok (Partition.ofItems 0 0 pieces)
  rw [← hleading] at hnodup
  obtain ⟨hlength, hall⟩ := Crew.follow_ok hresume hnodup rfl hreport hresult
  rw [hleading] at hlength hall
  refine ⟨?_, hall⟩
  rw [hlength, ← List.length_map (f := (·.index)), Partition.map_index_ofItems, List.length_range']

/-- When the encoders map texts to vectors, the segments are what the vectors make them. -/
theorem WorkerPool.runAlong_ok {pool : WorkerPool} {codebook : Codebook} {directory : Path}
    {factory : EncoderFactory} {vectorOf : String → Vec} (hmaps : factory.Maps vectorOf)
    (hresume : pool.resume = false) {pieces : List (List String)} {schedule : List Party}
    {start changed : Tree} {outcomes : List Outcome} {report : PoolReport}
    (hrun : (pool.runAlong codebook directory factory ((Partition.ofItems 0 0 pieces).map .ok)
      schedule).run start = (some (outcomes, .ok report), changed))
    {segments : List SegmentSummary} (hresult : report.result = .ok segments) :
    segments.length = pieces.length ∧ ∀ partition ∈ Partition.ofItems 0 0 pieces,
      partition.IsBuilt codebook directory vectorOf pool.batchSize changed := by
  obtain ⟨hlength, hall⟩ := runAlong_segments hresume hrun hresult
  refine ⟨hlength, fun partition hpartition ↦ ?_⟩
  obtain ⟨encoder, contents, hencoder, hbytes, hfile⟩ := hall partition hpartition
  exact ⟨encoder, contents, maps_of_createEncoders hmaps hencoder, hbytes, hfile⟩

/-- What a merge opens as the segment of a partition is what an encoder has made of it. -/
theorem SegmentMerger.Accepts.exists_of_built {merger : SegmentMerger}
    {vectorOf : String → Vec} {batchSize : Nat} {partition : Partition} {tree : Tree}
    {segment : Segment} (haccepts : merger.Accepts tree partition.index segment)
    (hbuilt : partition.IsBuilt merger.codebook merger.directory vectorOf batchSize tree) :
    ∃ encoder contents, Encoder.Maps encoder vectorOf ∧
      Shard.segmentBytes? merger.codebook encoder batchSize partition = some contents ∧
      Segment.ofBytes (segmentPath merger.directory partition.index) contents = .ok segment := by
  obtain ⟨encoder, contents, hmaps, hbytes, hfile⟩ := hbuilt
  obtain ⟨⟨found, hread, hopen⟩, -⟩ := haccepts
  have hname := isName_segmentName partition.index
  rw [segmentPath_eq_join, Tree.read_eq_ok (Location.ofPath_join _ hname)
    (Path.endsWithSlash_join _ hname), hfile] at hread
  obtain rfl := Option.some.inj hread.2
  exact ⟨encoder, contents, hmaps, hbytes, hopen⟩

theorem SegmentMerger.Holds.exact_of_built {merger : SegmentMerger}
    {vectorOf : String → Vec} {batchSize : Nat} {pieces : List (List String)} {tree : Tree}
    {segments : List Segment} (hholds : merger.Holds tree pieces.length segments)
    (hbuilt : ∀ partition ∈ Partition.ofItems 0 0 pieces,
      partition.IsBuilt merger.codebook merger.directory vectorOf batchSize tree) :
    ∀ segment ∈ segments, segment.IsExact := by
  intro segment hsegment
  have hindex : segment.partition ∈ (Partition.ofItems 0 0 pieces).map (·.index) := by
    rw [Partition.map_index_ofItems, ← List.range_eq_range', ← hholds.partitions]
    exact List.mem_map_of_mem hsegment
  obtain ⟨partition, hpartition, hindex⟩ := List.mem_map.mp hindex
  have haccepts := hholds.accepts segment hsegment
  rw [← hindex] at haccepts
  obtain ⟨encoder, contents, -, hbytes, hopen⟩ :=
    haccepts.exists_of_built (hbuilt partition hpartition)
  obtain ⟨hcells, hsize⟩ := haccepts.sound.layout
  exact Shard.isExact_of_segmentBytes? hbytes hopen hcells hsize

/-- What a merge opens as the segment of a partition holds the entries of the partition's vectors. -/
theorem SegmentMerger.Accepts.cellBytes_of_built {merger : SegmentMerger}
    {vectorOf : String → Vec} {batchSize : Nat} {partition : Partition} {tree : Tree}
    {segment : Segment} (haccepts : merger.Accepts tree partition.index segment)
    (hbuilt : partition.IsBuilt merger.codebook merger.directory vectorOf batchSize tree)
    {cell : CellId} (hcell : cell < merger.codebook.cellCount) :
    segment.cellBytes cell =
      merger.codebook.entries partition.base (partition.items.map vectorOf) cell := by
  obtain ⟨encoder, contents, hmaps, hbytes, hopen⟩ := haccepts.exists_of_built hbuilt
  obtain ⟨hcells, hsize⟩ := haccepts.sound.layout
  exact Shard.cellBytes_of_segmentBytes? hmaps hbytes hopen hcells hsize hcell

/-- The segments that a merge opens after a build hold, cell by cell, the entries of the vectors of
all texts. -/
theorem SegmentMerger.Holds.cellBytes_of_built {merger : SegmentMerger}
    {vectorOf : String → Vec} {batchSize : Nat} {pieces : List (List String)} {tree : Tree}
    {segments : List Segment} (hholds : merger.Holds tree pieces.length segments)
    (hbuilt : ∀ partition ∈ Partition.ofItems 0 0 pieces,
      partition.IsBuilt merger.codebook merger.directory vectorOf batchSize tree)
    {cell : CellId} (hcell : cell < merger.codebook.cellCount) :
    SegmentMerger.cellBytes segments cell =
      merger.codebook.entries 0 (pieces.flatten.map vectorOf) cell := by
  have hindices : segments.map (·.partition) =
      (Partition.ofItems 0 0 pieces).map (·.index) := by
    rw [hholds.partitions, Partition.map_index_ofItems, List.range_eq_range']
  have hlength : segments.length = (Partition.ofItems 0 0 pieces).length := by
    simpa using congrArg List.length hindices
  have hcells : segments.map (·.cellBytes cell) = (Partition.ofItems 0 0 pieces).map
      fun partition ↦ merger.codebook.entries partition.base (partition.items.map vectorOf)
        cell := by
    apply List.ext_getElem
    · rw [List.length_map, List.length_map, hlength]
    · intro position hsegment hpartition
      rw [List.length_map] at hsegment hpartition
      have hindex : segments[position].partition =
          (Partition.ofItems 0 0 pieces)[position].index := by
        have hget := congrArg (·[position]?) hindices
        simpa [hsegment, hpartition] using hget
      have haccepts := hholds.accepts _ (List.getElem_mem hsegment)
      rw [hindex] at haccepts
      rw [List.getElem_map, List.getElem_map]
      exact haccepts.cellBytes_of_built (hbuilt _ (List.getElem_mem hpartition)) hcell
  have hentries := Partition.flatMap_ofItems
    (fun base items ↦ merger.codebook.entries base (items.map vectorOf) cell)
    (fun _ ↦ rfl) (fun base first second ↦ by
      rw [List.map_append, merger.codebook.entries_append, List.length_map]) 0 0 pieces
  calc SegmentMerger.cellBytes segments cell
    _ = (segments.map (·.cellBytes cell)).flatten := List.flatMap_def
    _ = ((Partition.ofItems 0 0 pieces).flatMap fun partition ↦
        merger.codebook.entries partition.base (partition.items.map vectorOf) cell) := by
      rw [hcells, List.flatMap_def]
    _ = merger.codebook.entries 0 (pieces.flatten.map vectorOf) cell := hentries

/-- What a merge of such segments writes are the index data of the vectors of all texts. -/
theorem SegmentMerger.Holds.mergedCells_of_built {merger : SegmentMerger}
    {vectorOf : String → Vec} {batchSize : Nat} {pieces : List (List String)} {tree : Tree}
    {segments : List Segment} (hholds : merger.Holds tree pieces.length segments)
    (hbuilt : ∀ partition ∈ Partition.ofItems 0 0 pieces,
      partition.IsBuilt merger.codebook merger.directory vectorOf batchSize tree) :
    merger.mergedCells segments = (List.range merger.codebook.cellCount).map
        (merger.codebook.entries 0 (pieces.flatten.map vectorOf)) ∧
      (merger.mergedCells segments).flatten =
        merger.codebook.indexData (pieces.flatten.map vectorOf) := by
  have hcells : merger.mergedCells segments = (List.range merger.codebook.cellCount).map
      (merger.codebook.entries 0 (pieces.flatten.map vectorOf)) := by
    apply List.map_congr_left
    intro cell hcell
    exact hholds.cellBytes_of_built hbuilt (List.mem_range.mp hcell)
  refine ⟨hcells, ?_⟩
  rw [hcells, Codebook.indexData, List.flatMap_def]

namespace Pipeline

variable {pipeline : Pipeline} {vectorOf : String → Vec} {codebook : Codebook}
  {texts : List String} {schedule : List Party} {progress built last : Progress}
  {tree between changed : Tree} {segments : List SegmentSummary} {metadata : Metadata}

/-- However many workers there are and whoever has a turn when, and whatever the sizes of the
partitions and of the batches are, the data that a merge publishes after a build are the index data
of the vectors of the texts. The partitions are numbered in 32 bits. -/
theorem merge_buildShardsAlong (hmaps : pipeline.factory.Maps vectorOf)
    (hresume : pipeline.settings.build.resume = false)
    (hbuild : (pipeline.buildShardsAlong schedule codebook (.ofList (texts.map .ok))).runOn
      progress tree = ((.ok (some segments), built), between))
    (hcount : segments.length < 0x100000000)
    (hmerge : (pipeline.merge codebook segments.length).runOn built between =
      ((.ok metadata, last), changed)) :
    (IndexProgram.readFile (Path.join pipeline.layout.root metadata.dataFile)).runOn changed =
        (.ok (codebook.indexData (texts.map vectorOf)), changed) ∧
      metadata.checksum = Fingerprint.of (codebook.indexData (texts.map vectorOf)) ∧
      metadata.cells = SegmentMerger.extentsFrom 0
        ((List.range codebook.cellCount).map (codebook.occupancy (texts.map vectorOf))) := by
  obtain ⟨start, outcomes, report, hrun, hresult⟩ := buildShardsAlong_ok hbuild
  have htexts : (Pass.ofList (texts.map (.ok : String → Except IndexError String))).toList =
      texts.map .ok := List.append_nil _
  rw [htexts, partitions_map_ok] at hrun
  obtain ⟨hlength, hbuilt⟩ := WorkerPool.runAlong_ok hmaps hresume hrun hresult
  obtain ⟨-, opened, hholds, hpublish⟩ := SegmentMerger.mergeInOrder_ok.mp (merge_ok hmerge)
  obtain ⟨-, ⟨createdAt, rfl⟩, hpublishes⟩ := SegmentMerger.mergeSegments_ok hpublish
  rw [List.length_range, Nat.mod_eq_of_lt hcount, hlength] at hholds
  obtain ⟨hcells, hdata⟩ := hholds.mergedCells_of_built hbuilt
  rw [flatten_chunks] at hcells hdata
  refine ⟨?_, congrArg Fingerprint.of hdata, ?_⟩
  · rw [IndexProgram.runOn_readFile, ← hdata,
      hpublishes.read_data (Metadata.isName_dataFileName _)]
  · have hlengths : ∀ cell, (codebook.entries 0 (texts.map vectorOf) cell).length /
        Posting.size codebook.codeSize = codebook.occupancy (texts.map vectorOf) cell := by
      intro cell
      rw [Codebook.length_entries, Nat.mul_div_cancel _ (Posting.size_pos _)]
    rw [SegmentMerger.cells_describe (hholds.fits (hholds.exact_of_built hbuilt)), hcells,
      List.map_map]
    exact congrArg _ (List.map_congr_left fun cell _ ↦ hlengths cell)

/-- A pipeline of two workers whose vectors have one component. -/
def smallPipeline : Pipeline :=
  ⟨{ Settings.default 2 with outputDirectory := "index" },
    fun _ ↦ pure (Encoder.hashed ⟨1, by decide⟩)⟩

/-- The second worker takes the one partition. -/
def smallSchedule : List Party :=
  List.replicate 3 .producer ++ List.replicate 8 (.worker 1)

/-- The build of two texts. -/
def smallBuild : (Except IndexError (Option (List SegmentSummary)) × Progress) × Tree :=
  (smallPipeline.buildShardsAlong smallSchedule SegmentMerger.smallCodebook
    (.ofList (["a", "b"].map .ok))).runOn (.start .trained) .empty

/-- The build ends with this many segments, and they can be merged to so many vectors. -/
def EndsMergeable (pipeline : Pipeline) (codebook : Codebook) (count total : Nat)
    (build : (Except IndexError (Option (List SegmentSummary)) × Progress) × Tree) : Prop :=
  build.1.1.toOption.bind (·.map List.length) = some count ∧ build.1.2.state = .shardsComplete ∧
    SegmentMerger.Mergeable ⟨pipeline.layout.root, codebook⟩ build.2 (count % 0x100000000) total

instance (pipeline : Pipeline) (codebook : Codebook) (count total : Nat)
    (build : (Except IndexError (Option (List SegmentSummary)) × Progress) × Tree) :
    Decidable (EndsMergeable pipeline codebook count total build) :=
  inferInstanceAs (Decidable (_ ∧ _))

theorem EndsMergeable.exists_merged {pipeline : Pipeline} {codebook : Codebook} {count total : Nat}
    {build : (Except IndexError (Option (List SegmentSummary)) × Progress) × Tree}
    (hends : EndsMergeable pipeline codebook count total build) :
    ∃ segments built between metadata last changed,
      build = ((.ok (some segments), built), between) ∧ segments.length = count ∧
        (pipeline.merge codebook segments.length).runOn built between =
          ((.ok metadata, last), changed) ∧ metadata.vectorCount = total := by
  obtain ⟨hbuilt, hstate, hmergeable⟩ := hends
  obtain ⟨⟨result, built⟩, between⟩ := build
  obtain ⟨found, hfound, hlength⟩ := Option.bind_eq_some_iff.mp hbuilt
  obtain ⟨segments, rfl, rfl⟩ := Option.map_eq_some_iff.mp hlength
  obtain rfl := Result.toOption_eq_some.mp hfound
  obtain ⟨metadata, changed, hmerge, hcount⟩ := hmergeable.exists_merge
  obtain ⟨last, hmerged⟩ := exists_merged_of_merge hstate hmerge
  exact ⟨segments, built, between, metadata, last, changed, rfl, rfl, hmerged, hcount⟩

theorem exists_small_build : ∃ segments built between metadata last changed,
    smallBuild = ((.ok (some segments), built), between) ∧ segments.length < 0x100000000 ∧
      (smallPipeline.merge SegmentMerger.smallCodebook segments.length).runOn built between =
        ((.ok metadata, last), changed) := by
  have hends : EndsMergeable smallPipeline SegmentMerger.smallCodebook 1 2 smallBuild := by
    decide +kernel
  obtain ⟨segments, built, between, metadata, last, changed, hbuild, hlength, hmerge, -⟩ :=
    hends.exists_merged
  exact ⟨segments, built, between, metadata, last, changed, hbuild, by omega, hmerge⟩

/-- The same with a partition for each text. -/
def twinPipeline : Pipeline :=
  { smallPipeline with
    settings := { smallPipeline.settings with
      build := { smallPipeline.settings.build with partitionSize := 1 } } }

/-- The producer queues both partitions, and the second worker is done with its own first. -/
def twinSchedule : List Party :=
  List.replicate 5 .producer ++ [.worker 0] ++ List.replicate 9 (.worker 1) ++
    List.replicate 8 (.worker 0)

def twinStart : Tree := ⟨[(["index"], .directory)], 0⟩

/-- The pool and the store when the schedule is over. -/
def twinPool : PoolState × Tree :=
  StoreProgram.run (do
    let encoders ← twinPipeline.pool.createEncoders twinPipeline.factory
    Crew.follow ⟨twinPipeline.pool, SegmentMerger.smallCodebook, "index", encoders⟩ twinSchedule
      (.start 2 (partitions (["a", "b"].map .ok) 1))) twinStart

theorem runAlong_twin : (twinPipeline.pool.runAlong SegmentMerger.smallCodebook "index"
    twinPipeline.factory (partitions (["a", "b"].map .ok) 1) twinSchedule).run twinStart =
      (twinPool.1.report?, twinPool.2) := by
  unfold WorkerPool.runAlong twinPool
  simp only [StoreProgram.run_bind, StoreProgram.run_pure]
  rfl

theorem exists_twin_report : ∃ outcomes report segments,
    twinPool.1.report? = some (outcomes, .ok report) ∧ report.result = .ok segments ∧
      twinPool.1.outcomes.map (·.partition) = [1, 0] ∧ segments.length = 2 := by
  have hdone : twinPool.1.production.failure?.map (·.isNone) = some true ∧
      twinPool.1.queue.isEmpty = true ∧ twinPool.1.activities.all (·.isIdle) = true ∧
      twinPool.1.outcomes.map (·.partition) = [1, 0] ∧
      twinPool.1.outcomes.all (·.result.toOption.isSome) = true := by
    decide +kernel
  generalize twinPool.1 = state at hdone ⊢
  obtain ⟨hended, hqueue, hidle, hcame, hbuilt⟩ := hdone
  obtain ⟨failure, hfailure, hnone⟩ := Option.map_eq_some_iff.mp hended
  obtain rfl := Option.isNone_iff_eq_none.mp hnone
  have hrest : state.IsAtRest := ⟨List.isEmpty_iff.mp hqueue, fun activity hactivity ↦
    Activity.isIdle_iff.mp (List.all_eq_true.mp hidle activity hactivity)⟩
  have hperm := List.mergeSort_perm state.outcomes (fun a b ↦ a.partition ≤ b.partition)
  obtain ⟨segments, hresult⟩ := PoolReport.exists_result fun outcome houtcome ↦ by
    have hsome := List.all_eq_true.mp hbuilt outcome (hperm.mem_iff.mp houtcome)
    obtain ⟨summary, hsummary⟩ := Option.isSome_iff_exists.mp hsome
    exact ⟨summary, Result.toOption_eq_some.mp hsummary⟩
  refine ⟨_, _, segments, PoolState.report?_eq_some.mpr ⟨none, hfailure, hrest, rfl, rfl⟩, hresult,
    hcame, ?_⟩
  rw [(PoolReport.result_ok hresult).1, hperm.length_eq]
  simpa using congrArg List.length hcame

theorem exists_twin_merge : ∃ metadata changed,
    (SegmentMerger.merge ⟨"index", SegmentMerger.smallCodebook⟩ 2).runOn twinPool.2 =
      (.ok metadata, changed) := by
  have hmergeable : SegmentMerger.Mergeable ⟨"index", SegmentMerger.smallCodebook⟩ twinPool.2 2 2 := by
    decide +kernel
  obtain ⟨metadata, changed, hmerge, -⟩ := hmergeable.exists_merge
  exact ⟨metadata, changed, hmerge⟩

/-- The second partition is done first, and the data are those of the vectors of the two texts in
their order. -/
theorem merge_buildShardsAlong_small : twinPool.1.outcomes.map (·.partition) = [1, 0] ∧
    ∃ segments built between metadata last changed,
      (twinPipeline.buildShardsAlong twinSchedule SegmentMerger.smallCodebook
        (.ofList (["a", "b"].map .ok))).runOn (.start .trained) twinStart =
          ((.ok (some segments), built), between) ∧ segments.length = 2 ∧
      (twinPipeline.merge SegmentMerger.smallCodebook segments.length).runOn built between =
        ((.ok metadata, last), changed) ∧
      (IndexProgram.readFile (Path.join "index" metadata.dataFile)).runOn changed =
        (.ok (SegmentMerger.smallCodebook.indexData
          (["a", "b"].map (Encoder.hashedVector ⟨1, by decide⟩))), changed) := by
  obtain ⟨outcomes, report, segments, hreport, hresult, hcame, hlength⟩ := exists_twin_report
  obtain ⟨metadata, changed, hmerged⟩ := exists_twin_merge
  have hmaps : twinPipeline.factory.Maps (Encoder.hashedVector ⟨1, by decide⟩) := by
    intro worker tree encoder hencoder
    obtain rfl := Except.ok.inj hencoder
    exact Encoder.maps_hashed _
  have hentering : twinPipeline.enterShards.runOn (.start .trained) twinStart =
      ((.ok (), .start .shardsBuilding), twinStart) := rfl
  have hpool := runAlong_twin
  rw [hreport] at hpool
  have hpieces : (Pass.ofList (["a", "b"].map (.ok : String → Except IndexError String))).toList =
      ["a", "b"].map .ok := List.append_nil _
  rw [← hpieces] at hpool
  obtain ⟨built, hbuild, hcomplete⟩ :=
    exists_built_of_runAlong hentering hpool hresult rfl
  obtain ⟨last, hmerge⟩ : ∃ last,
      (twinPipeline.merge SegmentMerger.smallCodebook segments.length).runOn built twinPool.2 =
        ((.ok metadata, last), changed) :=
    exists_merged_of_merge hcomplete (hlength ▸ hmerged)
  exact ⟨hcame, segments, built, _, metadata, last, changed, hbuild, hlength, hmerge,
    (merge_buildShardsAlong hmaps rfl hbuild (by omega) hmerge).1⟩

end Pipeline
end VectorIndex
