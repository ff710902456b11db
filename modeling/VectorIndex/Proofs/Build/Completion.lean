import VectorIndex.Proofs.Build.Acceptance
import VectorIndex.Proofs.Build.Lifecycle
import VectorIndex.Proofs.Build.Output
import VectorIndex.Proofs.Search.Bounds

/-!
# From segments to an engine

Once all segments of a stream are built, nothing but a file that cannot be written stops the merge,
and what is merged can be served. The one exception is the stream without texts: its merge publishes
an index of no vectors, and no index of no vectors is loaded.
-/

namespace VectorIndex

/-! ## Streams whose segments were built -/

/-- Chunks that all become partitions have no errors in them. -/
theorem Partition.exists_pieces_of_firstError? {index : PartitionIndex} {base : DocumentId}
    {pieces : List (List (Except IndexError String))}
    (hnone : firstError? (numbered index base pieces) = none) :
    ∃ items : List (List String), pieces = items.map (·.map .ok) := by
  induction pieces generalizing index base with
  | nil => exact ⟨[], rfl⟩
  | cons piece rest ih =>
    rw [numbered] at hnone
    cases hpiece : collect piece with
    | error error =>
      rw [hpiece] at hnone
      cases hnone
    | ok items =>
      rw [hpiece] at hnone
      obtain ⟨others, rfl⟩ := ih hnone
      exact ⟨items :: others, by rw [collect_eq_ok.mp hpiece, List.map_cons]⟩

theorem exists_items_of_partitions {texts : List (Except IndexError String)} {size : Nat}
    (hnone : Partition.firstError? (partitions texts size) = none) :
    ∃ items : List String, texts = items.map .ok := by
  obtain ⟨items, hitems⟩ := Partition.exists_pieces_of_firstError? hnone
  refine ⟨items.flatten, ?_⟩
  rw [← flatten_chunks size texts, hitems, List.map_flatten]

/-- A pool that reports has come to the end of its stream. -/
theorem WorkerPool.firstError?_of_runAlong {pool : WorkerPool} {codebook : Codebook}
    {directory : Path} {factory : EncoderFactory} {stream : List (Except IndexError Partition)}
    {schedule : List Party} {start changed : Tree} {outcomes : List Outcome} {made : PoolReport}
    (hrun : (pool.runAlong codebook directory factory stream schedule).run start =
      (some (outcomes, .ok made), changed)) : Partition.firstError? stream = none := by
  unfold runAlong at hrun
  rw [StoreProgram.run_bind, StoreProgram.run_bind, StoreProgram.run_pure] at hrun
  obtain ⟨hreport, -⟩ := (PoolState.report_cases (Prod.mk.inj hrun).1).resolve_left nofun
  rw [Crew.ending_follow] at hreport
  change _ = PoolReport.ofOutcomes outcomes (Partition.firstError? stream) at hreport
  cases hfirst : Partition.firstError? stream with
  | none => rfl
  | some error =>
    rw [hfirst] at hreport
    cases hreport

namespace Pipeline

open BuildProgram (runOn_bind_ok)

variable {pipeline : Pipeline} {settings : TrainingSettings} {sample : List Vec}
  {codebook : Codebook} {schedule : List Party} {texts : Pass (Except IndexError String)}
  {segments : List SegmentSummary} {progress built : Progress} {tree between : Tree}

theorem exists_items_of_buildShardsAlong
    (hbuild : (pipeline.buildShardsAlong schedule codebook texts).runOn progress tree =
      ((.ok (some segments), built), between)) :
    ∃ items : List String, texts.toList = items.map .ok := by
  obtain ⟨start, outcomes, report, hrun, -⟩ := buildShardsAlong_ok hbuild
  exact exists_items_of_partitions (WorkerPool.firstError?_of_runAlong hrun)

/-- Only the texts of a pass count. -/
theorem buildShardsAlong_eq_ofList {items : List String} (hitems : texts.toList = items.map .ok) :
    pipeline.buildShardsAlong schedule codebook texts =
      pipeline.buildShardsAlong schedule codebook (.ofList (items.map .ok)) := by
  have hsame : (Pass.ofList (items.map (.ok : String → Except IndexError String))).toList =
      items.map .ok := List.append_nil _
  unfold buildShardsAlong
  rw [hitems, hsame]

theorem state_of_built (hbuild : (pipeline.buildShardsAlong schedule codebook texts).runOn progress
      tree = ((.ok (some segments), built), between)) : built.state = .shardsComplete := by
  have hstate : progress.state = .trained := by
    by_cases hnext : progress.state.next = some .shardsBuilding
    · exact BuildState.eq_of_next hnext rfl
    · rw [buildShardsAlong_refused schedule codebook texts hnext] at hbuild
      cases hbuild
  rcases state_buildShardsAlong hstate hbuild with ⟨_, -, hcomplete⟩ | ⟨hnone, -⟩
  · exact hcomplete
  · exact absurd rfl (hnone segments)

/-- The codebook is still there after the build. -/
theorem load_codebook_of_built (hquiet : pipeline.factory.IsQuiet)
    (htrain : Codebook.train settings sample = .ok codebook) (hfields : codebook.FitsFields)
    (hsaved : tree.read pipeline.layout.codebook = .ok codebook.toBytes)
    (hbuild : (pipeline.buildShardsAlong schedule codebook texts).runOn progress tree =
      ((.ok (some segments), built), between)) :
    between.IsDirectory pipeline.directory ∧
      (Codebook.load pipeline.layout.codebook).runOn between = (.ok codebook, between) := by
  obtain ⟨hthere, hfile⟩ := (Tree.read_join Layout.isName_codebookFile).mp hsaved
  obtain ⟨items, hitems⟩ := exists_items_of_buildShardsAlong hbuild
  rw [buildShardsAlong_eq_ofList hitems] at hbuild
  have halters := buildShardsAlong_alters hquiet hthere hbuild
  have hdirectory := halters.directories _ hthere
  have hkept := (files_of_building halters (by decide) (by decide)).trans hfile
  obtain ⟨_, _, _, -, hparts⟩ := Codebook.exists_parts_of_train htrain
  have hbytes := Codebook.ofBytes_toBytes (Codebook.train_ok htrain).1
    (Codebook.dimension_pos_of_ofParts hparts) hfields
  exact ⟨hdirectory, Codebook.load_ok.mpr ⟨rfl, _,
    (Tree.read_join Layout.isName_codebookFile).mpr ⟨hdirectory, hkept⟩, hbytes⟩⟩

/-- The files hold segments that the merge takes, and these tile the ids of the texts. -/
theorem exists_holds_of_buildShardsAlong (hresume : pipeline.settings.build.resume = false)
    (hcomplete : codebook.IsComplete) (hfields : codebook.FitsFields)
    (hbuild : (pipeline.buildShardsAlong schedule codebook texts).runOn progress tree =
      ((.ok (some segments), built), between))
    (hdirectory : between.IsDirectory pipeline.directory)
    (hcount : segments.length < 0x100000000)
    (htexts : texts.toList.length < 0x10000000000000000) :
    ∃ opened, SegmentMerger.Holds ⟨pipeline.layout.root, codebook⟩ between segments.length opened ∧
      (∀ segment ∈ opened, segment.IsExact) ∧
      SegmentMerger.totalCount opened = texts.toList.length ∧
        checkTiling (opened.map (·.idRange)) (SegmentMerger.totalCount opened) = .ok () := by
  obtain ⟨items, hitems⟩ := exists_items_of_buildShardsAlong hbuild
  obtain ⟨start, outcomes, report, hrun, hresult⟩ := buildShardsAlong_ok hbuild
  rw [hitems, partitions_map_ok] at hrun
  obtain ⟨hlength, hall⟩ := WorkerPool.runAlong_segments hresume hrun hresult
  rw [hitems, List.length_map] at htexts ⊢
  rw [← flatten_chunks pipeline.settings.build.partitionSize items] at htexts ⊢
  rw [hlength] at hcount ⊢
  let merger : SegmentMerger := ⟨pipeline.layout.root, codebook⟩
  have hcodebook : merger.codebook.IsComplete := hcomplete
  have hbuilt : ∀ partition ∈ Partition.ofItems 0 0 (chunks pipeline.settings.build.partitionSize
      items), ∃ encoder contents,
      Shard.segmentBytes? codebook encoder pipeline.pool.batchSize partition = some contents ∧
        between.files (pipeline.directory ++ [segmentName partition.index]) = some contents := by
    intro partition hpartition
    obtain ⟨encoder, contents, -, hcontents⟩ := hall partition hpartition
    exact ⟨encoder, contents, hcontents⟩
  exact SegmentMerger.exists_holds_of_built hcodebook hfields hdirectory hcount htexts hbuilt

/-- Segments that tile the ids are merged unless a file cannot be written. -/
theorem merge_cases_of_holds {opened : List Segment}
    (hstate : built.state = .shardsComplete) {count : Nat} (hcount : count < 0x100000000)
    (hholds : SegmentMerger.Holds ⟨pipeline.layout.root, codebook⟩ between count opened)
    (htiling : checkTiling (opened.map (·.idRange)) (SegmentMerger.totalCount opened) = .ok ()) :
    (∃ path fault changed, (pipeline.merge codebook count).runOn built between =
      ((.error (.fileWrite path fault), built), changed)) ∨
    ∃ metadata changed, (pipeline.merge codebook count).runOn built between =
        ((.ok metadata, { built with state := .merged }), changed) ∧
      (SegmentMerger.mergeSegments ⟨pipeline.layout.root, codebook⟩ opened).runOn between =
        (.ok metadata, changed) := by
  let merger : SegmentMerger := ⟨pipeline.layout.root, codebook⟩
  have hlength : (List.range (count % 0x100000000)).length = count := by
    rw [List.length_range, Nat.mod_eq_of_lt hcount]
  have horder : (List.range (count % 0x100000000)).Perm
      (List.range (List.range (count % 0x100000000)).length) := by
    rw [List.length_range]
  have hsame : (merger.merge count).runOn between = (merger.mergeSegments opened).runOn between :=
    SegmentMerger.runOn_mergeInOrder horder (hlength.symm ▸ hholds)
  -- Behind the checks of the segments a merge can fail for the tiling or for a write, and the tiling
  -- is known.
  have hraises : IndexProgram.Raises (fun error ↦ ∃ path fault, error = .fileWrite path fault)
      (merger.mergeSegments opened) := by
    refine SegmentMerger.raises_mergeSegments (fun path fault ↦ ⟨path, fault, rfl⟩) merger ?_
    intro fault hfault
    rw [htiling] at hfault
    cases hfault
  rw [merge_eq_guarded, runOn_guarded _ rfl hstate, hsame]
  rcases hrun : (merger.mergeSegments opened).runOn between with ⟨published, changed⟩
  cases published with
  | error error =>
    obtain ⟨path, fault, rfl⟩ := hraises.runOn (congrArg Prod.fst hrun)
    exact .inl ⟨path, fault, changed, rfl⟩
  | ok metadata => exact .inr ⟨metadata, changed, rfl, rfl⟩

/-- After all segments of a stream were built anew with a trained codebook that is in the directory,
the merge succeeds unless a file cannot be written. When it does, the index can be served if the
stream had texts, and loading refuses it if the stream had none. Partitions are numbered in 32 bits
and ids in 64. -/
theorem openEngine_after_merge (hquiet : pipeline.factory.IsQuiet)
    (hresume : pipeline.settings.build.resume = false)
    (htrain : Codebook.train settings sample = .ok codebook) (hfields : codebook.FitsFields)
    (hsaved : tree.read pipeline.layout.codebook = .ok codebook.toBytes)
    (hbuild : (pipeline.buildShardsAlong schedule codebook texts).runOn progress tree =
      ((.ok (some segments), built), between))
    (hcount : segments.length < 0x100000000)
    (htexts : texts.toList.length < 0x10000000000000000) :
    (∃ path fault last changed, (pipeline.merge codebook segments.length).runOn built between =
      ((.error (.fileWrite path fault), last), changed)) ∨
    ∃ metadata last changed, (pipeline.merge codebook segments.length).runOn built between =
        ((.ok metadata, last), changed) ∧
      metadata.vectorCount = texts.toList.length ∧
      (texts.toList ≠ [] → ∃ engine served,
        pipeline.openEngine.runOn last changed = ((.ok engine, served), changed) ∧
          engine.metadata = metadata ∧ engine.codebook = codebook) ∧
      (texts.toList = [] → pipeline.openEngine.runOn last changed =
        ((.error (.indexCorrupt (pipeline.layout.mergedData metadata) "index holds no vectors"),
          last), changed)) := by
  obtain ⟨hdirectory, hcodebook⟩ := load_codebook_of_built hquiet htrain hfields hsaved hbuild
  obtain ⟨opened, hholds, hexact, htotal, htiling⟩ := exists_holds_of_buildShardsAlong hresume
    (Codebook.isComplete_of_train htrain) hfields hbuild hdirectory hcount htexts
  rcases merge_cases_of_holds (state_of_built hbuild) hcount hholds htiling with
    ⟨path, fault, changed, hfailed⟩ | ⟨metadata, changed, hmerged, hrun⟩
  · exact .inl ⟨path, fault, built, changed, hfailed⟩
  obtain ⟨-, ⟨createdAt, rfl⟩, hpublishes⟩ := SegmentMerger.mergeSegments_ok hrun
  have hstate : { built with state := .merged }.state = .merged := rfl
  have hopen := runOn_guarded
    (QueryEngine.load pipeline.layout.root pipeline.settings.search.probes) rfl hstate changed
  rw [← openEngine_eq_guarded] at hopen
  refine .inr ⟨_, _, changed, hmerged, htotal, fun hne ↦ ?_, fun hnil ↦ ?_⟩
  · have hpositive := List.length_pos_iff.mpr hne
    have hverified := QueryEngine.verified_of_publishes hholds hexact htiling (by omega)
      hcodebook hpublishes (max pipeline.settings.search.probes 1)
    have hload : (QueryEngine.load pipeline.layout.root pipeline.settings.search.probes).runOn
        changed = (.ok _, changed) := QueryEngine.load_ok.mpr ⟨rfl, rfl, rfl, hverified⟩
    rw [hload] at hopen
    exact ⟨_, _, hopen, rfl, rfl⟩
  · have hdescribed := QueryEngine.described_of_publishes hholds hexact htiling hcodebook
      hpublishes
    have hvectors : SegmentMerger.totalCount opened = 0 := by rw [htotal, hnil, List.length_nil]
    rw [QueryEngine.load_of_no_vectors hdescribed hvectors] at hopen
    exact hopen

def loneSettings : TrainingSettings := ⟨1, 1, 1, 0, 1, 1⟩

def loneSample : List Vec := [[.one]]

/-- A directory in which a codebook of one cell was trained. -/
def trainedTree : Tree :=
  ((Codebook.trainAndSave loneSettings loneSample
    "index/trained.index").runOn ⟨[(["index"], .directory)], 0⟩).2

def trainedBuild (codebook : Codebook) (items : List String) :
    (Except IndexError (Option (List SegmentSummary)) × Progress) × Tree :=
  (smallPipeline.buildShardsAlong smallSchedule codebook (.ofList (items.map .ok))).runOn
    (.start .trained) trainedTree

theorem exists_trained : ∃ codebook,
    Codebook.train loneSettings loneSample = .ok codebook ∧
      codebook.FitsFields ∧
      trainedTree.read smallPipeline.layout.codebook = .ok codebook.toBytes ∧
      EndsMergeable smallPipeline codebook 1 2 (trainedBuild codebook ["a", "b"]) ∧
      EndsMergeable smallPipeline codebook 0 0 (trainedBuild codebook []) := by
  have hmade : (Codebook.train loneSettings loneSample).toOption.map
      (fun codebook ↦ (decide codebook.FitsFields,
        decide ((trainedTree.read smallPipeline.layout.codebook).toOption = some codebook.toBytes),
        decide (EndsMergeable smallPipeline codebook 1 2 (trainedBuild codebook ["a", "b"])),
        decide (EndsMergeable smallPipeline codebook 0 0 (trainedBuild codebook [])))) =
      some (true, true, true, true) := by
    decide +kernel
  obtain ⟨codebook, htrain, heq⟩ := Option.map_eq_some_iff.mp hmade
  simp only [Prod.mk.injEq, decide_eq_true_iff] at heq
  obtain ⟨hfields, hread, htexts, hempty⟩ := heq
  exact ⟨codebook, Result.toOption_eq_some.mp htrain, hfields, Result.toOption_eq_some.mp hread,
    htexts, hempty⟩

/-- With one trained codebook, the index of two texts can be served and that of none is refused. -/
theorem openEngine_after_merge_trained : ∃ codebook : Codebook,
    (∃ segments built between metadata last changed engine served,
      trainedBuild codebook ["a", "b"] = ((.ok (some segments), built), between) ∧
      (smallPipeline.merge codebook segments.length).runOn built between =
        ((.ok metadata, last), changed) ∧
      smallPipeline.openEngine.runOn last changed = ((.ok engine, served), changed) ∧
      engine.metadata.vectorCount = 2) ∧
    ∃ segments built between metadata last changed,
      trainedBuild codebook [] = ((.ok (some segments), built), between) ∧
      (smallPipeline.merge codebook segments.length).runOn built between =
        ((.ok metadata, last), changed) ∧
      smallPipeline.openEngine.runOn last changed = ((.error (.indexCorrupt
        (smallPipeline.layout.mergedData metadata) "index holds no vectors"), last), changed) := by
  obtain ⟨codebook, htrain, hfields, hsaved, htexts, hempty⟩ := exists_trained
  have hquiet : smallPipeline.factory.IsQuiet := fun _ _ ↦ rfl
  refine ⟨codebook, ?_, ?_⟩
  · obtain ⟨segments, built, between, metadata, last, changed, hbuild, hlength, hmerge, -⟩ :=
      htexts.exists_merged
    have hcount : segments.length < 0x100000000 := by omega
    obtain ⟨path, fault, last', changed', hfailed⟩ | ⟨metadata', last', changed', hmerged, hvectors,
        hserves, -⟩ := openEngine_after_merge hquiet rfl htrain hfields hsaved hbuild hcount (by decide)
    · rw [hmerge] at hfailed
      cases hfailed
    rw [hmerge] at hmerged
    cases hmerged
    obtain ⟨engine, served, hopen, hmetadata, -⟩ := hserves (by decide)
    exact ⟨segments, built, between, metadata, last, changed, engine, served, hbuild, hmerge, hopen,
      by rw [hmetadata, hvectors]; rfl⟩
  · obtain ⟨segments, built, between, metadata, last, changed, hbuild, hlength, hmerge, -⟩ :=
      hempty.exists_merged
    have hcount : segments.length < 0x100000000 := by omega
    obtain ⟨path, fault, last', changed', hfailed⟩ | ⟨metadata', last', changed', hmerged, -, -,
        hrefused⟩ := openEngine_after_merge hquiet rfl htrain hfields hsaved hbuild hcount (by decide)
    · rw [hmerge] at hfailed
      cases hfailed
    rw [hmerge] at hmerged
    cases hmerged
    exact ⟨segments, built, between, metadata, last, changed, hbuild, hmerge, hrefused rfl⟩

end Pipeline
end VectorIndex
