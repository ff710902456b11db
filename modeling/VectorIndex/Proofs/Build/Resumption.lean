import VectorIndex.Proofs.Build.Alignment
import VectorIndex.Proofs.Search.Recovery

/-!
# Builds that are resumed

Whatever a build leaves of its codebook and its segments when it fails is what a complete build
would have made of them. So a later build of the same corpus may keep what it finds: it ends with
the files that a build from nothing ends with.
-/

namespace VectorIndex

open BuildProgram (runOn_bind_cases runOn_bind_ok runOn_lift_eq)

/-! ## Segments and merges are determined -/

section

variable {codebook : Codebook} {vectorOf : String → Vec} {batchSize : Nat} {partition : Partition}
  {directory : Path} {tree changed : Tree}

/-- All encoders of the same vectors make the same segment of a partition. -/
theorem Shard.segmentBytes?_unique {first second : Encoder} (hfirst : first.Maps vectorOf)
    (hsecond : second.Maps vectorOf) {contents others : Bytes}
    (hcontents : segmentBytes? codebook first batchSize partition = some contents)
    (hothers : segmentBytes? codebook second batchSize partition = some others) :
    contents = others := by
  unfold segmentBytes? at hcontents hothers
  cases hencode : encode codebook first batchSize partition with
  | error interruption => simp [hencode, Except.toOption] at hcontents
  | ok pushes =>
    cases hagain : encode codebook second batchSize partition with
    | error interruption => simp [hagain, Except.toOption] at hothers
    | ok again =>
      rw [hencode, encode_ok hfirst hencode] at hcontents
      rw [hagain, encode_ok hsecond hagain] at hothers
      exact Option.some.inj (hcontents.symm.trans hothers)

/-- A segment stays built as long as its file does. -/
theorem Partition.IsBuilt.of_files
    (hbuilt : partition.IsBuilt codebook directory vectorOf batchSize tree)
    (hfiles : changed.files (Location.ofDirectory directory ++ [segmentName partition.index]) =
      tree.files (Location.ofDirectory directory ++ [segmentName partition.index])) :
    partition.IsBuilt codebook directory vectorOf batchSize changed := by
  obtain ⟨encoder, contents, hmaps, hcontents, hfile⟩ := hbuilt
  exact ⟨encoder, contents, hmaps, hcontents, hfiles.trans hfile⟩

theorem Partition.IsBuilt.files_eq
    (hfirst : partition.IsBuilt codebook directory vectorOf batchSize tree)
    (hsecond : partition.IsBuilt codebook directory vectorOf batchSize changed) :
    tree.files (Location.ofDirectory directory ++ [segmentName partition.index]) =
      changed.files (Location.ofDirectory directory ++ [segmentName partition.index]) := by
  obtain ⟨encoder, contents, hmaps, hcontents, hfile⟩ := hfirst
  obtain ⟨another, others, hother, hothers, hthere⟩ := hsecond
  rw [hfile, hthere, Shard.segmentBytes?_unique hmaps hother hcontents hothers]

end

namespace SegmentMerger

variable {merger : SegmentMerger} {tree other changed final : Tree} {count : Nat}

/-- A segment that is accepted is determined by its file. -/
theorem Accepts.eq_of_files {partition : PartitionIndex} {first second : Segment}
    (hfirst : merger.Accepts tree partition first) (hsecond : merger.Accepts other partition second)
    (hfiles : tree.files (Location.ofDirectory merger.directory ++ [segmentName partition]) =
      other.files (Location.ofDirectory merger.directory ++ [segmentName partition])) :
    first = second := by
  obtain ⟨⟨contents, hread, hopen⟩, -⟩ := hfirst
  obtain ⟨⟨others, hthere, hagain⟩, -⟩ := hsecond
  rw [segmentPath_eq_join, Tree.read_join (isName_segmentName partition)] at hread hthere
  rw [hread.2, hthere.2] at hfiles
  obtain rfl := Option.some.inj hfiles
  exact Except.ok.inj (hopen.symm.trans hagain)

theorem Holds.eq_of_files {first second : List Segment} (hfirst : merger.Holds tree count first)
    (hsecond : merger.Holds other count second)
    (hfiles : ∀ number,
      tree.files (Location.ofDirectory merger.directory ++ [segmentName number]) =
        other.files (Location.ofDirectory merger.directory ++ [segmentName number])) :
    first = second :=
  hfirst.eq_of_accepts hsecond fun hhere hthere ↦ hhere.eq_of_files hthere (hfiles _)

/-- Of what a merge publishes, only the time depends on more than the segments. -/
theorem merge_eq_of_files {metadata described : Metadata}
    (hfirst : (merger.merge count).runOn tree = (.ok metadata, changed))
    (hsecond : (merger.merge count).runOn other = (.ok described, final))
    (hfiles : ∀ number,
      tree.files (Location.ofDirectory merger.directory ++ [segmentName number]) =
        other.files (Location.ofDirectory merger.directory ++ [segmentName number])) :
    described = { metadata with createdAt := described.createdAt } ∧
      changed.files (Location.ofDirectory merger.directory ++ [metadata.dataFile]) =
        final.files (Location.ofDirectory merger.directory ++ [metadata.dataFile]) := by
  obtain ⟨-, segments, hholds, hpublish⟩ := mergeInOrder_ok.mp hfirst
  obtain ⟨-, others, hothers, hagain⟩ := mergeInOrder_ok.mp hsecond
  obtain rfl := hholds.eq_of_files hothers hfiles
  obtain ⟨-, ⟨createdAt, rfl⟩, hpublishes⟩ := mergeSegments_ok hpublish
  obtain ⟨-, ⟨later, rfl⟩, hpublished⟩ := mergeSegments_ok hagain
  exact ⟨rfl, hpublishes.data_eq.trans hpublished.data_eq.symm⟩

theorem metadata_of_merge {metadata : Metadata}
    (hrun : (merger.merge count).runOn tree = (.ok metadata, changed)) :
    changed.files (Location.ofDirectory merger.directory ++ [Metadata.fileName]) =
      some metadata.toBytes := by
  obtain ⟨-, segments, -, hpublish⟩ := mergeInOrder_ok.mp hrun
  exact (mergeSegments_ok hpublish).2.2.metadata_eq

/-- A merge that nothing is refused ends in a store that is safe. -/
theorem exists_safe_runOn_merge (merger : SegmentMerger) (count : Nat) (tree : Tree) :
    ∃ committed, (merger.watch (fun _ ↦ false) (List.range (count % 0x100000000)).length
      tree).safe committed ((merger.merge count).runOn tree).2 := by
  have hstart := merger.prepared_self (List.range (count % 0x100000000)).length tree
  obtain ⟨history, hreaches⟩ := StoreProgram.exists_reaches_run (fun _ ↦ false)
    (ExceptT.run (merger.merge count)) tree
  exact ⟨_, ((merger.mergeInOrder_withstands (fun _ ↦ false) _ tree).reaches hstart hreaches).1⟩

theorem directories_runOn_merge (merger : SegmentMerger) (count : Nat) (tree : Tree)
    {location : Location} (hdirectory : tree.IsDirectory location) :
    ((merger.merge count).runOn tree).2.IsDirectory location := by
  obtain ⟨committed, hsafe⟩ := merger.exists_safe_runOn_merge count tree
  exact directories_of_safe hsafe hdirectory

/-- Whatever comes of a merge, it leaves all files but the metadata, the data and what it stages. -/
theorem files_runOn_merge (merger : SegmentMerger) (count : Nat) (tree : Tree) {name : String}
    (hhead : name.toList.head? ≠ some '.') (hmetadata : name ≠ Metadata.fileName)
    (hsuffix : ¬ Metadata.dataSuffix.toList <:+ name.toList) :
    ((merger.merge count).runOn tree).2.files (Location.ofDirectory merger.directory ++ [name]) =
      tree.files (Location.ofDirectory merger.directory ++ [name]) := by
  obtain ⟨committed, hsafe⟩ := merger.exists_safe_runOn_merge count tree
  exact files_of_safe hsafe hhead hmetadata hsuffix

end SegmentMerger

theorem Tree.files_of_read {tree : Tree} {path : Path} {location : Location} {contents : Bytes}
    (hpath : Location.ofPath path = some location) (hread : tree.read path = .ok contents) :
    tree.files location = some contents := by
  obtain ⟨modified, hlookup⟩ := read_ok.mp hread
  exact files_eq_some.mpr ⟨modified, ((lookup_eq_ok hpath).mp hlookup).2.1⟩

/-- The same settings for a build that keeps what is already there. -/
def Settings.resuming (settings : Settings) : Settings :=
  { settings with build := { settings.build with resume := true } }

/-- No file is in the directory. -/
def Tree.Vacant (tree : Tree) (directory : Location) : Prop :=
  ∀ name, tree.files (directory ++ [name]) = none

namespace Pipeline

variable {pipeline other : Pipeline} {corpus : Corpus} {vectorOf : String → Vec}
  {items : List String} {records : List Record} {codebook : Codebook} {schedule : List Party}
  {progress last : Progress} {start mapped trained built tree changed : Tree}

/-- A merge in a build is refused or it is the merge of the directory. -/
theorem changed_of_merge {count : Nat} {result : Except IndexError Metadata}
    (hrun : (pipeline.merge codebook count).runOn progress tree = ((result, last), changed)) :
    changed = tree ∨
      ((SegmentMerger.merge ⟨pipeline.layout.root, codebook⟩ count).runOn tree).2 = changed := by
  unfold merge at hrun
  rw [BuildProgram.runOn_bind, BuildProgram.runOn_require] at hrun
  by_cases hstate : progress.state ≠ .shardsComplete
  · rw [if_pos hstate] at hrun
    cases hrun
    exact .inl rfl
  · rw [if_neg hstate] at hrun
    dsimp only at hrun
    refine .inr ?_
    rcases runOn_bind_cases hrun with ⟨error, hlift, -⟩ | ⟨metadata, later, merged, hlift, hadvance⟩
    · exact congrArg Prod.snd (runOn_lift_eq.mp hlift).1
    · have hlast := BuildProgram.runOn_advance_pure .merged metadata later merged
      rw [hadvance] at hlast
      exact (congrArg Prod.snd (runOn_lift_eq.mp hlift).1).trans hlast.symm

/-- Whatever comes of a merge in a build, it leaves all files but the metadata, the data and what it
stages. -/
theorem files_of_merge {count : Nat} {result : Except IndexError Metadata}
    (hrun : (pipeline.merge codebook count).runOn progress tree = ((result, last), changed))
    {name : String} (hhead : name.toList.head? ≠ some '.') (hmetadata : name ≠ Metadata.fileName)
    (hsuffix : ¬ Metadata.dataSuffix.toList <:+ name.toList) :
    changed.files (pipeline.directory ++ [name]) = tree.files (pipeline.directory ++ [name]) := by
  rcases changed_of_merge hrun with rfl | rfl
  · rfl
  · exact SegmentMerger.files_runOn_merge ⟨pipeline.layout.root, codebook⟩ count tree hhead
      hmetadata hsuffix

/-! ## What failed builds leave -/

/-- Everything that is there of a codebook and of segments is what the build of the texts makes. -/
structure Remains (pipeline : Pipeline) (vectorOf : String → Vec) (items : List String)
    (tree : Tree) : Prop where
  codebook_trained : ∀ contents,
    tree.files (pipeline.directory ++ [Layout.codebookFile]) = some contents →
      ∃ codebook, pipeline.Trains vectorOf items codebook ∧ contents = codebook.toBytes
  segments_built : ∀ number, tree.files (pipeline.directory ++ [segmentName number]) ≠ none →
    ∃ codebook, pipeline.Trains vectorOf items codebook ∧
      ∃ partition ∈ pipeline.partitionsOf items, partition.index = number ∧
        partition.IsBuilt codebook pipeline.layout.root vectorOf pipeline.pool.batchSize tree

theorem remains_of_vacant (hvacant : tree.Vacant pipeline.directory) :
    pipeline.Remains vectorOf items tree where
  codebook_trained contents hcontents := by
    rw [hvacant] at hcontents
    cases hcontents
  segments_built number hnumber := absurd (hvacant _) hnumber

/-- The segments remain as long as their files do, whatever becomes of the codebook. -/
theorem Remains.of_segments (hremains : pipeline.Remains vectorOf items tree)
    (hcodebook : ∀ contents,
      changed.files (pipeline.directory ++ [Layout.codebookFile]) = some contents →
        ∃ codebook, pipeline.Trains vectorOf items codebook ∧ contents = codebook.toBytes)
    (hsegments : ∀ number, changed.files (pipeline.directory ++ [segmentName number]) =
      tree.files (pipeline.directory ++ [segmentName number])) :
    pipeline.Remains vectorOf items changed where
  codebook_trained := hcodebook
  segments_built number hnumber := by
    rw [hsegments] at hnumber
    obtain ⟨codebook, htrains, partition, hpartition, rfl, hbuilt⟩ :=
      hremains.segments_built number hnumber
    exact ⟨codebook, htrains, partition, hpartition, rfl, hbuilt.of_files (hsegments _)⟩

theorem Remains.of_files (hremains : pipeline.Remains vectorOf items tree)
    (hcodebook : changed.files (pipeline.directory ++ [Layout.codebookFile]) =
      tree.files (pipeline.directory ++ [Layout.codebookFile]))
    (hsegments : ∀ number, changed.files (pipeline.directory ++ [segmentName number]) =
      tree.files (pipeline.directory ++ [segmentName number])) :
    pipeline.Remains vectorOf items changed :=
  hremains.of_segments (fun contents h ↦ hremains.codebook_trained contents (hcodebook ▸ h))
    hsegments

/-- Publishing another file leaves what there is. -/
theorem Remains.replaces {name : String} {contents : Bytes}
    (hremains : pipeline.Remains vectorOf items tree)
    (hreplaces : tree.Replaces changed pipeline.directory (pipeline.directory ++ [name]) contents)
    (hcodebook : Layout.codebookFile ≠ name) (hsegment : ∀ number, segmentName number ≠ name) :
    pipeline.Remains vectorOf items changed :=
  hremains.of_files (hreplaces.files_other (by decide) hcodebook)
    fun number ↦ hreplaces.files_other (head_segmentName number) (hsegment number)

theorem Remains.of_mapped (hremains : pipeline.Remains vectorOf items start)
    (hmapped : pipeline.Mapped corpus records start mapped) :
    pipeline.Remains vectorOf items mapped := by
  apply hremains.of_files
  · rw [hmapped.becomes.files_eq]
    exact Files.put_other _ _ (by simp [Layout.mappingFile, Layout.codebookFile])
  · intro number
    rw [hmapped.becomes.files_eq]
    exact Files.put_other _ _ (by simpa using segmentName_ne number (by decide))

/-- Training replaces the codebook by what it trains, if anything. -/
theorem Remains.of_train (hmaps : pipeline.factory.Maps vectorOf)
    (hquiet : pipeline.factory.IsQuiet) (hremains : pipeline.Remains vectorOf items tree)
    {result : Except IndexError Codebook}
    (hrun : (pipeline.train (.ofList (items.map .ok))).runOn progress tree =
      ((result, last), changed)) :
    pipeline.Remains vectorOf items changed := by
  have hreplaces := train_replaces hmaps hquiet items progress tree
  rw [hrun] at hreplaces
  rcases hreplaces with rfl | ⟨codebook, htrains, hreplaces⟩
  · exact hremains
  refine hremains.of_segments (fun contents hcontents ↦ ?_)
    fun number ↦ hreplaces.files_other (head_segmentName number) (segmentName_ne number (by decide))
  have hhead : Layout.codebookFile.toList.head? ≠ some '.' := by decide
  rcases hreplaces.files_eq _ (SegmentMerger.ne_temporary hhead) with hsame | ⟨-, hwritten⟩
  · exact hremains.codebook_trained contents (hsame ▸ hcontents)
  · exact ⟨codebook, htrains, Option.some.inj (hcontents.symm.trans hwritten)⟩

theorem Remains.of_leaves (hremains : pipeline.Remains vectorOf items tree)
    (htrains : pipeline.Trains vectorOf items codebook)
    (hleaves : pipeline.pool.Leaves codebook pipeline.layout.root vectorOf
      (pipeline.partitionsOf items) tree changed) :
    pipeline.Remains vectorOf items changed := by
  refine ⟨fun contents hcontents ↦ ?_, fun number hnumber ↦ ?_⟩
  · exact hremains.codebook_trained contents
      ((hleaves.files_other (by decide) (by decide)).symm.trans hcontents)
  rcases hleaves.segments number with hsame | ⟨partition, hpartition, hindex, hbuilt⟩
  · obtain ⟨found, hfound, partition, hpartition, rfl, hbuilt⟩ :=
      hremains.segments_built number (hsame ▸ hnumber)
    exact ⟨found, hfound, partition, hpartition, rfl, hbuilt.of_files hsame⟩
  · exact ⟨codebook, htrains, partition, hpartition, hindex, hbuilt⟩

theorem Remains.of_merge (hremains : pipeline.Remains vectorOf items tree) {count : Nat}
    {result : Except IndexError Metadata}
    (hrun : (pipeline.merge codebook count).runOn progress tree = ((result, last), changed)) :
    pipeline.Remains vectorOf items changed :=
  hremains.of_files
    (files_of_merge hrun (by decide) (by decide) Layout.not_dataSuffix_codebookFile)
    fun number ↦ files_of_merge hrun (head_segmentName number) (segmentName_ne number (by decide))
      (not_dataSuffix_segmentName number)

/-- The codebook of a build is the one that it would train, whether it has kept it or not. -/
theorem Remains.of_trained (hremains : pipeline.Remains vectorOf items mapped)
    (htrained : pipeline.Trained vectorOf items codebook mapped trained) :
    pipeline.Trains vectorOf items codebook ∧
      trained.files (pipeline.directory ++ [Layout.codebookFile]) = some codebook.toBytes ∧
      pipeline.Remains vectorOf items trained := by
  rcases htrained.origin with ⟨-, rfl, hload, hmatches⟩ | ⟨htrains, hbecomes⟩
  · obtain ⟨-, bytes, hread, hbytes⟩ := Codebook.load_ok.mp hload
    have hfile := ((Tree.read_join Layout.isName_codebookFile).mp hread).2
    obtain ⟨found, htrains, rfl⟩ := hremains.codebook_trained bytes hfile
    obtain ⟨hmade, hparams⟩ := Codebook.train_ok htrains
    have hsame : codebook.params = found.params := by
      simp only [matchesTraining, Bool.and_eq_true, decide_eq_true_eq] at hmatches
      obtain ⟨⟨⟨⟨hcells, hsubspaces⟩, hbits⟩, hseed⟩, hsamples⟩ := hmatches
      rw [hparams, Codebook.params_of_ofBytes_train htrains hbytes, List.length_map, ← hcells,
        ← hsubspaces, ← hbits, ← hseed, ← hsamples]
    obtain rfl := Codebook.eq_of_ofBytes hmade hbytes hsame
    exact ⟨htrains, hfile, hremains⟩
  · have hfile : trained.files (pipeline.directory ++ [Layout.codebookFile]) =
        some codebook.toBytes := by rw [hbecomes.files_eq, Files.put_self]
    refine ⟨htrains, hfile, hremains.of_segments (fun contents hcontents ↦ ?_) fun number ↦ ?_⟩
    · exact ⟨codebook, htrains, Option.some.inj (hcontents.symm.trans hfile)⟩
    · rw [hbecomes.files_eq]
      exact Files.put_other _ _ (by simpa using segmentName_ne number (by decide))

theorem Trained.isDirectory (htrained : pipeline.Trained vectorOf items codebook mapped trained)
    (hmapped : pipeline.Mapped corpus records start mapped) :
    trained.IsDirectory pipeline.directory :=
  htrained.alters.directories _ hmapped.directory

section

variable (hmaps : pipeline.factory.Maps vectorOf) (hquiet : pipeline.factory.IsQuiet)
include hmaps hquiet

/-- Whatever comes of a build, what it leaves is what a complete build makes. -/
theorem runAlong_remains (hspares : pipeline.Spares corpus) (hlists : corpus.Lists tree records)
    (hremains : pipeline.Remains vectorOf (records.map (·.text)) tree)
    {result : Except IndexError (Option BuildReport)}
    (hrun : (pipeline.runAlong schedule corpus).runOn progress tree = ((result, last), changed))
    (hresult : result ≠ .ok none) :
    pipeline.Remains vectorOf (records.map (·.text)) changed := by
  have hticked : pipeline.Remains vectorOf (records.map (·.text)) tree.tick :=
    hremains.of_files rfl fun _ ↦ rfl
  cases runAlong_course hmaps hquiet hspares hrun with
  | unmapped hmapping =>
    have hcases := pipeline.writeMapping_cases corpus tree.tick
    rw [hmapping] at hcases
    rcases hcases with rfl | ⟨_, -, hreplaces⟩
    · exact hticked
    · exact hticked.replaces hreplaces (by decide) fun number ↦ segmentName_ne number (by decide)
  | untrained hmapped htraining =>
    obtain rfl := hmapped.lists.unique (Corpus.lists_tick.mpr hlists)
    exact (hticked.of_mapped hmapped).of_train hmaps hquiet htraining
  | unbuilt hmapped htrained hbuilding =>
    obtain rfl := hmapped.lists.unique (Corpus.lists_tick.mpr hlists)
    obtain ⟨htrains, -, hthere⟩ := (hticked.of_mapped hmapped).of_trained htrained
    exact hthere.of_leaves htrains (buildShardsAlong_leaves hmaps hquiet
      (htrained.isDirectory hmapped) hbuilding nofun).1
  | unfinished => exact absurd rfl hresult
  | concluded hmapped htrained hbuilding hconclusion =>
    obtain rfl := hmapped.lists.unique (Corpus.lists_tick.mpr hlists)
    obtain ⟨htrains, -, hthere⟩ := (hticked.of_mapped hmapped).of_trained htrained
    have hbuilt := hthere.of_leaves htrains (buildShardsAlong_leaves hmaps hquiet
      (htrained.isDirectory hmapped) hbuilding nofun).1
    rcases conclude_cases hconclusion with
      ⟨error, hmerge, -⟩ | ⟨metadata, later, merged, hmerge, hend⟩
    · exact hbuilt.of_merge hmerge
    · have hmerged := hbuilt.of_merge hmerge
      split at hend
      · obtain ⟨rfl, -⟩ := hend
        exact hmerged.of_files rfl fun _ ↦ rfl
      · obtain ⟨rfl, -⟩ := hend
        exact hmerged

end

/-! ## What complete builds leave -/

/-- The directory holds the codebook and the segments that the build of the texts makes. -/
structure Settled (pipeline : Pipeline) (vectorOf : String → Vec) (items : List String)
    (codebook : Codebook) (tree : Tree) : Prop extends pipeline.Remains vectorOf items tree where
  trains : pipeline.Trains vectorOf items codebook
  codebook_eq : tree.files (pipeline.directory ++ [Layout.codebookFile]) = some codebook.toBytes
  built : ∀ partition ∈ pipeline.partitionsOf items,
    partition.IsBuilt codebook pipeline.layout.root vectorOf pipeline.pool.batchSize tree

/-- The segments are determined by the texts, those that are not there included. -/
theorem Settled.segments_eq (hfirst : pipeline.Settled vectorOf items codebook tree)
    (hsecond : pipeline.Settled vectorOf items codebook changed) (number : PartitionIndex) :
    tree.files (pipeline.directory ++ [segmentName number]) =
      changed.files (pipeline.directory ++ [segmentName number]) := by
  by_cases hnumber : ∃ partition ∈ pipeline.partitionsOf items, partition.index = number
  · obtain ⟨partition, hpartition, rfl⟩ := hnumber
    exact (hfirst.built partition hpartition).files_eq (hsecond.built partition hpartition)
  · have hnone {there : Tree} (hsettled : pipeline.Settled vectorOf items codebook there) :
        there.files (pipeline.directory ++ [segmentName number]) = none := by
      by_contra hthere
      obtain ⟨-, -, partition, hpartition, hindex, -⟩ := hsettled.segments_built number hthere
      exact hnumber ⟨partition, hpartition, hindex⟩
    rw [hnone hfirst, hnone hsecond]

theorem Settled.of_files (hsettled : pipeline.Settled vectorOf items codebook tree)
    (hcodebook : changed.files (pipeline.directory ++ [Layout.codebookFile]) =
      tree.files (pipeline.directory ++ [Layout.codebookFile]))
    (hsegments : ∀ number, changed.files (pipeline.directory ++ [segmentName number]) =
      tree.files (pipeline.directory ++ [segmentName number])) :
    pipeline.Settled vectorOf items codebook changed where
  toRemains := hsettled.toRemains.of_files hcodebook hsegments
  trains := hsettled.trains
  codebook_eq := hcodebook.trans hsettled.codebook_eq
  built partition hpartition := (hsettled.built partition hpartition).of_files (hsegments _)

theorem eq_of_index {first second : Partition} (hfirst : first ∈ pipeline.partitionsOf items)
    (hsecond : second ∈ pipeline.partitionsOf items) (hindex : first.index = second.index) :
    first = second := by
  have hnodup : ((pipeline.partitionsOf items).map (·.index)).Nodup := by
    rw [partitionsOf, Partition.map_index_ofItems]
    exact List.nodup_range'
  exact List.inj_on_of_nodup_map hnodup hfirst hsecond hindex

/-- Once every segment is built or was there, the segments are those that the texts have. -/
theorem Remains.settles (hremains : pipeline.Remains vectorOf items trained)
    (htrains : pipeline.Trains vectorOf items codebook)
    (hcodebook : trained.files (pipeline.directory ++ [Layout.codebookFile]) =
      some codebook.toBytes)
    (hleaves : pipeline.pool.Leaves codebook pipeline.layout.root vectorOf
      (pipeline.partitionsOf items) trained built)
    (hpresent : ∀ partition ∈ pipeline.partitionsOf items,
      partition.IsBuilt codebook pipeline.layout.root vectorOf pipeline.pool.batchSize built ∨
        pipeline.pool.Keeps pipeline.layout.root partition.index trained built) :
    pipeline.Settled vectorOf items codebook built where
  toRemains := hremains.of_leaves htrains hleaves
  trains := htrains
  codebook_eq := (hleaves.files_other (by decide) (by decide)).trans hcodebook
  built partition hpartition := by
    rcases hpresent partition hpartition with hbuilt | hkept
    · exact hbuilt
    obtain ⟨found, hfound, same, hsame, hindex, hbuilt⟩ := hremains.segments_built _ hkept.there
    obtain rfl := Except.ok.inj (htrains.symm.trans hfound)
    obtain rfl := eq_of_index hsame hpartition hindex
    exact hbuilt.of_files hkept.same

/-- A build that succeeds merges exactly the segments that the texts have. -/
theorem runAlong_settled (hmaps : pipeline.factory.Maps vectorOf)
    (hquiet : pipeline.factory.IsQuiet) (hspares : pipeline.Spares corpus)
    (hlists : corpus.Lists tree records)
    (hremains : pipeline.Remains vectorOf (records.map (·.text)) tree) {report : BuildReport}
    (hrun : (pipeline.runAlong schedule corpus).runOn progress tree =
      ((.ok (some report), last), changed)) :
    ∃ codebook built, pipeline.Settled vectorOf (records.map (·.text)) codebook built ∧
      pipeline.Settled vectorOf (records.map (·.text)) codebook changed ∧
      ∃ merged, (SegmentMerger.merge ⟨pipeline.layout.root, codebook⟩
        (pipeline.partitionsOf (records.map (·.text))).length).runOn built =
          (.ok report.metadata, merged) ∧ changed = merged.tick := by
  have hticked : pipeline.Remains vectorOf (records.map (·.text)) tree.tick :=
    hremains.of_files rfl fun _ ↦ rfl
  obtain ⟨found, _, codebook, _, _, segments, _, built, _, merged, hmapped, htrained, hbuilding,
    hmerge, -, rfl⟩ := exists_of_runAlong_ok hmaps hquiet hspares hrun
  obtain rfl := (Corpus.lists_tick.mpr hlists).unique hmapped.lists
  obtain ⟨htrains, hcodebook, hthere⟩ := (hticked.of_mapped hmapped).of_trained htrained
  obtain ⟨hleaves, hsegments⟩ := buildShardsAlong_leaves hmaps hquiet
    (htrained.isDirectory hmapped) hbuilding nofun
  obtain ⟨hlength, hall⟩ := hsegments segments rfl
  have hsettled : pipeline.Settled vectorOf (records.map (·.text)) codebook built :=
    hthere.settles htrains hcodebook hleaves hall
  refine ⟨codebook, built, hsettled, ?_, merged, hlength ▸ merge_ok hmerge, rfl⟩
  exact hsettled.of_files
    (files_of_merge hmerge (by decide) (by decide) Layout.not_dataSuffix_codebookFile)
    fun number ↦ files_of_merge hmerge (head_segmentName number)
      (segmentName_ne number (by decide)) (not_dataSuffix_segmentName number)

/-! ## Resuming -/

/-- What remains depends neither on the encoders nor on whether the build resumes. -/
theorem Remains.of_settings {settings : Settings} {first final : EncoderFactory}
    (hremains : Remains ⟨settings, first⟩ vectorOf items tree) :
    Remains ⟨settings.resuming, final⟩ vectorOf items tree :=
  ⟨hremains.codebook_trained, hremains.segments_built⟩

theorem Settled.of_settings {settings : Settings} {final : EncoderFactory}
    (hsettled : Settled ⟨settings.resuming, final⟩ vectorOf items codebook tree)
    (whole : EncoderFactory) :
    Settled ⟨settings, whole⟩ vectorOf items codebook tree :=
  ⟨⟨hsettled.codebook_trained, hsettled.segments_built⟩, hsettled.trains, hsettled.codebook_eq,
    hsettled.built⟩

/-- A corpus that can be read lies in no directory without files. -/
theorem spares_of_vacant (hvacant : tree.Vacant pipeline.directory)
    (hlists : corpus.Lists tree records) : pipeline.Spares corpus := by
  obtain ⟨contents, hread, -⟩ := hlists
  intro location hlocation
  have hfile := Tree.files_of_read hlocation hread
  constructor
  · rintro rfl
    rw [hvacant] at hfile
    cases hfile
  · rintro rfl
    rw [hvacant] at hfile
    cases hfile

theorem lists_of_runAlong {report : Option BuildReport}
    (hrun : (pipeline.runAlong schedule corpus).runOn progress tree =
      ((.ok report, last), changed)) : ∃ records, corpus.Lists tree records := by
  unfold runAlong at hrun
  obtain ⟨_, _, _, hnow, hrun₁⟩ := runOn_bind_ok.mp hrun
  cases hnow
  obtain ⟨mapping, _, _, hlift, -⟩ := runOn_bind_ok.mp hrun₁
  obtain ⟨records, -, hmapped⟩ := mapped_of_writeMapping (runOn_lift_eq.mp hlift).1
  exact ⟨records, Corpus.lists_tick.mp hmapped.lists⟩

/-- When a build into an empty directory has failed, with encoders that have worked on some texts
and not on others, and a build that resumes it succeeds, then its codebook, its segments, its data
and all of its metadata but the time are those of a build into an empty directory that has not
been interrupted. -/
theorem runAlong_resumed {settings : Settings} {first final whole : EncoderFactory}
    (hfirst : first.Maps vectorOf) (hfinal : final.Maps vectorOf) (hwhole : whole.Maps vectorOf)
    (hquiet : first.IsQuiet ∧ final.IsQuiet ∧ whole.IsQuiet)
    {start left clean resumed fresh : Tree}
    (hstart : start.Vacant (Location.ofDirectory settings.outputDirectory))
    (hclean : clean.Vacant (Location.ofDirectory settings.outputDirectory))
    (hcorpus : left.read corpus.path = start.read corpus.path ∧
      clean.read corpus.path = start.read corpus.path)
    {progress progress' progress'' last last' last'' : Progress}
    {schedule schedule' schedule'' : List Party} {error : IndexError}
    {report expected : BuildReport}
    (hfailed : (runAlong ⟨settings, first⟩ schedule corpus).runOn progress start =
      ((.error error, last), left))
    (hresumed : (runAlong ⟨settings.resuming, final⟩ schedule' corpus).runOn progress' left =
      ((.ok (some report), last'), resumed))
    (hfresh : (runAlong ⟨settings, whole⟩ schedule'' corpus).runOn progress'' clean =
      ((.ok (some expected), last''), fresh)) :
    let directory := Location.ofDirectory settings.outputDirectory
    resumed.files (directory ++ [Layout.codebookFile]) =
        fresh.files (directory ++ [Layout.codebookFile]) ∧
      (∀ number, resumed.files (directory ++ [segmentName number]) =
        fresh.files (directory ++ [segmentName number])) ∧
      resumed.files (directory ++ [expected.metadata.dataFile]) =
        fresh.files (directory ++ [expected.metadata.dataFile]) ∧
      resumed.files (directory ++ [Metadata.fileName]) = some report.metadata.toBytes ∧
      fresh.files (directory ++ [Metadata.fileName]) = some expected.metadata.toBytes ∧
      report.metadata = { expected.metadata with createdAt := report.metadata.createdAt } := by
  intro directory
  obtain ⟨records, contents, hread, hrecords⟩ := lists_of_runAlong hfresh
  have hthere := hcorpus.2.symm.trans hread
  have hlists : corpus.Lists start records := ⟨contents, hthere, hrecords⟩
  have hremains : Remains ⟨settings, first⟩ vectorOf (records.map (·.text)) left :=
    runAlong_remains hfirst hquiet.1 (spares_of_vacant hstart hlists) hlists
      (remains_of_vacant hstart) hfailed nofun
  have hspares : Spares ⟨settings.resuming, final⟩ corpus := spares_of_vacant hstart hlists
  obtain ⟨codebook, built, hbuilt, hsettled, merged, hmerge, rfl⟩ :=
    runAlong_settled hfinal hquiet.2.1 hspares ⟨contents, hcorpus.1.trans hthere, hrecords⟩
      hremains.of_settings hresumed
  have hspares' : Spares ⟨settings, whole⟩ corpus := spares_of_vacant hstart hlists
  obtain ⟨others, base, hbase, hcomplete, finished, hexpected, rfl⟩ :=
    runAlong_settled hwhole hquiet.2.2 hspares' ⟨contents, hread, hrecords⟩
      (remains_of_vacant hclean) hfresh
  replace hbuilt := hbuilt.of_settings whole
  replace hsettled := hsettled.of_settings whole
  obtain rfl : others = codebook := Except.ok.inj (hcomplete.trains.symm.trans hsettled.trains)
  obtain ⟨hmetadata, hdata⟩ :=
    SegmentMerger.merge_eq_of_files hexpected hmerge fun number ↦ hbase.segments_eq hbuilt number
  have hdescribed := SegmentMerger.metadata_of_merge hmerge
  have hgiven := SegmentMerger.metadata_of_merge hexpected
  exact ⟨hsettled.codebook_eq.trans hcomplete.codebook_eq.symm, hsettled.segments_eq hcomplete,
    hdata.symm, hdescribed, hgiven, hmetadata⟩

/-- An encoder that crashes on one text. -/
def brittleEncoder : Encoder :=
  { Encoder.hashed ⟨1, Nat.one_pos⟩ with
    embed := fun batch ↦ if "b" ∈ batch then .error .crashed
      else (Encoder.hashed ⟨1, Nat.one_pos⟩).embed batch }

theorem maps_brittleEncoder : brittleEncoder.Maps (Encoder.hashedVector ⟨1, by decide⟩) := by
  intro batch vectors hembed
  unfold brittleEncoder at hembed
  dsimp only at hembed
  split at hembed
  · cases hembed
  · exact Encoder.maps_hashed _ batch vectors hembed

/-- The build of the two records fails after it has trained its codebook. -/
def tinyFailure : (Except IndexError (Option BuildReport) × Progress) × Tree :=
  (runAlong ⟨tinyPipeline.settings, fun _ ↦ pure brittleEncoder⟩ smallSchedule tinyCorpus).runOn
    (.start .untrained) tinyTree

/-- A producer that looks for segments to keep takes more turns. -/
def tinySchedule : List Party := List.replicate 5 .producer ++ smallSchedule

def tinyResumption : (Except IndexError (Option BuildReport) × Progress) × Tree :=
  (runAlong ⟨tinyPipeline.settings.resuming, tinyPipeline.factory⟩ tinySchedule tinyCorpus).runOn
    (.start .untrained) tinyFailure.2

theorem exists_tiny_failure : ∃ error last, tinyFailure = ((.error error, last), tinyFailure.2) ∧
    tinyFailure.2.read tinyCorpus.path = tinyTree.read tinyCorpus.path := by
  have hchecked : tinyFailure.1.1.isOk = false ∧ (tinyFailure.2.read tinyCorpus.path).toOption =
      (tinyTree.read tinyCorpus.path).toOption := by
    decide +kernel
  generalize tinyFailure = failed at hchecked ⊢
  obtain ⟨hfailed, hread⟩ := hchecked
  obtain ⟨⟨result, last⟩, left⟩ := failed
  cases result with
  | ok found => cases hfailed
  | error error =>
    refine ⟨error, last, rfl, ?_⟩
    dsimp only at hread ⊢
    generalize left.read tinyCorpus.path = held at hread ⊢
    cases held with
    | error fault => cases hread
    | ok contents => exact congrArg Except.ok (Option.some.inj hread)

theorem exists_tiny_resumption : ∃ report last changed,
    tinyResumption = ((.ok (some report), last), changed) := by
  have hends : EndsConcludable ⟨tinyPipeline.settings.resuming, tinyPipeline.factory⟩ 1 2
      ((stagesAlong ⟨tinyPipeline.settings.resuming, tinyPipeline.factory⟩ tinySchedule
        tinyCorpus).runOn (.start .untrained) tinyFailure.2) := by
    decide +kernel
  obtain ⟨report, last, changed, hrun, -⟩ := exists_report_of_stages hends
  exact ⟨report, last, changed, hrun⟩

/-- The resumed build of the two records publishes what the uninterrupted one publishes. -/
theorem runAlong_resumed_tiny : ∃ report expected,
    tinyResumption.1.1 = .ok (some report) ∧ tinyBuild.1.1 = .ok (some expected) ∧
      tinyResumption.2.files ["index", "trained.index"] =
        tinyBuild.2.files ["index", "trained.index"] ∧
      report.metadata = { expected.metadata with createdAt := report.metadata.createdAt } := by
  obtain ⟨error, _, hfailed, hread⟩ := exists_tiny_failure
  obtain ⟨report, _, resumed, hresumed⟩ := exists_tiny_resumption
  obtain ⟨expected, _, fresh, hfresh, -⟩ := exists_tiny_build
  have hvacant : tinyTree.Vacant (Location.ofDirectory "index") := fun _ ↦ rfl
  obtain ⟨hcodebook, -, -, -, -, hmetadata⟩ := runAlong_resumed (fun _ _ _ h ↦
    Except.ok.inj h ▸ maps_brittleEncoder) maps_tinyPipeline maps_tinyPipeline
    ⟨fun _ _ ↦ rfl, fun _ _ ↦ rfl, fun _ _ ↦ rfl⟩ hvacant hvacant ⟨hread, rfl⟩ hfailed hresumed
    hfresh
  rw [hresumed, hfresh]
  exact ⟨report, expected, rfl, rfl, hcodebook, hmetadata⟩

end Pipeline
end VectorIndex
