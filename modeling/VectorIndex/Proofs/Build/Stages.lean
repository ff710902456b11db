import VectorIndex.Proofs.Build.Contents
import VectorIndex.Proofs.Build.Determinism
import VectorIndex.Proofs.Codebook.Training
import VectorIndex.Proofs.Corpus.Mapping
import VectorIndex.Proofs.Store.Faults

/-!
# What the first stages of a build write

A build publishes its mapping and its codebook one after the other. Each of the two stages replaces
one file of the directory or none; when it succeeds, the file and what the build goes on with are
determined by the corpus, the settings and the vectors of the texts.
-/

namespace VectorIndex

open BuildProgram (runOn_bind_ok runOn_pure_ok runOn_lift runOn_lift_eq
  runOn_lift_bind runOn_advance_ok runOn_advance_pure)
open StagedFile (IsTemporary)

/-- Making an encoder leaves the store as it is. -/
def EncoderFactory.IsQuiet (factory : EncoderFactory) : Prop :=
  ∀ worker tree, ((factory worker).runOn tree).2 = tree

theorem Tree.Replaces.files_other {before after : Tree} {directory : Location} {name : String}
    {contents : Bytes} (hreplaces : before.Replaces after directory (directory ++ [name]) contents)
    {other : String} (hhead : other.toList.head? ≠ some '.') (hother : other ≠ name) :
    after.files (directory ++ [other]) = before.files (directory ++ [other]) := by
  apply (hreplaces.files_eq (directory ++ [other]) ?_).resolve_right
  · rintro ⟨heq, -⟩
    exact hother (by simpa using heq)
  · intro temporary htemporary heq
    exact htemporary.ne hhead (by simpa using heq.symm)

theorem Partition.nodup_index_ofItems (pieces : List (List String)) :
    ((ofItems 0 0 pieces).map (·.index)).Nodup := by
  rw [map_index_ofItems]
  exact List.nodup_range'

theorem StoreProgram.run_mapM_quiet {α β : Type} {program : α → StoreProgram β}
    (hquiet : ∀ item tree, ((program item).run tree).2 = tree) (items : List α) (tree : Tree) :
    ((items.mapM program).run tree).2 = tree := by
  induction items with
  | nil => rfl
  | cons item rest ih => rw [List.mapM_cons, run_bind, run_bind, hquiet, run_pure, ih]

/-! ## What a pool leaves -/

/-- What has become of a partition: its segment is as it was, and then it can only be done with if
it could be kept, or it is what an encoder makes of it. -/
theorem Crew.Settles.cases {crew : Crew} {start tree : Tree} {partition : Partition}
    {outcome : Outcome} (hsettles : crew.Settles start tree partition outcome) :
    (tree.files (crew.target partition.index) = start.files (crew.target partition.index) ∧
      ∀ summary, outcome.result = .ok summary →
        ((crew.pool.reuse? crew.codebook crew.directory partition).runOn start).1 =
          .ok (some summary)) ∨
    crew.HasSegment tree partition := by
  obtain ⟨-, hsettles⟩ := hsettles
  rcases hreuse : ((crew.pool.reuse? crew.codebook crew.directory partition).runOn start).1 with
    error | _ | summary
  · rw [hreuse] at hsettles
    exact hsettles.elim
  · rw [hreuse] at hsettles
    obtain ⟨index, -, hresult, hfiles⟩ := hsettles
    have hbuilt := crew.files_run_build index partition start
    rw [← hresult] at hbuilt
    cases houtcome : outcome.result with
    | error error =>
      rw [houtcome] at hbuilt
      exact .inl ⟨hfiles.trans hbuilt, nofun⟩
    | ok summary =>
      rw [houtcome] at hbuilt
      obtain ⟨encoder, contents, hencoder, hbytes, hfile⟩ := hbuilt
      exact .inr ⟨encoder, contents, hencoder, hbytes, hfiles.trans hfile⟩
  · rw [hreuse] at hsettles
    refine .inl ⟨hsettles.2, fun other hother ↦ ?_⟩
    rw [Except.ok.inj (hsettles.1.symm.trans hother)]

section

variable {pool : WorkerPool} {codebook : Codebook} {directory : Path} {factory : EncoderFactory}
  {vectorOf : String → Vec} {pieces : List (List String)} {schedule : List Party}
  {start changed : Tree} {outcomes : List Outcome} {report : Except IndexError PoolReport}

/-- Only a segment that is there can be kept. -/
theorem WorkerPool.reuse?_eq_some {partition : Partition} {summary : SegmentSummary}
    (hreuse : ((pool.reuse? codebook directory partition).runOn start).1 = .ok (some summary)) :
    pool.resume = true ∧ ∃ contents,
      start.files (Location.ofDirectory directory ++ [segmentName partition.index]) =
          some contents ∧
        Shard.judge codebook directory partition (some (.file contents)) = .ok (some summary) := by
  unfold reuse? at hreuse
  split at hreuse
  · next hresume =>
    refine ⟨hresume, ?_⟩
    rw [Shard.run_reusable?] at hreuse
    cases hfetch : (start.answer (.fetch (segmentPath directory partition.index))).1 with
    | error fault => simp [hfetch, Except.toOption, Shard.judge] at hreuse
    | ok source =>
      cases source with
      | directory => simp [hfetch, Except.toOption, Shard.judge] at hreuse
      | file contents =>
        have hread := Tree.fetch_eq_ok.mp hfetch
        rw [segmentPath_eq_join, Tree.read_join (isName_segmentName partition.index)] at hread
        rw [hfetch] at hreuse
        exact ⟨contents, hread.2, hreuse⟩
  · cases hreuse

/-- What a pool leaves of the segments, whatever it reports. -/
structure WorkerPool.Leaves (pool : WorkerPool) (codebook : Codebook) (directory : Path)
    (vectorOf : String → Vec) (partitions : List Partition) (start changed : Tree) : Prop where
  alters : start.Alters changed ((Location.ofDirectory directory).Within fun name ↦
    IsTemporary name ∨ ∃ number, name = segmentName number)
  segments : ∀ number, changed.files (Location.ofDirectory directory ++ [segmentName number]) =
      start.files (Location.ofDirectory directory ++ [segmentName number]) ∨
    ∃ partition ∈ partitions, partition.index = number ∧
      partition.IsBuilt codebook directory vectorOf pool.batchSize changed

/-- Every file that is neither temporary nor a segment is left as it was. -/
theorem WorkerPool.Leaves.files_other {partitions : List Partition}
    (hleaves : pool.Leaves codebook directory vectorOf partitions start changed) {name : String}
    (hdot : name.toList.head? ≠ some '.') (hsegment : name.toList.head? ≠ some 's') :
    changed.files (Location.ofDirectory directory ++ [name]) =
      start.files (Location.ofDirectory directory ++ [name]) := by
  apply hleaves.alters.files_eq
  rw [Location.within_append]
  rintro (htemporary | ⟨number, rfl⟩)
  · exact htemporary.ne hdot rfl
  · exact segmentName_ne number hsegment rfl

theorem WorkerPool.Leaves.of_becomes {partitions : List Partition} {middle : Tree}
    (hbecomes : start.Becomes middle start.files)
    (hleaves : pool.Leaves codebook directory vectorOf partitions middle changed) :
    pool.Leaves codebook directory vectorOf partitions start changed := by
  refine ⟨.trans ⟨fun location _ ↦ congrFun hbecomes.files_eq location, hbecomes.directories⟩
    hleaves.alters, fun number ↦ ?_⟩
  rw [← hbecomes.files_eq]
  exact hleaves.segments number

/-- The segment of this number was there, and a pool that resumes has left it as it was. -/
structure WorkerPool.Keeps (pool : WorkerPool) (directory : Path) (number : PartitionIndex)
    (start changed : Tree) : Prop where
  resume : pool.resume = true
  same : changed.files (Location.ofDirectory directory ++ [segmentName number]) =
    start.files (Location.ofDirectory directory ++ [segmentName number])
  there : start.files (Location.ofDirectory directory ++ [segmentName number]) ≠ none

theorem WorkerPool.Keeps.of_files {number : PartitionIndex} {middle : Tree}
    (hfiles : middle.files = start.files) (hkeeps : pool.Keeps directory number middle changed) :
    pool.Keeps directory number start changed :=
  ⟨hkeeps.resume, hfiles ▸ hkeeps.same, hfiles ▸ hkeeps.there⟩

/-- The crew of a pool, whose encoders are made at the start. -/
def WorkerPool.crewFrom (pool : WorkerPool) (codebook : Codebook) (directory : Path)
    (factory : EncoderFactory) (start : Tree) : Crew :=
  ⟨pool, codebook, directory, ((pool.createEncoders factory).run start).1⟩

/-- A pool that reports has left its segments alone or built them. Unless it has crashed over one,
it has dealt with every partition, each in the way it would have alone. -/
theorem WorkerPool.runAlong_traces (hquiet : factory.IsQuiet)
    (hnested : start.NestedIn (Location.ofDirectory directory))
    (hrun : (pool.runAlong codebook directory factory ((Partition.ofItems 0 0 pieces).map .ok)
      schedule).run start = (some (outcomes, report), changed)) :
    ∃ accounts state, (pool.crewFrom codebook directory factory start).Traces start
        (Partition.ofItems 0 0 pieces) accounts state changed ∧
      state.IsAtRest ∧ outcomes.Perm state.outcomes ∧
        (report = .error producerCrash ∨ report = .ok ⟨outcomes⟩ ∧ state.IsDone) := by
  have hleading := Partition.leading_map_ok (Partition.ofItems 0 0 pieces)
  have hcreated : ((pool.createEncoders factory).run start).2 = start :=
    StoreProgram.run_mapM_quiet (fun index ↦ hquiet (pool.worker index)) _ start
  unfold runAlong at hrun
  rw [StoreProgram.run_bind, StoreProgram.run_bind, StoreProgram.run_pure, hcreated] at hrun
  unfold crewFrom
  generalize ((pool.createEncoders factory).run start).1 = encoders at hrun ⊢
  let crew : Crew := ⟨pool, codebook, directory, encoders⟩
  rcases hfollow : (crew.follow schedule (.start crew.pool.workerCount
    ((Partition.ofItems 0 0 pieces).map .ok))).run start with ⟨state, final⟩
  rw [hfollow] at hrun
  obtain ⟨hreport, rfl⟩ := Prod.mk.inj hrun
  obtain ⟨⟨accounts, htraces⟩, hrest, houtcomes, hcases⟩ :=
    crew.exists_traces_of_report (hleading.symm ▸ Partition.nodup_index_ofItems pieces) hnested
      hfollow hreport
  rw [hleading] at htraces
  rw [Partition.firstError?_map_ok] at hcases
  exact ⟨accounts, state, htraces, hrest, houtcomes, hcases⟩

/-- A pool that reports outcomes has dealt with every partition. -/
theorem WorkerPool.runAlong_traces_ok (hquiet : factory.IsQuiet)
    (hnested : start.NestedIn (Location.ofDirectory directory)) {made : PoolReport}
    (hrun : (pool.runAlong codebook directory factory ((Partition.ofItems 0 0 pieces).map .ok)
      schedule).run start = (some (outcomes, .ok made), changed)) :
    ∃ accounts state, (pool.crewFrom codebook directory factory start).Traces start
        (Partition.ofItems 0 0 pieces) accounts state changed ∧
      state.IsDone ∧ outcomes.Perm state.outcomes ∧ made = ⟨outcomes⟩ := by
  obtain ⟨accounts, state, htraces, -, houtcomes, hcases⟩ := runAlong_traces hquiet hnested hrun
  obtain ⟨hmade, hdone⟩ := hcases.resolve_left nofun
  exact ⟨accounts, state, htraces, hdone, houtcomes, Except.ok.inj hmade⟩

/-- A pool that reports no failure lists one segment for every partition. -/
theorem WorkerPool.length_of_runAlong (hquiet : factory.IsQuiet)
    (hnested : start.NestedIn (Location.ofDirectory directory)) {made : PoolReport}
    (hrun : (pool.runAlong codebook directory factory ((Partition.ofItems 0 0 pieces).map .ok)
      schedule).run start = (some (outcomes, .ok made), changed))
    {segments : List SegmentSummary} (hsegments : made.result = .ok segments) :
    segments.length = pieces.length := by
  obtain ⟨accounts, state, htraces, hdone, houtcomes, rfl⟩ :=
    WorkerPool.runAlong_traces_ok hquiet hnested hrun
  obtain ⟨hlength, -⟩ := PoolReport.result_ok hsegments
  have hnumbers := (htraces.outcomes_perm hdone).length_eq
  rw [List.length_map, Partition.map_index_ofItems, List.length_range'] at hnumbers
  rw [hlength, houtcomes.length_eq, hnumbers]

/-- When a pool reports no failure, every segment was kept as it was found or is one that an encoder
of the pool makes. -/
theorem WorkerPool.runAlong_cases (hquiet : factory.IsQuiet)
    (hnested : start.NestedIn (Location.ofDirectory directory)) {made : PoolReport}
    (hrun : (pool.runAlong codebook directory factory ((Partition.ofItems 0 0 pieces).map .ok)
      schedule).run start = (some (outcomes, .ok made), changed))
    {segments : List SegmentSummary} (hsegments : made.result = .ok segments)
    {partition : Partition} (hpartition : partition ∈ Partition.ofItems 0 0 pieces) :
    (changed.files (Location.ofDirectory directory ++ [segmentName partition.index]) =
        start.files (Location.ofDirectory directory ++ [segmentName partition.index]) ∧
      ∃ summary, ((pool.reuse? codebook directory partition).runOn start).1 =
        .ok (some summary)) ∨
    (pool.crewFrom codebook directory factory start).HasSegment changed partition := by
  obtain ⟨accounts, state, htraces, hdone, houtcomes, rfl⟩ :=
    WorkerPool.runAlong_traces_ok hquiet hnested hrun
  obtain ⟨outcome, houtcome, hsettles⟩ := htraces.exists_settled hdone
    (Partition.nodup_index_ofItems pieces) hpartition
  obtain ⟨summary, hsummary⟩ :=
    (PoolReport.result_ok hsegments).2 outcome (houtcomes.mem_iff.mpr houtcome)
  exact hsettles.cases.imp_left fun ⟨hsame, hkept⟩ ↦ ⟨hsame, summary, hkept summary hsummary⟩

/-- A pool that reports has built segments or left them as they were. When it reports no failure
then every segment was built or could be kept. -/
theorem WorkerPool.runAlong_leaves (hmaps : factory.Maps vectorOf) (hquiet : factory.IsQuiet)
    (hnested : start.NestedIn (Location.ofDirectory directory))
    (hrun : (pool.runAlong codebook directory factory ((Partition.ofItems 0 0 pieces).map .ok)
      schedule).run start = (some (outcomes, report), changed)) :
    pool.Leaves codebook directory vectorOf (Partition.ofItems 0 0 pieces) start changed ∧
      ∀ made segments, report = .ok made → made.result = .ok segments →
        segments.length = pieces.length ∧ ∀ partition ∈ Partition.ofItems 0 0 pieces,
          partition.IsBuilt codebook directory vectorOf pool.batchSize changed ∨
            pool.Keeps directory partition.index start changed := by
  obtain ⟨accounts, state, htraces, hrest, -, -⟩ := WorkerPool.runAlong_traces hquiet hnested hrun
  have hbuilt : ∀ partition,
      (pool.crewFrom codebook directory factory start).HasSegment changed partition →
      partition.IsBuilt codebook directory vectorOf pool.batchSize changed := by
    rintro partition ⟨encoder, contents, hencoder, hbytes, hfile⟩
    exact ⟨encoder, contents, maps_of_createEncoders hmaps hencoder, hbytes, hfile⟩
  refine ⟨⟨htraces.aside, fun number ↦ ?_⟩, ?_⟩
  · rcases htraces.cases_of_isAtRest hrest number with
      ⟨partition, hpartition, rfl, outcome, -, hsettles⟩ | hsame
    · rcases hsettles.cases with ⟨hsame, -⟩ | hsegment
      · exact .inl hsame
      · exact .inr ⟨partition, hpartition, rfl, hbuilt partition hsegment⟩
    · exact .inl hsame
  rintro made segments rfl hsegments
  refine ⟨?_, ?_⟩
  · exact length_of_runAlong hquiet hnested hrun hsegments
  · intro partition hpartition
    rcases runAlong_cases hquiet hnested hrun hsegments hpartition with
      ⟨hsame, summary, hreuse⟩ | hsegment
    · obtain ⟨hresume, contents, hthere, -⟩ := reuse?_eq_some hreuse
      exact .inr ⟨hresume, hsame, hthere ▸ Option.some_ne_none contents⟩
    · exact .inl (hbuilt partition hsegment)

end

namespace Pipeline

variable {pipeline : Pipeline} {corpus : Corpus} {vectorOf : String → Vec} {items : List String}
  {progress last : Progress} {tree changed : Tree}

/-- The location of the index. -/
def directory (pipeline : Pipeline) : Location := Location.ofDirectory pipeline.layout.root

/-! ## The mapping -/

theorem writeMapping_ok {mapping : IdMapping}
    (hrun : (pipeline.writeMapping corpus).runOn tree = (.ok mapping, changed)) :
    (∃ records, corpus.Lists tree records ∧ mapping = ⟨records.map (·.externalId)⟩) ∧
      changed.IsDirectory pipeline.directory ∧
      tree.Becomes changed (tree.files.put (pipeline.directory ++ [Layout.mappingFile])
        (some (Utf8.encode mapping.toJson.compact))) := by
  obtain ⟨made, same, hmade, hrun₁⟩ := IndexProgram.runOn_bind_ok.mp hrun
  obtain ⟨_, _, hsave, hpure⟩ := IndexProgram.runOn_bind_ok.mp hrun₁
  obtain ⟨rfl, rfl⟩ := IndexProgram.runOn_pure_ok.mp hpure
  obtain ⟨rfl, hrecords⟩ := IdMapping.ofCorpus_ok.mp hmade
  exact ⟨hrecords, publishFile_ok Layout.isName_mappingFile hsave⟩

/-- Whatever comes of it, writing the mapping leaves all other files, and the mapping too unless the
corpus can be read. -/
theorem writeMapping_cases (pipeline : Pipeline) (corpus : Corpus) (tree : Tree) :
    ((pipeline.writeMapping corpus).runOn tree).2 = tree ∨
      ∃ records, corpus.Lists tree records ∧
        tree.Replaces ((pipeline.writeMapping corpus).runOn tree).2 pipeline.directory
          (pipeline.directory ++ [Layout.mappingFile])
          (Utf8.encode (IdMapping.mk (records.map (·.externalId))).toJson.compact) := by
  have hread := (IdMapping.ofCorpus_onlyReads corpus).run tree
  change ((IdMapping.ofCorpus corpus).runOn tree).2 = tree at hread
  unfold writeMapping
  rw [IndexProgram.runOn_bind]
  rcases hmade : (IdMapping.ofCorpus corpus).runOn tree with ⟨result, same⟩
  rw [hmade] at hread
  obtain rfl : same = tree := hread
  cases result with
  | error error => exact .inl rfl
  | ok mapping =>
    obtain ⟨-, records, hlists, hmapping⟩ := IdMapping.ofCorpus_ok.mp hmade
    refine .inr ⟨records, hlists, ?_⟩
    rw [← hmapping]
    have hsaved := publishFile_replaces pipeline.layout.root Layout.isName_mappingFile
      (Utf8.encode mapping.toJson.compact) same
    show same.Replaces ((mapping.save pipeline.layout.mapping >>= fun _ ↦
      (pure mapping : IndexProgram IdMapping)).runOn same).2 _ _ _
    rw [IndexProgram.runOn_bind]
    rcases hsave : (mapping.save pipeline.layout.mapping).runOn same with ⟨done, saved⟩
    change same.Replaces ((mapping.save pipeline.layout.mapping).runOn same).2 _ _ _ at hsaved
    rw [hsave] at hsaved
    cases done <;> exact hsaved

/-! ## The codebook -/

theorem encodeSample_ok {encoder : Encoder} (hmaps : encoder.Maps vectorOf)
    {batches : List (List String)} {vectors : List Vec}
    (hencode : encodeSample encoder batches = .ok vectors) :
    vectors = batches.flatten.map vectorOf := by
  induction batches generalizing vectors with
  | nil =>
    obtain rfl := Except.ok.inj hencode
    rfl
  | cons batch rest ih =>
    rw [encodeSample] at hencode
    cases hbatch : encoder.encodeBatch batch none with
    | error interruption => simp [hbatch] at hencode
    | ok first =>
      cases hrest : encodeSample encoder rest with
      | error error => simp [hbatch, hrest, Except.map] at hencode
      | ok later =>
        simp only [hbatch, hrest, Except.map, Except.ok.injEq] at hencode
        rw [← hencode, hmaps.encodeBatch_ok hbatch, ih hrest, List.flatten_cons, List.map_append]

/-- Training on texts fails before it writes, or comes to saving the codebook of what the encoder
makes of them. -/
theorem trainOn_saves (hquiet : pipeline.factory.IsQuiet) (texts : List String) (tree : Tree) :
    (∃ error, (pipeline.trainOn texts).runOn tree = (.error error, tree)) ∨
      ∃ encoder sample codebook,
        ((pipeline.factory (pipeline.pool.worker 0)).runOn tree).1 = .ok encoder ∧
        encodeSample encoder (chunks pipeline.settings.build.batchSize texts) = .ok sample ∧
        Codebook.train pipeline.settings.training sample = .ok codebook ∧
        (pipeline.trainOn texts).runOn tree =
          (codebook.save pipeline.layout.codebook >>= fun _ ↦
            (pure codebook : IndexProgram Codebook)).runOn tree := by
  have hsame := hquiet (pipeline.pool.worker 0) tree
  unfold trainOn Codebook.trainAndSave
  rw [IndexProgram.runOn_bind]
  generalize (pipeline.factory (pipeline.pool.worker 0)).runOn tree = made at hsame ⊢
  obtain ⟨result, same⟩ := made
  obtain rfl : same = tree := hsame
  cases result with
  | error error => exact .inl ⟨error, rfl⟩
  | ok encoder =>
    dsimp only
    rw [IndexProgram.runOn_bind, IndexProgram.runOn_ofExcept]
    cases pipeline.settings.validateForDimension encoder.dimension.size with
    | error error => exact .inl ⟨error, rfl⟩
    | ok done =>
      dsimp only
      rw [IndexProgram.runOn_bind, IndexProgram.runOn_ofExcept]
      cases hsample : encodeSample encoder (chunks pipeline.settings.build.batchSize texts) with
      | error error => exact .inl ⟨error, rfl⟩
      | ok sample =>
        dsimp only
        rw [IndexProgram.runOn_bind, IndexProgram.runOn_ofExcept]
        cases htrain : Codebook.train pipeline.settings.training sample with
        | error error => exact .inl ⟨error, rfl⟩
        | ok codebook => exact .inr ⟨encoder, sample, codebook, rfl, hsample, htrain, rfl⟩

/-- The codebook that is saved is that of the vectors of the texts. -/
theorem trainOn_cases (hmaps : pipeline.factory.Maps vectorOf)
    (hquiet : pipeline.factory.IsQuiet) (texts : List String) (tree : Tree) :
    (∃ error, (pipeline.trainOn texts).runOn tree = (.error error, tree)) ∨
      ∃ codebook, Codebook.train pipeline.settings.training (texts.map vectorOf) = .ok codebook ∧
        (pipeline.trainOn texts).runOn tree =
          (codebook.save pipeline.layout.codebook >>= fun _ ↦
            (pure codebook : IndexProgram Codebook)).runOn tree := by
  rcases pipeline.trainOn_saves hquiet texts tree with
    hfails | ⟨encoder, sample, codebook, hencoder, hsample, htrain, hsave⟩
  · exact .inl hfails
  · have hvectors := encodeSample_ok (hmaps _ _ encoder hencoder) hsample
    rw [flatten_chunks] at hvectors
    exact .inr ⟨codebook, hvectors ▸ htrain, hsave⟩

/-- Training that comes to saving a codebook replaces nothing but the codebook. -/
theorem replaces_of_trainOn {texts : List String} {codebook : Codebook} {tree : Tree}
    (hsave : (pipeline.trainOn texts).runOn tree = (codebook.save pipeline.layout.codebook >>=
      fun _ ↦ (pure codebook : IndexProgram Codebook)).runOn tree) (progress : Progress) :
    tree.Replaces ((BuildProgram.lift (pipeline.trainOn texts) >>= fun codebook ↦
        BuildProgram.advance .trained >>= fun _ ↦ pure codebook).runOn progress tree).2
      pipeline.directory (pipeline.directory ++ [Layout.codebookFile]) codebook.toBytes := by
  rw [BuildProgram.runOn_bind, runOn_lift, hsave, IndexProgram.runOn_bind]
  have hsaved : tree.Replaces ((codebook.save pipeline.layout.codebook).runOn tree).2 _ _ _ :=
    publishFile_replaces pipeline.layout.root Layout.isName_codebookFile codebook.toBytes tree
  generalize (codebook.save pipeline.layout.codebook).runOn tree = saved at hsaved ⊢
  obtain ⟨result, middle⟩ := saved
  cases result with
  | error error => exact hsaved
  | ok done =>
    show tree.Replaces (((BuildProgram.advance .trained >>= fun _ ↦
      (pure codebook : BuildProgram Codebook)).runOn progress middle).2) _ _ _
    rw [runOn_advance_pure]
    exact hsaved

/-- The codebook on disk that is kept for a head of so many texts. -/
def kept? (pipeline : Pipeline) (samples : Nat) (tree : Tree) : Option Codebook :=
  if pipeline.settings.build.resume then ((pipeline.reusableCodebook samples).run tree).1
  else none

theorem run_reusableCodebook (pipeline : Pipeline) (samples : Nat) (tree : Tree) :
    ((pipeline.reusableCodebook samples).run tree).2 = tree ∧
      ∀ codebook, ((pipeline.reusableCodebook samples).run tree).1 = some codebook →
        pipeline.loadCodebook.runOn tree = (.ok codebook, tree) ∧
          matchesTraining pipeline.settings.training samples codebook.params = true := by
  have hload : (pipeline.loadCodebook.runOn tree).2 = tree := by
    unfold loadCodebook Codebook.load
    rw [IndexProgram.runOn_bind, IndexProgram.runOn_readFile]
    cases tree.read pipeline.layout.codebook with
    | ok bytes => rfl
    | error error => rfl
  unfold reusableCodebook
  rw [StoreProgram.run_bind, SegmentMerger.run_exists?]
  dsimp only
  split
  · exact ⟨rfl, nofun⟩
  · rw [StoreProgram.run_bind, IndexProgram.run_attempt]
    generalize pipeline.loadCodebook.runOn tree = loaded at hload ⊢
    obtain ⟨result, same⟩ := loaded
    obtain rfl : same = tree := hload
    cases result with
    | error error => exact ⟨rfl, nofun⟩
    | ok found =>
      dsimp only
      split
      · next hmatches =>
        refine ⟨rfl, fun codebook hcodebook ↦ ?_⟩
        obtain rfl := Option.some.inj hcodebook
        exact ⟨rfl, hmatches⟩
      · exact ⟨rfl, nofun⟩

theorem kept?_eq_some {samples : Nat} {codebook : Codebook}
    (hkept : pipeline.kept? samples tree = some codebook) :
    pipeline.settings.build.resume = true ∧
      pipeline.loadCodebook.runOn tree = (.ok codebook, tree) ∧
        matchesTraining pipeline.settings.training samples codebook.params = true := by
  unfold kept? at hkept
  split at hkept
  · next hresume =>
    exact ⟨hresume, (pipeline.run_reusableCodebook samples tree).2 codebook hkept⟩
  · cases hkept

/-- The texts that are trained on. -/
def head (pipeline : Pipeline) (items : List String) : List String :=
  items.take pipeline.settings.build.sampleSize

/-- Texts that cannot be read end the training. -/
theorem runOn_train_error {texts : Pass (Except IndexError String)} {error : IndexError}
    (hhead : Partition.collect (texts.toList.take pipeline.settings.build.sampleSize) =
      .error error) (progress : Progress) (tree : Tree) :
    (pipeline.train texts).runOn progress tree = ((.error error, progress), tree) := by
  unfold train
  rw [hhead]
  rfl

/-- A codebook is kept, or one is trained on the head of the texts. -/
theorem runOn_train_of_head {texts : Pass (Except IndexError String)} {head : List String}
    (hhead : Partition.collect (texts.toList.take pipeline.settings.build.sampleSize) = .ok head)
    (progress : Progress) (tree : Tree) :
    (pipeline.train texts).runOn progress tree =
      (match pipeline.kept? head.length tree with
        | some codebook => BuildProgram.advance .trained >>= fun _ ↦ pure codebook
        | none => BuildProgram.lift (pipeline.trainOn head) >>= fun codebook ↦
          BuildProgram.advance .trained >>= fun _ ↦ pure codebook).runOn progress tree := by
  unfold train
  rw [hhead, BuildProgram.runOn_bind]
  show BuildProgram.runOn _ progress tree = _
  dsimp only
  unfold kept?
  by_cases hresume : pipeline.settings.build.resume = true
  · rewrite [if_pos hresume, if_pos hresume, runOn_lift_bind,
      (pipeline.run_reusableCodebook _ tree).1]
    cases ((pipeline.reusableCodebook head.length).run tree).1 with
    | none => rfl
    | some codebook => rfl
  · rewrite [if_neg hresume, if_neg hresume]
    rfl

/-- Training that succeeds has kept a codebook, or has trained one on the head of the texts. -/
theorem runOn_train_ok {texts : Pass (Except IndexError String)} {codebook : Codebook}
    (hrun : (pipeline.train texts).runOn progress tree = ((.ok codebook, last), changed)) :
    ∃ head, Partition.collect (texts.toList.take pipeline.settings.build.sampleSize) = .ok head ∧
      (pipeline.kept? head.length tree = some codebook ∧ changed = tree ∨
        (pipeline.trainOn head).runOn tree = (.ok codebook, changed)) := by
  cases hhead : Partition.collect (texts.toList.take pipeline.settings.build.sampleSize) with
  | error error =>
    rw [runOn_train_error hhead] at hrun
    cases hrun
  | ok head =>
    refine ⟨head, rfl, ?_⟩
    rw [runOn_train_of_head hhead] at hrun
    cases hkept : pipeline.kept? head.length tree with
    | some found =>
      rw [hkept] at hrun
      obtain ⟨_, _, _, hadvance, hpure⟩ := runOn_bind_ok.mp hrun
      obtain ⟨rfl, -, rfl⟩ := runOn_pure_ok.mp hpure
      exact .inl ⟨rfl, (runOn_advance_ok.mp hadvance).2.2⟩
    | none =>
      rw [hkept] at hrun
      obtain ⟨found, _, _, hmade, hrest⟩ := runOn_bind_ok.mp hrun
      obtain ⟨_, _, _, hadvance, hpure⟩ := runOn_bind_ok.mp hrest
      obtain ⟨rfl, -, rfl⟩ := runOn_pure_ok.mp hpure
      obtain ⟨-, -, rfl⟩ := runOn_advance_ok.mp hadvance
      exact .inr (runOn_lift_eq.mp hmade).1

theorem collect_head (pipeline : Pipeline) (items : List String) :
    Partition.collect ((Pass.ofList (items.map .ok)).toList.take
      pipeline.settings.build.sampleSize) = .ok (pipeline.head items) := by
  rw [Partition.collect_eq_ok, head, List.map_take]
  exact congrArg _ (List.append_nil _)

theorem runOn_train (pipeline : Pipeline) (items : List String) (progress : Progress)
    (tree : Tree) : (pipeline.train (.ofList (items.map .ok))).runOn progress tree =
      (match pipeline.kept? (pipeline.head items).length tree with
        | some codebook => BuildProgram.advance .trained >>= fun _ ↦ pure codebook
        | none => BuildProgram.lift (pipeline.trainOn (pipeline.head items)) >>= fun codebook ↦
          BuildProgram.advance .trained >>= fun _ ↦ pure codebook).runOn progress tree :=
  runOn_train_of_head (pipeline.collect_head items) progress tree

/-- The codebook is what training on the head of the texts makes. -/
def Trains (pipeline : Pipeline) (vectorOf : String → Vec) (items : List String)
    (codebook : Codebook) : Prop :=
  Codebook.train pipeline.settings.training ((pipeline.head items).map vectorOf) = .ok codebook

section

variable (hmaps : pipeline.factory.Maps vectorOf) (hquiet : pipeline.factory.IsQuiet)
include hmaps hquiet

/-- Whatever comes of it, training leaves all other files. -/
theorem train_replaces (items : List String) (progress : Progress) (tree : Tree) :
    ((pipeline.train (.ofList (items.map .ok))).runOn progress tree).2 = tree ∨
      ∃ codebook, pipeline.Trains vectorOf items codebook ∧
        tree.Replaces ((pipeline.train (.ofList (items.map .ok))).runOn progress tree).2
          pipeline.directory (pipeline.directory ++ [Layout.codebookFile]) codebook.toBytes := by
  rw [runOn_train]
  cases pipeline.kept? (pipeline.head items).length tree with
  | some codebook => exact .inl (runOn_advance_pure _ codebook progress tree)
  | none =>
    rcases trainOn_cases hmaps hquiet (pipeline.head items) tree with
      ⟨error, herror⟩ | ⟨codebook, htrains, hsave⟩
    · dsimp only
      rw [BuildProgram.runOn_bind, runOn_lift, herror]
      exact .inl rfl
    · exact .inr ⟨codebook, htrains, replaces_of_trainOn hsave progress⟩

/-- What a build goes on with is a codebook that it has kept or one that it has trained. -/
theorem train_ok {codebook : Codebook}
    (hrun : (pipeline.train (.ofList (items.map .ok))).runOn progress tree =
      ((.ok codebook, last), changed)) :
    (pipeline.settings.build.resume = true ∧ changed = tree ∧
      pipeline.loadCodebook.runOn tree = (.ok codebook, tree) ∧
        matchesTraining pipeline.settings.training (pipeline.head items).length
          codebook.params = true) ∨
    (pipeline.Trains vectorOf items codebook ∧
      tree.Becomes changed (tree.files.put (pipeline.directory ++ [Layout.codebookFile])
        (some codebook.toBytes))) := by
  obtain ⟨head, hhead, hcases⟩ := runOn_train_ok hrun
  obtain rfl := Except.ok.inj ((pipeline.collect_head items).symm.trans hhead)
  rcases hcases with ⟨hkept, rfl⟩ | hmade
  · obtain ⟨hresume, hload, hmatches⟩ := kept?_eq_some hkept
    exact .inl ⟨hresume, rfl, hload, hmatches⟩
  · rcases trainOn_cases hmaps hquiet (pipeline.head items) tree with
      ⟨error, herror⟩ | ⟨codebook, htrains, hsave⟩
    · rw [herror] at hmade
      cases hmade
    · rw [hsave] at hmade
      obtain ⟨_, _, hsaved, hlast⟩ := IndexProgram.runOn_bind_ok.mp hmade
      obtain ⟨rfl, rfl⟩ := IndexProgram.runOn_pure_ok.mp hlast
      exact .inr ⟨htrains, (publishFile_ok Layout.isName_codebookFile hsaved).2⟩

end

/-! ## The segments -/

/-- Making the directory of the segments changes no file. -/
theorem runOn_enterShards (pipeline : Pipeline) (progress : Progress) (tree : Tree) :
    tree.Becomes (pipeline.enterShards.runOn progress tree).2 tree.files := by
  unfold enterShards
  rw [BuildProgram.runOn_bind, BuildProgram.runOn_advance]
  cases progress.state.advance .shardsBuilding with
  | error error => exact tree.becomes_self
  | ok state =>
    dsimp only
    rw [runOn_lift, IndexProgram.runOn_bind, IndexProgram.runOn_perform]
    exact ⟨tree.files_makeDirectories _, fun location h ↦ h.answer _⟩

theorem raises_enterShards {errors : IndexError → Prop}
    (htransition : ∀ origin target, errors (.invalidStateTransition origin target))
    (hwrite : ∀ path fault, errors (.fileWrite path fault)) (pipeline : Pipeline) :
    BuildProgram.Raises errors pipeline.enterShards := by
  refine BuildProgram.raises_bind (BuildProgram.raises_advance htransition _) fun _ ↦ ?_
  apply BuildProgram.raises_lift
  intro tree error
  apply IndexProgram.Raises.runOn
  exact IndexProgram.raises_bind (IndexProgram.raises_perform _) fun made ↦
    IndexProgram.raises_check (hwrite _) made

/-- What comes of the segments does not touch the store. -/
theorem runOn_leaveShards (outcomes : List Outcome) (report : Except IndexError PoolReport)
    (progress : Progress) (tree : Tree) :
    ((leaveShards outcomes report).runOn progress tree).2 = tree := by
  unfold leaveShards
  rw [BuildProgram.runOn_bind, BuildProgram.runOn_record]
  cases report with
  | error error => rfl
  | ok made =>
    show ((BuildProgram.ofExcept made.result >>= fun segments ↦
      BuildProgram.advance .shardsComplete >>= fun _ ↦ pure segments).runOn _ tree).2 = tree
    cases made.result with
    | error error => rfl
    | ok segments => exact runOn_advance_pure _ segments _ tree

theorem raises_leaveShards {errors : IndexError → Prop}
    (htransition : ∀ origin target, errors (.invalidStateTransition origin target))
    {report : Except IndexError PoolReport}
    (hreport : ∀ error, report = .error error → errors error)
    (hmade : ∀ made, report = .ok made → ∀ error, made.result = .error error → errors error)
    (outcomes : List Outcome) :
    BuildProgram.Raises errors (leaveShards outcomes report) := by
  refine BuildProgram.raises_bind (BuildProgram.raises_record _) fun _ ↦ ?_
  cases report with
  | error error =>
    have hraises : BuildProgram.Raises errors
        (BuildProgram.ofExcept (.error error) : BuildProgram (List SegmentSummary)) :=
      BuildProgram.raises_ofExcept fun raised hraised ↦ Except.error.inj hraised ▸ hreport _ rfl
    exact hraises
  | ok made =>
    show BuildProgram.Raises errors (BuildProgram.ofExcept made.result >>= _)
    have hresult := BuildProgram.raises_ofExcept (hmade made rfl)
    refine BuildProgram.raises_bind hresult fun segments ↦ ?_
    refine BuildProgram.raises_bind (BuildProgram.raises_advance htransition _) fun _ ↦ ?_
    exact BuildProgram.raises_pure segments

/-- The partitions of texts that can all be read. -/
def partitionsOf (pipeline : Pipeline) (items : List String) : List Partition :=
  Partition.ofItems 0 0 (chunks pipeline.settings.build.partitionSize items)

theorem length_partitionsOf (pipeline : Pipeline) (items : List String) :
    (pipeline.partitionsOf items).length =
      (chunks pipeline.settings.build.partitionSize items).length := by
  rw [partitionsOf, ← List.length_map (f := (·.index)), Partition.map_index_ofItems,
    List.length_range']

theorem partitions_ofList (pipeline : Pipeline) (items : List String) :
    partitions (Pass.ofList (items.map (.ok : String → Except IndexError String))).toList
      pipeline.settings.build.partitionSize = (pipeline.partitionsOf items).map .ok := by
  rw [partitionsOf, ← partitions_map_ok]
  exact congrArg (partitions · _) (List.append_nil _)

/-- Unless the schedule ends too early, building the segments leaves each as it was or built. When
it succeeds, each is there. -/
theorem buildShardsAlong_leaves (hmaps : pipeline.factory.Maps vectorOf)
    (hquiet : pipeline.factory.IsQuiet) (hdirectory : tree.IsDirectory pipeline.directory)
    {schedule : List Party} {codebook : Codebook}
    {result : Except IndexError (Option (List SegmentSummary))}
    (hrun : (pipeline.buildShardsAlong schedule codebook (.ofList (items.map .ok))).runOn progress
      tree = ((result, last), changed)) (hresult : result ≠ .ok none) :
    pipeline.pool.Leaves codebook pipeline.layout.root vectorOf (pipeline.partitionsOf items) tree
        changed ∧
      ∀ segments, result = .ok (some segments) →
        segments.length = (pipeline.partitionsOf items).length ∧
          ∀ partition ∈ pipeline.partitionsOf items,
            partition.IsBuilt codebook pipeline.layout.root vectorOf pipeline.pool.batchSize
              changed ∨
            pipeline.pool.Keeps pipeline.layout.root partition.index tree changed := by
  have hentered := pipeline.runOn_enterShards progress tree
  have hcourse := buildShardsAlong_course hrun
  rw [partitions_ofList] at hcourse
  cases hcourse with
  | refused hentering =>
    rw [hentering] at hentered
    exact ⟨.of_becomes hentered ⟨changed.alters_self _, fun _ ↦ .inl rfl⟩, nofun⟩
  | unfinished => exact absurd rfl hresult
  | @reported entered _ start middle _ outcomes report result hentering hpool hleaving =>
    rw [hentering] at hentered
    have hnested : start.NestedIn pipeline.directory := fun _ _ ↦ hentered.directories _ hdirectory
    obtain ⟨hleaves, hmade⟩ := WorkerPool.runAlong_leaves hmaps hquiet hnested hpool
    have hstays := runOn_leaveShards outcomes report entered middle
    rw [hleaving] at hstays
    obtain rfl : changed = middle := hstays
    refine ⟨.of_becomes hentered hleaves, fun found hfound ↦ ?_⟩
    cases result with
    | error error => cases hfound
    | ok segments =>
      obtain rfl := Option.some.inj (Except.ok.inj hfound)
      obtain ⟨-, made, hreport, hsegments⟩ := leaveShards_ok hleaving
      obtain ⟨hlength, hall⟩ := hmade made segments hreport hsegments
      rw [length_partitionsOf]
      exact ⟨hlength, fun partition hpartition ↦
        (hall partition hpartition).imp_right (.of_files hentered.files_eq)⟩

/-- A pipeline like the small one, which trains on the first text only. -/
def tinyPipeline : Pipeline :=
  { smallPipeline with
    settings := { smallPipeline.settings with
      build := { BuildSettings.default 2 with trainSampleSize := some 1 }
      training := ⟨1, 1, 1, 0, 1, 1⟩ } }

theorem maps_tinyPipeline :
    tinyPipeline.factory.Maps (Encoder.hashedVector ⟨1, by decide⟩) := by
  intro worker tree encoder hencoder
  obtain rfl := Except.ok.inj hencoder
  exact Encoder.maps_hashed _

end Pipeline
end VectorIndex
