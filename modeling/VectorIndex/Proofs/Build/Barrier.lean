import VectorIndex.Proofs.Build.Stages
import VectorIndex.Proofs.Postings.Interruption

/-!
# The barrier before the merge

A merge opens the segments of all its partitions before it writes anything. A partition whose build
has failed leaves the file of its segment as it was, so the merge fails unless an earlier build has
left a segment there that fits.
-/

namespace VectorIndex

open BuildProgram (runOn_advance_ok runOn_bind_ok runOn_lift_eq)

/-! ## Failed partitions -/

/-- The file of a partition that has failed is as it was. -/
theorem Crew.Settles.files_of_error {crew : Crew} {start tree : Tree} {partition : Partition}
    {outcome : Outcome} (hsettles : crew.Settles start tree partition outcome) {error : IndexError}
    (herror : outcome.result = .error error) :
    tree.files (crew.target partition.index) = start.files (crew.target partition.index) := by
  obtain ⟨-, hsettles⟩ := hsettles
  split at hsettles
  · exact hsettles.2
  · obtain ⟨index, -, hresult, hfiles⟩ := hsettles
    have hbuilt := crew.files_run_build index partition start
    rw [← hresult, herror] at hbuilt
    exact hfiles.trans hbuilt
  · exact hsettles.elim

theorem PoolReport.mem_failures {report : PoolReport} {failure : PartitionIndex × IndexError}
    (hfailure : failure ∈ report.failures) :
    ∃ outcome ∈ report.outcomes, outcome.partition = failure.1 ∧
      outcome.result = .error failure.2 := by
  obtain ⟨outcome, houtcome, hmade⟩ := List.mem_filterMap.mp hfailure
  cases hresult : outcome.result with
  | ok summary => simp [hresult] at hmade
  | error error =>
    rw [hresult] at hmade
    obtain rfl := Option.some.inj hmade
    exact ⟨outcome, houtcome, rfl, hresult⟩

theorem PoolReport.result_error {report : PoolReport} {error : IndexError}
    (hresult : report.result = .error error) :
    report.failures ≠ [] ∧ error = .partitionsFailed report.failures := by
  unfold result at hresult
  split at hresult
  · cases hresult
  · next hfailures =>
    exact ⟨fun h ↦ hfailures (by rw [h]; rfl), (Except.error.inj hresult).symm⟩

/-- Of a pool that reports, every failed partition is one of the stream, and its file is as it
was. -/
theorem WorkerPool.runAlong_failures {pool : WorkerPool} {codebook : Codebook} {directory : Path}
    {factory : EncoderFactory} {pieces : List (List String)} {schedule : List Party}
    {start changed : Tree} {outcomes : List Outcome} {made : PoolReport}
    (hquiet : factory.IsQuiet) (hnested : start.NestedIn (Location.ofDirectory directory))
    (hrun : (pool.runAlong codebook directory factory ((Partition.ofItems 0 0 pieces).map .ok)
      schedule).run start = (some (outcomes, .ok made), changed))
    {failure : PartitionIndex × IndexError} (hfailure : failure ∈ made.failures) :
    failure.1 < pieces.length ∧
      changed.files (Location.ofDirectory directory ++ [segmentName failure.1]) =
        start.files (Location.ofDirectory directory ++ [segmentName failure.1]) := by
  obtain ⟨accounts, state, htraces, hdone, houtcomes, rfl⟩ :=
    runAlong_traces_ok hquiet hnested hrun
  obtain ⟨outcome, houtcome, hindex, herror⟩ := PoolReport.mem_failures hfailure
  have hperm := htraces.outcomes_perm hdone
  have hmem : outcome.partition ∈ (Partition.ofItems 0 0 pieces).map (·.index) :=
    hperm.mem_iff.mp (List.mem_map_of_mem (houtcomes.mem_iff.mp houtcome))
  obtain ⟨partition, hpartition, hsame⟩ := List.mem_map.mp hmem
  obtain ⟨found, hfound, hsettles⟩ := htraces.exists_settled hdone
    (Partition.nodup_index_ofItems pieces) hpartition
  -- A partition has one outcome only, so the failed one is the one that it has settled for.
  have hnodup : (state.outcomes.map (·.partition)).Nodup :=
    hperm.nodup_iff.mpr (Partition.nodup_index_ofItems pieces)
  obtain rfl : found = outcome := List.inj_on_of_nodup_map hnodup hfound
    (houtcomes.mem_iff.mp houtcome) (hsettles.1.trans hsame)
  rw [Partition.map_index_ofItems, List.mem_range'_1, hindex] at hmem
  refine ⟨Nat.zero_add pieces.length ▸ hmem.2, ?_⟩
  have hfiles := hsettles.files_of_error herror
  rw [hsame, hindex] at hfiles
  exact hfiles

/-! ## Merges that lack a segment -/

namespace SegmentMerger

variable {merger : SegmentMerger} {tree changed : Tree} {count : Nat}

/-- The contents are a segment of the partition that a merge can take. -/
def Suits (merger : SegmentMerger) (partition : PartitionIndex) (contents : Bytes) : Prop :=
  ∃ segment, Segment.ofBytes (segmentPath merger.directory partition) contents = .ok segment ∧
    merger.checkSegment partition segment = .ok ()

/-- A merge fails before it writes unless every segment is there and can be taken. -/
theorem merge_cases (merger : SegmentMerger) (count : Nat) (tree : Tree) :
    (∃ error, (merger.merge count).runOn tree = (.error error, tree)) ∨
      ∀ partition < count % 0x100000000, ∃ contents,
        tree.files (Location.ofDirectory merger.directory ++ [segmentName partition]) =
            some contents ∧ merger.Suits partition contents := by
  have hrequired := (merger.faithful_requireSegments (List.range (count % 0x100000000))).runOn tree
  have hopened := (merger.faithful_openSegments (List.range (count % 0x100000000))).runOn tree
  unfold merge mergeInOrder
  rw [IndexProgram.runOn_bind, IndexProgram.runOn_ofExcept]
  cases checkOrder (List.range (count % 0x100000000)) with
  | error error => exact .inl ⟨error, rfl⟩
  | ok done =>
    dsimp only
    rw [IndexProgram.runOn_bind]
    generalize (merger.requireSegments _).runOn tree = required at hrequired ⊢
    obtain ⟨result, same⟩ := required
    obtain rfl : same = tree := hrequired
    cases result with
    | error error => exact .inl ⟨error, rfl⟩
    | ok done =>
      dsimp only
      rw [IndexProgram.runOn_bind]
      rcases hopen : (merger.openSegments (List.range (count % 0x100000000))).runOn same with
        ⟨result, later⟩
      rw [hopen] at hopened
      obtain rfl : later = same := hopened
      cases result with
      | error error => exact .inl ⟨error, rfl⟩
      | ok segments =>
        obtain ⟨-, hpartitions, haccepts⟩ := openSegments_ok.mp hopen
        refine .inr fun partition hpartition ↦ ?_
        have hmem : partition ∈ segments.map (·.partition) :=
          hpartitions ▸ List.mem_range.mpr hpartition
        obtain ⟨segment, hsegment, rfl⟩ := List.mem_map.mp hmem
        obtain ⟨⟨contents, hread, hbytes⟩, hcheck⟩ := haccepts segment hsegment
        rw [segmentPath_eq_join, Tree.read_join (isName_segmentName segment.partition)] at hread
        exact ⟨contents, hread.2, segment, hbytes, hcheck⟩

end SegmentMerger

namespace Pipeline

variable {pipeline : Pipeline} {items : List String} {codebook : Codebook} {schedule : List Party}
  {progress last : Progress} {tree built : Tree}

theorem isDirectory_enterShards
    (hrun : pipeline.enterShards.runOn progress tree = ((.ok (), last), built)) :
    built.IsDirectory pipeline.directory := by
  obtain ⟨_, _, _, hadvance, hmake⟩ := runOn_bind_ok.mp hrun
  obtain ⟨-, -, rfl⟩ := runOn_advance_ok.mp hadvance
  obtain ⟨hmade, rfl⟩ := IndexProgram.perform_check_ok.mp (runOn_lift_eq.mp hmake).1
  by_cases hroot : pipeline.layout.root = ""
  · unfold directory
    rw [hroot]
    exact fun count ↦ by cases count <;> rfl
  · exact (Tree.answer_makeDirectories (Location.ofPath_of_ne_empty hroot) hmade).2

/-- What fails with the failures of partitions has a report of them. -/
theorem leaveShards_failures {outcomes : List Outcome} {report : Except IndexError PoolReport}
    {failures : List (PartitionIndex × IndexError)}
    (hreport : report ≠ .error (.partitionsFailed failures))
    (hrun : (leaveShards outcomes report).runOn progress tree =
      ((.error (.partitionsFailed failures), last), built)) :
    (∃ made, report = .ok made ∧ made.result = .error (.partitionsFailed failures)) ∧
      built = tree := by
  have hstays := runOn_leaveShards outcomes report progress tree
  rw [hrun] at hstays
  refine ⟨?_, hstays⟩
  have hraises := @raises_leaveShards (fun error ↦ error = .partitionsFailed failures →
      ∃ made, report = .ok made ∧ made.result = .error (.partitionsFailed failures))
    (fun _ _ hsame ↦ nomatch hsame) report (fun _ hfailed hsame ↦ absurd (hsame ▸ hfailed) hreport)
    (fun made hmade _ hresult hsame ↦ ⟨made, hmade, hsame ▸ hresult⟩) outcomes
  exact hraises _ _ _ _ _ hrun rfl

/-- When partitions fail, their segments are as they were before the build. -/
theorem buildShardsAlong_failures (hquiet : pipeline.factory.IsQuiet)
    {failures : List (PartitionIndex × IndexError)}
    (hrun : (pipeline.buildShardsAlong schedule codebook (.ofList (items.map .ok))).runOn progress
      tree = ((.error (.partitionsFailed failures), last), built)) :
    failures ≠ [] ∧ ∀ failure ∈ failures, failure.1 < (pipeline.partitionsOf items).length ∧
      built.files (pipeline.directory ++ [segmentName failure.1]) =
        tree.files (pipeline.directory ++ [segmentName failure.1]) := by
  have hbecomes := pipeline.runOn_enterShards progress tree
  have hcourse := buildShardsAlong_course hrun
  rw [partitions_ofList] at hcourse
  generalize hfailed : (Except.error (.partitionsFailed failures) : Except IndexError
    (Option (List SegmentSummary))) = result at hcourse
  cases hcourse with
  | refused hentering =>
    have hraises : BuildProgram.Raises (· ≠ .partitionsFailed failures) pipeline.enterShards :=
      raises_enterShards (fun _ _ ↦ nofun) (fun _ _ ↦ nofun) pipeline
    exact absurd (Except.error.inj hfailed).symm (hraises _ _ _ _ _ hentering)
  | unfinished => cases hfailed
  | @reported _ _ start _ _ _ report made hentering hpool hleaving =>
    rw [hentering] at hbecomes
    have hnested : start.NestedIn pipeline.directory := fun _ _ ↦ isDirectory_enterShards hentering
    obtain ⟨_, _, -, -, -, hcases⟩ := WorkerPool.runAlong_traces hquiet hnested hpool
    cases made with
    | ok segments => cases hfailed
    | error error =>
      obtain rfl := Except.error.inj hfailed
      have hreport : report ≠ .error (.partitionsFailed failures) := by
        rcases hcases with rfl | ⟨rfl, -⟩
        · exact nofun
        · exact nofun
      obtain ⟨⟨found, rfl, hresult⟩, rfl⟩ := leaveShards_failures hreport hleaving
      obtain ⟨hne, hfailures⟩ := PoolReport.result_error hresult
      obtain rfl := IndexError.partitionsFailed.inj hfailures
      refine ⟨hne, fun failure hfailure ↦ ?_⟩
      obtain ⟨hindex, hfiles⟩ := WorkerPool.runAlong_failures hquiet hnested hpool hfailure
      rw [length_partitionsOf, ← hbecomes.files_eq]
      exact ⟨hindex, hfiles⟩

/-- After a build whose partitions have failed, a merge fails and leaves the directory alone, unless
there was a segment before the build for every partition that has failed, and one that fits the
codebook. Partitions are numbered in 32 bits. -/
theorem merge_after_failures (hquiet : pipeline.factory.IsQuiet)
    {failures : List (PartitionIndex × IndexError)}
    (hrun : (pipeline.buildShardsAlong schedule codebook (.ofList (items.map .ok))).runOn progress
      tree = ((.error (.partitionsFailed failures), last), built))
    (hcount : (pipeline.partitionsOf items).length < 0x100000000) :
    (∃ error, (SegmentMerger.merge ⟨pipeline.layout.root, codebook⟩
      (pipeline.partitionsOf items).length).runOn built = (.error error, built)) ∨
    ∀ failure ∈ failures, ∃ contents,
      tree.files (pipeline.directory ++ [segmentName failure.1]) = some contents ∧
        SegmentMerger.Suits ⟨pipeline.layout.root, codebook⟩ failure.1 contents := by
  obtain ⟨-, hfailures⟩ := buildShardsAlong_failures hquiet hrun
  refine (SegmentMerger.merge_cases ⟨pipeline.layout.root, codebook⟩ _ built).imp_right
    fun hsuits failure hfailure ↦ ?_
  obtain ⟨hindex, hfiles⟩ := hfailures failure hfailure
  obtain ⟨contents, hcontents, hfits⟩ := hsuits failure.1 (by rwa [Nat.mod_eq_of_lt hcount])
  exact ⟨contents, hfiles.symm.trans hcontents, hfits⟩

/-- Whether the error is that partitions have failed. -/
def failsInPartitions {α : Type} : Except IndexError α → Bool
  | .error (.partitionsFailed _) => true
  | _ => false

theorem exists_failures {α : Type} (run : (Except IndexError α × Progress) × Tree)
    (hfails : failsInPartitions run.1.1 = true) :
    ∃ failures last, run = ((.error (.partitionsFailed failures), last), run.2) := by
  obtain ⟨⟨result, last⟩, built⟩ := run
  dsimp only at hfails ⊢
  unfold failsInPartitions at hfails
  split at hfails
  · exact ⟨_, last, rfl⟩
  · cases hfails

/-- The small pipeline with an encoder that crashes on one text. -/
def fragilePipeline : Pipeline :=
  { smallPipeline with factory := fun _ ↦ pure WorkerPool.fragileEncoder }

/-- A build of two texts, on the second of which the encoder crashes. -/
def fragileBuild (tree : Tree) :
    (Except IndexError (Option (List SegmentSummary)) × Progress) × Tree :=
  (fragilePipeline.buildShardsAlong smallSchedule SegmentMerger.smallCodebook
    (.ofList (["a", "x"].map .ok))).runOn (.start .trained) tree

/-- In an empty directory no merge gets past the failed partition. After an earlier build of as
many texts the merge takes the segment of that build. -/
theorem merge_after_failures_fragile :
    (∃ error, (SegmentMerger.merge ⟨fragilePipeline.layout.root, SegmentMerger.smallCodebook⟩
      1).runOn (fragileBuild .empty).2 = (.error error, (fragileBuild .empty).2)) ∧
    ((SegmentMerger.merge ⟨fragilePipeline.layout.root, SegmentMerger.smallCodebook⟩ 1).runOn
      (fragileBuild smallBuild.2).2).1.isOk = true ∧
    ∃ contents, smallBuild.2.files (fragilePipeline.directory ++ [segmentName 0]) =
      some contents := by
  have hmergeable : SegmentMerger.Mergeable
      ⟨fragilePipeline.layout.root, SegmentMerger.smallCodebook⟩ (fragileBuild smallBuild.2).2 1 2 := by
    decide +kernel
  have hmerged : ((SegmentMerger.merge
      ⟨fragilePipeline.layout.root, SegmentMerger.smallCodebook⟩ 1).runOn
        (fragileBuild smallBuild.2).2).1.isOk = true := by
    obtain ⟨metadata, changed, hrun, -⟩ := hmergeable.exists_merge
    exact congrArg (·.1.isOk) hrun
  have hcount : (fragilePipeline.partitionsOf ["a", "x"]).length = 1 := by decide +kernel
  have hquiet : fragilePipeline.factory.IsQuiet := fun _ _ ↦ rfl
  obtain ⟨failures, last, hfirst⟩ := exists_failures (fragileBuild .empty) (by decide +kernel)
  obtain ⟨others, other, hsecond⟩ :=
    exists_failures (fragileBuild smallBuild.2) (by decide +kernel)
  have hblocked := merge_after_failures hquiet hfirst (by rw [hcount]; decide)
  have hkept := merge_after_failures hquiet hsecond (by rw [hcount]; decide)
  rw [hcount] at hblocked hkept
  refine ⟨hblocked.resolve_right fun hthere ↦ ?_, hmerged, ?_⟩
  · obtain ⟨hne, -⟩ := buildShardsAlong_failures hquiet hfirst
    obtain ⟨failure, hfailure⟩ := List.exists_mem_of_ne_nil failures hne
    obtain ⟨contents, hcontents, -⟩ := hthere failure hfailure
    cases hcontents
  · obtain ⟨hne, hothers⟩ := buildShardsAlong_failures hquiet hsecond
    obtain ⟨failure, hfailure⟩ := List.exists_mem_of_ne_nil others hne
    obtain ⟨hless, -⟩ := hothers failure hfailure
    rw [hcount, Nat.lt_one_iff] at hless
    have hthere := hkept.resolve_left fun ⟨error, herror⟩ ↦ by
      rw [herror] at hmerged
      cases hmerged
    obtain ⟨contents, hcontents, -⟩ := hthere failure hfailure
    rw [hless] at hcontents
    exact ⟨contents, hcontents⟩

end Pipeline
end VectorIndex
