import VectorIndex.Proofs.Build.Barrier
import VectorIndex.Proofs.Build.Completion
import VectorIndex.Proofs.Build.Inventory

/-!
# What earlier builds leave behind a build

A build writes the segments of its own partitions and removes none. The segments of a longer build
before it stay behind its own: they count as partitions on disk, and a merge of all partitions on
disk publishes their vectors behind those of the build.
-/

namespace VectorIndex

open Bytes (natAt)
open StagedFile (IsTemporary)

/-! ## What is listed after a build -/

/-- Beside temporary files only the segments of the first `count` partitions have changed, and they
are all there. -/
structure Layout.Fills (layout : Layout) (count : Nat) (before after : Tree) : Prop where
  directory : after.IsDirectory (Location.ofDirectory layout.root)
  directories : ∀ name,
    after.find? (Location.ofDirectory layout.root ++ [name]) = some .directory ↔
      before.find? (Location.ofDirectory layout.root ++ [name]) = some .directory
  others : ∀ name, ¬ IsTemporary name → (∀ number < count, name ≠ segmentName number) →
    after.files (Location.ofDirectory layout.root ++ [name]) =
      before.files (Location.ofDirectory layout.root ++ [name])
  segments : ∀ number < count,
    after.files (Location.ofDirectory layout.root ++ [segmentName number]) ≠ none

namespace Layout

variable {layout : Layout} {count : Nat} {before after : Tree}

theorem Fills.of_start {start : Tree} (hfills : layout.Fills count start after)
    (hsame : ∀ name, start.find? (Location.ofDirectory layout.root ++ [name]) =
      before.find? (Location.ofDirectory layout.root ++ [name])) :
    layout.Fills count before after where
  directory := hfills.directory
  directories name := hsame name ▸ hfills.directories name
  others name htemporary hname := by
    rw [hfills.others name htemporary hname, Tree.files, Tree.files, hsame]
  segments := hfills.segments

/-- A build adds its own segments to those that are listed. -/
theorem Fills.lists_iff (hfills : layout.Fills count before after) (hcount : count ≤ 0x100000000)
    {number : PartitionIndex} :
    layout.Lists after number ↔ number < count ∨ layout.Lists before number := by
  have hown : ∀ other < count, partitionOfName? (segmentName other) = some other :=
    fun other hother ↦ (partitionOfName?_segmentName other).trans
      (if_pos (Nat.lt_of_lt_of_le hother hcount))
  have hheld : ∀ name, partitionOfName? name = some number →
      (∀ other < count, name ≠ segmentName other) →
      (after.find? (Location.ofDirectory layout.root ++ [name]) ≠ none ↔
        before.find? (Location.ofDirectory layout.root ++ [name]) ≠ none) := by
    intro name hname hother
    have htemporary : ¬ IsTemporary name := fun htemporary ↦
      htemporary.ne (by rw [head_of_partitionOfName? hname]; decide) rfl
    rw [Tree.find?_ne_none, Tree.find?_ne_none, hfills.directories,
      hfills.others name htemporary hother]
  -- A name need not be that of a segment to be read as a number: `segment_007.seg` counts too, but
  -- no build writes it.
  constructor
  · rintro ⟨name, hthere, hname⟩
    by_cases hsegment : ∃ other < count, name = segmentName other
    · obtain ⟨other, hother, rfl⟩ := hsegment
      rw [hown other hother] at hname
      exact .inl (Option.some.inj hname ▸ hother)
    · simp only [not_exists, not_and] at hsegment
      exact .inr ⟨name, (hheld name hname hsegment).mp hthere, hname⟩
  · rintro (hnumber | ⟨name, hthere, hname⟩)
    · exact ⟨segmentName number, mt Tree.files_of_none (hfills.segments number hnumber),
        hown number hnumber⟩
    · by_cases hsegment : ∃ other < count, name = segmentName other
      · obtain ⟨other, hother, rfl⟩ := hsegment
        exact ⟨segmentName other, mt Tree.files_of_none (hfills.segments other hother), hname⟩
      · simp only [not_exists, not_and] at hsegment
        exact ⟨name, (hheld name hname hsegment).mpr hthere, hname⟩

end Layout

/-! ## What the segments cover -/

/-- The ids that the header of a segment claims. -/
def Segment.claimed (contents : Bytes) : IdRange := ⟨natAt contents 16 8, natAt contents 24 8⟩

theorem Segment.idRange_of_ofBytes {path : Path} {contents : Bytes} {segment : Segment}
    (hopen : ofBytes path contents = .ok segment) : segment.idRange = claimed contents := by
  obtain ⟨rfl, -⟩ := ofBytes_eq_ok.mp hopen
  rfl

/-- There is a file for the partition that claims its ids. -/
def Partition.IsCovered (directory : Location) (tree : Tree) (partition : Partition) : Prop :=
  ∃ contents, tree.files (directory ++ [segmentName partition.index]) = some contents ∧
    Segment.claimed contents = partition.idRange

namespace Shard

variable {codebook : Codebook} {partition : Partition} {contents : Bytes}

/-- A segment that is kept claims the ids of its partition. -/
theorem claimed_of_judge {directory : Path} {summary : SegmentSummary}
    (hjudge : judge codebook directory partition (some (.file contents)) = .ok (some summary)) :
    Segment.claimed contents = partition.idRange := by
  obtain ⟨⟨segment, hopen, hcovers⟩, -⟩ := judge_eq_some.mp hjudge
  rw [← Segment.idRange_of_ofBytes hopen, hcovers.range]

/-- A segment that is built claims the ids of its partition. -/
theorem claimed_of_segmentBytes? {encoder : Encoder} {batchSize : Nat} (hfits : partition.Fits)
    (hcontents : segmentBytes? codebook encoder batchSize partition = some contents) :
    Segment.claimed contents = partition.idRange := by
  obtain ⟨pushes, hencode, rfl⟩ := Option.map_eq_some_iff.mp hcontents
  obtain ⟨vectors, rfl, hlength, -⟩ := exists_of_encode (Result.toOption_eq_some.mp hencode)
  have hcount : (draft codebook partition (place codebook partition.base vectors)).count =
      partition.items.length := count_draft hlength
  have hstop : partition.base + partition.items.length < 0x10000000000000000 := hfits.stop
  have hbase : partition.base < 0x10000000000000000 := by
    unfold DocumentId at *
    omega
  have hsize : partition.items.length < 0x10000000000000000 := by
    unfold DocumentId at *
    omega
  unfold Segment.claimed
  rw [SegmentDraft.natAt_base _ hbase, SegmentDraft.natAt_count _ (hcount ▸ hsize), hcount]
  rfl

end Shard

/-! ## What a pool leaves -/

namespace WorkerPool

variable {pool : WorkerPool} {codebook : Codebook} {directory : Path} {factory : EncoderFactory}
  {pieces : List (List String)} {schedule : List Party} {start changed : Tree}
  {outcomes : List Outcome} {made : PoolReport} {segments : List SegmentSummary}
  (hquiet : factory.IsQuiet) (hdirectory : start.IsDirectory (Location.ofDirectory directory))
  (hrun : (pool.runAlong codebook directory factory ((Partition.ofItems 0 0 pieces).map .ok)
    schedule).run start = (some (outcomes, .ok made), changed))
  (hresult : made.result = .ok segments)
include hquiet hdirectory hrun hresult

/-- When a pool reports no failure, every partition has a segment that claims its ids. -/
theorem isCovered_of_runAlong {partition : Partition}
    (hpartition : partition ∈ Partition.ofItems 0 0 pieces) (hfits : partition.Fits) :
    partition.IsCovered (Location.ofDirectory directory) changed := by
  rcases runAlong_cases hquiet (fun _ _ ↦ hdirectory) hrun hresult hpartition with
    ⟨hsame, summary, hreuse⟩ | ⟨encoder, contents, -, hcontents, hfile⟩
  · obtain ⟨-, contents, hfile, hjudge⟩ := reuse?_eq_some hreuse
    exact ⟨contents, hsame.trans hfile, Shard.claimed_of_judge hjudge⟩
  · exact ⟨contents, hfile, Shard.claimed_of_segmentBytes? hfits hcontents⟩

theorem fills_of_runAlong : Layout.Fills ⟨directory⟩ pieces.length start changed := by
  obtain ⟨accounts, state, htraces, hrest, -, -⟩ :=
    runAlong_traces hquiet (fun _ _ ↦ hdirectory) hrun
  have hindex : ∀ number, number < pieces.length ↔
      ∃ partition ∈ Partition.ofItems 0 0 pieces, partition.index = number := by
    intro number
    rw [← List.mem_map, Partition.map_index_ofItems, List.mem_range'_1]
    omega
  refine ⟨htraces.setting.kept hdirectory, htraces.setting.within, fun name htemporary hname ↦ ?_,
    fun number hnumber ↦ ?_⟩
  · by_cases hsegment : ∃ number, name = segmentName number
    · obtain ⟨number, rfl⟩ := hsegment
      refine htraces.untouched_of_isAtRest hrest fun partition hpartition hsame ↦ ?_
      exact hname number ((hindex number).mpr ⟨partition, hpartition, hsame⟩) rfl
    · apply htraces.aside.files_eq
      show ¬ (Location.ofDirectory directory).Within _ (Location.ofDirectory directory ++ [name])
      rw [Location.within_append]
      exact fun hwithin ↦ hwithin.elim htemporary hsegment
  · obtain ⟨partition, hpartition, rfl⟩ := (hindex number).mp hnumber
    rcases runAlong_cases hquiet (fun _ _ ↦ hdirectory) hrun hresult hpartition with
      ⟨hsame, summary, hreuse⟩ | ⟨encoder, contents, -, -, hfile⟩
    · obtain ⟨-, contents, hfile, -⟩ := reuse?_eq_some hreuse
      exact hsame.trans hfile ▸ Option.some_ne_none contents
    · exact hfile ▸ Option.some_ne_none contents

end WorkerPool

/-! ## What a merge takes of it -/

namespace SegmentMerger

variable {merger : SegmentMerger} {tree : Tree} {count : Nat} {opened : List Segment}

/-- What a merge opens for covered partitions has their ids. -/
theorem Holds.map_idRange_take (hholds : merger.Holds tree count opened)
    {partitions : List Partition}
    (hindices : partitions.map (·.index) = List.range partitions.length)
    (hcovered : ∀ partition ∈ partitions,
      partition.IsCovered (Location.ofDirectory merger.directory) tree)
    (hle : partitions.length ≤ count) :
    (opened.take partitions.length).map (·.idRange) = partitions.map (·.idRange) := by
  have hlength : opened.length = count := by
    have hsame := congrArg List.length hholds.partitions
    rwa [List.length_map, List.length_range] at hsame
  apply List.ext_getElem
  · rw [List.length_map, List.length_take, List.length_map, hlength, Nat.min_eq_left hle]
  intro i hi hi'
  rw [List.length_map] at hi hi'
  rw [List.length_take] at hi
  have hopened : i < opened.length := Nat.lt_of_lt_of_le hi (Nat.min_le_right _ _)
  have hsegment : opened[i].partition = i := by
    have hget := congrArg (·[i]?) hholds.partitions
    simpa [hopened, hlength ▸ hopened] using hget
  have hpartition : partitions[i].index = i := by
    have hget := congrArg (·[i]?) hindices
    simpa [hi'] using hget
  -- Both are of partition `i`, so they speak of the same file.
  rw [List.getElem_map, List.getElem_map, List.getElem_take]
  obtain ⟨⟨contents, hread, hopen⟩, -⟩ := hholds.accepts _ (List.getElem_mem hopened)
  obtain ⟨claiming, hfile, hclaimed⟩ := hcovered _ (List.getElem_mem hi')
  rw [segmentPath_eq_join, Tree.read_join (isName_segmentName _), hsegment] at hread
  rw [hpartition] at hfile
  obtain rfl := Option.some.inj (hread.2.symm.trans hfile)
  exact (Segment.idRange_of_ofBytes hopen).trans hclaimed

theorem totalCount_append (first second : List Segment) :
    totalCount (first ++ second) = totalCount first + totalCount second := by
  induction first with
  | nil => exact (Nat.zero_add _).symm
  | cons segment rest ih => rw [List.cons_append, totalCount, totalCount, ih, Nat.add_assoc]

end SegmentMerger

namespace Pipeline

open BuildProgram (runOn_advance_ok runOn_bind_ok runOn_lift_eq)

variable {pipeline : Pipeline} {codebook : Codebook} {schedule : List Party}
  {texts : Pass (Except IndexError String)} {segments : List SegmentSummary}
  {progress built last : Progress} {tree between changed : Tree}

/-- Making the directory of the segments puts nothing into it. -/
theorem find?_enterShards
    (henter : pipeline.enterShards.runOn progress tree = ((.ok (), built), between))
    (name : String) :
    between.find? (pipeline.directory ++ [name]) = tree.find? (pipeline.directory ++ [name]) := by
  obtain ⟨_, _, _, hadvance, hmake⟩ := runOn_bind_ok.mp henter
  obtain ⟨-, -, rfl⟩ := runOn_advance_ok.mp hadvance
  obtain ⟨-, rfl⟩ := IndexProgram.perform_check_ok.mp (runOn_lift_eq.mp hmake).1
  by_cases hroot : pipeline.layout.root = ""
  · rw [hroot]
    rfl
  · exact Tree.find?_answer_makeDirectories _ (Location.ofPath_of_ne_empty hroot) name

/-- After a build its segments are there and claim the ids of their partitions, and all other
segments are as they were. -/
theorem buildShardsAlong_fills (hquiet : pipeline.factory.IsQuiet)
    (hbuild : (pipeline.buildShardsAlong schedule codebook texts).runOn progress tree =
      ((.ok (some segments), built), between)) :
    pipeline.layout.Fills segments.length tree between ∧ ∃ items : List String,
      texts.toList = items.map .ok ∧ segments.length = (pipeline.partitionsOf items).length ∧
        ∀ partition ∈ pipeline.partitionsOf items, partition.Fits →
          partition.IsCovered pipeline.directory between := by
  obtain ⟨items, hitems⟩ := exists_items_of_buildShardsAlong hbuild
  obtain ⟨_, start, outcomes, report, henter, hrun, hresult⟩ :=
    exists_run_of_buildShardsAlong hbuild
  have hdirectory := isDirectory_enterShards henter
  rw [hitems, partitions_map_ok] at hrun
  have hlength := WorkerPool.length_of_runAlong hquiet (fun _ _ ↦ hdirectory) hrun hresult
  have hfills := WorkerPool.fills_of_runAlong hquiet hdirectory hrun hresult
  refine ⟨hlength ▸ hfills.of_start (find?_enterShards henter), items, hitems,
    hlength.trans (pipeline.length_partitionsOf items).symm, fun partition hpartition hfits ↦ ?_⟩
  exact WorkerPool.isCovered_of_runAlong hquiet hdirectory hrun hresult hpartition hfits

/-- Of the segments of `count` partitions the first are those of a build, which cover the ids of
its texts; the others, from the number of its partitions on, were there before it. -/
structure LeftBehind (pipeline : Pipeline) (tree : Tree) (texts partitions count : Nat)
    (fresh stale : List Segment) : Prop where
  tiling : checkTiling (fresh.map (·.idRange)) texts = .ok ()
  total : SegmentMerger.totalCount fresh = texts
  numbers : stale.map (·.partition) = List.range' partitions (count - partitions)
  found : ∀ segment ∈ stale, ∃ contents,
    tree.files (pipeline.directory ++ [segmentName segment.partition]) = some contents ∧
      Segment.ofBytes (segmentPath pipeline.layout.root segment.partition) contents = .ok segment

/-- The segments that a merge takes behind those of a build were there before it. -/
theorem exists_leftBehind (hquiet : pipeline.factory.IsQuiet)
    (hbuild : (pipeline.buildShardsAlong schedule codebook texts).runOn progress tree =
      ((.ok (some segments), built), between))
    (htexts : texts.toList.length < 0x10000000000000000) {count : Nat}
    (hle : segments.length ≤ count) (hcount : count < 0x100000000) {opened : List Segment}
    (hholds : SegmentMerger.Holds ⟨pipeline.layout.root, codebook⟩ between count opened) :
    ∃ fresh stale : List Segment, opened = fresh ++ stale ∧
      pipeline.LeftBehind tree texts.toList.length segments.length count fresh stale := by
  obtain ⟨hfills, items, hitems, hlength, hcovers⟩ := buildShardsAlong_fills hquiet hbuild
  rw [hitems, List.length_map] at htexts ⊢
  have hindices : (pipeline.partitionsOf items).map (·.index) =
      List.range (pipeline.partitionsOf items).length := by
    rw [length_partitionsOf, partitionsOf, Partition.map_index_ofItems, List.range_eq_range']
  have hflatten := flatten_chunks pipeline.settings.build.partitionSize items
  have hpieces := length_partitionsOf pipeline items
  have hfits : ∀ partition ∈ pipeline.partitionsOf items, partition.Fits := fun _ hpartition ↦
    Partition.fits_of_mem_ofItems (by omega) (hflatten.symm ▸ htexts) hpartition
  have hranges := hholds.map_idRange_take hindices (fun partition hpartition ↦
    hcovers partition hpartition (hfits partition hpartition)) (by omega)
  rw [← hlength] at hranges
  have htiling := Partition.checkTiling_ofItems (hflatten.symm ▸ htexts)
  rw [hflatten] at htiling
  have hstale : (opened.drop segments.length).map (·.partition) =
      List.range' segments.length (count - segments.length) := by
    rw [List.map_drop, hholds.partitions, List.range_eq_range', List.drop_range']
    simp
  refine ⟨opened.take segments.length, opened.drop segments.length,
    (List.take_append_drop _ _).symm, hranges ▸ htiling,
    (SegmentMerger.totalCount_of_map_idRange hranges).trans (congrArg List.length hflatten), hstale,
    fun segment hsegment ↦ ?_⟩
  obtain ⟨⟨contents, hread, hopen⟩, -⟩ := hholds.accepts _ (List.mem_of_mem_drop hsegment)
  rw [segmentPath_eq_join, Tree.read_join (isName_segmentName _)] at hread
  have hbehind := List.mem_map_of_mem (f := (·.partition)) hsegment
  rw [hstale, List.mem_range'_1] at hbehind
  have hother := hfills.others (segmentName segment.partition)
    (fun htemporary ↦ htemporary.ne (head_segmentName _) rfl)
    (fun number hnumber hname ↦ by
      obtain rfl := segmentName_injective hname
      exact Nat.not_lt.mpr hbehind.1 hnumber)
  exact ⟨contents, hother.symm.trans hread.2, hopen⟩

/-- What a merge of more partitions than those of a build publishes. -/
theorem exists_leftBehind_of_merge (hquiet : pipeline.factory.IsQuiet)
    (hbuild : (pipeline.buildShardsAlong schedule codebook texts).runOn progress tree =
      ((.ok (some segments), built), between))
    (htexts : texts.toList.length < 0x10000000000000000) {count : Nat}
    (hle : segments.length ≤ count) (hcount : count < 0x100000000) {metadata : Metadata}
    (hmerge : (pipeline.merge codebook count).runOn built between =
      ((.ok metadata, last), changed)) :
    ∃ fresh stale : List Segment,
      pipeline.LeftBehind tree texts.toList.length segments.length count fresh stale ∧
        metadata.vectorCount = texts.toList.length + SegmentMerger.totalCount stale ∧
        changed.files (pipeline.directory ++ [metadata.dataFile]) =
          some (SegmentMerger.mergedCells ⟨pipeline.layout.root, codebook⟩
            (fresh ++ stale)).flatten := by
  obtain ⟨-, opened, hholds, hpublish⟩ := SegmentMerger.mergeInOrder_ok.mp (merge_ok hmerge)
  obtain ⟨-, ⟨createdAt, rfl⟩, hpublishes⟩ := SegmentMerger.mergeSegments_ok hpublish
  rw [List.length_range, Nat.mod_eq_of_lt hcount] at hholds
  obtain ⟨fresh, stale, rfl, hleft⟩ := exists_leftBehind hquiet hbuild htexts hle hcount hholds
  refine ⟨fresh, stale, hleft, ?_, hpublishes.data_eq⟩
  exact (SegmentMerger.totalCount_append fresh stale).trans (by rw [hleft.total])

/-- After a build the count of partitions on disk is the least one that is neither below the number
of its segments nor below any that was listed before it. A merge of that many partitions publishes
the texts of the build, and behind them whatever the segments of earlier builds hold that the count
takes in. Partitions are numbered in 32 bits and ids in 64; through the empty path nothing is
listed. -/
theorem partitionsOnDisk_after_build (hquiet : pipeline.factory.IsQuiet)
    (hbuild : (pipeline.buildShardsAlong schedule codebook texts).runOn progress tree =
      ((.ok (some segments), built), between))
    (hsegments : segments.length ≤ 0x100000000)
    (htexts : texts.toList.length < 0x10000000000000000) :
    ∃ count, pipeline.partitionsOnDisk.runOn between = (.ok count, between) ∧
      (pipeline.layout.root = "" → count = 0) ∧
      (pipeline.layout.root ≠ "" → ∀ bound, count ≤ bound ↔
        segments.length ≤ bound ∧ ∀ number, pipeline.layout.Lists tree number → number < bound) ∧
      (segments.length ≤ count → count < 0x100000000 → ∀ metadata last changed,
        (pipeline.merge codebook count).runOn built between = ((.ok metadata, last), changed) →
          ∃ fresh stale : List Segment,
            pipeline.LeftBehind tree texts.toList.length segments.length count fresh stale ∧
            metadata.vectorCount = texts.toList.length + SegmentMerger.totalCount stale ∧
            changed.files (pipeline.directory ++ [metadata.dataFile]) =
              some (SegmentMerger.mergedCells ⟨pipeline.layout.root, codebook⟩
                (fresh ++ stale)).flatten) := by
  obtain ⟨hfills, -⟩ := buildShardsAlong_fills hquiet hbuild
  by_cases hroot : pipeline.layout.root = ""
  · refine ⟨0, partitionsOnDisk_of_empty hroot between, fun _ ↦ rfl, fun hne ↦ absurd hroot hne, ?_⟩
    exact fun hle hlt _ _ _ ↦ exists_leftBehind_of_merge hquiet hbuild htexts hle hlt
  obtain ⟨count, hondisk, hleast⟩ := exists_partitionsOnDisk hroot hfills.directory
  refine ⟨count, hondisk, fun hempty ↦ absurd hempty hroot, fun _ bound ↦ ?_,
    fun hle hlt _ _ _ ↦ exists_leftBehind_of_merge hquiet hbuild htexts hle hlt⟩
  rw [hleast]
  simp only [hfills.lists_iff hsegments, or_imp, forall_and]
  refine ⟨fun ⟨hall, hbefore⟩ ↦ ⟨?_, hbefore⟩, fun ⟨hle, hbefore⟩ ↦ ⟨?_, hbefore⟩⟩
  · exact Nat.not_lt.mp fun hlt ↦ Nat.lt_irrefl bound (hall bound hlt)
  · exact fun number hnumber ↦ Nat.lt_of_lt_of_le hnumber hle

/-- A directory with the second segment of an earlier build, whose first had two texts. -/
def longerTree : Tree :=
  let draft := (SegmentDraft.start 1 2 SegmentMerger.smallCodebook).push 0 ⟨2, [0]⟩
  ⟨[(["index"], .directory), (["index", segmentName 1], .file draft.toBytes 0)], 0⟩

/-- The build of two texts in that directory. -/
def shorterBuild : (Except IndexError (Option (List SegmentSummary)) × Progress) × Tree :=
  (smallPipeline.buildShardsAlong smallSchedule SegmentMerger.smallCodebook
    (.ofList (["a", "b"].map .ok))).runOn (.start .trained) longerTree

theorem exists_shorter_build : ∃ segments built between,
    shorterBuild = ((.ok (some segments), built), between) ∧ segments.length = 1 := by
  have hbuilt : shorterBuild.1.1.toOption.bind (·.map List.length) = some 1 := by
    decide +kernel
  generalize shorterBuild = result at hbuilt ⊢
  obtain ⟨⟨result, built⟩, between⟩ := result
  obtain ⟨found, hfound, hlength⟩ := Option.bind_eq_some_iff.mp hbuilt
  obtain ⟨segments, rfl, hcount⟩ := Option.map_eq_some_iff.mp hlength
  obtain rfl := Result.toOption_eq_some.mp hfound
  exact ⟨segments, built, between, rfl, hcount⟩

/-- In an empty directory the count is that of the build and the merge publishes its two texts; with
a segment of an earlier build behind its own it is greater. -/
theorem partitionsOnDisk_after_build_small :
    (∃ segments built between metadata last changed,
      smallBuild = ((.ok (some segments), built), between) ∧
        smallPipeline.partitionsOnDisk.runOn between = (.ok segments.length, between) ∧
        (smallPipeline.merge SegmentMerger.smallCodebook segments.length).runOn built between =
          ((.ok metadata, last), changed) ∧ metadata.vectorCount = 2) ∧
    ∃ segments built between count,
      shorterBuild = ((.ok (some segments), built), between) ∧ segments.length = 1 ∧
        smallPipeline.partitionsOnDisk.runOn between = (.ok count, between) ∧ 1 < count := by
  have hquiet : smallPipeline.factory.IsQuiet := fun _ _ ↦ rfl
  have hroot : smallPipeline.layout.root ≠ "" := by decide
  refine ⟨?_, ?_⟩
  · obtain ⟨segments, built, between, metadata, last, changed, hbuild, hlength, hmerge⟩ :=
      exists_small_build
    obtain ⟨count, hondisk, -, hleast, hpublishes⟩ :=
      partitionsOnDisk_after_build hquiet hbuild (Nat.le_of_lt hlength) (by decide)
    have hge := ((hleast hroot count).mp (Nat.le_refl count)).1
    have hle := (hleast hroot segments.length).mpr
      ⟨Nat.le_refl _, fun number ⟨name, hthere, _⟩ ↦ absurd rfl hthere⟩
    obtain rfl := Nat.le_antisymm hle hge
    obtain ⟨fresh, stale, hleft, hcount, -⟩ := hpublishes hge hlength metadata last changed hmerge
    have hnone := hleft.numbers
    rw [Nat.sub_self, List.range'_zero, List.map_eq_nil_iff] at hnone
    rw [hnone] at hcount
    exact ⟨segments, built, between, metadata, last, changed, hbuild, hondisk, hmerge, hcount⟩
  · obtain ⟨segments, built, between, hbuild, hlength⟩ := exists_shorter_build
    obtain ⟨count, hondisk, -, hleast, -⟩ :=
      partitionsOnDisk_after_build hquiet hbuild (by rw [hlength]; decide) (by decide)
    have hlists : smallPipeline.layout.Lists longerTree 1 :=
      ⟨segmentName 1, by decide, Layout.partitionOfName?_segmentName 1⟩
    exact ⟨segments, built, between, count, hbuild, hlength, hondisk,
      ((hleast hroot count).mp (Nat.le_refl count)).2 1 hlists⟩

end Pipeline
end VectorIndex
