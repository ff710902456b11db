import VectorIndex.Proofs.Build.Schedule
import VectorIndex.Proofs.Store.Beside

/-!
# What a partition comes to alone

A worker that builds a partition and a producer that looks for an earlier segment of one find the
same as they would alone on the store from the start, whatever is built beside them.
-/

namespace VectorIndex

/-! ## Looking at one file -/

/-- On stores that are in a state the program only reads, and it returns the value. -/
def StoreProgram.Reads {α : Type} (state : Tree → Prop) (value : α) : StoreProgram α → Prop
  | done returned => returned = value
  | act action next => ∀ tree, state tree →
      (tree.answer action).2 = tree ∧ (next (tree.answer action).1).Reads state value

namespace Tree

theorem answer_inspect_eq_fetch (tree : Tree) (path : Path) :
    (tree.answer (.inspect path)).1.isSome = (tree.answer (.fetch path)).1.toOption.isSome := by
  rw [answer_inspect, answer_fetch]
  cases tree.lookup path with
  | error fault => rfl
  | ok entry => cases entry <;> rfl

/-- What opening a location gives when there is no obstacle on the way. -/
def source? (tree : Tree) (location : Location) : Option Source :=
  (tree.find? location).map fun
    | .file contents _ => .file contents
    | .directory => .directory

theorem source?_congr {tree other : Tree} {location : Location}
    (hfiles : tree.files location = other.files location)
    (hdirectories : tree.find? location = some .directory ↔
      other.find? location = some .directory) :
    tree.source? location = other.source? location := by
  unfold source? files at *
  cases hfirst : tree.find? location with
  | none =>
    cases hsecond : other.find? location with
    | none => rfl
    | some entry => cases entry <;> simp [hfirst, hsecond] at hfiles hdirectories
  | some entry =>
    cases hsecond : other.find? location with
    | none => cases entry <;> simp [hfirst, hsecond] at hfiles hdirectories
    | some second => cases entry <;> cases second <;> simp_all

theorem toOption_fetch_eq_some {tree : Tree} {path : Path} {directory : Location} {name : String}
    (hpath : Location.ofPath path = some (directory ++ [name]))
    (hslash : Path.endsWithSlash path = false) {source : Source} :
    (tree.answer (.fetch path)).1.toOption = some source ↔
      tree.IsDirectory directory ∧ tree.source? (directory ++ [name]) = some source := by
  have hlookup : ∀ entry, tree.lookup path = .ok entry ↔
      tree.IsDirectory directory ∧ tree.find? (directory ++ [name]) = some entry := by
    intro entry
    rw [lookup_eq_ok hpath, above_name]
    simp [hslash]
  unfold source?
  rw [Option.map_eq_some_iff, ← exists_and_left]
  simp only [← and_assoc, ← hlookup]
  rw [answer_fetch]
  cases tree.lookup path with
  | error fault => simp [Except.toOption]
  | ok entry => cases entry <;> simp [Except.toOption]

/-- What opening a file gives does not change with what is published beside it. -/
theorem SameSetting.toOption_fetch {start tree : Tree} {directory : Location}
    (hsetting : start.SameSetting tree directory) (hnested : start.NestedIn directory) {path : Path}
    {name : String} (hpath : Location.ofPath path = some (directory ++ [name]))
    (hslash : Path.endsWithSlash path = false)
    (hfiles : tree.files (directory ++ [name]) = start.files (directory ++ [name])) :
    (tree.answer (.fetch path)).1.toOption = (start.answer (.fetch path)).1.toOption := by
  ext source
  rw [toOption_fetch_eq_some hpath hslash, toOption_fetch_eq_some hpath hslash,
    source?_congr hfiles (hsetting.within name)]
  apply and_congr_left
  intro hsource
  have hthere : start.IsDirectory directory := by
    apply hnested name
    intro hnone
    simp [source?, hnone] at hsource
  exact iff_of_true (hsetting.kept hthere) hthere

end Tree

namespace Shard

/-- What is made of what was opened: the summary of a segment that is what building the partition
would cover. -/
def judge (codebook : Codebook) (directory : Path) (partition : Partition) :
    Option Source → Except IndexError (Option SegmentSummary)
  | some (.file contents) =>
    match Segment.ofBytes (segmentPath directory partition.index) contents with
    | .error _ => .ok none
    | .ok segment => summarize codebook directory partition segment
  | _ => .ok none

/-- What a segment must be to be kept for a partition. -/
structure Covers (codebook : Codebook) (partition : Partition) (segment : Segment) : Prop where
  index : segment.partition = partition.index
  range : segment.idRange = partition.idRange
  checkCodebook : segment.checkCodebook codebook = .ok ()
  checkCodes : segment.checkCodes codebook = .ok ()

theorem summarize_eq_some {codebook : Codebook} {directory : Path} {partition : Partition}
    {segment : Segment} {summary : SegmentSummary} :
    summarize codebook directory partition segment = .ok (some summary) ↔
      Covers codebook partition segment ∧
        summary = ⟨partition.index, partition.base, partition.items.length,
          segmentPath directory partition.index, true⟩ := by
  have hcovers : Covers codebook partition segment ↔
      segment.checkCodebook codebook = .ok () ∧ segment.checkCodes codebook = .ok () ∧
        segment.partition = partition.index ∧ segment.base = partition.base ∧
          segment.count = partition.items.length := by
    constructor
    · rintro ⟨hindex, hrange, hcodebook, hcodes⟩
      obtain ⟨hbase, hcount⟩ := IdRange.mk.inj hrange
      exact ⟨hcodebook, hcodes, hindex, hbase, hcount⟩
    · rintro ⟨hcodebook, hcodes, hindex, hbase, hcount⟩
      refine ⟨hindex, ?_, hcodebook, hcodes⟩
      rw [Segment.idRange, hbase, hcount]
      rfl
  rw [hcovers]
  unfold summarize
  cases segment.checkCodebook codebook with
  | error error => simp [Except.isOk, Except.toBool]
  | ok done =>
    rw [if_neg (by simp [Except.isOk, Except.toBool])]
    cases segment.checkCodes codebook with
    | error error => cases error <;> simp
    | ok done =>
      dsimp only
      split
      · next hsame =>
        rw [and_iff_right ⟨rfl, rfl, hsame⟩, hsame.2.2, Except.ok.injEq, Option.some.injEq]
        exact eq_comm
      · next hsame => simp [hsame]

theorem judge_eq_some {codebook : Codebook} {directory : Path} {partition : Partition}
    {contents : Bytes} {summary : SegmentSummary} :
    judge codebook directory partition (some (.file contents)) = .ok (some summary) ↔
      (∃ segment, Segment.ofBytes (segmentPath directory partition.index) contents = .ok segment ∧
        Covers codebook partition segment) ∧
        summary = ⟨partition.index, partition.base, partition.items.length,
          segmentPath directory partition.index, true⟩ := by
  unfold judge
  dsimp only
  cases Segment.ofBytes (segmentPath directory partition.index) contents with
  | error reason => simp
  | ok segment => simp only [summarize_eq_some, Except.ok.injEq, exists_eq_left']

/-- The segment is looked at and then opened. -/
theorem reusable?_eq (codebook : Codebook) (directory : Path) (partition : Partition) :
    (reusable? codebook directory partition).attempt =
      .act (.inspect (segmentPath directory partition.index)) fun kind ↦
        if kind.isSome then
          .act (.fetch (segmentPath directory partition.index)) fun opened ↦
            .done (judge codebook directory partition opened.toOption)
        else .done (.ok none) := by
  unfold IndexProgram.attempt reusable?
  show StoreProgram.act _ _ = _
  congr 1
  funext kind
  cases kind with
  | none => rfl
  | some kind =>
    show StoreProgram.act _ _ = _
    congr 1
    funext opened
    cases opened with
    | error fault => rfl
    | ok source =>
      cases source with
      | directory => rfl
      | file contents =>
        show StoreProgram.bind (StoreProgram.bind
          (.done ((Segment.ofBytes _ contents).mapError _)) _) _ = .done _
        unfold judge
        dsimp only [Except.toOption]
        cases Segment.ofBytes (segmentPath directory partition.index) contents with
        | error reason => rfl
        | ok segment => rfl

theorem run_reusable? (codebook : Codebook) (directory : Path) (partition : Partition)
    (tree : Tree) : ((reusable? codebook directory partition).runOn tree).1 =
      judge codebook directory partition
        (tree.answer (.fetch (segmentPath directory partition.index))).1.toOption := by
  have hpresent := tree.answer_inspect_eq_fetch (segmentPath directory partition.index)
  show ((reusable? codebook directory partition).attempt.run tree).1 = _
  rw [reusable?_eq, StoreProgram.run]
  dsimp only
  split
  · rfl
  · next habsent =>
    rw [hpresent, Option.not_isSome_iff_eq_none] at habsent
    rw [habsent]
    rfl

variable {start : Tree} {codebook : Codebook} {directory : Path} {partition : Partition}

/-- Whether a segment can be kept does not change with what is built beside it. -/
theorem reusable?_reads (hnested : start.NestedIn (Location.ofDirectory directory)) :
    (reusable? codebook directory partition).attempt.Reads
      (fun tree ↦ start.SameSetting tree (Location.ofDirectory directory) ∧
        tree.files (Location.ofDirectory directory ++ [segmentName partition.index]) =
          start.files (Location.ofDirectory directory ++ [segmentName partition.index]))
      ((reusable? codebook directory partition).runOn start).1 := by
  have hname := isName_segmentName partition.index
  have hfetch : ∀ tree, start.SameSetting tree (Location.ofDirectory directory) ∧
      tree.files (Location.ofDirectory directory ++ [segmentName partition.index]) =
        start.files (Location.ofDirectory directory ++ [segmentName partition.index]) →
      (tree.answer (.fetch (segmentPath directory partition.index))).1.toOption =
        (start.answer (.fetch (segmentPath directory partition.index))).1.toOption := by
    rintro tree ⟨hsetting, hfiles⟩
    rw [segmentPath_eq_join]
    exact hsetting.toOption_fetch hnested (Location.ofPath_join directory hname)
      (Path.endsWithSlash_join directory hname) hfiles
  rw [run_reusable?, reusable?_eq]
  intro tree htree
  have hpresent := tree.answer_inspect_eq_fetch (segmentPath directory partition.index)
  rw [hfetch tree htree] at hpresent
  refine ⟨rfl, ?_⟩
  dsimp only
  split
  · exact fun tree htree ↦ ⟨rfl, congrArg _ (hfetch tree htree)⟩
  · next habsent =>
    rw [hpresent, Option.not_isSome_iff_eq_none] at habsent
    rw [habsent]
    rfl

/-- What building a partition comes to on a store. When it succeeds the segment is published, and
otherwise the target is left alone. -/
theorem build_beside (codebook : Codebook) (directory : Path) (encoder : Encoder)
    (batchSize : Nat) (partition : Partition) (start : Tree) : ∃ contents value,
      (build codebook directory encoder batchSize partition).Keeps
        (Publication.beside start (Location.ofDirectory directory) (segmentName partition.index)
          contents)
        (fun result last ↦ result = value ∧ last.publication = Publication.ended result)
        ⟨false, .waiting⟩ ∧
      ∀ summary, value = .ok summary →
        segmentBytes? codebook encoder batchSize partition = some contents := by
  unfold build segmentBytes?
  cases encode codebook encoder batchSize partition with
  | error interruption =>
    exact ⟨[], .error interruption, ⟨rfl, rfl⟩, fun _ hok ↦ nomatch hok⟩
  | ok pushes =>
    let summary : SegmentSummary := ⟨partition.index, partition.base,
      (draft codebook partition pushes).count, segmentPath directory partition.index, false⟩
    have hfinish : IndexProgram.Ends (Publication.beside start (Location.ofDirectory directory)
        (segmentName partition.index) (draft codebook partition pushes).toBytes)
        (fun result last ↦ result = (Publication.outcome start directory
          (segmentName partition.index)).map (fun _ ↦ summary) ∧
            last.publication = Publication.ended result)
        ((draft codebook partition pushes).finish (segmentPath directory partition.index))
        ⟨false, .waiting⟩ := by
      unfold SegmentDraft.finish
      apply IndexProgram.ends_bind
      rw [segmentPath_eq_join]
      refine StoreProgram.Keeps.imp (Publication.publishFile_beside
        (head_segmentName partition.index) (isName_segmentName partition.index)) ?_
      rintro result last ⟨hresult, hlast⟩
      cases result with
      | ok done =>
        rw [← hresult]
        exact IndexProgram.ends_pure ⟨rfl, hlast⟩
      | error error =>
        rw [← hresult]
        exact ⟨rfl, hlast⟩
    refine ⟨(draft codebook partition pushes).toBytes,
      ((Publication.outcome start directory (segmentName partition.index)).map
        fun _ ↦ summary).mapError .failed,
      StoreProgram.Keeps.bind (StoreProgram.Keeps.imp hfinish ?_), fun _ _ ↦ rfl⟩
    rintro result last ⟨hresult, hlast⟩
    apply StoreProgram.keeps_pure
    rw [← hresult]
    refine ⟨rfl, hlast.trans ?_⟩
    cases result with
    | ok done => rfl
    | error error => rfl

end Shard

namespace WorkerPool

/-- What a worker reports of a partition that it has built or failed to build. -/
def reported (index : Nat) (partition : PartitionIndex) :
    Except Interruption SegmentSummary → Except IndexError SegmentSummary
  | .ok summary => .ok summary
  | .error (.failed error) => .error error
  | .error .crashed => .error (.shardEncodingFailure partition s!"worker {index} panicked")

theorem buildOn_ok (pool : WorkerPool) (codebook : Codebook) (directory : Path) (index : Nat)
    (encoder : Encoder) (partition : Partition) :
    pool.buildOn codebook directory index (.ok encoder) partition =
      reported index partition.index <$>
        Shard.build codebook directory encoder pool.batchSize partition := by
  unfold buildOn
  rw [map_eq_pure_bind]
  dsimp only
  congr 1
  funext result
  cases result with
  | ok summary => rfl
  | error interruption => cases interruption <;> rfl

end WorkerPool

namespace Crew

/-- The location of a segment. -/
def target (crew : Crew) (partition : PartitionIndex) : Location :=
  Location.ofDirectory crew.directory ++ [segmentName partition]

/-- What a worker does with a partition comes to something that others cannot change. -/
theorem build_beside (crew : Crew) (index : Nat) (partition : Partition) (start : Tree) :
    ∃ contents value, (crew.build index partition).Keeps
        (Publication.beside start (Location.ofDirectory crew.directory)
          (segmentName partition.index) contents)
        (fun result last ↦ result = value ∧ last.publication = Publication.ended result)
        ⟨false, .waiting⟩ ∧
      ∀ summary, value = .ok summary → ∃ encoder, .ok encoder ∈ crew.encoders ∧
        Shard.segmentBytes? crew.codebook encoder crew.pool.batchSize partition =
          some contents := by
  unfold build
  cases hencoder : crew.encoders.getD index (.error (.encoder "no such worker")) with
  | error error => exact ⟨[], _, StoreProgram.keeps_pure ⟨rfl, rfl⟩, fun _ hok ↦ nomatch hok⟩
  | ok encoder =>
    obtain ⟨contents, value, hkeeps, hbytes⟩ := Shard.build_beside crew.codebook crew.directory
      encoder crew.pool.batchSize partition start
    refine ⟨contents, WorkerPool.reported index partition.index value, ?_, fun summary hok ↦ ?_⟩
    · rw [WorkerPool.buildOn_ok, map_eq_pure_bind]
      refine StoreProgram.Keeps.bind (StoreProgram.Keeps.imp hkeeps ?_)
      rintro result last ⟨rfl, hlast⟩
      apply StoreProgram.keeps_pure
      refine ⟨rfl, hlast.trans ?_⟩
      cases result with
      | ok summary => rfl
      | error interruption => cases interruption <;> rfl
    · cases value with
      | ok built => exact ⟨encoder, crew.mem_encoders hencoder, hbytes built rfl⟩
      | error interruption => cases interruption <;> cases hok

/-- What is left of a partition that is built alone: its segment, or what was there before. -/
theorem files_run_build (crew : Crew) (index : Nat) (partition : Partition) (start : Tree) :
    match ((crew.build index partition).run start).1 with
    | .ok _ => crew.HasSegment ((crew.build index partition).run start).2 partition
    | .error _ => ((crew.build index partition).run start).2.files
        (crew.target partition.index) = start.files (crew.target partition.index) := by
  obtain ⟨contents, value, hkeeps, hbytes⟩ := crew.build_beside index partition start
  obtain ⟨last, ⟨hvalue, hlast⟩, hagrees⟩ :=
    hkeeps.run (Publication.agrees_beside_start start _ _ _)
  have hfiles := Publication.files_of_ended hlast hagrees
  rw [hvalue] at hfiles ⊢
  cases value with
  | ok summary =>
    obtain ⟨encoder, hencoder, hsegment⟩ := hbytes summary rfl
    exact ⟨encoder, contents, hencoder, hsegment, hfiles⟩
  | error error => exact hfiles

end Crew
end VectorIndex
