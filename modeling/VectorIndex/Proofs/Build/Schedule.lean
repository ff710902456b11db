import Mathlib.Data.List.Perm.Basic
import Mathlib.Logic.Function.Basic
import VectorIndex.Build.Schedule
import VectorIndex.Proofs.Build.Shard

/-!
# What a pool does under every schedule

However the turns of the producer and the workers follow on each other, every partition that was
read is at one place: it waits, somebody has it in hand, or it has its outcome. A producer that has
crashed keeps the partition over whose segment it did. The programs of the workers leave each
other's files alone, so a segment whose partition has succeeded stays what its worker has written.
-/

namespace VectorIndex

/-! ## Where the partitions are -/

def Production.partition? : Production → Option Partition
  | examining partition _ => some partition
  | offering partition => some partition
  | crashed partition => some partition
  | _ => none

def Activity.partition? : Activity → Option Partition
  | building partition _ => some partition
  | idle => none

theorem Activity.isIdle_iff {activity : Activity} : activity.isIdle = true ↔ activity = .idle := by
  cases activity with
  | idle => exact iff_of_true rfl rfl
  | building partition program => exact iff_of_false nofun nofun

/-- No worker has anything to do. -/
structure PoolState.IsAtRest (state : PoolState) : Prop where
  queue : state.queue = []
  idle : ∀ activity ∈ state.activities, activity = .idle

/-- No worker has anything to do and the stream has come to its end, in an error or not. -/
structure PoolState.IsDone (state : PoolState) : Prop extends state.IsAtRest where
  stopped : ∃ failure, state.production = .stopped failure

theorem PoolState.IsAtRest.building_eq_nil {state : PoolState} (hrest : state.IsAtRest) :
    state.activities.filterMap (·.partition?) = [] := by
  rw [List.filterMap_eq_nil_iff]
  intro activity hactivity
  rw [hrest.idle activity hactivity]
  rfl

/-- A pool reports when its production has ended and no worker has anything to do. -/
theorem PoolState.report?_eq_some {state : PoolState} {outcomes : List Outcome}
    {report : Except IndexError PoolReport} :
    state.report? = some (outcomes, report) ↔
      ∃ failure, state.production.failure? = some failure ∧ state.IsAtRest ∧
        outcomes = state.outcomes.mergeSort (fun a b ↦ a.partition ≤ b.partition) ∧
        report = PoolReport.ofOutcomes outcomes failure := by
  have hrest : state.IsAtRest ↔
      state.queue = [] ∧ ∀ activity ∈ state.activities, activity = .idle :=
    ⟨fun ⟨hqueue, hidle⟩ ↦ ⟨hqueue, hidle⟩, fun ⟨hqueue, hidle⟩ ↦ ⟨hqueue, hidle⟩⟩
  rw [hrest]
  unfold report?
  cases state.production.failure? with
  | none => simp
  | some failure =>
    simp only [Bool.and_eq_true, List.isEmpty_iff, List.all_eq_true, Activity.isIdle_iff,
      Option.ite_none_right_eq_some, Option.some.injEq, Prod.mk.injEq, exists_eq_left']
    refine and_congr_right fun _ ↦ ?_
    constructor
    · rintro ⟨rfl, rfl⟩
      exact ⟨rfl, rfl⟩
    · rintro ⟨rfl, rfl⟩
      exact ⟨rfl, rfl⟩

/-- A pool that reports without an error has not crashed over a segment. -/
theorem PoolState.isDone_of_report? {state : PoolState} {outcomes : List Outcome}
    {report : PoolReport} (hreport : state.report? = some (outcomes, .ok report)) :
    state.IsDone := by
  obtain ⟨failure, hfailure, hrest, -, hmade⟩ := report?_eq_some.mp hreport
  refine ⟨hrest, failure, ?_⟩
  cases hproduction : state.production with
  | stopped ended =>
    rw [hproduction] at hfailure
    rw [Option.some.inj hfailure]
  | crashed partition =>
    rw [hproduction] at hfailure
    obtain rfl := Option.some.inj hfailure
    cases hmade
  | _ =>
    rw [hproduction] at hfailure
    cases hfailure

/-- The partitions before the first error of a stream. -/
def Partition.leading : List (Except IndexError Partition) → List Partition
  | .ok partition :: rest => partition :: leading rest
  | _ => []

theorem Partition.leading_map_ok (partitions : List Partition) :
    leading (partitions.map .ok) = partitions := by
  induction partitions with
  | nil => rfl
  | cons partition rest ih => rw [List.map_cons, leading, ih]

/-- The partitions that have no outcome yet. -/
def PoolState.pending (state : PoolState) : List Partition :=
  state.production.partition?.toList ++ (state.queue ++
    (state.activities.filterMap (·.partition?) ++ Partition.leading state.stream))

theorem filterMap_cons_eq {α β : Type} (f : α → Option β) (item : α) (rest : List α) :
    (item :: rest).filterMap f = (f item).toList ++ rest.filterMap f := by
  rw [List.filterMap_cons]
  cases f item <;> rfl

/-- An item that is replaced takes what it stands for with it. -/
theorem filterMap_set_perm {α β : Type} (f : α → Option β) {items : List α} {index : Nat}
    {old : α} (hold : items[index]? = some old) (new : α) :
    ((f old).toList ++ (items.set index new).filterMap f).Perm
      ((f new).toList ++ items.filterMap f) := by
  induction items generalizing index with
  | nil => cases hold
  | cons item rest ih =>
    cases index with
    | zero =>
      obtain rfl := Option.some.inj hold
      rw [List.set_cons_zero, filterMap_cons_eq, filterMap_cons_eq]
      exact List.perm_append_comm_assoc _ _ _
    | succ index =>
      rw [List.set_cons_succ, filterMap_cons_eq, filterMap_cons_eq]
      exact (List.perm_append_comm_assoc _ _ _).trans
        (((ih hold).append_left _).trans (List.perm_append_comm_assoc _ _ _))

/-- What is true of every worker and what it has in hand stays so when it is true of the one that
turns to something else. -/
theorem forall_set_update {α β : Type} (relates : Nat → β → Option α → Prop) {items : List α}
    {holders : Nat → β} {index : Nat} {old new : α} {later : β} (hold : items[index]? = some old)
    (hindex : relates index later (some new))
    (hothers : ∀ i, i ≠ index → relates i (holders i) items[i]?) (i : Nat) :
    relates i (Function.update holders index later i) (items.set index new)[i]? := by
  by_cases hi : i = index
  · obtain ⟨hlt, -⟩ := List.getElem?_eq_some_iff.mp hold
    rw [hi, List.getElem?_set_self hlt, Function.update_self]
    exact hindex
  · rw [List.getElem?_set_ne (Ne.symm hi), Function.update_of_ne hi]
    exact hothers i hi

/-- No two workers hold the same name, when the one that goes on holds none of the others'. -/
theorem apart_update {β : Type} (name? : β → Option String) {holders : Nat → β} {index : Nat}
    {later : β}
    (hapart : ∀ i j, i ≠ j → ∀ name, name? (holders i) = some name →
      name? (holders j) ≠ some name)
    (hothers : ∀ i, i ≠ index → ∀ name, name? (holders i) = some name → name? later ≠ some name)
    (i j : Nat) (hij : i ≠ j) (name : String)
    (hname : name? (Function.update holders index later i) = some name) :
    name? (Function.update holders index later j) ≠ some name := by
  by_cases hi : i = index
  · rw [hi, Function.update_self] at hname
    rw [Function.update_of_ne (hi ▸ hij.symm)]
    exact fun hsame ↦ hothers j (hi ▸ hij.symm) name hsame hname
  · rw [Function.update_of_ne hi] at hname
    by_cases hj : j = index
    · rw [hj, Function.update_self]
      exact hothers i hi name hname
    · rw [Function.update_of_ne hj]
      exact hapart i j hij name hname

/-- A worker that turns to something else changes nothing but what it has in hand. -/
theorem PoolState.pending_set_perm (state : PoolState) {index : Nat} {old : Activity}
    (hold : state.activities[index]? = some old) (new : Activity) :
    (old.partition?.toList ++
      { state with activities := state.activities.set index new }.pending).Perm
        (new.partition?.toList ++ state.pending) := by
  have hset := filterMap_set_perm (·.partition?) hold new
  unfold pending
  rw [List.perm_iff_count] at *
  intro partition
  have hcount := hset partition
  simp only [List.count_append] at *
  omega

theorem PoolState.mem_pending_of_building {state : PoolState} {index : Nat}
    {partition : Partition} {program : StoreProgram (Except IndexError SegmentSummary)}
    (hactivity : state.activities[index]? = some (.building partition program)) :
    partition ∈ state.pending := by
  have hbuilding : partition ∈ state.activities.filterMap (·.partition?) :=
    List.mem_filterMap.mpr ⟨_, List.mem_of_getElem? hactivity, rfl⟩
  unfold pending
  simp [hbuilding]

namespace Crew

/-! ## The invariant -/

/-- The segment of a partition is what one of the encoders makes of it. -/
def HasSegment (crew : Crew) (tree : Tree) (partition : Partition) : Prop :=
  ∃ encoder contents, .ok encoder ∈ crew.encoders ∧
    Shard.segmentBytes? crew.codebook encoder crew.pool.batchSize partition = some contents ∧
      tree.files (Location.ofDirectory crew.directory ++ [segmentName partition.index]) =
        some contents

/-- The outcome is that of the partition. When it is a success, and not that of an earlier build,
the segment is there. -/
def Delivers (crew : Crew) (tree : Tree) (partition : Partition) (outcome : Outcome) : Prop :=
  outcome.partition = partition.index ∧ ∀ summary, outcome.result = .ok summary →
    crew.pool.resume = false → crew.HasSegment tree partition

/-- What a worker has published so far, and that the rest of its program will publish the
segment. -/
def Works (crew : Crew) (tree : Tree) (publication : Publication) : Option Activity → Prop
  | some (.building partition program) => ∃ contents,
    (Shard.discipline crew.directory partition contents).agrees publication tree ∧
      program.Keeps (Shard.discipline crew.directory partition contents)
        (fun result last ↦ ∀ summary, result = .ok summary → last = .published ∧
          ∃ encoder, .ok encoder ∈ crew.encoders ∧
            Shard.segmentBytes? crew.codebook encoder crew.pool.batchSize partition =
              some contents) publication
  | _ => publication = .waiting

/-- The invariant of a pool: `finished` are the partitions of the outcomes, and `publications` say
how far the workers are. -/
structure Sound (crew : Crew) (partitions finished : List Partition)
    (publications : Nat → Publication) (state : PoolState) (tree : Tree) : Prop where
  accounted : (finished ++ state.pending).Perm partitions
  delivered : List.Forall₂ (crew.Delivers tree) finished state.outcomes
  working : ∀ index, crew.Works tree (publications index) state.activities[index]?
  apart : ∀ i j, i ≠ j → ∀ temporary, (publications i).temporary? = some temporary →
    (publications j).temporary? ≠ some temporary
  examining : ∀ partition program, state.production = .examining partition program →
    program.OnlyReads ∧ crew.pool.resume = true
  stopped : ∀ failure, state.production = .stopped failure →
    Partition.leading state.stream = []

variable {crew : Crew} {partitions finished : List Partition}
  {publications : Nat → Publication} {state : PoolState} {tree : Tree}

theorem sound_start (crew : Crew) (workers : Nat) (stream : List (Except IndexError Partition))
    (tree : Tree) : crew.Sound (Partition.leading stream) [] (fun _ ↦ .waiting)
      (.start workers stream) tree := by
  have hidle : ∀ count, (List.replicate count Activity.idle).filterMap (·.partition?) = [] := by
    intro count
    rw [List.filterMap_eq_nil_iff]
    intro activity hactivity
    rw [List.eq_of_mem_replicate hactivity]
    rfl
  refine ⟨?_, .nil, fun index ↦ ?_, ?_, ?_, ?_⟩
  · show ((List.replicate workers Activity.idle).filterMap (·.partition?) ++ _).Perm _
    rw [hidle]
    exact List.Perm.refl _
  · show crew.Works tree .waiting (List.replicate workers Activity.idle)[index]?
    rw [List.getElem?_replicate]
    split
    · rfl
    · rfl
  · intro _ _ _ temporary htemporary
    cases htemporary
  · intro partition program hproduction
    cases hproduction
  · intro failure hproduction
    cases hproduction

/-! ## A turn of the producer -/

/-- A partition that is read is in the hands of the producer. -/
theorem Sound.read (hsound : crew.Sound partitions finished publications state tree)
    {partition : Partition} {rest : List (Except IndexError Partition)} {production : Production}
    (hproduction : production = if crew.pool.resume then
        .examining partition (Shard.reusable? crew.codebook crew.directory partition).attempt
      else .offering partition)
    (hreading : state.production = .reading) (hstream : state.stream = .ok partition :: rest) :
    crew.Sound partitions finished publications { state with stream := rest, production } tree := by
  have hhand : production.partition? = some partition := by
    rw [hproduction]
    split
    · rfl
    · rfl
  have hmoved : ({ state with stream := rest, production } : PoolState).pending.Perm
      state.pending := by
    unfold PoolState.pending
    rw [hhand, hreading, hstream]
    show (partition :: (state.queue ++ _)).Perm (state.queue ++ (_ ++ partition :: _))
    rw [← List.append_assoc, ← List.append_assoc]
    exact List.perm_middle.symm
  refine { hsound with
    accounted := (hmoved.append_left finished).trans hsound.accounted
    examining := ?_, stopped := ?_ }
  · intro given program hexamining
    cases hresume : crew.pool.resume with
    | true =>
      rw [hproduction, hresume] at hexamining
      obtain ⟨rfl, rfl⟩ := Production.examining.inj hexamining
      exact ⟨Shard.reusable?_onlyReads _ _ _, rfl⟩
    | false =>
      rw [hproduction, hresume] at hexamining
      cases hexamining
  · intro failure hstopped
    dsimp only at hstopped
    rw [hstopped] at hhand
    cases hhand

/-- A partition whose segment is kept has its outcome. -/
theorem Sound.keep (hsound : crew.Sound partitions finished publications state tree)
    {partition : Partition} {program : StoreProgram (Except IndexError (Option SegmentSummary))}
    (hexamining : state.production = .examining partition program) (summary : SegmentSummary) :
    crew.Sound partitions (finished ++ [partition]) publications { state with
      production := .reading, outcomes := state.outcomes ++ [⟨partition.index, .ok summary⟩] }
      tree := by
  have hresume := (hsound.examining partition program hexamining).2
  refine { hsound with
    accounted := ?_, delivered := ?_, examining := nofun, stopped := nofun }
  · have haccounted := hsound.accounted
    unfold PoolState.pending at haccounted
    rw [hexamining] at haccounted
    rw [List.append_assoc]
    exact haccounted
  · refine List.rel_append hsound.delivered (.cons ⟨rfl, fun _ _ hfresh ↦ ?_⟩ .nil)
    rw [hresume] at hfresh
    cases hfresh

/-- A partition that is put into the queue is not lost. -/
theorem Sound.enqueue (hsound : crew.Sound partitions finished publications state tree)
    {partition : Partition} (hoffering : state.production = .offering partition) :
    crew.Sound partitions finished publications
      { state with production := .reading, queue := state.queue ++ [partition] } tree := by
  have hmoved :
      { state with production := .reading, queue := state.queue ++ [partition] }.pending.Perm
        state.pending := by
    unfold PoolState.pending
    rw [hoffering]
    show (state.queue ++ [partition] ++ _).Perm (partition :: (state.queue ++ _))
    rw [List.append_assoc]
    exact List.perm_middle
  exact { hsound with
    accounted := (hmoved.append_left finished).trans hsound.accounted
    examining := nofun, stopped := nofun }

/-- The producer never changes the store, and every turn of it keeps the invariant. -/
theorem Sound.produce (hsound : crew.Sound partitions finished publications state tree) :
    ((crew.produce state).run tree).2 = tree ∧ ∃ finished,
      crew.Sound partitions finished publications ((crew.produce state).run tree).1 tree := by
  obtain ⟨stream, production, queue, activities, outcomes⟩ := state
  unfold produce
  cases production with
  | reading =>
    cases stream with
    | nil => exact ⟨rfl, finished, { hsound with examining := nofun, stopped := fun _ _ ↦ rfl }⟩
    | cons item rest =>
      cases item with
      | error error =>
        exact ⟨rfl, finished, { hsound with examining := nofun, stopped := fun _ _ ↦ rfl }⟩
      | ok partition => exact ⟨rfl, finished, hsound.read rfl rfl rfl⟩
  | examining partition program =>
    obtain ⟨hreads, hresume⟩ := hsound.examining partition program rfl
    cases program with
    | act action next =>
      refine ⟨hreads.1 tree, finished, { hsound with examining := ?_, stopped := nofun }⟩
      intro given program hproduction
      obtain ⟨rfl, rfl⟩ := Production.examining.inj hproduction
      exact ⟨hreads.2 _, hresume⟩
    | done reused =>
      cases reused with
      | error error => exact ⟨rfl, finished, { hsound with examining := nofun, stopped := nofun }⟩
      | ok reused =>
        cases reused with
        | none => exact ⟨rfl, finished, { hsound with examining := nofun, stopped := nofun }⟩
        | some summary => exact ⟨rfl, finished ++ [partition], hsound.keep rfl summary⟩
  | offering partition =>
    dsimp only
    split
    · exact ⟨rfl, finished, hsound.enqueue rfl⟩
    · exact ⟨rfl, finished, hsound⟩
  | crashed partition => exact ⟨rfl, finished, hsound⟩
  | stopped failure => exact ⟨rfl, finished, hsound⟩

/-! ## A turn of a worker -/

/-- The encoder of a worker is one of those of the crew. -/
theorem mem_encoders (crew : Crew) {index : Nat} {encoder : Encoder}
    (hencoder : crew.encoders.getD index (.error (.encoder "no such worker")) = .ok encoder) :
    .ok encoder ∈ crew.encoders := by
  rw [List.getD_eq_getElem?_getD] at hencoder
  cases hfound : crew.encoders[index]? with
  | none =>
    rw [hfound] at hencoder
    cases hencoder
  | some found =>
    rw [hfound, Option.getD_some] at hencoder
    exact hencoder ▸ List.mem_of_getElem? hfound

/-- What a worker does with a partition publishes the segment, or fails. -/
theorem works_build (crew : Crew) (index : Nat) (partition : Partition) (tree : Tree) :
    crew.Works tree .waiting (some (.building partition (crew.build index partition))) := by
  unfold build
  cases hencoder : crew.encoders.getD index (.error (.encoder "no such worker")) with
  | error error => exact ⟨[], trivial, fun _ hok ↦ nomatch hok⟩
  | ok encoder =>
    obtain ⟨contents, hkeeps⟩ := Shard.build_keeps crew.codebook crew.directory encoder
      crew.pool.batchSize partition
    refine ⟨contents, trivial, StoreProgram.Keeps.bind (StoreProgram.Keeps.imp hkeeps ?_)⟩
    intro result last hresult
    cases result with
    | ok summary =>
      obtain ⟨hpublished, hbytes⟩ := hresult summary rfl
      exact fun _ _ ↦ ⟨hpublished, encoder, crew.mem_encoders hencoder, hbytes⟩
    | error interruption =>
      cases interruption with
      | failed error => exact fun _ hok ↦ nomatch hok
      | crashed => exact fun _ hok ↦ nomatch hok

section

variable (hsound : crew.Sound partitions finished publications state tree)
  (hnodup : (partitions.map (·.index)).Nodup)
include hsound hnodup

theorem Sound.nodup : ((finished ++ state.pending).map (·.index)).Nodup :=
  (hsound.accounted.map _).nodup_iff.mpr hnodup

/-- A partition that has its outcome is not under way. -/
theorem Sound.index_ne_of_finished {partition other : Partition}
    (hpartition : partition ∈ state.pending) (hother : other ∈ finished) :
    other.index ≠ partition.index := by
  have hall := hsound.nodup hnodup
  rw [List.map_append, List.nodup_append] at hall
  exact hall.2.2 _ (List.mem_map_of_mem hother) _ (List.mem_map_of_mem hpartition)

variable {index : Nat} {partition : Partition}
  {program : StoreProgram (Except IndexError SegmentSummary)}
  (hactivity : state.activities[index]? = some (.building partition program))
include hactivity

theorem Sound.index_ne_of_building {i : Nat} (hi : i ≠ index) {other : Partition}
    {rest : StoreProgram (Except IndexError SegmentSummary)}
    (hother : state.activities[i]? = some (.building other rest)) :
    other.index ≠ partition.index := by
  have hsublist : (state.activities.filterMap (·.partition?)).Sublist
      (finished ++ state.pending) := by
    refine List.Sublist.trans ?_ (List.sublist_append_right _ _)
    refine List.Sublist.trans ?_ (List.sublist_append_right _ _)
    exact (List.sublist_append_left _ _).trans (List.sublist_append_right _ _)
  have hpairwise := (hsound.nodup hnodup).sublist (hsublist.map _)
  rw [List.Nodup, List.pairwise_map, List.pairwise_filterMap,
    List.pairwise_iff_getElem] at hpairwise
  obtain ⟨hlt, hget⟩ := List.getElem?_eq_some_iff.mp hactivity
  obtain ⟨hlt', hget'⟩ := List.getElem?_eq_some_iff.mp hother
  rcases Nat.lt_or_gt_of_ne hi with hbefore | hbefore
  · exact hpairwise i index hlt' hlt hbefore other (by rw [hget']; rfl) partition
      (by rw [hget]; rfl)
  · exact (hpairwise index i hlt hlt' hbefore partition (by rw [hget]; rfl) other
      (by rw [hget']; rfl)).symm

end

section

variable {partition : Partition} {contents : Bytes} {first second : Publication}
  {before after : Tree}
  (hallows : (Shard.discipline crew.directory partition contents).allows first second before after)
  (hfirst : (Shard.discipline crew.directory partition contents).agrees first before)
  (hsecond : (Shard.discipline crew.directory partition contents).agrees second after)
include hallows hfirst hsecond

/-- The segments of other partitions are left alone. -/
theorem HasSegment.of_allows {other : Partition} (hne : other.index ≠ partition.index)
    (hsegment : crew.HasSegment before other) : crew.HasSegment after other := by
  obtain ⟨encoder, bytes, hencoder, hbytes, hfile⟩ := hsegment
  refine ⟨encoder, bytes, hencoder, hbytes, ?_⟩
  rw [← hfile]
  exact Publication.files_of_allows hallows hfirst hsecond
    (fun heq ↦ hne (segmentName_injective heq)) (head_segmentName _)

/-- The work on other partitions is left alone. -/
theorem Works.of_allows {activity : Option Activity} {publication : Publication}
    (hne : ∀ other program, activity = some (.building other program) →
      other.index ≠ partition.index)
    (hapart : ∀ temporary, publication.temporary? = some temporary →
      first.temporary? ≠ some temporary) (hworks : crew.Works before publication activity) :
    crew.Works after publication activity ∧
      ∀ temporary, publication.temporary? = some temporary →
        second.temporary? ≠ some temporary := by
  have hwaiting : publication = .waiting → ∀ temporary,
      publication.temporary? = some temporary → second.temporary? ≠ some temporary := by
    rintro rfl temporary htemporary
    cases htemporary
  cases activity with
  | none => exact ⟨hworks, hwaiting hworks⟩
  | some activity =>
    cases activity with
    | idle => exact ⟨hworks, hwaiting hworks⟩
    | building other program =>
      obtain ⟨others, hagrees, hkeeps⟩ := hworks
      obtain ⟨hlater, hfree⟩ := Publication.agrees_of_allows hallows hfirst hsecond
        (fun heq ↦ hne other program rfl (segmentName_injective heq)) (head_segmentName _)
        (head_segmentName _) hapart hagrees
      exact ⟨⟨others, hlater, hkeeps⟩, hfree⟩

end

/-- A worker that takes a partition has published nothing of it yet. -/
theorem Sound.take (hsound : crew.Sound partitions finished publications state tree)
    {index : Nat} (hactivity : state.activities[index]? = some .idle) {partition : Partition}
    {rest : List Partition} (hqueue : state.queue = partition :: rest) :
    crew.Sound partitions finished publications { state with
      queue := rest
      activities := state.activities.set index (.building partition (crew.build index partition)) }
      tree := by
  have hwaiting : publications index = .waiting := by
    have hworks := hsound.working index
    rwa [hactivity] at hworks
  refine ⟨?_, hsound.delivered, fun i ↦ ?_, hsound.apart, hsound.examining, hsound.stopped⟩
  · refine List.Perm.trans (List.Perm.append_left finished ?_) hsound.accounted
    refine (PoolState.pending_set_perm { state with queue := rest } hactivity _).trans ?_
    unfold PoolState.pending
    rw [hqueue]
    show (partition :: (_ ++ (rest ++ _))).Perm (_ ++ (partition :: (rest ++ _)))
    exact List.perm_middle.symm
  · have hset := forall_set_update (fun _ ↦ crew.Works tree) hactivity
      (crew.works_build index partition tree) (fun i _ ↦ hsound.working i) i
    rwa [← hwaiting, Function.update_eq_self] at hset

/-- A worker that is done with a partition leaves an outcome, and the segment when it has
succeeded. -/
theorem Sound.finish (hsound : crew.Sound partitions finished publications state tree)
    {index : Nat} {partition : Partition} {result : Except IndexError SegmentSummary}
    (hactivity : state.activities[index]? = some (.building partition (.done result))) :
    crew.Sound partitions (finished ++ [partition])
      (Function.update publications index .waiting) { state with
        activities := state.activities.set index .idle
        outcomes := state.outcomes ++ [⟨partition.index, result⟩] } tree := by
  refine ⟨?_, ?_, fun i ↦ ?_, ?_, hsound.examining, hsound.stopped⟩
  · refine List.Perm.trans ?_ hsound.accounted
    rw [List.append_assoc]
    exact List.Perm.append_left finished (state.pending_set_perm hactivity .idle)
  · refine List.rel_append hsound.delivered (.cons ⟨rfl, fun summary hsummary _ ↦ ?_⟩ .nil)
    have hworks := hsound.working index
    rw [hactivity] at hworks
    obtain ⟨contents, hagrees, hkeeps⟩ := hworks
    obtain ⟨hpublished, encoder, hencoder, hbytes⟩ := hkeeps summary hsummary
    rw [hpublished] at hagrees
    exact ⟨encoder, contents, hencoder, hbytes, hagrees⟩
  · refine forall_set_update (fun _ ↦ crew.Works tree) hactivity ?_ (fun i _ ↦ hsound.working i) i
    rfl
  · exact apart_update Publication.temporary? hsound.apart fun _ _ _ _ ↦ nofun

/-- An action of one worker leaves alone what the others have published and are publishing. -/
theorem Sound.advance (hsound : crew.Sound partitions finished publications state tree)
    (hnodup : (partitions.map (·.index)).Nodup) {index : Nat} {partition : Partition}
    {action : Action} {next : action.Answer → StoreProgram (Except IndexError SegmentSummary)}
    (hactivity : state.activities[index]? = some (.building partition (.act action next))) :
    ∃ later, crew.Sound partitions finished (Function.update publications index later)
      { state with
        activities := state.activities.set index
          (.building partition (next (tree.answer action).1)) }
      (tree.answer action).2 := by
  have hworks := hsound.working index
  rw [hactivity] at hworks
  obtain ⟨contents, hagrees, hkeeps⟩ := hworks
  obtain ⟨later, hallows, hafter, hnext⟩ := hkeeps tree hagrees
  have hothers : ∀ i, i ≠ index → crew.Works (tree.answer action).2 (publications i)
      state.activities[i]? ∧ ∀ temporary, (publications i).temporary? = some temporary →
        later.temporary? ≠ some temporary := by
    intro i hi
    refine Works.of_allows hallows hagrees hafter ?_ (hsound.apart i index hi) (hsound.working i)
    exact fun other program hother ↦ hsound.index_ne_of_building hnodup hactivity hi hother
  refine ⟨later, ?_, ?_, fun i ↦ ?_, ?_, hsound.examining, hsound.stopped⟩
  · refine List.Perm.trans (List.Perm.append_left finished ?_) hsound.accounted
    exact (List.perm_append_left_iff [partition]).mp (state.pending_set_perm hactivity _)
  · have hne : ∀ other ∈ finished, other.index ≠ partition.index :=
      fun other hother ↦ hsound.index_ne_of_finished hnodup
        (PoolState.mem_pending_of_building hactivity) hother
    refine ((List.forall₂_and_left _ _).mpr ⟨hne, hsound.delivered⟩).imp ?_
    intro other outcome hother
    obtain ⟨hother, hindex, hdelivers⟩ := hother
    refine ⟨hindex, fun summary hsummary hfresh ↦ ?_⟩
    exact (hdelivers summary hsummary hfresh).of_allows hallows hagrees hafter hother
  · refine forall_set_update (fun _ ↦ crew.Works (tree.answer action).2) hactivity ?_
      (fun i hi ↦ (hothers i hi).1) i
    exact ⟨contents, hafter, hnext⟩
  · exact apart_update Publication.temporary? hsound.apart fun i hi ↦ (hothers i hi).2

/-- Every turn of a worker keeps the invariant. -/
theorem Sound.work (hsound : crew.Sound partitions finished publications state tree)
    (hnodup : (partitions.map (·.index)).Nodup) (index : Nat) : ∃ finished publications,
      crew.Sound partitions finished publications ((crew.work index state).run tree).1
        ((crew.work index state).run tree).2 := by
  have hworks := hsound.working index
  unfold Crew.work
  cases hactivity : state.activities[index]? with
  | none => exact ⟨finished, publications, hsound⟩
  | some activity =>
    rw [hactivity] at hworks
    cases activity with
    | idle =>
      cases hqueue : state.queue with
      | nil => exact ⟨finished, publications, hsound⟩
      | cons partition rest => exact ⟨finished, publications, hsound.take hactivity hqueue⟩
    | building partition program =>
      cases program with
      | act action next =>
        obtain ⟨later, hlater⟩ := hsound.advance hnodup hactivity
        exact ⟨finished, _, hlater⟩
      | done result => exact ⟨_, _, hsound.finish hactivity⟩

/-! ## Whole schedules -/

theorem Sound.turn (hsound : crew.Sound partitions finished publications state tree)
    (hnodup : (partitions.map (·.index)).Nodup) (party : Party) : ∃ finished publications,
      crew.Sound partitions finished publications ((crew.turn party state).run tree).1
        ((crew.turn party state).run tree).2 := by
  cases party with
  | producer =>
    obtain ⟨htree, finished, hproduced⟩ := hsound.produce
    exact ⟨finished, publications, htree.symm ▸ hproduced⟩
  | worker index => exact hsound.work hnodup index

theorem Sound.follow (hsound : crew.Sound partitions finished publications state tree)
    (hnodup : (partitions.map (·.index)).Nodup) (schedule : List Party) :
    ∃ finished publications,
      crew.Sound partitions finished publications ((crew.follow schedule state).run tree).1
        ((crew.follow schedule state).run tree).2 := by
  induction schedule generalizing finished publications state tree with
  | nil => exact ⟨finished, publications, hsound⟩
  | cons party rest ih =>
    obtain ⟨_, _, hturn⟩ := hsound.turn hnodup party
    rw [Crew.follow, StoreProgram.run_bind]
    exact ih hturn

/-- A pool that is done has no partition under way. -/
theorem Sound.pending_eq_nil (hsound : crew.Sound partitions finished publications state tree)
    (hdone : state.IsDone) : state.pending = [] := by
  obtain ⟨failure, hproduction⟩ := hdone.stopped
  unfold PoolState.pending
  rw [hproduction, hdone.queue, hdone.building_eq_nil, hsound.stopped failure hproduction]
  rfl

/-- When the pool reports without an error, every partition before the first error of the stream
has its outcome. -/
theorem Sound.report (hsound : crew.Sound partitions finished publications state tree)
    {outcomes : List Outcome} {report : PoolReport}
    (hreport : state.report? = some (outcomes, .ok report)) :
    finished.Perm partitions ∧ outcomes.Perm state.outcomes ∧ report.outcomes = outcomes := by
  have haccounted := hsound.accounted
  rw [hsound.pending_eq_nil (PoolState.isDone_of_report? hreport), List.append_nil] at haccounted
  obtain ⟨failure, -, -, rfl, hmade⟩ := PoolState.report?_eq_some.mp hreport
  cases failure with
  | some error => cases hmade
  | none =>
    obtain rfl := Except.ok.inj hmade
    exact ⟨haccounted, List.mergeSort_perm _ _, rfl⟩

end Crew

/-! ## The report -/

/-- A report succeeds when every outcome does, with one summary for each. -/
theorem PoolReport.result_ok {report : PoolReport} {segments : List SegmentSummary}
    (hresult : report.result = .ok segments) : segments.length = report.outcomes.length ∧
      ∀ outcome ∈ report.outcomes, ∃ summary, outcome.result = .ok summary := by
  unfold result at hresult
  split at hresult
  · next hempty =>
    obtain rfl := Except.ok.inj hresult
    have hall : ∀ outcome ∈ report.outcomes, ∃ summary, outcome.result = .ok summary := by
      intro outcome houtcome
      rw [List.isEmpty_iff, failures, List.filterMap_eq_nil_iff] at hempty
      have hnone := hempty outcome houtcome
      cases houtcome : outcome.result with
      | ok summary => exact ⟨summary, rfl⟩
      | error error => simp [houtcome] at hnone
    refine ⟨?_, hall⟩
    unfold summaries
    rw [List.length_filterMap_eq_countP, List.countP_eq_length]
    intro outcome houtcome
    obtain ⟨summary, hsummary⟩ := hall outcome houtcome
    rw [hsummary]
    rfl
  · cases hresult

/-- A report without a failed outcome is a success. -/
theorem PoolReport.exists_result {outcomes : List Outcome}
    (hall : ∀ outcome ∈ outcomes, ∃ summary, outcome.result = .ok summary) :
    ∃ segments, PoolReport.result ⟨outcomes⟩ = .ok segments := by
  have hnone : PoolReport.failures ⟨outcomes⟩ = [] := by
    unfold failures
    rw [List.filterMap_eq_nil_iff]
    intro outcome houtcome
    obtain ⟨summary, hsummary⟩ := hall outcome houtcome
    rw [hsummary]
  unfold result
  rw [hnone]
  exact ⟨_, rfl⟩

theorem exists_of_forall₂ {α β : Type} {relation : α → β → Prop} {first : List α}
    {second : List β} (hall : List.Forall₂ relation first second) {item : α}
    (hitem : item ∈ first) : ∃ other ∈ second, relation item other := by
  induction hall with
  | nil => cases hitem
  | cons hrelation hrest ih =>
    rcases List.mem_cons.mp hitem with rfl | hitem
    · exact ⟨_, List.mem_cons_self, hrelation⟩
    · obtain ⟨other, hother, hrelated⟩ := ih hitem
      exact ⟨other, List.mem_cons_of_mem _ hother, hrelated⟩

/-- Under every schedule a pool that builds everything anew, and succeeds, leaves the segment of
every partition. -/
theorem Crew.follow_ok {crew : Crew} (hresume : crew.pool.resume = false)
    {stream : List (Except IndexError Partition)}
    (hnodup : ((Partition.leading stream).map (·.index)).Nodup) {schedule : List Party}
    {workers : Nat} {tree changed : Tree} {state : PoolState}
    (hrun : (crew.follow schedule (.start workers stream)).run tree = (state, changed))
    {outcomes : List Outcome} {report : PoolReport}
    (hreport : state.report? = some (outcomes, .ok report)) {segments : List SegmentSummary}
    (hresult : report.result = .ok segments) :
    segments.length = (Partition.leading stream).length ∧
      ∀ partition ∈ Partition.leading stream, crew.HasSegment changed partition := by
  obtain ⟨finished, publications, hsound⟩ :=
    (crew.sound_start workers stream tree).follow hnodup schedule
  rw [hrun] at hsound
  obtain ⟨hfinished, houtcomes, hmade⟩ := hsound.report hreport
  obtain ⟨hlength, hall⟩ := PoolReport.result_ok hresult
  rw [hmade] at hlength hall
  refine ⟨?_, fun partition hpartition ↦ ?_⟩
  · rw [hlength, houtcomes.length_eq, ← hsound.delivered.length_eq, hfinished.length_eq]
  · obtain ⟨outcome, houtcome, -, hdelivers⟩ :=
      exists_of_forall₂ hsound.delivered (hfinished.mem_iff.mpr hpartition)
    obtain ⟨summary, hsummary⟩ := hall outcome (houtcomes.mem_iff.mpr houtcome)
    exact hdelivers summary hsummary hresume

end VectorIndex
