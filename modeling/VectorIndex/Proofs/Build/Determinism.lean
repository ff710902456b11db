import Mathlib.Data.List.Nodup
import VectorIndex.Encoder.Fixed
import VectorIndex.Proofs.Build.Trace
import VectorIndex.Proofs.Postings.Merge
import VectorIndex.Proofs.Sequence.Keys

/-!
# What a pool does whatever its schedule

A pool in which nobody can have a turn is done. Every partition has come to what it comes to alone
on the store from the start, and its segment is what building it alone leaves. Neither the number
of workers nor the order of their turns can be seen but in the number of the worker in the text of
a crash.
-/

namespace VectorIndex

/-! ## The end of a pool -/

/-- The first error of a stream, with which a pool ends its dispatch. -/
def Partition.firstError? : List (Except IndexError Partition) → Option IndexError
  | [] => none
  | .ok _ :: rest => firstError? rest
  | .error error :: _ => some error

theorem Partition.firstError?_map_ok (partitions : List Partition) :
    firstError? (partitions.map .ok) = none := by
  induction partitions with
  | nil => rfl
  | cons partition rest ih => exact ih

/-- The error with which the stream has ended or will end. -/
def PoolState.ending (state : PoolState) : Option IndexError :=
  match state.production with
  | .stopped failure => failure
  | _ => Partition.firstError? state.stream

/-- A pool that is done reports the error with which the stream has ended. -/
theorem PoolState.IsDone.report?_eq {state : PoolState} (hdone : state.IsDone)
    {outcomes : List Outcome}
    (houtcomes : outcomes = state.outcomes.mergeSort fun a b ↦ a.partition ≤ b.partition) :
    state.report? = some (outcomes, PoolReport.ofOutcomes outcomes state.ending) := by
  obtain ⟨failure, hproduction⟩ := hdone.stopped
  have hending : state.ending = failure := by
    unfold ending
    rw [hproduction]
  have hfailure : state.production.failure? = some failure := by
    rw [hproduction]
    rfl
  exact report?_eq_some.mpr ⟨failure, hfailure, hdone.toIsAtRest, houtcomes, hending ▸ rfl⟩

/-- A pool that reports is done, or it reports that it has crashed over a segment. -/
theorem PoolState.report_cases {state : PoolState} {outcomes : List Outcome}
    {report : Except IndexError PoolReport} (hreport : state.report? = some (outcomes, report)) :
    report = .error WorkerPool.producerCrash ∨
      report = PoolReport.ofOutcomes outcomes state.ending ∧ state.IsDone := by
  obtain ⟨failure, hfailure, hrest, rfl, rfl⟩ := report?_eq_some.mp hreport
  cases hproduction : state.production with
  | crashed partition =>
    rw [hproduction] at hfailure
    obtain rfl := Option.some.inj hfailure
    exact .inl rfl
  | stopped ended =>
    have hdone : state.IsDone := ⟨hrest, ended, hproduction⟩
    rw [hdone.report?_eq rfl] at hreport
    exact .inr ⟨((Prod.mk.inj (Option.some.inj hreport)).2).symm, hdone⟩
  | _ =>
    rw [hproduction] at hfailure
    cases hfailure

/-- No segment at the start makes the producer of the pool crash. -/
def WorkerPool.CanExamine (pool : WorkerPool) (codebook : Codebook) (directory : Path)
    (partitions : List Partition) (start : Tree) : Prop :=
  ∀ partition ∈ partitions, ∃ found,
    ((pool.reuse? codebook directory partition).runOn start).1 = .ok found

namespace Crew

variable {crew : Crew} {state : PoolState} {tree : Tree}

theorem ending_turn (crew : Crew) (party : Party) (state : PoolState) (tree : Tree) :
    ((crew.turn party state).run tree).1.ending = state.ending := by
  obtain ⟨stream, production, queue, activities, outcomes⟩ := state
  cases party with
  | producer =>
    show ((crew.produce _).run tree).1.ending = _
    unfold produce
    cases production with
    | reading =>
      cases stream with
      | nil => rfl
      | cons item rest =>
        cases item with
        | error error => rfl
        | ok partition => cases crew.pool.resume <;> rfl
    | examining partition program =>
      cases program with
      | act action next => rfl
      | done found =>
        cases found with
        | error error => rfl
        | ok reused => cases reused <;> rfl
    | offering partition =>
      dsimp only
      split
      · rfl
      · rfl
    | crashed partition => rfl
    | stopped failure => rfl
  | worker index =>
    show ((crew.work index _).run tree).1.ending = _
    unfold work
    split
    · rfl
    · rfl
    · rfl
    · rfl
    · rfl

theorem ending_follow (crew : Crew) (schedule : List Party) (state : PoolState) (tree : Tree) :
    ((crew.follow schedule state).run tree).1.ending = state.ending := by
  induction schedule generalizing state tree with
  | nil => rfl
  | cons party rest ih =>
    rw [Crew.follow, StoreProgram.run_bind, ih, ending_turn]

/-- Nobody can have a turn. -/
def Terminal (crew : Crew) (state : PoolState) : Prop :=
  ∀ party, crew.turn party state = pure state

/-- A producer that cannot have a turn has stopped or crashed, or the queue is full. -/
theorem production_of_waits (hwaits : crew.turn .producer state = pure state) :
    (∃ failure, state.production = .stopped failure) ∨
      (∃ partition, state.production = .crashed partition) ∨
      crew.pool.workerCount ≤ state.queue.length := by
  obtain ⟨stream, production, queue, activities, outcomes⟩ := state
  change crew.produce _ = _ at hwaits
  unfold produce at hwaits
  cases production with
  | reading =>
    cases stream with
    | nil => cases StoreProgram.done.inj hwaits
    | cons item rest =>
      cases item with
      | error error => cases StoreProgram.done.inj hwaits
      | ok partition =>
        have hstream := congrArg PoolState.stream (StoreProgram.done.inj hwaits)
        exact absurd hstream.symm (List.cons_ne_self _ _)
  | examining partition program =>
    cases program with
    | act action next => cases hwaits
    | done found =>
      cases found with
      | error error => cases StoreProgram.done.inj hwaits
      | ok reused => cases reused <;> cases StoreProgram.done.inj hwaits
  | offering partition =>
    dsimp only at hwaits
    split at hwaits
    · cases StoreProgram.done.inj hwaits
    · next hfull => exact .inr (.inr (Nat.le_of_not_lt hfull))
  | crashed partition => exact .inr (.inl ⟨partition, rfl⟩)
  | stopped failure => exact .inl ⟨failure, rfl⟩

/-- A worker that cannot have a turn has nothing to do. -/
theorem activity_of_waits {index : Nat} (hwaits : crew.turn (.worker index) state = pure state)
    (hindex : index < state.activities.length) :
    state.activities[index]? = some .idle ∧ state.queue = [] := by
  obtain ⟨stream, production, queue, activities, outcomes⟩ := state
  change crew.work index _ = _ at hwaits
  unfold work at hwaits
  cases hactivity : activities[index]? with
  | none => exact absurd (List.getElem?_eq_none_iff.mp hactivity) (Nat.not_le_of_lt hindex)
  | some activity =>
    simp only [hactivity] at hwaits
    cases activity with
    | idle =>
      cases queue with
      | nil => exact ⟨rfl, rfl⟩
      | cons partition rest =>
        have hqueue := congrArg PoolState.queue (StoreProgram.done.inj hwaits)
        exact absurd hqueue.symm (List.cons_ne_self _ _)
    | building partition program =>
      cases program with
      | act action next => cases hwaits
      | done result =>
        have houtcomes := congrArg PoolState.outcomes (StoreProgram.done.inj hwaits)
        simp at houtcomes

/-- No two parties wait for each other: when nobody can have a turn and the producer has not
crashed, everything is done. -/
theorem isDone_of_terminal (hcrewed : state.activities.length = crew.pool.workerCount)
    (hterminal : crew.Terminal state) (hcalm : ∀ partition, state.production ≠ .crashed partition) :
    state.IsDone := by
  have hworkers : 0 < state.activities.length := hcrewed ▸ Nat.le_max_right _ _
  have hqueue := (activity_of_waits (hterminal (.worker 0)) hworkers).2
  refine ⟨⟨hqueue, fun activity hactivity ↦ ?_⟩, ?_⟩
  · obtain ⟨index, hindex, rfl⟩ := List.getElem_of_mem hactivity
    have hidle := (activity_of_waits (hterminal (.worker index)) hindex).1
    rwa [List.getElem?_eq_getElem hindex, Option.some.injEq] at hidle
  · apply (production_of_waits (hterminal .producer)).resolve_right
    rintro (⟨partition, hcrashed⟩ | hfull)
    · exact hcalm partition hcrashed
    · rw [hqueue, ← hcrewed] at hfull
      exact Nat.not_le_of_lt hworkers hfull

/-- When there is a report nobody can have a turn. -/
theorem terminal_of_report? (hreport : state.report?.isSome) : crew.Terminal state := by
  obtain ⟨⟨outcomes, report⟩, hreport⟩ := Option.isSome_iff_exists.mp hreport
  obtain ⟨failure, hfailure, ⟨hqueue, hidle⟩, -, -⟩ := PoolState.report?_eq_some.mp hreport
  obtain ⟨stream, production, queue, activities, outcomes⟩ := state
  obtain rfl : queue = [] := hqueue
  intro party
  cases party with
  | producer => cases production <;> first | rfl | cases hfailure
  | worker index =>
    show crew.work index _ = _
    unfold work
    cases hactivity : activities[index]? with
    | none => rfl
    | some activity =>
      cases activity with
      | idle => rfl
      | building partition program => cases hidle _ (List.mem_of_getElem? hactivity)

section

variable {start : Tree} {partitions : List Partition} {accounts : Nat → Publication.Account}
  (htraces : crew.Traces start partitions accounts state tree)
include htraces

/-- A pool in which nobody can have a turn is done, unless a segment at the start makes its producer
crash. -/
theorem Traces.isDone_of_terminal (hterminal : crew.Terminal state)
    (hreadable : crew.pool.CanExamine crew.codebook crew.directory partitions start) :
    state.IsDone := by
  apply Crew.isDone_of_terminal htraces.crewed hterminal
  intro partition hcrashed
  obtain ⟨hpartition, error, herror⟩ := htraces.crashed partition hcrashed
  obtain ⟨found, hfound⟩ := hreadable partition hpartition
  cases herror.symm.trans hfound

/-- A partition that has its outcome, or has none when nobody has anything to do, is settled or was
not touched. -/
theorem Traces.cases_of_isAtRest (hrest : state.IsAtRest) (number : PartitionIndex) :
    (∃ partition ∈ partitions, partition.index = number ∧
      ∃ outcome ∈ state.outcomes, crew.Settles start tree partition outcome) ∨
    tree.files (crew.target number) = start.files (crew.target number) := by
  by_cases hnumber : ∃ outcome ∈ state.outcomes, outcome.partition = number
  · obtain ⟨outcome, houtcome, rfl⟩ := hnumber
    obtain ⟨partition, hpartition, hsettles⟩ := htraces.settled outcome houtcome
    exact .inl ⟨partition, hpartition, hsettles.1.symm, outcome, houtcome, hsettles⟩
  · refine .inr (htraces.untouched number ?_ ?_)
    · exact fun outcome houtcome hsame ↦ hnumber ⟨outcome, houtcome, hsame⟩
    · rw [hrest.building_eq_nil]
      exact fun _ hpartition ↦ nomatch hpartition

/-- In the end the segments of all other numbers are as they were. -/
theorem Traces.untouched_of_isAtRest (hrest : state.IsAtRest) {number : Nat}
    (hnumber : ∀ partition ∈ partitions, partition.index ≠ number) :
    tree.files (crew.target number) = start.files (crew.target number) := by
  apply (htraces.cases_of_isAtRest hrest number).resolve_left
  rintro ⟨partition, hpartition, hsame, -⟩
  exact hnumber partition hpartition hsame

variable (hdone : state.IsDone)
include hdone

/-- In the end every partition has its outcome. -/
theorem Traces.outcomes_perm :
    (state.outcomes.map (·.partition)).Perm (partitions.map (·.index)) := by
  obtain ⟨finished, publications, hsound⟩ := htraces.sound
  have hfinished := hsound.accounted
  rw [hsound.pending_eq_nil hdone, List.append_nil] at hfinished
  have hsame : List.Forall₂ Eq (state.outcomes.map (·.partition)) (finished.map (·.index)) := by
    rw [List.forall₂_map_left_iff, List.forall₂_map_right_iff]
    exact hsound.delivered.flip.imp fun outcome partition hdelivers ↦ hdelivers.1
  rw [List.forall₂_eq_eq_eq] at hsame
  exact hsame ▸ hfinished.map _

/-- In the end every partition has come to what it comes to alone. -/
theorem Traces.exists_settled (hnodup : (partitions.map (·.index)).Nodup) {partition : Partition}
    (hpartition : partition ∈ partitions) :
    ∃ outcome ∈ state.outcomes, crew.Settles start tree partition outcome := by
  have hnumbers := htraces.outcomes_perm hdone
  obtain ⟨outcome, houtcome, hsame⟩ :=
    List.mem_map.mp (hnumbers.mem_iff.mpr (List.mem_map_of_mem hpartition))
  obtain ⟨other, hother, hsettles⟩ := htraces.settled outcome houtcome
  obtain rfl : other = partition :=
    List.inj_on_of_nodup_map hnodup hother hpartition (hsettles.1.symm.trans hsame)
  exact ⟨outcome, houtcome, hsettles⟩

end

/-- A pool that reports has nothing left to do. It reports the outcomes with the first error of the
stream, unless it has crashed over a segment. -/
theorem exists_traces_of_report {stream : List (Except IndexError Partition)}
    (hnodup : ((Partition.leading stream).map (·.index)).Nodup) {start : Tree}
    (hnested : start.NestedIn (Location.ofDirectory crew.directory)) {schedule : List Party}
    (hrun : (crew.follow schedule (.start crew.pool.workerCount stream)).run start = (state, tree))
    {outcomes : List Outcome} {report : Except IndexError PoolReport}
    (hreport : state.report? = some (outcomes, report)) :
    (∃ accounts, crew.Traces start (Partition.leading stream) accounts state tree) ∧
      state.IsAtRest ∧ outcomes.Perm state.outcomes ∧
        (report = .error WorkerPool.producerCrash ∨
          report = PoolReport.ofOutcomes outcomes (Partition.firstError? stream) ∧
            state.IsDone) := by
  obtain ⟨accounts, htraces⟩ := (crew.traces_start stream start).follow hnodup hnested schedule
  have hending := crew.ending_follow schedule (.start crew.pool.workerCount stream) start
  rw [hrun] at htraces hending
  have hcases := PoolState.report_cases hreport
  rw [show state.ending = Partition.firstError? stream from hending] at hcases
  obtain ⟨-, -, hrest, rfl, -⟩ := PoolState.report?_eq_some.mp hreport
  exact ⟨⟨accounts, htraces⟩, hrest, List.mergeSort_perm _ _, hcases⟩

end Crew

/-- What is related to the same items is related by what follows from both relations. -/
theorem forall₂_of_common {α β γ : Type} {first : α → β → Prop} {second : α → γ → Prop}
    {relation : β → γ → Prop} {items : List α} {left : List β} {right : List γ}
    (hleft : List.Forall₂ first items left) (hright : List.Forall₂ second items right)
    (hall : ∀ a b c, first a b → second a c → relation b c) :
    List.Forall₂ relation left right := by
  induction hleft generalizing right with
  | nil =>
    cases hright
    exact .nil
  | cons hhead _ ih =>
    cases hright with
    | cons hhead' htail => exact .cons (hall _ _ _ hhead hhead') (ih htail)

namespace PoolReport

theorem filter_eq_map_failures (outcomes : List Outcome) :
    outcomes.filter (fun outcome ↦ !outcome.result.isOk) =
      (failures ⟨outcomes⟩).map fun failure ↦ ⟨failure.1, .error failure.2⟩ := by
  induction outcomes with
  | nil => rfl
  | cons outcome rest ih =>
    obtain ⟨partition, result⟩ := outcome
    cases result with
    | ok summary => exact ih
    | error error => exact congrArg (List.cons _) ih

theorem map_result_of_failures_nil {report : PoolReport} (hnone : report.failures = []) :
    report.outcomes.map (·.result) = report.summaries.map .ok := by
  obtain ⟨outcomes⟩ := report
  induction outcomes with
  | nil => rfl
  | cons outcome rest ih =>
    obtain ⟨partition, result⟩ := outcome
    cases result with
    | ok summary => exact congrArg (List.cons _) (ih hnone)
    | error error => cases hnone

/-- A report comes to all summaries in order, or to the failed partitions in order with what
failed. -/
theorem result_spec (report : PoolReport) :
    (∃ summaries, report.result = .ok summaries ∧
      report.outcomes.map (·.result) = summaries.map .ok) ∨
    ∃ failures, failures ≠ [] ∧ report.result = .error (.partitionsFailed failures) ∧
      report.outcomes.filter (fun outcome ↦ !outcome.result.isOk) =
        failures.map fun failure ↦ ⟨failure.1, .error failure.2⟩ := by
  unfold result
  split
  · next hnone =>
    rw [List.isEmpty_iff] at hnone
    exact .inl ⟨report.summaries, rfl, map_result_of_failures_nil hnone⟩
  · next hsome =>
    rw [List.isEmpty_iff] at hsome
    exact .inr ⟨report.failures, hsome, rfl, filter_eq_map_failures report.outcomes⟩

end PoolReport

namespace WorkerPool

/-- What the pool may report of a partition: the segment that the store has of it, or what
building it alone gives, with the number of a worker where it crashes. -/
def Gives (pool : WorkerPool) (codebook : Codebook) (directory : Path) (encoder : Encoder)
    (start : Tree) (partition : Partition) (outcome : Outcome) : Prop :=
  outcome.partition = partition.index ∧
  match ((pool.reuse? codebook directory partition).runOn start).1 with
  | .ok (some summary) => outcome.result = .ok summary
  | .ok none => ∃ index < pool.workerCount, outcome.result = reported index partition.index
    ((Shard.build codebook directory encoder pool.batchSize partition).run start).1
  | .error _ => False

/-- What is left of the segment of a partition: what the store has of it when it can be kept, and
otherwise what building it alone leaves. -/
def leaves (pool : WorkerPool) (codebook : Codebook) (directory : Path) (encoder : Encoder)
    (start : Tree) (partition : Partition) : Option Bytes :=
  let location := Location.ofDirectory directory ++ [segmentName partition.index]
  match ((pool.reuse? codebook directory partition).runOn start).1 with
  | .ok none =>
    ((Shard.build codebook directory encoder pool.batchSize partition).run start).2.files location
  | _ => start.files location

/-- A pool that is done, with its outcomes in the order of the partitions. -/
structure Finishes (pool : WorkerPool) (codebook : Codebook) (directory : Path)
    (encoder : Encoder) (stream : List (Except IndexError Partition)) (start : Tree)
    (outcomes : List Outcome) (tree : Tree) : Prop where
  outcomes : List.Forall₂ (pool.Gives codebook directory encoder start)
    ((Partition.leading stream).mergeSort fun a b ↦ a.index ≤ b.index) outcomes
  segments : ∀ partition ∈ Partition.leading stream,
    tree.files (Location.ofDirectory directory ++ [segmentName partition.index]) =
      pool.leaves codebook directory encoder start partition
  others : ∀ number, (∀ partition ∈ Partition.leading stream, partition.index ≠ number) →
    tree.files (Location.ofDirectory directory ++ [segmentName number]) =
      start.files (Location.ofDirectory directory ++ [segmentName number])

/-- The crew of a pool whose workers have all made the encoder. -/
def crewOf (pool : WorkerPool) (codebook : Codebook) (directory : Path) (encoder : Encoder) :
    Crew :=
  ⟨pool, codebook, directory, List.replicate pool.workerCount (.ok encoder)⟩

variable {pool : WorkerPool} {codebook : Codebook} {directory : Path} {encoder : Encoder}

theorem run_build_crewOf {index : Nat} (hindex : index < pool.workerCount) (partition : Partition)
    (start : Tree) : ((pool.crewOf codebook directory encoder).build index partition).run start =
      (reported index partition.index
        ((Shard.build codebook directory encoder pool.batchSize partition).run start).1,
        ((Shard.build codebook directory encoder pool.batchSize partition).run start).2) := by
  have hencoder : (pool.crewOf codebook directory encoder).encoders.getD index
      (.error (.encoder "no such worker")) = .ok encoder := by
    show (List.replicate _ _).getD index _ = _
    rw [List.getD_eq_getElem?_getD, List.getElem?_replicate, if_pos hindex, Option.getD_some]
  unfold Crew.build
  rw [hencoder]
  show (pool.buildOn codebook directory index (.ok encoder) partition).run start = _
  rw [buildOn_ok, StoreProgram.run_map]

/-- What has become of a partition in the pool is what the pool may report and leave of it. -/
theorem gives_of_settles {start tree : Tree} {partition : Partition} {outcome : Outcome}
    (hsettles : (pool.crewOf codebook directory encoder).Settles start tree partition outcome) :
    pool.Gives codebook directory encoder start partition outcome ∧
      tree.files (Location.ofDirectory directory ++ [segmentName partition.index]) =
        pool.leaves codebook directory encoder start partition := by
  obtain ⟨hindex, hsettles⟩ := hsettles
  change match ((pool.reuse? codebook directory partition).runOn start).1 with
    | .ok (some summary) => _
    | .ok none => _
    | .error _ => _ at hsettles
  unfold Gives leaves
  rcases hreuse : ((pool.reuse? codebook directory partition).runOn start).1 with _ | _ | summary
  · rw [hreuse] at hsettles
    exact hsettles.elim
  · rw [hreuse] at hsettles
    obtain ⟨index, hlt, hresult, hfiles⟩ := hsettles
    have hindexed : index < pool.workerCount := hlt
    rw [run_build_crewOf hindexed] at hresult hfiles
    exact ⟨⟨hindex, index, hindexed, hresult⟩, hfiles⟩
  · rw [hreuse] at hsettles
    exact ⟨⟨hindex, hsettles.1⟩, hsettles.2⟩

/-- A pool that is done has finished. -/
theorem finishes_of_isDone {stream : List (Except IndexError Partition)}
    (hnodup : ((Partition.leading stream).map (·.index)).Nodup) {start : Tree}
    {accounts : Nat → Publication.Account} {state : PoolState} {tree : Tree}
    (htraces : (pool.crewOf codebook directory encoder).Traces start (Partition.leading stream)
      accounts state tree) (hdone : state.IsDone) :
    pool.Finishes codebook directory encoder stream start
      (state.outcomes.mergeSort fun a b ↦ a.partition ≤ b.partition) tree := by
  have hnumbers := htraces.outcomes_perm hdone
  refine ⟨?_, fun partition hpartition ↦ ?_, fun number hnumber ↦ ?_⟩
  · apply forall₂_of_map_eq (f := (·.index)) (g := (·.partition))
    · exact map_mergeSort_le Partition.index Outcome.partition hnumbers.symm
    · exact ((List.mergeSort_perm _ _).map _).nodup_iff.mpr hnodup
    · intro outcome houtcome
      obtain ⟨partition, hpartition, hsettles⟩ :=
        htraces.settled outcome (List.mem_mergeSort.mp houtcome)
      exact ⟨partition, List.mem_mergeSort.mpr hpartition, hsettles.1.symm,
        (gives_of_settles hsettles).1⟩
  · obtain ⟨outcome, -, hsettles⟩ := htraces.exists_settled hdone hnodup hpartition
    exact (gives_of_settles hsettles).2
  · exact htraces.untouched_of_isAtRest hdone.toIsAtRest hnumber

/-- Two outcomes that differ at most in the number of the worker that has crashed. -/
inductive Alike : Outcome → Outcome → Prop
  | same (outcome : Outcome) : Alike outcome outcome
  | crashed (partition : PartitionIndex) (first second : Nat) :
    Alike ⟨partition, reported first partition (.error .crashed)⟩
      ⟨partition, reported second partition (.error .crashed)⟩

variable {other : WorkerPool}

theorem alike_of_gives (hresume : other.resume = pool.resume)
    (hbatch : other.batchSize = pool.batchSize) {start : Tree} {partition : Partition}
    {first second : Outcome} (hfirst : pool.Gives codebook directory encoder start partition first)
    (hsecond : other.Gives codebook directory encoder start partition second) :
    Alike first second := by
  obtain ⟨index, result⟩ := first
  obtain ⟨_, result'⟩ := second
  obtain ⟨rfl, hfirst⟩ := hfirst
  obtain ⟨rfl, hsecond⟩ := hsecond
  have hreuse : other.reuse? codebook directory partition =
      pool.reuse? codebook directory partition := by
    unfold reuse?
    rw [hresume]
  rw [hreuse, hbatch] at hsecond
  rcases hfound : ((pool.reuse? codebook directory partition).runOn start).1 with _ | _ | summary
  · rw [hfound] at hfirst
    exact hfirst.elim
  · rw [hfound] at hfirst hsecond
    obtain ⟨first, -, rfl⟩ := hfirst
    obtain ⟨second, -, rfl⟩ := hsecond
    cases ((Shard.build codebook directory encoder pool.batchSize partition).run start).1 with
    | ok summary => exact .same _
    | error interruption =>
      cases interruption with
      | failed error => exact .same _
      | crashed => exact .crashed _ _ _
  · rw [hfound] at hfirst hsecond
    obtain rfl : result = .ok summary := hfirst
    obtain rfl : result' = .ok summary := hsecond
    exact .same _

theorem leaves_congr (hresume : other.resume = pool.resume)
    (hbatch : other.batchSize = pool.batchSize) (start : Tree) (partition : Partition) :
    other.leaves codebook directory encoder start partition =
      pool.leaves codebook directory encoder start partition := by
  unfold leaves reuse?
  rw [hresume, hbatch]

/-- Two pools that have finished the same stream agree. -/
theorem Finishes.agree (hresume : other.resume = pool.resume)
    (hbatch : other.batchSize = pool.batchSize) {stream : List (Except IndexError Partition)}
    {start first second : Tree} {outcomes others : List Outcome}
    (hfirst : pool.Finishes codebook directory encoder stream start outcomes first)
    (hsecond : other.Finishes codebook directory encoder stream start others second) :
    List.Forall₂ Alike outcomes others ∧ ∀ number,
      first.files (Location.ofDirectory directory ++ [segmentName number]) =
        second.files (Location.ofDirectory directory ++ [segmentName number]) := by
  constructor
  · exact forall₂_of_common hfirst.outcomes hsecond.outcomes fun _ _ _ ↦
      alike_of_gives hresume hbatch
  · intro number
    by_cases hnumber : ∃ partition ∈ Partition.leading stream, partition.index = number
    · obtain ⟨partition, hpartition, rfl⟩ := hnumber
      rw [hfirst.segments partition hpartition, hsecond.segments partition hpartition,
        leaves_congr hresume hbatch]
    · rw [not_exists] at hnumber
      have habsent : ∀ partition ∈ Partition.leading stream, partition.index ≠ number :=
        fun partition hpartition hsame ↦ hnumber partition ⟨hpartition, hsame⟩
      rw [hfirst.others number habsent, hsecond.others number habsent]

theorem run_createEncoders_pure (pool : WorkerPool) (encoder : Encoder) (tree : Tree) :
    (pool.createEncoders fun _ ↦ pure encoder).run tree =
      (List.replicate pool.workerCount (.ok encoder), tree) := by
  have hpure : pool.createEncoders (fun _ ↦ pure encoder) =
      pure ((List.range pool.workerCount).map fun _ ↦ .ok encoder) := List.mapM_pure
  rw [hpure, List.map_const', List.length_range]
  rfl

/-- A pool in which nobody can have a turn returns its report, and it has finished. -/
theorem runAlong_finishes {stream : List (Except IndexError Partition)}
    (hnodup : ((Partition.leading stream).map (·.index)).Nodup) {start : Tree}
    (hnested : start.Nested)
    (hreadable : pool.CanExamine codebook directory (Partition.leading stream) start)
    {schedule : List Party} {state : PoolState} {tree : Tree}
    (hfollow : ((pool.crewOf codebook directory encoder).follow schedule
      (.start pool.workerCount stream)).run start = (state, tree))
    (hterminal : (pool.crewOf codebook directory encoder).Terminal state) :
    ∃ outcomes, (pool.runAlong codebook directory (fun _ ↦ pure encoder) stream schedule).run
        start = (some (outcomes, PoolReport.ofOutcomes outcomes (Partition.firstError? stream)),
          tree) ∧
      pool.Finishes codebook directory encoder stream start outcomes tree := by
  obtain ⟨accounts, htraces⟩ :=
    ((pool.crewOf codebook directory encoder).traces_start stream start).follow hnodup
      (hnested _) schedule
  have hending := (pool.crewOf codebook directory encoder).ending_follow schedule
    (.start pool.workerCount stream) start
  have hpool : (pool.crewOf codebook directory encoder).pool = pool := rfl
  rw [hpool, hfollow] at htraces
  rw [hfollow] at hending
  have hdone := htraces.isDone_of_terminal hterminal hreadable
  refine ⟨_, ?_, finishes_of_isDone hnodup htraces hdone⟩
  have hreport := hdone.report?_eq rfl
  rw [show state.ending = Partition.firstError? stream from hending] at hreport
  unfold runAlong
  rw [StoreProgram.run_bind, run_createEncoders_pure, StoreProgram.run_bind]
  change (((StoreProgram.run ((pool.crewOf codebook directory encoder).follow schedule
    (.start pool.workerCount stream)) start)).1.report?, _) = _
  rw [hfollow, hreport]
  exact congrArg (Prod.mk _) (congrArg Prod.snd hfollow)

/-- In every state in which nobody can have a turn, the pool returns the first error of the stream
if there is one, and otherwise a report. Its outcomes are in the order of the partitions, one for
each that was read, and each is what the partition comes to alone; the segments are what that
leaves. A pool with other workers and another schedule ends alike. The partitions are of different
numbers, as two of one number write to one file, and none of the segments that the pool finds makes
it crash. -/
theorem runAlong_of_terminal (pool : WorkerPool) (codebook : Codebook) (directory : Path)
    (encoder : Encoder) {stream : List (Except IndexError Partition)}
    (hnodup : ((Partition.leading stream).map (·.index)).Nodup) {start : Tree}
    (hnested : start.Nested)
    (hreadable : pool.CanExamine codebook directory (Partition.leading stream) start)
    (schedule : List Party) {state : PoolState} {tree : Tree}
    (hfollow : ((pool.crewOf codebook directory encoder).follow schedule
      (.start pool.workerCount stream)).run start = (state, tree))
    (hterminal : (pool.crewOf codebook directory encoder).Terminal state) :
    ∃ outcomes,
      (pool.runAlong codebook directory (fun _ ↦ pure encoder) stream schedule).run start =
        (some (outcomes, PoolReport.ofOutcomes outcomes (Partition.firstError? stream)), tree) ∧
      ((∃ summaries, PoolReport.result ⟨outcomes⟩ = .ok summaries ∧
          outcomes.map (·.result) = summaries.map .ok) ∨
        ∃ failures, failures ≠ [] ∧
          PoolReport.result ⟨outcomes⟩ = .error (.partitionsFailed failures) ∧
          outcomes.filter (fun outcome ↦ !outcome.result.isOk) =
            failures.map fun failure ↦ ⟨failure.1, .error failure.2⟩) ∧
      pool.Finishes codebook directory encoder stream start outcomes tree ∧
      ∀ (other : WorkerPool) (schedule' : List Party) (state' : PoolState) (tree' : Tree),
        other.resume = pool.resume → other.batchSize = pool.batchSize →
        ((other.crewOf codebook directory encoder).follow schedule'
          (.start other.workerCount stream)).run start = (state', tree') →
        (other.crewOf codebook directory encoder).Terminal state' → ∃ outcomes',
          (other.runAlong codebook directory (fun _ ↦ pure encoder) stream schedule').run start =
            (some (outcomes', PoolReport.ofOutcomes outcomes' (Partition.firstError? stream)),
              tree') ∧
          List.Forall₂ Alike outcomes outcomes' ∧
          ∀ number, tree.files (Location.ofDirectory directory ++ [segmentName number]) =
            tree'.files (Location.ofDirectory directory ++ [segmentName number]) := by
  obtain ⟨outcomes, hrun, hfinishes⟩ :=
    runAlong_finishes hnodup hnested hreadable hfollow hterminal
  refine ⟨outcomes, hrun, PoolReport.result_spec ⟨outcomes⟩, hfinishes, ?_⟩
  intro other schedule' state' tree' hresume hbatch hfollow' hterminal'
  have hreadable' : other.CanExamine codebook directory (Partition.leading stream) start := by
    unfold CanExamine reuse?
    rw [hresume]
    exact hreadable
  obtain ⟨outcomes', hrun', hfinishes'⟩ :=
    runAlong_finishes hnodup hnested hreadable' hfollow' hterminal'
  exact ⟨outcomes', hrun', hfinishes.agree hresume hbatch hfinishes'⟩

/-- An encoder that crashes on one text. -/
def fragileEncoder : Encoder :=
  ⟨⟨1, Nat.one_pos⟩, fun texts ↦ if "x" ∈ texts then .error .crashed
    else .ok (texts.map (Encoder.hashedVector ⟨1, Nat.one_pos⟩))⟩

/-- Two partitions, and an error. -/
def brokenStream : List (Except IndexError Partition) :=
  [.ok ⟨0, 0, ["a"]⟩, .ok ⟨1, 1, ["x"]⟩, .error (.encoder "lost")]

def brokenTurns : List Party :=
  List.replicate 9 .producer ++ List.replicate 7 (.worker 0) ++ List.replicate 2 (.worker 1)

/-- The stream breaks after two partitions, and each of them has its outcome. -/
theorem runAlong_of_terminal_broken : ∃ outcomes tree,
    (runAlong ⟨2, 0, true, 1⟩ SegmentMerger.smallCodebook "index" (fun _ ↦ pure fragileEncoder)
      brokenStream brokenTurns).run .empty = (some (outcomes, .error (.encoder "lost")), tree) ∧
        outcomes.length = 2 := by
  have hnested : Tree.empty.Nested := by
    intro location name hfind
    simp [Tree.find?, Tree.empty] at hfind
  have hreport : (((crewOf ⟨2, 0, true, 1⟩ SegmentMerger.smallCodebook "index"
      fragileEncoder).follow brokenTurns (.start 2 brokenStream)).run .empty).1.report?.isSome := by
    decide +kernel
  have hreadable : CanExamine ⟨2, 0, true, 1⟩ SegmentMerger.smallCodebook "index"
      (Partition.leading brokenStream) .empty := by
    have hall : ∀ partition ∈ Partition.leading brokenStream, (((reuse? ⟨2, 0, true, 1⟩
        SegmentMerger.smallCodebook "index" partition).runOn .empty).1.toOption).isSome := by
      decide
    intro partition hpartition
    obtain ⟨found, hfound⟩ := Option.isSome_iff_exists.mp (hall partition hpartition)
    exact ⟨found, Result.toOption_eq_some.mp hfound⟩
  obtain ⟨outcomes, hrun, -, hfinishes, -⟩ := runAlong_of_terminal ⟨2, 0, true, 1⟩
    SegmentMerger.smallCodebook "index" fragileEncoder (by decide) hnested hreadable brokenTurns rfl
    (Crew.terminal_of_report? hreport)
  exact ⟨outcomes, _, hrun, hfinishes.outcomes.length_eq.symm.trans (List.length_mergeSort _)⟩

/-- Two partitions of one number. -/
def twinStream : List (Except IndexError Partition) := [.ok ⟨0, 0, ["a"]⟩, .ok ⟨0, 1, ["a"]⟩]

/-- Each of two workers takes one of the partitions, and then `first` builds its one before
`second` does. -/
def runTwins (first second : Nat) :
    Option (List Outcome × Except IndexError PoolReport) × Tree :=
  let turns := List.replicate 5 .producer ++ [.worker 0, .worker 1] ++
    List.replicate 9 (.worker first) ++ List.replicate 9 (.worker second)
  (runAlong ⟨2, 0, false, 1⟩ SegmentMerger.smallCodebook "index" (fun _ ↦ pure fragileEncoder)
    twinStream turns).run .empty

/-- Of two partitions of one number the segment is left that was written last, so it is seen which
worker went first. A pool that finds a segment of more postings than bytes has no outcome for its
partition and fails, without any error in the stream. -/
theorem files_ne_of_twins :
    ((runTwins 0 1).1.isSome ∧ (runTwins 1 0).1.isSome ∧
      (runTwins 0 1).2.files (Location.ofDirectory "index" ++ [segmentName 0]) ≠
        (runTwins 1 0).2.files (Location.ofDirectory "index" ++ [segmentName 0])) ∧
    ((runAlong ⟨1, 0, true, 1⟩ SegmentMerger.smallCodebook "index" (fun _ ↦ pure fragileEncoder)
      [.ok ⟨0, 0, ["a"]⟩] (List.replicate 9 .producer)).run
        (SegmentMerger.wrappingTree 18446744073709551615 2)).1.map
          (fun found ↦ (found.1.length, found.2.isOk)) = some (0, false) := by
  decide +kernel

end WorkerPool
end VectorIndex
