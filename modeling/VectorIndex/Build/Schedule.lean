import VectorIndex.Build.Pool

/-!
# Schedules of the worker pool

The producer of a pool and its workers share the store, a queue of partitions and the list of
outcomes. A schedule says whose turn is next, and one turn is one action on the store or one step
of a partition from hand to hand, so the parties may meet in every order. The encoders are there
before the first turn; a worker that starts late is one whose turns come late. A party that has
nothing to do, or has to wait, lets its turn pass.
-/

namespace VectorIndex

/-- Who has a turn. -/
inductive Party where
  | producer
  | worker (index : Nat)
  deriving DecidableEq

/-- What the producer is about. -/
inductive Production where
  | reading
  | examining (partition : Partition)
    (program : StoreProgram (Except IndexError (Option SegmentSummary)))
  | offering (partition : Partition)
  /-- The producer has crashed over the segment of a partition. -/
  | crashed (partition : Partition)
  /-- The stream has ended, in an error or not. -/
  | stopped (failure : Option IndexError)

/-- How the production has ended, if it has. -/
def Production.failure? : Production → Option (Option IndexError)
  | stopped failure => some failure
  | crashed _ => some (some WorkerPool.producerCrash)
  | _ => none

/-- What a worker is about. -/
inductive Activity where
  | idle
  | building (partition : Partition) (program : StoreProgram (Except IndexError SegmentSummary))

def Activity.isIdle : Activity → Bool
  | idle => true
  | building .. => false

/-- A pool between two turns. -/
structure PoolState where
  /-- The partitions that are not read yet. -/
  stream : List (Except IndexError Partition)
  production : Production
  /-- The partitions that wait for a worker, the oldest first. -/
  queue : List Partition
  activities : List Activity
  /-- In the order in which they came. -/
  outcomes : List Outcome

namespace PoolState

def start (workers : Nat) (stream : List (Except IndexError Partition)) : PoolState :=
  ⟨stream, .reading, [], List.replicate workers .idle, []⟩

/-- What the pool returns when everything is done. -/
def report? (state : PoolState) : Option (List Outcome × Except IndexError PoolReport) :=
  match state.production.failure? with
  | some failure =>
    if state.queue.isEmpty && state.activities.all (·.isIdle) then
      let outcomes := state.outcomes.mergeSort fun a b ↦ a.partition ≤ b.partition
      some (outcomes, PoolReport.ofOutcomes outcomes failure)
    else none
  | none => none

end PoolState

/-- A pool whose workers have their encoders. -/
structure Crew where
  pool : WorkerPool
  codebook : Codebook
  directory : Path
  encoders : List (Except IndexError Encoder)

namespace Crew

/-- A turn of the producer, who waits while as many partitions are queued as there are workers. -/
def produce (crew : Crew) (state : PoolState) : StoreProgram PoolState :=
  match state.production with
  | .reading =>
    match state.stream with
    | [] => return { state with production := .stopped none }
    | .error error :: _ => return { state with production := .stopped (some error) }
    | .ok partition :: rest =>
      let production := if crew.pool.resume then
          .examining partition (Shard.reusable? crew.codebook crew.directory partition).attempt
        else .offering partition
      return { state with stream := rest, production }
  | .examining partition (.act action next) =>
    .act action fun answer ↦
      return { state with production := .examining partition (next answer) }
  | .examining partition (.done (.error _)) =>
    return { state with production := .crashed partition }
  | .examining partition (.done (.ok (some summary))) =>
    return { state with
      production := .reading, outcomes := state.outcomes ++ [⟨partition.index, .ok summary⟩] }
  | .examining partition (.done (.ok none)) =>
    return { state with production := .offering partition }
  | .offering partition =>
    if state.queue.length < crew.pool.workerCount then
      return { state with production := .reading, queue := state.queue ++ [partition] }
    else return state
  | .crashed _ => return state
  | .stopped _ => return state

/-- What a worker does with a partition. -/
def build (crew : Crew) (index : Nat) (partition : Partition) :
    StoreProgram (Except IndexError SegmentSummary) :=
  let encoder := crew.encoders.getD index (.error (.encoder "no such worker"))
  crew.pool.buildOn crew.codebook crew.directory index encoder partition

/-- A turn of a worker, who takes the oldest partition of the queue when there is one. -/
def work (crew : Crew) (index : Nat) (state : PoolState) : StoreProgram PoolState :=
  match state.activities[index]?, state.queue with
  | some .idle, partition :: rest =>
    return { state with
      queue := rest
      activities := state.activities.set index (.building partition (crew.build index partition)) }
  | some (.building partition (.act action next)), _ =>
    .act action fun answer ↦ return { state with
      activities := state.activities.set index (.building partition (next answer)) }
  | some (.building partition (.done result)), _ =>
    return { state with
      activities := state.activities.set index .idle
      outcomes := state.outcomes ++ [⟨partition.index, result⟩] }
  | some .idle, [] => return state
  | none, _ => return state

def turn (crew : Crew) : Party → PoolState → StoreProgram PoolState
  | .producer => crew.produce
  | .worker index => crew.work index

/-- The turns of a schedule, one after the other. -/
def follow (crew : Crew) : List Party → PoolState → StoreProgram PoolState
  | [], state => return state
  | party :: rest, state => do crew.follow rest (← crew.turn party state)

end Crew

/-- Builds every partition with turns as a schedule gives them. There is no result when the
schedule ends too early. -/
def WorkerPool.runAlong (pool : WorkerPool) (codebook : Codebook) (directory : Path)
    (factory : EncoderFactory) (partitions : List (Except IndexError Partition))
    (schedule : List Party) :
    StoreProgram (Option (List Outcome × Except IndexError PoolReport)) := do
  let encoders ← pool.createEncoders factory
  let crew : Crew := ⟨pool, codebook, directory, encoders⟩
  let state ← crew.follow schedule (.start pool.workerCount partitions)
  return state.report?

end VectorIndex
