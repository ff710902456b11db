import VectorIndex.Build.Shard

/-!
# The worker pool

Every partition of the stream has one outcome: a reused segment, a built one, or an error. A
failed partition stops no other, and the first error of the stream itself ends the dispatch.
Outcomes are reported in the order of the partitions. Here the workers take the dispatched
partitions in turn; which worker takes one shows only in the text of a crash or of a missing
encoder.
-/

namespace VectorIndex

structure Outcome where
  partition : PartitionIndex
  result : Except IndexError SegmentSummary

/-- Everything a pool did, in the order of the partitions. -/
structure PoolReport where
  outcomes : List Outcome

namespace PoolReport

def partitionCount (report : PoolReport) : Nat := report.outcomes.length

def failures (report : PoolReport) : List (PartitionIndex × IndexError) :=
  report.outcomes.filterMap fun outcome ↦
    match outcome.result with
    | .ok _ => none
    | .error error => some (outcome.partition, error)

def summaries (report : PoolReport) : List SegmentSummary :=
  report.outcomes.filterMap (·.result.toOption)

def failedCount (report : PoolReport) : Nat := report.failures.length

def reusedCount (report : PoolReport) : Nat := (report.summaries.filter (·.reused)).length

/-- All summaries, or an error with every failed partition. -/
def result (report : PoolReport) : Except IndexError (List SegmentSummary) :=
  if report.failures.isEmpty then .ok report.summaries
  else .error (.partitionsFailed report.failures)

/-- The report on the outcomes, unless the stream has ended in an error. -/
def ofOutcomes (outcomes : List Outcome) : Option IndexError → Except IndexError PoolReport
  | none => .ok ⟨outcomes⟩
  | some error => .error error

end PoolReport

structure WorkerPool where
  workers : Nat
  accelerators : Nat
  resume : Bool
  batchSize : Nat

namespace WorkerPool

def workerCount (pool : WorkerPool) : Nat := max pool.workers 1

def worker (pool : WorkerPool) (index : Nat) : Worker :=
  ⟨index, .forWorker index pool.accelerators⟩

/-- What one partition comes to on a worker that has its encoder, or the reason why it has none. -/
def buildOn (pool : WorkerPool) (codebook : Codebook) (directory : Path) (index : Nat)
    (encoder : Except IndexError Encoder) (partition : Partition) :
    StoreProgram (Except IndexError SegmentSummary) := do
  match encoder with
  | .error error =>
    return .error (.shardEncodingFailure partition.index
      s!"encoder unavailable on worker {index}: {error.message}")
  | .ok encoder =>
    match ← Shard.build codebook directory encoder pool.batchSize partition with
    | .ok summary => return .ok summary
    | .error (.failed error) => return .error error
    | .error .crashed =>
      return .error (.shardEncodingFailure partition.index s!"worker {index} panicked")

/-- The segment of a partition that does not have to be built. -/
def reuse? (pool : WorkerPool) (codebook : Codebook) (directory : Path) (partition : Partition) :
    IndexProgram (Option SegmentSummary) :=
  if pool.resume then Shard.reusable? codebook directory partition else return none

/-- What is said of a crash over the segment of a partition that is to be reused. -/
def producerCrash : IndexError := .encoder "partition producer panicked"

/-- The outcomes of the partitions before the first error of the stream, and that error. A crash
over a segment is taken for one. -/
def dispatch (pool : WorkerPool) (codebook : Codebook) (directory : Path)
    (encoders : List (Except IndexError Encoder)) :
    Nat → List (Except IndexError Partition) →
      StoreProgram (List Outcome × Option IndexError)
  | _, [] => return ([], none)
  | _, .error error :: _ => return ([], some error)
  | taken, .ok partition :: rest => do
    match ← (pool.reuse? codebook directory partition).attempt with
    | .error _ => return ([], some producerCrash)
    | .ok (some summary) =>
      let later ← dispatch pool codebook directory encoders taken rest
      return (⟨partition.index, .ok summary⟩ :: later.1, later.2)
    | .ok none =>
      let index := taken % pool.workerCount
      let encoder := encoders.getD index (.error (.encoder "no such worker"))
      let result ← pool.buildOn codebook directory index encoder partition
      let later ← dispatch pool codebook directory encoders (taken + 1) rest
      return (⟨partition.index, result⟩ :: later.1, later.2)

def createEncoders (pool : WorkerPool) (factory : EncoderFactory) :
    StoreProgram (List (Except IndexError Encoder)) :=
  (List.range pool.workerCount).mapM fun index ↦ (factory (pool.worker index)).attempt

/-- Builds every partition. The outcomes are there even when the stream ends in an error. -/
def run (pool : WorkerPool) (codebook : Codebook) (directory : Path) (factory : EncoderFactory)
    (partitions : List (Except IndexError Partition)) :
    StoreProgram (List Outcome × Except IndexError PoolReport) := do
  let encoders ← pool.createEncoders factory
  let (outcomes, failure) ← pool.dispatch codebook directory encoders 0 partitions
  return (outcomes, PoolReport.ofOutcomes outcomes failure)

end WorkerPool
end VectorIndex
