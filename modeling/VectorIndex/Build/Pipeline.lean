import VectorIndex.Build.Schedule
import VectorIndex.Codebook.Training
import VectorIndex.Corpus.Mapping
import VectorIndex.Postings.Merge
import VectorIndex.Search.Engine
import VectorIndex.Settings.Basic

/-!
# The build pipeline

The steps of a build, each of which works on the directory of one index and moves the build to
its next stage. A step that does not follow the current stage is refused. The stage and the
outcomes of the partitions remain when a step fails.
-/

namespace VectorIndex

/-- How far a build has come. -/
structure Progress where
  state : BuildState
  /-- What became of each partition, in the order of their numbers. -/
  outcomes : List Outcome

namespace Progress

def start (state : BuildState) : Progress := ⟨state, []⟩

/-- The number of partitions that are done with. -/
def count (progress : Progress) : Nat := progress.outcomes.length

end Progress

/-- The move to a state, which must be the next one. -/
def BuildState.advance (state target : BuildState) : Except IndexError BuildState :=
  if state.next = some target then .ok target
  else .error (.invalidStateTransition state target)

/-- A step of a build: a program over the store that carries the progress along. -/
abbrev BuildProgram (α : Type) := ExceptT IndexError (StateT Progress StoreProgram) α

namespace BuildProgram

variable {α : Type}

def lift (program : IndexProgram α) : BuildProgram α :=
  ExceptT.mk (StateT.lift program.run)

def ofExcept (result : Except IndexError α) : BuildProgram α := ExceptT.mk (pure result)

/-- Runs the step from a progress. -/
def start (program : BuildProgram α) (progress : Progress) :
    StoreProgram (Except IndexError α × Progress) :=
  program.run.run progress

def state : BuildProgram BuildState := return (← get).state

def advance (target : BuildState) : BuildProgram Unit := do
  let progress ← get
  set { progress with state := ← ofExcept (progress.state.advance target) }

def record (outcomes : List Outcome) : BuildProgram Unit :=
  modify fun progress ↦ { progress with outcomes := progress.outcomes ++ outcomes }

/-- Refuses a step to `target` unless the build is at `origin`. -/
def require (origin target : BuildState) : BuildProgram Unit := do
  let current ← state
  if current ≠ origin then throw (.invalidStateTransition current target)

end BuildProgram

/-- What a complete build made. -/
structure BuildReport where
  codebook : Fingerprint
  segments : List SegmentSummary
  metadata : Metadata
  /-- In nanoseconds. -/
  elapsed : Nat

def BuildReport.reusedCount (report : BuildReport) : Nat :=
  (report.segments.filter (·.reused)).length

structure Pipeline where
  settings : Settings
  factory : EncoderFactory

namespace Pipeline

open BuildProgram (lift advance record require)

/-- A pipeline of settings that something can run with. -/
def create (settings : Settings) (factory : EncoderFactory) : Except IndexError Pipeline := do
  settings.validate
  return ⟨settings, factory⟩

def layout (pipeline : Pipeline) : Layout := ⟨pipeline.settings.outputDirectory⟩

def pool (pipeline : Pipeline) : WorkerPool :=
  let build := pipeline.settings.build
  ⟨build.workers, build.accelerators, build.resume, build.batchSize⟩

/-- Writes the external ids of a corpus. -/
def writeMapping (pipeline : Pipeline) (corpus : Corpus) : IndexProgram IdMapping := do
  let mapping ← IdMapping.ofCorpus corpus
  mapping.save pipeline.layout.mapping
  return mapping

def loadCodebook (pipeline : Pipeline) : IndexProgram Codebook :=
  Codebook.load pipeline.layout.codebook

/-- Whether a codebook was trained as these settings would train it on that many samples. -/
def matchesTraining (training : TrainingSettings) (samples : Nat) (params : TrainingParams) :
    Bool :=
  params.cells = training.cells && params.subspaces = training.subspaces &&
    params.bitsPerSubspace = training.bitsPerSubspace && params.seed = training.seed &&
    params.samples = samples

/-- The codebook on disk, if training would be done alike. -/
def reusableCodebook (pipeline : Pipeline) (samples : Nat) : StoreProgram (Option Codebook) := do
  if !(← IndexProgram.exists? pipeline.layout.codebook) then return none
  match ← pipeline.loadCodebook.attempt with
  | .error _ => return none
  | .ok codebook =>
    if matchesTraining pipeline.settings.training samples codebook.params then
      return some codebook
    else return none

/-- The vectors of all texts, encoded batch by batch. -/
def encodeSample (encoder : Encoder) : List (List String) → Except IndexError (List Vec)
  | [] => .ok []
  | batch :: rest =>
    match encoder.encodeBatch batch none with
    | .error interruption => .error interruption.toError
    | .ok vectors => (encodeSample encoder rest).map (vectors ++ ·)

/-- Encodes the texts and trains a codebook on them. -/
def trainOn (pipeline : Pipeline) (texts : List String) : IndexProgram Codebook := do
  let encoder ← pipeline.factory (pipeline.pool.worker 0)
  IndexProgram.ofExcept (pipeline.settings.validateForDimension encoder.dimension.size)
  let sample ← IndexProgram.ofExcept
    (encodeSample encoder (chunks pipeline.settings.build.batchSize texts))
  Codebook.trainAndSave pipeline.settings.training sample pipeline.layout.codebook

/-- Trains on the head of the texts, or keeps the codebook of a build that is resumed. -/
def train (pipeline : Pipeline) (texts : Pass (Except IndexError String)) :
    BuildProgram Codebook := do
  let head ← BuildProgram.ofExcept
    (Partition.collect (texts.toList.take pipeline.settings.build.sampleSize))
  let reused ← if pipeline.settings.build.resume then
      lift (ExceptT.lift (pipeline.reusableCodebook head.length))
    else pure none
  match reused with
  | some codebook =>
    advance .trained
    return codebook
  | none =>
    let codebook ← lift (pipeline.trainOn head)
    advance .trained
    return codebook

/-- Moves on to the building of segments, whose directory is made if it is missing. -/
def enterShards (pipeline : Pipeline) : BuildProgram Unit := do
  advance .shardsBuilding
  let root := pipeline.layout.root
  lift (do
    let made ← IndexProgram.perform (.makeDirectories root)
    IndexProgram.check (.fileWrite root) made)

/-- What comes of the segments when the pool is done. -/
def leaveShards (outcomes : List Outcome) (report : Except IndexError PoolReport) :
    BuildProgram (List SegmentSummary) := do
  record outcomes
  let report ← BuildProgram.ofExcept report
  let segments ← BuildProgram.ofExcept report.result
  advance .shardsComplete
  return segments

/-- Builds the segments of all partitions of the texts. If one fails, those of the others stay. -/
def buildShards (pipeline : Pipeline) (codebook : Codebook)
    (texts : Pass (Except IndexError String)) : BuildProgram (List SegmentSummary) := do
  pipeline.enterShards
  let (outcomes, report) ← lift (ExceptT.lift (pipeline.pool.run codebook pipeline.layout.root
    pipeline.factory (partitions texts.toList pipeline.settings.build.partitionSize)))
  leaveShards outcomes report

/-- Builds the segments with the turns of a schedule, which may end too early for a result. -/
def buildShardsAlong (pipeline : Pipeline) (schedule : List Party) (codebook : Codebook)
    (texts : Pass (Except IndexError String)) : BuildProgram (Option (List SegmentSummary)) := do
  pipeline.enterShards
  let result ← lift (ExceptT.lift (pipeline.pool.runAlong codebook pipeline.layout.root
    pipeline.factory (partitions texts.toList pipeline.settings.build.partitionSize) schedule))
  match result with
  | none => return none
  | some (outcomes, report) => return some (← leaveShards outcomes report)

/-- Merges the segments of the first `count` partitions. -/
def merge (pipeline : Pipeline) (codebook : Codebook) (count : Nat) : BuildProgram Metadata := do
  require .shardsComplete .merged
  let metadata ← lift (SegmentMerger.merge ⟨pipeline.layout.root, codebook⟩ count)
  advance .merged
  return metadata

/-- One more than the last partition that has a segment. -/
def partitionsOnDisk (pipeline : Pipeline) : IndexProgram Nat := do
  let present ← ExceptT.lift pipeline.layout.existingSegments
  let segments ← IndexProgram.check (.fileRead pipeline.layout.root) present
  return match segments.getLast? with
    | some partition => partition + 1
    | none => 0

/-- Loads the merged index. -/
def openEngine (pipeline : Pipeline) : BuildProgram QueryEngine := do
  require .merged .servable
  let engine ← lift (QueryEngine.load pipeline.layout.root pipeline.settings.search.probes)
  advance .servable
  return engine

/-- Merges the segments and closes the build, whose mapping has to fit the index. -/
def conclude (pipeline : Pipeline) (started : Moment) (mapping : IdMapping) (codebook : Codebook)
    (segments : List SegmentSummary) : BuildProgram BuildReport := do
  let metadata ← pipeline.merge codebook segments.length
  if mapping.size ≠ metadata.vectorCount then
    throw (.idMappingMismatch mapping.size metadata.vectorCount)
  let finished ← lift (IndexProgram.perform .now)
  return ⟨codebook.fingerprint, segments, metadata, (finished - started).toNat⟩

/-- The whole build of a corpus, which is read once for each of its first three steps. -/
def run (pipeline : Pipeline) (corpus : Corpus) : BuildProgram BuildReport := do
  let started ← lift (IndexProgram.perform .now)
  let mapping ← lift (pipeline.writeMapping corpus)
  let codebook ← pipeline.train (← lift corpus.texts)
  let segments ← pipeline.buildShards codebook (← lift corpus.texts)
  pipeline.conclude started mapping codebook segments

/-- The whole build with the turns of a schedule, which may end too early for a result. -/
def runAlong (pipeline : Pipeline) (schedule : List Party) (corpus : Corpus) :
    BuildProgram (Option BuildReport) := do
  let started ← lift (IndexProgram.perform .now)
  let mapping ← lift (pipeline.writeMapping corpus)
  let codebook ← pipeline.train (← lift corpus.texts)
  match ← pipeline.buildShardsAlong schedule codebook (← lift corpus.texts) with
  | none => return none
  | some segments => return some (← pipeline.conclude started mapping codebook segments)

end Pipeline
end VectorIndex
