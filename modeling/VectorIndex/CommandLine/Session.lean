import VectorIndex.Build.Pipeline
import VectorIndex.CommandLine.Request
import VectorIndex.Report.Summary
import VectorIndex.Search.Service
import VectorIndex.Settings.Storage

/-!
# Running a command

A command is a program over the store that prints lines and may fail. Results go to the standard
output and failures to the diagnostic output; the exit status is 0 for success, 1 for a failure,
2 for arguments that make no request and 101 for a crash, which has no more to say.
-/

namespace VectorIndex

/-- The message of an error with the message of its cause behind it, where the cause has one of
its own. -/
def IndexError.chain (error : IndexError) : String :=
  match error with
  | .fileRead _ fault => s!"{error.message}: {fault.message}"
  | .fileWrite _ fault => s!"{error.message}: {fault.message}"
  | .clustering cause => s!"{error.message}: {cause.message}"
  | _ => error.message

namespace CommandLine

def programName : String := "codesearch-index"

def programVersion : String := "0.3.0"

/-- Why a command fails. -/
inductive Failure where
  | index (error : IndexError)
  | plain (message : String)

def Failure.lines : Failure → List String
  | .plain message => [s!"Error: {message}"]
  | .index error =>
    [s!"Error: {error.chain}", s!"  [{error.statusCode}]"] ++
      error.suggestions.map ("  - " ++ ·)

/-- The texts printed so far, each of which ends its line. -/
structure Transcript where
  output : List String
  diagnostics : List String

/-- A command at work. -/
abbrev Session (α : Type) := ExceptT Failure (StateT Transcript StoreProgram) α

namespace Session

variable {α : Type}

def print (text : String) : Session Unit :=
  modify fun transcript ↦ { transcript with output := transcript.output ++ [text] }

def warn (text : String) : Session Unit :=
  modify fun transcript ↦ { transcript with diagnostics := transcript.diagnostics ++ [text] }

def store (program : StoreProgram α) : Session α := ExceptT.lift (StateT.lift program)

def ofExcept (result : Except IndexError α) : Session α := ExceptT.mk (pure (result.mapError .index))

def index (program : IndexProgram α) : Session α := do ofExcept (← store program.attempt)

/-- A program on settings, whose fault is put into words. -/
def settings (describe : SettingsFault → String) (program : Settings.Result α) : Session α := do
  let result ← store program.run
  ExceptT.mk (pure (result.mapError fun fault ↦ .plain (describe fault)))

/-- A step of a build that stands at `state`. -/
def build (state : BuildState) (program : BuildProgram α) : Session α := do
  ofExcept (← store (program.start (.start state))).1

end Session

open Session (print warn store index)

/-- The settings that a request asks to use. -/
def loadSettings (environment : Environment) (request : Request) : Session Settings := do
  let settings ← match request.settingsFile with
    | some path =>
      Session.settings (fun fault ↦ s!"loading configuration from {path}: {fault.message}")
        (Settings.loadFrom path environment)
    | none =>
      Session.settings (fun fault ↦ s!"configuration error: {fault.message}")
        (Settings.load environment)
  return { settings with outputDirectory := request.output.getD settings.outputDirectory }

/-- The corpus that was named, or else that of the settings. -/
def corpusOf (settings : Settings) (named : Option Path) : Session Corpus :=
  Session.ofExcept { settings.corpus with path := named.or settings.corpus.path }.corpus

def pipelineOf (settings : Settings) : Session Pipeline :=
  Session.ofExcept (Pipeline.create settings settings.model.factory)

/-- The settings with the flags of a build laid over them. -/
def withBuildFlags (settings : Settings) (workers : Option Nat) (resume : Bool) : Settings :=
  let build := settings.build
  { settings with build := { build with
      workers := workers.getD build.workers, resume := build.resume || resume } }

def encoderOf (settings : Settings) : Session Encoder :=
  index (settings.model.factory ⟨0, .cpu⟩)

/-- The mapping beside an index, if there is one. -/
def loadMapping (layout : Layout) : Session (Option IdMapping) := do
  if ← store (IndexProgram.exists? layout.mapping) then
    return some (← index (IdMapping.load layout.mapping))
  else return none

def createSettings (force : Bool) (processors : Nat) : Session Unit := do
  let path ← Session.settings SettingsFault.message (Settings.createFile force processors)
  if force then print s!"Overwrote configuration at: {path}"
  else print s!"Created default configuration at: {path}"
  print s!"Edit {path} to customize your settings."

def writeMapping (settings : Settings) (named : Option Path) : Session Unit := do
  let corpus ← corpusOf settings named
  let pipeline ← pipelineOf settings
  let mapping ← index (pipeline.writeMapping corpus)
  print s!"Wrote {mapping.size} ids to {pipeline.layout.mapping}"

def train (settings : Settings) (named : Option Path) : Session Unit := do
  let corpus ← corpusOf settings named
  let pipeline ← pipelineOf settings
  let texts ← index corpus.texts
  let codebook ← Session.build .untrained (pipeline.train texts)
  print (s!"Trained codebook {codebook.fingerprint.toHex} ({codebook.cellCount} cells) at " ++
    pipeline.layout.codebook)

def build (settings : Settings) (named : Option Path) (workers : Option Nat) (resume : Bool) :
    Session Unit := do
  let corpus ← corpusOf settings named
  let pipeline ← pipelineOf (withBuildFlags settings workers resume)
  let report ← Session.build .untrained (pipeline.run corpus)
  print (Report.buildTable report.segments report.metadata.vectorCount report.elapsed).render
  print s!"Index written to {pipeline.layout.root}"

def buildShards (settings : Settings) (named : Option Path) (workers : Option Nat)
    (resume : Bool) : Session Unit := do
  let corpus ← corpusOf settings named
  let pipeline ← pipelineOf (withBuildFlags settings workers resume)
  let codebook ← index pipeline.loadCodebook
  let texts ← index corpus.texts
  let segments ← Session.build .trained (pipeline.buildShards codebook texts)
  let reused := (segments.filter (·.reused)).length
  print s!"{segments.length} segments ready ({reused} reused); run 'merge' to publish them"

def merge (settings : Settings) (partitions : Option Nat) : Session Unit := do
  let pipeline ← pipelineOf settings
  let codebook ← index pipeline.loadCodebook
  let count ← match partitions with
    | some count => pure count
    | none => index pipeline.partitionsOnDisk
  if count = 0 then throw (.plain s!"no segments found in {pipeline.layout.root}")
  let metadata ← Session.build .shardsComplete (pipeline.merge codebook count)
  print (Report.indexTable metadata).render

def describe (settings : Settings) : Session Unit := do
  let layout : Layout := ⟨settings.outputDirectory⟩
  print s!"State: {(← store layout.detect).name}"
  if ← store (IndexProgram.exists? layout.metadata) then
    print (Report.indexTable (← index (Metadata.load layout.metadata))).render

/-- The vector to search with: the one that was given, or the encoded query. -/
def queryVector (settings : Settings) (query : Option String) (vector : Option Vec) :
    Session Vec := do
  match vector, query with
  | some vector, _ => return vector
  | none, some text =>
    let service := QueryService.ofEncoder (← encoderOf settings)
    Session.ofExcept (service.encodeQuery text)
  | none, none => throw (.plain "provide a query or --vector")

def search (settings : Settings) (query : Option String) (vector : Option Vec)
    (count probes : Option Nat) (json : Bool) : Session Unit := do
  let layout : Layout := ⟨settings.outputDirectory⟩
  let engine ← index (QueryEngine.load layout.root settings.search.probes)
  let mapping ← loadMapping layout
  if let some mapping := mapping then Session.ofExcept (engine.checkMapping mapping)
  let vector ← queryVector settings query vector
  let hits ← Session.ofExcept
    (engine.search vector (count.getD settings.search.hits) probes)
  let hits := hits.map (ExternalHit.resolve mapping)
  if json then print (ExternalHit.listJson hits).indented
  else print (Report.searchTable hits).render

/-- Answers queries one after the other. The index is looked at before each of them, and loaded
anew when it has changed. -/
def answerAll (count : Nat) :
    List String → IndexWatcher → IndexHandle → QueryService → Session Unit
  | [], _, _, _ => return ()
  | line :: rest, watcher, handle, service => do
    let query := String.ofList (Text.trim line.toList)
    if query.isEmpty then answerAll count rest watcher handle service
    else
      let (_, watcher, handle) ← store (watcher.poll handle)
      let (result, service) ← store (service.searchText handle.current query count)
      match result with
      | .ok hits => print (ExternalHit.listJson hits).compact
      | .error .panicked => throw (.index .panicked)
      | .error error => warn s!"Error: {error.message}"
      answerAll count rest watcher handle service

def serve (settings : Settings) (count : Option Nat) (input : List String) : Session Unit := do
  let layout : Layout := ⟨settings.outputDirectory⟩
  let handle ← index (IndexHandle.open layout.root settings.search.probes)
  let encoder ← encoderOf settings
  let service ← index ((QueryService.ofEncoder encoder).withMappingFrom layout.mapping)
  let watcher ← store (IndexWatcher.ofHandle handle)
  warn "Enter one query per line, Ctrl-D to quit."
  answerAll (count.getD settings.search.hits) input watcher handle service

/-- Runs a request, whose input are the given lines. -/
def perform (environment : Environment) (input : List String) (request : Request) :
    Session Unit := do
  let settings ← loadSettings environment request
  match request.command with
  | .init force => createSettings force environment.processors
  | .config => print (Toml.write settings.members)
  | .idMap corpus => writeMapping settings corpus
  | .train corpus => train settings corpus
  | .build corpus workers resume => build settings corpus workers resume
  | .shards corpus workers resume => buildShards settings corpus workers resume
  | .merge partitions => merge settings partitions
  | .info => describe settings
  | .search query vector hits probes json => search settings query vector hits probes json
  | .serve hits => serve settings hits input

/-- How a run ends. -/
structure Completion where
  exit : Nat
  output : String
  diagnostics : String
  deriving DecidableEq

namespace Completion

def textOf (lines : List String) : String := String.join (lines.map (· ++ "\n"))

def of (exit : Nat) (output diagnostics : List String) : Completion :=
  ⟨exit, textOf output, textOf diagnostics⟩

end Completion

def usage : List String :=
  ["Build and query a partitioned IVF-PQ index over code embeddings", "",
    s!"Usage: {programName} [flags] <command>", ""] ++
    CommandName.all.map fun command ↦ s!"  {command.text}: {command.about}"

def Halt.completion : Halt → Completion
  | .version => .of 0 [s!"{programName} {programVersion}"] []
  | .help => .of 0 usage []
  | .misuse cause => .of 2 [] [s!"error: {cause.message}"]

/-- Runs the program with its arguments, its surroundings and the lines of its input. -/
def run (arguments : List String) (environment : Environment) (input : List String) :
    StoreProgram Completion := do
  match Request.parse arguments (environment.bindings.lookup Request.outputVariable) with
  | .error halt => return halt.completion
  | .ok request =>
    match ← (perform environment input request).run.run ⟨[], []⟩ with
    | (.ok (), transcript) => return .of 0 transcript.output transcript.diagnostics
    | (.error (.index .panicked), transcript) =>
      return .of 101 transcript.output transcript.diagnostics
    | (.error failure, transcript) =>
      return .of 1 transcript.output (transcript.diagnostics ++ failure.lines)

end CommandLine
end VectorIndex
