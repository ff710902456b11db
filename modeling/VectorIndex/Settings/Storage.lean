import VectorIndex.Settings.Fields
import VectorIndex.Settings.Variable
import VectorIndex.Store.Program
import VectorIndex.Text.Utf8
import VectorIndex.Toml.Printer

/-!
# Loading and saving settings

Defaults are overlaid by a file and the file by environment variables. A relative file is looked
for in the working directory and then in each directory above it, and need not exist.
-/

namespace VectorIndex

/-- Why settings cannot be loaded or saved. -/
inductive SettingsFault where
  | alreadyExists
  | noDirectory
  | store (fault : StoreFault)
  | malformed (path : Path)
  /-- A field has a value of the wrong type, or out of range. -/
  | mistyped
  deriving DecidableEq

def SettingsFault.message : SettingsFault → String
  | .alreadyExists => "Configuration file already exists. Use --force to overwrite"
  | .noDirectory => "Invalid path"
  | .store fault => fault.message
  | .malformed path => s!"no settings file: {path}"
  | .mistyped => "a setting has the wrong type"

/-- What a program is given by its surroundings. -/
structure Environment where
  bindings : List (String × String)
  processors : Nat

namespace Settings

abbrev Result (α : Type) := ExceptT SettingsFault StoreProgram α

def check {α : Type} (answer : Except StoreFault α) : Result α :=
  ExceptT.mk (pure (answer.mapError .store))

def perform (action : Action) : Result action.Answer := ExceptT.lift (StoreProgram.perform action)

def fileName : String := "settings.toml"

/-- The file of the nearest directory that has a settings directory. -/
def nearestFile : List Path → StoreProgram (Option Path)
  | [] => return none
  | directory :: above => do
    let settings := Path.join directory Settings.directory
    if (← StoreProgram.perform (.inspect settings)) = some .directory then
      return some (Path.join settings fileName)
    else nearestFile above

/-- The first of the paths that is a file. -/
def firstFile : List Path → StoreProgram (Option Path)
  | [] => return none
  | path :: rest => do
    if (← StoreProgram.perform (.inspect path)) = some .file then return some path
    else firstFile rest

def locate (path : Path) : StoreProgram (Option Path) := do
  if Path.isAbsolute path then firstFile [path]
  else firstFile ((← StoreProgram.perform .ancestors).map (Path.join · path))

/-- What a file sets: nothing, if there is none. -/
def fileLayer (path : Path) : Result Toml := do
  match ← ExceptT.lift (locate path) with
  | none => return .table []
  | some path =>
    let source ← check (← perform (.fetch path))
    let contents ← check source.read
    match (Utf8.decodeChars contents).bind Toml.parse? with
    | some members => return .table members
    | none => throw (.malformed path)

/-- Defaults, then the file, then the variables. -/
def combine (environment : Environment) (file : Toml) : Option Settings :=
  let defaults := Toml.table (Settings.default environment.processors).members
  ofToml? environment.processors
    ((defaults.overlay file).overlay (Variable.layer environment.bindings))

/-- The settings of a file and of the variables. -/
def loadFrom (path : Path) (environment : Environment) : Result Settings := do
  match combine environment (← fileLayer path) with
  | some settings => return settings
  | none => throw .mistyped

/-- The settings of the nearest settings directory. -/
def load (environment : Environment) : Result Settings := do
  let nearest ← ExceptT.lift (nearestFile (← perform .ancestors))
  loadFrom (nearest.getD (Path.join directory fileName)) environment

def save (settings : Settings) (path : Path) : Result Unit := do
  let some parent := Path.parent? path | throw .noDirectory
  check (← perform (.makeDirectories parent))
  check (← perform (.overwrite path (Utf8.encode (Toml.write settings.members))))

/-- A settings file with the defaults and an explanation of each. -/
def template (processors : Nat) : String :=
  String.intercalate "\n"
    ["# codesearch-index configuration",
     "",
     "# Version of the configuration schema",
     "version = 1",
     "",
     "# Directory receiving trained.index, segment_*.seg and the merged index",
     "output_dir = \".codesearch/index\"",
     "",
     "# Global debug mode",
     "debug = false",
     "",
     "[model]",
     "# fastembed model: AllMiniLML6V2, AllMiniLML12V2, BGESmallENV15, BGEBaseENV15",
     "name = \"AllMiniLML6V2\"",
     "",
     "# Use a fine-tuned ONNX model instead of the named one.",
     "# Tokenizer files are read from base_model_path, model.onnx from fine_tuned_model_path.",
     "# base_model_path = \"models/base\"",
     "# fine_tuned_model_path = \"models/fine-tuned\"",
     "",
     "[corpus]",
     "# JSONL file, one document per line",
     "# path = \"data/corpus.jsonl\"",
     "text_field = \"code\"",
     "id_field = \"id\"",
     "",
     "[build]",
     "# Number of shard builder workers (defaults to CPU count)",
     "# workers = " ++ toString processors,
     "",
     "# Documents per partition; each partition becomes one segment",
     "partition_size = 1048576",
     "",
     "# Documents encoded per encoder call",
     "sub_batch_size = 1024",
     "",
     "# Training sample size (defaults to partition_size)",
     "# train_sample_size = 1048576",
     "",
     "# Skip partitions whose segment already exists and matches the codebook",
     "resume = false",
     "",
     "# Accelerators to spread workers over (worker i uses device i % gpus)",
     "gpus = 0",
     "",
     "[training]",
     "# Coarse cells (nlist)",
     "cells = 8192",
     "",
     "# PQ subspaces; must divide the embedding dimension",
     "subspaces = 8",
     "",
     "# Bits per PQ code (1-8)",
     "bits_per_subspace = 8",
     "",
     "# k-means seed; identical input and seed give an identical codebook",
     "seed = 24301",
     "",
     "# Training fails unless the sample has cells * min_points_per_cell vectors",
     "min_points_per_cell = 4",
     "",
     "max_iterations = 25",
     "",
     "[search]",
     "# Cells scanned per query",
     "nprobe = 64",
     "",
     "default_k = 10",
     "",
     "# Seconds between checks for a newly merged index",
     "watch_interval = 5",
     ""]

/-- Writes the template to the settings directory, over a file only with `force`. -/
def createFile (force : Bool) (processors : Nat) : Result Path := do
  let path := Path.join directory fileName
  if !force && (← perform (.inspect path)).isSome then throw .alreadyExists
  check (← perform (.makeDirectories directory))
  check (← perform (.overwrite path (Utf8.encode (template processors))))
  return path

end Settings
end VectorIndex
