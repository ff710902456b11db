import VectorIndex.Settings.Basic
import VectorIndex.Toml.Basic

/-!
# Settings as TOML values

A section is a table of fields or an array of them in order; a field that is missing has its
default, and names that no field has are ignored. Numbers are whole and fit their width.
-/

namespace VectorIndex

namespace Toml

def boolean? : Toml → Option Bool
  | boolean value => some value
  | _ => none

def string? : Toml → Option String
  | string value => some value
  | _ => none

/-- A natural number of at most `bits` bits. -/
def nat? (bits : Nat) : Toml → Option Nat
  | integer value => 
    if 0 ≤ value ∧ value.toNat < Nat.pow 2 bits then some value.toNat else none
  | _ => none

/-- What stands for each of the fields. -/
def fields? (names : List String) : Toml → Option (List (Option Toml))
  | table members => some (names.map (lookup? · members))
  | array items => some ((List.range names.length).map (items[·]?))
  | _ => none

end Toml

namespace Settings

/-- The value of a field, or its default where it is missing. -/
def fieldOr {α : Type} (read : Toml → Option α) (default : α) : Option Toml → Option α
  | some value => read value
  | none => some default

/-- A field that may be left out. -/
def optional {α : Type} (read : Toml → Option α) : Option Toml → Option (Option α)
  | some value => (read value).map some
  | none => some none

def modelNames : List String := ["name", "base_model_path", "fine_tuned_model_path", "cache_dir"]

def model? (value : Toml) : Option ModelSettings := do
  let [name, base, fineTuned, cache] ← value.fields? modelNames | none
  return {
    name := ← fieldOr Toml.string? ModelSettings.default.name name
    baseModelPath := ← optional Toml.string? base
    fineTunedModelPath := ← optional Toml.string? fineTuned
    cacheDirectory := ← optional Toml.string? cache }

def corpusNames : List String := ["path", "text_field", "id_field"]

def corpus? (value : Toml) : Option CorpusSettings := do
  let [path, textField, idField] ← value.fields? corpusNames | none
  return {
    path := ← optional Toml.string? path
    textField := ← fieldOr Toml.string? CorpusSettings.default.textField textField
    idField := ← fieldOr Toml.string? CorpusSettings.default.idField idField }

def buildNames : List String :=
  ["workers", "partition_size", "sub_batch_size", "train_sample_size", "resume", "gpus"]

def build? (processors : Nat) (value : Toml) : Option BuildSettings := do
  let [workers, partitionSize, batchSize, trainSampleSize, resume, accelerators] ←
    value.fields? buildNames | none
  let default := BuildSettings.default processors
  return {
    workers := ← fieldOr (Toml.nat? 64) default.workers workers
    partitionSize := ← fieldOr (Toml.nat? 64) default.partitionSize partitionSize
    batchSize := ← fieldOr (Toml.nat? 64) default.batchSize batchSize
    trainSampleSize := ← optional (Toml.nat? 64) trainSampleSize
    resume := ← fieldOr Toml.boolean? default.resume resume
    accelerators := ← fieldOr (Toml.nat? 64) default.accelerators accelerators }

def trainingNames : List String :=
  ["cells", "subspaces", "bits_per_subspace", "seed", "min_points_per_cell", "max_iterations"]

def training? (value : Toml) : Option TrainingSettings := do
  let [cells, subspaces, bits, seed, minPoints, maxIterations] ← value.fields? trainingNames
    | none
  let default := TrainingSettings.default
  return {
    cells := ← fieldOr (Toml.nat? 64) default.cells cells
    subspaces := ← fieldOr (Toml.nat? 64) default.subspaces subspaces
    bitsPerSubspace := ← fieldOr (Toml.nat? 8) default.bitsPerSubspace bits
    seed := ← fieldOr (Toml.nat? 64) default.seed seed
    minPointsPerCell := ← fieldOr (Toml.nat? 64) default.minPointsPerCell minPoints
    maxIterations := ← fieldOr (Toml.nat? 64) default.maxIterations maxIterations }

def searchNames : List String := ["nprobe", "default_k", "watch_interval"]

def search? (value : Toml) : Option SearchSettings := do
  let [probes, hits, watchInterval] ← value.fields? searchNames | none
  let default := SearchSettings.default
  return {
    probes := ← fieldOr (Toml.nat? 64) default.probes probes
    hits := ← fieldOr (Toml.nat? 64) default.hits hits
    watchInterval := ← fieldOr (Toml.nat? 64) default.watchInterval watchInterval }

def names : List String :=
  ["version", "output_dir", "debug", "model", "corpus", "build", "training", "search"]

def ofToml? (processors : Nat) (value : Toml) : Option Settings := do
  let [version, outputDirectory, debug, model, corpus, build, training, search] ←
    value.fields? names | none
  let default := Settings.default processors
  return {
    version := ← fieldOr (Toml.nat? 32) default.version version
    outputDirectory := ← fieldOr Toml.string? default.outputDirectory outputDirectory
    debug := ← fieldOr Toml.boolean? default.debug debug
    model := ← fieldOr model? default.model model
    corpus := ← fieldOr corpus? default.corpus corpus
    build := ← fieldOr (build? processors) default.build build
    training := ← fieldOr training? default.training training
    search := ← fieldOr search? default.search search }

def nat (value : Nat) : Toml := .integer value

/-- The member of an optional field: none where it is left out. -/
def member? {α : Type} (write : α → Toml) (name : String) : Option α → Toml.Members
  | some value => [(name, write value)]
  | none => []

def modelMembers (model : ModelSettings) : Toml.Members :=
  ("name", .string model.name) :: member? .string "base_model_path" model.baseModelPath ++
    member? .string "fine_tuned_model_path" model.fineTunedModelPath ++
    member? .string "cache_dir" model.cacheDirectory

def corpusMembers (corpus : CorpusSettings) : Toml.Members :=
  member? .string "path" corpus.path ++
    [("text_field", .string corpus.textField), ("id_field", .string corpus.idField)]

def buildMembers (build : BuildSettings) : Toml.Members :=
  [("workers", nat build.workers), ("partition_size", nat build.partitionSize),
    ("sub_batch_size", nat build.batchSize)] ++
    member? nat "train_sample_size" build.trainSampleSize ++
    [("resume", .boolean build.resume), ("gpus", nat build.accelerators)]

def trainingMembers (training : TrainingSettings) : Toml.Members :=
  [("cells", nat training.cells), ("subspaces", nat training.subspaces),
    ("bits_per_subspace", nat training.bitsPerSubspace), ("seed", nat training.seed),
    ("min_points_per_cell", nat training.minPointsPerCell),
    ("max_iterations", nat training.maxIterations)]

def searchMembers (search : SearchSettings) : Toml.Members :=
  [("nprobe", nat search.probes), ("default_k", nat search.hits),
    ("watch_interval", nat search.watchInterval)]

/-- All fields that have a value, in the order of their declaration. -/
def members (settings : Settings) : Toml.Members :=
  [("version", nat settings.version), ("output_dir", .string settings.outputDirectory),
    ("debug", .boolean settings.debug), ("model", .table (modelMembers settings.model)),
    ("corpus", .table (corpusMembers settings.corpus)),
    ("build", .table (buildMembers settings.build)),
    ("training", .table (trainingMembers settings.training)),
    ("search", .table (searchMembers settings.search))]

end Settings
end VectorIndex
