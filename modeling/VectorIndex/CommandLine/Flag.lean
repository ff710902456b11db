import VectorIndex.Decimal.Reading
import VectorIndex.Store.Path
import VectorIndex.Vector.Basic

/-!
# Commands and their flags

A flag has a long name, a letter or both, and takes a value of some kind or none. A command takes
the flags that every command takes, flags of its own, and at most one operand.
-/

namespace VectorIndex.CommandLine

/-- What a value must be. -/
inductive ValueKind where
  /-- Any text but the empty one. -/
  | path
  | count
  /-- Single-precision numbers with commas between them. -/
  | vector
  | text
  deriving DecidableEq

def count? (value : String) : Option Nat := Decimal.natural? 64 value.toList

def vector? (value : String) : Option Vec :=
  (value.splitOn ",").mapM fun number ↦ Binary32.ofText? number.toList

def ValueKind.accepts (kind : ValueKind) (value : String) : Bool :=
  match kind with
  | path => !value.isEmpty
  | count => (count? value).isSome
  | vector => (vector? value).isSome
  | text => true

inductive Flag where
  | settings
  | output
  | info
  | version
  | help
  | force
  | workers
  | resume
  | progress
  | partitions
  | vector
  | hits
  | probes
  | json
  deriving DecidableEq

namespace Flag

def name? : Flag → Option String
  | settings => "config"
  | output => "output"
  | info => "info"
  | version => "version"
  | help => "help"
  | force => "force"
  | workers => "workers"
  | resume => "resume"
  | progress => "progress"
  | partitions => "partitions"
  | vector => "vector"
  | hits => none
  | probes => "nprobe"
  | json => "json"

def letter? : Flag → Option Char
  | settings => 'c'
  | output => 'o'
  | version => 'V'
  | help => 'h'
  | force => 'f'
  | workers => 'w'
  | progress => 'p'
  | hits => 'k'
  | _ => none

/-- The kind of its value, if it takes one. -/
def value? : Flag → Option ValueKind
  | settings => some .path
  | output => some .path
  | workers => some .count
  | partitions => some .count
  | vector => some .vector
  | hits => some .count
  | probes => some .count
  | _ => none

/-- Values of a flag that is given more than once are put together. -/
def accumulates (flag : Flag) : Bool := flag = vector

def label (flag : Flag) : String :=
  match flag.name?, flag.letter? with
  | some name, _ => "--" ++ name
  | none, some letter => "-" ++ letter.toString
  | none, none => ""

end Flag

inductive CommandName where
  | init
  | config
  | idMap
  | train
  | build
  | shards
  | merge
  | info
  | search
  | serve
  deriving DecidableEq

namespace CommandName

def all : List CommandName :=
  [init, config, idMap, train, build, shards, merge, info, search, serve]

def text : CommandName → String
  | init => "init"
  | config => "config"
  | idMap => "id-map"
  | train => "train"
  | build => "build"
  | shards => "shards"
  | merge => "merge"
  | info => "info"
  | search => "search"
  | serve => "serve"

def ofText? (text : String) : Option CommandName := all.find? (·.text = text)

def about : CommandName → String
  | init => "Set up .codesearch directory with default configuration"
  | config => "Display active settings"
  | idMap => "Write id_mapping.json for a corpus"
  | train => "Train the codebook on the head of the corpus"
  | build => "Run the whole build: id mapping, training, shards, merge"
  | shards => "Build segments with the existing codebook, without merging"
  | merge => "Merge segments into the served index"
  | info => "Show facts about the merged index"
  | search => "Find the code nearest to a query"
  | serve => "Answer queries from stdin, reloading when a new index is merged"

def operand? : CommandName → Option ValueKind
  | idMap => some .path
  | train => some .path
  | build => some .path
  | shards => some .path
  | search => some .text
  | _ => none

/-- The flags of every command. -/
def sharedFlags : List Flag := [.settings, .output, .info, .help]

def flags (command : CommandName) : List Flag :=
  sharedFlags ++ match command with
    | init => [.force]
    | build => [.workers, .resume, .progress]
    | shards => [.workers, .resume]
    | merge => [.partitions]
    | search => [.vector, .hits, .probes, .json]
    | serve => [.hits]
    | _ => []

end CommandName

/-- The flags that may stand in front of a command. -/
def leadingFlags : List Flag := .version :: CommandName.sharedFlags

end VectorIndex.CommandLine
