/-!
# The stages of a build

A build passes through its stages in one order; `next` is the only move from a stage.
-/

namespace VectorIndex

inductive BuildState where
  | untrained
  | trained
  | shardsBuilding
  | shardsComplete
  | merged
  | servable
  deriving DecidableEq

namespace BuildState

def next : BuildState → Option BuildState
  | untrained => some trained
  | trained => some shardsBuilding
  | shardsBuilding => some shardsComplete
  | shardsComplete => some merged
  | merged => some servable
  | servable => none

def name : BuildState → String
  | untrained => "untrained"
  | trained => "trained"
  | shardsBuilding => "shards-building"
  | shardsComplete => "shards-complete"
  | merged => "merged"
  | servable => "servable"

def all : List BuildState := [untrained, trained, shardsBuilding, shardsComplete, merged, servable]

def ofName? (name : String) : Option BuildState := all.find? (·.name = name)

end BuildState
end VectorIndex
