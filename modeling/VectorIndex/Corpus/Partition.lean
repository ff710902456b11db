import VectorIndex.Error
import VectorIndex.Sequence.Chunks

/-!
# Partitions of a corpus

The stream of texts is cut into chunks of one size. A chunk with an unreadable text gives its
first error; the others become partitions, numbered in order, whose ids follow on each other.
-/

namespace VectorIndex

structure Partition where
  index : PartitionIndex
  /-- The id of the first item; the others follow. -/
  base : DocumentId
  items : List String
  deriving DecidableEq

namespace Partition

def idRange (partition : Partition) : IdRange := ⟨partition.base, partition.items.length⟩

/-- All the texts, or the first error among them. -/
def collect {α : Type} : List (Except IndexError α) → Except IndexError (List α)
  | [] => .ok []
  | .error error :: _ => .error error
  | .ok item :: rest =>
    match collect rest with
    | .ok items => .ok (item :: items)
    | .error error => .error error

/-- Each partition is numbered as if its counters, an index of 32 bits and an id of 64, never
overflowed. -/
def numbered : PartitionIndex → DocumentId → List (List (Except IndexError String)) →
    List (Except IndexError Partition)
  | _, _, [] => []
  | index, base, chunk :: rest =>
    match collect chunk with
    | .error error => .error error :: numbered index base rest
    | .ok items => .ok ⟨index, base, items⟩ :: numbered (index + 1) (base + items.length) rest

end Partition

/-- Partitions of `size` texts each, of which the last may be shorter. -/
def partitions (texts : List (Except IndexError String)) (size : Nat) :
    List (Except IndexError Partition) :=
  Partition.numbered 0 0 (chunks size texts)

end VectorIndex
