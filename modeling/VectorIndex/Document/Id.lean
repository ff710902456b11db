/-!
# Document ids and the ranges that own them

Ids are dense: every partition owns a half-open range, and the ranges of one index tile the ids
from zero on. `checkTiling` decides that by one sweep over the ranges in order; it accepts an
empty range only where the sweep stands when it meets it.
-/

namespace VectorIndex

abbrev DocumentId := Nat
abbrev PartitionIndex := Nat
abbrev CellId := Nat

/-- The ids from `start` on, `length` of them. -/
structure IdRange where
  start : DocumentId
  length : Nat
  deriving DecidableEq

namespace IdRange

/-- One past the last id, a number of 64 bits. -/
def stop (range : IdRange) : Nat := (range.start + range.length) % 0x10000000000000000

def contains (range : IdRange) (id : DocumentId) : Bool := range.start ≤ id && id < range.stop

def ids (range : IdRange) : List DocumentId :=
  List.range' range.start (range.stop - range.start)

def before (a b : IdRange) : Bool :=
  a.start < b.start || (a.start = b.start && a.length ≤ b.length)

theorem mem_ids {range : IdRange} {id : DocumentId} :
    id ∈ range.ids ↔ range.contains id = true := by
  unfold ids contains DocumentId
  rw [List.mem_range'_1, Bool.and_eq_true, decide_eq_true_iff, decide_eq_true_iff]
  omega

end IdRange

/-- Why ranges are no tiling. -/
inductive TilingFault where
  | overlap (range : IdRange) (reached : Nat)
  | gap (reached start : Nat)
  | short (reached total : Nat)
  deriving DecidableEq

def TilingFault.message : TilingFault → String
  | .overlap range reached =>
    s!"id range [{range.start}, {range.stop}) overlaps ids below {reached}"
  | .gap reached start =>
    s!"gap in id space: ids [{reached}, {start}) are not owned by any partition"
  | .short reached total => s!"id ranges cover [0, {reached}) but corpus has {total} documents"

/-- Each range starts where the ones before it ended, and the last ends at `total`. -/
def sweep (total : Nat) : Nat → List IdRange → Except TilingFault Unit
  | reached, [] => if reached = total then .ok () else .error (.short reached total)
  | reached, range :: rest =>
    if range.start < reached then .error (.overlap range reached)
    else if reached < range.start then .error (.gap reached range.start)
    else sweep total range.stop rest

/-- Whether the ranges, in any order, tile the ids below `total`. -/
def checkTiling (ranges : List IdRange) (total : Nat) : Except TilingFault Unit :=
  sweep total 0 (ranges.mergeSort IdRange.before)

end VectorIndex
