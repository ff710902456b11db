import VectorIndex.Bytes.Basic
import VectorIndex.Numeric.Binary32

/-!
# Packed values

Small numbers take one byte; a larger one takes a mark and two, four or eight bytes. Writing
uses the shortest form and reading accepts the longer ones too, up to the width of the number. A
list is its length followed by its items.
-/

namespace VectorIndex.Packed

open Bytes (littleEndian toNat)

/-- The shortest form of a number below `2 ^ 64`. -/
def number (value : Nat) : Bytes :=
  if value < 251 then [UInt8.ofNat value]
  else if value < 0x10000 then 251 :: littleEndian 2 value
  else if value < 0x100000000 then 252 :: littleEndian 4 value
  else 253 :: littleEndian 8 value

def list {α : Type} (item : α → Bytes) (items : List α) : Bytes :=
  number items.length ++ items.flatMap item

def single (x : Binary32) : Bytes := littleEndian 4 x.bits.toNat

/-- Reads a value from the front of the bytes. -/
abbrev Decoder := StateT Bytes Option

namespace Decoder

def byte : Decoder UInt8 := fun bytes ↦
  match bytes with
  | [] => none
  | byte :: rest => some (byte, rest)

def take (width : Nat) : Decoder Bytes := fun bytes ↦
  if width ≤ bytes.length then some (bytes.splitAt width) else none

/-- A number in a form of at most `width` bytes behind its mark. -/
def number (width : Nat) : Decoder Nat := do
  let mark ← byte
  if mark < 251 then return mark.toNat
  else if mark = 251 then return toNat (← take 2)
  else if mark = 252 ∧ 4 ≤ width then return toNat (← take 4)
  else if mark = 253 ∧ 8 ≤ width then return toNat (← take 8)
  else failure

def single : Decoder Binary32 := return ⟨UInt32.ofNat (toNat (← take 4))⟩

/-- Items one after the other, put in front of those read before, which are held in reverse. -/
def many {α : Type} (item : Decoder α) : Nat → List α → Decoder (List α)
  | 0, reversed => return reversed.reverse
  | count + 1, reversed => do
    let next ← item
    many item count (next :: reversed)

def list {α : Type} (item : Decoder α) : Decoder (List α) := do
  many item (← number 8) []

end Decoder
end VectorIndex.Packed
