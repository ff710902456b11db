import VectorIndex.Json.Basic

/-!
# Typed views of JSON values

A record is an object that names each field once, other names being ignored, or an array of the
fields in order. A number is whole and within its width.
-/

namespace VectorIndex.Json

def nat? (bits : Nat) : Json → Option Nat
  | number (.integer value) =>
    if 0 ≤ value ∧ value.toNat < Nat.pow 2 bits then some value.toNat else none
  | _ => none

def string? : Json → Option String
  | string value => some value
  | _ => none

def bool? : Json → Option Bool
  | bool value => some value
  | _ => none

def items? {α : Type} (item : Json → Option α) : Json → Option (List α)
  | array items => items.mapM item
  | _ => none

/-- The member of that name, if it is named exactly once. -/
def once? (name : String) (members : List (String × Json)) : Option Json :=
  match members.filter (·.1 = name) with
  | [(_, value)] => some value
  | _ => none

/-- The fields of a record, in the order of `names`. -/
def fields? (names : List String) : Json → Option (List Json)
  | object members => names.mapM (once? · members)
  | array items => if items.length = names.length then some items else none
  | _ => none

end VectorIndex.Json
