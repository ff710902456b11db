import VectorIndex.Json.Printer
import VectorIndex.Json.Reader
import VectorIndex.Json.Decode

/-!
# External ids

Outside the index a document is named by a number of 64 bits or by a text.
-/

namespace VectorIndex

inductive ExternalId where
  | number (value : Int)
  | text (value : String)
  deriving DecidableEq

namespace ExternalId

def toText : ExternalId → String
  | number value => toString value
  | text value => value

def toJson : ExternalId → Json
  | number value => .number (.integer value)
  | text value => .string value

def ofJson? : Json → Option ExternalId
  | .number (.integer value) =>
    if -0x8000000000000000 ≤ value ∧ value < 0x8000000000000000 then some (number value)
    else none
  | .string value => some (text value)
  | _ => none

/-- The number with the same 64 bits as a document id. -/
def ofDocument (id : Nat) : ExternalId := number (Int.bmod id 0x10000000000000000)

end ExternalId
end VectorIndex
