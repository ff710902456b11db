import VectorIndex.Decimal.Layout

/-!
# JSON values

Members keep their order and may repeat, because a reader of one kind of record and a reader of
free-form values judge repetitions differently.
-/

namespace VectorIndex

inductive Json.Number where
  | integer (value : Int)
  | single (value : Binary32)
  | double (value : Binary64)
  /-- A number with an exponent beyond double precision. -/
  | outOfRange
  deriving DecidableEq, Inhabited

inductive Json where
  | null
  | bool (value : Bool)
  | number (value : Json.Number)
  | string (value : String)
  | array (items : List Json)
  | object (members : List (String × Json))
  deriving Inhabited

namespace Json

def nat (value : Nat) : Json := .number (.integer value)

/-- The last member of that name. -/
def lookup? (name : String) (members : List (String × Json)) : Option Json :=
  (members.reverse.find? (·.1 = name)).map (·.2)

def member? (name : String) : Json → Option Json
  | object members => lookup? name members
  | _ => none

mutual

/-- How deeply arrays and objects are nested. -/
def depth : Json → Nat
  | array items => depthItems items + 1
  | object members => depthMembers members + 1
  | _ => 0

def depthItems : List Json → Nat
  | [] => 0
  | item :: rest => max item.depth (depthItems rest)

def depthMembers : List (String × Json) → Nat
  | [] => 0
  | (_, value) :: rest => max value.depth (depthMembers rest)

end

mutual

def inRange : Json → Bool
  | number .outOfRange => false
  | array items => inRangeItems items
  | object members => inRangeMembers members
  | _ => true

def inRangeItems : List Json → Bool
  | [] => true
  | item :: rest => item.inRange && inRangeItems rest

def inRangeMembers : List (String × Json) → Bool
  | [] => true
  | (_, value) :: rest => value.inRange && inRangeMembers rest

end

/-- Inserts by name; the later of two members of one name stays. -/
def insertSorted (name : String) (value : Json) : List (String × Json) → List (String × Json)
  | [] => [(name, value)]
  | (other, kept) :: rest =>
    if name < other then (name, value) :: (other, kept) :: rest
    else if name = other then (name, value) :: rest
    else (other, kept) :: insertSorted name value rest

mutual

/-- Members in the order of their names, each name once. -/
def normal : Json → Json
  | array items => array (normalItems items)
  | object members => object (normalMembers members [])
  | other => other

def normalItems : List Json → List Json
  | [] => []
  | item :: rest => item.normal :: normalItems rest

def normalMembers : List (String × Json) → List (String × Json) → List (String × Json)
  | [], done => done
  | (name, value) :: rest, done => normalMembers rest (insertSorted name value.normal done)

end

end Json
end VectorIndex
