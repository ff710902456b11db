/-!
# TOML values

A table keeps its members in order, each name once. A number with a fraction is kept as it was
written, and a moment in time is a table that holds it as it was written under a reserved name.
-/

namespace VectorIndex

inductive Toml where
  | boolean (value : Bool)
  | integer (value : Int)
  | real (written : String)
  | string (value : String)
  | array (items : List Toml)
  | table (members : List (String × Toml))
  deriving Inhabited

namespace Toml

abbrev Members := List (String × Toml)

def moment (written : String) : Toml :=
  table [("$moment", string written)]

def lookup? (name : String) (members : Members) : Option Toml :=
  (members.find? (·.1 = name)).map (·.2)

/-- Sets a member, in its place if it has one. -/
def assign (name : String) (value : Toml) : Members → Members
  | [] => [(name, value)]
  | (other, kept) :: rest =>
    if other = name then (name, value) :: rest else (other, kept) :: assign name value rest

mutual

/-- A value laid over another: tables are joined member by member, all else is replaced. -/
def overlay (base : Toml) : Toml → Toml
  | table above =>
    match base with
    | table below => table (overlayMembers below above)
    | _ => table above
  | above => above

def overlayMembers (below : Members) : Members → Members
  | [] => below
  | (name, value) :: rest =>
    let value := match lookup? name below with
      | some kept => overlay kept value
      | none => value
    overlayMembers (assign name value below) rest

end

/-- The value inside tables of the given names. -/
def nest (value : Toml) : List String → Toml
  | [] => value
  | name :: rest => table [(name, nest value rest)]

end Toml
end VectorIndex
