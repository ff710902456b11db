import VectorIndex.Bytes.Basic
import VectorIndex.Store.Path

/-!
# A tree of files

Locations hold files or directories. A failed operation changes nothing. Every change moves the
clock, so two changes of one file leave different times of modification.
-/

namespace VectorIndex

/-- Why the store refuses an operation. -/
inductive StoreFault where
  | notFound
  | notADirectory
  | isADirectory
  | alreadyExists
  | noDevice
  | notUtf8
  | other (text : String)
  deriving DecidableEq

def StoreFault.message : StoreFault → String
  | .notFound => "No such file or directory (os error 2)"
  | .notADirectory => "Not a directory (os error 20)"
  | .isADirectory => "Is a directory (os error 21)"
  | .alreadyExists => "File exists (os error 17)"
  | .noDevice => "No such device (os error 19)"
  | .notUtf8 => "stream did not contain valid UTF-8"
  | .other text => text

/-- Nanoseconds since the start of 1970. -/
abbrev Moment := Int

inductive Entry where
  | file (contents : Bytes) (modified : Moment)
  | directory
  deriving DecidableEq

structure Tree where
  entries : List (Location × Entry)
  clock : Moment

namespace Tree

def empty : Tree := ⟨[], 1700000000000000000⟩

/-- The root is always a directory. -/
def find? (tree : Tree) (location : Location) : Option Entry :=
  if location.isEmpty then some .directory
  else (tree.entries.find? (·.1 = location)).map (·.2)

def set (tree : Tree) (location : Location) (entry : Entry) : Tree :=
  { tree with entries := (location, entry) :: tree.entries.filter (·.1 ≠ location) }

def erase (tree : Tree) (location : Location) : Tree :=
  { tree with entries := tree.entries.filter (·.1 ≠ location) }

def tick (tree : Tree) : Tree := { tree with clock := tree.clock + 1 }

/-- Fails where a file stands in the way or a directory is missing. -/
def checkDirectories (tree : Tree) : List Location → Except StoreFault Unit
  | [] => .ok ()
  | location :: rest =>
    match tree.find? location with
    | some .directory => tree.checkDirectories rest
    | some (.file ..) => .error .notADirectory
    | none => .error .notFound

/-- The locations above, from the root on. -/
def above (location : Location) : List Location :=
  (List.range location.length).map fun count ↦ location.take count

/-- The entry that a path names. -/
def lookup (tree : Tree) (path : Path) : Except StoreFault Entry := do
  let some location := Location.ofPath path | throw .notFound
  tree.checkDirectories (above location)
  match tree.find? location with
  | some (.file contents modified) =>
    if Path.endsWithSlash path then throw .notADirectory else return .file contents modified
  | some .directory => return .directory
  | none => throw .notFound

/-- Where a path names or may name a file: its directory is there, and it is no directory. -/
def fileLocation (tree : Tree) (path : Path) : Except StoreFault Location := do
  let some location := Location.ofPath path | throw .notFound
  tree.checkDirectories (above location)
  if tree.find? location = some .directory then throw .isADirectory
  return location

def write (tree : Tree) (path : Path) (contents : Bytes) : Except StoreFault Tree := do
  let location ← tree.fileLocation path
  return (tree.set location (.file contents tree.clock)).tick

def makeDirectories (tree : Tree) (path : Path) : Except StoreFault Tree := do
  if path.isEmpty then return tree
  let some location := Location.ofPath path | throw .notFound
  match (above location).find? fun l ↦ (tree.find? l matches some (.file ..)) with
  | some _ => throw .notADirectory
  | none =>
    if (tree.find? location matches some (.file ..)) then throw .alreadyExists
    else
      let missing := (above location ++ [location]).filter fun l ↦ (tree.find? l).isNone
      return missing.foldl (fun tree l ↦ tree.set l .directory) tree

def remove (tree : Tree) (path : Path) : Except StoreFault Tree := do
  match ← tree.lookup path with
  | .directory => throw .isADirectory
  | .file .. =>
    let location ← tree.fileLocation path
    return (tree.erase location).tick

/-- Moves a file over whatever file the target names. A target that ends with a slash can only name
a directory. -/
def rename (tree : Tree) (source target : Path) : Except StoreFault Tree := do
  match ← tree.lookup source with
  | .directory => throw .isADirectory
  | .file contents modified =>
    if Path.endsWithSlash target then throw .notADirectory
    let target ← tree.fileLocation target
    let source ← tree.fileLocation source
    return ((tree.erase source).set target (.file contents modified)).tick

/-- The names in a directory. -/
def list (tree : Tree) (path : Path) : Except StoreFault (List String) := do
  match ← tree.lookup path with
  | .file .. => throw .notADirectory
  | .directory =>
    let some location := Location.ofPath path | throw .notFound
    return tree.entries.filterMap fun (l, _) ↦
      if l.length = location.length + 1 ∧ l.dropLast = location then l.getLast? else none

/-- The length of the longest name. -/
def longestName (tree : Tree) : Nat :=
  tree.entries.foldl (fun longest (l, _) ↦ l.foldl (fun longest n ↦ max longest n.length) longest) 0

/-- A name that is longer than every name in use. -/
def freshName (tree : Tree) : String :=
  ".staged-" ++ String.ofList (List.replicate tree.longestName '0')

/-- A new empty file in a directory. The empty path stands for the working directory here. -/
def stage (tree : Tree) (directory : Path) : Except StoreFault (Path × Tree) := do
  match ← tree.lookup (if directory.isEmpty then "." else directory) with
  | .file .. => throw .notADirectory
  | .directory =>
    let path := Path.join directory tree.freshName
    return (path, ← tree.write path [])

def append (tree : Tree) (path : Path) (bytes : Bytes) : Except StoreFault Tree := do
  match ← tree.lookup path with
  | .directory => throw .isADirectory
  | .file contents _ => tree.write path (contents ++ bytes)

end Tree
end VectorIndex
