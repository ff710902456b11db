/-!
# Paths

A path is kept and printed as it was given. Names are separated by slashes; a path that starts
with a slash is absolute and replaces whatever it is joined to. The location of a path is its list
of names with `.` dropped and `..` taking back the name before it.
-/

namespace VectorIndex

abbrev Path := String

namespace Path

def isAbsolute (path : Path) : Bool := path.toList.head? = some '/'

def endsWithSlash (path : Path) : Bool := path.toList.getLast? = some '/'

def join (directory file : Path) : Path :=
  if isAbsolute file || directory.isEmpty then file
  else if endsWithSlash directory then directory ++ file
  else directory ++ "/" ++ file

/-- The pieces between slashes. -/
def pieces (path : Path) : List String := go [] path.toList
where
  go (reversed : List Char) : List Char → List String
    | [] => [String.ofList reversed.reverse]
    | c :: rest =>
      if c = '/' then String.ofList reversed.reverse :: go [] rest else go (c :: reversed) rest

def dropTrailingSlashes (path : Path) : Path :=
  String.ofList (path.toList.reverse.dropWhile (· = '/')).reverse

/-- The path of the directory that holds the last name; the empty path for a bare name. -/
def parent? (path : Path) : Option Path :=
  let trimmed := dropTrailingSlashes path
  if trimmed.isEmpty then none
  else
    let kept := trimmed.toList.reverse.dropWhile (· ≠ '/')
    match kept.dropWhile (· = '/') with
    | [] => some (if kept.isEmpty then "" else "/")
    | rest => some (String.ofList rest.reverse)

/-- The name behind the last slash. -/
def fileName (path : Path) : String :=
  String.ofList ((dropTrailingSlashes path).toList.reverse.takeWhile (· ≠ '/')).reverse

end Path

/-- The names from the root of the store on; the root itself has none. -/
abbrev Location := List String

namespace Location

def resolve : List String → Location → Location
  | [], reversed => reversed.reverse
  | piece :: rest, reversed =>
    if piece.isEmpty || piece = "." then resolve rest reversed
    else if piece = ".." then resolve rest reversed.tail
    else resolve rest (piece :: reversed)

/-- The empty path leads nowhere. An absolute path starts from a name that no relative one has. -/
def ofPath (path : Path) : Option Location :=
  if path.isEmpty then none
  else
    let names := resolve (Path.pieces path) []
    some (if Path.isAbsolute path then "/" :: names else names)

end Location
end VectorIndex
