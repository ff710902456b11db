import VectorIndex.CommandLine.Session

/-!
# The program

Performs the actions of a command in the file system and prints how it ends.
-/

namespace VectorIndex.Disk

def faultOf : IO.Error → StoreFault
  | .noFileOrDirectory .. => .notFound
  | .inappropriateType _ code _ => if code = 20 then .notADirectory else .isADirectory
  | .alreadyExists .. => .alreadyExists
  | error => .other error.toString

def attempt {α : Type} (work : IO α) : IO (Except StoreFault α) := do
  match ← work.toBaseIO with
  | .ok value => return .ok value
  | .error error => return .error (faultOf error)

/-- What a path names: a directory is what opens and cannot be read. -/
def source (path : Path) : IO Source := do
  let handle ← IO.FS.Handle.mk path .read
  match ← (handle.read 1).toBaseIO with
  | .ok _ => return .file (← IO.FS.readBinFile path).toList
  | .error _ => return .directory

def kind (path : Path) : IO Kind := do
  let handle ← IO.FS.Handle.mk path .read
  match ← (handle.read 1).toBaseIO with
  | .ok _ => return .file
  | .error _ => return .directory

def nanoseconds (time : IO.FS.SystemTime) : Moment := time.sec * 1000000000 + time.nsec.toNat

def modified (path : Path) : IO Moment :=
  return nanoseconds (← (← IO.FS.realPath path).metadata).modified

/-- The time at which a file is made. -/
def now : IO Moment := do
  let (_, path) ← IO.FS.createTempFile
  let time := (← path.metadata).modified
  IO.FS.removeFile path
  return nanoseconds time

def list (path : Path) : IO (List String) :=
  return ((← (← IO.FS.realPath (if path.isEmpty then "." else path)).readDir).map
    (·.fileName)).toList

def append (path : Path) (bytes : Bytes) : IO Unit := do
  let handle ← IO.FS.Handle.mk path .append
  handle.write ⟨bytes.toArray⟩
  handle.flush

/-- Makes an empty file under the first of some names that is not in use. -/
def stage (directory : Path) : IO Path := do
  let start ← IO.monoNanosNow
  for attempt in [0:64] do
    let path := Path.join directory s!".staged-{start + attempt}"
    match ← (IO.FS.Handle.mk path .writeNew).toBaseIO with
    | .ok _ => return path
    | .error (.alreadyExists ..) => continue
    | .error error => throw error
  throw (IO.userError "no unused name")

/-- A directory and all above it, the nearest first. -/
def upwards : Nat → Path → List Path
  | 0, _ => []
  | fuel + 1, path =>
    path :: match Path.parent? path with
      | some parent => upwards fuel parent
      | none => []

def ancestors : IO (List Path) := do
  let directory := (← IO.currentDir).toString
  return upwards (directory.length + 1) directory

/-- Performs one action. -/
def answer : (action : Action) → IO action.Answer
  | .inspect path => return (← attempt (kind path)).toOption
  | .fetch path => attempt (source path)
  | .modified path => return (← attempt (modified path)).toOption
  | .list path => attempt (list path)
  | .makeDirectories path => attempt (if path.isEmpty then return () else IO.FS.createDirAll path)
  | .stage directory => attempt (stage directory)
  | .append path bytes => attempt (append path bytes)
  | .synchronize _ => return .ok ()
  | .rename source target => attempt (IO.FS.rename source target)
  | .remove path => attempt (IO.FS.removeFile path)
  | .overwrite path bytes => attempt (IO.FS.writeBinFile path ⟨bytes.toArray⟩)
  | .now => now
  | .ancestors => ancestors

def perform {α : Type} : StoreProgram α → IO α
  | .done value => return value
  | .act action next => do perform (next (← answer action))

/-- The variables of the environment, which the system shows as a file. -/
def bindings : IO (List (String × String)) := do
  let contents ← (IO.FS.readBinFile "/proc/self/environ").toBaseIO
  let text := match contents with
    | .ok bytes => Utf8.decodeLossy bytes.toList
    | .error _ => ""
  return (text.splitOn "\x00").filterMap fun entry ↦
    match entry.splitOn "=" with
    | name :: value :: rest => some (name, "=".intercalate (value :: rest))
    | _ => none

/-- As many as the system lists, and at least one. -/
def processors : IO Nat := do
  match ← (IO.FS.readFile "/proc/cpuinfo").toBaseIO with
  | .ok text => return max 1 ((text.splitOn "\n").filter (·.startsWith "processor")).length
  | .error _ => return 1

/-- The lines of the standard input, if a request wants them. -/
def inputLines (arguments : List String) (environment : Environment) : IO (List String) := do
  match CommandLine.Request.parse arguments
      (environment.bindings.lookup CommandLine.Request.outputVariable) with
  | .ok ⟨_, _, .serve _⟩ => return ((← (← IO.getStdin).lines).toList)
  | _ => return []

end VectorIndex.Disk

open VectorIndex in
def main (arguments : List String) : IO UInt32 := do
  let environment : Environment := ⟨← Disk.bindings, ← Disk.processors⟩
  let input ← Disk.inputLines arguments environment
  let completion ← Disk.perform (CommandLine.run arguments environment input)
  IO.print completion.output
  IO.eprint completion.diagnostics
  return completion.exit.toUInt32
