import VectorIndex.Error

/-!
# Publishing a file at once

New contents are written to a file of an unused name beside the target and renamed over it when
they are complete. A reader of the target finds the old contents or all of the new ones, and a
staged file that is not published is removed.
-/

namespace VectorIndex

/-- A file being written that becomes visible only when it is committed. -/
structure StagedFile where
  directory : Path
  target : Option Path
  temporary : Path

namespace StagedFile

open IndexProgram (perform check)

/-- Stages a file whose final name is chosen when it is committed. -/
def createIn (directory : Path) : IndexProgram StagedFile := do
  check (.fileWrite directory) (← perform (.makeDirectories directory))
  let temporary ← check (.fileWrite directory) (← perform (.stage directory))
  return ⟨directory, none, temporary⟩

def directoryOf (target : Path) : Path :=
  match Path.parent? target with
  | some parent => if parent.isEmpty then "." else parent
  | none => "."

/-- Stages a file beside its target, whose directory is made if it is missing. -/
def create (target : Path) : IndexProgram StagedFile := do
  return { ← createIn (directoryOf target) with target := some target }

def discard (staged : StagedFile) : StoreProgram Unit := do
  let _ ← StoreProgram.perform (.remove staged.temporary)

/-- Adds bytes; a failure names `path`. -/
def append (staged : StagedFile) (path : Path) (bytes : Bytes) : IndexProgram Unit := do
  check (.fileWrite path) (← perform (.append staged.temporary bytes))

def persist (staged : StagedFile) (target : Path) : IndexProgram Unit :=
  IndexProgram.onFailure (do
    check (.fileWrite target) (← perform (.synchronize staged.temporary))
    check (.fileWrite target) (← perform (.rename staged.temporary target))) staged.discard

def commit (staged : StagedFile) : IndexProgram Unit :=
  match staged.target with
  | some target => staged.persist target
  | none => do
    ExceptT.lift staged.discard
    throw (.fileWrite staged.directory (.other "staged file has no target name"))

/-- Publishes under a name in the staging directory. -/
def commitAs (staged : StagedFile) (name : String) : IndexProgram Unit :=
  staged.persist (Path.join staged.directory name)

end StagedFile

/-- Writes the pieces to `target` at once. A writer that gives up after them leaves the target as
it was. -/
def publishPieces (target : Path) (pieces : List Bytes) (failure : Option StoreFault) :
    IndexProgram Unit := do
  let staged ← StagedFile.create target
  IndexProgram.onFailure (do
    pieces.forM (staged.append target)
    match failure with
    | some fault => throw (.fileWrite target fault)
    | none => pure ()) staged.discard
  staged.commit

def publishFile (target : Path) (contents : Bytes) : IndexProgram Unit :=
  publishPieces target [contents] none

end VectorIndex
