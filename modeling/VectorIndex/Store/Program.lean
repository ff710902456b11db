import VectorIndex.Store.Tree

/-!
# Programs over a file store

A program is either done or performs one action and continues with its answer. Because programs
are data, one program can be run on a tree, cut off after any action, or interleaved with another;
the store of the operating system is one more interpreter. Each action is indivisible.
-/

namespace VectorIndex

/-- What opening a path gives. -/
inductive Source where
  | file (contents : Bytes)
  | directory
  deriving DecidableEq

/-- Everything in an opened source; a directory has no bytes. -/
def Source.read : Source → Except StoreFault Bytes
  | .file contents => .ok contents
  | .directory => .error .isADirectory

inductive Kind where
  | file
  | directory
  deriving DecidableEq

inductive Action where
  | inspect (path : Path)
  | fetch (path : Path)
  | modified (path : Path)
  | list (path : Path)
  | makeDirectories (path : Path)
  /-- Makes an empty file of an unused name. -/
  | stage (directory : Path)
  | append (path : Path) (bytes : Bytes)
  | synchronize (path : Path)
  | rename (source target : Path)
  | remove (path : Path)
  | overwrite (path : Path) (bytes : Bytes)
  | now
  /-- The working directory and the directories above it. -/
  | ancestors
  deriving DecidableEq

abbrev Action.Answer : Action → Type
  | .inspect _ => Option Kind
  | .fetch _ => Except StoreFault Source
  | .modified _ => Option Moment
  | .list _ => Except StoreFault (List String)
  | .makeDirectories _ => Except StoreFault Unit
  | .stage _ => Except StoreFault Path
  | .append .. => Except StoreFault Unit
  | .synchronize _ => Except StoreFault Unit
  | .rename .. => Except StoreFault Unit
  | .remove _ => Except StoreFault Unit
  | .overwrite .. => Except StoreFault Unit
  | .now => Moment
  | .ancestors => List Path

inductive StoreProgram (α : Type) : Type where
  | done (value : α)
  | act (action : Action) (next : action.Answer → StoreProgram α)

namespace StoreProgram

variable {α β : Type}

def bind : StoreProgram α → (α → StoreProgram β) → StoreProgram β
  | done value, next => next value
  | act action more, next => act action fun answer ↦ (more answer).bind next

instance : Monad StoreProgram where
  pure := done
  bind := bind

theorem bind_done (program : StoreProgram α) : program.bind done = program := by
  induction program with
  | done value => rfl
  | act action next ih => simp only [bind, ih]

theorem bind_bind {γ : Type} (program : StoreProgram α) (first : α → StoreProgram β)
    (second : β → StoreProgram γ) :
    (program.bind first).bind second = program.bind fun value ↦ (first value).bind second := by
  induction program with
  | done value => rfl
  | act action next ih => simp only [bind, ih]

instance : LawfulMonad StoreProgram := LawfulMonad.mk' StoreProgram
  (fun program ↦ bind_done program)
  (fun _ _ ↦ rfl)
  (fun program first second ↦ bind_bind program first second)

def perform (action : Action) : StoreProgram action.Answer := act action done

end StoreProgram

/-- A change that keeps the old tree when it fails. -/
def Tree.change (tree : Tree) (result : Except StoreFault Tree) : Except StoreFault Unit × Tree :=
  match result with
  | .ok changed => (.ok (), changed)
  | .error fault => (.error fault, tree)

/-- What an action answers on a tree, and the tree it leaves. -/
def Tree.answer (tree : Tree) : (action : Action) → action.Answer × Tree
  | .inspect path => (match tree.lookup path with
    | .ok (.file ..) => some .file
    | .ok .directory => some .directory
    | .error _ => none, tree)
  | .fetch path => (match tree.lookup path with
    | .ok (.file contents _) => .ok (.file contents)
    | .ok .directory => .ok .directory
    | .error fault => .error fault, tree)
  | .modified path => (match tree.lookup path with
    | .ok (.file _ modified) => some modified
    | .ok .directory => some 0
    | .error _ => none, tree)
  | .list path => (tree.list path, tree)
  | .makeDirectories path => tree.change (tree.makeDirectories path)
  | .stage directory =>
    match tree.stage directory with
    | .ok (path, changed) => (.ok path, changed)
    | .error fault => (.error fault, tree)
  | .append path bytes => tree.change (tree.append path bytes)
  | .synchronize _ => (.ok (), tree)
  | .rename source target => tree.change (tree.rename source target)
  | .remove path => tree.change (tree.remove path)
  | .overwrite path bytes => tree.change (tree.write path bytes)
  | .now => (tree.clock, tree.tick)
  | .ancestors => ([""], tree)

/-- Runs a program to its end on a tree. -/
def StoreProgram.run {α : Type} : StoreProgram α → Tree → α × Tree
  | done value, tree => (value, tree)
  | act action next, tree =>
    let (answer, tree) := tree.answer action
    (next answer).run tree

@[simp] theorem StoreProgram.run_pure {α : Type} (value : α) (tree : Tree) :
    (pure value : StoreProgram α).run tree = (value, tree) := rfl

theorem StoreProgram.run_bind {α β : Type} (program : StoreProgram α)
    (next : α → StoreProgram β) (tree : Tree) :
    (program >>= next).run tree = (next (program.run tree).1).run (program.run tree).2 := by
  induction program generalizing tree with
  | done value => rfl
  | act action more ih => exact ih _ _

end VectorIndex
