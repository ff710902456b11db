import VectorIndex.CommandLine.Scan

/-!
# Requests

What the arguments ask for. A flag of every command counts where it stands behind the command
before where it stands in front of it, and the directory of the index may be given by the
environment where no flag gives it.
-/

namespace VectorIndex.CommandLine

inductive Command where
  | init (force : Bool)
  | config
  | idMap (corpus : Option Path)
  | train (corpus : Option Path)
  | build (corpus : Option Path) (workers : Option Nat) (resume : Bool)
  | shards (corpus : Option Path) (workers : Option Nat) (resume : Bool)
  | merge (partitions : Option Nat)
  | info
  | search (query : Option String) (vector : Option Vec) (hits probes : Option Nat) (json : Bool)
  | serve (hits : Option Nat)
  deriving DecidableEq

structure Request where
  settingsFile : Option Path
  /-- Where the index is, in place of the settings' directory. -/
  output : Option Path
  command : Command
  deriving DecidableEq

namespace Scan

def path? (scan : Scan) (flag : Flag) : Option Path := (scan.values flag).head?

def number? (scan : Scan) (flag : Flag) : Option Nat := scan.values flag |>.head?.bind count?

/-- All numbers that a flag was given. -/
def numbers? (scan : Scan) (flag : Flag) : Option Vec :=
  match scan.values flag with
  | [] => none
  | values => (values.mapM vector?).map List.flatten

def command (scan : Scan) : CommandName → Command
  | .init => .init (scan.has .force)
  | .config => .config
  | .idMap => .idMap scan.operand
  | .train => .train scan.operand
  | .build => .build scan.operand (scan.number? .workers) (scan.has .resume)
  | .shards => .shards scan.operand (scan.number? .workers) (scan.has .resume)
  | .merge => .merge (scan.number? .partitions)
  | .info => .info
  | .search => .search scan.operand (scan.numbers? .vector) (scan.number? .hits)
      (scan.number? .probes) (scan.has .json)
  | .serve => .serve (scan.number? .hits)

end Scan

namespace Request

/-- The name of the variable that gives the directory of the index. -/
def outputVariable : String := "CSI_OUTPUT_DIR"

/-- Help on a command, which must be one. -/
def help : List String → Halt
  | [] => .help
  | "help" :: rest => help rest
  | [name] =>
    if (CommandName.ofText? name).isSome then .help else .misuse (.unexpected name)
  | name :: _ => .misuse (.unexpected name)

/-- The directory of the index; one that the environment gives must not be empty wherever a flag
might stand and does not. -/
def output? (leading scan : Scan) (fallback : Option String) : Except Halt (Option Path) :=
  let given := (scan.path? .output).or (leading.path? .output)
  if scan.has .output && leading.has .output then .ok given
  else if fallback = some "" then .error (.misuse (.invalidValue ""))
  else .ok (given.or fallback)

/-- Reads the arguments; `fallback` is the value of the variable, if it is set. -/
def parse (arguments : List String) (fallback : Option String) : Except Halt Request := do
  let (leading, word, rest) ← Scan.start.upToCommand arguments
  match CommandName.ofText? word with
  | none => throw (help rest)
  | some name =>
    let scan ← Scan.ofCommand name rest
    let output ← output? leading scan fallback
    if scan.operand.isSome && scan.has .vector then throw (.misuse (.conflict .vector))
    return ⟨(scan.path? .settings).or (leading.path? .settings), output, scan.command name⟩

end Request
end VectorIndex.CommandLine
