import VectorIndex.CommandLine.Flag

/-!
# Scanning arguments

An argument of two dashes and a name gives a flag, with its value behind an equals sign or in the
next argument. An argument of one dash and letters gives the flags of the letters, the first that
takes a value taking the rest of the argument, or the next argument if nothing is left. The next
argument is a value only if it does not start with a dash. Behind `--` every argument is an
operand.
-/

namespace VectorIndex.CommandLine

/-- What is wrong with the arguments. -/
inductive Misuse where
  | missingCommand
  | unexpected (argument : String)
  | missingValue (flag : Flag)
  | unexpectedValue (flag : Flag)
  | invalidValue (value : String)
  | repeated (flag : Flag)
  | conflict (flag : Flag)
  deriving DecidableEq

def Misuse.message : Misuse → String
  | missingCommand => "a command is required"
  | unexpected argument => s!"unexpected argument '{argument}'"
  | missingValue flag => s!"a value is required for '{flag.label}'"
  | unexpectedValue flag => s!"'{flag.label}' takes no value"
  | invalidValue value => s!"invalid value '{value}'"
  | repeated flag => s!"'{flag.label}' cannot be used multiple times"
  | conflict flag => s!"'{flag.label}' cannot be used with an operand"

/-- Why nothing is run. -/
inductive Halt where
  | version
  | help
  | misuse (cause : Misuse)
  deriving DecidableEq

/-- What the arguments before the next one have given. -/
structure Scan where
  /-- Flags with their values, in order; a flag that takes none has the empty text. -/
  flags : List (Flag × String)
  operand : Option String
  /-- A flag whose value is to come. -/
  awaiting : Option Flag
  /-- Only operands follow. -/
  trailing : Bool
  deriving DecidableEq

namespace Scan

def start : Scan := ⟨[], none, none, false⟩

/-- The values of a flag. -/
def values (scan : Scan) (flag : Flag) : List String :=
  (scan.flags.filter (·.1 = flag)).map (·.2)

def has (scan : Scan) (flag : Flag) : Bool := scan.flags.any (·.1 = flag)

/-- Fails while a value is to come. -/
def settle (scan : Scan) : Except Halt Scan :=
  match scan.awaiting with
  | some flag => .error (.misuse (.missingValue flag))
  | none => .ok scan

def record (scan : Scan) (flag : Flag) (value : String) : Except Halt Scan :=
  if flag = .version then .error .version
  else if flag = .help then .error .help
  else if scan.has flag ∧ !flag.accumulates then .error (.misuse (.repeated flag))
  else if flag.value?.any fun kind ↦ !kind.accepts value then
    .error (.misuse (.invalidValue value))
  else .ok { scan with flags := scan.flags ++ [(flag, value)], awaiting := none }

/-- A flag without a value at its side. -/
def bare (scan : Scan) (flag : Flag) : Except Halt Scan := do
  let scan ← scan.settle
  if flag.value?.isSome then return { scan with awaiting := some flag } else scan.record flag ""

/-- A flag with a value at its side. -/
def attached (scan : Scan) (flag : Flag) (value : String) : Except Halt Scan := do
  if flag.value?.isNone then throw (.misuse (.unexpectedValue flag))
  let scan ← scan.settle
  scan.record flag value

/-- An argument of two dashes. -/
def long (known : List Flag) (scan : Scan) (body : List Char) : Except Halt Scan :=
  let name := String.ofList (body.takeWhile (· ≠ '='))
  match known.find? (·.name? = some name), body.dropWhile (· ≠ '=') with
  | none, _ => .error (.misuse (.unexpected (String.ofList ('-' :: '-' :: body))))
  | some flag, _ :: value => scan.attached flag (String.ofList value)
  | some flag, [] => scan.bare flag

/-- The letters behind a single dash. -/
def letters (known : List Flag) (scan : Scan) : List Char → Except Halt Scan
  | [] => .ok scan
  | letter :: rest =>
    match known.find? (·.letter? = some letter) with
    | none => .error (.misuse (.unexpected (String.ofList ['-', letter])))
    | some flag =>
      if flag.value?.isSome then
        match rest with
        | [] => scan.bare flag
        | '=' :: value => scan.attached flag (String.ofList value)
        | value => scan.attached flag (String.ofList value)
      else do letters known (← scan.bare flag) rest

/-- An argument that belongs to no flag. -/
def place (kind : Option ValueKind) (scan : Scan) (argument : String) : Except Halt Scan := do
  let scan ← scan.settle
  match kind, scan.operand with
  | some kind, none =>
    if kind.accepts argument then return { scan with operand := some argument }
    else throw (.misuse (.invalidValue argument))
  | _, _ => throw (.misuse (.unexpected argument))

/-- The next argument. -/
def next (known : List Flag) (kind : Option ValueKind) (scan : Scan) (argument : String) :
    Except Halt Scan :=
  if scan.trailing then scan.place kind argument
  else
    match argument.toList with
    | ['-', '-'] => .ok { scan with trailing := true }
    | '-' :: '-' :: body => scan.long known body
    | '-' :: letter :: rest => scan.letters known (letter :: rest)
    | _ =>
      match scan.awaiting with
      | some flag => scan.record flag argument
      | none => scan.place kind argument

/-- All arguments of a command. -/
def ofCommand (command : CommandName) (arguments : List String) : Except Halt Scan := do
  let scan ← arguments.foldlM (next command.flags command.operand?) start
  scan.settle

/-- The arguments up to a command, the command and what follows it. -/
def upToCommand (scan : Scan) : List String → Except Halt (Scan × String × List String)
  | [] => do
    let _ ← scan.settle
    throw (.misuse .missingCommand)
  | argument :: rest =>
    if !scan.trailing && scan.awaiting.isNone &&
        (argument = "help" || (CommandName.ofText? argument).isSome) then
      .ok (scan, argument, rest)
    else do (← scan.next leadingFlags none argument).upToCommand rest

end Scan
end VectorIndex.CommandLine
