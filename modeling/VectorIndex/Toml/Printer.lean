import VectorIndex.Toml.Basic

/-!
# Writing TOML

Assignments come first and then one section for each table, after a blank line; tables deeper
inside are written inline. A string takes the plainest form that needs no escapes but that of a
tab, and escapes only when there is none.
-/

namespace VectorIndex.Toml

def isControl (c : Char) : Bool := (c.toNat < 0x20 && c ≠ '\t' && c ≠ '\n') || c.toNat = 0x7f

/-- The length of the longest run of a character. -/
def longestRun (c : Char) (text : List Char) : Nat := go 0 0 text
where
  go (longest current : Nat) : List Char → Nat
    | [] => max longest current
    | d :: rest => if c = d then go longest (current + 1) rest else go (max longest current) 0 rest

def hexDigits (width value : Nat) : List Char :=
  ((List.range width).map fun place ↦
    (Nat.digitChar (value / Nat.pow 16 place % 16)).toUpper).reverse

def escapeChar (c : Char) : List Char :=
  if c = '\x08' then ['\\', 'b']
  else if c = '\t' then ['\\', 't']
  else if c = '\n' then ['\\', 'n']
  else if c = '\x0c' then ['\\', 'f']
  else if c = '\r' then ['\\', 'r']
  else if c = '"' then ['\\', '"']
  else if c = '\\' then ['\\', '\\']
  else if isControl c then '\\' :: 'u' :: hexDigits 4 c.toNat
  else [c]

/-- Escapes all but line ends and the first two of a run of quotes. -/
def escapeLines (quotes : Nat) : List Char → List Char
  | [] => []
  | c :: rest =>
    if c = '\n' then '\n' :: escapeLines 0 rest
    else if c = '"' ∧ quotes < 2 then '"' :: escapeLines (quotes + 1) rest
    else escapeChar c ++ escapeLines 0 rest

def quoteLine (text : List Char) : String := "\"" ++ String.ofList (text.flatMap escapeChar) ++ "\""

/-- Between three quotes, and on a line of its own if it has several lines. -/
def quoteLines (text : List Char) : String :=
  (if text.contains '\n' then "\"\"\"\n" else "\"\"\"") ++
    String.ofList (escapeLines 0 text) ++ "\"\"\""

def quoteString (value : String) : String :=
  let text := value.toList
  let lines := text.contains '\n'
  let plain := !text.any isControl
  let escapes := text.contains '\\'
  if plain && !escapes && !text.contains '"' && !lines then quoteLine text
  else if plain && !text.contains '\'' && !lines then "'" ++ value ++ "'"
  else if plain && !escapes && longestRun '"' text ≤ 2 then quoteLines text
  else if plain && longestRun '\'' text ≤ 2 then
    (if lines then "'''\n" else "'''") ++ value ++ "'''"
  else if lines then quoteLines text
  else quoteLine text

mutual

def inline : Toml → String
  | boolean value => if value then "true" else "false"
  | integer value => toString value
  | real written => written
  | string value => quoteString value
  | array items => "[" ++ ", ".intercalate (inlineItems items) ++ "]"
  | table [] => "\x7b\x7d"
  | table (member :: rest) => "\x7b " ++ ", ".intercalate (inlineMembers (member :: rest)) ++ " \x7d"

def inlineItems : List Toml → List String
  | [] => []
  | item :: rest => item.inline :: inlineItems rest

def inlineMembers : Members → List String
  | [] => []
  | (name, value) :: rest => (name ++ " = " ++ value.inline) :: inlineMembers rest

end

def assignment (name : String) (value : Toml) : String := name ++ " = " ++ value.inline ++ "\n"

/-- The assignments of the members that are no tables. -/
def assignments (members : Members) : String :=
  String.join (members.filterMap fun (name, value) ↦
    match value with
    | table _ => none
    | value => some (assignment name value))

def section? : String × Toml → Option String
  | (name, table members) =>
    some ("\n[" ++ name ++ "]\n" ++
      String.join (members.map fun (name, value) ↦ assignment name value))
  | _ => none

/-- A document that assigns the members. -/
def write (members : Members) : String :=
  assignments members ++ String.join (members.filterMap section?)

end VectorIndex.Toml
