import VectorIndex.Json.Basic

/-!
# Writing JSON

A compact form without blanks and an indented one with two blanks a level. Control characters
are escaped, everything else in a string stands for itself; a number that is not finite is
written as `null`.
-/

namespace VectorIndex.Json

def escapeChar (c : Char) : List Char :=
  if c = '"' then ['\\', '"']
  else if c = '\\' then ['\\', '\\']
  else if c = '\n' then ['\\', 'n']
  else if c = '\r' then ['\\', 'r']
  else if c = '\t' then ['\\', 't']
  else if c.toNat = 8 then ['\\', 'b']
  else if c.toNat = 12 then ['\\', 'f']
  else if c.toNat < 32 then
    ['\\', 'u', '0', '0', Nat.digitChar (c.toNat / 16), Nat.digitChar (c.toNat % 16)]
  else [c]

def quote (text : String) : String :=
  String.ofList ('"' :: (text.toList.flatMap escapeChar ++ ['"']))

def Number.toText : Number → String
  | .integer value => toString value
  | .single value =>
    if value.isFinite then value.signText ++ Decimal.jsonSingle.write value.shortest else "null"
  | .double value =>
    if value.isFinite then value.signText ++ Decimal.jsonDouble.write value.shortest else "null"
  | .outOfRange => "null"

mutual

def compact : Json → String
  | null => "null"
  | bool value => if value then "true" else "false"
  | number value => value.toText
  | string value => quote value
  | array items => "[" ++ compactItems items ++ "]"
  | object members => "\x7b" ++ compactMembers members ++ "\x7d"

def compactItems : List Json → String
  | [] => ""
  | [item] => item.compact
  | item :: rest => item.compact ++ "," ++ compactItems rest

def compactMembers : List (String × Json) → String
  | [] => ""
  | [(name, value)] => quote name ++ ":" ++ value.compact
  | (name, value) :: rest => quote name ++ ":" ++ value.compact ++ "," ++ compactMembers rest

end

def newline (level : Nat) : String := String.ofList ('\n' :: List.replicate (2 * level) ' ')

mutual

/-- The indented form inside `level` brackets. -/
def indentedAt (level : Nat) : Json → String
  | array (item :: rest) =>
    "[" ++ newline (level + 1) ++ indentedItems (level + 1) (item :: rest) ++ newline level ++ "]"
  | object (member :: rest) =>
    "\x7b" ++ newline (level + 1) ++ indentedMembers (level + 1) (member :: rest) ++
      newline level ++ "\x7d"
  | array [] => "[]"
  | object [] => "\x7b\x7d"
  | null => "null"
  | bool value => if value then "true" else "false"
  | number value => value.toText
  | string value => quote value

def indentedItems (level : Nat) : List Json → String
  | [] => ""
  | [item] => indentedAt level item
  | item :: rest => indentedAt level item ++ "," ++ newline level ++ indentedItems level rest

def indentedMembers (level : Nat) : List (String × Json) → String
  | [] => ""
  | [(name, value)] => quote name ++ ": " ++ indentedAt level value
  | (name, value) :: rest =>
    quote name ++ ": " ++ indentedAt level value ++ "," ++ newline level ++
      indentedMembers level rest

end

def indented (value : Json) : String := indentedAt 0 value

end VectorIndex.Json
