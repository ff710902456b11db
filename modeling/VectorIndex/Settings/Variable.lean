import VectorIndex.Text.Blank
import VectorIndex.Toml.Reader

/-!
# Settings in environment variables

A variable whose name starts with `CSI_`, in any case, sets the field that the rest of its name
tells: in lower case, two underscores standing between a section and its field. Its text is read
as a value, and as itself when it is none.
-/

namespace VectorIndex.Settings.Variable

abbrev Rest := List Char

def isSpace (c : Char) : Bool :=
  c = ' ' || c = '\t' || c = '\n' || c = '\x0c' || c = '\r'

def skipSpace (text : Rest) : Rest := text.dropWhile isSpace

/-- May stand in a value without quotes. -/
def isPlain (c : Char) : Bool := c ≠ ',' && c ≠ '\x7b' && c ≠ '\x7d' && c ≠ '[' && c ≠ ']'

/-- Whether a text with a point is a number. -/
def isReal (text : List Char) : Bool :=
  let body := match text with
    | '-' :: rest => rest
    | '+' :: rest => rest
    | _ => text
  text.contains '.' && (Decimal.unsigned? body).isSome

def plain (text : List Char) : Toml :=
  if isReal text then .real (String.ofList text)
  else
    match Decimal.natural? 64 text with
    | some value => .integer value
    | none =>
      match Decimal.integer? text with
      | some value => .integer value
      | none => .string (String.ofList text)

def isNameChar (c : Char) : Bool := c.isAlphanum || c = '_' || c = '-'

def name? (text : Rest) : Option (String × Rest) :=
  match text with
  | '"' :: rest => Toml.Reader.basic? (rest.length + 1) [] rest
  | _ =>
    let name := text.takeWhile isNameChar
    if name.isEmpty then none else some (String.ofList name, text.drop name.length)

mutual

/-- A value at the head of the text, and the blanks behind it. -/
def value? : Nat → Rest → Option (Toml × Rest)
  | 0, _ => none
  | fuel + 1, text =>
    match skipSpace text with
    | 't' :: 'r' :: 'u' :: 'e' :: rest => some (.boolean true, skipSpace rest)
    | 'f' :: 'a' :: 'l' :: 's' :: 'e' :: rest => some (.boolean false, skipSpace rest)
    | '\x7b' :: rest => members? fuel [] rest
    | '[' :: rest => items? fuel [] rest
    | '"' :: rest =>
      match Toml.Reader.basic? (rest.length + 1) [] rest with
      | some (text, rest) => some (.string text, skipSpace rest)
      | none => none
    | '\'' :: c :: '\'' :: rest => some (.string c.toString, skipSpace rest)
    | '\'' :: _ => none
    | text =>
      let written := text.takeWhile isPlain
      some (plain (Text.trim written), skipSpace (text.drop written.length))

def items? : Nat → List Toml → Rest → Option (Toml × Rest)
  | 0, _, _ => none
  | fuel + 1, reversed, text =>
    match text with
    | ']' :: rest => some (.array reversed.reverse, skipSpace rest)
    | text =>
      match value? fuel text with
      | some (item, ',' :: rest) => items? fuel (item :: reversed) rest
      | some (item, ']' :: rest) => some (.array (item :: reversed).reverse, skipSpace rest)
      | _ => none

def members? : Nat → Toml.Members → Rest → Option (Toml × Rest)
  | 0, _, _ => none
  | fuel + 1, members, text =>
    match text with
    | '\x7d' :: rest => some (.table members, skipSpace rest)
    | text =>
      match name? (skipSpace text) with
      | none => none
      | some (name, rest) =>
        match skipSpace rest with
        | '=' :: rest =>
          match value? fuel rest with
          | some (value, ',' :: rest) => members? fuel (Toml.assign name value members) rest
          | some (value, '\x7d' :: rest) =>
            some (.table (Toml.assign name value members), skipSpace rest)
          | _ => none
        | _ => none

end

/-- The value that a variable's text stands for. -/
def read (text : String) : Toml :=
  let trimmed := Text.trim text.toList
  match value? (2 * trimmed.length + 2) trimmed with
  | some (value, []) => value
  | _ => .string (String.ofList trimmed)

def mark : List Char := "csi_".toList

/-- Section and field, from the part of the name behind the mark. -/
def split (reversed : List Char) : List Char → List String
  | [] => [String.ofList reversed.reverse]
  | '_' :: '_' :: rest => String.ofList reversed.reverse :: split [] rest
  | '.' :: rest => String.ofList reversed.reverse :: split [] rest
  | c :: rest => split (c :: reversed) rest

/-- The field that a variable names; no part of it is empty. -/
def field? (name : String) : Option (List String) :=
  let lower := name.toList.map Char.toLower
  let names := split [] (lower.drop mark.length)
  if mark.isPrefixOf lower && !names.contains "" then some names else none

/-- What all variables set; a later variable is laid over an earlier one. -/
def layer (bindings : List (String × String)) : Toml :=
  bindings.foldl (fun layer (name, text) ↦
    match field? name with
    | some names => layer.overlay ((read text).nest names)
    | none => layer) (.table [])

end VectorIndex.Settings.Variable
