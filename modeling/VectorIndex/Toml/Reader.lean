import VectorIndex.Decimal.Reading
import VectorIndex.Toml.Moment

/-!
# Reading TOML

A document is a sequence of lines: assignments, section headers and blank lines. A table is made
by a header, by the headers of tables inside it, or by dotted names, and each kind may be extended
only in its own way; a name is assigned at most once.
-/

namespace VectorIndex.Toml.Reader

abbrev Rest := List Char

def isBlank (c : Char) : Bool := c = ' ' || c = '\t'

def skipBlank (text : Rest) : Rest := text.dropWhile isBlank

def newline? : Rest → Option Rest
  | '\n' :: rest => some rest
  | '\r' :: '\n' :: rest => some rest
  | _ => none

/-- May stand in a comment or in a literal. -/
def isPlain (c : Char) : Bool := c = '\t' || (0x20 ≤ c.toNat && c.toNat ≠ 0x7f)

def skipComment : Rest → Rest
  | '#' :: rest => rest.dropWhile isPlain
  | text => text

/-- What follows the end of a line. -/
def lineEnd? (text : Rest) : Option Rest :=
  match skipComment (skipBlank text) with
  | [] => some []
  | rest => newline? rest

/-- Skips blanks, comments and at most `count` line ends. -/
def skipGaps : Nat → Rest → Rest
  | 0, text => text
  | count + 1, text =>
    match newline? (skipComment (skipBlank text)) with
    | some rest => skipGaps count rest
    | none => skipComment (skipBlank text)

/-- Skips blanks and at most `count` line ends. -/
def skipLines : Nat → Rest → Rest
  | 0, text => text
  | count + 1, text =>
    match newline? (skipBlank text) with
    | some rest => skipLines count rest
    | none => skipBlank text

/-! ## Strings -/

/-- A character given by `count` hexadecimal digits. -/
def codePoint? (count : Nat) (text : Rest) : Option (Char × Rest) := do
  let digits := text.take count
  if digits.length < count then none
  let values ← digits.mapM fun c ↦
    if c.isDigit then some (c.toNat - '0'.toNat)
    else if 'a' ≤ c ∧ c ≤ 'f' then some (c.toNat - 'a'.toNat + 10)
    else if 'A' ≤ c ∧ c ≤ 'F' then some (c.toNat - 'A'.toNat + 10)
    else none
  let point := values.foldl (fun point value ↦ point * 16 + value) 0
  if point < 0xd800 ∨ (0xe000 ≤ point ∧ point < 0x110000) then
    some (Char.ofNat point, text.drop count)
  else none

/-- The character of an escape, behind its backslash. -/
def escape? : Rest → Option (Char × Rest)
  | 'b' :: rest => some ('\x08', rest)
  | 't' :: rest => some ('\t', rest)
  | 'n' :: rest => some ('\n', rest)
  | 'f' :: rest => some ('\x0c', rest)
  | 'r' :: rest => some ('\r', rest)
  | '"' :: rest => some ('"', rest)
  | '\\' :: rest => some ('\\', rest)
  | 'u' :: rest => codePoint? 4 rest
  | 'U' :: rest => codePoint? 8 rest
  | _ => none

/-- The rest of a basic string; `fuel` is at least the length of the text. -/
def basic? : Nat → List Char → Rest → Option (String × Rest)
  | 0, _, _ => none
  | _, _, [] => none
  | fuel + 1, reversed, c :: rest =>
    if c = '"' then some (String.ofList reversed.reverse, rest)
    else if c = '\\' then
      match escape? rest with
      | some (c, rest) => basic? fuel (c :: reversed) rest
      | none => none
    else if isPlain c then basic? fuel (c :: reversed) rest
    else none

/-- The rest of a basic string of several lines. Up to two quotes may stand before the three that
end it, and a backslash at the end of a line skips to the next character that is no blank. -/
def basicLines? : Nat → List Char → Rest → Option (String × Rest)
  | 0, _, _ => none
  | fuel + 1, reversed, text =>
    match text with
    | '"' :: '"' :: '"' :: '"' :: '"' :: rest =>
      some (String.ofList ('"' :: '"' :: reversed).reverse, rest)
    | '"' :: '"' :: '"' :: '"' :: rest => some (String.ofList ('"' :: reversed).reverse, rest)
    | '"' :: '"' :: '"' :: rest => some (String.ofList reversed.reverse, rest)
    | '\\' :: rest =>
      match newline? (skipBlank rest) with
      | some below => basicLines? fuel reversed (skipLines below.length below)
      | none =>
        match escape? rest with
        | some (c, rest) => basicLines? fuel (c :: reversed) rest
        | none => none
    | c :: rest =>
      match newline? text with
      | some rest => basicLines? fuel ('\n' :: reversed) rest
      | none => if isPlain c then basicLines? fuel (c :: reversed) rest else none
    | [] => none

/-- The rest of a literal string, in which nothing is escaped. -/
def literal? (text : Rest) : Option (String × Rest) :=
  let body := text.takeWhile fun c ↦ isPlain c && c ≠ '\''
  match text.drop body.length with
  | '\'' :: rest => some (String.ofList body, rest)
  | _ => none

/-- The rest of a literal string of several lines. -/
def literalLines? : Nat → List Char → Rest → Option (String × Rest)
  | 0, _, _ => none
  | fuel + 1, reversed, text =>
    match text with
    | '\'' :: '\'' :: '\'' :: '\'' :: '\'' :: rest =>
      some (String.ofList ('\'' :: '\'' :: reversed).reverse, rest)
    | '\'' :: '\'' :: '\'' :: '\'' :: rest => some (String.ofList ('\'' :: reversed).reverse, rest)
    | '\'' :: '\'' :: '\'' :: rest => some (String.ofList reversed.reverse, rest)
    | c :: rest =>
      match newline? text with
      | some rest => literalLines? fuel ('\n' :: reversed) rest
      | none => if isPlain c then literalLines? fuel (c :: reversed) rest else none
    | [] => none

/-- Drops the line end that may follow an opening of three quotes. -/
def firstLine (text : Rest) : Rest := (newline? text).getD text

/-! ## Names -/

def isBare (c : Char) : Bool := c.isAlphanum || c = '_' || c = '-'

def name? (text : Rest) : Option (String × Rest) :=
  match text with
  | '"' :: rest => basic? (rest.length + 1) [] rest
  | '\'' :: rest => literal? rest
  | _ =>
    let bare := text.takeWhile isBare
    if bare.isEmpty then none else some (String.ofList bare, text.drop bare.length)

/-- Names joined by dots, at most `count` of them. -/
def names? : Nat → Rest → Option (List String × Rest)
  | 0, _ => none
  | count + 1, text => do
    let (name, rest) ← name? (skipBlank text)
    match skipBlank rest with
    | '.' :: rest =>
      let (names, rest) ← names? count rest
      some (name :: names, rest)
    | rest => some ([name], rest)

/-- Deeper nesting, of names or of values, is refused. -/
def deepest : Nat := 79

/-! ## Numbers and words -/

/-- Digits with single underscores between them. -/
def digits? (isDigit : Char → Bool) : Rest → Option (List Char)
  | [] => none
  | [c] => if isDigit c then some [c] else none
  | c :: '_' :: rest => if isDigit c then (digits? isDigit rest).map (c :: ·) else none
  | c :: rest => if isDigit c then (digits? isDigit rest).map (c :: ·) else none

def inBase (base : Nat) (digits : List Char) : Nat :=
  digits.foldl (fun value c ↦
    value * base + (if c.isDigit then c.toNat - '0'.toNat else c.toLower.toNat - 'a'.toNat + 10)) 0

def isHexDigit (c : Char) : Bool := c.isDigit || ('a' ≤ c.toLower && c.toLower ≤ 'f')

/-- A whole number without leading zeros. -/
def whole? (text : List Char) : Option Nat := do
  let digits ← digits? Char.isDigit text
  match digits with
  | '0' :: _ :: _ => none
  | _ => some (inBase 10 digits)

def integer? (text : List Char) : Option Int :=
  let inRange (value : Int) : Option Int :=
    if -0x8000000000000000 ≤ value ∧ value < 0x8000000000000000 then some value else none
  match text with
  | '0' :: 'x' :: rest => (digits? isHexDigit rest).bind fun d ↦ inRange (inBase 16 d)
  | '0' :: 'o' :: rest =>
    (digits? (fun c ↦ '0' ≤ c && c ≤ '7') rest).bind fun d ↦ inRange (inBase 8 d)
  | '0' :: 'b' :: rest =>
    (digits? (fun c ↦ c = '0' || c = '1') rest).bind fun d ↦ inRange (inBase 2 d)
  | '+' :: rest => (whole? rest).bind fun value ↦ inRange value
  | '-' :: rest => (whole? rest).bind fun value ↦ inRange (-(value : Int))
  | _ => (whole? text).bind fun value ↦ inRange value

/-- A number with a fraction or an exponent, or one of the names of what is no number. -/
def isReal (text : List Char) : Bool :=
  let body := match text with
    | '+' :: rest => rest
    | '-' :: rest => rest
    | _ => text
  let mantissa := body.takeWhile fun c ↦ c ≠ 'e' && c ≠ 'E'
  let exponent := body.drop mantissa.length
  let front := mantissa.takeWhile (· ≠ '.')
  let fraction := mantissa.drop front.length
  let unsigned (digits : List Char) : List Char := match digits with
    | '+' :: rest => rest
    | '-' :: rest => rest
    | _ => digits
  String.ofList body = "inf" || String.ofList body = "nan" ||
    ((whole? front).isSome && !(fraction.isEmpty && exponent.isEmpty) &&
      (fraction.isEmpty || (digits? Char.isDigit (fraction.drop 1)).isSome) &&
      (exponent.isEmpty || (digits? Char.isDigit (unsigned (exponent.drop 1))).isSome))

def isWordChar (c : Char) : Bool :=
  c.isAlphanum || c = '+' || c = '-' || c = '_' || c = '.' || c = ':'

/-- A value that is one word, or a date and a time with a blank between them. -/
def word? (text : Rest) : Option (Toml × Rest) :=
  let word := text.takeWhile isWordChar
  let rest := text.drop word.length
  match rest with
  | ' ' :: a :: b :: ':' :: more =>
    if Moment.isDate word && a.isDigit && b.isDigit then
      let time := (a :: b :: ':' :: more).takeWhile isWordChar
      let written := word ++ ' ' :: time
      if Moment.isMoment written then
        some (.moment (String.ofList written), rest.drop (time.length + 1))
      else none
    else plain word rest
  | _ => plain word rest
where
  plain (word rest : List Char) : Option (Toml × Rest) :=
    if String.ofList word = "true" then some (.boolean true, rest)
    else if String.ofList word = "false" then some (.boolean false, rest)
    else if Moment.isMoment word then some (.moment (String.ofList word), rest)
    else
      match integer? word with
      | some value => some (.integer value, rest)
      | none => if isReal word then some (.real (String.ofList word), rest) else none

/-! ## Tables under construction -/

/-- How a table came about. -/
inductive Origin where
  /-- By a header of its own. -/
  | header
  /-- By headers of tables inside it. -/
  | implied
  /-- By dotted names. -/
  | dotted
  deriving DecidableEq

inductive Node where
  | leaf (value : Toml)
  | table (origin : Origin) (members : List (String × Node))
  /-- An array of tables, of which only the last can be extended. -/
  | tables (earlier : List (List (String × Node))) (last : List (String × Node))

abbrev Nodes := List (String × Node)

mutual

def Node.value : Node → Toml
  | .leaf value => value
  | .table _ members => .table (values members)
  | .tables earlier last => .array (tableValues earlier ++ [.table (values last)])

def values : Nodes → Members
  | [] => []
  | (name, node) :: rest => (name, node.value) :: values rest

def tableValues : List Nodes → List Toml
  | [] => []
  | members :: rest => .table (values members) :: tableValues rest

end

def find? (name : String) (nodes : Nodes) : Option Node := (nodes.find? (·.1 = name)).map (·.2)

def put (name : String) (node : Node) : Nodes → Nodes
  | [] => [(name, node)]
  | (other, kept) :: rest =>
    if other = name then (name, node) :: rest else (other, kept) :: put name node rest

/-- Changes the table that headers lead to, making the tables on the way. -/
def insideHeaders (change : Nodes → Option Nodes) : List String → Nodes → Option Nodes
  | [], nodes => change nodes
  | name :: rest, nodes =>
    match find? name nodes with
    | none =>
      (insideHeaders change rest []).map fun inner ↦ put name (.table .implied inner) nodes
    | some (.leaf _) => none
    | some (.table origin inner) =>
      (insideHeaders change rest inner).map fun inner ↦ put name (.table origin inner) nodes
    | some (.tables earlier last) =>
      (insideHeaders change rest last).map fun last ↦ put name (.tables earlier last) nodes

/-- Assigns to a dotted name. The table that holds the last part must have been made by dotted
names alone, and no table on the way by a header of its own. -/
def assignDotted (value : Toml) : List String → Nodes → Option Nodes
  | [], _ => none
  | [name], nodes =>
    if (find? name nodes).isSome then none else some (put name (.leaf value) nodes)
  | name :: next :: rest, nodes =>
    match find? name nodes with
    | none =>
      (assignDotted value (next :: rest) []).map fun inner ↦ put name (.table .dotted inner) nodes
    | some (.table origin inner) =>
      if origin = .header ∨ (rest.isEmpty ∧ origin ≠ .dotted) then none
      else
        (assignDotted value (next :: rest) inner).map fun inner ↦
          put name (.table origin inner) nodes
    | some (.tables earlier last) =>
      if rest.isEmpty then none
      else
        (assignDotted value (next :: rest) last).map fun last ↦
          put name (.tables earlier last) nodes
    | some (.leaf _) => none

/-- Opens the table of a header, which no header and no dotted name may have made before. -/
def openTable (name : String) (nodes : Nodes) : Option Nodes :=
  match find? name nodes with
  | none => some (put name (.table .header []) nodes)
  | some (.table .implied inner) => some (put name (.table .header inner) nodes)
  | some _ => none

/-- Opens one more table in an array of tables. -/
def openElement (name : String) (nodes : Nodes) : Option Nodes :=
  match find? name nodes with
  | none => some (put name (.tables [] []) nodes)
  | some (.tables earlier last) => some (put name (.tables (earlier ++ [last]) []) nodes)
  | some _ => none

/-! ## Values -/

mutual

/-- A value at the head of the text, nested at most `depth` deep; `fuel` bounds the number of
values inside. -/
def value? : Nat → Nat → Rest → Option (Toml × Rest)
  | 0, _, _ => none
  | fuel + 1, depth, text =>
    match text with
    | '"' :: '"' :: '"' :: rest => quoted (basicLines? (rest.length + 1) [] (firstLine rest))
    | '"' :: rest => quoted (basic? (rest.length + 1) [] rest)
    | '\'' :: '\'' :: '\'' :: rest =>
      quoted (literalLines? (rest.length + 1) [] (firstLine rest))
    | '\'' :: rest => quoted (literal? rest)
    | '[' :: rest =>
      match depth with
      | 0 => none
      | depth + 1 => items? fuel depth [] rest
    | '\x7b' :: rest =>
      match depth, skipBlank rest with
      | 0, _ => none
      | _, '\x7d' :: rest => some (.table [], rest)
      | depth + 1, rest => pairs? fuel depth [] rest
    | _ => word? text
where
  quoted : Option (String × Rest) → Option (Toml × Rest)
    | some (text, rest) => some (.string text, rest)
    | none => none

def items? : Nat → Nat → List Toml → Rest → Option (Toml × Rest)
  | 0, _, _, _ => none
  | fuel + 1, depth, reversed, text =>
    match skipGaps (text.length + 1) text with
    | ']' :: rest => some (.array reversed.reverse, rest)
    | text =>
      match value? fuel depth text with
      | none => none
      | some (item, rest) =>
        match skipGaps (rest.length + 1) rest with
        | ',' :: rest => items? fuel depth (item :: reversed) rest
        | ']' :: rest => some (.array (item :: reversed).reverse, rest)
        | _ => none

def pairs? : Nat → Nat → Nodes → Rest → Option (Toml × Rest)
  | 0, _, _, _ => none
  | fuel + 1, depth, nodes, text =>
    match names? deepest text with
    | some (names, '=' :: rest) =>
      match value? fuel depth (skipBlank rest) with
      | none => none
      | some (value, rest) =>
        match assignDotted value names nodes, skipBlank rest with
        | some nodes, ',' :: rest => pairs? fuel depth nodes rest
        | some nodes, '\x7d' :: rest => some (.table (values nodes), rest)
        | _, _ => none
    | _ => none

end

/-! ## Documents -/

structure Document where
  nodes : Nodes
  /-- The header that the lines belong to. -/
  current : List String

def splitLast : List String → List String × String
  | [] => ([], "")
  | [name] => ([], name)
  | name :: rest => ((name :: (splitLast rest).1), (splitLast rest).2)

def header (change : String → Nodes → Option Nodes) (document : Document) (names : List String) :
    Option Document := do
  let (parents, name) := splitLast names
  let nodes ← insideHeaders (change name) parents document.nodes
  return ⟨nodes, names⟩

/-- Reads one line. -/
def line? (document : Document) (text : Rest) : Option (Document × Rest) := do
  match skipBlank text with
  | '[' :: '[' :: rest =>
    let (names, rest) ← names? deepest rest
    let ']' :: ']' :: rest := rest | none
    return (← header openElement document names, ← lineEnd? rest)
  | '[' :: rest =>
    let (names, rest) ← names? deepest rest
    let ']' :: rest := rest | none
    return (← header openTable document names, ← lineEnd? rest)
  | rest =>
    match lineEnd? rest with
    | some rest => return (document, rest)
    | none =>
      let (names, rest) ← names? deepest rest
      let '=' :: rest := rest | none
      let (value, rest) ← value? (2 * rest.length + 2) deepest (skipBlank rest)
      let nodes ← insideHeaders (assignDotted value names) document.current document.nodes
      return (⟨nodes, document.current⟩, ← lineEnd? rest)

/-- Reads at most `count` lines. -/
def lines? : Nat → Document → Rest → Option Document
  | _, document, [] => some document
  | 0, _, _ => none
  | count + 1, document, text => do
    let (document, rest) ← line? document text
    lines? count document rest

end Reader

/-- The members that a document assigns. A byte order mark may stand in front. -/
def parse? (text : List Char) : Option Members :=
  let text := match text with
    | '\ufeff' :: rest => rest
    | _ => text
  (Reader.lines? (text.length + 1) ⟨[], []⟩ text).map fun document ↦
    Reader.values document.nodes

end VectorIndex.Toml
