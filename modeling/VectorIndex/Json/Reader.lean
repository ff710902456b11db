import VectorIndex.Json.Basic
import VectorIndex.Decimal.Reading

/-!
# Reading JSON

A whole text is one value. Integers are kept exactly while they fit 64 bits; every other number
is scaled in double precision from at most nineteen or twenty leading digits, so its last bit can
differ from the nearest one. A number whose scaled value is infinite is out of range, which only
matters to a reader that looks at it.
-/

namespace VectorIndex.Json.Reader

abbrev Rest := List Char

def isSpace (c : Char) : Bool := c = ' ' || c = '\n' || c = '\t' || c = '\r'

def skipSpace (text : Rest) : Rest := text.dropWhile isSpace

def powerOfTen (exponent : Nat) : Binary64 := .ofFloat (Float.ofScientific 1 false exponent)

/-- Scales by powers of ten of at most `10 ^ 308` each; after `steps` such divisions nothing is
left of any significand. -/
def scale (value : Binary64) (exponent : Int) : Nat → Number
  | 0 => .double .zero
  | steps + 1 =>
    if 0 ≤ exponent ∧ exponent ≤ 308 then
      let scaled := value * powerOfTen exponent.toNat
      if scaled.isFinite then .double scaled else .outOfRange
    else if -308 ≤ exponent ∧ exponent < 0 then .double (value / powerOfTen (-exponent).toNat)
    else if value = .zero then .double value
    else if 0 ≤ exponent then .outOfRange
    else scale (value / powerOfTen 308) (exponent + 308) steps

def signed (positive : Bool) : Number → Number
  | .double value => .double (if positive then value else value.neg)
  | other => other

def fromParts (positive : Bool) (significand : Nat) (exponent : Int) : Number :=
  signed positive (scale (.ofNat significand) exponent 4)

def digitValue (c : Char) : Nat := c.toNat - '0'.toNat

/-- Takes digits into the significand while it fits 64 bits; what is left starts with the first
digit that does not fit, or with no digit. -/
def takeSignificand (significand taken : Nat) : Rest → Nat × Nat × Rest
  | [] => (significand, taken, [])
  | c :: rest =>
    if c.isDigit ∧ significand * 10 + digitValue c < 0x10000000000000000 then
      takeSignificand (significand * 10 + digitValue c) (taken + 1) rest
    else (significand, taken, c :: rest)

def exponentPart (positive : Bool) (significand : Nat) (exponent : Int) (text : Rest) :
    Option (Number × Rest) :=
  match text with
  | mark :: rest =>
    if mark = 'e' ∨ mark = 'E' then
      let (negative, rest) := match rest with
        | '+' :: rest => (false, rest)
        | '-' :: rest => (true, rest)
        | _ => (false, rest)
      let digits := rest.takeWhile Char.isDigit
      let rest := rest.dropWhile Char.isDigit
      if digits.isEmpty then none
      else
        let size := Decimal.digitsValue digits
        let final : Int := if negative then exponent - size else exponent + size
        some (fromParts positive significand final, rest)
    else some (fromParts positive significand exponent, text)
  | [] => some (fromParts positive significand exponent, [])

def fractionPart (positive : Bool) (significand : Nat) (exponent : Int) (text : Rest) :
    Option (Number × Rest) :=
  match text with
  | c :: _ =>
    if c.isDigit then
      let (significand, taken, rest) := takeSignificand significand 0 text
      exponentPart positive significand (exponent - taken) (rest.dropWhile Char.isDigit)
    else none
  | [] => none

/-- What follows the whole digits: `exponent` of them did not fit the significand. -/
def tailPart (positive : Bool) (significand : Nat) (exponent : Int) (text : Rest) :
    Option (Number × Rest) :=
  match text with
  | '.' :: rest => fractionPart positive significand exponent rest
  | _ => exponentPart positive significand exponent text

def isNumberTail : Rest → Bool
  | c :: _ => c = '.' || c = 'e' || c = 'E'
  | [] => false

def unsignedNumber (positive : Bool) (text : Rest) : Option (Number × Rest) :=
  match text with
  | [] => none
  | '0' :: c :: rest =>
    if c.isDigit then none
    else if isNumberTail (c :: rest) then tailPart positive 0 0 (c :: rest)
    else some (if positive then .integer 0 else .double .negZero, c :: rest)
  | c :: _ =>
    if c.isDigit then
      let (significand, _, rest) := takeSignificand 0 0 text
      let dropped := (rest.takeWhile Char.isDigit).length
      let rest := rest.dropWhile Char.isDigit
      if dropped = 0 ∧ !isNumberTail rest then
        if positive then some (.integer significand, rest)
        else if significand = 0 then some (.double .negZero, rest)
        else if significand ≤ 0x8000000000000000 then some (.integer (-(significand : Int)), rest)
        else some (.double (Binary64.ofNat significand).neg, rest)
      else tailPart positive significand dropped rest
    else none

def number? (text : Rest) : Option (Number × Rest) :=
  match text with
  | '-' :: rest => unsignedNumber false rest
  | _ => unsignedNumber true text

def hex4? : Rest → Option (Nat × Rest)
  | a :: b :: c :: d :: rest => do
    let digit (x : Char) : Option Nat :=
      if x.isDigit then some (x.toNat - '0'.toNat)
      else if 'a' ≤ x ∧ x ≤ 'f' then some (x.toNat - 'a'.toNat + 10)
      else if 'A' ≤ x ∧ x ≤ 'F' then some (x.toNat - 'A'.toNat + 10)
      else none
    some ((← digit a) * 4096 + (← digit b) * 256 + (← digit c) * 16 + (← digit d), rest)
  | _ => none

/-- The character of an escape, behind its backslash; a pair of surrogates is one character. -/
def escape? : Rest → Option (Char × Rest)
  | '"' :: rest => some ('"', rest)
  | '\\' :: rest => some ('\\', rest)
  | '/' :: rest => some ('/', rest)
  | 'b' :: rest => some ('\x08', rest)
  | 'f' :: rest => some ('\x0c', rest)
  | 'n' :: rest => some ('\n', rest)
  | 'r' :: rest => some ('\r', rest)
  | 't' :: rest => some ('\t', rest)
  | 'u' :: rest => do
    let (high, rest) ← hex4? rest
    if 0xdc00 ≤ high ∧ high < 0xe000 then none
    else if 0xd800 ≤ high ∧ high < 0xdc00 then
      match rest with
      | '\\' :: 'u' :: rest =>
        let (low, rest) ← hex4? rest
        if 0xdc00 ≤ low ∧ low < 0xe000 then
          some (Char.ofNat (0x10000 + (high - 0xd800) * 1024 + (low - 0xdc00)), rest)
        else none
      | _ => none
    else some (Char.ofNat high, rest)
  | _ => none

/-- Splits behind the quote that ends a string; a character after a backslash never does. -/
def splitQuote (escaped : Bool) (reversed : List Char) : Rest → Option (List Char × Rest)
  | [] => none
  | c :: rest =>
    if c = '"' ∧ !escaped then some (reversed.reverse, rest)
    else splitQuote (c = '\\' && !escaped) (c :: reversed) rest

/-- The characters that a string's text stands for; `fuel` is at least its length. -/
def unescape : Nat → List Char → List Char → Option (List Char)
  | _, reversed, [] => some reversed.reverse
  | 0, _, _ => none
  | fuel + 1, reversed, c :: rest =>
    if c = '\\' then
      match escape? rest with
      | some (c, rest) => unescape fuel (c :: reversed) rest
      | none => none
    else if c.toNat < 32 then none
    else unescape fuel (c :: reversed) rest

/-- The rest of a string behind its opening quote. -/
def string? (text : Rest) : Option (String × Rest) := do
  let (body, rest) ← splitQuote false [] text
  some (String.ofList (← unescape body.length [] body), rest)

mutual

/-- A value at the head of the text; `fuel` bounds the number of values inside. -/
def value? : Nat → Rest → Option (Json × Rest)
  | 0, _ => none
  | fuel + 1, text =>
    match skipSpace text with
    | 'n' :: 'u' :: 'l' :: 'l' :: rest => some (null, rest)
    | 't' :: 'r' :: 'u' :: 'e' :: rest => some (bool true, rest)
    | 'f' :: 'a' :: 'l' :: 's' :: 'e' :: rest => some (bool false, rest)
    | '"' :: rest => do
      let (text, rest) ← string? rest
      some (string text, rest)
    | '[' :: rest =>
      match skipSpace rest with
      | ']' :: rest => some (array [], rest)
      | rest => do
        let (items, rest) ← items? fuel [] rest
        some (array items, rest)
    | '\x7b' :: rest =>
      match skipSpace rest with
      | '\x7d' :: rest => some (object [], rest)
      | rest => do
        let (members, rest) ← members? fuel [] rest
        some (object members, rest)
    | text => do
      let (value, rest) ← number? text
      some (number value, rest)

def items? : Nat → List Json → Rest → Option (List Json × Rest)
  | 0, _, _ => none
  | fuel + 1, reversed, text =>
    match value? fuel text with
    | some (item, rest) =>
      match skipSpace rest with
      | ',' :: rest => items? fuel (item :: reversed) rest
      | ']' :: rest => some ((item :: reversed).reverse, rest)
      | _ => none
    | none => none

def members? : Nat → List (String × Json) → Rest → Option (List (String × Json) × Rest)
  | 0, _, _ => none
  | fuel + 1, reversed, text =>
    match skipSpace text with
    | '"' :: rest =>
      match string? rest with
      | some (name, rest) =>
        match skipSpace rest with
        | ':' :: rest =>
          match value? fuel rest with
          | some (value, rest) =>
            match skipSpace rest with
            | ',' :: rest => members? fuel ((name, value) :: reversed) rest
            | '\x7d' :: rest => some (((name, value) :: reversed).reverse, rest)
            | _ => none
          | none => none
        | _ => none
      | none => none
    | _ => none

end

end Reader

/-- The one value that a text holds. -/
def parseChars (text : List Char) : Option Json :=
  match Reader.value? (2 * text.length + 2) text with
  | some (value, rest) => if (Reader.skipSpace rest).isEmpty then some value else none
  | none => none

def parse (text : String) : Option Json := parseChars text.toList

/-- A free-form value: nested less than 128 deep, all its numbers in range, each name once. -/
def parseValue (text : String) : Option Json :=
  (parse text).bind fun value ↦
    if value.depth < 128 ∧ value.inRange then some value.normal else none

end VectorIndex.Json
