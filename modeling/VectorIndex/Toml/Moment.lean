import VectorIndex.Toml.Basic

/-!
# Moments in a document

A date, a time, or both; only both together may have an offset.
-/

namespace VectorIndex.Toml.Moment

abbrev Rest := List Char

/-- A number of `count` digits. -/
def number? (count : Nat) (text : Rest) : Option (Nat × Rest) :=
  let digits := text.take count
  if digits.length = count ∧ digits.all Char.isDigit then
    some (digits.foldl (fun value c ↦ value * 10 + (c.toNat - '0'.toNat)) 0, text.drop count)
  else none

def expect? (c : Char) : Rest → Option Rest
  | d :: rest => if c = d then some rest else none
  | [] => none

def isLeap (year : Nat) : Bool := year % 4 = 0 && (year % 100 ≠ 0 || year % 400 = 0)

def daysIn (year month : Nat) : Nat :=
  if month = 2 then if isLeap year then 29 else 28
  else if month = 4 ∨ month = 6 ∨ month = 9 ∨ month = 11 then 30
  else 31

def date? (text : Rest) : Option Rest := do
  let (year, rest) ← number? 4 text
  let (month, rest) ← number? 2 (← expect? '-' rest)
  let (day, rest) ← number? 2 (← expect? '-' rest)
  if 1 ≤ month ∧ month ≤ 12 ∧ 1 ≤ day ∧ day ≤ daysIn year month then some rest else none

def time? (text : Rest) : Option Rest := do
  let (hour, rest) ← number? 2 text
  let (minute, rest) ← number? 2 (← expect? ':' rest)
  let (second, rest) ← number? 2 (← expect? ':' rest)
  if 23 < hour ∨ 59 < minute ∨ 60 < second then none
  match rest with
  | '.' :: c :: rest => if c.isDigit then some (rest.dropWhile Char.isDigit) else none
  | _ => some rest

def isOffset : Rest → Bool
  | [] => true
  | ['Z'] => true
  | ['z'] => true
  | sign :: rest =>
    (sign = '+' || sign = '-') && ((do
      let (hour, rest) ← number? 2 rest
      let (minute, rest) ← number? 2 (← expect? ':' rest)
      return hour ≤ 23 && minute ≤ 59 && rest.isEmpty).getD false : Bool)

def isDate (text : List Char) : Bool := (date? text).any List.isEmpty

def isMoment (text : List Char) : Bool :=
  match date? text with
  | some [] => true
  | some (mark :: rest) =>
    (mark = 'T' || mark = 't' || mark = ' ') && (time? rest).any isOffset
  | none => (time? text).any List.isEmpty

end VectorIndex.Toml.Moment
