import VectorIndex.Decimal.Layout

/-!
# Reading decimals

Natural numbers, signed numbers and single-precision numbers as they are typed on a command line
or in a variable. A decimal is rounded once, to the nearest single-precision number, ties to even.
-/

namespace VectorIndex.Decimal

def digit? (c : Char) : Option Nat := if c.isDigit then some (c.toNat - '0'.toNat) else none

/-- The value of a run of digits, most significant first. -/
def digitsValue (digits : List Char) : Nat :=
  digits.foldl (fun value c ↦ value * 10 + (c.toNat - '0'.toNat)) 0

/-- One or more digits and nothing else. -/
def digits? (text : List Char) : Option Nat :=
  if !text.isEmpty && text.all Char.isDigit then some (digitsValue text) else none

/-- A natural number of at most `bits` bits; a plus sign may stand in front. -/
def natural? (bits : Nat) (text : List Char) : Option Nat :=
  let body := match text with
    | '+' :: rest => rest
    | _ => text
  (digits? body).filter (· < Nat.pow 2 bits)

/-- A whole number of 64 bits, with or without a sign. -/
def integer? (text : List Char) : Option Int :=
  match text with
  | '-' :: rest => (digits? rest).bind fun n ↦ if n ≤ 0x8000000000000000 then some (-(n : Int)) else none
  | _ => (natural? 63 text).map Int.ofNat

/-- The quotient on the grid of `2 ^ exponent`, rounded. -/
def onBinaryGrid (numerator denominator : Nat) (exponent : Int) : Nat :=
  if 0 ≤ exponent then roundHalfEven numerator (denominator * Nat.pow 2 exponent.toNat)
  else roundHalfEven (numerator * Nat.pow 2 (-exponent).toNat) denominator

/-- The bits of the single-precision number nearest to a positive quotient. -/
def singleBits (numerator denominator : Nat) : Nat :=
  let estimate : Int := (numerator.log2 : Int) - (denominator.log2 : Int) - 24
  let exponent := max (-149) (if onBinaryGrid numerator denominator (max (-149) estimate) < 0x1000000
    then estimate else estimate + 1)
  min ((exponent + 149).toNat * 0x800000 + onBinaryGrid numerator denominator exponent) 0x7f800000

/-- The nearest single-precision number to a decimal without a sign. -/
def toSingle (x : Decimal) : Binary32 :=
  if x.digits = 0 then .zero
  else
    let lead := x.exponent + (digitCount x.digits - 1 : Nat)
    if 40 < lead then .infinity
    else if lead < -60 then .zero
    else if 0 ≤ x.exponent then ⟨.ofNat (singleBits (x.digits * Nat.pow 10 x.exponent.toNat) 1)⟩
    else ⟨.ofNat (singleBits x.digits (Nat.pow 10 (-x.exponent).toNat))⟩

/-- Digits with an optional point and an optional exponent; one digit must stand beside the
point. -/
def unsigned? (text : List Char) : Option Decimal :=
  let whole := text.takeWhile Char.isDigit
  let rest := text.dropWhile Char.isDigit
  let (fraction, rest) := match rest with
    | '.' :: tail => (tail.takeWhile Char.isDigit, tail.dropWhile Char.isDigit)
    | _ => ([], rest)
  if whole.isEmpty && fraction.isEmpty then none
  else
    let digits := digitsValue (whole ++ fraction)
    let shift : Int := -(fraction.length : Int)
    match rest with
    | [] => some ⟨digits, shift⟩
    | mark :: tail =>
      if mark = 'e' ∨ mark = 'E' then
        match tail with
        | '-' :: e => (digits? e).map fun e ↦ ⟨digits, shift - e⟩
        | '+' :: e => (digits? e).map fun e ↦ ⟨digits, shift + e⟩
        | e => (digits? e).map fun e ↦ ⟨digits, shift + e⟩
      else none

end Decimal

/-- A single-precision number as typed: a decimal, `inf`, `infinity` or `nan` in any case, each
with an optional sign. -/
def Binary32.ofText? (text : List Char) : Option Binary32 :=
  let (negative, body) := match text with
    | '-' :: rest => (true, rest)
    | '+' :: rest => (false, rest)
    | _ => (false, text)
  let name := String.ofList (body.map Char.toLower)
  let value? :=
    if name = "inf" ∨ name = "infinity" then some Binary32.infinity
    else if name = "nan" then some ⟨0x7fc00000⟩
    else (Decimal.unsigned? body).map Decimal.toSingle
  value?.map fun value ↦ if negative then ⟨value.bits ||| 0x80000000⟩ else value

end VectorIndex
