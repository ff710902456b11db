import VectorIndex.Decimal.Shortest

/-!
# How a decimal is written

A `Layout` fixes which exponents are written positionally and whether a whole number keeps a
point. Plain text never uses an exponent; a number in a JSON text does outside a range that
depends on its precision.
-/

namespace VectorIndex.Decimal

/-- Positional notation is used when the exponent of the first digit lies between `least` and
`greatest`; without bounds it always is. -/
structure Layout where
  range : Option (Int × Int)
  wholePoint : Bool

def plain : Layout := ⟨none, false⟩

/-- Single precision in a JSON text. -/
def jsonSingle : Layout := ⟨some (-6, 12), true⟩

/-- Double precision in a JSON text. -/
def jsonDouble : Layout := ⟨some (-5, 15), true⟩

def zeros (count : Nat) : String := String.ofList (List.replicate count '0')

def positional (layout : Layout) (digits : String) (exponent : Int) : String :=
  if 0 ≤ exponent then
    digits ++ zeros exponent.toNat ++ if layout.wholePoint then ".0" else ""
  else
    let behind := (-exponent).toNat
    let padded := (zeros (behind + 1 - digits.length) ++ digits).toList
    let split := padded.length - behind
    String.ofList (padded.take split) ++ "." ++ String.ofList (padded.drop split)

def scientific (digits : String) (lead : Int) : String :=
  let rest := digits.toList.drop 1
  let point := if rest.isEmpty then "" else "." ++ String.ofList rest
  let sign := if lead < 0 then "-" else "+"
  String.ofList (digits.toList.take 1) ++ point ++ "e" ++ sign ++ toString lead.natAbs

def Layout.write (layout : Layout) (x : Decimal) : String :=
  let digits := toString x.digits
  let lead := x.exponent + (digits.length - 1 : Nat)
  match layout.range with
  | some (least, greatest) =>
    if x.digits = 0 ∨ (least ≤ lead ∧ lead ≤ greatest) then positional layout digits x.exponent
    else scientific digits lead
  | none => positional layout digits x.exponent

/-- A quotient rounded to a whole number, a half going to the even neighbour. -/
def roundHalfEven (numerator denominator : Nat) : Nat :=
  let floor := numerator / denominator
  let twice := 2 * (numerator % denominator)
  if twice < denominator ∨ (twice = denominator ∧ floor % 2 = 0) then floor else floor + 1

/-- A quotient with a fixed number of decimal places. -/
def writeFixed (places : Nat) (numerator denominator : Nat) : String :=
  let scaled := toString (roundHalfEven (numerator * Nat.pow 10 places) denominator)
  if places = 0 then scaled
  else
    let padded := (zeros (places + 1 - scaled.length) ++ scaled).toList
    let split := padded.length - places
    String.ofList (padded.take split) ++ "." ++ String.ofList (padded.drop split)

end Decimal

namespace Binary32

def signText (x : Binary32) : String := if x.isNegative then "-" else ""

/-- The shortest decimal that reads back, without an exponent. -/
def toText (x : Binary32) : String :=
  if x.isNaN then "NaN"
  else x.signText ++ if x.isFinite then Decimal.plain.write x.shortest else "inf"

def toFixed (places : Nat) (x : Binary32) : String :=
  if x.isNaN then "NaN"
  else x.signText ++
    if x.isFinite then Decimal.writeFixed places x.dyadic.ratio.1 x.dyadic.ratio.2 else "inf"

end Binary32

namespace Binary64

def signText (x : Binary64) : String := if x.isNegative then "-" else ""

def toFixed (places : Nat) (x : Binary64) : String :=
  if x.isNaN then "NaN"
  else x.signText ++
    if x.isFinite then Decimal.writeFixed places x.dyadic.ratio.1 x.dyadic.ratio.2 else "inf"

end Binary64
end VectorIndex
