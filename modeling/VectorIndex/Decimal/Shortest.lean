import VectorIndex.Numeric.Binary64

/-!
# Shortest decimals

A positive binary number stands for every real that rounds to it. Among the decimals of that
interval the shortest is chosen, and of two equally short ones the nearer. Digits are found by
exact integer arithmetic on the number's mantissa and exponent; nothing here depends on how
they are laid out.
-/

namespace VectorIndex

/-- The number `digits * 10 ^ exponent`. -/
structure Decimal where
  digits : Nat
  exponent : Int
  deriving DecidableEq, Inhabited

/-- The number `mantissa * 2 ^ exponent`; `narrowBelow` tells that the next number below is only
half as far away as the next one above. -/
structure Dyadic where
  mantissa : Nat
  exponent : Int
  narrowBelow : Bool
  deriving DecidableEq

namespace Dyadic

/-- Splits the bits below the sign, `fraction` of them behind the exponent, whose unit is
`2 ^ least`. -/
def ofMagnitude (fraction : Nat) (least : Int) (magnitude : Nat) : Dyadic :=
  let biased := magnitude / Nat.pow 2 fraction
  let low := magnitude % Nat.pow 2 fraction
  if biased = 0 then ⟨low, least, false⟩
  else ⟨Nat.pow 2 fraction + low, least + (biased - 1 : Nat), low = 0 && 1 < biased⟩

/-- Numerator and denominator. -/
def ratio (x : Dyadic) : Nat × Nat :=
  if 0 ≤ x.exponent then (x.mantissa * Nat.pow 2 x.exponent.toNat, 1)
  else (x.mantissa, Nat.pow 2 (-x.exponent).toNat)

end Dyadic

namespace Decimal

def digitCount (n : Nat) : Nat := (Nat.toDigits 10 n).length

/-- The `e` with `10 ^ e ≤ numerator / denominator < 10 ^ (e + 1)`, for a positive quotient. -/
def leadingExponent (numerator denominator : Nat) : Int :=
  if denominator ≤ numerator then digitCount (numerator / denominator) - 1
  else -(digitCount ((denominator - 1) / numerator) : Int)

/-- The number `numerator / denominator / 10 ^ exponent` as a quotient. -/
def scaleDown (numerator denominator : Nat) (exponent : Int) : Nat × Nat :=
  if 0 ≤ exponent then (numerator, denominator * Nat.pow 10 exponent.toNat)
  else (numerator * Nat.pow 10 (-exponent).toNat, denominator)

/-- The nearer of the two neighbours on the grid of `10 ^ exponent` that reads back, if one does.
Distances are counted in quarters of the number's own unit. -/
def onGrid? (x : Dyadic) (exponent : Int) : Option Decimal :=
  let (num, den) := Dyadic.ratio ⟨1, x.exponent - 2, false⟩
  let (num, den) := scaleDown num den exponent
  let below := if x.narrowBelow then 1 else 2
  let value := 4 * x.mantissa * num
  let reads (candidate : Nat) : Bool :=
    let point := candidate * den
    let low := (4 * x.mantissa - below) * num
    let high := (4 * x.mantissa + 2) * num
    if x.mantissa % 2 = 0 then low ≤ point && point ≤ high else low < point && point < high
  let floor := value / den
  let gapBelow := value - floor * den
  let gapAbove := (floor + 1) * den - value
  let lowFirst := gapBelow < gapAbove || (gapBelow = gapAbove && floor % 2 = 0)
  let (first, second) := if lowFirst then (floor, floor + 1) else (floor + 1, floor)
  if 0 < first && reads first then some ⟨first, exponent⟩
  else if 0 < second && reads second then some ⟨second, exponent⟩
  else none

/-- Drops zeros at the end. -/
def trimmed : Nat → Decimal → Decimal
  | 0, x => x
  | fuel + 1, x =>
    if x.digits % 10 = 0 ∧ x.digits ≠ 0 then trimmed fuel ⟨x.digits / 10, x.exponent + 1⟩ else x

/-- The shortest decimal that reads back as the positive number `x`; `most` digits always do. -/
def shortest (most : Nat) (x : Dyadic) : Decimal :=
  let (num, den) := x.ratio
  let lead := leadingExponent num den
  match (List.range most).findSome? fun (n : Nat) ↦ onGrid? x (lead - n) with
  | some found => trimmed most found
  | none => ⟨num / den, 0⟩

end Decimal

def Binary32.dyadic (x : Binary32) : Dyadic := .ofMagnitude 23 (-149) x.magnitude.toNat
def Binary64.dyadic (x : Binary64) : Dyadic := .ofMagnitude 52 (-1074) x.magnitude.toNat

/-- The shortest decimal of the number without its sign; a zero has no digits. -/
def Binary32.shortest (x : Binary32) : Decimal :=
  if x.magnitude = 0 then ⟨0, 0⟩ else Decimal.shortest 9 x.dyadic

def Binary64.shortest (x : Binary64) : Decimal :=
  if x.magnitude = 0 then ⟨0, 0⟩ else Decimal.shortest 17 x.dyadic

end VectorIndex
