import VectorIndex.Numeric.Binary32

/-!
# Double-precision numbers

Used where a weight is accumulated with more precision than the vectors it came from, and for
the decimal texts of numeric ids. No result shows the payload of a NaN, so all NaNs are one
value here.
-/

namespace VectorIndex

structure Binary64 where
  bits : UInt64
  deriving DecidableEq, Inhabited

namespace Binary64

def magnitude (x : Binary64) : UInt64 := x.bits &&& 0x7fffffffffffffff

def isNegative (x : Binary64) : Bool := 0x8000000000000000 ≤ x.bits

def isNaN (x : Binary64) : Bool := 0x7ff0000000000000 < x.magnitude

def isFinite (x : Binary64) : Bool := x.magnitude < 0x7ff0000000000000

def zero : Binary64 := ⟨0⟩
def negZero : Binary64 := ⟨0x8000000000000000⟩

def ofFloat (x : Float) : Binary64 := ⟨x.toBits⟩
def toFloat (x : Binary64) : Float := .ofBits x.bits

instance : Add Binary64 := ⟨fun x y ↦ ofFloat (x.toFloat + y.toFloat)⟩
instance : Mul Binary64 := ⟨fun x y ↦ ofFloat (x.toFloat * y.toFloat)⟩
instance : Div Binary64 := ⟨fun x y ↦ ofFloat (x.toFloat / y.toFloat)⟩

def neg (x : Binary64) : Binary64 := ⟨x.bits ^^^ 0x8000000000000000⟩

/-- The nearest number to a count below `2^64`. -/
def ofNat (count : Nat) : Binary64 := ofFloat count.toUInt64.toFloat

/-- Every single-precision number is a double-precision one: its exponent grows by 896, and without
an exponent it is a multiple of `2 ^ -149`. -/
def ofBinary32 (x : Binary32) : Binary64 :=
  let sign : UInt64 := if x.isNegative then 0x8000000000000000 else 0
  let magnitude := x.magnitude.toUInt64
  if x.isNaN then ⟨0x7ff8000000000000⟩
  else if magnitude = 0x7f800000 then ⟨sign ||| 0x7ff0000000000000⟩
  else if magnitude < 0x800000 then
    ⟨sign ||| (ofNat magnitude.toNat * ⟨0x36a0000000000000⟩).bits⟩
  else ⟨sign ||| ((magnitude <<< 29) + 0x3800000000000000)⟩

def rank (x : Binary64) : Int :=
  if x.isNegative then -(x.magnitude.toNat : Int) else x.magnitude.toNat

def lt (x y : Binary64) : Bool := !x.isNaN && !y.isNaN && decide (x.rank < y.rank)
def le (x y : Binary64) : Bool := !x.isNaN && !y.isNaN && decide (x.rank ≤ y.rank)

instance : LT Binary64 := ⟨fun x y ↦ x.lt y = true⟩
instance : LE Binary64 := ⟨fun x y ↦ x.le y = true⟩
instance (x y : Binary64) : Decidable (x < y) := inferInstanceAs (Decidable (x.lt y = true))
instance (x y : Binary64) : Decidable (x ≤ y) := inferInstanceAs (Decidable (x.le y = true))

/-- Left-to-right sum from `-0`. -/
def sum (values : List Binary64) : Binary64 := values.foldl (· + ·) negZero

end Binary64
end VectorIndex
