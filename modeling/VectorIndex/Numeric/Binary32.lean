/-!
# Single-precision numbers

A number is its interchange bit pattern, so the two zeros and all NaN payloads are
different values. Arithmetic rounds to nearest, ties to even; an operation on a NaN gives the
first NaN operand with its quiet bit set, and an invalid operation on numbers gives the negative
quiet NaN. Comparison and the total order are read off the bits. Nothing here relies on
algebraic laws of rounded arithmetic.
-/

namespace VectorIndex

structure Binary32 where
  bits : UInt32
  deriving DecidableEq, Inhabited

namespace Binary32

/-- The bits below the sign. -/
def magnitude (x : Binary32) : UInt32 := x.bits &&& 0x7fffffff

def isNegative (x : Binary32) : Bool := 0x80000000 ≤ x.bits

def isNaN (x : Binary32) : Bool := 0x7f800000 < x.magnitude

def isFinite (x : Binary32) : Bool := x.magnitude < 0x7f800000

def zero : Binary32 := ⟨0⟩
def negZero : Binary32 := ⟨0x80000000⟩
def one : Binary32 := ⟨0x3f800000⟩
def half : Binary32 := ⟨0x3f000000⟩
def infinity : Binary32 := ⟨0x7f800000⟩
def negInfinity : Binary32 := ⟨0xff800000⟩

/-- What an invalid operation on numbers gives, such as `0 * ∞` or `∞ - ∞`. -/
def invalid : Binary32 := ⟨0xffc00000⟩

/-- A NaN with its quiet bit set. -/
def quiet (x : Binary32) : Binary32 := ⟨x.bits ||| 0x00400000⟩

def ofFloat32 (x : Float32) : Binary32 :=
  let result : Binary32 := ⟨x.toBits⟩
  if result.isNaN then invalid else result

/-- A binary operation with the NaN rule in front of the rounded one. -/
def lift₂ (operation : Float32 → Float32 → Float32) (x y : Binary32) : Binary32 :=
  if x.isNaN then x.quiet
  else if y.isNaN then y.quiet
  else ofFloat32 (operation (.ofBits x.bits) (.ofBits y.bits))

def add (x y : Binary32) : Binary32 := lift₂ (· + ·) x y
def sub (x y : Binary32) : Binary32 := lift₂ (· - ·) x y
def mul (x y : Binary32) : Binary32 := lift₂ (· * ·) x y
def div (x y : Binary32) : Binary32 := lift₂ (· / ·) x y

def sqrt (x : Binary32) : Binary32 :=
  if x.isNaN then x.quiet else ofFloat32 (Float32.sqrt (.ofBits x.bits))

/-- The value without its sign. -/
def abs (x : Binary32) : Binary32 := ⟨x.magnitude⟩

instance : Add Binary32 := ⟨add⟩
instance : Sub Binary32 := ⟨sub⟩
instance : Mul Binary32 := ⟨mul⟩
instance : Div Binary32 := ⟨div⟩

/-- Rank among the numbers, with both zeros at the same place. -/
def rank (x : Binary32) : Int :=
  if x.isNegative then -(x.magnitude.toNat : Int) else x.magnitude.toNat

/-- Numerical comparison: a NaN is neither below nor above anything. -/
def lt (x y : Binary32) : Bool := !x.isNaN && !y.isNaN && decide (x.rank < y.rank)

instance : LT Binary32 := ⟨fun x y ↦ x.lt y = true⟩
instance (x y : Binary32) : Decidable (x < y) := inferInstanceAs (Decidable (x.lt y = true))

/-- Rank in the total order of all bit patterns: negative NaNs, numbers with `-0` below `+0`,
positive NaNs. -/
def totalRank (x : Binary32) : Int :=
  if x.isNegative then -(x.magnitude.toNat : Int) - 1 else x.magnitude.toNat

def totalCompare (x y : Binary32) : Ordering := compare x.totalRank y.totalRank

/-- The value if it is above zero, and zero otherwise; a NaN gives zero. -/
def clampNegative (x : Binary32) : Binary32 := if zero < x then x else zero

/-- Left-to-right sum from `-0`, so that the sum of nothing is `-0`. -/
def sum (values : List Binary32) : Binary32 := values.foldl (· + ·) negZero

/-- The nearest number to a count below `2^64`. -/
def ofNat (count : Nat) : Binary32 := ofFloat32 count.toUInt64.toFloat32

/-- The nearest number to a double-precision one. -/
def ofFloat (x : Float) : Binary32 := ⟨x.toFloat32.toBits⟩

theorem toNat_magnitude (x : Binary32) : x.magnitude.toNat = x.bits.toNat % 2147483648 := by
  rw [magnitude, UInt32.toNat_and]
  exact Nat.and_two_pow_sub_one_eq_mod x.bits.toNat 31

theorem isNegative_eq (x : Binary32) : x.isNegative = decide (2147483648 ≤ x.bits.toNat) := rfl

/-- The total order tells all bit patterns apart. -/
theorem totalRank_injective {x y : Binary32} (same : x.totalRank = y.totalRank) : x = y := by
  have boundX := x.bits.toNat_lt
  have boundY := y.bits.toNat_lt
  unfold totalRank at same
  rw [toNat_magnitude, toNat_magnitude, isNegative_eq, isNegative_eq] at same
  have bits : x.bits.toNat = y.bits.toNat := by
    by_cases hx : 2147483648 ≤ x.bits.toNat <;> by_cases hy : 2147483648 ≤ y.bits.toNat <;>
      simp only [hx, hy, decide_true, decide_false, if_true, Bool.false_eq_true, if_false] at same <;>
      omega
  cases x
  cases y
  exact congrArg mk (UInt32.toNat_inj.mp bits)

end Binary32
end VectorIndex
