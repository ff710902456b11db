import VectorIndex.Numeric.Binary32

/-!
# Vectors

A vector is the list of its components. Products and norms are left-to-right sums, so their bits
are fixed by the order of the components.
-/

namespace VectorIndex

abbrev Vec := List Binary32

namespace Vec

def innerProduct (a b : Vec) : Binary32 := .sum (List.zipWith (· * ·) a b)

def squaredDistance (a b : Vec) : Binary32 :=
  .sum (List.zipWith (fun x y ↦ let d := x - y; d * d) a b)

def norm (v : Vec) : Binary32 := (Binary32.sum (v.map fun x ↦ x * x)).sqrt

/-- A norm or a distance of `1e-10` or less counts as none. -/
def epsilon : Binary32 := ⟨0x2edbe6ff⟩

/-- The vector divided by its norm; one with almost no norm stays as it is. -/
def normalize (v : Vec) : Vec := if epsilon < v.norm then v.map (· / v.norm) else v

def add (a b : Vec) : Vec := List.zipWith (· + ·) a b

def sub (a b : Vec) : Vec := List.zipWith (· - ·) a b

/-- The components from `index * width` on, `width` of them. -/
def slice (v : Vec) (index width : Nat) : Vec := (v.drop (index * width)).take width

@[simp] theorem length_normalize (v : Vec) : v.normalize.length = v.length := by
  unfold normalize; split <;> simp

@[simp] theorem length_add (a b : Vec) : (a.add b).length = min a.length b.length := by simp [add]

@[simp] theorem length_sub (a b : Vec) : (a.sub b).length = min a.length b.length := by simp [sub]

end Vec
end VectorIndex
