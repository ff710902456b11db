import VectorIndex.Sequence.Chunks

/-!
# Bytes and fixed-width integers

Contents of files are lists of bytes. An integer is stored with its least significant byte
first; writing keeps the low bytes of a number that is too wide. Reading what was written gives
the number back whenever it fits.
-/

namespace VectorIndex

abbrev Bytes := List UInt8

namespace Bytes

/-- The low `width` bytes of `value`, least significant first. -/
def littleEndian : Nat → Nat → Bytes
  | 0, _ => []
  | width + 1, value => UInt8.ofNat value :: littleEndian width (value / 256)

/-- The number whose bytes are given, least significant first. -/
def toNat : Bytes → Nat
  | [] => 0
  | byte :: rest => byte.toNat + 256 * toNat rest

/-- The number in the `width` bytes from `offset` on. -/
def natAt (bytes : Bytes) (offset width : Nat) : Nat := toNat ((bytes.drop offset).take width)

@[simp] theorem length_littleEndian (width value : Nat) :
    (littleEndian width value).length = width := by
  induction width generalizing value with
  | zero => rfl
  | succ width ih => simp [littleEndian, ih]

theorem toNat_littleEndian (width value : Nat) :
    toNat (littleEndian width value) = value % Nat.pow 256 width := by
  induction width generalizing value with
  | zero => simp [littleEndian, toNat, Nat.mod_one]
  | succ width ih =>
    have split : value % (Nat.pow 256 width * 256) =
        value % 256 + 256 * (value / 256 % Nat.pow 256 width) := by
      rw [Nat.mul_comm, Nat.mod_mul]
    rw [littleEndian, toNat, ih, UInt8.toNat_ofNat']
    exact split.symm

theorem toNat_lt (bytes : Bytes) : toNat bytes < Nat.pow 256 bytes.length := by
  induction bytes with
  | nil => simp [toNat]
  | cons byte rest ih =>
    have bound := byte.toNat_lt
    rw [toNat, List.length_cons]
    show byte.toNat + 256 * toNat rest < Nat.pow 256 rest.length * 256
    omega

theorem natAt_lt (bytes : Bytes) (offset width : Nat) :
    natAt bytes offset width < Nat.pow 256 width := by
  have hlength : ((bytes.drop offset).take width).length ≤ width := List.length_take_le _ _
  exact Nat.lt_of_lt_of_le (toNat_lt _) (Nat.pow_le_pow_right (by decide) hlength)

/-- A number that fits its field is read where it was written. -/
theorem natAt_of_drop {bytes rest : Bytes} {offset width value : Nat}
    (hdrop : bytes.drop offset = littleEndian width value ++ rest)
    (hvalue : value < Nat.pow 256 width) : natAt bytes offset width = value := by
  unfold natAt
  rw [hdrop, List.take_left' (length_littleEndian width value), toNat_littleEndian,
    Nat.mod_eq_of_lt hvalue]

theorem littleEndian_toNat (bytes : Bytes) : littleEndian bytes.length (toNat bytes) = bytes := by
  induction bytes with
  | nil => rfl
  | cons byte rest ih =>
    have bound := byte.toNat_lt
    have low : UInt8.ofNat (byte.toNat + 256 * toNat rest) = byte := by
      apply UInt8.toNat_inj.mp
      rw [UInt8.toNat_ofNat']
      omega
    have high : (byte.toNat + 256 * toNat rest) / 256 = toNat rest := by omega
    rw [List.length_cons, toNat, littleEndian, low, high, ih]

/-- Most significant byte first, for four bytes. -/
def bigEndian32 (word : UInt32) : Bytes :=
  [(word >>> 24).toUInt8, (word >>> 16).toUInt8, (word >>> 8).toUInt8, word.toUInt8]

/-- The word with the given bytes, most significant first. -/
def word32 (bytes : Bytes) : UInt32 := bytes.foldl (fun word byte ↦ word <<< 8 ||| byte.toUInt32) 0

end Bytes
end VectorIndex
