import VectorIndex.Bytes.Packed

/-!
# Packed values are read back

A decoder reads the packed form of a value when it gives the value back and leaves what stands
behind it. Decoders of parts that are read one after the other read their forms one after the
other.
-/

namespace VectorIndex.Packed

open Bytes (littleEndian toNat length_littleEndian toNat_littleEndian)

namespace Decoder

variable {α β : Type}

/-- The decoder takes the bytes from the front of any others and gives the value. -/
def Reads (decoder : Decoder α) (bytes : Bytes) (value : α) : Prop :=
  ∀ rest, decoder.run (bytes ++ rest) = some (value, rest)

theorem reads_pure (value : α) : Reads (pure value) [] value := fun _ ↦ rfl

theorem Reads.run_bind {decoder : Decoder α} {bytes : Bytes} {value : α}
    (hreads : Reads decoder bytes value) (next : α → Decoder β) (rest : Bytes) :
    (decoder >>= next).run (bytes ++ rest) = (next value).run rest := by
  rw [StateT.run_bind, hreads]
  rfl

theorem Reads.bind {decoder : Decoder α} {next : α → Decoder β} {first second : Bytes} {value : α}
    {result : β} (hfirst : Reads decoder first value) (hsecond : Reads (next value) second result) :
    Reads (decoder >>= next) (first ++ second) result := by
  intro rest
  rw [List.append_assoc, hfirst.run_bind]
  exact hsecond rest

/-- What is computed of a value is read with it. -/
theorem Reads.map {decoder : Decoder α} {bytes : Bytes} {value : α}
    (hreads : Reads decoder bytes value) (f : α → β) :
    Reads (do return f (← decoder)) bytes (f value) := by
  rw [← bytes.append_nil]
  exact hreads.bind (reads_pure (f value))

theorem reads_byte (first : UInt8) : Reads byte [first] first := fun _ ↦ rfl

theorem reads_take (bytes : Bytes) : Reads (take bytes.length) bytes bytes := by
  intro rest
  show (if bytes.length ≤ (bytes ++ rest).length then some (List.splitAt _ _) else none) = _
  rw [if_pos (by simp), List.splitAt_eq, List.take_left, List.drop_left]

theorem reads_littleEndian {width value : Nat} (hvalue : value < Nat.pow 256 width) :
    Reads (do return toNat (← take width)) (littleEndian width value) value := by
  have hreads := (reads_take (littleEndian width value)).map toNat
  rwa [length_littleEndian, toNat_littleEndian, Nat.mod_eq_of_lt hvalue] at hreads

/-- A number is read in its shortest form when the form is no wider than the reader allows. -/
theorem reads_number_of_width {width value : Nat} (hfour : 0x10000 ≤ value → 4 ≤ width)
    (height : 0x100000000 ≤ value → 8 ≤ width) (hvalue : value < 0x10000000000000000) :
    Reads (number width) (Packed.number value) value := by
  unfold number Packed.number
  by_cases hbyte : value < 251
  · rw [if_pos hbyte]
    apply (reads_byte _).bind
    have hmark : (UInt8.ofNat value).toNat = value := by
      rw [UInt8.toNat_ofNat']
      omega
    rw [if_pos (UInt8.lt_iff_toNat_lt.mpr (hmark.symm ▸ hbyte)), hmark]
    exact reads_pure value
  · rw [if_neg hbyte]
    by_cases htwo : value < 0x10000
    · rw [if_pos htwo]
      exact (reads_byte 251).bind (reads_littleEndian htwo)
    · rw [if_neg htwo]
      by_cases hsmall : value < 0x100000000
      · rw [if_pos hsmall]
        apply (reads_byte 252).bind
        rw [if_neg (by decide), if_neg (by decide),
          if_pos ⟨rfl, hfour (Nat.le_of_not_lt htwo)⟩]
        exact reads_littleEndian hsmall
      · rw [if_neg hsmall]
        apply (reads_byte 253).bind
        rw [if_neg (by decide), if_neg (by decide), if_neg (by simp),
          if_pos ⟨rfl, height (Nat.le_of_not_lt hsmall)⟩]
        exact reads_littleEndian hvalue

theorem reads_number {value : Nat} (hvalue : value < 0x10000000000000000) :
    Reads (number 8) (Packed.number value) value :=
  reads_number_of_width (fun _ ↦ by decide) (fun _ ↦ Nat.le_refl 8) hvalue

theorem reads_single (x : Binary32) : Reads single (Packed.single x) x := by
  have hbits := (reads_littleEndian (show x.bits.toNat < Nat.pow 256 4 from x.bits.toNat_lt)).map
    fun bits ↦ (⟨UInt32.ofNat bits⟩ : Binary32)
  rw [UInt32.ofNat_toNat] at hbits
  exact hbits

section

variable {item : Decoder α} {form : α → Bytes}

theorem reads_many {items : List α} (hitems : ∀ x ∈ items, Reads item (form x) x)
    (reversed : List α) :
    Reads (many item items.length reversed) (items.flatMap form) (reversed.reverse ++ items) := by
  induction items generalizing reversed with
  | nil =>
    rw [List.append_nil]
    exact reads_pure _
  | cons x rest ih =>
    obtain ⟨hfirst, hrest⟩ := List.forall_mem_cons.mp hitems
    have hnext := ih hrest (x :: reversed)
    rw [List.reverse_cons, List.append_assoc, List.singleton_append] at hnext
    exact hfirst.bind hnext

theorem reads_list {items : List α} (hitems : ∀ x ∈ items, Reads item (form x) x)
    (hlength : items.length < 0x10000000000000000) :
    Reads (list item) (Packed.list form items) items :=
  (reads_number hlength).bind (reads_many hitems [])

end

end Decoder

/-! ## Lengths -/

theorem length_number_pos (value : Nat) : 0 < (number value).length := by
  unfold number
  split
  · exact Nat.one_pos
  · split
    · exact Nat.succ_pos _
    · split
      · exact Nat.succ_pos _
      · exact Nat.succ_pos _

/-- A list takes at least one byte for each item that takes any. -/
theorem length_le_length_list {α : Type} {form : α → Bytes} {items : List α}
    (hform : ∀ x ∈ items, 0 < (form x).length) : items.length < (list form items).length := by
  have hitems : items.length ≤ (items.flatMap form).length := by
    induction items with
    | nil => exact Nat.le_refl _
    | cons x rest ih =>
      obtain ⟨hfirst, hrest⟩ := List.forall_mem_cons.mp hform
      rw [List.flatMap_cons, List.length_append, List.length_cons]
      have hlater := ih hrest
      omega
  have hnumber := length_number_pos items.length
  unfold list
  rw [List.length_append]
  omega

theorem length_list_pos {α : Type} (form : α → Bytes) (items : List α) :
    0 < (list form items).length := by
  have hnumber := length_number_pos items.length
  unfold list
  rw [List.length_append]
  omega

/-- No item takes more bytes than the list. -/
theorem length_form_le {α : Type} {form : α → Bytes} {items : List α} {x : α} (hx : x ∈ items) :
    (form x).length ≤ (list form items).length := by
  unfold list
  rw [List.length_append]
  exact Nat.le_trans (List.sublist_flatten_of_mem (List.mem_map_of_mem hx)).length_le
    (Nat.le_add_left _ _)

end VectorIndex.Packed
