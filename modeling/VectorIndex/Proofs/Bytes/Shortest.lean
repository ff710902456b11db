import VectorIndex.Proofs.Bytes.Packed

/-!
# Writing takes no more bytes than were read

Readers accept longer forms of a number than the one that is written. Whatever a decoder reads, the
form of the value is the bytes that were read or shorter than those, and a value that was read fits
the field it was read from.
-/

namespace VectorIndex.Packed.Decoder

open Bytes (littleEndian toNat toNat_lt littleEndian_toNat length_littleEndian)

variable {α β : Type}

/-- The bytes in front of `rest` are the form, or there are more of them. -/
def Covers (bytes rest form : Bytes) : Prop :=
  bytes = form ++ rest ∨ form.length + rest.length < bytes.length

theorem Covers.length_le {bytes rest form : Bytes} (hcovers : Covers bytes rest form) :
    form.length + rest.length ≤ bytes.length := by
  rcases hcovers with rfl | hlt
  · exact Nat.le_of_eq List.length_append.symm
  · exact Nat.le_of_lt hlt

theorem Covers.append {bytes middle rest first second : Bytes}
    (hfirst : Covers bytes middle first) (hsecond : Covers middle rest second) :
    Covers bytes rest (first ++ second) := by
  have hfirst' := hfirst.length_le
  have hsecond' := hsecond.length_le
  rcases hfirst with rfl | hfirst
  · rcases hsecond with rfl | hsecond
    · exact .inl (List.append_assoc ..).symm
    · right
      rw [List.length_append, List.length_append]
      omega
  · right
    rw [List.length_append]
    omega

/-- A value that the decoder gives fits, and no more bytes are written for it than were read. -/
def Sound (decoder : Decoder α) (form : α → Bytes) (fits : α → Prop) : Prop :=
  ∀ ⦃bytes value rest⦄, decoder.run bytes = some (value, rest) →
    fits value ∧ Covers bytes rest (form value)

/-! ## What was read -/

theorem run_bind_eq_some {decoder : Decoder α} {next : α → Decoder β} {bytes rest : Bytes}
    {result : β} :
    (decoder >>= next).run bytes = some (result, rest) ↔
      ∃ value middle, decoder.run bytes = some (value, middle) ∧
        (next value).run middle = some (result, rest) := by
  rw [StateT.run_bind, Option.bind_eq_bind, Option.bind_eq_some_iff, Prod.exists]

theorem run_pure_eq_some {given value : α} {bytes rest : Bytes} :
    (pure given : Decoder α).run bytes = some (value, rest) ↔ given = value ∧ bytes = rest := by
  rw [StateT.run_pure, Option.pure_def, Option.some.injEq, Prod.mk.injEq]

theorem run_byte_eq_some {bytes rest : Bytes} {first : UInt8} :
    byte.run bytes = some (first, rest) ↔ bytes = first :: rest := by
  cases bytes with
  | nil => exact iff_of_false nofun nofun
  | cons head tail =>
    show some (head, tail) = some (first, rest) ↔ _
    rw [Option.some.injEq, Prod.mk.injEq, List.cons.injEq]

theorem run_take_eq_some {width : Nat} {bytes taken rest : Bytes} :
    (take width).run bytes = some (taken, rest) ↔ taken.length = width ∧ bytes = taken ++ rest := by
  constructor
  · intro hread
    replace hread : (if width ≤ bytes.length then some (bytes.splitAt width) else none) =
      some (taken, rest) := hread
    split at hread
    · next hle =>
      rw [List.splitAt_eq, Option.some.injEq, Prod.mk.injEq] at hread
      obtain ⟨rfl, rfl⟩ := hread
      exact ⟨List.length_take_of_le hle, (List.take_append_drop ..).symm⟩
    · cases hread
  · rintro ⟨rfl, rfl⟩
    exact reads_take taken rest

theorem run_toNat_take {width value : Nat} {bytes rest : Bytes}
    (hread : (do return toNat (← take width) : Decoder Nat).run bytes = some (value, rest)) :
    ∃ taken : Bytes, taken.length = width ∧ value = toNat taken ∧ bytes = taken ++ rest := by
  obtain ⟨taken, middle, htaken, hlast⟩ := run_bind_eq_some.mp hread
  obtain ⟨rfl, rfl⟩ := run_pure_eq_some.mp hlast
  obtain ⟨hlength, rfl⟩ := run_take_eq_some.mp htaken
  exact ⟨taken, hlength, rfl, rfl⟩

/-! ## Numbers -/

theorem length_number_le_three {value : Nat} (hvalue : value < 0x10000) :
    (Packed.number value).length ≤ 3 := by
  unfold Packed.number
  by_cases hbyte : value < 251
  · rw [if_pos hbyte]
    exact Nat.succ_le_succ (Nat.zero_le _)
  · apply Nat.le_of_eq
    rw [if_neg hbyte, if_pos hvalue, List.length_cons, length_littleEndian]

theorem length_number_le_five {value : Nat} (hvalue : value < 0x100000000) :
    (Packed.number value).length ≤ 5 := by
  by_cases hsmall : value < 0x10000
  · exact Nat.le_trans (length_number_le_three hsmall) (by decide)
  · unfold Packed.number
    apply Nat.le_of_eq
    rw [if_neg (by omega), if_neg hsmall, if_pos hvalue, List.length_cons, length_littleEndian]

theorem toNat_lt_of_length {taken : Bytes} {width : Nat} (hlength : taken.length = width) :
    toNat taken < Nat.pow 256 width := hlength ▸ toNat_lt taken

/-- Behind its mark a number is written as it was read, unless a shorter form has room for it. -/
theorem covers_marked {mark : UInt8} {taken : Bytes} (rest : Bytes)
    (hform : Packed.number (toNat taken) = mark :: littleEndian taken.length (toNat taken) ∨
      (Packed.number (toNat taken)).length ≤ taken.length) :
    Covers (mark :: (taken ++ rest)) rest (Packed.number (toNat taken)) := by
  rcases hform with hsame | hshorter
  · left
    rw [hsame, littleEndian_toNat, List.cons_append]
  · right
    rw [List.length_cons, List.length_append]
    omega

theorem covers_two {taken : Bytes} (hlength : taken.length = 2) (rest : Bytes) :
    Covers (251 :: (taken ++ rest)) rest (Packed.number (toNat taken)) := by
  have hvalue : toNat taken < 0x10000 := toNat_lt_of_length hlength
  apply covers_marked
  rw [hlength]
  unfold Packed.number
  by_cases hbyte : toNat taken < 251
  · right
    rw [if_pos hbyte]
    exact Nat.le_succ 1
  · left
    rw [if_neg hbyte, if_pos hvalue]

theorem covers_four {taken : Bytes} (hlength : taken.length = 4) (rest : Bytes) :
    Covers (252 :: (taken ++ rest)) rest (Packed.number (toNat taken)) := by
  have hvalue : toNat taken < 0x100000000 := toNat_lt_of_length hlength
  apply covers_marked
  rw [hlength]
  by_cases hsmall : toNat taken < 0x10000
  · exact .inr (Nat.le_trans (length_number_le_three hsmall) (by decide))
  · left
    unfold Packed.number
    rw [if_neg (by omega), if_neg hsmall, if_pos hvalue]

theorem covers_eight {taken : Bytes} (hlength : taken.length = 8) (rest : Bytes) :
    Covers (253 :: (taken ++ rest)) rest (Packed.number (toNat taken)) := by
  apply covers_marked
  rw [hlength]
  by_cases hsmall : toNat taken < 0x100000000
  · exact .inr (Nat.le_trans (length_number_le_five hsmall) (by decide))
  · left
    unfold Packed.number
    rw [if_neg (by omega), if_neg (by omega), if_neg hsmall]

/-- A number has no more bytes than its reader allows. -/
theorem sound_number {width : Nat} (hwidth : 2 ≤ width) :
    Sound (number width) Packed.number (· < Nat.pow 256 width) := by
  intro bytes value rest hread
  have hlt : ∀ {taken : Bytes}, taken.length ≤ width → toNat taken < Nat.pow 256 width :=
    fun hle ↦ Nat.lt_of_lt_of_le (toNat_lt _) (Nat.pow_le_pow_right (by decide) hle)
  obtain ⟨mark, middle, hfirst, hrest⟩ := run_bind_eq_some.mp hread
  obtain rfl := run_byte_eq_some.mp hfirst
  split at hrest
  · next hbyte =>
    obtain ⟨rfl, rfl⟩ := run_pure_eq_some.mp hrest
    have hsmall : mark.toNat < 251 := UInt8.lt_iff_toNat_lt.mp hbyte
    constructor
    · exact Nat.lt_of_lt_of_le (Nat.lt_trans hsmall (by decide : 251 < Nat.pow 256 2))
        (Nat.pow_le_pow_right (by decide) hwidth)
    · left
      unfold Packed.number
      rw [if_pos hsmall, UInt8.ofNat_toNat, List.singleton_append]
  · split at hrest
    · next hmark =>
      obtain ⟨taken, hlength, rfl, rfl⟩ := run_toNat_take hrest
      exact ⟨hlt (hlength ▸ hwidth), hmark ▸ covers_two hlength rest⟩
    · split at hrest
      · next hmark =>
        obtain ⟨taken, hlength, rfl, rfl⟩ := run_toNat_take hrest
        exact ⟨hlt (hlength ▸ hmark.2), hmark.1 ▸ covers_four hlength rest⟩
      · split at hrest
        · next hmark =>
          obtain ⟨taken, hlength, rfl, rfl⟩ := run_toNat_take hrest
          exact ⟨hlt (hlength ▸ hmark.2), hmark.1 ▸ covers_eight hlength rest⟩
        · cases hrest

/-! ## Bytes, single-precision numbers and lists -/

theorem covers_byte {bytes rest : Bytes} {first : UInt8}
    (hread : byte.run bytes = some (first, rest)) : Covers bytes rest [UInt8.ofNat first.toNat] := by
  left
  rw [run_byte_eq_some.mp hread, UInt8.ofNat_toNat, List.singleton_append]

theorem sound_single : Sound single Packed.single fun _ ↦ True := by
  intro bytes value rest hread
  obtain ⟨taken, middle, htaken, hlast⟩ := run_bind_eq_some.mp hread
  obtain ⟨rfl, rfl⟩ := run_pure_eq_some.mp hlast
  obtain ⟨hlength, rfl⟩ := run_take_eq_some.mp htaken
  have hvalue : toNat taken < 0x100000000 := toNat_lt_of_length hlength
  have hbits : (UInt32.ofNat (toNat taken)).toNat = toNat taken := by
    rw [UInt32.toNat_ofNat', Nat.mod_eq_of_lt hvalue]
  refine ⟨trivial, .inl ?_⟩
  show taken ++ middle = littleEndian 4 (UInt32.ofNat (toNat taken)).toNat ++ middle
  rw [hbits, ← hlength, littleEndian_toNat]

section

variable {item : Decoder α} {form : α → Bytes} {fits : α → Prop}

theorem sound_many (hitem : Sound item form fits) {count : Nat} {reversed items : List α}
    {bytes rest : Bytes} (hread : (many item count reversed).run bytes = some (items, rest)) :
    ∃ read, items = reversed.reverse ++ read ∧ read.length = count ∧ (∀ x ∈ read, fits x) ∧
      Covers bytes rest (read.flatMap form) := by
  induction count generalizing reversed bytes with
  | zero =>
    obtain ⟨rfl, rfl⟩ := run_pure_eq_some.mp hread
    exact ⟨[], (List.append_nil _).symm, rfl, nofun, .inl rfl⟩
  | succ count ih =>
    obtain ⟨next, middle, hnext, hlater⟩ := run_bind_eq_some.mp hread
    obtain ⟨hfits, hcovers⟩ := hitem hnext
    obtain ⟨read, rfl, rfl, hall, hrest⟩ := ih hlater
    refine ⟨next :: read, ?_, List.length_cons, List.forall_mem_cons.mpr ⟨hfits, hall⟩, ?_⟩
    · rw [List.reverse_cons, List.append_assoc, List.singleton_append]
    · rw [List.flatMap_cons]
      exact hcovers.append hrest

theorem sound_list (hitem : Sound item form fits) :
    Sound (list item) (Packed.list form) fun items ↦ ∀ x ∈ items, fits x := by
  intro bytes items rest hread
  obtain ⟨count, middle, hcount, hmany⟩ := run_bind_eq_some.mp hread
  obtain ⟨read, rfl, rfl, hall, hitems⟩ := sound_many hitem hmany
  exact ⟨hall, (sound_number (by decide) hcount).2.append hitems⟩

end

end VectorIndex.Packed.Decoder
