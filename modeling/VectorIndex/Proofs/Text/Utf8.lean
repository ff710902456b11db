import VectorIndex.Text.Utf8

/-!
# Text survives its encoding

The bytes of a text are the sequences of its characters, one after the other, and the reader takes
each sequence back to its character. Decoding what was encoded therefore gives the text again.
-/

namespace VectorIndex.Utf8

theorem toList_eq_data (bytes : ByteArray) : bytes.toList = bytes.data.toList := by
  have hloop : ∀ i reversed, i ≤ bytes.size →
      ByteArray.toList.loop bytes i reversed = reversed.reverse ++ bytes.data.toList.drop i := by
    intro i reversed hi
    fun_induction ByteArray.toList.loop bytes i reversed with
    | case1 i reversed hlt ih =>
      have hlength : i < bytes.data.toList.length := by simpa using hlt
      have hget : bytes.get! i = bytes.data.toList[i] := by
        show bytes.data[i]! = _
        rw [getElem!_pos bytes.data i hlt, Array.getElem_toList]
      rw [ih hlt, List.drop_eq_getElem_cons hlength, hget]
      simp
    | case2 i reversed hge =>
      have hsize : i = bytes.size := by omega
      have hdrop : bytes.data.toList.drop i = [] := by
        apply List.drop_eq_nil_of_le
        rw [hsize]
        exact Nat.le_refl _
      rw [hdrop, List.append_nil]
  have h := hloop 0 [] (Nat.zero_le _)
  simpa [ByteArray.toList] using h

theorem encode_eq_flatMap (text : String) :
    encode text = text.toList.flatMap String.utf8EncodeChar := by
  rw [encode, toList_eq_data, String.toUTF8_eq_toByteArray, ← String.utf8Encode_toList]
  exact List.toList_data_toByteArray

theorem continuation?_ofNat (n : Nat) : continuation? (UInt8.ofNat (n % 64 + 128)) = some (n % 64) := by
  have hlow : n % 64 + 128 < 256 := by omega
  have hvalue : (UInt8.ofNat (n % 64 + 128)).toNat = n % 64 + 128 := by
    rw [UInt8.toNat_ofNat', Nat.mod_eq_of_lt hlow]
  have hrange : (0x80 : UInt8) ≤ UInt8.ofNat (n % 64 + 128) ∧ UInt8.ofNat (n % 64 + 128) < 0xc0 := by
    constructor
    · rw [UInt8.le_iff_toNat_le, hvalue]
      simp
    · rw [UInt8.lt_iff_toNat_lt, hvalue]
      show _ < 192
      omega
  rw [continuation?, if_pos hrange, hvalue]
  simp

theorem toNat_ofNat_of_lt {n : Nat} (hn : n < 256) : (UInt8.ofNat n).toNat = n := by
  rw [UInt8.toNat_ofNat', Nat.mod_eq_of_lt hn]

theorem ofNat_lt {n : Nat} {limit : UInt8} (hn : n < 256) :
    UInt8.ofNat n < limit ↔ n < limit.toNat := by
  rw [UInt8.lt_iff_toNat_lt, toNat_ofNat_of_lt hn]

theorem head?_one {a : Nat} (ha : a < 128) (rest : Bytes) :
    head? (UInt8.ofNat a :: rest) = some (Char.ofNat a, rest) := by
  have hsmall : a < 256 := by omega
  simp only [head?, ofNat_lt hsmall, UInt8.reduceToNat, toNat_ofNat_of_lt hsmall]
  rw [if_pos ha]

theorem head?_two {a b : Nat} (ha : 2 ≤ a) (ha' : a < 32) (rest : Bytes) :
    head? (UInt8.ofNat (a + 192) :: UInt8.ofNat (b % 64 + 128) :: rest) =
      some (Char.ofNat (a * 64 + b % 64), rest) := by
  have hsmall : a + 192 < 256 := by omega
  simp only [head?, ofNat_lt hsmall, UInt8.reduceToNat, toNat_ofNat_of_lt hsmall,
    continuation?_ofNat, Option.bind_eq_bind, Option.bind_some]
  rw [if_neg (by omega), if_neg (by omega), if_pos (by omega), Nat.add_sub_cancel]

theorem head?_three {a b c point : Nat} (ha : a < 16)
    (hpoint : a * 4096 + b % 64 * 64 + c % 64 = point) (hlow : 0x800 ≤ point)
    (hvalid : point < 0xd800 ∨ 0xdfff < point) (rest : Bytes) :
    head? (UInt8.ofNat (a + 224) :: UInt8.ofNat (b % 64 + 128) :: UInt8.ofNat (c % 64 + 128) ::
      rest) = some (Char.ofNat point, rest) := by
  have hsmall : a + 224 < 256 := by omega
  have hrange : ¬ (point < 0x800 ∨ (0xd800 ≤ point ∧ point < 0xe000)) := by omega
  simp only [head?, ofNat_lt hsmall, UInt8.reduceToNat, toNat_ofNat_of_lt hsmall,
    Nat.add_sub_cancel]
  rw [if_neg (by omega), if_neg (by omega), if_neg (by omega), if_pos (by omega)]
  refine Option.bind_eq_some_iff.mpr ⟨_, continuation?_ofNat b,
    Option.bind_eq_some_iff.mpr ⟨_, continuation?_ofNat c, ?_⟩⟩
  rw [hpoint]
  exact if_neg hrange

theorem head?_four {a b c d point : Nat} (ha : a < 5)
    (hpoint : a * 262144 + b % 64 * 4096 + c % 64 * 64 + d % 64 = point) (hlow : 0x10000 ≤ point)
    (hhigh : point < 0x110000) (rest : Bytes) :
    head? (UInt8.ofNat (a + 240) :: UInt8.ofNat (b % 64 + 128) :: UInt8.ofNat (c % 64 + 128) ::
      UInt8.ofNat (d % 64 + 128) :: rest) = some (Char.ofNat point, rest) := by
  have hsmall : a + 240 < 256 := by omega
  have hrange : ¬ (point < 0x10000 ∨ 0x110000 ≤ point) := by omega
  simp only [head?, ofNat_lt hsmall, UInt8.reduceToNat, toNat_ofNat_of_lt hsmall,
    Nat.add_sub_cancel]
  rw [if_neg (by omega), if_neg (by omega), if_neg (by omega), if_neg (by omega),
    if_pos (by omega)]
  refine Option.bind_eq_some_iff.mpr ⟨_, continuation?_ofNat b,
    Option.bind_eq_some_iff.mpr ⟨_, continuation?_ofNat c,
      Option.bind_eq_some_iff.mpr ⟨_, continuation?_ofNat d, ?_⟩⟩⟩
  rw [hpoint]
  exact if_neg hrange

/-- The lead byte tells the length of a sequence, and the reader puts its bits together again. -/
theorem head?_encodeChar (c : Char) (rest : Bytes) :
    head? (String.utf8EncodeChar c ++ rest) = some (c, rest) := by
  have hchar : Char.ofNat c.val.toNat = c := Char.ofNat_toNat c
  have hvalid : c.val.toNat < 0xd800 ∨ 0xdfff < c.val.toNat ∧ c.val.toNat < 0x110000 := c.valid
  rw [String.utf8EncodeChar]
  generalize c.val.toNat = v at hchar hvalid
  by_cases h1 : v ≤ 0x7f
  · rw [if_pos h1, List.singleton_append, head?_one (by omega), hchar]
  by_cases h2 : v ≤ 0x7ff
  · rw [if_neg h1, if_pos h2]
    show head? (UInt8.ofNat (v / 64 % 32 + 192) :: UInt8.ofNat (v % 64 + 128) :: rest) = _
    rw [head?_two (by omega) (by omega), show v / 64 % 32 * 64 + v % 64 = v by omega, hchar]
  by_cases h3 : v ≤ 0xffff
  · rw [if_neg h1, if_neg h2, if_pos h3, ← hchar]
    exact head?_three (by omega) (by omega) (by omega) (by omega) rest
  · rw [if_neg h1, if_neg h2, if_neg h3, ← hchar]
    exact head?_four (by omega) (by omega) (by omega) (by omega) rest

theorem decodeOnto_flatMap (chars reversed : List Char) :
    decodeOnto reversed (chars.flatMap String.utf8EncodeChar) = some (reversed.reverse ++ chars) := by
  induction chars generalizing reversed with
  | nil =>
    rw [List.flatMap_nil, decodeOnto, List.append_nil]
    rfl
  | cons c chars ih =>
    have hhead := head?_encodeChar c (chars.flatMap String.utf8EncodeChar)
    have hempty : ¬ (String.utf8EncodeChar c ++ chars.flatMap String.utf8EncodeChar).isEmpty := by
      intro h
      rw [List.isEmpty_iff.mp h] at hhead
      cases hhead
    rw [List.flatMap_cons, decodeOnto, if_neg hempty]
    split
    · next other rest hfound =>
      rw [hhead] at hfound
      cases hfound
      rw [ih, List.reverse_cons, List.append_assoc, List.singleton_append]
    · next hfound =>
      rw [hhead] at hfound
      cases hfound

/-- Decoding gives back the characters of the text that was encoded. -/
theorem decodeChars_encode (text : String) : decodeChars (encode text) = some text.toList := by
  rw [decodeChars, encode_eq_flatMap, decodeOnto_flatMap]
  rfl

theorem decode_encode (text : String) : decode (encode text) = some text := by
  rw [decode, decodeChars_encode, Option.map_some, String.ofList_toList]

end VectorIndex.Utf8
