import VectorIndex.Digest.Fingerprint

/-!
# The text of a fingerprint

A fingerprint is read back from its hexadecimal digits. The digits may be of either case, and the
first digit of a pair may be a plus sign, which counts as a zero; nothing else is read. So texts of
one fingerprint are the same up to letter case and signs, and up to letter case alone where there is
no sign.
-/

namespace VectorIndex.Fingerprint

/-! ## What is written is read -/

theorem hexValue?_hexDigit {n : Nat} (hn : n < 16) :
    Bytes.hexValue? (Bytes.hexDigit n) = some n := by
  have hall : ∀ n < 16, Bytes.hexValue? (Bytes.hexDigit n) = some n := by decide
  exact hall n hn

theorem byteOfPair?_hexDigit (byte : UInt8) :
    byteOfPair? (Bytes.hexDigit (byte.toNat / 16)) (Bytes.hexDigit (byte.toNat % 16)) =
      some byte := by
  have hsize := byte.toNat_lt
  have hhigh : byte.toNat / 16 < 16 := by omega
  have hlow : byte.toNat % 16 < 16 := by omega
  have hplus : Bytes.hexDigit (byte.toNat / 16) ≠ '+' := Nat.digitChar_ne '+' (by decide)
  have hvalue : byte.toNat / 16 * 16 + byte.toNat % 16 = byte.toNat := by omega
  simp only [byteOfPair?, hexValue?_hexDigit hlow, hexValue?_hexDigit hhigh, if_neg hplus,
    Option.bind_eq_bind, Option.bind_some, hvalue]
  show some (UInt8.ofNat byte.toNat) = some byte
  rw [UInt8.ofNat_toNat]

theorem bytesOfPairs?_flatMap (bytes : Bytes) :
    bytesOfPairs? (bytes.flatMap Bytes.hexPair) = some bytes := by
  induction bytes with
  | nil => rfl
  | cons byte bytes ih =>
    rw [List.flatMap_cons]
    refine Option.bind_eq_some_iff.mpr ⟨byte, byteOfPair?_hexDigit byte, ?_⟩
    exact Option.bind_eq_some_iff.mpr ⟨bytes, ih, rfl⟩

theorem ofHex?_toHex (fingerprint : Fingerprint) :
    ofHex? fingerprint.toHex = some fingerprint := by
  rw [ofHex?, toHex, Bytes.toHex, String.toList_ofList, bytesOfPairs?_flatMap, Option.bind_some,
    ofBytes?, dif_pos fingerprint.length_bytes]

theorem toHex_injective {first second : Fingerprint} (heq : first.toHex = second.toHex) :
    first = second := by
  have hsame := congrArg ofHex? heq
  rw [ofHex?_toHex, ofHex?_toHex] at hsame
  exact Option.some.inj hsame

/-! ## What is read -/

/-- A hexadecimal digit of either case. -/
def IsHexDigit (c : Char) : Prop :=
  '0' ≤ c ∧ c ≤ '9' ∨ 'a' ≤ c ∧ c ≤ 'f' ∨ 'A' ≤ c ∧ c ≤ 'F'

instance (c : Char) : Decidable (IsHexDigit c) := inferInstanceAs (Decidable (_ ∨ _ ∨ _))

theorem isHexDigit_of_hexValue? {c : Char} {n : Nat} (hvalue : Bytes.hexValue? c = some n) :
    IsHexDigit c := by
  unfold Bytes.hexValue? at hvalue
  split at hvalue
  · next hdecimal => exact .inl hdecimal
  · split at hvalue
    · next hsmall => exact .inr (.inl hsmall)
    · split at hvalue
      · next hlarge => exact .inr (.inr hlarge)
      · cases hvalue

/-- A digit has the value whose lower-case digit it is, whatever its own case. -/
theorem exists_hexValue? {c : Char} (hc : IsHexDigit c) :
    ∃ n < 16, Bytes.hexValue? c = some n ∧ c.toLower = Bytes.hexDigit n := by
  have hcode : c.toNat < 128 := by
    have hle (bound : Char) (h : c ≤ bound) : c.toNat ≤ bound.toNat := UInt32.le_iff_toNat_le.mp h
    rcases hc with ⟨-, h⟩ | ⟨-, h⟩ | ⟨-, h⟩
    · exact Nat.lt_of_le_of_lt (hle _ h) (by decide)
    · exact Nat.lt_of_le_of_lt (hle _ h) (by decide)
    · exact Nat.lt_of_le_of_lt (hle _ h) (by decide)
  have hall : ∀ code < 128, IsHexDigit (Char.ofNat code) → ∃ n < 16,
      Bytes.hexValue? (Char.ofNat code) = some n ∧
        (Char.ofNat code).toLower = Bytes.hexDigit n := by decide
  rw [← Char.ofNat_toNat c] at hc ⊢
  exact hall _ hcode hc

theorem hexDigit_injective {m n : Nat} (hm : m < 16) (hn : n < 16)
    (heq : Bytes.hexDigit m = Bytes.hexDigit n) : m = n := by
  have hvalue := hexValue?_hexDigit hm
  rw [heq, hexValue?_hexDigit hn] at hvalue
  exact (Option.some.inj hvalue).symm

/-- Two digits are read as the byte whose digits they are. -/
theorem byteOfPair?_eq_some {first : Char} (hsign : first ≠ '+') (second : Char) (byte : UInt8) :
    byteOfPair? first second = some byte ↔
      (IsHexDigit first ∧ IsHexDigit second) ∧
        first.toLower = Bytes.hexDigit (byte.toNat / 16) ∧
        second.toLower = Bytes.hexDigit (byte.toNat % 16) := by
  have hsize := byte.toNat_lt
  simp only [byteOfPair?, if_neg hsign, Option.bind_eq_bind, Option.bind_eq_some_iff,
    Option.pure_def, Option.some.injEq]
  constructor
  · rintro ⟨low, hlow, high, hhigh, rfl⟩
    obtain ⟨hfirst, hsecond⟩ := And.intro (isHexDigit_of_hexValue? hhigh)
      (isHexDigit_of_hexValue? hlow)
    obtain ⟨m, hm, hfirstValue, hfirstDigit⟩ := exists_hexValue? hfirst
    obtain ⟨n, hn, hsecondValue, hsecondDigit⟩ := exists_hexValue? hsecond
    obtain rfl : high = m := Option.some.inj (hhigh.symm.trans hfirstValue)
    obtain rfl : low = n := Option.some.inj (hlow.symm.trans hsecondValue)
    have hvalue : (UInt8.ofNat (high * 16 + low)).toNat = high * 16 + low := by
      rw [UInt8.toNat_ofNat']
      omega
    rw [hvalue, show (high * 16 + low) / 16 = high by omega,
      show (high * 16 + low) % 16 = low by omega]
    exact ⟨⟨hfirst, hsecond⟩, hfirstDigit, hsecondDigit⟩
  · rintro ⟨⟨hfirst, hsecond⟩, hfirstDigit, hsecondDigit⟩
    obtain ⟨high, hhigh, hfirstValue, hfirstLower⟩ := exists_hexValue? hfirst
    obtain ⟨low, hlow, hsecondValue, hsecondLower⟩ := exists_hexValue? hsecond
    have hhighEq := hexDigit_injective hhigh (by omega) (hfirstLower.symm.trans hfirstDigit)
    have hlowEq := hexDigit_injective hlow (by omega) (hsecondLower.symm.trans hsecondDigit)
    refine ⟨low, hsecondValue, high, hfirstValue, ?_⟩
    rw [show high * 16 + low = byte.toNat by omega, UInt8.ofNat_toNat]

/-- A sign in the place of a digit counts as a zero. -/
def unsigned (c : Char) : Char := if c = '+' then '0' else c

theorem unsigned_ne_sign (c : Char) : unsigned c ≠ '+' := by
  unfold unsigned
  split
  · decide
  · next hc => exact hc

theorem byteOfPair?_unsigned (first second : Char) :
    byteOfPair? (unsigned first) second = byteOfPair? first second := by
  unfold unsigned
  split
  · next hsign =>
    rw [hsign]
    simp [byteOfPair?, show Bytes.hexValue? '0' = some 0 from rfl]
  · rfl

/-- The text with a zero for every sign in the first place of a pair. -/
def withoutSigns : List Char → List Char
  | first :: second :: rest => unsigned first :: second :: withoutSigns rest
  | rest => rest

theorem length_withoutSigns (text : List Char) : (withoutSigns text).length = text.length := by
  fun_induction withoutSigns text with
  | case1 first second rest ih => simp only [List.length_cons, ih]
  | case2 => rfl

theorem withoutSigns_eq_self {text : List Char} (hsigns : '+' ∉ text) :
    withoutSigns text = text := by
  fun_induction withoutSigns text with
  | case1 first second rest ih =>
    simp only [List.mem_cons, not_or] at hsigns
    obtain ⟨hfirst, -, hrest⟩ := hsigns
    rw [ih hrest, unsigned, if_neg (Ne.symm hfirst)]
  | case2 => rfl

/-- Bytes are read from their digits, of either case, with signs or zeros. -/
theorem bytesOfPairs?_eq_some {text : List Char} {bytes : Bytes} :
    bytesOfPairs? text = some bytes ↔ (∀ c ∈ withoutSigns text, IsHexDigit c) ∧
      (withoutSigns text).map Char.toLower = bytes.flatMap Bytes.hexPair := by
  induction text using bytesOfPairs?.induct generalizing bytes with
  | case1 => cases bytes <;> simp [bytesOfPairs?, withoutSigns, Bytes.hexPair]
  | case2 => cases bytes <;> simp [bytesOfPairs?, withoutSigns, Bytes.hexPair]
  | case3 first second rest ih =>
    cases bytes with
    | nil => simp [bytesOfPairs?, withoutSigns, Option.bind_eq_some_iff]
    | cons byte bytes =>
      have hpair := byteOfPair?_eq_some (unsigned_ne_sign first) second byte
      rw [byteOfPair?_unsigned] at hpair
      simp only [bytesOfPairs?, Option.bind_eq_bind, Option.bind_eq_some_iff, Option.pure_def,
        Option.some.injEq, List.cons.injEq, withoutSigns, List.forall_mem_cons, List.map_cons,
        List.flatMap_cons, Bytes.hexPair, List.cons_append, List.nil_append]
      constructor
      · rintro ⟨byte, hread, bytes, hrest, rfl, rfl⟩
        obtain ⟨⟨hfirst, hsecond⟩, hfirstDigit, hsecondDigit⟩ := hpair.mp hread
        obtain ⟨hdigits, hlower⟩ := ih.mp hrest
        exact ⟨⟨hfirst, hsecond, hdigits⟩, hfirstDigit, hsecondDigit, hlower⟩
      · rintro ⟨⟨hfirst, hsecond, hdigits⟩, hfirstDigit, hsecondDigit, hlower⟩
        exact ⟨byte, hpair.mpr ⟨⟨hfirst, hsecond⟩, hfirstDigit, hsecondDigit⟩, bytes,
          ih.mpr ⟨hdigits, hlower⟩, rfl, rfl⟩

theorem toList_toLower (text : String) : text.toLower.toList = text.toList.map Char.toLower :=
  String.toList_map

theorem toList_toHex (fingerprint : Fingerprint) :
    fingerprint.toHex.toList = fingerprint.bytes.flatMap Bytes.hexPair := by
  rw [toHex, Bytes.toHex, String.toList_ofList]

theorem length_toHex (fingerprint : Fingerprint) : fingerprint.toHex.length = 64 := by
  have hpairs : ∀ byte ∈ fingerprint.bytes, (Bytes.hexPair byte).length = 2 := fun _ _ ↦ rfl
  rw [← String.length_toList, toList_toHex, List.length_flatMap, List.map_congr_left hpairs,
    List.map_const', List.sum_replicate_nat, fingerprint.length_bytes]

theorem ofHex?_eq_some {fingerprint : Fingerprint} {text : String} :
    ofHex? text = some fingerprint ↔ (∀ c ∈ withoutSigns text.toList, IsHexDigit c) ∧
      (withoutSigns text.toList).map Char.toLower = fingerprint.toHex.toList := by
  rw [toList_toHex, ← bytesOfPairs?_eq_some, ofHex?, Option.bind_eq_some_iff]
  constructor
  · rintro ⟨bytes, hread, hbytes⟩
    unfold ofBytes? at hbytes
    split at hbytes
    · obtain rfl := Option.some.inj hbytes
      exact hread
    · cases hbytes
  · intro hread
    exact ⟨_, hread, dif_pos fingerprint.length_bytes⟩

/-- A fingerprint is read back from its text. It is read from exactly the texts of 64 characters
that are its digits in either case once a sign in the first place of a pair counts as a zero. So the
texts without a sign that it is read from are those of 64 hexadecimal digits with its own text in
lower case, and no two of them differ other than in letter case. -/
theorem read_iff_spelled (fingerprint : Fingerprint) :
    ofHex? fingerprint.toHex = some fingerprint ∧
      (∀ text : String, ofHex? text = some fingerprint ↔ text.length = 64 ∧
        (∀ c ∈ withoutSigns text.toList, IsHexDigit c) ∧
        (withoutSigns text.toList).map Char.toLower = fingerprint.toHex.toList) ∧
      (∀ text : String, ofHex? text = some fingerprint ∧ '+' ∉ text.toList ↔ text.length = 64 ∧
        (∀ c ∈ text.toList, IsHexDigit c) ∧ text.toLower = fingerprint.toHex) ∧
      ∀ first second : String, '+' ∉ first.toList → '+' ∉ second.toList →
        ofHex? first = some fingerprint → ofHex? second = some fingerprint →
        first.toLower = second.toLower := by
  have hlength {text : String} (hread : ofHex? text = some fingerprint) : text.length = 64 := by
    have hlengths := congrArg List.length (ofHex?_eq_some.mp hread).2
    rwa [List.length_map, length_withoutSigns, String.length_toList, String.length_toList,
      length_toHex] at hlengths
  have hlower (text : String) : text.toLower = fingerprint.toHex ↔
      text.toList.map Char.toLower = fingerprint.toHex.toList := by
    rw [← String.toList_inj, toList_toLower]
  have hplain : ∀ text : String, ofHex? text = some fingerprint ∧ '+' ∉ text.toList ↔
      text.length = 64 ∧ (∀ c ∈ text.toList, IsHexDigit c) ∧ text.toLower = fingerprint.toHex := by
    intro text
    rw [hlower]
    constructor
    · rintro ⟨hread, hsigns⟩
      have hspelled := ofHex?_eq_some.mp hread
      rw [withoutSigns_eq_self hsigns] at hspelled
      exact ⟨hlength hread, hspelled⟩
    · rintro ⟨-, hdigits, hdigitsLower⟩
      have hsigns : '+' ∉ text.toList := fun hsign ↦ absurd (hdigits '+' hsign) (by decide)
      rw [ofHex?_eq_some, withoutSigns_eq_self hsigns]
      exact ⟨⟨hdigits, hdigitsLower⟩, hsigns⟩
  refine ⟨ofHex?_toHex fingerprint, fun text ↦ ?_, hplain, ?_⟩
  · rw [ofHex?_eq_some]
    exact ⟨fun hspelled ↦ ⟨hlength (ofHex?_eq_some.mpr hspelled), hspelled⟩, And.right⟩
  · intro first second hfirst hsecond hread hagain
    obtain ⟨-, -, hlowered⟩ := (hplain first).mp ⟨hread, hfirst⟩
    obtain ⟨-, -, hsame⟩ := (hplain second).mp ⟨hagain, hsecond⟩
    exact hlowered.trans hsame.symm

/-- The fingerprint of which every byte is 15. -/
def fifteens : Fingerprint := ⟨List.replicate 32 15, List.length_replicate⟩

/-- A text of signs and digits that is read as a fingerprint. -/
def signedText : String := String.ofList (List.replicate 32 ['+', 'f']).flatten

/-- The text with signs is read, though it is no text of hexadecimal digits and differs from the
fingerprint's own in more than letter case. That one is read as well, and in capitals. -/
theorem read_iff_spelled_signed :
    ofHex? signedText = some fifteens ∧ ¬ (∀ c ∈ signedText.toList, IsHexDigit c) ∧
      signedText.toLower ≠ fifteens.toHex ∧ ofHex? fifteens.toHex = some fifteens ∧
      ofHex? fifteens.toHex.toUpper = some fifteens ∧
      fifteens.toHex.toUpper.toLower = fifteens.toHex := by
  obtain ⟨hown, hspelled, hplain, -⟩ := read_iff_spelled fifteens
  have hdigits : fifteens.toHex.toList = (List.replicate 32 ['0', 'f']).flatten := by
    rw [toList_toHex]
    rfl
  have hsigns : signedText.toList = (List.replicate 32 ['+', 'f']).flatten := String.toList_ofList
  have hcapitals : fifteens.toHex.toUpper.toList = (List.replicate 32 ['0', 'F']).flatten := by
    calc fifteens.toHex.toUpper.toList
      _ = fifteens.toHex.toList.map Char.toUpper := String.toList_map
      _ = (List.replicate 32 ['0', 'F']).flatten := by rw [hdigits]; rfl
  -- Deciding a statement about every character of a list would go through all characters there are.
  have hall {text : List Char} (htext : text.all (decide <| IsHexDigit ·) = true) :
      ∀ c ∈ text, IsHexDigit c := fun c hc ↦ of_decide_eq_true (List.all_eq_true.mp htext c hc)
  have hsigned : ofHex? signedText = some fifteens := by
    rw [hspelled, ← String.length_toList, hsigns, hdigits]
    exact ⟨rfl, hall (by decide), rfl⟩
  have hcapital : ofHex? fifteens.toHex.toUpper = some fifteens := by
    rw [hspelled, ← String.length_toList, hcapitals, hdigits]
    exact ⟨rfl, hall (by decide), rfl⟩
  have hnoSign : '+' ∉ fifteens.toHex.toUpper.toList := by
    rw [hcapitals]
    decide
  refine ⟨hsigned, fun hhex ↦ ?_, fun hlower ↦ ?_, hown, hcapital,
    ((hplain _).mp ⟨hcapital, hnoSign⟩).2.2⟩
  · rw [hsigns] at hhex
    exact absurd (hhex '+' (by decide)) (by decide)
  · rw [← String.toList_inj, toList_toLower, hsigns, hdigits] at hlower
    exact absurd hlower (by decide)

end VectorIndex.Fingerprint
