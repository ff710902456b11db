import VectorIndex.Json.Printer
import VectorIndex.Json.Reader

/-!
# Numbers and strings as JSON tokens

The reader takes a whole number of at most 64 bits, and every string, back from the text that the
writer gives it. Where a number ends is seen from what follows it, so nothing that could prolong
it may stand there; a string ends at its first bare quote, and the writer leaves none inside.
-/

namespace VectorIndex.Json

namespace Reader

/-- Nothing at the head of the text prolongs a number. -/
def EndsNumber (text : Rest) : Prop :=
  ∀ c ∈ text.head?, c.isDigit = false ∧ c ≠ '.' ∧ c ≠ 'e' ∧ c ≠ 'E'

theorem EndsNumber.nil : EndsNumber [] := by
  intro c hc
  cases hc

theorem EndsNumber.cons {c : Char} (hdigit : c.isDigit = false)
    (hmark : c ≠ '.' ∧ c ≠ 'e' ∧ c ≠ 'E') (text : Rest) : EndsNumber (c :: text) := by
  intro other hother
  cases hother
  exact ⟨hdigit, hmark⟩

theorem EndsNumber.isNumberTail {text : Rest} (hends : EndsNumber text) :
    isNumberTail text = false := by
  cases text with
  | nil => rfl
  | cons c text =>
    obtain ⟨_, hpoint, hsmall, hlarge⟩ := hends c rfl
    simp [Reader.isNumberTail, hpoint, hsmall, hlarge]

theorem EndsNumber.takeWhile_isDigit {text : Rest} (hends : EndsNumber text) :
    text.takeWhile Char.isDigit = [] := by
  cases text with
  | nil => rfl
  | cons c text => rw [List.takeWhile_cons, (hends c rfl).1, if_neg Bool.false_ne_true]

theorem EndsNumber.dropWhile_isDigit {text : Rest} (hends : EndsNumber text) :
    text.dropWhile Char.isDigit = text := by
  cases text with
  | nil => rfl
  | cons c text => rw [List.dropWhile_cons, (hends c rfl).1, if_neg Bool.false_ne_true]

/-! ## Whole numbers -/

theorem le_ofDigitChars (digits : List Char) (init : Nat) :
    init ≤ Nat.ofDigitChars 10 digits init := by
  induction digits generalizing init with
  | nil => exact Nat.le_refl _
  | cons c digits ih =>
    rw [Nat.ofDigitChars_cons]
    exact Nat.le_trans (by omega) (ih _)

/-- Digits that stand for a number of 64 bits are all taken. -/
theorem takeSignificand_append {digits : List Char} (hdigits : ∀ c ∈ digits, c.isDigit = true)
    {text : Rest} (hends : EndsNumber text) (significand taken : Nat)
    (hfits : Nat.ofDigitChars 10 digits significand < 0x10000000000000000) :
    takeSignificand significand taken (digits ++ text) =
      (Nat.ofDigitChars 10 digits significand, taken + digits.length, text) := by
  induction digits generalizing significand taken with
  | nil =>
    cases text with
    | nil => rfl
    | cons c text =>
      have hdigit := (hends c rfl).1
      rw [List.nil_append, takeSignificand, if_neg (by simp [hdigit])]
      rfl
  | cons c digits ih =>
    rw [Nat.ofDigitChars_cons] at hfits ⊢
    have hvalue : significand * 10 + digitValue c = 10 * significand + (c.toNat - '0'.toNat) := by
      rw [Nat.mul_comm]
      rfl
    have hsmall := Nat.lt_of_le_of_lt (le_ofDigitChars digits _) hfits
    rw [List.cons_append, takeSignificand, hvalue,
      if_pos ⟨hdigits c List.mem_cons_self, hsmall⟩,
      ih (fun d hd ↦ hdigits d (List.mem_cons_of_mem c hd)) _ _ hfits, List.length_cons,
      Nat.add_right_comm, Nat.add_assoc taken digits.length]

theorem exists_toDigits {n : Nat} (hn : 0 < n) :
    ∃ c rest, Nat.toDigits 10 n = c :: rest ∧ c.isDigit = true ∧ c ≠ '0' := by
  induction n using Nat.strongRecOn with
  | ind n ih =>
    by_cases hsmall : n < 10
    · refine ⟨n.digitChar, [], Nat.toDigits_of_lt_base hsmall, ?_, ?_⟩
      · rw [Nat.isDigit_digitChar, decide_eq_true hsmall]
      · intro hzero
        have := Nat.digitChar_eq_zero.mp hzero
        omega
    · obtain ⟨c, rest, hdigits, hc⟩ := ih (n / 10) (by omega) (by omega)
      refine ⟨c, rest ++ [Nat.digitChar (n % 10)], ?_, hc⟩
      rw [Nat.toDigits_of_base_le (by decide) (by omega), hdigits, List.cons_append]

/-- The significand of a number is the number, and nothing of its digits is dropped. -/
theorem takeSignificand_toDigits {n : Nat} (hfits : n < 0x10000000000000000) {text : Rest}
    (hends : EndsNumber text) :
    takeSignificand 0 0 (Nat.toDigits 10 n ++ text) = (n, (Nat.toDigits 10 n).length, text) := by
  have hvalue : Nat.ofDigitChars 10 (Nat.toDigits 10 n) 0 = n := Nat.ofDigitChars_ten_toDigits
  have hdigits : ∀ c ∈ Nat.toDigits 10 n, c.isDigit = true := fun c hc ↦
    Nat.isDigit_of_mem_toDigits (by decide) (by decide) hc
  rw [takeSignificand_append hdigits hends 0 0 (by rw [hvalue]; exact hfits), hvalue, Nat.zero_add]

theorem unsignedNumber_zero {text : Rest} (hends : EndsNumber text) :
    unsignedNumber true ('0' :: text) = some (.integer 0, text) := by
  cases text with
  | nil => rfl
  | cons c text =>
    rw [unsignedNumber, if_neg (by rw [(hends c rfl).1]; exact Bool.false_ne_true),
      hends.isNumberTail, if_neg Bool.false_ne_true]
    rfl

/-- A number other than zero begins with no zero, so all its digits make up the significand. -/
theorem unsignedNumber_toDigits {n : Nat} (hn : 0 < n) (hfits : n < 0x10000000000000000)
    {text : Rest} (hends : EndsNumber text) (positive : Bool) :
    unsignedNumber positive (Nat.toDigits 10 n ++ text) =
      if positive then some (.integer n, text)
      else if n ≤ 0x8000000000000000 then some (.integer (-(n : Int)), text)
      else some (.double (Binary64.ofNat n).neg, text) := by
  obtain ⟨c, rest, hdigits, hdigit, hzero⟩ := exists_toDigits hn
  have htake := takeSignificand_toDigits hfits hends
  rw [hdigits, List.cons_append] at htake ⊢
  rw [unsignedNumber]
  · rw [if_pos hdigit, htake]
    simp only [hends.takeWhile_isDigit, hends.dropWhile_isDigit, hends.isNumberTail]
    rw [if_pos ⟨rfl, rfl⟩]
    cases positive with
    | true => rfl
    | false => rw [if_neg Bool.false_ne_true, if_neg (by omega : ¬ n = 0), if_neg Bool.false_ne_true]
  · intro d other hc
    exact absurd hc hzero

/-- A whole number that 64 bits hold, with a sign if need be. -/
def Fits64 (value : Int) : Prop := -0x8000000000000000 ≤ value ∧ value < 0x10000000000000000

theorem number?_of_isDigit {c : Char} (hdigit : c.isDigit = true) (text : Rest) :
    number? (c :: text) = unsignedNumber true (c :: text) := by
  rw [number?]
  intro rest heq
  cases heq
  exact absurd hdigit (by decide)

theorem number?_toText {value : Int} (hfits : Fits64 value) {text : Rest}
    (hends : EndsNumber text) :
    number? ((Number.integer value).toText.toList ++ text) = some (.integer value, text) := by
  unfold Fits64 at hfits
  cases value with
  | ofNat n =>
    have htext : (Number.integer (Int.ofNat n)).toText.toList = Nat.toDigits 10 n := Nat.toList_repr
    rw [htext]
    rcases Nat.eq_zero_or_pos n with hn | hn
    · rw [hn, Nat.toDigits_zero, List.singleton_append, number?_of_isDigit (by decide),
        unsignedNumber_zero hends]
      rfl
    · obtain ⟨c, rest, hdigits, hdigit, _⟩ := exists_toDigits hn
      have hfits : n < 0x10000000000000000 := Int.ofNat_lt.mp hfits.2
      have hunsigned := unsignedNumber_toDigits hn hfits hends true
      rw [hdigits, List.cons_append] at hunsigned ⊢
      rw [number?_of_isDigit hdigit, hunsigned, if_pos rfl]
      rfl
  | negSucc n =>
    have htext : (Number.integer (Int.negSucc n)).toText.toList =
        '-' :: Nat.toDigits 10 (n + 1) := by
      show ("-" ++ Nat.repr (n + 1)).toList = _
      rw [String.toList_append, Nat.toList_repr]
      rfl
    rw [htext, List.cons_append, number?, unsignedNumber_toDigits (by omega) (by omega) hends,
      if_neg Bool.false_ne_true, if_pos (by omega)]
    rfl

/-- A written whole number begins with a digit or a minus sign. -/
theorem exists_toText (value : Int) :
    ∃ c rest, (Number.integer value).toText.toList = c :: rest ∧ (c = '-' ∨ c.isDigit = true) := by
  cases value with
  | ofNat n =>
    have htext : (Number.integer (Int.ofNat n)).toText.toList = Nat.toDigits 10 n := Nat.toList_repr
    obtain ⟨c, rest, hdigits⟩ := List.exists_cons_of_ne_nil (Nat.toDigits_ne_nil (n := n) (b := 10))
    have hc : c ∈ Nat.toDigits 10 n := by rw [hdigits]; exact List.mem_cons_self
    exact ⟨c, rest, htext.trans hdigits, .inr (Nat.isDigit_of_mem_toDigits (by decide) (by decide) hc)⟩
  | negSucc n =>
    exact ⟨'-', (Nat.repr (n + 1)).toList, String.toList_append, .inl rfl⟩

/-! ## Strings -/

theorem splitQuote_cons {c : Char} (hquote : c ≠ '"') (hslash : c ≠ '\\') (reversed : List Char)
    (text : Rest) : splitQuote false reversed (c :: text) = splitQuote false (c :: reversed) text := by
  simp [splitQuote, hquote, hslash]

theorem splitQuote_escape (c : Char) (reversed : List Char) (text : Rest) :
    splitQuote false reversed ('\\' :: c :: text) =
      splitQuote false (c :: '\\' :: reversed) text := by
  simp [splitQuote]

theorem splitQuote_escapeChar (c : Char) (reversed : List Char) (text : Rest) :
    splitQuote false reversed (escapeChar c ++ text) =
      splitQuote false ((escapeChar c).reverse ++ reversed) text := by
  fun_cases escapeChar c with
  | case1 | case2 | case3 | case4 | case5 | case6 | case7 => exact splitQuote_escape _ _ _
  | case8 =>
    have hdigit : ∀ n, Nat.digitChar n ≠ '"' ∧ Nat.digitChar n ≠ '\\' := fun n ↦
      ⟨Nat.digitChar_ne _ (by decide), Nat.digitChar_ne _ (by decide)⟩
    simp only [List.cons_append, List.nil_append]
    rw [splitQuote_escape, splitQuote_cons (by decide) (by decide),
      splitQuote_cons (by decide) (by decide), splitQuote_cons (hdigit _).1 (hdigit _).2,
      splitQuote_cons (hdigit _).1 (hdigit _).2]
    rfl
  | case9 hquote hslash => exact splitQuote_cons hquote hslash reversed text

/-- No character of a written string ends it. -/
theorem splitQuote_flatMap (chars reversed : List Char) (text : Rest) :
    splitQuote false reversed (chars.flatMap escapeChar ++ '"' :: text) =
      some (reversed.reverse ++ chars.flatMap escapeChar, text) := by
  induction chars generalizing reversed with
  | nil =>
    rw [List.flatMap_nil, List.append_nil]
    rfl
  | cons c chars ih =>
    calc splitQuote false reversed ((c :: chars).flatMap escapeChar ++ '"' :: text)
      _ = splitQuote false ((escapeChar c).reverse ++ reversed)
          (chars.flatMap escapeChar ++ '"' :: text) := by
        rw [List.flatMap_cons, List.append_assoc, splitQuote_escapeChar]
      _ = some (((escapeChar c).reverse ++ reversed).reverse ++ chars.flatMap escapeChar, text) :=
        ih _
      _ = some (reversed.reverse ++ (c :: chars).flatMap escapeChar, text) := by
        rw [List.reverse_append, List.reverse_reverse, List.append_assoc, List.flatMap_cons]

theorem hex4?_digitChar {a b c d : Nat} (ha : a < 16) (hb : b < 16) (hc : c < 16) (hd : d < 16)
    (text : Rest) :
    hex4? (Nat.digitChar a :: Nat.digitChar b :: Nat.digitChar c :: Nat.digitChar d :: text) =
      some (a * 4096 + b * 256 + c * 16 + d, text) := by
  have hdigit : ∀ n < 16, (if (Nat.digitChar n).isDigit then some ((Nat.digitChar n).toNat - '0'.toNat)
      else if 'a' ≤ Nat.digitChar n ∧ Nat.digitChar n ≤ 'f' then
        some ((Nat.digitChar n).toNat - 'a'.toNat + 10)
      else if 'A' ≤ Nat.digitChar n ∧ Nat.digitChar n ≤ 'F' then
        some ((Nat.digitChar n).toNat - 'A'.toNat + 10)
      else none) = some n := by decide
  refine Option.bind_eq_some_iff.mpr ⟨a, hdigit a ha, ?_⟩
  refine Option.bind_eq_some_iff.mpr ⟨b, hdigit b hb, ?_⟩
  refine Option.bind_eq_some_iff.mpr ⟨c, hdigit c hc, ?_⟩
  exact Option.bind_eq_some_iff.mpr ⟨d, hdigit d hd, rfl⟩

/-- The code of a control character is read back. -/
theorem escape?_control {c : Char} (hc : c.toNat < 32) (text : Rest) :
    escape? ('u' :: '0' :: '0' :: Nat.digitChar (c.toNat / 16) :: Nat.digitChar (c.toNat % 16) ::
      text) = some (c, text) := by
  have hhex := hex4?_digitChar (a := 0) (b := 0) (by decide) (by decide)
    (by omega : c.toNat / 16 < 16) (by omega : c.toNat % 16 < 16) text
  rw [show 0 * 4096 + 0 * 256 + c.toNat / 16 * 16 + c.toNat % 16 = c.toNat by omega] at hhex
  refine Option.bind_eq_some_iff.mpr ⟨_, hhex, ?_⟩
  show (if _ then _ else if _ then _ else some (Char.ofNat c.toNat, text)) = _
  rw [if_neg (by omega), if_neg (by omega), Char.ofNat_toNat]

theorem unescape_escape {text rest : Rest} {c : Char} (hescape : escape? text = some (c, rest))
    (fuel : Nat) (reversed : List Char) :
    unescape (fuel + 1) reversed ('\\' :: text) = unescape fuel (c :: reversed) rest := by
  rw [unescape, if_pos rfl, hescape]

theorem unescape_escapeChar (c : Char) (fuel : Nat) (reversed text : List Char) :
    unescape (fuel + 1) reversed (escapeChar c ++ text) = unescape fuel (c :: reversed) text := by
  have hchar : Char.ofNat c.toNat = c := Char.ofNat_toNat c
  fun_cases escapeChar c with
  | case1 hc | case2 _ hc | case3 _ _ hc | case4 _ _ _ hc | case5 _ _ _ _ hc =>
    rw [hc]
    exact unescape_escape rfl fuel reversed
  | case6 _ _ _ _ _ hcode | case7 _ _ _ _ _ _ hcode =>
    rw [← hchar, hcode]
    exact unescape_escape rfl fuel reversed
  | case8 _ _ _ _ _ _ _ hcontrol =>
    exact unescape_escape (escape?_control hcontrol text) fuel reversed
  | case9 _ hslash _ _ _ _ _ hcontrol =>
    rw [List.singleton_append, unescape, if_neg hslash, if_neg hcontrol]

theorem unescape_flatMap (chars : List Char) (fuel : Nat) (hfuel : chars.length ≤ fuel)
    (reversed : List Char) :
    unescape fuel reversed (chars.flatMap escapeChar) = some (reversed.reverse ++ chars) := by
  induction chars generalizing fuel reversed with
  | nil => rw [List.flatMap_nil, unescape, List.append_nil]
  | cons c chars ih =>
    obtain ⟨rest, rfl⟩ := Nat.exists_eq_add_of_le hfuel
    rw [List.length_cons, Nat.add_right_comm, List.flatMap_cons, unescape_escapeChar,
      ih _ (Nat.le_add_right _ _), List.reverse_cons, List.append_assoc, List.singleton_append]

theorem escapeChar_length_pos (c : Char) : 0 < (escapeChar c).length := by
  fun_cases escapeChar c <;> exact Nat.succ_pos _

theorem length_le_flatMap_escapeChar (chars : List Char) :
    chars.length ≤ (chars.flatMap escapeChar).length := by
  induction chars with
  | nil => exact Nat.le_refl _
  | cons c chars ih =>
    have hpos := escapeChar_length_pos c
    rw [List.flatMap_cons, List.length_append, List.length_cons]
    omega

/-- A written string is read back. -/
theorem string?_quote (value : String) (text : Rest) :
    string? (value.toList.flatMap escapeChar ++ '"' :: text) = some (value, text) := by
  refine Option.bind_eq_some_iff.mpr ⟨_, splitQuote_flatMap value.toList [] text, ?_⟩
  have hunescape := unescape_flatMap value.toList _ (length_le_flatMap_escapeChar value.toList) []
  refine Option.bind_eq_some_iff.mpr ⟨_, hunescape, ?_⟩
  rw [List.reverse_nil, List.nil_append, String.ofList_toList]

end Reader

theorem toList_quote (value : String) :
    (quote value).toList = '"' :: (value.toList.flatMap escapeChar ++ ['"']) := by
  rw [quote, String.toList_ofList]

end VectorIndex.Json
