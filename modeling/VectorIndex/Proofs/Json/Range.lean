import VectorIndex.Proofs.Json.Token

/-!
# Whole numbers that are read

A whole number that a reader keeps as one fits 64 bits with a sign, wherever in a value it stands.
-/

namespace VectorIndex.Json

/-- The number is not kept as a whole one. -/
def Number.IsScaled (number : Number) : Prop := ∀ value, number ≠ .integer value

namespace Reader

theorem takeSignificand_lt {significand taken : Nat} {text : Rest}
    (hfits : significand < 0x10000000000000000) :
    (takeSignificand significand taken text).1 < 0x10000000000000000 := by
  induction text generalizing significand taken with
  | nil => exact hfits
  | cons c rest ih =>
    rw [takeSignificand]
    split
    · next hdigit => exact ih hdigit.2
    · exact hfits

/-! ## Numbers with a fraction or an exponent -/

theorem isScaled_scale (value : Binary64) (exponent : Int) (steps : Nat) :
    (scale value exponent steps).IsScaled := by
  induction steps generalizing value exponent with
  | zero => exact nofun
  | succ steps ih =>
    rw [scale]
    split
    · dsimp only
      split
      · exact nofun
      · exact nofun
    · split
      · exact nofun
      · split
        · exact nofun
        · split
          · exact nofun
          · exact ih _ _

theorem isScaled_fromParts (positive : Bool) (significand : Nat) (exponent : Int) :
    (fromParts positive significand exponent).IsScaled := by
  have hscaled := isScaled_scale (.ofNat significand) exponent 4
  unfold fromParts
  generalize scale _ _ _ = number at hscaled ⊢
  cases number with
  | integer value => exact absurd rfl (hscaled value)
  | single value => exact nofun
  | double value => exact nofun
  | outOfRange => exact nofun

theorem isScaled_of_exponentPart {positive : Bool} {significand : Nat} {exponent : Int}
    {text rest : Rest} {number : Number}
    (hread : exponentPart positive significand exponent text = some (number, rest)) :
    number.IsScaled := by
  have hsized : ∀ (negative : Bool) (text : Rest),
      (if (text.takeWhile Char.isDigit).isEmpty then none
        else some (fromParts positive significand
          (if negative then exponent - Decimal.digitsValue (text.takeWhile Char.isDigit)
            else exponent + Decimal.digitsValue (text.takeWhile Char.isDigit)),
          text.dropWhile Char.isDigit)) = some (number, rest) → number.IsScaled := by
    intro negative text htext
    split at htext
    · cases htext
    · obtain ⟨rfl, -⟩ := Prod.mk.inj (Option.some.inj htext)
      exact isScaled_fromParts _ _ _
  unfold exponentPart at hread
  split at hread
  · split at hread
    · exact hsized _ _ hread
    · obtain ⟨rfl, -⟩ := Prod.mk.inj (Option.some.inj hread)
      exact isScaled_fromParts _ _ _
  · obtain ⟨rfl, -⟩ := Prod.mk.inj (Option.some.inj hread)
    exact isScaled_fromParts _ _ _

theorem isScaled_of_tailPart {positive : Bool} {significand : Nat} {exponent : Int}
    {text rest : Rest} {number : Number}
    (hread : tailPart positive significand exponent text = some (number, rest)) :
    number.IsScaled := by
  unfold tailPart at hread
  split at hread
  · unfold fractionPart at hread
    split at hread
    · split at hread
      · exact isScaled_of_exponentPart hread
      · cases hread
    · cases hread
  · exact isScaled_of_exponentPart hread

/-! ## Whole numbers -/

theorem fits64_of_unsignedNumber {positive : Bool} {text rest : Rest} {value : Int}
    (hread : unsignedNumber positive text = some (.integer value, rest)) : Fits64 value := by
  unfold unsignedNumber at hread
  unfold Fits64
  split at hread
  · cases hread
  · split at hread
    · cases hread
    · split at hread
      · exact absurd rfl (isScaled_of_tailPart hread value)
      · cases positive with
        | true =>
          cases hread
          decide
        | false => cases hread
  · next c tail _ =>
    split at hread
    · have hsignificand : (takeSignificand 0 0 (c :: tail)).1 < 0x10000000000000000 :=
        takeSignificand_lt (by decide)
      dsimp only at hread
      generalize takeSignificand 0 0 (c :: tail) = taken at hread hsignificand
      split at hread
      · split at hread
        · cases hread
          omega
        · split at hread
          · cases hread
          · split at hread
            · cases hread
              omega
            · cases hread
      · exact absurd rfl (isScaled_of_tailPart hread value)
    · cases hread

theorem fits64_of_number? {text rest : Rest} {value : Int}
    (hread : number? text = some (.integer value, rest)) : Fits64 value := by
  unfold number? at hread
  split at hread
  · exact fits64_of_unsignedNumber hread
  · exact fits64_of_unsignedNumber hread

/-! ## Values -/

/-- If the value is a whole number then it fits. -/
def Bounded (value : Json) : Prop := ∀ whole, value = number (.integer whole) → Fits64 whole

theorem bounded_of_value? {fuel : Nat} {text rest : Rest} {value : Json}
    (hread : value? fuel text = some (value, rest)) : Bounded value := by
  rintro whole rfl
  cases fuel with
  | zero =>
    rw [value?] at hread
    cases hread
  | succ fuel =>
    rw [value?] at hread
    split at hread
    · cases hread
    · cases hread
    · cases hread
    · obtain ⟨pair, -, hlast⟩ := Option.bind_eq_some_iff.mp hread
      cases hlast
    · split at hread
      · cases hread
      · obtain ⟨pair, -, hlast⟩ := Option.bind_eq_some_iff.mp hread
        cases hlast
    · split at hread
      · cases hread
      · obtain ⟨pair, -, hlast⟩ := Option.bind_eq_some_iff.mp hread
        cases hlast
    · obtain ⟨⟨found, after⟩, hnumber, hlast⟩ := Option.bind_eq_some_iff.mp hread
      cases hlast
      exact fits64_of_number? hnumber

theorem bounded_of_members? {fuel : Nat} {reversed members : List (String × Json)}
    {text rest : Rest} (hreversed : ∀ member ∈ reversed, Bounded member.2)
    (hread : members? fuel reversed text = some (members, rest)) :
    ∀ member ∈ members, Bounded member.2 := by
  induction fuel generalizing reversed text with
  | zero =>
    rw [members?] at hread
    cases hread
  | succ fuel ih =>
    rw [members?] at hread
    split at hread
    · split at hread
      · split at hread
        · split at hread
          · next value _ hvalue =>
            have hcons : ∀ name, ∀ member ∈ (name, value) :: reversed, Bounded member.2 :=
              fun name ↦ List.forall_mem_cons.mpr ⟨bounded_of_value? hvalue, hreversed⟩
            split at hread
            · exact ih (hcons _) hread
            · obtain ⟨rfl, -⟩ := Prod.mk.inj (Option.some.inj hread)
              exact fun member hmember ↦ hcons _ member (List.mem_reverse.mp hmember)
            · cases hread
          · cases hread
        · cases hread
      · cases hread
    · cases hread

theorem bounded_of_value?_object {fuel : Nat} {text rest : Rest}
    {members : List (String × Json)} (hread : value? fuel text = some (object members, rest)) :
    ∀ member ∈ members, Bounded member.2 := by
  cases fuel with
  | zero =>
    rw [value?] at hread
    cases hread
  | succ fuel =>
    rw [value?] at hread
    split at hread
    · cases hread
    · cases hread
    · cases hread
    · obtain ⟨pair, -, hlast⟩ := Option.bind_eq_some_iff.mp hread
      cases hlast
    · split at hread
      · cases hread
      · obtain ⟨pair, -, hlast⟩ := Option.bind_eq_some_iff.mp hread
        cases hlast
    · split at hread
      · cases hread
        exact List.forall_mem_nil _
      · obtain ⟨⟨found, after⟩, hmembers, hlast⟩ := Option.bind_eq_some_iff.mp hread
        cases hlast
        exact bounded_of_members? (List.forall_mem_nil _) hmembers
    · obtain ⟨pair, -, hlast⟩ := Option.bind_eq_some_iff.mp hread
      cases hlast

end Reader

open Reader (Bounded Fits64 bounded_of_value?_object)

/-! ## Normal form -/

theorem bounded_normal {value : Json} (hvalue : Bounded value) : Bounded value.normal := by
  cases value with
  | array items =>
    rw [normal]
    exact nofun
  | object members =>
    rw [normal]
    exact nofun
  | null | bool | number | string =>
    unfold normal
    exact hvalue

theorem bounded_of_mem_insertSorted {name : String} {value : Json}
    {members : List (String × Json)} (hvalue : Bounded value)
    (hmembers : ∀ member ∈ members, Bounded member.2) :
    ∀ member ∈ insertSorted name value members, Bounded member.2 := by
  induction members with
  | nil => simpa [insertSorted] using hvalue
  | cons first rest ih =>
    obtain ⟨hfirst, hrest⟩ := List.forall_mem_cons.mp hmembers
    rw [insertSorted]
    split
    · exact List.forall_mem_cons.mpr ⟨hvalue, hmembers⟩
    · split
      · exact List.forall_mem_cons.mpr ⟨hvalue, hrest⟩
      · exact List.forall_mem_cons.mpr ⟨hfirst, ih hrest⟩

theorem bounded_of_mem_normalMembers {members done : List (String × Json)}
    (hmembers : ∀ member ∈ members, Bounded member.2) (hdone : ∀ member ∈ done, Bounded member.2) :
    ∀ member ∈ normalMembers members done, Bounded member.2 := by
  induction members generalizing done with
  | nil =>
    rw [normalMembers]
    exact hdone
  | cons first rest ih =>
    obtain ⟨hfirst, hrest⟩ := List.forall_mem_cons.mp hmembers
    rw [normalMembers]
    exact ih hrest (bounded_of_mem_insertSorted (bounded_normal hfirst) hdone)

theorem exists_members_of_member? {value member : Json} {name : String}
    (hmember : value.member? name = some member) :
    ∃ members, value = object members ∧ (name, member) ∈ members := by
  unfold member? at hmember
  split at hmember
  · next members =>
    obtain ⟨⟨other, kept⟩, hfind, rfl⟩ := Option.map_eq_some_iff.mp hmember
    obtain rfl : other = name := by simpa using List.find?_some hfind
    exact ⟨members, rfl, List.mem_reverse.mp (List.mem_of_find?_eq_some hfind)⟩
  · cases hmember

theorem exists_members_of_normal {value : Json} {members : List (String × Json)}
    (hnormal : value.normal = object members) :
    ∃ read, value = object read ∧ members = normalMembers read [] := by
  unfold normal at hnormal
  split at hnormal
  · cases hnormal
  · next read => exact ⟨read, rfl, (Json.object.inj hnormal).symm⟩
  · next hobject => exact absurd hnormal (hobject members)

/-- A member of a value that is read fits when it is a whole number. -/
theorem fits64_of_member? {text name : String} {value : Json} {whole : Int}
    (hparse : parseValue text = some value)
    (hmember : value.member? name = some (.number (.integer whole))) : Fits64 whole := by
  obtain ⟨members, rfl, hmem⟩ := exists_members_of_member? hmember
  obtain ⟨parsed, hparsed, hnormal⟩ := Option.bind_eq_some_iff.mp hparse
  unfold parse parseChars at hparsed
  split at hparsed
  · next found rest hread =>
    split at hparsed
    · obtain rfl := Option.some.inj hparsed
      split at hnormal
      · obtain ⟨read, rfl, rfl⟩ := exists_members_of_normal (Option.some.inj hnormal)
        have hread := bounded_of_value?_object hread
        exact bounded_of_mem_normalMembers hread (List.forall_mem_nil _) _ hmem whole rfl
      · cases hnormal
    · cases hparsed
  · cases hparsed

end VectorIndex.Json
