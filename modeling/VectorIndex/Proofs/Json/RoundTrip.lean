import VectorIndex.Json.Decode
import VectorIndex.Proofs.Json.Token

/-!
# JSON survives being written

The texts of a value are given by a grammar that leaves the blanks between the tokens free. Both
writers stay inside it, and the reader takes every text of it back to its value, so a value of
whole numbers, strings and truth values is read as it was written in either form.
-/

namespace VectorIndex.Json

open Reader (Rest EndsNumber Fits64 exists_toText isSpace skipSpace)

def Blank (text : List Char) : Prop := ∀ c ∈ text, isSpace c = true

theorem Blank.nil : Blank [] := by
  intro c hc
  cases hc

mutual

/-- The texts of a value. -/
inductive Writing : Json → List Char → Prop where
  | null : Writing null ['n', 'u', 'l', 'l']
  | bool (value : Bool) :
    Writing (.bool value) (if value then ['t', 'r', 'u', 'e'] else ['f', 'a', 'l', 's', 'e'])
  | integer {value : Int} (hfits : Fits64 value) :
    Writing (number (.integer value)) (Number.integer value).toText.toList
  | string (value : String) : Writing (string value) (quote value).toList
  | noItems : Writing (array []) ['[', ']']
  | items {items : List Json} {before text after : List Char} (hbefore : Blank before)
    (htext : WritingItems items text) (hafter : Blank after) :
    Writing (array items) ('[' :: (before ++ (text ++ (after ++ [']']))))
  | noMembers : Writing (object []) ['\x7b', '\x7d']
  | members {members : List (String × Json)} {before text after : List Char}
    (hbefore : Blank before) (htext : WritingMembers members text) (hafter : Blank after) :
    Writing (object members) ('\x7b' :: (before ++ (text ++ (after ++ ['\x7d']))))

inductive WritingItems : List Json → List Char → Prop where
  | last {item : Json} {text : List Char} (hitem : Writing item text) : WritingItems [item] text
  | cons {item : Json} {items : List Json} {text gap rest : List Char} (hitem : Writing item text)
    (hgap : Blank gap) (hitems : WritingItems items rest) :
    WritingItems (item :: items) (text ++ ',' :: (gap ++ rest))

inductive WritingMembers : List (String × Json) → List Char → Prop where
  | last {name : String} {value : Json} {gap text : List Char} (hgap : Blank gap)
    (hvalue : Writing value text) :
    WritingMembers [(name, value)] ((quote name).toList ++ ':' :: (gap ++ text))
  | cons {name : String} {value : Json} {members : List (String × Json)}
    {gap text between rest : List Char} (hgap : Blank gap) (hvalue : Writing value text)
    (hbetween : Blank between) (hmembers : WritingMembers members rest) :
    WritingMembers ((name, value) :: members)
      ((quote name).toList ++ ':' :: (gap ++ (text ++ ',' :: (between ++ rest))))

end

/-! ## Reading -/

namespace Reader

theorem skipSpace_append {blank : List Char} (hblank : Blank blank) (text : Rest) :
    skipSpace (blank ++ text) = skipSpace text := by
  exact List.dropWhile_append_of_pos hblank

theorem skipSpace_cons {c : Char} (hc : isSpace c = false) (text : Rest) :
    skipSpace (c :: text) = c :: text := by
  exact List.dropWhile_cons_of_neg (by rw [hc]; exact Bool.false_ne_true)

theorem isSpace_eq_true {c : Char} (hc : isSpace c = true) :
    c = ' ' ∨ c = '\n' ∨ c = '\t' ∨ c = '\r' := by
  simpa only [isSpace, Bool.or_eq_true, decide_eq_true_eq, or_assoc] using hc

/-- No number begins with a blank. -/
theorem isSpace_of_number {c : Char} (hc : c = '-' ∨ c.isDigit = true) : isSpace c = false := by
  cases hspace : isSpace c with
  | false => rfl
  | true => rcases isSpace_eq_true hspace with rfl | rfl | rfl | rfl <;> exact absurd hc (by decide)

theorem value?_append {blank : List Char} (hblank : Blank blank) (fuel : Nat) (text : Rest) :
    value? fuel (blank ++ text) = value? fuel text := by
  cases fuel with
  | zero => rw [value?, value?]
  | succ fuel => rw [value?, value?, skipSpace_append hblank]

theorem items?_append {blank : List Char} (hblank : Blank blank) (fuel : Nat)
    (reversed : List Json) (text : Rest) :
    items? fuel reversed (blank ++ text) = items? fuel reversed text := by
  cases fuel with
  | zero => rw [items?, items?]
  | succ fuel => rw [items?, items?, value?_append hblank]

theorem members?_append {blank : List Char} (hblank : Blank blank) (fuel : Nat)
    (reversed : List (String × Json)) (text : Rest) :
    members? fuel reversed (blank ++ text) = members? fuel reversed text := by
  cases fuel with
  | zero => rw [members?, members?]
  | succ fuel => rw [members?, members?, skipSpace_append hblank]

theorem EndsNumber.of_blank {blank : List Char} (hblank : Blank blank) {text : Rest}
    (hends : EndsNumber text) : EndsNumber (blank ++ text) := by
  cases blank with
  | nil => exact hends
  | cons c blank =>
    rcases isSpace_eq_true (hblank c List.mem_cons_self) with rfl | rfl | rfl | rfl <;>
      exact EndsNumber.cons (by decide) (by decide) _

end Reader

/-- A text of a value begins with a character that is no blank and closes no bracket. -/
theorem Writing.exists_cons {value : Json} {text : List Char} (htext : Writing value text) :
    ∃ c rest, text = c :: rest ∧ isSpace c = false ∧ c ≠ ']' := by
  cases htext with
  | bool value => cases value <;> exact ⟨_, _, rfl, by decide, by decide⟩
  | @integer value hfits =>
    obtain ⟨c, rest, htext, hc⟩ := exists_toText value
    refine ⟨c, rest, htext, Reader.isSpace_of_number hc, ?_⟩
    rintro rfl
    exact absurd hc (by decide)
  | string value =>
    exact ⟨'"', _, toList_quote value, by decide, by decide⟩
  | null | noItems | items | noMembers | members =>
    exact ⟨_, _, rfl, by decide, by decide⟩

theorem WritingItems.exists_cons {items : List Json} {text : List Char}
    (htext : WritingItems items text) : ∃ c rest, text = c :: rest ∧ isSpace c = false ∧ c ≠ ']' := by
  cases htext with
  | last hitem => exact hitem.exists_cons
  | cons hitem hgap hitems =>
    obtain ⟨c, rest, rfl, hc⟩ := hitem.exists_cons
    exact ⟨c, _, rfl, hc⟩

theorem WritingMembers.exists_cons {members : List (String × Json)} {text : List Char}
    (htext : WritingMembers members text) : ∃ rest, text = '"' :: rest := by
  cases htext with
  | last | cons =>
    rw [toList_quote]
    exact ⟨_, rfl⟩

namespace Reader

theorem value?_number {c : Char} {text rest : Rest} {value : Number}
    (hc : c = '-' ∨ c.isDigit = true) (hnumber : number? (c :: text) = some (value, rest))
    (fuel : Nat) : value? (fuel + 1) (c :: text) = some (number value, rest) := by
  have hspace : isSpace c = false := isSpace_of_number hc
  rw [value?, skipSpace_cons hspace]
  split
  case h_7 =>
    exact Option.bind_eq_some_iff.mpr ⟨_, hnumber, rfl⟩
  all_goals
    next heq =>
    obtain ⟨rfl, _⟩ := List.cons.inj heq
    exact absurd hc (by decide)

theorem value?_string (value : String) (fuel : Nat) (text : Rest) :
    value? (fuel + 1) ((quote value).toList ++ text) = some (string value, text) := by
  rw [toList_quote, List.cons_append, List.append_assoc, value?, skipSpace_cons (by decide)]
  exact Option.bind_eq_some_iff.mpr ⟨_, string?_quote value text, rfl⟩

theorem value?_items {c : Char} {before text rest : Rest} (hbefore : Blank before)
    (hspace : isSpace c = false) (hclose : c ≠ ']') {items : List Json} {fuel : Nat}
    (hitems : items? fuel [] (c :: text) = some (items, rest)) :
    value? (fuel + 1) ('[' :: (before ++ c :: text)) = some (array items, rest) := by
  rw [value?, skipSpace_cons (by decide)]
  simp only [skipSpace_append hbefore, skipSpace_cons hspace]
  split
  · next heq => exact absurd (List.cons.inj heq).1 hclose
  · exact Option.bind_eq_some_iff.mpr ⟨_, hitems, rfl⟩

theorem value?_members {before text rest : Rest} (hbefore : Blank before)
    {members : List (String × Json)} {fuel : Nat}
    (hmembers : members? fuel [] ('"' :: text) = some (members, rest)) :
    value? (fuel + 1) ('\x7b' :: (before ++ '"' :: text)) = some (object members, rest) := by
  rw [value?, skipSpace_cons (by decide)]
  simp only [skipSpace_append hbefore]
  rw [skipSpace_cons (by decide)]
  exact Option.bind_eq_some_iff.mpr ⟨_, hmembers, rfl⟩

theorem items?_last {fuel : Nat} {text after rest : Rest} {item : Json} (hafter : Blank after)
    (hitem : value? fuel text = some (item, after ++ ']' :: rest)) (reversed : List Json) :
    items? (fuel + 1) reversed text = some (reversed.reverse ++ [item], rest) := by
  simp only [items?, hitem, skipSpace_append hafter]
  rw [skipSpace_cons (by decide), List.reverse_cons]
  rfl

theorem items?_cons {fuel : Nat} {text rest : Rest} {item : Json}
    (hitem : value? fuel text = some (item, ',' :: rest)) (reversed : List Json) :
    items? (fuel + 1) reversed text = items? fuel (item :: reversed) rest := by
  simp only [items?, hitem]
  rw [skipSpace_cons (by decide)]
  rfl

theorem members?_last {fuel : Nat} {name : String} {text after rest : Rest} {value : Json}
    (hafter : Blank after) (hvalue : value? fuel text = some (value, after ++ '\x7d' :: rest))
    (reversed : List (String × Json)) :
    members? (fuel + 1) reversed ((quote name).toList ++ ':' :: text) =
      some (reversed.reverse ++ [(name, value)], rest) := by
  rw [toList_quote, List.cons_append, List.append_assoc, members?, skipSpace_cons (by decide)]
  simp only [List.singleton_append, string?_quote]
  rw [skipSpace_cons (by decide)]
  simp only [hvalue, skipSpace_append hafter]
  rw [skipSpace_cons (by decide), List.reverse_cons]
  rfl

theorem members?_cons {fuel : Nat} {name : String} {text rest : Rest} {value : Json}
    (hvalue : value? fuel text = some (value, ',' :: rest)) (reversed : List (String × Json)) :
    members? (fuel + 1) reversed ((quote name).toList ++ ':' :: text) =
      members? fuel ((name, value) :: reversed) rest := by
  rw [toList_quote, List.cons_append, List.append_assoc, members?, skipSpace_cons (by decide)]
  simp only [List.singleton_append, string?_quote]
  rw [skipSpace_cons (by decide)]
  simp only [hvalue]
  rw [skipSpace_cons (by decide)]
  rfl

end Reader

/-! ## Every text is read back -/

/-- With that fuel every short enough text is read back. A run of items or members takes one
more step than its characters. -/
structure Inverts (fuel : Nat) : Prop where
  value : ∀ {value text rest}, Writing value text → text.length ≤ fuel → EndsNumber rest →
    Reader.value? fuel (text ++ rest) = some (value, rest)
  items : ∀ {items text after} reversed rest, WritingItems items text → text.length < fuel →
    Blank after → Reader.items? fuel reversed (text ++ (after ++ ']' :: rest)) =
      some (reversed.reverse ++ items, rest)
  members : ∀ {members text after} reversed rest, WritingMembers members text →
    text.length < fuel → Blank after →
    Reader.members? fuel reversed (text ++ (after ++ '\x7d' :: rest)) =
      some (reversed.reverse ++ members, rest)

namespace Inverts

theorem zero : Inverts 0 where
  value htext hfuel _ := by
    obtain ⟨c, rest, rfl, _⟩ := htext.exists_cons
    exact absurd hfuel (Nat.not_succ_le_zero _)
  items _ _ _ hfuel _ := absurd hfuel (Nat.not_lt_zero _)
  members _ _ _ hfuel _ := absurd hfuel (Nat.not_lt_zero _)

variable {fuel : Nat}

theorem value_succ (hfuel : Inverts fuel) {value : Json} {text : List Char} {rest : Rest}
    (htext : Writing value text) (hlength : text.length ≤ fuel + 1) (hends : EndsNumber rest) :
    Reader.value? (fuel + 1) (text ++ rest) = some (value, rest) := by
  cases htext with
  | null | noItems | noMembers => rfl
  | bool value => cases value <;> rfl
  | string value => exact Reader.value?_string value fuel rest
  | @integer value hfits =>
    obtain ⟨c, tail, htext, hc⟩ := exists_toText value
    have hnumber := Reader.number?_toText hfits hends
    rw [htext] at hnumber ⊢
    exact Reader.value?_number hc hnumber fuel
  | @items items before text after hbefore htext hafter =>
    have hitems := hfuel.items [] rest htext (by
      simp only [List.length_cons, List.length_append, List.length_nil] at hlength
      omega) hafter
    obtain ⟨c, tail, rfl, hspace, hclose⟩ := htext.exists_cons
    rw [List.cons_append] at hitems
    simp only [List.cons_append, List.append_assoc, List.nil_append]
    exact Reader.value?_items hbefore hspace hclose hitems
  | @members members before text after hbefore htext hafter =>
    have hmembers := hfuel.members [] rest htext (by
      simp only [List.length_cons, List.length_append, List.length_nil] at hlength
      omega) hafter
    obtain ⟨tail, rfl⟩ := htext.exists_cons
    rw [List.cons_append] at hmembers
    simp only [List.cons_append, List.append_assoc, List.nil_append]
    exact Reader.value?_members hbefore hmembers

theorem items_succ (hfuel : Inverts fuel) {items : List Json} {text after : List Char}
    {rest : Rest} (reversed : List Json) (htext : WritingItems items text)
    (hlength : text.length < fuel + 1) (hafter : Blank after) :
    Reader.items? (fuel + 1) reversed (text ++ (after ++ ']' :: rest)) =
      some (reversed.reverse ++ items, rest) := by
  cases htext with
  | last hitem =>
    have hends : EndsNumber (after ++ ']' :: rest) :=
      .of_blank hafter (.cons (by decide) (by decide) rest)
    exact Reader.items?_last hafter (hfuel.value hitem (by omega) hends) reversed
  | @cons item items text gap texts hitem hgap hitems =>
    rw [List.length_append, List.length_cons, List.length_append] at hlength
    have hends : EndsNumber (',' :: (gap ++ (texts ++ (after ++ ']' :: rest)))) :=
      .cons (by decide) (by decide) _
    have hvalue := hfuel.value hitem (by omega) hends
    have hrest := hfuel.items (item :: reversed) rest hitems (by omega) hafter
    rw [List.append_assoc, List.cons_append, List.append_assoc, Reader.items?_cons hvalue,
      Reader.items?_append hgap, hrest, List.reverse_cons, List.append_assoc,
      List.singleton_append]

theorem members_succ (hfuel : Inverts fuel) {members : List (String × Json)}
    {text after : List Char} {rest : Rest} (reversed : List (String × Json))
    (htext : WritingMembers members text) (hlength : text.length < fuel + 1)
    (hafter : Blank after) :
    Reader.members? (fuel + 1) reversed (text ++ (after ++ '\x7d' :: rest)) =
      some (reversed.reverse ++ members, rest) := by
  cases htext with
  | @last name value gap text hgap hvalue =>
    rw [List.length_append, List.length_cons, List.length_append] at hlength
    have hends : EndsNumber (after ++ '\x7d' :: rest) :=
      .of_blank hafter (.cons (by decide) (by decide) rest)
    have hread := hfuel.value hvalue (by omega) hends
    rw [← Reader.value?_append hgap] at hread
    rw [List.append_assoc, List.cons_append, List.append_assoc]
    exact Reader.members?_last hafter hread reversed
  | @cons name value members gap text between texts hgap hvalue hbetween hmembers =>
    simp only [List.length_append, List.length_cons] at hlength
    have hends : EndsNumber (',' :: (between ++ (texts ++ (after ++ '\x7d' :: rest)))) :=
      .cons (by decide) (by decide) _
    have hread := hfuel.value hvalue (by omega) hends
    rw [← Reader.value?_append hgap] at hread
    have hrest := hfuel.members ((name, value) :: reversed) rest hmembers (by omega) hafter
    simp only [List.append_assoc, List.cons_append]
    rw [Reader.members?_cons hread, Reader.members?_append hbetween, hrest, List.reverse_cons,
      List.append_assoc, List.singleton_append]

end Inverts

theorem inverts (fuel : Nat) : Inverts fuel := by
  induction fuel with
  | zero => exact Inverts.zero
  | succ fuel ih =>
    exact ⟨ih.value_succ, fun reversed rest ↦ ih.items_succ reversed,
      fun reversed rest ↦ ih.members_succ reversed⟩

/-- A text of a value is read as that value. -/
theorem parseChars_writing {value : Json} {text : List Char} (htext : Writing value text) :
    parseChars text = some value := by
  have hread := (inverts (2 * text.length + 2)).value htext (by omega) EndsNumber.nil
  rw [List.append_nil] at hread
  rw [parseChars, hread]
  rfl

/-! ## Writing -/

/-- The values that both writers write without loss. -/
inductive Plain : Json → Prop where
  | null : Plain null
  | bool (value : Bool) : Plain (bool value)
  | integer {value : Int} (hfits : Fits64 value) : Plain (number (.integer value))
  | string (value : String) : Plain (string value)
  | array {items : List Json} (hitems : ∀ item ∈ items, Plain item) : Plain (array items)
  | object {members : List (String × Json)} (hmembers : ∀ member ∈ members, Plain member.2) :
    Plain (object members)

theorem blank_newline (level : Nat) : Blank (newline level).toList := by
  intro c hc
  rw [newline, String.toList_ofList, List.mem_cons, List.mem_replicate] at hc
  rcases hc with rfl | ⟨_, rfl⟩ <;> decide

theorem Blank.space : Blank [' '] := by
  intro c hc
  rw [List.mem_singleton.mp hc]
  decide

theorem writingItems_indented {items : List Json} (hne : items ≠ []) {level : Nat}
    (hitems : ∀ item ∈ items, Writing item (indentedAt level item).toList) :
    WritingItems items (indentedItems level items).toList := by
  induction items with
  | nil => exact absurd rfl hne
  | cons item items ih =>
    have hitem := hitems item List.mem_cons_self
    cases items with
    | nil =>
      rw [indentedItems]
      exact .last hitem
    | cons next items =>
      have hrest := ih (List.cons_ne_nil _ _) fun item hitem ↦
        hitems item (List.mem_cons_of_mem _ hitem)
      rw [indentedItems, String.toList_append, String.toList_append, String.toList_append,
        List.append_assoc, List.append_assoc]
      · show WritingItems _ (_ ++ ',' :: ((newline level).toList ++ _))
        exact .cons hitem (blank_newline level) hrest
      · exact List.cons_ne_nil _ _

theorem writingMembers_indented {members : List (String × Json)} (hne : members ≠ []) {level : Nat}
    (hmembers : ∀ member ∈ members, Writing member.2 (indentedAt level member.2).toList) :
    WritingMembers members (indentedMembers level members).toList := by
  induction members with
  | nil => exact absurd rfl hne
  | cons member members ih =>
    have hmember := hmembers member List.mem_cons_self
    cases members with
    | nil =>
      rw [indentedMembers, String.toList_append, String.toList_append, List.append_assoc]
      show WritingMembers _ ((quote member.1).toList ++ ':' :: ([' '] ++ _))
      exact .last Blank.space hmember
    | cons next members =>
      have hrest := ih (List.cons_ne_nil _ _) fun member hmember ↦
        hmembers member (List.mem_cons_of_mem _ hmember)
      rw [indentedMembers]
      · simp only [String.toList_append, List.append_assoc]
        show WritingMembers _ ((quote member.1).toList ++
          ':' :: ([' '] ++ (_ ++ ',' :: ((newline level).toList ++ _))))
        exact .cons Blank.space hmember (blank_newline level) hrest
      · exact List.cons_ne_nil _ _

theorem Plain.writing_indentedAt {value : Json} (hvalue : Plain value) (level : Nat) :
    Writing value (indentedAt level value).toList := by
  induction hvalue generalizing level with
  | null =>
    rw [indentedAt]
    exact .null
  | bool value =>
    rw [indentedAt]
    cases value with
    | true => exact .bool true
    | false => exact .bool false
  | integer hfits =>
    rw [indentedAt]
    exact .integer hfits
  | string value =>
    rw [indentedAt]
    exact .string value
  | @array items _ ih =>
    cases items with
    | nil =>
      rw [indentedAt]
      exact .noItems
    | cons item items =>
      have hitems := writingItems_indented (List.cons_ne_nil item items)
        fun item hitem ↦ ih item hitem (level + 1)
      rw [indentedAt]
      simp only [String.toList_append, List.append_assoc]
      exact .items (blank_newline _) hitems (blank_newline _)
  | @object members _ ih =>
    cases members with
    | nil =>
      rw [indentedAt]
      exact .noMembers
    | cons member members =>
      have hmembers := writingMembers_indented (List.cons_ne_nil member members)
        fun member hmember ↦ ih member hmember (level + 1)
      rw [indentedAt]
      simp only [String.toList_append, List.append_assoc]
      exact .members (blank_newline _) hmembers (blank_newline _)

/-- The indented form of a plain value is read as that value. -/
theorem Plain.parseChars_indented {value : Json} (hvalue : Plain value) :
    parseChars value.indented.toList = some value :=
  parseChars_writing (hvalue.writing_indentedAt 0)

theorem writingItems_compact {items : List Json} (hne : items ≠ [])
    (hitems : ∀ item ∈ items, Writing item item.compact.toList) :
    WritingItems items (compactItems items).toList := by
  induction items with
  | nil => exact absurd rfl hne
  | cons item items ih =>
    have hitem := hitems item List.mem_cons_self
    cases items with
    | nil =>
      rw [compactItems]
      exact .last hitem
    | cons next items =>
      have hrest := ih (List.cons_ne_nil _ _) fun item hitem ↦
        hitems item (List.mem_cons_of_mem _ hitem)
      rw [compactItems, String.toList_append, String.toList_append, List.append_assoc]
      · exact .cons hitem .nil hrest
      · exact List.cons_ne_nil _ _

theorem writingMembers_compact {members : List (String × Json)} (hne : members ≠ [])
    (hmembers : ∀ member ∈ members, Writing member.2 member.2.compact.toList) :
    WritingMembers members (compactMembers members).toList := by
  induction members with
  | nil => exact absurd rfl hne
  | cons member members ih =>
    have hmember := hmembers member List.mem_cons_self
    cases members with
    | nil =>
      rw [compactMembers, String.toList_append, String.toList_append, List.append_assoc]
      exact .last .nil hmember
    | cons next members =>
      have hrest := ih (List.cons_ne_nil _ _) fun member hmember ↦
        hmembers member (List.mem_cons_of_mem _ hmember)
      rw [compactMembers]
      · simp only [String.toList_append, List.append_assoc]
        exact .cons .nil hmember .nil hrest
      · exact List.cons_ne_nil _ _

theorem Plain.writing_compact {value : Json} (hvalue : Plain value) :
    Writing value value.compact.toList := by
  induction hvalue with
  | null =>
    rw [compact]
    exact .null
  | bool value =>
    rw [compact]
    cases value with
    | true => exact .bool true
    | false => exact .bool false
  | integer hfits =>
    rw [compact]
    exact .integer hfits
  | string value =>
    rw [compact]
    exact .string value
  | @array items _ ih =>
    cases items with
    | nil =>
      rw [compact]
      exact .noItems
    | cons item items =>
      rw [compact, String.toList_append, String.toList_append, List.append_assoc]
      exact .items .nil (writingItems_compact (List.cons_ne_nil item items) ih) .nil
  | @object members _ ih =>
    cases members with
    | nil =>
      rw [compact]
      exact .noMembers
    | cons member members =>
      rw [compact, String.toList_append, String.toList_append, List.append_assoc]
      exact .members .nil (writingMembers_compact (List.cons_ne_nil member members) ih) .nil

/-- The compact form of a plain value is read as that value. -/
theorem Plain.parseChars_compact {value : Json} (hvalue : Plain value) :
    parseChars value.compact.toList = some value :=
  parseChars_writing hvalue.writing_compact

/-! ## Typed views -/

theorem nat?_nat {bits value : Nat} (hvalue : value < Nat.pow 2 bits) :
    (nat value).nat? bits = some value := by
  have hrange : 0 ≤ (value : Int) ∧ (value : Int).toNat < Nat.pow 2 bits :=
    ⟨Int.natCast_nonneg value, hvalue⟩
  rw [nat, nat?, if_pos hrange]
  rfl

theorem Plain.nat {value : Nat} (hvalue : value < 0x10000000000000000) : Plain (nat value) := by
  apply Plain.integer
  unfold Fits64
  omega

theorem items?_array {α : Type} {item : Json → Option α} {toJson : α → Json} {values : List α}
    (hvalues : ∀ value ∈ values, item (toJson value) = some value) :
    (array (values.map toJson)).items? item = some values := by
  rw [items?]
  induction values with
  | nil => rfl
  | cons value values ih =>
    have hrest := ih fun value hvalue ↦ hvalues value (List.mem_cons_of_mem _ hvalue)
    rw [List.map_cons, List.mapM_cons, hvalues value List.mem_cons_self, hrest]
    rfl

theorem once?_of_mem {members : List (String × Json)} (hnames : (members.map (·.1)).Nodup)
    {name : String} {value : Json} (hmember : (name, value) ∈ members) :
    once? name members = some value := by
  have hfilter : members.filter (·.1 = name) = [(name, value)] := by
    induction members with
    | nil => cases hmember
    | cons member members ih =>
      rw [List.map_cons, List.nodup_cons] at hnames
      rcases List.mem_cons.mp hmember with rfl | hrest
      · have hnone : members.filter (·.1 = name) = [] := by
          rw [List.filter_eq_nil_iff]
          intro other hother hname
          exact hnames.1 (List.mem_map.mpr ⟨other, hother, of_decide_eq_true hname⟩)
        have hself : decide ((name, value).1 = name) = true := decide_eq_true rfl
        rw [List.filter_cons, if_pos hself, hnone]
      · have hname : ¬ member.1 = name := by
          rintro rfl
          exact hnames.1 (List.mem_map.mpr ⟨_, hrest, rfl⟩)
        rw [List.filter_cons_of_neg (by simpa using hname), ih hnames.2 hrest]
  rw [once?, hfilter]

/-- The fields of an object are its members, if no name stands twice. -/
theorem fields?_object {members : List (String × Json)} (hnames : (members.map (·.1)).Nodup) :
    (object members).fields? (members.map (·.1)) = some (members.map (·.2)) := by
  have hsome : ∀ chosen : List (String × Json), (∀ member ∈ chosen, member ∈ members) →
      (chosen.map (·.1)).mapM (once? · members) = some (chosen.map (·.2)) := by
    intro chosen hchosen
    induction chosen with
    | nil => rfl
    | cons member chosen ih =>
      have honce := once?_of_mem hnames (hchosen member List.mem_cons_self)
      have hrest := ih fun member hmember ↦ hchosen member (List.mem_cons_of_mem _ hmember)
      rw [List.map_cons, List.mapM_cons, honce, hrest]
      rfl
  exact hsome members fun _ hmember ↦ hmember

end VectorIndex.Json
