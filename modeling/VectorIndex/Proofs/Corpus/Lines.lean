import VectorIndex.Proofs.Corpus.Mapping

/-!
# What the lines of a corpus yield

A pass yields one item for every line that is not blank, in the order of the lines. A line that is
no text is reported and the pass goes on behind it, but it is not counted: each later item has the
number of its line, and of the items before it, less the number of such lines in front.
-/

namespace VectorIndex

/-! ## Lines of a file -/

namespace Text

/-- A line without a carriage return at its end. -/
def dropReturn (line : Bytes) : Bytes :=
  match line.reverse with
  | 13 :: rest => rest.reverse
  | _ => line

/-- Lines are what the line feeds of a file end, less a carriage return, and what follows the last
line feed, unless that is nothing. -/
def AreLines (bytes : Bytes) (lines : List Bytes) : Prop :=
  ∃ (ended : List Bytes) (tail : Bytes), (∀ line ∈ ended, 10 ∉ line) ∧ 10 ∉ tail ∧
    bytes = ended.flatMap (· ++ [10]) ++ tail ∧
    lines = ended.map dropReturn ++ if tail = [] then [] else [tail]

theorem stripEnd_append_feed (line : Bytes) : stripEnd (line ++ [10]) = dropReturn line := by
  unfold stripEnd dropReturn
  rw [List.reverse_append, List.reverse_singleton, List.singleton_append]
  split
  · next rest heq =>
    rw [List.cons.injEq] at heq
    simp only [heq.2]
  · next rest hother heq =>
    rw [List.cons.injEq] at heq
    split
    · next later hreturn => exact absurd (hreturn ▸ heq.2.symm) (hother later)
    · rw [← heq.2, List.reverse_reverse]
  · next hother => exact absurd rfl (hother _)

theorem stripEnd_of_no_feed {line : Bytes} (hline : 10 ∉ line) : stripEnd line = line := by
  unfold stripEnd
  split
  · next heq => exact absurd (List.mem_reverse.mp (heq ▸ List.mem_cons_self)) hline
  · next heq => exact absurd (List.mem_reverse.mp (heq ▸ List.mem_cons_self)) hline
  · rfl

theorem exists_go (bytes : Bytes) {reversed : Bytes} (hreversed : 10 ∉ reversed) :
    ∃ (ended : List Bytes) (tail : Bytes), (∀ line ∈ ended, 10 ∉ line) ∧ 10 ∉ tail ∧
      reversed.reverse ++ bytes = ended.flatMap (· ++ [10]) ++ tail ∧
      splitLines.go reversed bytes = ended.map (· ++ [10]) ++ if tail = [] then [] else [tail] := by
  induction bytes generalizing reversed with
  | nil =>
    refine ⟨[], reversed.reverse, nofun, by simpa using hreversed, by simp, ?_⟩
    simp [splitLines.go]
  | cons byte rest ih =>
    rw [splitLines.go]
    by_cases hfeed : byte = 10
    · subst hfeed
      obtain ⟨ended, tail, hended, htail, hrest, hgo⟩ := ih List.not_mem_nil
      refine ⟨reversed.reverse :: ended, tail, ?_, htail, ?_, ?_⟩
      · exact List.forall_mem_cons.mpr ⟨by simpa using hreversed, hended⟩
      · rw [List.flatMap_cons, List.append_assoc, List.append_assoc, ← hrest]
        rfl
      · rw [if_pos rfl, hgo, List.reverse_cons]
        rfl
    · obtain ⟨ended, tail, hended, htail, hrest, hgo⟩ :=
        ih (List.not_mem_cons_of_ne_of_not_mem (Ne.symm hfeed) hreversed)
      refine ⟨ended, tail, hended, htail, ?_, ?_⟩
      · rw [← hrest, List.reverse_cons, List.append_assoc]
        rfl
      · rw [if_neg hfeed, hgo]

theorem areLines_lines (bytes : Bytes) : AreLines bytes (lines bytes) := by
  obtain ⟨ended, tail, hended, htail, hbytes, hgo⟩ := exists_go bytes List.not_mem_nil
  refine ⟨ended, tail, hended, htail, hbytes, ?_⟩
  have hstrip : stripEnd ∘ (· ++ [10]) = dropReturn := funext stripEnd_append_feed
  rw [lines, splitLines, hgo, List.map_append, List.map_map, hstrip]
  split
  · rfl
  · rw [List.map_singleton, stripEnd_of_no_feed htail]

end Text

namespace Corpus

open Text (AreLines areLines_lines)

/-! ## Counting lines -/

/-- A line that is no text. -/
def isUnreadable (line : Bytes) : Bool := (Utf8.decodeChars line).isNone

/-- A line for which a pass yields an item: one that is no text, or is not blank. -/
def isYielding (line : Bytes) : Bool :=
  match Utf8.decodeChars line with
  | none => true
  | some text => !(Text.trim text).isEmpty

theorem isYielding_of_isUnreadable {line : Bytes} (hline : isUnreadable line = true) :
    isYielding line = true := by
  unfold isUnreadable isYielding at *
  rw [Option.isNone_iff_eq_none.mp hline]

theorem countP_isUnreadable_le (lines : List Bytes) :
    lines.countP isUnreadable ≤ lines.countP isYielding :=
  List.countP_mono_left fun _ _ ↦ isYielding_of_isUnreadable

/-- What a line yields that has some lines and some records counted before it. -/
def itemOf (corpus : Corpus) (line before : Nat) (bytes : Bytes) : Except IndexError Record :=
  match Utf8.decodeChars bytes with
  | none => .error (.fileRead corpus.path .notUtf8)
  | some text => corpus.parse (line + 1) before (String.ofList text)

section

variable {corpus : Corpus} {bytes : Bytes} (rest : List Bytes) (line before : Nat)

theorem recordsFrom_unreadable (hunreadable : isUnreadable bytes = true) :
    corpus.recordsFrom (bytes :: rest) line before =
      corpus.itemOf line before bytes :: corpus.recordsFrom rest line before := by
  rw [recordsFrom, itemOf, Option.isNone_iff_eq_none.mp hunreadable]

theorem recordsFrom_blank (hyielding : isYielding bytes = false) :
    corpus.recordsFrom (bytes :: rest) line before = corpus.recordsFrom rest (line + 1) before := by
  unfold isYielding at hyielding
  rw [recordsFrom]
  cases hdecode : Utf8.decodeChars bytes with
  | none =>
    rw [hdecode] at hyielding
    cases hyielding
  | some text =>
    simp only [hdecode, Bool.not_eq_false'] at hyielding
    simp only [hyielding, if_true]

theorem recordsFrom_text (hyielding : isYielding bytes = true)
    (hunreadable : isUnreadable bytes = false) :
    corpus.recordsFrom (bytes :: rest) line before =
      corpus.itemOf line before bytes :: corpus.recordsFrom rest (line + 1) (before + 1) := by
  unfold isYielding at hyielding
  unfold isUnreadable at hunreadable
  rw [recordsFrom, itemOf]
  cases hdecode : Utf8.decodeChars bytes with
  | none =>
    rw [hdecode] at hunreadable
    cases hunreadable
  | some text =>
    simp only [hdecode, Bool.not_eq_true'] at hyielding
    simp only [hyielding, Bool.false_eq_true, if_false]

end

variable {corpus : Corpus}

theorem length_recordsFrom (lines : List Bytes) (line before : Nat) :
    (corpus.recordsFrom lines line before).length = lines.countP isYielding := by
  induction lines generalizing line before with
  | nil => rfl
  | cons bytes rest ih =>
    cases hyielding : isYielding bytes with
    | false =>
      rw [recordsFrom_blank rest line before hyielding, ih,
        List.countP_cons_of_neg (by simp [hyielding])]
    | true =>
      rw [List.countP_cons_of_pos hyielding]
      cases hunreadable : isUnreadable bytes with
      | true => rw [recordsFrom_unreadable rest line before hunreadable, List.length_cons, ih]
      | false => rw [recordsFrom_text rest line before hyielding hunreadable, List.length_cons, ih]

/-- Behind some lines a pass goes on with what it has counted of them: all lines but those that are
no text, and as many records as items but those for such lines. -/
theorem drop_recordsFrom (front rest : List Bytes) (line before : Nat) :
    (corpus.recordsFrom (front ++ rest) line before).drop (front.countP isYielding) =
      corpus.recordsFrom rest (line + (front.length - front.countP isUnreadable))
        (before + (front.countP isYielding - front.countP isUnreadable)) := by
  induction front generalizing line before with
  | nil => rfl
  | cons bytes front ih =>
    have hlength : front.countP isUnreadable ≤ front.length := List.countP_le_length
    have hyields := countP_isUnreadable_le front
    cases hyielding : isYielding bytes with
    | false =>
      have hreadable : isUnreadable bytes = false := by
        rw [← Bool.not_eq_true]
        intro hunreadable
        exact absurd (isYielding_of_isUnreadable hunreadable) (by simp [hyielding])
      rw [List.cons_append, recordsFrom_blank _ line before hyielding,
        List.countP_cons_of_neg (by simp [hyielding]),
        List.countP_cons_of_neg (by simp [hreadable]), ih, List.length_cons]
      congr 1
      omega
    | true =>
      rw [List.countP_cons_of_pos hyielding, List.cons_append, List.length_cons]
      cases hunreadable : isUnreadable bytes with
      | true =>
        rw [recordsFrom_unreadable _ line before hunreadable, List.drop_succ_cons, ih,
          List.countP_cons_of_pos hunreadable, Nat.add_sub_add_right, Nat.add_sub_add_right]
      | false =>
        rw [recordsFrom_text _ line before hyielding hunreadable, List.drop_succ_cons, ih,
          List.countP_cons_of_neg (by simp [hunreadable])]
        congr 1
        · omega
        · omega

/-- The item for a line that yields one comes after those of the lines in front. -/
theorem getElem?_recordsFrom (corpus : Corpus) (front : List Bytes) {bytes : Bytes}
    (rest : List Bytes) (line before : Nat) (hyielding : isYielding bytes = true) :
    (corpus.recordsFrom (front ++ bytes :: rest) line before)[front.countP isYielding]? =
      some (corpus.itemOf (line + (front.length - front.countP isUnreadable))
        (before + (front.countP isYielding - front.countP isUnreadable)) bytes) := by
  rw [← List.head?_drop, drop_recordsFrom]
  cases hunreadable : isUnreadable bytes with
  | true => rw [recordsFrom_unreadable _ _ _ hunreadable, List.head?_cons]
  | false => rw [recordsFrom_text _ _ _ hyielding hunreadable, List.head?_cons]

/-! ## Errors and numbers -/

/-- Whatever is wrong with a line, the error has the number of the line. -/
theorem exists_of_parse_error {line before : Nat} {text : String} {error : IndexError}
    (herror : corpus.parse line before text = .error error) :
    ∃ detail : String, error = .serialization corpus.path s!"line {line}: {detail}" := by
  unfold parse at herror
  repeat' split at herror
  all_goals cases herror
  all_goals exact ⟨_, rfl⟩

/-- A record has the text of its field, and the id that its object names or lets it have. -/
theorem exists_of_parse_ok {line before : Nat} {text : String} {record : Record}
    (hrecord : corpus.parse line before text = .ok record) :
    ∃ value, Json.parseValue text = some value ∧
      value.member? corpus.textField = some (.string record.text) ∧
      idOf before (value.member? corpus.idField) = .ok record.externalId := by
  unfold parse at hrecord
  split at hrecord
  · cases hrecord
  · next value hvalue =>
    split at hrecord
    · next body hbody =>
      split at hrecord
      · next id hid =>
        obtain rfl := Except.ok.inj hrecord
        exact ⟨value, hvalue, hbody, hid⟩
      · cases hrecord
    · cases hrecord

/-! ## A whole pass -/

theorem runOn_records_of_read {tree : Tree} {contents : Bytes}
    (hread : tree.read corpus.path = .ok contents) :
    corpus.records.runOn tree = (.ok (.ofList (corpus.recordsOf contents)), tree) := by
  unfold records
  rw [IndexProgram.runOn_bind, IndexProgram.runOn_perform, Tree.fetch_eq_ok.mpr hread]
  rfl

/-- A pass yields one item for each line that is not blank, in order. A line that is no text cannot
be read, and the pass goes on. The number that the error of any other line shows is that of the
line, and a record without an id is named by the number of items before it, but neither number
counts the lines in front that are no text. -/
theorem records_of_read {tree : Tree} {contents : Bytes}
    (hread : tree.read corpus.path = .ok contents) :
    ∃ items, corpus.records.runOn tree = (.ok (.ofList items), tree) ∧
      AreLines contents (Text.lines contents) ∧
      items.length = (Text.lines contents).countP isYielding ∧
      ∀ front bytes rest, Text.lines contents = front ++ bytes :: rest →
        isYielding bytes = true → ∃ item, items[front.countP isYielding]? = some item ∧
          match Utf8.decodeChars bytes with
          | none => item = .error (.fileRead corpus.path .notUtf8)
          | some text =>
            (∀ error, item = .error error → ∃ detail : String, error = .serialization corpus.path
              s!"line {front.length + 1 - front.countP isUnreadable}: {detail}") ∧
            ∀ record, item = .ok record → ∃ value,
              Json.parseValue (String.ofList text) = some value ∧
              value.member? corpus.textField = some (.string record.text) ∧
              (value.member? corpus.idField = none → record.externalId =
                .number ↑(front.countP isYielding - front.countP isUnreadable)) := by
  refine ⟨corpus.recordsOf contents, runOn_records_of_read hread, areLines_lines contents,
    length_recordsFrom _ 0 0, fun front bytes rest hlines hyielding ↦ ?_⟩
  have hitem := getElem?_recordsFrom corpus front rest 0 0 hyielding
  rw [← hlines, Nat.zero_add, Nat.zero_add] at hitem
  refine ⟨_, hitem, ?_⟩
  have hlength : front.countP isUnreadable ≤ front.length := List.countP_le_length
  unfold itemOf
  cases Utf8.decodeChars bytes with
  | none => rfl
  | some text =>
    dsimp only
    rw [← Nat.sub_add_comm hlength]
    refine ⟨fun error ↦ exists_of_parse_error, fun record hrecord ↦ ?_⟩
    obtain ⟨value, hvalue, hbody, hid⟩ := exists_of_parse_ok hrecord
    refine ⟨value, hvalue, hbody, fun hnone ↦ ?_⟩
    rw [hnone] at hid
    exact (Except.ok.inj hid).symm

def mixedLines : List Bytes :=
  [[0xff], Utf8.encode "\x7b\"id\": 2\x7d", Utf8.encode "\x7b\"code\": \"x\"\x7d"]

/-- A line that is no text, one without the field of the text, and one without an id. -/
def mixedTree : Tree := ⟨[(["c.jsonl"], .file (mixedLines.flatMap (· ++ [10])) 0)], 0⟩

theorem records_of_read_mixed : ∃ items,
    (Corpus.mk "c.jsonl" "code" "id").records.runOn mixedTree =
        (.ok (.ofList items), mixedTree) ∧
      items.length = 3 ∧ items[0]? = some (.error (.fileRead "c.jsonl" .notUtf8)) ∧
      (∃ detail : String,
        items[1]? = some (.error (.serialization "c.jsonl" s!"line 1: {detail}"))) ∧
      ∃ record, items[2]? = some (.ok record) ∧ record.externalId = .number 1 := by
  have hread : mixedTree.read "c.jsonl" = .ok (mixedLines.flatMap (· ++ [10])) :=
    Tree.read_ok.mpr ⟨0, by decide +kernel⟩
  have hlines : Text.lines (mixedLines.flatMap (· ++ [10])) = mixedLines := by decide +kernel
  obtain ⟨items, hrun, -, hlength, hitems⟩ :=
    records_of_read (show mixedTree.read (Corpus.mk "c.jsonl" "code" "id").path = _ from hread)
  rw [hlines] at hlength hitems
  obtain rfl : items = (Corpus.mk "c.jsonl" "code" "id").recordsOf
      (mixedLines.flatMap (· ++ [10])) := by
    have hsame := hrun.symm.trans (runOn_records_of_read hread)
    simp only [Prod.mk.injEq, Except.ok.injEq, Pass.ofList, Pass.mk.injEq] at hsame
    exact hsame.1.1
  have hok : ((Corpus.mk "c.jsonl" "code" "id").recordsOf
      (mixedLines.flatMap (· ++ [10]))).map (·.isOk) = [false, false, true] := by decide +kernel
  generalize (Corpus.mk "c.jsonl" "code" "id").recordsOf _ = items at *
  obtain ⟨first, hfirst, hunreadable⟩ := hitems [] [0xff] _ rfl (by decide +kernel)
  obtain ⟨second, hsecond, hline⟩ := hitems (mixedLines.take 1) _ _ rfl (by decide +kernel)
  obtain ⟨third, hthird, hnumber⟩ := hitems (mixedLines.take 2) _ _ rfl (by decide +kernel)
  rw [show Utf8.decodeChars [0xff] = none by decide +kernel] at hunreadable
  rw [show Utf8.decodeChars (Utf8.encode "\x7b\"id\": 2\x7d") =
    some "\x7b\"id\": 2\x7d".toList by decide +kernel] at hline
  rw [show Utf8.decodeChars (Utf8.encode "\x7b\"code\": \"x\"\x7d") =
    some "\x7b\"code\": \"x\"\x7d".toList by decide +kernel] at hnumber
  rw [show (mixedLines.take 1).length + 1 - (mixedLines.take 1).countP isUnreadable = 1
    by decide +kernel] at hline
  rw [show (mixedLines.take 2).countP isYielding - (mixedLines.take 2).countP isUnreadable = 1
    by decide +kernel] at hnumber
  rw [show (mixedLines.take 1).countP isYielding = 1 by decide +kernel] at hsecond
  rw [show (mixedLines.take 2).countP isYielding = 2 by decide +kernel] at hthird
  have hbad := congrArg (·[1]?) hok
  have hgood := congrArg (·[2]?) hok
  simp only [List.getElem?_map, hsecond, hthird] at hbad hgood
  refine ⟨items, hrun, hlength.trans (by decide +kernel),
    hfirst.trans (congrArg some hunreadable), ?_, ?_⟩
  · cases second with
    | ok record => cases hbad
    | error error =>
      obtain ⟨detail, rfl⟩ := hline.1 error rfl
      exact ⟨detail, hsecond⟩
  · cases third with
    | error error => cases hgood
    | ok record =>
      obtain ⟨value, hvalue, -, hid⟩ := hnumber.2 record rfl
      have hparsed : (Json.parseValue (String.ofList "\x7b\"code\": \"x\"\x7d".toList)).map
          (fun value ↦ (value.member? "id").isNone) = some true := by decide +kernel
      rw [hvalue, Option.map_some, Option.some.injEq, Option.isNone_iff_eq_none] at hparsed
      exact ⟨record, hthird, hid hparsed⟩

end Corpus
end VectorIndex
