import VectorIndex.Proofs.Corpus.Mapping
import VectorIndex.Proofs.Json.Range
import VectorIndex.Proofs.Json.RoundTrip
import VectorIndex.Proofs.Text.Utf8

/-!
# Mappings that are read back

The id that a record is given, by its line or by its number, is one that its JSON holds without
loss, so the mapping of a corpus is what is loaded from its file.
-/

namespace VectorIndex

/-! ## Ids in JSON -/

/-- The id is read back from its JSON. -/
def ExternalId.Fits (id : ExternalId) : Prop := ofJson? id.toJson = some id

theorem ExternalId.fits_number {value : Int}
    (hvalue : -0x8000000000000000 ≤ value ∧ value < 0x8000000000000000) : (number value).Fits :=
  if_pos hvalue

theorem ExternalId.Fits.plain {id : ExternalId} (hfits : id.Fits) : Json.Plain id.toJson := by
  cases id with
  | text value => exact .string value
  | number value =>
    apply Json.Plain.integer
    unfold Fits ofJson? toJson at hfits
    dsimp only at hfits
    split at hfits
    · next hrange =>
      unfold Json.Reader.Fits64
      omega
    · cases hfits

namespace Corpus

/-! ## Ids of records -/

variable {corpus : Corpus} {tree : Tree} {records : List Record}

theorem fits_of_idOf {before : Nat} (hbefore : before < 0x8000000000000000) {given : Option Json}
    (hgiven : ∀ whole, given = some (.number (.integer whole)) → Json.Reader.Fits64 whole)
    {id : ExternalId} (hid : idOf before given = .ok id) : id.Fits := by
  unfold idOf at hid
  split at hid
  · obtain rfl := Except.ok.inj hid
    rfl
  · next whole =>
    obtain rfl := Except.ok.inj hid
    have hwhole := hgiven whole rfl
    unfold Json.Reader.Fits64 at hwhole
    split
    · next hlt => exact ExternalId.fits_number ⟨hwhole.1, hlt⟩
    · rfl
  · obtain rfl := Except.ok.inj hid
    rfl
  · cases hid
  · obtain rfl := Except.ok.inj hid
    exact ExternalId.fits_number (by omega)

theorem fits_of_parse {line before : Nat} (hbefore : before < 0x8000000000000000) {text : String}
    {record : Record} (hparse : corpus.parse line before text = .ok record) :
    record.externalId.Fits := by
  unfold parse at hparse
  split at hparse
  · cases hparse
  · next value hvalue =>
    split at hparse
    · split at hparse
      · next id hid =>
        obtain rfl := Except.ok.inj hparse
        exact fits_of_idOf hbefore (fun whole ↦ Json.fits64_of_member? hvalue) hid
      · cases hparse
    · cases hparse

/-- The ids of records are read back from their JSON. Records that are named by their number are
numbered in 63 bits. -/
theorem Lists.fits (hlists : corpus.Lists tree records)
    (hlength : records.length ≤ 0x8000000000000000) :
    ∀ record ∈ records, record.externalId.Fits := by
  obtain ⟨contents, -, hrecords⟩ := hlists
  obtain ⟨hfilled, hparsed⟩ := recordsFrom_ok hrecords
  intro record hrecord
  obtain ⟨position, hposition, rfl⟩ := List.getElem_of_mem hrecord
  obtain ⟨number, hparse⟩ := hparsed position _ _ (List.getElem?_eq_getElem (hfilled ▸ hposition))
    (List.getElem?_eq_getElem hposition)
  exact fits_of_parse (by omega) hparse

end Corpus

namespace IdMapping

/-! ## The file of a mapping -/

variable {mapping : IdMapping}

/-- A mapping is read back from its bytes. -/
theorem ofBytes?_encode (hfits : ∀ id ∈ mapping.ids, id.Fits) :
    ofBytes? (Utf8.encode mapping.toJson.compact) = some mapping := by
  have hplain : Json.Plain mapping.toJson := by
    apply Json.Plain.array
    intro item hitem
    obtain ⟨id, hid, rfl⟩ := List.mem_map.mp hitem
    exact (hfits id hid).plain
  unfold ofBytes?
  rw [Utf8.decodeChars_encode]
  show (Json.parseChars _).bind ofJson? = _
  rw [hplain.parseChars_compact]
  show (mapping.toJson.items? ExternalId.ofJson?).map mk = _
  rw [toJson, Json.items?_array hfits]
  rfl

/-- A mapping is loaded from a file that holds one, and from no other. -/
theorem load_ok {tree changed : Tree} {path : Path} :
    (load path).runOn tree = (.ok mapping, changed) ↔ changed = tree ∧
      ∃ contents, tree.read path = .ok contents ∧ ofBytes? contents = some mapping := by
  unfold load
  rw [IndexProgram.perform_check_bind_ok]
  constructor
  · rintro ⟨source, hsource, hrun⟩
    cases source with
    | directory => cases hrun
    | file contents =>
      dsimp only [Source.read] at hrun
      cases hfound : ofBytes? contents with
      | none =>
        rw [hfound] at hrun
        cases hrun
      | some found =>
        rw [hfound] at hrun
        obtain ⟨rfl, rfl⟩ := IndexProgram.runOn_pure_ok.mp hrun
        exact ⟨rfl, contents, Tree.fetch_eq_ok.mp hsource, hfound⟩
  · rintro ⟨rfl, contents, hread, hcontents⟩
    refine ⟨.file contents, Tree.fetch_eq_ok.mpr hread, ?_⟩
    dsimp only [Source.read]
    rw [hcontents]
    rfl

end IdMapping
end VectorIndex
