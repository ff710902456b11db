import VectorIndex.Build.Layout
import VectorIndex.Proofs.Digest.Fingerprint
import VectorIndex.Proofs.Store.Path

/-!
# The names of the artifacts

Every artifact of an index has a name that stands for itself, and no two artifacts share one:
segments differ by their numbers, and the kinds of artifacts by how their names begin or end.
-/

namespace VectorIndex

theorem Path.isName_of_length {name : String} (hlength : 2 < name.length)
    (hslash : '/' ∉ name.toList) : Path.IsName name := by
  have hne : ∀ other : String, other.length < 3 → name ≠ other := by
    rintro other hother rfl
    omega
  exact ⟨hne _ (by decide), hne _ (by decide), hne _ (by decide), hslash⟩

/-! ## Segments -/

def segmentName (partition : PartitionIndex) : String := s!"segment_{partition}.seg"

theorem segmentPath_eq_join (directory : Path) (partition : PartitionIndex) :
    segmentPath directory partition = Path.join directory (segmentName partition) := rfl

theorem toList_segmentName (partition : PartitionIndex) :
    (segmentName partition).toList =
      "segment_".toList ++ (Nat.toDigits 10 partition ++ ".seg".toList) := by
  show ("segment_" ++ Nat.repr partition ++ ".seg").toList = _
  rw [String.toList_append, String.toList_append, Nat.toList_repr, List.append_assoc]

theorem slash_not_mem_toDigits (n : Nat) : '/' ∉ Nat.toDigits 10 n := by
  intro hslash
  have hdigit := Nat.isDigit_of_mem_toDigits (by decide) (by decide) hslash
  exact absurd hdigit (by decide)

theorem isName_segmentName (partition : PartitionIndex) : Path.IsName (segmentName partition) := by
  apply Path.isName_of_length
  · rw [← String.length_toList, toList_segmentName, List.length_append]
    exact Nat.lt_of_lt_of_le (by decide) (Nat.le_add_right _ _)
  · rw [toList_segmentName, List.mem_append, List.mem_append]
    rintro (hslash | hslash | hslash)
    · exact absurd hslash (by decide)
    · exact slash_not_mem_toDigits partition hslash
    · exact absurd hslash (by decide)

theorem segmentName_injective {first second : PartitionIndex}
    (hname : segmentName first = segmentName second) : first = second := by
  have hchars := congrArg String.toList hname
  rw [toList_segmentName, toList_segmentName] at hchars
  have hdigits := List.append_cancel_right (List.append_cancel_left hchars)
  have hvalue : ∀ n, Nat.ofDigitChars 10 (Nat.toDigits 10 n) 0 = n := fun n ↦
    Nat.ofDigitChars_toDigits (by decide) (by decide)
  rw [← hvalue first, hdigits, hvalue]

theorem head_segmentName (partition : PartitionIndex) :
    (segmentName partition).toList.head? ≠ some '.' := by
  rw [toList_segmentName]
  exact nofun

theorem segmentName_ne (partition : PartitionIndex) {name : String}
    (hhead : name.toList.head? ≠ some 's') : segmentName partition ≠ name := by
  rintro rfl
  rw [toList_segmentName] at hhead
  exact hhead rfl

/-- No segment is named as data files are. -/
theorem not_dataSuffix_segmentName (partition : PartitionIndex) :
    ¬ Metadata.dataSuffix.toList <:+ (segmentName partition).toList := by
  rintro ⟨front, hending⟩
  have hlast := congrArg List.getLast? hending
  rw [toList_segmentName, ← List.append_assoc, List.getLast?_append, List.getLast?_append,
    show Metadata.dataSuffix.toList.getLast? = some 'a' by decide,
    show ".seg".toList.getLast? = some 'g' by decide] at hlast
  cases hlast

/-! ## Metadata and merged data -/

namespace Metadata

theorem isName_fileName : Path.IsName fileName :=
  Path.isName_of_length (by decide) (by decide)

theorem toList_dataFileName (checksum : Fingerprint) :
    (dataFileName checksum).toList =
      dataPrefix.toList ++ checksum.toHex.toList ++ dataSuffix.toList := by
  unfold dataFileName
  rw [String.toList_append, String.toList_append]

theorem isName_dataFileName (checksum : Fingerprint) : Path.IsName (dataFileName checksum) := by
  apply Path.isName_of_length
  · rw [← String.length_toList, toList_dataFileName, List.length_append, List.length_append,
      Nat.add_assoc]
    exact Nat.lt_of_lt_of_le (by decide) (Nat.le_add_right _ _)
  · rw [toList_dataFileName, List.mem_append, List.mem_append]
    rintro ((hslash | hslash) | hslash)
    · exact absurd hslash (by decide)
    · unfold Fingerprint.toHex Bytes.toHex at hslash
      rw [String.toList_ofList, List.mem_flatMap] at hslash
      obtain ⟨byte, -, hdigit⟩ := hslash
      simp only [Bytes.hexPair, Bytes.hexDigit, List.mem_cons, List.not_mem_nil, or_false] at hdigit
      rcases hdigit with hdigit | hdigit
      · exact Nat.digitChar_ne '/' (by decide) hdigit.symm
      · exact Nat.digitChar_ne '/' (by decide) hdigit.symm
    · exact absurd hslash (by decide)

theorem dataFileName_ne_fileName (checksum : Fingerprint) : dataFileName checksum ≠ fileName := by
  intro heq
  have hchar := congrArg (fun name : String ↦ name.toList[6]?) heq
  simp only [toList_dataFileName, List.append_assoc] at hchar
  rw [List.getElem?_append_left (by decide)] at hchar
  exact absurd hchar (by decide)

/-- The name tells the digest. -/
theorem dataFileName_injective {first second : Fingerprint}
    (heq : dataFileName first = dataFileName second) : first = second := by
  have hchars := congrArg String.toList heq
  rw [toList_dataFileName, toList_dataFileName] at hchars
  exact Fingerprint.toHex_injective
    (String.toList_inj.mp (List.append_cancel_left (List.append_cancel_right hchars)))

theorem head_dataFileName (checksum : Fingerprint) :
    (dataFileName checksum).toList.head? = some 'm' := by
  rw [toList_dataFileName]
  rfl

theorem ne_dataFileName {name : String} (hhead : name.toList.head? ≠ some 'm')
    (checksum : Fingerprint) : name ≠ dataFileName checksum := by
  rintro rfl
  exact hhead (head_dataFileName checksum)

end Metadata

namespace Layout

theorem isName_codebookFile : Path.IsName codebookFile :=
  Path.isName_of_length (by decide) (by decide)

theorem isName_mappingFile : Path.IsName mappingFile :=
  Path.isName_of_length (by decide) (by decide)

theorem not_dataSuffix_codebookFile : ¬ Metadata.dataSuffix.toList <:+ codebookFile.toList :=
  fun hending ↦ absurd (List.isSuffixOf_iff_suffix.mpr hending) (by decide)

theorem not_dataSuffix_mappingFile : ¬ Metadata.dataSuffix.toList <:+ mappingFile.toList :=
  fun hending ↦ absurd (List.isSuffixOf_iff_suffix.mpr hending) (by decide)

theorem isDataName_dataFileName (checksum : Fingerprint) :
    isDataName (Metadata.dataFileName checksum) = true := by
  rw [isDataName, Bool.and_eq_true, List.isPrefixOf_iff_prefix, List.isSuffixOf_iff_suffix,
    Metadata.toList_dataFileName]
  exact ⟨⟨_, (List.append_assoc ..).symm⟩, List.suffix_append ..⟩

theorem head_of_isDataName {name : String} (hname : isDataName name = true) :
    name.toList.head? = some 'm' := by
  rw [isDataName, Bool.and_eq_true, List.isPrefixOf_iff_prefix] at hname
  obtain ⟨rest, hrest⟩ := hname.1
  rw [← hrest]
  rfl

/-- The path of a data file found in a directory ends with a name that ends as data files do. -/
theorem fileName_of_isDataName (directory : Path) {name : String} (hname : isDataName name = true) :
    Path.endsWithSlash (Path.join directory name) = false ∧
      Metadata.dataSuffix.toList <:+ (Path.fileName (Path.join directory name)).toList ∧
      Path.IsName (Path.fileName (Path.join directory name)) := by
  have hsuffix : Metadata.dataSuffix.toList <:+ name.toList := by
    rw [isDataName, Bool.and_eq_true] at hname
    exact List.isSuffixOf_iff_suffix.mp hname.2
  obtain ⟨hslash, hending⟩ := Path.suffix_fileName (hsuffix.trans (Path.suffix_join directory name))
    (by decide) (by decide)
  refine ⟨hslash, hending, Path.isName_of_length ?_ ?_⟩
  · have hlength := hending.length_le
    rw [String.length_toList] at hlength
    exact Nat.lt_of_lt_of_le (by decide) hlength
  · exact Path.slash_not_mem_fileName _

end Layout
end VectorIndex
