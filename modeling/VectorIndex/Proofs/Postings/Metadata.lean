import VectorIndex.Postings.Metadata
import VectorIndex.Proofs.Digest.Fingerprint
import VectorIndex.Proofs.Json.RoundTrip
import VectorIndex.Proofs.Result
import VectorIndex.Proofs.Text.Utf8

/-!
# Metadata survive their file

Metadata whose numbers fit the widths of their fields are read back from the bytes that they are
written as.
-/

namespace VectorIndex

namespace Metadata

/-- Every number fits the width of its field. -/
structure FitsFields (metadata : Metadata) : Prop where
  version : metadata.version < 0x100000000
  dimension : metadata.dimension < 0x10000000000000000
  cellCount : metadata.cellCount < 0x10000000000000000
  codeSize : metadata.codeSize < 0x10000000000000000
  vectorCount : metadata.vectorCount < 0x10000000000000000
  cells : ∀ extent ∈ metadata.cells,
    extent.offset < 0x10000000000000000 ∧ extent.length < 0x10000000000000000
  partitions : ∀ extent ∈ metadata.partitions, extent.partition < 0x100000000 ∧
    extent.ids.start < 0x10000000000000000 ∧ extent.ids.length < 0x10000000000000000

/-- How many postings the extents cover. -/
def covered : List CellExtent → Nat
  | [] => 0
  | extent :: rest => extent.length + covered rest

/-- The extents count no more postings than 64 bits hold, and these take no more bytes. -/
structure IsExact (metadata : Metadata) : Prop where
  covered : covered metadata.cells < 0x10000000000000000
  data : metadata.dataLength < 0x10000000000000000

open Json (Plain fields?_object nat?_nat)
open Result (guard_ok bind_ok mapError_ok)

theorem validate_eq_ok {metadata : Metadata} :
    metadata.validate = .ok () ↔ metadata.version = formatVersion ∧
      metadata.cells.length = metadata.cellCount ∧
      checkExtents metadata.vectorCount 0 0 metadata.cells = .ok () ∧
      checkTiling (metadata.partitions.map (·.ids)) metadata.vectorCount = .ok () := by
  unfold validate
  rw [guard_ok, Decidable.not_not]
  apply and_congr_right'
  rw [guard_ok, Decidable.not_not]
  apply and_congr_right'
  rw [bind_ok]
  simp only [mapError_ok]
  exact ⟨fun ⟨(), hchecks⟩ ↦ hchecks, fun hchecks ↦ ⟨(), hchecks⟩⟩

theorem checkExtents_cons_eq_ok {count offset : Nat} {cell : CellId} {extent : CellExtent}
    {rest : List CellExtent} (hexact : offset + covered (extent :: rest) < 0x10000000000000000) :
    checkExtents count cell offset (extent :: rest) = .ok () ↔
      extent.offset = offset ∧
        checkExtents count (cell + 1) (offset + extent.length) rest = .ok () := by
  rw [covered, ← Nat.add_assoc] at hexact
  rw [checkExtents, Nat.mod_eq_of_lt (Nat.lt_of_le_of_lt (Nat.le_add_right _ _) hexact)]
  split
  · next hoffset => exact (and_iff_right hoffset).symm
  · next hoffset => exact iff_of_false nofun fun hcheck ↦ hoffset hcheck.1

/-! ## The parts -/

theorem nat?_nat_64 {value : Nat} (hvalue : value < 0x10000000000000000) :
    (Json.nat value).nat? 64 = some value := nat?_nat hvalue

theorem nat?_nat_32 {value : Nat} (hvalue : value < 0x100000000) :
    (Json.nat value).nat? 32 = some value := nat?_nat hvalue

theorem extent?_extentJson {extent : CellExtent} (hoffset : extent.offset < 0x10000000000000000)
    (hlength : extent.length < 0x10000000000000000) : extent? (extentJson extent) = some extent := by
  have hfields : (extentJson extent).fields? ["offset", "len"] =
      some [.nat extent.offset, .nat extent.length] :=
    fields?_object (show ["offset", "len"].Nodup by decide)
  simp only [extent?, hfields, nat?_nat_64 hoffset, nat?_nat_64 hlength, Option.bind_eq_bind,
    Option.bind_some]
  rfl

theorem range?_rangeJson {range : IdRange} (hstart : range.start < 0x10000000000000000)
    (hlength : range.length < 0x10000000000000000) : range? (rangeJson range) = some range := by
  have hfields : (rangeJson range).fields? ["start", "len"] =
      some [.nat range.start, .nat range.length] :=
    fields?_object (show ["start", "len"].Nodup by decide)
  simp only [range?, hfields, nat?_nat_64 hstart, nat?_nat_64 hlength, Option.bind_eq_bind,
    Option.bind_some]
  rfl

theorem partition?_partitionJson {extent : PartitionExtent}
    (hpartition : extent.partition < 0x100000000) (hstart : extent.ids.start < 0x10000000000000000)
    (hlength : extent.ids.length < 0x10000000000000000) :
    partition? (partitionJson extent) = some extent := by
  have hfields : (partitionJson extent).fields? ["partition", "ids"] =
      some [.nat extent.partition, rangeJson extent.ids] :=
    fields?_object (show ["partition", "ids"].Nodup by decide)
  simp only [partition?, hfields, nat?_nat_32 hpartition, range?_rangeJson hstart hlength,
    Option.bind_eq_bind, Option.bind_some]
  rfl

theorem fingerprint?_toHex (fingerprint : Fingerprint) :
    fingerprint? (.string fingerprint.toHex) = some fingerprint :=
  Fingerprint.ofHex?_toHex fingerprint

/-! ## The whole -/

theorem ofJson?_toJson {metadata : Metadata} (hfits : metadata.FitsFields) :
    ofJson? metadata.toJson = some metadata := by
  have hfields : metadata.toJson.fields? fieldNames =
      some [.nat metadata.version, .string metadata.dataFile,
        .string metadata.fingerprint.toHex, .nat metadata.dimension, .nat metadata.cellCount,
        .nat metadata.codeSize, .nat metadata.vectorCount,
        .array (metadata.cells.map extentJson), .array (metadata.partitions.map partitionJson),
        .string metadata.checksum.toHex, .string metadata.createdAt] :=
    fields?_object (show fieldNames.Nodup by decide)
  have hcells : (Json.array (metadata.cells.map extentJson)).items? extent? = some metadata.cells :=
    Json.items?_array fun extent hextent ↦
      extent?_extentJson (hfits.cells extent hextent).1 (hfits.cells extent hextent).2
  have hpartitions : (Json.array (metadata.partitions.map partitionJson)).items? partition? =
      some metadata.partitions :=
    Json.items?_array fun extent hextent ↦
      have hextent := hfits.partitions extent hextent
      partition?_partitionJson hextent.1 hextent.2.1 hextent.2.2
  simp only [ofJson?, hfields, hcells, hpartitions, fingerprint?_toHex, Json.string?,
    nat?_nat_32 hfits.version, nat?_nat_64 hfits.dimension, nat?_nat_64 hfits.cellCount,
    nat?_nat_64 hfits.codeSize, nat?_nat_64 hfits.vectorCount, Option.bind_eq_bind,
    Option.bind_some]
  rfl

theorem plain_extentJson {extent : CellExtent} (hoffset : extent.offset < 0x10000000000000000)
    (hlength : extent.length < 0x10000000000000000) : Plain (extentJson extent) := by
  apply Plain.object
  simp only [List.forall_mem_cons]
  exact ⟨.nat hoffset, .nat hlength, fun _ hmember ↦ by cases hmember⟩

theorem plain_partitionJson {extent : PartitionExtent} (hpartition : extent.partition < 0x100000000)
    (hstart : extent.ids.start < 0x10000000000000000)
    (hlength : extent.ids.length < 0x10000000000000000) : Plain (partitionJson extent) := by
  have hrange : Plain (rangeJson extent.ids) := by
    apply Plain.object
    simp only [List.forall_mem_cons]
    exact ⟨.nat hstart, .nat hlength, fun _ hmember ↦ by cases hmember⟩
  apply Plain.object
  simp only [List.forall_mem_cons]
  exact ⟨.nat (Nat.lt_trans hpartition (by decide)), hrange, fun _ hmember ↦ by cases hmember⟩

theorem plain_toJson {metadata : Metadata} (hfits : metadata.FitsFields) : Plain metadata.toJson := by
  have hcells : Plain (.array (metadata.cells.map extentJson)) := by
    apply Plain.array
    intro item hitem
    obtain ⟨extent, hextent, rfl⟩ := List.mem_map.mp hitem
    exact plain_extentJson (hfits.cells extent hextent).1 (hfits.cells extent hextent).2
  have hpartitions : Plain (.array (metadata.partitions.map partitionJson)) := by
    apply Plain.array
    intro item hitem
    obtain ⟨extent, hextent, rfl⟩ := List.mem_map.mp hitem
    obtain ⟨hpartition, hstart, hlength⟩ := hfits.partitions extent hextent
    exact plain_partitionJson hpartition hstart hlength
  apply Plain.object
  simp only [List.forall_mem_cons]
  exact ⟨.nat (Nat.lt_trans hfits.version (by decide)), .string _, .string _,
    .nat hfits.dimension, .nat hfits.cellCount, .nat hfits.codeSize, .nat hfits.vectorCount,
    hcells, hpartitions, .string _, .string _, fun _ hmember ↦ by cases hmember⟩

/-- Metadata are read back from their bytes. -/
theorem ofBytes_toBytes {metadata : Metadata} (hfits : metadata.FitsFields) (path : Path) :
    ofBytes path metadata.toBytes = .ok metadata := by
  rw [ofBytes, toBytes, Utf8.decodeChars_encode]
  simp only [(plain_toJson hfits).parseChars_indented, Option.bind_eq_bind, Option.bind_some,
    ofJson?_toJson hfits]

end Metadata
end VectorIndex
