import VectorIndex.Proofs.Search.Answers
import VectorIndex.Proofs.Search.Mapping

/-!
# External ids of what is found

A hit is named by the entry of the mapping at the hit's number, and by the number itself where the
mapping has no entry. After a merge that fallback is not needed: every id in the segments has been
checked against the range of its segment, the ranges tile the ids of the index, and a mapping that
is accepted has as many entries as there are ids.
-/

namespace VectorIndex

theorem ExternalHit.get?_resolve {mapping : IdMapping} {hit : SearchHit}
    (hhit : hit.id < mapping.size) :
    mapping.get? hit.id = some (ExternalHit.resolve (some mapping) hit).id := by
  have hentry : mapping.get? hit.id = some mapping.ids[hit.id] := List.getElem?_eq_getElem hhit
  simp [ExternalHit.resolve, hentry]

namespace QueryEngine

variable {engine : QueryEngine} {tree changed later : Tree} {merger : SegmentMerger}
  {metadata : Metadata} {mapping : IdMapping}

/-- A search through a mapping is a search whose hits are named. -/
theorem searchExternal_eq_ok {query : Vec} {k : Nat} {visits : Option Nat}
    {hits : List ExternalHit} :
    engine.searchExternal query k visits mapping = .ok hits ↔
      engine.checkMapping mapping = .ok () ∧ ∃ found, engine.search query k visits = .ok found ∧
        hits = found.map (ExternalHit.resolve (some mapping)) := by
  unfold searchExternal
  rw [Result.bind_ok]
  simp only [Result.bind_ok, Result.pure_ok]
  exact ⟨fun ⟨_, hmapping, found, hsearch, heq⟩ ↦ ⟨hmapping, found, hsearch, heq.symm⟩,
    fun ⟨hmapping, found, hsearch, heq⟩ ↦ ⟨(), hmapping, found, hsearch, heq.symm⟩⟩

/-- What is loaded after a merge is what was merged, and no id in it is too large. -/
theorem lt_of_mem_loaded {count probes : Nat}
    (hmerge : (merger.merge count).runOn tree = (.ok metadata, changed))
    (hsizes : ∀ size ∈ [metadata.dimension, metadata.cellCount, metadata.codeSize],
      size < 0x10000000000000000) (hexact : metadata.IsExact)
    (hload : (load merger.directory probes).runOn changed = (.ok engine, later)) :
    engine.metadata = metadata ∧
      ∀ cell, ∀ posting ∈ engine.postings cell, posting.id < metadata.vectorCount := by
  obtain ⟨-, segments, hholds, hrun⟩ := SegmentMerger.mergeInOrder_ok.mp hmerge
  obtain ⟨htiling, ⟨createdAt, rfl⟩, hpublishes⟩ := SegmentMerger.mergeSegments_ok hrun
  obtain ⟨-, hroot, -, hverified⟩ := load_ok.mp hload
  simp only [List.forall_mem_cons, List.not_mem_nil, false_imp_iff, implies_true,
    and_true] at hsizes
  obtain ⟨hdimension, hcells, hcodes⟩ := hsizes
  have hread : engine.metadata =
      merger.describe segments (merger.mergedCells segments) createdAt := by
    have hloaded := hverified.metadata
    rw [hroot, Metadata.runOn_load] at hloaded
    change (changed.read merger.metadataPath >>= _, changed) = _ at hloaded
    rw [hpublishes.read_metadata] at hloaded
    have hfits : (merger.describe segments (merger.mergedCells segments) createdAt).FitsFields :=
      SegmentMerger.fitsFields_describe_of_sizes hholds.sound htiling hexact.covered hdimension
        hcells hcodes
    exact Except.ok.inj
      ((Prod.mk.inj hloaded).1.symm.trans (Metadata.ofBytes_toBytes hfits merger.metadataPath))
  have hdata : engine.data = (merger.mergedCells segments).flatten := by
    have hname : Path.IsName engine.metadata.dataFile := hread ▸ Metadata.isName_dataFileName _
    obtain ⟨-, -, -, hheld⟩ := hverified.files hname
    rw [hroot, hread, hpublishes.data_eq] at hheld
    exact (Option.some.inj hheld).symm
  rw [← hread] at hexact
  refine ⟨hread, fun cell posting hposting ↦ ?_⟩
  have hstored := hverified.postings_subset hexact cell hposting
  have hcovered := Nat.le_of_eq (hverified.length_data_eq hexact)
  rw [hdata, hread] at hstored hcovered
  exact SegmentMerger.lt_of_mem_ids hholds.sound
    (SegmentMerger.areWhole_of_covered hholds.sound hcovered) htiling hstored

/-- After a merge of any segments a search through a mapping that has one entry for each vector is
answered like a search without one, and every hit is named by the entry at its number. The sizes of
the codebook and what the metadata count do not exceed 64 bits. -/
theorem searchExternal_after_merge {count probes : Nat}
    (hmerge : (merger.merge count).runOn tree = (.ok metadata, changed))
    (hsizes : ∀ size ∈ [metadata.dimension, metadata.cellCount, metadata.codeSize],
      size < 0x10000000000000000) (hexact : metadata.IsExact)
    (hload : (load merger.directory probes).runOn changed = (.ok engine, later))
    (hmapping : engine.checkMapping mapping = .ok ()) (query : Vec) (k : Nat)
    (visits : Option Nat) :
    (engine.codebook.quantizer.HasTable engine.metadata.dimension →
      query.length = engine.metadata.dimension →
        ∃ hits, engine.searchExternal query k visits mapping = .ok hits) ∧
    ∀ hits, engine.searchExternal query k visits mapping = .ok hits →
      (∃ found, engine.search query k visits = .ok found ∧
        hits.map (fun hit ↦ (hit.internalId, hit.distance)) =
          found.map fun hit ↦ (hit.id, hit.distance)) ∧
      ∀ hit ∈ hits, mapping.get? hit.internalId = some hit.id := by
  obtain ⟨hread, hids⟩ := lt_of_mem_loaded hmerge hsizes hexact hload
  have hsize : mapping.size = metadata.vectorCount := hread ▸ checkMapping_eq_ok.mp hmapping
  refine ⟨fun htable hquery ↦ ?_, fun hits hexternal ↦ ?_⟩
  · obtain ⟨_, -, hsearch⟩ := exists_table_of_load hload (hread ▸ hexact) htable hquery
    exact ⟨_, searchExternal_eq_ok.mpr ⟨hmapping, _, hsearch k visits, rfl⟩⟩
  · obtain ⟨-, found, hsearch, rfl⟩ := searchExternal_eq_ok.mp hexternal
    refine ⟨⟨found, hsearch, ?_⟩, fun hit hhit ↦ ?_⟩
    · rw [List.map_map]
      rfl
    · obtain ⟨best, hbest, rfl⟩ := List.mem_map.mp hhit
      obtain ⟨cell, posting, hposting, hid⟩ := exists_posting_of_search hsearch best hbest
      apply ExternalHit.get?_resolve
      rw [hsize, hid]
      exact hids cell posting hposting

/-- The two vectors of the small index are named by a mapping of two texts. -/
theorem searchExternal_after_merge_small : ∃ metadata changed engine hits,
    (SegmentMerger.merge ⟨"index", SegmentMerger.smallCodebook⟩ 1).runOn SegmentMerger.smallTree =
        (.ok metadata, changed) ∧
      (∀ size ∈ [metadata.dimension, metadata.cellCount, metadata.codeSize],
        size < 0x10000000000000000) ∧ metadata.IsExact ∧
      (load "index" 2).runOn changed = (.ok engine, changed) ∧
      engine.checkMapping ⟨[.text "a", .text "b"]⟩ = .ok () ∧
      engine.searchExternal [.one] 2 none ⟨[.text "a", .text "b"]⟩ = .ok hits ∧
      ∀ hit ∈ hits, IdMapping.get? ⟨[.text "a", .text "b"]⟩ hit.internalId = some hit.id := by
  obtain ⟨metadata, changed, hsmall, hcount⟩ := SegmentMerger.exists_small_merge
  have hmerge : (SegmentMerger.merge ⟨"index", SegmentMerger.smallCodebook⟩ 1).runOn
      SegmentMerger.smallTree = (.ok metadata, changed) := hsmall
  obtain ⟨others, createdAt', -, -, htotal, hload⟩ :=
    exists_engine_of_merge hsmall load_smallCodebook opensExactly_small (by omega) 2
  obtain ⟨-, segments, hholds, hrun⟩ := SegmentMerger.mergeInOrder_ok.mp hmerge
  obtain ⟨-, ⟨createdAt, rfl⟩, -⟩ := SegmentMerger.mergeSegments_ok hrun
  have hsizes : ∀ size ∈ [1, 2, 1], size < 0x10000000000000000 := by decide
  have hexact := isExact_small createdAt (hholds.fits (hholds.exact opensExactly_small)) hcount
  have hmapping : (ofMerge ⟨"index", SegmentMerger.smallCodebook⟩ others createdAt'
      2).checkMapping ⟨[.text "a", .text "b"]⟩ = .ok () :=
    checkMapping_eq_ok.mpr (hcount.symm.trans htotal.symm)
  obtain ⟨hanswers, hnamed⟩ :=
    searchExternal_after_merge hmerge hsizes hexact hload hmapping [.one] 2 none
  obtain ⟨hits, hsearch⟩ := hanswers hasTable_small rfl
  exact ⟨_, changed, _, hits, hmerge, hsizes, hexact, hload, hmapping, hsearch,
    (hnamed hits hsearch).2⟩

end QueryEngine
end VectorIndex
