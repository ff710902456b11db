import VectorIndex.Proofs.Build.Contents
import VectorIndex.Proofs.Codebook.Codewords

/-!
# The documents of an index

The data of an index hold one posting for each vector: the one with the id and the code of the
vector. When they are read back, every id below the number of vectors is found once.
-/

namespace VectorIndex

/-! ## Cells -/

/-- A vector belongs to one of the cells, if there are any. -/
theorem Codebook.encode_fst_lt {codebook : Codebook} (hne : codebook.centroids ≠ []) (v : Vec) :
    (codebook.encode v).1 < codebook.cellCount :=
  firstBest_map_lt hne

/-- One of the numbers below `count` is the key. -/
theorem flatMap_range_eq_singleton {α : Type} {key count : Nat} (hkey : key < count) (item : α) :
    ((List.range count).flatMap fun number ↦ if key = number then [item] else []) = [item] := by
  induction count with
  | zero => cases hkey
  | succ count ih =>
    rw [List.range_succ, List.flatMap_append, List.flatMap_singleton]
    by_cases hlast : key = count
    · have hbefore : ((List.range count).flatMap fun number ↦
          if key = number then [item] else []) = [] := by
        rw [List.flatMap_eq_nil_iff]
        intro number hnumber
        rw [List.mem_range] at hnumber
        exact if_neg (by omega)
      rw [hbefore, if_pos hlast, List.nil_append]
    · rw [ih (by omega), if_neg hlast, List.append_nil]

/-- The items of all keys, key after key, are the items in another order. -/
theorem flatMap_filter_perm {α : Type} {key : α → Nat} {count : Nat} {items : List α}
    (hkeys : ∀ item ∈ items, key item < count) :
    ((List.range count).flatMap fun number ↦ items.filter (key · = number)).Perm items := by
  induction items with
  | nil => simp
  | cons item rest ih =>
    obtain ⟨hitem, hrest⟩ := List.forall_mem_cons.mp hkeys
    have hcons : ∀ number, (item :: rest).filter (key · = number) =
        (if key item = number then [item] else []) ++ rest.filter (key · = number) := by
      intro number
      by_cases hnumber : key item = number
      · rw [List.filter_cons_of_pos (by simpa using hnumber), if_pos hnumber,
          List.singleton_append]
      · rw [List.filter_cons_of_neg (by simpa using hnumber), if_neg hnumber, List.nil_append]
    simp only [hcons]
    refine (List.flatMap_append_perm _ _ _).symm.trans ?_
    rw [flatMap_range_eq_singleton hitem]
    exact (ih hrest).cons item

/-! ## Postings -/

theorem Posting.ofBytes_toBytes {posting : Posting} (hid : posting.id < 0x10000000000000000) :
    ofBytes posting.toBytes = posting := by
  have hlength := Bytes.length_littleEndian idSize posting.id
  unfold ofBytes toBytes
  rw [List.take_left' hlength, List.drop_left' hlength, Bytes.toNat_littleEndian]
  exact congrArg (mk · posting.code) (Nat.mod_eq_of_lt hid)

/-- Postings are read back from their bytes. -/
theorem Posting.split_flatMap_toBytes {codeSize : Nat} {postings : List Posting}
    (hcodes : ∀ posting ∈ postings, posting.code.length = codeSize)
    (hids : ∀ posting ∈ postings, posting.id < 0x10000000000000000) :
    split codeSize (postings.flatMap toBytes) = postings := by
  have hpieces : ∀ piece ∈ postings.map toBytes, piece.length = size codeSize := by
    intro piece hpiece
    obtain ⟨posting, hposting, rfl⟩ := List.mem_map.mp hpiece
    rw [length_toBytes, hcodes posting hposting]
  have hdvd : size codeSize ∣ (postings.flatMap toBytes).length :=
    ⟨_, (length_flatMap_toBytes hcodes).trans (Nat.mul_comm _ _)⟩
  rw [split_eq_map hdvd, List.flatMap_def, chunks_flatten (size_pos codeSize) hpieces,
    List.map_map]
  nth_rewrite 2 [← List.map_id postings]
  exact List.map_congr_left fun posting hposting ↦ ofBytes_toBytes (hids posting hposting)

namespace Shard

variable (codebook : Codebook)

/-- Every vector is placed in its cell, under the next id. -/
theorem place_eq_map_zipIdx (next : DocumentId) (vectors : List Vec) :
    place codebook next vectors = (vectors.zipIdx next).map fun (v, id) ↦
      ((codebook.encode v).1, ⟨id, (codebook.encode v).2⟩) := by
  induction vectors generalizing next with
  | nil => rfl
  | cons v rest ih => rw [place, ih, List.zipIdx_cons, List.map_cons]

/-- The ids of placed vectors follow on each other. -/
theorem map_id_place (next : DocumentId) (vectors : List Vec) :
    (place codebook next vectors).map (·.2.id) = List.range' next vectors.length := by
  rw [place_eq_map_zipIdx, List.map_map]
  exact List.zipIdx_map_snd next vectors

theorem fst_lt_of_mem_place {codebook : Codebook} (hne : codebook.centroids ≠ [])
    {next : DocumentId} {vectors : List Vec} :
    ∀ push ∈ place codebook next vectors, push.1 < codebook.cellCount := by
  intro push hpush
  rw [place_eq_map_zipIdx] at hpush
  obtain ⟨⟨v, id⟩, -, rfl⟩ := List.mem_map.mp hpush
  exact Codebook.encode_fst_lt hne v

/-- The entries of a cell are the bytes of the postings that are placed in it. -/
theorem flatMap_toBytes_place (next : DocumentId) (vectors : List Vec) (cell : CellId) :
    ((place codebook next vectors).filter (·.1 = cell)).flatMap (·.2.toBytes) =
      codebook.entries next vectors cell := by
  have hpostings := postings_draft codebook ⟨0, next, []⟩ next vectors cell
  unfold SegmentDraft.postings draft at hpostings
  rw [List.flatMap_map] at hpostings
  exact hpostings

end Shard

namespace Codebook

variable {codebook : Codebook} (hne : codebook.centroids ≠ []) {vectors : List Vec}

/-- The postings of an index of vectors, as its data hold them. -/
def postings (codebook : Codebook) (vectors : List Vec) : List Posting :=
  (List.range codebook.cellCount).flatMap fun cell ↦
    ((Shard.place codebook 0 vectors).filter (·.1 = cell)).map (·.2)

theorem flatMap_toBytes_postings (codebook : Codebook) (vectors : List Vec) :
    (codebook.postings vectors).flatMap Posting.toBytes = codebook.indexData vectors := by
  unfold postings indexData
  rw [List.flatMap_assoc]
  apply List.flatMap_congr
  intro cell _
  rw [List.flatMap_map]
  exact Shard.flatMap_toBytes_place codebook 0 vectors cell

include hne

/-- Every vector has one posting. -/
theorem postings_perm :
    (codebook.postings vectors).Perm ((Shard.place codebook 0 vectors).map (·.2)) := by
  unfold postings
  rw [← List.map_flatMap]
  exact (flatMap_filter_perm (Shard.fst_lt_of_mem_place hne)).map _

theorem map_id_postings_perm :
    ((codebook.postings vectors).map (·.id)).Perm (List.range vectors.length) := by
  have hids : ((codebook.postings vectors).map (·.id)).Perm
      (((Shard.place codebook 0 vectors).map (·.2)).map (·.id)) := (postings_perm hne).map _
  rw [List.map_map] at hids
  rw [List.range_eq_range', ← Shard.map_id_place codebook]
  exact hids

/-- The posting of a vector has its id and its code. -/
theorem mem_postings {id : DocumentId} {v : Vec} (hv : vectors[id]? = some v) :
    ⟨id, (codebook.encode v).2⟩ ∈ codebook.postings vectors := by
  rw [(postings_perm hne).mem_iff, Shard.place_eq_map_zipIdx, List.map_map]
  refine List.mem_map.mpr ⟨(v, id), ?_, rfl⟩
  rw [List.mem_zipIdx_iff_getElem?]
  exact hv

theorem length_code_of_mem_postings :
    ∀ posting ∈ codebook.postings vectors, posting.code.length = codebook.codeSize := by
  intro posting hposting
  rw [(postings_perm hne).mem_iff] at hposting
  obtain ⟨push, hpush, rfl⟩ := List.mem_map.mp hposting
  exact Shard.length_code_of_mem_place hpush

theorem length_indexData : (codebook.indexData vectors).length =
    vectors.length * Posting.size codebook.codeSize := by
  have hlength : ((codebook.postings vectors).map (·.id)).length =
      (List.range vectors.length).length := (map_id_postings_perm hne).length_eq
  rw [List.length_map, List.length_range] at hlength
  rw [← flatMap_toBytes_postings,
    Posting.length_flatMap_toBytes (length_code_of_mem_postings hne), hlength]

/-- The postings are read back from the data of an index. Ids have 64 bits. -/
theorem split_indexData (hids : vectors.length ≤ 0x10000000000000000) :
    Posting.split codebook.codeSize (codebook.indexData vectors) = codebook.postings vectors := by
  rw [← flatMap_toBytes_postings]
  apply Posting.split_flatMap_toBytes (length_code_of_mem_postings hne)
  intro posting hposting
  have hid := (map_id_postings_perm hne).mem_iff.mp (List.mem_map_of_mem hposting)
  exact Nat.lt_of_lt_of_le (List.mem_range.mp hid) hids

end Codebook
end VectorIndex
