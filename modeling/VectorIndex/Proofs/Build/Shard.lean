import VectorIndex.Build.Shard
import VectorIndex.Proofs.Postings.Draft
import VectorIndex.Proofs.Postings.Names
import VectorIndex.Proofs.Store.Sharing

/-!
# What building a partition writes

An encoder that maps every text to one vector, whatever else is in its batch, gives a partition
the same postings for every size of batches. Building publishes them as one file and touches
nothing else that has a name of its own.
-/

namespace VectorIndex

/-- Whatever batch the encoder takes, each of its texts becomes the vector that the function
gives. -/
def Encoder.Maps (encoder : Encoder) (vectorOf : String → Vec) : Prop :=
  ∀ batch vectors, encoder.embed batch = .ok vectors → vectors = batch.map vectorOf

theorem Encoder.checkVectors_eq_ok {dimension : Dimension} {partition : Option PartitionIndex}
    {position : Nat} {vectors : List Vec} :
    checkVectors dimension partition position vectors = .ok () ↔
      ∀ v ∈ vectors, dimension.checkUnitVector v = .ok () := by
  induction vectors generalizing position with
  | nil => simp [checkVectors]
  | cons v rest ih =>
    rw [checkVectors, List.forall_mem_cons]
    cases dimension.checkUnitVector v with
    | ok done => simp [ih]
    | error error => simp

theorem Encoder.checkBatch_eq_ok {dimension : Dimension} {inputs : Nat} {vectors : List Vec}
    {partition : Option PartitionIndex} :
    checkBatch dimension inputs vectors partition = .ok () ↔
      vectors.length = inputs ∧ ∀ v ∈ vectors, dimension.checkUnitVector v = .ok () := by
  unfold checkBatch
  split
  · next hlength => simp [hlength]
  · next hlength => rw [checkVectors_eq_ok, and_iff_right (Decidable.not_not.mp hlength)]

/-- An encoded batch is what the encoder embeds, one unit vector for each text. -/
theorem Encoder.encodeBatch_eq_ok {encoder : Encoder} {batch : List String}
    {partition : Option PartitionIndex} {vectors : List Vec} :
    encoder.encodeBatch batch partition = .ok vectors ↔
      encoder.embed batch = .ok vectors ∧ vectors.length = batch.length ∧
        ∀ v ∈ vectors, encoder.dimension.checkUnitVector v = .ok () := by
  rw [← @checkBatch_eq_ok _ _ _ partition]
  unfold encodeBatch
  cases encoder.embed batch with
  | error fault => cases fault <;> simp
  | ok embedded =>
    dsimp only
    rw [Except.ok.injEq]
    cases hcheck : checkBatch encoder.dimension batch.length embedded partition with
    | ok done =>
      rw [Except.ok.injEq]
      exact ⟨fun h ↦ ⟨h, h ▸ hcheck⟩, And.left⟩
    | error error =>
      refine ⟨nofun, ?_⟩
      rintro ⟨rfl, hok⟩
      cases hcheck.symm.trans hok

theorem Encoder.Maps.encodeBatch_ok {encoder : Encoder} {vectorOf : String → Vec}
    (hmaps : encoder.Maps vectorOf) {batch : List String} {partition : Option PartitionIndex}
    {vectors : List Vec} (hencode : encoder.encodeBatch batch partition = .ok vectors) :
    vectors = batch.map vectorOf :=
  hmaps batch vectors (encodeBatch_eq_ok.mp hencode).1

/-- The encoder makes of the batch the vectors, one unit vector for each text. -/
structure Encoder.Encodes (encoder : Encoder) (batch : List String) (vectors : List Vec) :
    Prop where
  embed_eq : encoder.embed batch = .ok vectors
  length_eq : vectors.length = batch.length
  isUnit : ∀ v ∈ vectors, encoder.dimension.checkUnitVector v = .ok ()

theorem Encoder.length_flatten_of_encodes {encoder : Encoder} {batches : List (List String)}
    {encoded : List (List Vec)} (hencodes : List.Forall₂ encoder.Encodes batches encoded) :
    encoded.flatten.length = batches.flatten.length := by
  induction hencodes with
  | nil => rfl
  | cons hbatch hrest ih =>
    rw [List.flatten_cons, List.flatten_cons, List.length_append, List.length_append,
      hbatch.length_eq, ih]

/-- An encoder that maps texts to vectors gives the vectors of all the texts. -/
theorem Encoder.Maps.flatten_eq {encoder : Encoder} {vectorOf : String → Vec}
    (hmaps : encoder.Maps vectorOf) {batches : List (List String)} {encoded : List (List Vec)}
    (hencodes : List.Forall₂ encoder.Encodes batches encoded) :
    encoded.flatten = batches.flatten.map vectorOf := by
  induction hencodes with
  | nil => rfl
  | cons hbatch hrest ih =>
    rw [List.flatten_cons, List.flatten_cons, List.map_append, ih,
      hmaps _ _ hbatch.embed_eq]

/-- The bytes of a cell for vectors whose ids start at `base`: the id and the code of each vector
that the codebook assigns to the cell. -/
def Codebook.entries (codebook : Codebook) (base : DocumentId) (vectors : List Vec)
    (cell : CellId) : Bytes :=
  (vectors.zipIdx base).flatMap fun (v, id) ↦
    let (assigned, code) := codebook.encode v
    if assigned = cell then Bytes.littleEndian 8 id ++ code else []

theorem Codebook.entries_append (codebook : Codebook) (base : DocumentId) (first second : List Vec)
    (cell : CellId) : codebook.entries base (first ++ second) cell =
      codebook.entries base first cell ++
        codebook.entries (base + first.length) second cell := by
  unfold entries
  rw [List.zipIdx_append, List.flatMap_append]

theorem Codebook.length_code (codebook : Codebook) (v : Vec) :
    (codebook.encode v).2.length = codebook.codeSize := by
  simp [encode, Quantizer.encode, codeSize, Quantizer.codeSize]

namespace Shard

/-! ## Encoding -/

theorem place_append (codebook : Codebook) (next : DocumentId) (first second : List Vec) :
    place codebook next (first ++ second) =
      place codebook next first ++ place codebook (next + first.length) second := by
  induction first generalizing next with
  | nil => rfl
  | cons v rest ih =>
    calc place codebook next (v :: rest ++ second)
      _ = place codebook next [v] ++ place codebook (next + 1) (rest ++ second) := rfl
      _ = place codebook next [v] ++ (place codebook (next + 1) rest ++
          place codebook (next + 1 + rest.length) second) := by rw [ih]
      _ = place codebook next (v :: rest) ++
          place codebook (next + (v :: rest).length) second := by
        rw [List.length_cons, Nat.add_assoc, Nat.add_comm 1]
        rfl

/-- Batches that are encoded are placed one after the other. -/
theorem exists_encodes_of_encodeBatches {codebook : Codebook} {encoder : Encoder}
    {partition : PartitionIndex} {next : DocumentId} {batches : List (List String)}
    {pushes : List (CellId × Posting)}
    (hencode : encodeBatches codebook encoder partition next batches = .ok pushes) :
    ∃ encoded, List.Forall₂ encoder.Encodes batches encoded ∧
      pushes = place codebook next encoded.flatten := by
  induction batches generalizing next pushes with
  | nil =>
    obtain rfl := Except.ok.inj hencode
    exact ⟨[], .nil, rfl⟩
  | cons batch rest ih =>
    rw [encodeBatches] at hencode
    cases hbatch : encoder.encodeBatch batch (some partition) with
    | error interruption => simp [hbatch] at hencode
    | ok vectors =>
      cases hrest : encodeBatches codebook encoder partition (next + vectors.length) rest with
      | error interruption => simp [hbatch, hrest, Except.map] at hencode
      | ok later =>
        simp only [hbatch, hrest, Except.map, Except.ok.injEq] at hencode
        obtain ⟨encoded, hencoded, rfl⟩ := ih hrest
        obtain ⟨hembed, hlength, hunit⟩ := Encoder.encodeBatch_eq_ok.mp hbatch
        refine ⟨vectors :: encoded, .cons ⟨hembed, hlength, hunit⟩ hencoded, ?_⟩
        rw [← hencode, List.flatten_cons, place_append]

/-- What is encoded batch by batch is placed at once. -/
theorem exists_encodes_of_encode {codebook : Codebook} {encoder : Encoder} {batchSize : Nat}
    {partition : Partition} {pushes : List (CellId × Posting)}
    (hencode : encode codebook encoder batchSize partition = .ok pushes) :
    ∃ encoded, List.Forall₂ encoder.Encodes (chunks batchSize partition.items) encoded ∧
      pushes = place codebook partition.base encoded.flatten := by
  unfold encode at hencode
  split at hencode
  · cases hencode
  · exact exists_encodes_of_encodeBatches hencode

/-- The postings of a partition are placed from its base on. -/
theorem exists_of_encode {codebook : Codebook} {encoder : Encoder} {batchSize : Nat}
    {partition : Partition} {pushes : List (CellId × Posting)}
    (hencode : encode codebook encoder batchSize partition = .ok pushes) :
    ∃ vectors, pushes = place codebook partition.base vectors ∧
      vectors.length = partition.items.length ∧
        ∀ vectorOf, encoder.Maps vectorOf → vectors = partition.items.map vectorOf := by
  obtain ⟨encoded, hencodes, rfl⟩ := exists_encodes_of_encode hencode
  refine ⟨encoded.flatten, rfl, ?_, fun vectorOf hmaps ↦ ?_⟩
  · rw [Encoder.length_flatten_of_encodes hencodes, flatten_chunks]
  · rw [hmaps.flatten_eq hencodes, flatten_chunks]

/-- The postings of a partition do not depend on the size of the batches. -/
theorem encode_ok {codebook : Codebook} {encoder : Encoder} {vectorOf : String → Vec}
    (hmaps : encoder.Maps vectorOf) {batchSize : Nat} {partition : Partition}
    {pushes : List (CellId × Posting)}
    (hencode : encode codebook encoder batchSize partition = .ok pushes) :
    pushes = place codebook partition.base (partition.items.map vectorOf) := by
  obtain ⟨vectors, rfl, -, hmapped⟩ := exists_of_encode hencode
  rw [hmapped vectorOf hmaps]

/-! ## The segment of a partition -/

def draft (codebook : Codebook) (partition : Partition) (pushes : List (CellId × Posting)) :
    SegmentDraft :=
  { SegmentDraft.start partition.index partition.base codebook with pushes }

theorem length_code_of_mem_place {codebook : Codebook} {next : DocumentId} {vectors : List Vec}
    {push : CellId × Posting} (hpush : push ∈ place codebook next vectors) :
    push.2.code.length = codebook.codeSize := by
  induction vectors generalizing next with
  | nil => cases hpush
  | cons v rest ih =>
    rw [place] at hpush
    rcases List.mem_cons.mp hpush with rfl | hpush
    · exact codebook.length_code v
    · exact ih hpush

/-- A cell of the draft holds the entries of the vectors of the partition. -/
theorem postings_draft (codebook : Codebook) (partition : Partition) (next : DocumentId)
    (vectors : List Vec) (cell : CellId) :
    ((draft codebook partition (place codebook next vectors)).postings cell).flatMap
      Posting.toBytes = codebook.entries next vectors cell := by
  unfold SegmentDraft.postings draft Codebook.entries
  induction vectors generalizing next with
  | nil => rfl
  | cons v rest ih =>
    rw [place, List.zipIdx_cons, List.flatMap_cons, ← ih (next + 1)]
    by_cases hcell : (codebook.encode v).1 = cell
    · simp [hcell, Posting.toBytes, Posting.idSize]
    · simp [hcell]

/-- The bytes of the segment that an encoder makes of a partition, if it encodes every item. -/
def segmentBytes? (codebook : Codebook) (encoder : Encoder) (batchSize : Nat)
    (partition : Partition) : Option Bytes :=
  (encode codebook encoder batchSize partition).toOption.map fun pushes ↦
    (draft codebook partition pushes).toBytes

/-- A segment that was built holds in every cell the entries of the partition's vectors. -/
theorem cellBytes_of_segmentBytes? {codebook : Codebook} {encoder : Encoder}
    {vectorOf : String → Vec} (hmaps : encoder.Maps vectorOf) {batchSize : Nat}
    {partition : Partition} {contents : Bytes}
    (hcontents : segmentBytes? codebook encoder batchSize partition = some contents) {path : Path}
    {segment : Segment} (hopen : Segment.ofBytes path contents = .ok segment)
    (hcells : segment.cellCount = codebook.cellCount)
    (hsize : segment.codeSize = codebook.codeSize) {cell : CellId}
    (hcell : cell < codebook.cellCount) :
    segment.cellBytes cell =
      codebook.entries partition.base (partition.items.map vectorOf) cell := by
  unfold segmentBytes? at hcontents
  cases hencode : encode codebook encoder batchSize partition with
  | error interruption => simp [hencode, Except.toOption] at hcontents
  | ok pushes =>
    simp only [hencode, Except.toOption, Option.map_some, Option.some.injEq] at hcontents
    obtain rfl := encode_ok hmaps hencode
    subst hcontents
    rw [← postings_draft codebook partition]
    exact SegmentDraft.cellBytes_of_ofBytes hopen hcells hsize
      (fun push hpush ↦ length_code_of_mem_place hpush) hcell

/-- The counts of a segment that was built do not overflow. -/
theorem isExact_of_segmentBytes? {codebook : Codebook} {encoder : Encoder} {batchSize : Nat}
    {partition : Partition} {contents : Bytes}
    (hcontents : segmentBytes? codebook encoder batchSize partition = some contents) {path : Path}
    {segment : Segment} (hopen : Segment.ofBytes path contents = .ok segment)
    (hcells : segment.cellCount = codebook.cellCount)
    (hsize : segment.codeSize = codebook.codeSize) : segment.IsExact := by
  obtain ⟨pushes, hpushes, rfl⟩ := Option.map_eq_some_iff.mp hcontents
  obtain ⟨vectors, rfl, -⟩ := exists_of_encode (Result.toOption_eq_some.mp hpushes)
  exact SegmentDraft.isExact_of_ofBytes hopen hcells hsize
    fun push hpush ↦ length_code_of_mem_place hpush

/-! ## What building does to the store -/

/-- The discipline of building a partition: to publish its segment. -/
def discipline (directory : Path) (partition : Partition) (contents : Bytes) :
    Discipline Publication :=
  Publication.discipline (Location.ofDirectory directory) (segmentName partition.index) contents

/-- Building keeps the discipline for what the encoder makes of the partition, and when it succeeds
the segment is published. -/
theorem build_keeps (codebook : Codebook) (directory : Path) (encoder : Encoder)
    (batchSize : Nat) (partition : Partition) :
    ∃ contents, (build codebook directory encoder batchSize partition).Keeps
      (discipline directory partition contents) (fun result last ↦ ∀ summary,
        result = .ok summary → last = .published ∧
          segmentBytes? codebook encoder batchSize partition = some contents) .waiting := by
  unfold build segmentBytes?
  cases encode codebook encoder batchSize partition with
  | error interruption => exact ⟨[], fun _ hok ↦ nomatch hok⟩
  | ok pushes =>
    have hfinish : IndexProgram.Keeps (discipline directory partition
        (draft codebook partition pushes).toBytes) (fun _ last ↦ last = .published)
        (fun _ ↦ True) ((draft codebook partition pushes).finish
          (segmentPath directory partition.index)) .waiting := by
      unfold SegmentDraft.finish
      apply IndexProgram.keeps_bind
      rw [segmentPath_eq_join]
      refine IndexProgram.keeps_imp
        (Publication.publishFile_keeps (isName_segmentName partition.index)) ?_ fun _ h ↦ h
      exact fun _ last hlast ↦ IndexProgram.keeps_pure hlast
    refine ⟨_, StoreProgram.Keeps.bind (StoreProgram.Keeps.imp hfinish ?_)⟩
    intro result last hresult summary hok
    cases result with
    | ok value => exact ⟨hresult, rfl⟩
    | error error => cases hok

theorem exists?_onlyReads (path : Path) : (IndexProgram.exists? path).OnlyReads :=
  ⟨fun _ ↦ rfl, fun _ ↦ trivial⟩

theorem open_onlyReads (path : Path) : (Segment.open path).attempt.OnlyReads := by
  refine ⟨fun _ ↦ rfl, fun answer ↦ ?_⟩
  cases answer with
  | error fault => trivial
  | ok source =>
    cases source with
    | file contents => trivial
    | directory => trivial

theorem reusable?_onlyReads (codebook : Codebook) (directory : Path) (partition : Partition) :
    IndexProgram.OnlyReads (reusable? codebook directory partition) := by
  unfold reusable?
  have hpresent := IndexProgram.onlyReads_lift
    (exists?_onlyReads (segmentPath directory partition.index))
  refine IndexProgram.onlyReads_bind hpresent fun present ↦ ?_
  cases present with
  | false => trivial
  | true =>
    have hopen := IndexProgram.onlyReads_lift
      (open_onlyReads (segmentPath directory partition.index))
    refine IndexProgram.onlyReads_bind hopen fun result ↦ ?_
    cases result with
    | error error => trivial
    | ok segment => exact IndexProgram.onlyReads_ofExcept _

end Shard

end VectorIndex
