import VectorIndex.Proofs.Build.Stages
import VectorIndex.Proofs.Codebook.RoundTrip
import VectorIndex.Proofs.Codebook.Trainability
import VectorIndex.Proofs.Store.Beside

/-!
# Training again

A codebook that is found is kept when the five numbers that it was recorded with are those that
training would record now. Training also depends on how many points a cell needs at least and on
how many turns its clusterings may take, and neither is recorded. These two settings are all that
can make a difference between a codebook that is kept and one that is trained anew.
-/

namespace VectorIndex

open IndexProgram (runOn_bind_ok runOn_ofExcept_ok runOn_pure_ok)
open Result (bind_ok)

/-! ## Encoders that look at one text at a time -/

/-- A batch is embedded when each of its texts has a vector, whatever else is in the batch, and
then to these vectors. -/
def Encoder.Embeds (encoder : Encoder) (vector? : String → Option Vec) : Prop :=
  ∀ batch vectors, encoder.embed batch = .ok vectors ↔ batch.map vector? = vectors.map some

theorem Encoder.embeds_hashed (dimension : Dimension) :
    (Encoder.hashed dimension).Embeds fun text ↦ some (Encoder.hashedVector dimension text) := by
  intro batch vectors
  show _ ↔ batch.map (some ∘ hashedVector dimension) = _
  rw [← List.map_map, List.map_inj_right fun _ _ ↦ Option.some.inj]
  exact ⟨Except.ok.inj, congrArg Except.ok⟩

/-- Every worker gets this encoder, and making it leaves the store as it is. -/
def EncoderFactory.Makes (factory : EncoderFactory) (encoder : Encoder) : Prop :=
  ∀ worker tree, (factory worker).runOn tree = (.ok encoder, tree)

theorem Encoder.Embeds.encodeSample_eq_ok {encoder : Encoder} {vector? : String → Option Vec}
    (hembeds : encoder.Embeds vector?) {batches : List (List String)} {vectors : List Vec} :
    Pipeline.encodeSample encoder batches = .ok vectors ↔
      batches.flatten.map vector? = vectors.map some ∧
        ∀ v ∈ vectors, encoder.dimension.checkUnitVector v = .ok () := by
  induction batches generalizing vectors with
  | nil => cases vectors <;> simp [Pipeline.encodeSample]
  | cons batch rest ih =>
    have hstep : Pipeline.encodeSample encoder (batch :: rest) = .ok vectors ↔
        ∃ first later, encoder.encodeBatch batch none = .ok first ∧
          Pipeline.encodeSample encoder rest = .ok later ∧ first ++ later = vectors := by
      rw [Pipeline.encodeSample]
      cases encoder.encodeBatch batch none with
      | error interruption => simp
      | ok first =>
        cases Pipeline.encodeSample encoder rest with
        | error error => simp [Except.map]
        | ok later => simp [Except.map]
    rw [hstep, List.flatten_cons, List.map_append]
    constructor
    · rintro ⟨first, later, hfirst, hlater, rfl⟩
      obtain ⟨hembed, -, hunit⟩ := encodeBatch_eq_ok.mp hfirst
      obtain ⟨hvectors, hrest⟩ := ih.mp hlater
      rw [(hembeds _ _).mp hembed, hvectors, ← List.map_append]
      exact ⟨rfl, List.forall_mem_append.mpr ⟨hunit, hrest⟩⟩
    · rintro ⟨hvectors, hunit⟩
      obtain ⟨first, later, rfl, hfirst, hlater⟩ := List.map_eq_append_iff.mp hvectors.symm
      obtain ⟨hunit_first, hunit_later⟩ := List.forall_mem_append.mp hunit
      have hlength := congrArg List.length hfirst
      rw [List.length_map, List.length_map] at hlength
      exact ⟨first, later, encodeBatch_eq_ok.mpr ⟨(hembeds _ _).mpr hfirst.symm, hlength,
        hunit_first⟩, ih.mpr ⟨hlater.symm, hunit_later⟩, rfl⟩

theorem Encoder.Embeds.length_encodeSample {encoder : Encoder} {vector? : String → Option Vec}
    (hembeds : encoder.Embeds vector?) {size : Nat} {texts : List String} {vectors : List Vec}
    (hencode : Pipeline.encodeSample encoder (chunks size texts) = .ok vectors) :
    vectors.length = texts.length := by
  have hvectors := (hembeds.encodeSample_eq_ok.mp hencode).1
  rw [flatten_chunks] at hvectors
  simpa using (congrArg List.length hvectors).symm

/-- The sample does not depend on the size of the batches. -/
theorem Encoder.Embeds.encodeSample_chunks {encoder : Encoder} {vector? : String → Option Vec}
    (hembeds : encoder.Embeds vector?) {size : Nat} {texts : List String} {vectors : List Vec}
    (hencode : Pipeline.encodeSample encoder (chunks size texts) = .ok vectors) (other : Nat) :
    Pipeline.encodeSample encoder (chunks other texts) = .ok vectors := by
  rw [hembeds.encodeSample_eq_ok, flatten_chunks] at hencode ⊢
  exact hencode

/-! ## What training depends on -/

theorem kmeans_congr {first second : Nat} (hturns : max 1 first = max 1 second) (metric : Metric)
    (k : Nat) (seed : UInt64) (vectors : List Vec) :
    kmeans metric k seed first vectors = kmeans metric k seed second vectors := by
  unfold kmeans
  rw [hturns]

theorem Quantizer.train_congr {first second : Nat} (hturns : max 1 first = max 1 second)
    (residuals : List Vec) (subspaces bits : Nat) (seed : UInt64) :
    train residuals subspaces bits seed first = train residuals subspaces bits seed second := by
  unfold train
  simp only [kmeans_congr hturns]

/-- The settings agree in all that is recorded in a codebook. They may still differ in the points
that a cell needs and in the turns of a clustering. -/
structure TrainingSettings.RecordsAs (settings other : TrainingSettings) : Prop where
  cells : settings.cells = other.cells
  subspaces : settings.subspaces = other.subspaces
  bitsPerSubspace : settings.bitsPerSubspace = other.bitsPerSubspace
  seed : settings.seed = other.seed

theorem TrainingSettings.RecordsAs.params_eq {settings other : TrainingSettings}
    (hrecords : settings.RecordsAs other) (samples : Nat) :
    settings.params samples = other.params samples := by
  unfold params
  rw [hrecords.cells, hrecords.subspaces, hrecords.bitsPerSubspace, hrecords.seed]

namespace Codebook

variable {first second : TrainingSettings} {sample : List Vec} {codebook other : Codebook}

/-- Settings that agree in what is recorded and in the turns of a clustering train the same codebook
on a sample that is enough for both. -/
theorem train_of_recordsAs (hrecords : second.RecordsAs first)
    (hturns : max 1 second.maxIterations = max 1 first.maxIterations)
    (hlength : second.requiredSamples ≤ sample.length)
    (htrain : train first sample = .ok codebook) : train second sample = .ok codebook := by
  obtain ⟨dimension, coarse, quantizer, henough, hshape, hdimension, hsample, hcoarse, hcells,
    hquantizer, hparts⟩ := train_eq_ok.mp htrain
  rw [← kmeans_congr hturns] at hcoarse
  rw [← Quantizer.train_congr hturns] at hquantizer
  rw [train_eq_ok, hrecords.params_eq, hrecords.cells, hrecords.subspaces,
    hrecords.bitsPerSubspace, hrecords.seed]
  exact ⟨dimension, coarse, quantizer, Nat.max_le.mpr ⟨hlength, (Nat.max_le.mp henough).2⟩, hshape,
    hdimension, hsample, hcoarse, hcells, hquantizer, hparts⟩

/-- The file of a trained codebook gives that codebook or nothing. Its seed and the number of its
samples are numbers of 64 bits; that everything else fits its field shows in the header. -/
theorem eq_of_ofBytes_train (htrain : train first sample = .ok codebook)
    (hseed : first.seed < 0x10000000000000000) (hsamples : sample.length < 0x10000000000000000)
    (hread : ofBytes codebook.toBytes = .ok other) : other = codebook := by
  obtain ⟨hmade, -⟩ := train_ok htrain
  obtain ⟨hdimension, hcentroids, hquantizer⟩ :=
    parts_of_ofBytes hmade codebook.drop_toBytes hread
  obtain ⟨hdimension_lt, hcount_lt, hsize_lt⟩ := shape_lt_of_ofBytes hread
  have hpayload := (isIn_of_ofBytes hread).length_payload
  rw [drop_toBytes] at hpayload
  rw [hdimension] at hdimension_lt
  rw [cellCount, hcentroids] at hcount_lt
  rw [codeSize, hquantizer] at hsize_lt
  obtain ⟨_, coarse, quantizer, -, hshape, -, -, -, -, -, hparts⟩ := train_eq_ok.mp htrain
  obtain ⟨-, -, hpositive, rfl⟩ := ofParts_eq_ok.mp hparts
  obtain ⟨-, -, -, -, hbits⟩ := Quantizer.checkShape_ok hshape
  have hparams : (first.params sample.length).FitsFields :=
    ⟨Nat.mod_lt _ (by decide), Nat.mod_lt _ (by decide), Nat.lt_of_le_of_lt hbits (by decide),
      hseed, hsamples⟩
  have hfits := ofBytes_toBytes hmade hpositive
    ⟨hdimension_lt, hcount_lt, hsize_lt, hparams, hpayload ▸ Bytes.natAt_lt _ 24 8⟩
  exact Except.ok.inj (hread.symm.trans hfits)

end Codebook

/-- A directory that holds nothing. If it is not there yet, no file is in its way. -/
structure Tree.IsEmptyAt (tree : Tree) (directory : Location) : Prop where
  above : ∀ count, tree.files (directory.take count) = none
  within : ∀ name, tree.find? (directory ++ [name]) = none

namespace Pipeline

variable {pipeline : Pipeline} {encoder : Encoder} {texts : Pass (Except IndexError String)}
  {head : List String} {codebook : Codebook} {last : Progress} {tree changed : Tree}

/-! ## What is made before it is written -/

/-- The codebook that is trained on the texts. -/
def codebookOf (pipeline : Pipeline) (encoder : Encoder) (texts : List String) :
    Except IndexError Codebook := do
  pipeline.settings.validateForDimension encoder.dimension.size
  let sample ← encodeSample encoder (chunks pipeline.settings.build.batchSize texts)
  Codebook.train pipeline.settings.training sample

theorem codebookOf_eq_ok : pipeline.codebookOf encoder head = .ok codebook ↔
    pipeline.settings.validateForDimension encoder.dimension.size = .ok () ∧ ∃ sample,
      encodeSample encoder (chunks pipeline.settings.build.batchSize head) = .ok sample ∧
        Codebook.train pipeline.settings.training sample = .ok codebook := by
  unfold codebookOf
  simp only [bind_ok]
  exact ⟨fun ⟨_, hvalid, hrest⟩ ↦ ⟨hvalid, hrest⟩, fun ⟨hvalid, hrest⟩ ↦ ⟨(), hvalid, hrest⟩⟩

section

variable (hmakes : pipeline.factory.Makes encoder)
include hmakes

theorem runOn_trainOn (head : List String) (tree : Tree) : (pipeline.trainOn head).runOn tree =
    (IndexProgram.ofExcept (pipeline.codebookOf encoder head) >>= fun codebook ↦
      codebook.save pipeline.layout.codebook >>= fun _ ↦
        (pure codebook : IndexProgram Codebook)).runOn tree := by
  unfold trainOn codebookOf Codebook.trainAndSave
  rw [IndexProgram.runOn_bind, hmakes, IndexProgram.runOn_bind]
  dsimp only
  rw [IndexProgram.runOn_bind, IndexProgram.runOn_ofExcept, IndexProgram.runOn_ofExcept]
  cases pipeline.settings.validateForDimension encoder.dimension.size with
  | error error => rfl
  | ok done =>
    dsimp only
    rw [IndexProgram.runOn_bind, IndexProgram.runOn_ofExcept]
    cases encodeSample encoder (chunks pipeline.settings.build.batchSize head) with
    | error error => rfl
    | ok sample =>
      dsimp only
      rw [IndexProgram.runOn_bind, IndexProgram.runOn_ofExcept]
      rfl

/-- Where a codebook can be written, training returns the one that it makes. -/
theorem result_trainOn (houtcome : Publication.outcome tree pipeline.layout.root
    Layout.codebookFile = .ok ()) (head : List String) :
    ((pipeline.trainOn head).runOn tree).1 = pipeline.codebookOf encoder head := by
  rw [runOn_trainOn hmakes, IndexProgram.runOn_bind, IndexProgram.runOn_ofExcept]
  cases pipeline.codebookOf encoder head with
  | error error => rfl
  | ok codebook =>
    have hsaved : ((codebook.save pipeline.layout.codebook).runOn tree).1 = .ok () :=
      (Publication.result_publishFile (by decide) Layout.isName_codebookFile _ tree).trans houtcome
    dsimp only
    rw [IndexProgram.runOn_bind]
    generalize (codebook.save pipeline.layout.codebook).runOn tree = saved at hsaved
    obtain ⟨result, after⟩ := saved
    obtain rfl : result = .ok () := hsaved
    rfl

end

/-- What training returns is what it keeps, or else what it makes. -/
theorem result_train (hhead : Partition.collect
    (texts.toList.take pipeline.settings.build.sampleSize) = .ok head) (tree : Tree) :
    ((pipeline.train texts).runOn (.start .untrained) tree).1.1 =
      match pipeline.kept? head.length tree with
      | some codebook => .ok codebook
      | none => ((pipeline.trainOn head).runOn tree).1 := by
  rw [runOn_train_of_head hhead]
  cases pipeline.kept? head.length tree with
  | some codebook => rfl
  | none =>
    dsimp only
    rw [BuildProgram.runOn_bind, BuildProgram.runOn_lift]
    cases ((pipeline.trainOn head).runOn tree).1 with
    | error error => rfl
    | ok codebook => rfl

/-- A training that changes the store has made a codebook and written it. -/
theorem exists_of_train (hmakes : pipeline.factory.Makes encoder)
    (hrun : (pipeline.train texts).runOn (.start .untrained) tree = ((.ok codebook, last), changed))
    (hchanged : changed ≠ tree) : ∃ head,
      Partition.collect (texts.toList.take pipeline.settings.build.sampleSize) = .ok head ∧
        pipeline.codebookOf encoder head = .ok codebook ∧
          changed.read pipeline.layout.codebook = .ok codebook.toBytes := by
  obtain ⟨head, hhead, ⟨-, hsame⟩ | htrained⟩ := runOn_train_ok hrun
  · exact absurd hsame hchanged
  · rw [runOn_trainOn hmakes] at htrained
    obtain ⟨made, _, hcomputed, hsave⟩ := runOn_bind_ok.mp htrained
    obtain ⟨hmade, rfl⟩ := runOn_ofExcept_ok.mp hcomputed
    obtain ⟨_, _, hsaved, hlast⟩ := runOn_bind_ok.mp hsave
    obtain ⟨rfl, rfl⟩ := runOn_pure_ok.mp hlast
    exact ⟨head, hhead, hmade, Codebook.read_of_save hsaved⟩

/-! ## What is kept -/

/-- Nothing is kept where no codebook is. -/
theorem kept?_of_isEmptyAt (hempty : tree.IsEmptyAt pipeline.directory) (samples : Nat) :
    pipeline.kept? samples tree = none := by
  rw [Option.eq_none_iff_forall_ne_some]
  intro codebook hkept
  obtain ⟨-, hload, -⟩ := kept?_eq_some hkept
  obtain ⟨-, bytes, hread, -⟩ := Codebook.load_ok.mp hload
  obtain ⟨-, hfiles⟩ := (Tree.read_join Layout.isName_codebookFile).mp hread
  cases (Tree.files_of_none (hempty.within Layout.codebookFile)).symm.trans hfiles

theorem length_head_le {α : Type} {items : List (Except IndexError α)} {count : Nat}
    {head : List α} (hhead : Partition.collect (items.take count) = .ok head) :
    head.length ≤ count := by
  have htake := congrArg List.length (Partition.collect_eq_ok.mp hhead)
  rw [List.length_take, List.length_map] at htake
  omega

/-- Heads of one length are the same texts. -/
theorem head_unique {α : Type} {items : List (Except IndexError α)} {first second : Nat}
    {head other : List α} (hhead : Partition.collect (items.take first) = .ok head)
    (hother : Partition.collect (items.take second) = .ok other)
    (hlength : other.length = head.length) : other = head := by
  rw [Partition.collect_eq_ok] at hhead hother
  have hprefix := List.prefix_of_prefix_length_le (hother ▸ List.take_prefix second items)
    (hhead ▸ List.take_prefix first items) (by simp [hlength])
  have hsame := hprefix.eq_of_length (by simp [hlength])
  exact List.map_inj_right (fun _ _ ↦ Except.ok.inj) |>.mp hsame

theorem matchesTraining_eq_true {training other : TrainingSettings} {samples count : Nat} :
    matchesTraining training samples
        ⟨other.cells, other.subspaces, other.bitsPerSubspace, other.seed, count⟩ = true ↔
      training.RecordsAs other ∧ samples = count := by
  unfold matchesTraining
  simp only [Bool.and_eq_true, decide_eq_true_eq]
  constructor
  · rintro ⟨⟨⟨⟨hcells, hsubspaces⟩, hbits⟩, hseed⟩, hcount⟩
    exact ⟨⟨hcells.symm, hsubspaces.symm, hbits.symm, hseed.symm⟩, hcount.symm⟩
  · rintro ⟨⟨hcells, hsubspaces, hbits, hseed⟩, hcount⟩
    exact ⟨⟨⟨⟨hcells.symm, hsubspaces.symm⟩, hbits.symm⟩, hseed.symm⟩, hcount.symm⟩

/-- What is kept of a codebook that was written is that codebook, and the settings that keep it
agree with those that trained it in what is recorded. -/
theorem eq_of_kept? {training : TrainingSettings} {sample : List Vec}
    (htrain : Codebook.train training sample = .ok codebook)
    (hseed : training.seed < 0x10000000000000000) (hsamples : sample.length < 0x10000000000000000)
    (hread : tree.read pipeline.layout.codebook = .ok codebook.toBytes) {samples : Nat}
    {found : Codebook} (hkept : pipeline.kept? samples tree = some found) :
    found = codebook ∧ pipeline.settings.training.RecordsAs training ∧ samples = sample.length := by
  obtain ⟨-, hload, hmatches⟩ := kept?_eq_some hkept
  obtain ⟨-, bytes, hbytes, hfound⟩ := Codebook.load_ok.mp hload
  obtain rfl := Except.ok.inj (hread.symm.trans hbytes)
  obtain rfl := Codebook.eq_of_ofBytes_train htrain hseed hsamples hfound
  rw [(Codebook.train_ok htrain).2, Codebook.params_of_ofBytes_train htrain hfound,
    matchesTraining_eq_true] at hmatches
  exact ⟨rfl, hmatches⟩

/-- Valid settings that can split the vectors train on the sample that other settings have encoded,
whatever the sizes of the batches. -/
theorem codebookOf_eq_train {vector? : String → Option Vec} (hembeds : encoder.Embeds vector?)
    (hvalid : pipeline.settings.validate = .ok ())
    (hshape : Quantizer.checkShape encoder.dimension.size pipeline.settings.training.subspaces
      pipeline.settings.training.bitsPerSubspace = .ok ()) {size : Nat} {sample : List Vec}
    (hencode : encodeSample encoder (chunks size head) = .ok sample) :
    pipeline.codebookOf encoder head = Codebook.train pipeline.settings.training sample := by
  unfold codebookOf Settings.validateForDimension
  rw [hvalid, hshape, hembeds.encodeSample_chunks hencode]
  rfl

/-- A codebook can be written again where one is read. -/
theorem outcome_of_read {contents : Bytes}
    (hread : tree.read pipeline.layout.codebook = .ok contents) :
    Publication.outcome tree pipeline.layout.root Layout.codebookFile = .ok () := by
  obtain ⟨hdirectory, hfiles⟩ := (Tree.read_join Layout.isName_codebookFile).mp hread
  obtain ⟨_, hfind⟩ := Tree.files_eq_some.mp hfiles
  refine Publication.outcome_eq_ok Layout.isName_codebookFile (fun count ↦ ?_) (by simp [hfind])
  exact Tree.files_eq_none.mpr (.inr (hdirectory count))

theorem outcome_of_isEmptyAt (hempty : tree.IsEmptyAt pipeline.directory) :
    Publication.outcome tree pipeline.layout.root Layout.codebookFile = .ok () :=
  Publication.outcome_eq_ok Layout.isName_codebookFile hempty.above
    ((hempty.within Layout.codebookFile).trans_ne nofun)

/-- Training where an earlier training has left its codebook gives what training in an empty
directory gives, with one exception: when the two settings agree in all that a codebook records, but
allow other numbers of turns, or the sample is not enough for the later ones, then the codebook that
is there is kept, whatever the later settings would make of the same sample. The two pipelines work
with one encoder, and the numbers of the earlier settings are ones of 64 bits. -/
theorem train_resumed {first second : Pipeline} {vector? : String → Option Vec}
    {start written fresh : Tree} (hseed : first.settings.training.seed < 0x10000000000000000)
    (hsize : first.settings.build.sampleSize < 0x10000000000000000)
    (hfirst : first.factory.Makes encoder) (hsecond : second.factory.Makes encoder)
    (hembeds : encoder.Embeds vector?) (hvalid : second.settings.validate = .ok ())
    (hlayout : second.layout = first.layout)
    (hrun : (first.train texts).runOn (.start .untrained) start = ((.ok codebook, last), written))
    (hwritten : written ≠ start)
    (hheld : tree.read first.layout.codebook = written.read first.layout.codebook)
    (hfresh : fresh.IsEmptyAt second.directory) :
    let resumed := ((second.train texts).runOn (.start .untrained) tree).1.1
    let anew := ((second.train texts).runOn (.start .untrained) fresh).1.1
    let earlier := first.settings.training
    let later := second.settings.training
    resumed = anew ∨
      (later.RecordsAs earlier ∧ (max 1 later.maxIterations ≠ max 1 earlier.maxIterations ∨
        codebook.params.samples < later.requiredSamples)) ∧
      resumed = .ok codebook ∧ ∃ sample, sample.length = codebook.params.samples ∧
        Codebook.train earlier sample = .ok codebook ∧ anew = Codebook.train later sample := by
  intro resumed anew earlier later
  obtain ⟨head, hhead, hmade, hread⟩ := exists_of_train hfirst hrun hwritten
  rw [← hheld, ← hlayout] at hread
  obtain ⟨hdimension, sample, hencode, htrain⟩ := codebookOf_eq_ok.mp hmade
  obtain ⟨-, -, hshape⟩ := Settings.validateForDimension_ok hdimension
  have hlength := hembeds.length_encodeSample hencode
  have hbound : sample.length < 0x10000000000000000 :=
    Nat.lt_of_le_of_lt (hlength ▸ length_head_le hhead) hsize
  cases hother : Partition.collect (texts.toList.take second.settings.build.sampleSize) with
  | error error =>
    left
    exact (congrArg (·.1.1) (runOn_train_error hother _ tree)).trans
      (congrArg (·.1.1) (runOn_train_error hother _ fresh)).symm
  | ok other =>
    have hanew : anew = second.codebookOf encoder other := by
      refine (result_train hother fresh).trans ?_
      rw [kept?_of_isEmptyAt hfresh]
      exact result_trainOn hsecond (outcome_of_isEmptyAt hfresh) other
    have hresumed := result_train hother tree
    cases hkept : second.kept? other.length tree with
    | none =>
      rw [hkept] at hresumed
      left
      rw [hanew]
      exact hresumed.trans (result_trainOn hsecond (outcome_of_read hread) other)
    | some found =>
      rw [hkept] at hresumed
      obtain ⟨rfl, hrecords, hsame⟩ := eq_of_kept? htrain hseed hbound hread hkept
      -- The two sizes of samples may differ. What is recorded is how long the head became.
      obtain rfl := head_unique hhead hother (hsame.trans hlength)
      have htrained : anew = Codebook.train later sample := by
        rw [hanew]
        refine codebookOf_eq_train hembeds hvalid ?_ hencode
        rw [hrecords.subspaces, hrecords.bitsPerSubspace]
        exact hshape
      have hsamples : found.params.samples = sample.length := by
        rw [(Codebook.train_ok htrain).2]
        rfl
      by_cases hdiffers : max 1 later.maxIterations ≠ max 1 earlier.maxIterations ∨
          found.params.samples < later.requiredSamples
      · exact .inr ⟨⟨hrecords, hdiffers⟩, hresumed, sample, hsamples.symm, htrain, htrained⟩
      · rw [not_or, Decidable.not_not, Nat.not_lt, hsamples] at hdiffers
        left
        rw [htrained, Codebook.train_of_recordsAs hrecords hdiffers.1 hdiffers.2 htrain]
        exact hresumed

/-- The tiny pipeline resumed, with two points for a cell. -/
def pairedPipeline : Pipeline :=
  { tinyPipeline with
    settings := { tinyPipeline.settings with
      build := { tinyPipeline.settings.build with trainSampleSize := some 2, resume := true }
      training := { tinyPipeline.settings.training with minPointsPerCell := 2 } } }

/-- The training of a pipeline on one text. -/
def loneTraining (pipeline : Pipeline) (tree : Tree) :
    (Except IndexError Codebook × Progress) × Tree :=
  (pipeline.train (.ofList [.ok "a"])).runOn (.start .untrained) tree

theorem exists_tiny_training : ∃ codebook last,
    tinyPipeline.loneTraining .empty =
      ((.ok codebook, last), (tinyPipeline.loneTraining .empty).2) ∧
    codebook.params.samples = 1 ∧ (tinyPipeline.loneTraining .empty).2 ≠ .empty := by
  have htrained : (tinyPipeline.loneTraining .empty).1.1.toOption.map (·.params.samples) =
      some 1 := by decide +kernel
  have hwritten : (tinyPipeline.loneTraining .empty).2.entries ≠ [] := by decide +kernel
  generalize tinyPipeline.loneTraining .empty = trained at htrained hwritten
  obtain ⟨⟨result, last⟩, written⟩ := trained
  cases result with
  | error error => cases htrained
  | ok codebook =>
    exact ⟨codebook, last, rfl, Option.some.inj htrained, fun heq ↦ hwritten (congrArg _ heq)⟩

/-- One text is too little for two points of a cell, but the codebook of one point is kept. -/
theorem train_resumed_paired : ∃ codebook,
    (tinyPipeline.loneTraining .empty).1.1 = .ok codebook ∧
      (pairedPipeline.loneTraining (tinyPipeline.loneTraining .empty).2).1.1 = .ok codebook ∧
      (pairedPipeline.loneTraining .empty).1.1 =
        .error (.trainingDataInsufficient 1 2 1) := by
  obtain ⟨codebook, last, hrun, hsamples, hwritten⟩ := exists_tiny_training
  have hkept : (pairedPipeline.loneTraining (tinyPipeline.loneTraining .empty).2).1.1.isOk =
      true := by decide +kernel
  have hanew : (pairedPipeline.loneTraining .empty).1.1.isOk = false := by decide +kernel
  have hempty : Tree.empty.IsEmptyAt pairedPipeline.directory :=
    ⟨fun count ↦ by cases count <;> rfl, fun _ ↦ rfl⟩
  have hvalid : pairedPipeline.settings.validate = .ok () := rfl
  have hlayout : pairedPipeline.layout = tinyPipeline.layout := rfl
  have htrained := train_resumed (by decide) (by decide) (fun _ _ ↦ rfl) (fun _ _ ↦ rfl)
    (Encoder.embeds_hashed ⟨1, by decide⟩) hvalid hlayout hrun hwritten rfl hempty
  rcases htrained with hsame | ⟨-, hresumed, sample, hlength, -, hmade⟩
  · change (pairedPipeline.loneTraining _).1.1 = (pairedPipeline.loneTraining _).1.1 at hsame
    rw [hsame, hanew] at hkept
    cases hkept
  · refine ⟨codebook, congrArg (·.1.1) hrun, hresumed, hmade.trans ?_⟩
    unfold Codebook.train
    rw [hlength, hsamples]
    rfl

end Pipeline
end VectorIndex
