import VectorIndex.Proofs.Build.Course

/-!
# What stops a build

No stage before the conclusion of a build has anything to say about the sizes of the mapping and of
the index, and neither has a merge.
-/

namespace VectorIndex

open Result (bind_error guard_error mapError_error)
open IndexProgram (Raises raises_bind raises_check raises_ofExcept raises_perform raises_pure)

/-- The error is not that a mapping and an index differ in size. -/
def IndexError.IsNoMismatch (error : IndexError) : Prop :=
  ∀ mapping indexed, error ≠ .idMappingMismatch mapping indexed

/-! ## The corpus -/

theorem Partition.mem_of_collect_error {α : Type} {items : List (Except IndexError α)}
    {error : IndexError} (herror : collect items = .error error) : .error error ∈ items := by
  obtain ⟨readable, rest, rfl⟩ := exists_of_collect_error herror
  exact List.mem_append_right _ List.mem_cons_self

theorem Corpus.isNoMismatch_of_parse {corpus : Corpus} {line before : Nat} {text : String}
    {error : IndexError} (herror : corpus.parse line before text = .error error) :
    error.IsNoMismatch := by
  unfold parse at herror
  repeat' split at herror
  all_goals cases herror
  all_goals exact nofun

theorem Corpus.isNoMismatch_of_recordsFrom {corpus : Corpus} {lines : List Bytes}
    {line before : Nat} {error : IndexError}
    (herror : .error error ∈ corpus.recordsFrom lines line before) : error.IsNoMismatch := by
  induction lines generalizing line before with
  | nil => cases herror
  | cons bytes rest ih =>
    rw [recordsFrom] at herror
    split at herror
    · rcases List.mem_cons.mp herror with heq | hrest
      · obtain rfl := Except.error.inj heq
        intro mapping indexed hsame
        cases hsame
      · exact ih hrest
    · split at herror
      · exact ih herror
      · rcases List.mem_cons.mp herror with heq | hrest
        · exact isNoMismatch_of_parse heq.symm
        · exact ih hrest

theorem IdMapping.raises_ofCorpus (corpus : Corpus) :
    Raises IndexError.IsNoMismatch (ofCorpus corpus) := by
  have hcollect : ∀ pass : Pass (Except IndexError Record),
      (∀ error, .error error ∈ pass.toList → error.IsNoMismatch) →
        Raises IndexError.IsNoMismatch (do
          let records ← IndexProgram.ofExcept (Partition.collect pass.toList)
          return (⟨records.map (·.externalId)⟩ : IdMapping)) := by
    intro pass hpass
    refine raises_bind (raises_ofExcept fun error herror ↦ ?_) fun _ ↦ raises_pure _
    exact hpass error (Partition.mem_of_collect_error herror)
  unfold ofCorpus Corpus.records
  simp only [bind_assoc]
  refine raises_bind (raises_perform _) fun answer ↦ ?_
  refine raises_bind (raises_check (fun _ ↦ nofun) answer) fun source ↦ ?_
  cases source with
  | directory =>
    refine hcollect ⟨[], some (.error (.fileRead corpus.path .isADirectory))⟩ fun error herror ↦ ?_
    obtain rfl := Except.error.inj (List.mem_singleton.mp herror)
    exact nofun
  | file contents =>
    refine hcollect (.ofList (corpus.recordsOf contents)) fun error herror ↦ ?_
    rw [Pass.ofList, Pass.toList, Option.toList_none, List.append_nil] at herror
    exact Corpus.isNoMismatch_of_recordsFrom herror

/-! ## Encoding and training -/

theorem Encoder.isNoMismatch_of_checkVectors {dimension : Dimension}
    {partition : Option PartitionIndex} {position : Nat} {vectors : List Vec} {error : IndexError}
    (herror : checkVectors dimension partition position vectors = .error error) :
    error.IsNoMismatch := by
  induction vectors generalizing position with
  | nil => cases herror
  | cons v rest ih =>
    rw [checkVectors] at herror
    split at herror
    · exact ih herror
    · obtain rfl := Except.error.inj herror
      intro _ _ hmismatch
      cases hmismatch

theorem Encoder.isNoMismatch_of_encodeBatch {encoder : Encoder} {texts : List String}
    {interruption : Interruption}
    (herror : encoder.encodeBatch texts none = .error interruption) :
    interruption.toError.IsNoMismatch := by
  unfold encodeBatch at herror
  split at herror
  · obtain rfl := Except.error.inj herror
    exact nofun
  · obtain rfl := Except.error.inj herror
    exact nofun
  · split at herror
    · cases herror
    · next hcheck =>
      obtain rfl := Except.error.inj herror
      unfold checkBatch at hcheck
      split at hcheck
      · obtain rfl := Except.error.inj hcheck
        exact nofun
      · exact isNoMismatch_of_checkVectors hcheck

theorem Pipeline.isNoMismatch_of_encodeSample {encoder : Encoder} {batches : List (List String)}
    {error : IndexError} (herror : encodeSample encoder batches = .error error) :
    error.IsNoMismatch := by
  induction batches with
  | nil => cases herror
  | cons batch rest ih =>
    rw [encodeSample] at herror
    split at herror
    · next hbatch =>
      obtain rfl := Except.error.inj herror
      exact Encoder.isNoMismatch_of_encodeBatch hbatch
    · cases hrest : encodeSample encoder rest with
      | ok later => simp [hrest, Except.map] at herror
      | error later =>
        rw [hrest] at herror
        obtain rfl := Except.error.inj herror
        exact ih hrest

theorem Settings.isNoMismatch_of_validate {settings : Settings} {error : IndexError}
    (herror : settings.validate = .error error) : error.IsNoMismatch := by
  unfold validate at herror
  dsimp only at herror
  iterate 6
    rcases guard_error.mp herror with ⟨-, rfl⟩ | ⟨-, herror⟩
    · exact nofun
  split at herror
  · obtain rfl := Except.error.inj herror
    exact nofun
  · cases herror

theorem Settings.isNoMismatch_of_validateForDimension {settings : Settings} {dimension : Nat}
    {error : IndexError} (herror : settings.validateForDimension dimension = .error error) :
    error.IsNoMismatch := by
  unfold validateForDimension at herror
  rcases bind_error.mp herror with hvalid | ⟨_, -, hshape⟩
  · exact isNoMismatch_of_validate hvalid
  · obtain ⟨reason, -, rfl⟩ := mapError_error.mp hshape
    exact nofun

namespace Codebook

theorem isNoMismatch_of_checkSample {dimension : Dimension} {position : Nat} {sample : List Vec}
    {error : IndexError} (herror : checkSample dimension position sample = .error error) :
    error.IsNoMismatch := by
  induction sample generalizing position with
  | nil => cases herror
  | cons v rest ih =>
    rw [checkSample] at herror
    split at herror
    · exact ih herror
    · obtain rfl := Except.error.inj herror
      exact nofun

theorem isNoMismatch_of_ofParts {centroids : List Vec} {quantizer : Quantizer}
    {params : TrainingParams} {error : IndexError}
    (herror : ofParts centroids quantizer params = .error error) : error.IsNoMismatch := by
  unfold ofParts at herror
  rcases guard_error.mp herror with ⟨-, rfl⟩ | ⟨-, herror⟩
  · exact nofun
  rcases bind_error.mp herror with hdimension | ⟨_, -, hlast⟩
  · obtain ⟨reason, -, rfl⟩ := mapError_error.mp hdimension
    exact nofun
  · cases hlast

theorem isNoMismatch_of_train {settings : TrainingSettings} {sample : List Vec}
    {error : IndexError} (herror : train settings sample = .error error) : error.IsNoMismatch := by
  unfold train at herror
  rcases guard_error.mp herror with ⟨-, rfl⟩ | ⟨-, herror⟩
  · exact nofun
  rcases bind_error.mp herror with hshape | ⟨_, -, herror⟩
  · obtain ⟨reason, -, rfl⟩ := mapError_error.mp hshape
    exact nofun
  rcases bind_error.mp herror with hdimension | ⟨_, -, herror⟩
  · obtain ⟨reason, -, rfl⟩ := mapError_error.mp hdimension
    exact nofun
  rcases bind_error.mp herror with hsample | ⟨_, -, herror⟩
  · exact isNoMismatch_of_checkSample hsample
  rcases bind_error.mp herror with hcoarse | ⟨_, -, herror⟩
  · obtain ⟨cause, -, rfl⟩ := mapError_error.mp hcoarse
    exact nofun
  rcases guard_error.mp herror with ⟨-, rfl⟩ | ⟨-, herror⟩
  · exact nofun
  rcases bind_error.mp herror with hquantizer | ⟨_, -, hparts⟩
  · obtain ⟨cause, -, rfl⟩ := mapError_error.mp hquantizer
    exact nofun
  · exact isNoMismatch_of_ofParts hparts

end Codebook

/-! ## The stages of a build -/

namespace Pipeline

variable {pipeline : Pipeline} {corpus : Corpus} {codebook : Codebook} {schedule : List Party}

theorem raises_writeMapping (pipeline : Pipeline) (corpus : Corpus) :
    Raises IndexError.IsNoMismatch (pipeline.writeMapping corpus) := by
  refine raises_bind (IdMapping.raises_ofCorpus corpus) fun mapping ↦ ?_
  exact raises_bind (raises_publishFile (fun _ _ ↦ nofun) _ _) fun _ ↦ raises_pure _

section

variable (hfactory : ∀ worker, Raises IndexError.IsNoMismatch (pipeline.factory worker))
include hfactory

theorem raises_trainOn (texts : List String) :
    Raises IndexError.IsNoMismatch (pipeline.trainOn texts) := by
  unfold trainOn Codebook.trainAndSave
  refine raises_bind (hfactory _) fun encoder ↦ ?_
  refine raises_bind (raises_ofExcept fun _ ↦ Settings.isNoMismatch_of_validateForDimension)
    fun _ ↦ ?_
  refine raises_bind (raises_ofExcept fun _ ↦ isNoMismatch_of_encodeSample) fun sample ↦ ?_
  refine raises_bind (raises_ofExcept fun _ ↦ Codebook.isNoMismatch_of_train) fun made ↦ ?_
  exact raises_bind (raises_publishFile (fun _ _ ↦ nofun) _ _) fun _ ↦ raises_pure _

theorem raises_train (items : List String) :
    BuildProgram.Raises IndexError.IsNoMismatch
      (pipeline.train (.ofList (items.map .ok))) := by
  intro progress tree error last changed hrun
  have hadvance : ∀ made : Codebook, BuildProgram.Raises IndexError.IsNoMismatch
      (BuildProgram.advance .trained >>= fun _ ↦ pure made) := fun made ↦
    BuildProgram.raises_bind (BuildProgram.raises_advance (fun _ _ ↦ nofun) _)
      fun _ ↦ BuildProgram.raises_pure made
  rw [runOn_train] at hrun
  split at hrun
  · exact hadvance _ _ _ _ _ _ hrun
  · refine BuildProgram.raises_bind ?_ hadvance _ _ _ _ _ hrun
    exact BuildProgram.raises_lift (raises_trainOn hfactory _).runOn

end

/-- When the stream has no error, a pool has outcomes to report, or it has crashed over a segment. -/
theorem report_of_runAlong {pool : WorkerPool} {directory : Path} {factory : EncoderFactory}
    {partitions : List Partition} {start changed : Tree} {outcomes : List Outcome}
    {report : Except IndexError PoolReport}
    (hrun : (pool.runAlong codebook directory factory (partitions.map .ok) schedule).run start =
      (some (outcomes, report), changed)) :
    report = .error WorkerPool.producerCrash ∨ report = .ok ⟨outcomes⟩ := by
  unfold WorkerPool.runAlong at hrun
  rw [StoreProgram.run_bind, StoreProgram.run_bind, StoreProgram.run_pure] at hrun
  generalize ((pool.createEncoders factory).run start).1 = encoders at hrun
  have hending := Crew.ending_follow ⟨pool, codebook, directory, encoders⟩ schedule
    (.start pool.workerCount (partitions.map .ok)) ((pool.createEncoders factory).run start).2
  have hnone : (PoolState.start pool.workerCount (partitions.map .ok)).ending = none :=
    Partition.firstError?_map_ok partitions
  rw [hnone] at hending
  have hcases := PoolState.report_cases (Prod.mk.inj hrun).1
  rw [hending] at hcases
  exact hcases.imp_right And.left

theorem isNoMismatch_of_result {made : PoolReport} {error : IndexError}
    (herror : made.result = .error error) : error.IsNoMismatch := by
  unfold PoolReport.result at herror
  split at herror
  · cases herror
  · obtain rfl := Except.error.inj herror
    exact nofun

theorem raises_buildShardsAlong (items : List String) :
    BuildProgram.Raises IndexError.IsNoMismatch
      (pipeline.buildShardsAlong schedule codebook (.ofList (items.map .ok))) := by
  intro progress tree error last changed hrun
  have hcourse := buildShardsAlong_course hrun
  rw [partitions_ofList] at hcourse
  generalize hraised : (Except.error error : Except IndexError (Option (List SegmentSummary))) =
    result at hcourse
  cases hcourse with
  | refused hentering =>
    exact Except.error.inj hraised ▸ raises_enterShards (fun _ _ ↦ nofun) (fun _ _ ↦ nofun) pipeline
      _ _ _ _ _ hentering
  | unfinished => cases hraised
  | @reported _ _ _ _ _ outcomes report result _ hpool hleaving =>
    cases result with
    | ok segments => cases hraised
    | error raised =>
      obtain rfl := Except.error.inj hraised
      have hreport : ∀ error, report = .error error → error.IsNoMismatch := by
        rintro error rfl
        obtain rfl := Except.error.inj ((report_of_runAlong hpool).resolve_right nofun)
        exact nofun
      exact raises_leaveShards (fun _ _ ↦ nofun) hreport (fun _ _ _ ↦ isNoMismatch_of_result)
        outcomes _ _ _ _ _ hleaving

/-- The errors of a merge in a build are those of a merge alone. -/
theorem raises_merge_of {errors : IndexError → Prop}
    (htransition : ∀ origin target, errors (.invalidStateTransition origin target))
    (hmerge : ∀ error, SegmentMerger.IsMergeError error → errors error)
    (horder : ∀ reason, errors (.invalidConfig reason)) (pipeline : Pipeline)
    (codebook : Codebook) (count : Nat) :
    BuildProgram.Raises errors (pipeline.merge codebook count) := by
  refine BuildProgram.raises_bind (BuildProgram.raises_require htransition _ _) fun _ ↦ ?_
  refine BuildProgram.raises_bind (BuildProgram.raises_lift fun herror ↦ ?_) fun metadata ↦ ?_
  · rcases SegmentMerger.error_of_mergeInOrder herror with hraised | hrefused
    · exact hmerge _ hraised
    · obtain ⟨reason, rfl⟩ := SegmentMerger.checkOrderFrom_error hrefused
      exact horder reason
  · refine BuildProgram.raises_bind (BuildProgram.raises_advance htransition _) fun _ ↦ ?_
    exact BuildProgram.raises_pure metadata

theorem raises_merge (pipeline : Pipeline) (codebook : Codebook) (count : Nat) :
    BuildProgram.Raises IndexError.IsNoMismatch (pipeline.merge codebook count) :=
  raises_merge_of (fun _ _ ↦ nofun) (fun _ hraised ↦ by cases hraised <;> exact nofun)
    (fun _ ↦ nofun) pipeline codebook count

end Pipeline
end VectorIndex
