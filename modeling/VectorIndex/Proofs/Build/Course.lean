import VectorIndex.Proofs.Build.Stages

/-!
# The course of a build

A build goes through its stages in one order and stops in the first that fails. As long as it
writes neither its mapping nor its codebook over its corpus, every stage sees the same records.
-/

namespace VectorIndex.Pipeline

open BuildProgram (runOn_bind_cases runOn_bind_ok runOn_lift_eq)

variable {pipeline : Pipeline} {corpus : Corpus} {vectorOf : String → Vec} {items : List String}
  {records : List Record} {codebook : Codebook} {schedule : List Party}
  {progress last : Progress} {start mapped trained tree changed : Tree}

/-- The mapping of the records of the corpus is written. -/
structure Mapped (pipeline : Pipeline) (corpus : Corpus) (records : List Record)
    (start mapped : Tree) : Prop where
  lists : corpus.Lists start records
  directory : mapped.IsDirectory pipeline.directory
  becomes : start.Becomes mapped (start.files.put (pipeline.directory ++ [Layout.mappingFile])
    (some (Utf8.encode (IdMapping.mk (records.map (·.externalId))).toJson.compact)))

/-- The codebook is the one on disk, which was kept, or it is trained on the texts and written. -/
structure Trained (pipeline : Pipeline) (vectorOf : String → Vec) (items : List String)
    (codebook : Codebook) (mapped trained : Tree) : Prop where
  origin : (pipeline.settings.build.resume = true ∧ trained = mapped ∧
      pipeline.loadCodebook.runOn mapped = (.ok codebook, mapped) ∧
        matchesTraining pipeline.settings.training (pipeline.head items).length
          codebook.params = true) ∨
    (pipeline.Trains vectorOf items codebook ∧
      mapped.Becomes trained (mapped.files.put (pipeline.directory ++ [Layout.codebookFile])
        (some codebook.toBytes)))

theorem Trained.alters (htrained : pipeline.Trained vectorOf items codebook mapped trained) :
    mapped.Alters trained (· = pipeline.directory ++ [Layout.codebookFile]) := by
  rcases htrained.origin with ⟨-, rfl, -⟩ | ⟨-, hbecomes⟩
  · exact trained.alters_self _
  · exact hbecomes.alters

/-- The pass over the texts of records. -/
def textsOf (records : List Record) : Pass (Except IndexError String) :=
  .ofList ((records.map (·.text)).map .ok)

/-- How a build can end: in one of its stages, too early, or in its conclusion. -/
inductive Course (pipeline : Pipeline) (vectorOf : String → Vec) (corpus : Corpus)
    (schedule : List Party) (start changed : Tree) :
    Except IndexError (Option BuildReport) → Prop where
  | unmapped {error : IndexError}
    (hmapping : (pipeline.writeMapping corpus).runOn start = (.error error, changed)) :
    Course pipeline vectorOf corpus schedule start changed (.error error)
  | untrained {records : List Record} {mapped : Tree} {progress last : Progress}
    {error : IndexError} (hmapped : pipeline.Mapped corpus records start mapped)
    (htraining : (pipeline.train (textsOf records)).runOn progress mapped =
      ((.error error, last), changed)) :
    Course pipeline vectorOf corpus schedule start changed (.error error)
  | unbuilt {records : List Record} {mapped trained : Tree} {codebook : Codebook}
    {progress last : Progress} {error : IndexError}
    (hmapped : pipeline.Mapped corpus records start mapped)
    (htrained : pipeline.Trained vectorOf (records.map (·.text)) codebook mapped trained)
    (hbuilding : (pipeline.buildShardsAlong schedule codebook (textsOf records)).runOn progress
      trained = ((.error error, last), changed)) :
    Course pipeline vectorOf corpus schedule start changed (.error error)
  | unfinished : Course pipeline vectorOf corpus schedule start changed (.ok none)
  | concluded {records : List Record} {mapped trained built : Tree} {codebook : Codebook}
    {progress between last : Progress} {segments : List SegmentSummary} {started : Moment}
    {result : Except IndexError BuildReport}
    (hmapped : pipeline.Mapped corpus records start mapped)
    (htrained : pipeline.Trained vectorOf (records.map (·.text)) codebook mapped trained)
    (hbuilding : (pipeline.buildShardsAlong schedule codebook (textsOf records)).runOn progress
      trained = ((.ok (some segments), between), built))
    (hconclusion : (pipeline.conclude started ⟨records.map (·.externalId)⟩ codebook
      segments).runOn between built = ((result, last), changed)) :
    Course pipeline vectorOf corpus schedule start changed (result.map some)

/-- The corpus is none of the files that a build writes before it has read it for the last time. -/
def Spares (pipeline : Pipeline) (corpus : Corpus) : Prop :=
  ∀ location, Location.ofPath corpus.path = some location →
    location ≠ pipeline.directory ++ [Layout.mappingFile] ∧
      location ≠ pipeline.directory ++ [Layout.codebookFile]

theorem mapped_of_writeMapping {mapping : IdMapping}
    (hrun : (pipeline.writeMapping corpus).runOn tree = (.ok mapping, changed)) :
    ∃ records, mapping = ⟨records.map (·.externalId)⟩ ∧
      pipeline.Mapped corpus records tree changed := by
  obtain ⟨⟨records, hlists, rfl⟩, hdirectory, hbecomes⟩ := writeMapping_ok hrun
  exact ⟨records, rfl, hlists, hdirectory, hbecomes⟩

theorem Mapped.lists_mapped (hspares : pipeline.Spares corpus)
    (hmapped : pipeline.Mapped corpus records start mapped) : corpus.Lists mapped records :=
  hmapped.lists.alters hmapped.becomes.alters fun location h ↦ (hspares location h).1

theorem runOn_texts_bind {α : Type} (hlists : corpus.Lists tree records)
    (next : Pass (Except IndexError String) → BuildProgram α) (progress : Progress) :
    (BuildProgram.lift corpus.texts >>= next).runOn progress tree =
      (next (textsOf records)).runOn progress tree := by
  rw [BuildProgram.runOn_bind, BuildProgram.runOn_lift, Corpus.runOn_texts hlists]
  rfl

/-- Everything that a build does is one of its courses. -/
theorem runAlong_course (hmaps : pipeline.factory.Maps vectorOf)
    (hquiet : pipeline.factory.IsQuiet) (hspares : pipeline.Spares corpus)
    {result : Except IndexError (Option BuildReport)}
    (hrun : (pipeline.runAlong schedule corpus).runOn progress tree = ((result, last), changed)) :
    pipeline.Course vectorOf corpus schedule tree.tick changed result := by
  unfold runAlong at hrun
  rcases runOn_bind_cases hrun with ⟨_, hnow, -⟩ | ⟨started, _, _, hnow, hrun₁⟩
  · cases hnow
  cases hnow
  rcases runOn_bind_cases hrun₁ with ⟨error, hmapping, rfl⟩ | ⟨mapping, _, mapped, hlift, hrun₂⟩
  · exact .unmapped (runOn_lift_eq.mp hmapping).1
  obtain ⟨hmapping, rfl⟩ := runOn_lift_eq.mp hlift
  obtain ⟨records, rfl, hmapped⟩ := mapped_of_writeMapping hmapping
  have hlists := hmapped.lists_mapped hspares
  rw [runOn_texts_bind hlists] at hrun₂
  rcases runOn_bind_cases hrun₂ with ⟨error, htraining, rfl⟩ |
    ⟨codebook, later, trained, htraining, hrun₃⟩
  · exact .untrained hmapped htraining
  have htrained : pipeline.Trained vectorOf (records.map (·.text)) codebook _ trained :=
    ⟨train_ok hmaps hquiet htraining⟩
  have hstill := hlists.alters htrained.alters fun location h ↦ (hspares location h).2
  rw [runOn_texts_bind hstill] at hrun₃
  rcases runOn_bind_cases hrun₃ with ⟨error, hbuilding, rfl⟩ |
    ⟨segments?, between, built, hbuilding, hrun₄⟩
  · exact .unbuilt hmapped htrained hbuilding
  cases segments? with
  | none =>
    cases hrun₄
    exact .unfinished
  | some segments =>
    rcases runOn_bind_cases hrun₄ with ⟨error, hconclusion, rfl⟩ |
      ⟨report, _, _, hconclusion, hlast⟩
    · exact .concluded hmapped htrained hbuilding hconclusion
    · cases hlast
      exact .concluded hmapped htrained hbuilding hconclusion

/-- The conclusion of a build is its merge, whose metadata have to fit the mapping. -/
theorem conclude_cases {mapping : IdMapping} {segments : List SegmentSummary} {started : Moment}
    {result : Except IndexError BuildReport}
    (hrun : (pipeline.conclude started mapping codebook segments).runOn progress tree =
      ((result, last), changed)) :
    (∃ error, (pipeline.merge codebook segments.length).runOn progress tree =
      ((.error error, last), changed) ∧ result = .error error) ∨
    ∃ metadata later merged, (pipeline.merge codebook segments.length).runOn progress tree =
        ((.ok metadata, later), merged) ∧
      if mapping.size = metadata.vectorCount then
        changed = merged.tick ∧ ∃ report, result = .ok report ∧ report.metadata = metadata
      else changed = merged ∧
        result = .error (.idMappingMismatch mapping.size metadata.vectorCount) := by
  unfold conclude at hrun
  rcases runOn_bind_cases hrun with ⟨error, hmerge, rfl⟩ | ⟨metadata, later, merged, hmerge, hrest⟩
  · exact .inl ⟨error, hmerge, rfl⟩
  refine .inr ⟨metadata, later, merged, hmerge, ?_⟩
  by_cases hsize : mapping.size = metadata.vectorCount
  · rw [if_neg (not_not_intro hsize)] at hrest
    rw [if_pos hsize]
    cases hrest
    exact ⟨rfl, _, rfl, rfl⟩
  · rw [if_pos hsize] at hrest
    rw [if_neg hsize]
    cases hrest
    exact ⟨rfl, rfl⟩

/-- A merge to as many vectors as there are in the mapping concludes the build. -/
theorem exists_conclude {mapping : IdMapping} {segments : List SegmentSummary} {metadata : Metadata}
    (hmerge : (pipeline.merge codebook segments.length).runOn progress tree =
      ((.ok metadata, last), changed)) (hsize : mapping.size = metadata.vectorCount)
    (started : Moment) : ∃ report,
      (pipeline.conclude started mapping codebook segments).runOn progress tree =
        ((.ok report, last), changed.tick) ∧ report.metadata = metadata := by
  let report : BuildReport := ⟨codebook.fingerprint, segments, metadata,
    ((changed.answer .now).1 - started).toNat⟩
  refine ⟨report, runOn_bind_ok.mpr ⟨metadata, last, changed, hmerge, ?_⟩, rfl⟩
  rw [if_neg (not_not_intro hsize)]
  rfl

/-- The stages of a build before its conclusion, and what they give to it. -/
def stagesAlong (pipeline : Pipeline) (schedule : List Party) (corpus : Corpus) :
    BuildProgram (Moment × IdMapping × Codebook × Option (List SegmentSummary)) := do
  let started ← BuildProgram.lift (IndexProgram.perform .now)
  let mapping ← BuildProgram.lift (pipeline.writeMapping corpus)
  let codebook ← pipeline.train (← BuildProgram.lift corpus.texts)
  let segments ← pipeline.buildShardsAlong schedule codebook (← BuildProgram.lift corpus.texts)
  return (started, mapping, codebook, segments)

theorem runAlong_eq_bind (pipeline : Pipeline) (schedule : List Party) (corpus : Corpus) :
    pipeline.runAlong schedule corpus =
      pipeline.stagesAlong schedule corpus >>= fun (started, mapping, codebook, segments) ↦
        match segments with
        | none => pure none
        | some segments => some <$> pipeline.conclude started mapping codebook segments := by
  simp only [runAlong, stagesAlong, bind_assoc, pure_bind]
  refine bind_congr fun started ↦ bind_congr fun mapping ↦ bind_congr fun texts ↦
    bind_congr fun codebook ↦ bind_congr fun again ↦ bind_congr fun segments ↦ ?_
  cases segments with
  | none => rfl
  | some segments => exact (map_eq_pure_bind _ _).symm

/-- The stages have mapped as many records as there are in the segments, which can be merged. -/
def EndsConcludable (pipeline : Pipeline) (count total : Nat)
    (stages : (Except IndexError (Moment × IdMapping × Codebook × Option (List SegmentSummary)) ×
      Progress) × Tree) : Prop :=
  (stages.1.1.toOption.any fun (_, mapping, codebook, segments) ↦ decide (mapping.size = total ∧
    EndsMergeable pipeline codebook count total ((.ok segments, stages.1.2), stages.2))) = true

instance (pipeline : Pipeline) (count total : Nat)
    (stages : (Except IndexError (Moment × IdMapping × Codebook × Option (List SegmentSummary)) ×
      Progress) × Tree) : Decidable (EndsConcludable pipeline count total stages) :=
  inferInstanceAs (Decidable (_ = _))

theorem exists_report_of_stages {count total : Nat} (hends : EndsConcludable pipeline count total
      ((pipeline.stagesAlong schedule corpus).runOn progress tree)) :
    ∃ report last changed, (pipeline.runAlong schedule corpus).runOn progress tree =
      ((.ok (some report), last), changed) ∧ report.metadata.vectorCount = total := by
  rcases hstages : (pipeline.stagesAlong schedule corpus).runOn progress tree with
    ⟨⟨result, reached⟩, left⟩
  rw [hstages] at hends
  obtain ⟨⟨started, mapping, codebook, found⟩, hfound, hchecked⟩ := (Option.any_eq_true _ _).mp hends
  obtain rfl := Result.toOption_eq_some.mp hfound
  obtain ⟨hsize, hmergeable⟩ := of_decide_eq_true hchecked
  obtain ⟨segments, built, between, metadata, last, changed, hbuild, -, hmerge, hcount⟩ :=
    hmergeable.exists_merged
  cases hbuild
  obtain ⟨report, hconclude, rfl⟩ := exists_conclude hmerge (hsize.trans hcount.symm) started
  refine ⟨report, last, changed.tick, ?_, hcount⟩
  rw [runAlong_eq_bind]
  refine runOn_bind_ok.mpr ⟨_, reached, left, hstages, ?_⟩
  show (some <$> _ : BuildProgram _).runOn reached left = _
  rw [map_eq_pure_bind]
  exact runOn_bind_ok.mpr ⟨report, last, changed.tick, hconclude, rfl⟩

/-- A build that returns a report has mapped, trained and built, and the metadata of the report are
those of its merge, which fit the mapping. -/
theorem exists_of_runAlong_ok (hmaps : pipeline.factory.Maps vectorOf)
    (hquiet : pipeline.factory.IsQuiet) (hspares : pipeline.Spares corpus) {report : BuildReport}
    (hrun : (pipeline.runAlong schedule corpus).runOn progress tree =
      ((.ok (some report), last), changed)) :
    ∃ records mapped codebook trained before segments between built later merged,
      pipeline.Mapped corpus records tree.tick mapped ∧
      pipeline.Trained vectorOf (records.map (·.text)) codebook mapped trained ∧
      (pipeline.buildShardsAlong schedule codebook (textsOf records)).runOn before trained =
        ((.ok (some segments), between), built) ∧
      (pipeline.merge codebook segments.length).runOn between built =
        ((.ok report.metadata, later), merged) ∧
      report.metadata.vectorCount = records.length ∧ changed = merged.tick := by
  have hcourse := runAlong_course hmaps hquiet hspares hrun
  generalize hresult : (Except.ok (some report) : Except IndexError _) = result at hcourse
  cases hcourse with
  | unmapped => cases hresult
  | untrained => cases hresult
  | unbuilt => cases hresult
  | unfinished => cases hresult
  | @concluded records _ _ _ _ _ _ _ _ _ _ hmapped htrained hbuilding hconclusion =>
    rcases conclude_cases hconclusion with ⟨error, -, rfl⟩ | ⟨metadata, later, merged, hmerge, hend⟩
    · cases hresult
    by_cases hsize : (IdMapping.mk (records.map (·.externalId))).size = metadata.vectorCount
    · rw [if_pos hsize] at hend
      obtain ⟨rfl, made, rfl, rfl⟩ := hend
      cases hresult
      exact ⟨_, _, _, _, _, _, _, _, _, _, hmapped, htrained, hbuilding, hmerge,
        hsize.symm.trans (List.length_map _), rfl⟩
    · rw [if_neg hsize] at hend
      rw [hend.2] at hresult
      cases hresult

end VectorIndex.Pipeline
