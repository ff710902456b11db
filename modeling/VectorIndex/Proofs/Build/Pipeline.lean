import VectorIndex.Build.Pipeline
import VectorIndex.Proofs.Store.Program

/-!
# Running the steps of a build

A step takes a progress and a tree and leaves both changed. It succeeds when each of its parts
does, and the parts that only look at the progress leave the tree.
-/

namespace VectorIndex

namespace BuildProgram

variable {α β : Type} {progress last : Progress} {tree changed : Tree} {value : α}

/-- The result of a step with the progress and the tree that it leaves. -/
def runOn (program : BuildProgram α) (progress : Progress) (tree : Tree) :
    (Except IndexError α × Progress) × Tree :=
  (program.start progress).run tree

theorem runOn_bind (program : BuildProgram β) (next : β → BuildProgram α) (progress : Progress)
    (tree : Tree) : (program >>= next).runOn progress tree =
      match program.runOn progress tree with
      | ((.ok value, later), middle) => (next value).runOn later middle
      | ((.error error, later), middle) => ((.error error, later), middle) := by
  unfold runOn start
  rw [ExceptT.run_bind, StateT.run_bind, StoreProgram.run_bind]
  rcases StoreProgram.run (StateT.run (ExceptT.run program) progress) tree with
    ⟨⟨result, later⟩, middle⟩
  cases result <;> rfl

/-- A sequence ends in its first part, or goes on with what that returns. -/
theorem runOn_bind_cases {program : BuildProgram β} {next : β → BuildProgram α}
    {result : Except IndexError α}
    (hrun : (program >>= next).runOn progress tree = ((result, last), changed)) :
    (∃ error, program.runOn progress tree = ((.error error, last), changed) ∧
      result = .error error) ∨
    ∃ between later middle, program.runOn progress tree = ((.ok between, later), middle) ∧
      (next between).runOn later middle = ((result, last), changed) := by
  rw [runOn_bind] at hrun
  rcases hprogram : program.runOn progress tree with ⟨⟨found, later⟩, middle⟩
  rw [hprogram] at hrun
  cases found with
  | error error =>
    cases hrun
    exact .inl ⟨error, rfl, rfl⟩
  | ok between => exact .inr ⟨between, later, middle, rfl, hrun⟩

/-- Two steps that go on in the same way after the same part do the same. -/
theorem runOn_bind_congr {γ : Type} (program : BuildProgram γ) {first second : γ → BuildProgram α}
    {progress : Progress} {tree : Tree}
    (hnext : ∀ value last changed, program.runOn progress tree = ((.ok value, last), changed) →
      (first value).runOn last changed = (second value).runOn last changed) :
    (program >>= first).runOn progress tree = (program >>= second).runOn progress tree := by
  rw [runOn_bind, runOn_bind]
  rcases hprogram : program.runOn progress tree with ⟨⟨result, later⟩, middle⟩
  cases result with
  | ok value => exact hnext value later middle hprogram
  | error error => rfl

theorem runOn_bind_ok {program : BuildProgram β} {next : β → BuildProgram α} :
    (program >>= next).runOn progress tree = ((.ok value, last), changed) ↔
      ∃ between later middle, program.runOn progress tree = ((.ok between, later), middle) ∧
        (next between).runOn later middle = ((.ok value, last), changed) := by
  constructor
  · intro hrun
    rcases runOn_bind_cases hrun with ⟨error, -, herror⟩ | hnext
    · cases herror
    · exact hnext
  · rintro ⟨between, later, middle, hprogram, hnext⟩
    rw [runOn_bind, hprogram]
    exact hnext

theorem runOn_pure_ok {given : α} :
    (pure given : BuildProgram α).runOn progress tree = ((.ok value, last), changed) ↔
      given = value ∧ progress = last ∧ tree = changed := by
  constructor
  · intro hrun
    cases hrun
    exact ⟨rfl, rfl, rfl⟩
  · rintro ⟨rfl, rfl, rfl⟩
    rfl

theorem runOn_ofExcept_ok {result : Except IndexError α} :
    (ofExcept result).runOn progress tree = ((.ok value, last), changed) ↔
      result = .ok value ∧ progress = last ∧ tree = changed := by
  constructor
  · intro hrun
    cases hrun
    exact ⟨rfl, rfl, rfl⟩
  · rintro ⟨rfl, rfl, rfl⟩
    rfl

theorem runOn_lift (program : IndexProgram α) (progress : Progress) (tree : Tree) :
    (lift program).runOn progress tree =
      (((program.runOn tree).1, progress), (program.runOn tree).2) := by
  show (StoreProgram.run (StateT.run (StateT.lift program.run) progress) tree) = _
  rw [StateT.run_lift, StoreProgram.run_bind]
  rfl

/-- A program over the store that cannot fail is followed by the rest of the step. -/
theorem runOn_lift_bind (program : StoreProgram β) (next : β → BuildProgram α)
    (progress : Progress) (tree : Tree) :
    (lift (ExceptT.lift program) >>= next).runOn progress tree =
      (next (program.run tree).1).runOn progress (program.run tree).2 := by
  rw [runOn_bind, runOn_lift, IndexProgram.runOn_lift]

theorem runOn_lift_eq {program : IndexProgram α} {result : Except IndexError α} :
    (lift program).runOn progress tree = ((result, last), changed) ↔
      program.runOn tree = (result, changed) ∧ progress = last := by
  rw [runOn_lift, Prod.mk.injEq, Prod.mk.injEq, Prod.ext_iff, and_right_comm]

theorem runOn_record (outcomes : List Outcome) (progress : Progress) (tree : Tree) :
    (record outcomes).runOn progress tree =
      ((.ok (), { progress with outcomes := progress.outcomes ++ outcomes }), tree) := rfl

theorem runOn_advance (target : BuildState) (progress : Progress) (tree : Tree) :
    (advance target).runOn progress tree = match progress.state.advance target with
      | .ok state => ((.ok (), { progress with state }), tree)
      | .error error => ((.error error, progress), tree) := by
  show (ofExcept (progress.state.advance target) >>= fun state ↦
    set { progress with state }).runOn progress tree = _
  generalize progress.state.advance target = result
  cases result with
  | ok state => rfl
  | error error => rfl

/-- Moving on to a stage does not touch the store. -/
theorem runOn_advance_pure (target : BuildState) (value : α) (progress : Progress) (tree : Tree) :
    ((advance target >>= fun _ ↦ (pure value : BuildProgram α)).runOn progress tree).2 = tree := by
  rw [runOn_bind, runOn_advance]
  cases progress.state.advance target with
  | ok state => rfl
  | error error => rfl

theorem runOn_require (origin target : BuildState) (progress : Progress) (tree : Tree) :
    (require origin target).runOn progress tree = if progress.state ≠ origin then
      ((.error (.invalidStateTransition progress.state target), progress), tree)
      else ((.ok (), progress), tree) := by
  show BuildProgram.runOn (if progress.state ≠ origin then throw _ else pure ()) progress tree = _
  split
  · rfl
  · rfl

theorem runOn_advance_ok {target : BuildState} {done : Unit} :
    (advance target).runOn progress tree = ((.ok done, last), changed) ↔
      progress.state.next = some target ∧ last = { progress with state := target } ∧
        changed = tree := by
  rw [runOn_advance]
  unfold BuildState.advance
  split
  · next state hstate =>
    split at hstate
    · next hnext =>
      obtain rfl := Except.ok.inj hstate
      simp [hnext, eq_comm]
    · cases hstate
  · next error herror =>
    split at herror
    · cases herror
    · next hnext => simp [hnext]

theorem runOn_require_ok {origin target : BuildState} {done : Unit} :
    (require origin target).runOn progress tree = ((.ok done, last), changed) ↔
      progress.state = origin ∧ last = progress ∧ changed = tree := by
  rw [runOn_require]
  split
  · next hne => simp [hne]
  · next heq => simp [Decidable.of_not_not heq, eq_comm]

/-! ## Errors -/

/-- Whatever it runs on, an error that the step ends in is one of `errors`. -/
def Raises (errors : IndexError → Prop) (program : BuildProgram α) : Prop :=
  ∀ progress tree error last changed,
    program.runOn progress tree = ((.error error, last), changed) → errors error

section

variable {errors : IndexError → Prop}

theorem raises_bind {program : BuildProgram β} {next : β → BuildProgram α}
    (hprogram : Raises errors program) (hnext : ∀ value, Raises errors (next value)) :
    Raises errors (program >>= next) := by
  intro progress tree error last changed hrun
  rcases runOn_bind_cases hrun with ⟨raised, hraised, hsame⟩ | ⟨value, later, middle, -, hrest⟩
  · exact Except.error.inj hsame ▸ hprogram _ _ _ _ _ hraised
  · exact hnext value _ _ _ _ _ hrest

theorem raises_pure (value : α) : Raises errors (pure value : BuildProgram α) :=
  fun _ _ _ _ _ hrun ↦ nomatch hrun

theorem raises_ofExcept {result : Except IndexError α}
    (hresult : ∀ error, result = .error error → errors error) : Raises errors (ofExcept result) :=
  fun _ _ error _ _ hrun ↦ hresult error (congrArg (·.1.1) hrun)

theorem raises_lift {program : IndexProgram α} (hprogram : ∀ {tree : Tree} {error : IndexError},
    (program.runOn tree).1 = .error error → errors error) : Raises errors (lift program) := by
  intro progress tree error last changed hrun
  exact hprogram (congrArg Prod.fst (runOn_lift_eq.mp hrun).1)

theorem raises_record (outcomes : List Outcome) : Raises errors (record outcomes) :=
  fun _ _ _ _ _ hrun ↦ nomatch hrun

variable (htransition : ∀ origin target, errors (.invalidStateTransition origin target))
include htransition

theorem raises_advance (target : BuildState) : Raises errors (advance target) := by
  intro progress tree error last changed hrun
  rw [runOn_advance] at hrun
  unfold BuildState.advance at hrun
  split at hrun
  · cases hrun
  · next herror =>
    split at herror
    · cases herror
    · cases hrun
      exact Except.error.inj herror ▸ htransition _ _

theorem raises_require (origin target : BuildState) : Raises errors (require origin target) := by
  intro progress tree error last changed hrun
  rw [runOn_require] at hrun
  split at hrun
  · cases hrun
    exact htransition _ _
  · cases hrun

end

end BuildProgram

namespace Pipeline

open BuildProgram (runOn_bind_cases runOn_bind_ok runOn_pure_ok runOn_ofExcept_ok runOn_lift_eq
  runOn_lift_bind runOn_record runOn_advance_ok runOn_require_ok)

variable {pipeline : Pipeline} {codebook : Codebook} {progress last : Progress}
  {tree changed : Tree}

/-- What comes of the segments is a success when the report is. -/
theorem leaveShards_ok {outcomes : List Outcome} {report : Except IndexError PoolReport}
    {segments : List SegmentSummary}
    (hrun : (leaveShards outcomes report).runOn progress tree = ((.ok segments, last), changed)) :
    changed = tree ∧ ∃ made, report = .ok made ∧ made.result = .ok segments := by
  unfold leaveShards at hrun
  obtain ⟨_, _, _, hrecord, hrun₁⟩ := runOn_bind_ok.mp hrun
  obtain ⟨made, _, _, hmade, hrun₂⟩ := runOn_bind_ok.mp hrun₁
  obtain ⟨found, _, _, hfound, hrun₃⟩ := runOn_bind_ok.mp hrun₂
  obtain ⟨_, _, _, hadvance, hpure⟩ := runOn_bind_ok.mp hrun₃
  obtain ⟨hreport, -, rfl⟩ := runOn_ofExcept_ok.mp hmade
  obtain ⟨hresult, -, rfl⟩ := runOn_ofExcept_ok.mp hfound
  obtain ⟨-, -, rfl⟩ := runOn_advance_ok.mp hadvance
  obtain ⟨rfl, -, rfl⟩ := runOn_pure_ok.mp hpure
  rw [runOn_record] at hrecord
  exact ⟨(Prod.mk.inj hrecord).2.symm, made, hreport, hresult⟩

/-- How building the segments can end: before the pool starts, too early, or with what is made of
the report of the pool. -/
inductive ShardsCourse (pipeline : Pipeline) (schedule : List Party) (codebook : Codebook)
    (stream : List (Except IndexError Partition)) (progress : Progress) (tree : Tree) :
    Except IndexError (Option (List SegmentSummary)) → Progress → Tree → Prop where
  | refused {error : IndexError} {last : Progress} {changed : Tree}
    (hentering : pipeline.enterShards.runOn progress tree = ((.error error, last), changed)) :
    ShardsCourse pipeline schedule codebook stream progress tree (.error error) last changed
  | unfinished {entered : Progress} {start changed : Tree}
    (hentering : pipeline.enterShards.runOn progress tree = ((.ok (), entered), start))
    (hpool : (pipeline.pool.runAlong codebook pipeline.layout.root pipeline.factory stream
      schedule).run start = (none, changed)) :
    ShardsCourse pipeline schedule codebook stream progress tree (.ok none) entered changed
  | reported {entered last : Progress} {start middle changed : Tree} {outcomes : List Outcome}
    {report : Except IndexError PoolReport} {result : Except IndexError (List SegmentSummary)}
    (hentering : pipeline.enterShards.runOn progress tree = ((.ok (), entered), start))
    (hpool : (pipeline.pool.runAlong codebook pipeline.layout.root pipeline.factory stream
      schedule).run start = (some (outcomes, report), middle))
    (hleaving : (leaveShards outcomes report).runOn entered middle = ((result, last), changed)) :
    ShardsCourse pipeline schedule codebook stream progress tree (result.map some) last changed

section

variable {schedule : List Party} {texts : Pass (Except IndexError String)}

/-- Building the segments takes one of its courses. -/
theorem buildShardsAlong_course {result : Except IndexError (Option (List SegmentSummary))}
    (hrun : (pipeline.buildShardsAlong schedule codebook texts).runOn progress tree =
      ((result, last), changed)) :
    pipeline.ShardsCourse schedule codebook
      (partitions texts.toList pipeline.settings.build.partitionSize) progress tree result last
      changed := by
  unfold buildShardsAlong at hrun
  rcases runOn_bind_cases hrun with ⟨error, hentering, rfl⟩ | ⟨_, entered, start, hentering, hrun₁⟩
  · exact .refused hentering
  rw [runOn_lift_bind] at hrun₁
  rcases hpool : (pipeline.pool.runAlong codebook pipeline.layout.root pipeline.factory
    (partitions texts.toList pipeline.settings.build.partitionSize) schedule).run start with
    ⟨reported, middle⟩
  rw [hpool] at hrun₁
  cases reported with
  | none =>
    cases hrun₁
    exact .unfinished hentering hpool
  | some pair =>
    obtain ⟨outcomes, report⟩ := pair
    rcases runOn_bind_cases hrun₁ with ⟨error, hleaving, rfl⟩ | ⟨segments, _, _, hleaving, hlast⟩
    · exact .reported hentering hpool hleaving
    · cases hlast
      exact .reported hentering hpool hleaving

variable {segments : List SegmentSummary}
  (hrun : (pipeline.buildShardsAlong schedule codebook texts).runOn progress tree =
    ((.ok (some segments), last), changed))
include hrun

/-- Segments are built by a pool that starts in the directory and runs to its end. -/
theorem exists_run_of_buildShardsAlong : ∃ entered start outcomes report,
    pipeline.enterShards.runOn progress tree = ((.ok (), entered), start) ∧
      (pipeline.pool.runAlong codebook pipeline.layout.root pipeline.factory
        (partitions texts.toList pipeline.settings.build.partitionSize) schedule).run start =
          (some (outcomes, .ok report), changed) ∧ report.result = .ok segments := by
  have hcourse := buildShardsAlong_course hrun
  generalize hresult : (Except.ok (some segments) : Except IndexError _) = result at hcourse
  cases hcourse with
  | refused => cases hresult
  | unfinished => cases hresult
  | @reported _ _ _ _ _ _ _ made hentering hpool hleaving =>
    cases made with
    | error error => cases hresult
    | ok found =>
      cases hresult
      obtain ⟨rfl, report, rfl, hreport⟩ := leaveShards_ok hleaving
      exact ⟨_, _, _, report, hentering, hpool, hreport⟩

theorem buildShardsAlong_ok : ∃ start outcomes report,
    (pipeline.pool.runAlong codebook pipeline.layout.root pipeline.factory
      (partitions texts.toList pipeline.settings.build.partitionSize) schedule).run start =
        (some (outcomes, .ok report), changed) ∧ report.result = .ok segments := by
  obtain ⟨_, start, outcomes, report, -, hpool, hresult⟩ := exists_run_of_buildShardsAlong hrun
  exact ⟨start, outcomes, report, hpool, hresult⟩

end

/-- A pool whose report is a success completes the segments. -/
theorem exists_built_of_runAlong {entered : Progress} {outcomes : List Outcome}
    {report : PoolReport} {segments : List SegmentSummary}
    (hentering : pipeline.enterShards.runOn progress tree = ((.ok (), entered), start))
    (hpool : (pipeline.pool.runAlong codebook pipeline.layout.root pipeline.factory
      (partitions texts.toList pipeline.settings.build.partitionSize) schedule).run start =
        (some (outcomes, .ok report), changed))
    (hresult : report.result = .ok segments) (hstate : entered.state = .shardsBuilding) :
    ∃ built, (pipeline.buildShardsAlong schedule codebook texts).runOn progress tree =
      ((.ok (some segments), built), changed) ∧ built.state = .shardsComplete := by
  have hleaving : (leaveShards outcomes (.ok report)).runOn entered changed = ((.ok segments,
      ⟨.shardsComplete, entered.outcomes ++ outcomes⟩), changed) := by
    refine runOn_bind_ok.mpr ⟨(), _, _, runOn_record outcomes entered changed, ?_⟩
    refine runOn_bind_ok.mpr ⟨report, _, _, runOn_ofExcept_ok.mpr ⟨rfl, rfl, rfl⟩, ?_⟩
    refine runOn_bind_ok.mpr ⟨segments, _, _, runOn_ofExcept_ok.mpr ⟨hresult, rfl, rfl⟩, ?_⟩
    refine runOn_bind_ok.mpr ⟨(), _, _, runOn_advance_ok.mpr ⟨?_, rfl, rfl⟩, rfl⟩
    rw [hstate]
    rfl
  refine ⟨⟨.shardsComplete, entered.outcomes ++ outcomes⟩,
    runOn_bind_ok.mpr ⟨(), _, _, hentering, ?_⟩, rfl⟩
  rw [runOn_lift_bind, hpool]
  exact runOn_bind_ok.mpr ⟨segments, _, _, hleaving, rfl⟩

/-- A merge of the pipeline is a merge of its directory. -/
theorem merge_ok {count : Nat} {metadata : Metadata}
    (hrun : (pipeline.merge codebook count).runOn progress tree =
      ((.ok metadata, last), changed)) :
    (SegmentMerger.merge ⟨pipeline.layout.root, codebook⟩ count).runOn tree =
      (.ok metadata, changed) := by
  unfold Pipeline.merge at hrun
  obtain ⟨_, _, _, hrequire, hrun₁⟩ := runOn_bind_ok.mp hrun
  obtain ⟨merged, _, _, hmerge, hrun₂⟩ := runOn_bind_ok.mp hrun₁
  obtain ⟨_, _, _, hadvance, hpure⟩ := runOn_bind_ok.mp hrun₂
  obtain ⟨-, -, rfl⟩ := runOn_require_ok.mp hrequire
  obtain ⟨-, -, rfl⟩ := runOn_advance_ok.mp hadvance
  obtain ⟨rfl, -, rfl⟩ := runOn_pure_ok.mp hpure
  exact (runOn_lift_eq.mp hmerge).1

/-- When the segments are complete, a merge of the directory is a merge of the pipeline. -/
theorem exists_merged_of_merge {count : Nat} {metadata : Metadata}
    (hstate : progress.state = .shardsComplete)
    (hmerge : (SegmentMerger.merge ⟨pipeline.layout.root, codebook⟩ count).runOn tree =
      (.ok metadata, changed)) :
    ∃ last, (pipeline.merge codebook count).runOn progress tree =
      ((.ok metadata, last), changed) := by
  refine ⟨⟨.merged, progress.outcomes⟩,
    runOn_bind_ok.mpr ⟨(), _, _, runOn_require_ok.mpr ⟨hstate, rfl, rfl⟩, ?_⟩⟩
  refine runOn_bind_ok.mpr ⟨metadata, _, _, runOn_lift_eq.mpr ⟨hmerge, rfl⟩, ?_⟩
  refine runOn_bind_ok.mpr ⟨(), _, _, runOn_advance_ok.mpr ⟨?_, rfl, rfl⟩, rfl⟩
  rw [hstate]
  rfl

end Pipeline
end VectorIndex
