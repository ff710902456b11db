import Mathlib.Logic.Relation
import VectorIndex.Proofs.Build.Stages

/-!
# The order of the steps

The steps of a build can be called in any order and on any directory. A step that is not next is
refused and leaves the stage as it is. Of all refused steps only training touches the directory:
it looks at the stage after its work, so its codebook is there when it is refused.
-/

namespace VectorIndex

open BuildProgram (runOn_bind runOn_lift runOn_advance runOn_require runOn_record)

namespace BuildState

/-- The second state follows the first, or more steps lie between them, or none. -/
def Precedes : BuildState → BuildState → Prop :=
  Relation.ReflTransGen fun first second ↦ first.next = some second

theorem Precedes.refl (state : BuildState) : state.Precedes state := Relation.ReflTransGen.refl

theorem Precedes.of_next {first second : BuildState} (hnext : first.next = some second) :
    first.Precedes second := Relation.ReflTransGen.single hnext

theorem Precedes.trans {first second third : BuildState} (hfirst : first.Precedes second)
    (hsecond : second.Precedes third) : first.Precedes third :=
  Relation.ReflTransGen.trans hfirst hsecond

theorem advance_ok {state target : BuildState} (hnext : state.next = some target) :
    state.advance target = .ok target := if_pos hnext

theorem advance_error {state target : BuildState} (hnext : state.next ≠ some target) :
    state.advance target = .error (.invalidStateTransition state target) := if_neg hnext

/-- A state is the only one before the state that follows it. -/
theorem eq_of_next {first second target : BuildState} (hfirst : first.next = some target)
    (hsecond : second.next = some target) : first = second := by
  cases first <;> cases hfirst <;> cases second <;> cases hsecond <;> rfl

end BuildState

namespace Pipeline

variable {pipeline : Pipeline} {progress last : Progress} {tree changed : Tree}

/-! ## Training -/

section

variable (hquiet : pipeline.factory.IsQuiet)
include hquiet

/-- Whatever comes of it, training writes at most the codebook. -/
theorem train_writes (texts : Pass (Except IndexError String)) (progress : Progress)
    (tree : Tree) : ∃ contents,
      tree.Replaces ((pipeline.train texts).runOn progress tree).2 pipeline.directory
        (pipeline.directory ++ [Layout.codebookFile]) contents := by
  have hself : tree.Replaces tree pipeline.directory
      (pipeline.directory ++ [Layout.codebookFile]) [] := ⟨fun _ h ↦ h, fun _ _ ↦ .inl rfl⟩
  cases hhead : Partition.collect (texts.toList.take pipeline.settings.build.sampleSize) with
  | error error =>
    rw [runOn_train_error hhead]
    exact ⟨[], hself⟩
  | ok head =>
    rw [runOn_train_of_head hhead]
    cases pipeline.kept? head.length tree with
    | some codebook =>
      dsimp only
      rw [BuildProgram.runOn_advance_pure]
      exact ⟨[], hself⟩
    | none =>
      rcases trainOn_saves hquiet head tree with
        ⟨error, herror⟩ | ⟨-, -, codebook, -, -, -, hsave⟩
      · dsimp only
        rw [runOn_bind, runOn_lift, herror]
        exact ⟨[], hself⟩
      · exact ⟨codebook.toBytes, replaces_of_trainOn hsave progress⟩

end

/-- Training does the same to the directory at every stage, and looks at the stage in the end. -/
theorem train_then_advance (texts : Pass (Except IndexError String)) (tree : Tree) :
    ∃ (made : Except IndexError Codebook) (changed : Tree), ∀ progress : Progress,
      (pipeline.train texts).runOn progress tree =
        ((BuildProgram.ofExcept made >>= fun codebook ↦ BuildProgram.advance .trained >>= fun _ ↦
          pure codebook).runOn progress changed) := by
  cases hhead : Partition.collect (texts.toList.take pipeline.settings.build.sampleSize) with
  | error error => exact ⟨.error error, tree, fun progress ↦ runOn_train_error hhead progress tree⟩
  | ok head =>
    cases hkept : pipeline.kept? head.length tree with
    | some codebook =>
      refine ⟨.ok codebook, tree, fun progress ↦ ?_⟩
      rw [runOn_train_of_head hhead, hkept]
      rfl
    | none =>
      refine ⟨((pipeline.trainOn head).runOn tree).1, ((pipeline.trainOn head).runOn tree).2,
        fun progress ↦ ?_⟩
      rw [runOn_train_of_head hhead, hkept]
      dsimp only
      rw [runOn_bind, runOn_lift, runOn_bind]
      cases ((pipeline.trainOn head).runOn tree).1 with
      | error error => rfl
      | ok codebook => rfl

theorem train_refused (pipeline : Pipeline) (texts : Pass (Except IndexError String))
    (hstate : progress.state.next ≠ some .trained) (tree : Tree) :
    ∃ made first changed,
      (pipeline.train texts).runOn (.start .untrained) tree = ((made, first), changed) ∧
      (pipeline.train texts).runOn progress tree = ((.error (match made with
        | .ok _ => .invalidStateTransition progress.state .trained
        | .error error => error), progress), changed) := by
  obtain ⟨made, changed, htrain⟩ := pipeline.train_then_advance texts tree
  rw [htrain, htrain]
  cases made with
  | error error => exact ⟨.error error, _, changed, rfl, rfl⟩
  | ok codebook =>
    refine ⟨.ok codebook, ⟨.trained, []⟩, changed, rfl, ?_⟩
    show (BuildProgram.advance .trained >>= fun _ ↦ pure codebook).runOn progress changed = _
    rw [runOn_bind, runOn_advance, BuildState.advance_error hstate]

theorem state_train {texts : Pass (Except IndexError String)}
    (hstate : progress.state = .untrained) {result : Except IndexError Codebook}
    (hrun : (pipeline.train texts).runOn progress tree = ((result, last), changed)) :
    last.state = match result with
      | .ok _ => .trained
      | .error _ => .untrained := by
  obtain ⟨made, left, htrain⟩ := pipeline.train_then_advance texts tree
  rw [htrain] at hrun
  cases made with
  | error error =>
    cases hrun
    exact hstate
  | ok codebook =>
    change (BuildProgram.advance .trained >>= fun _ ↦ pure codebook).runOn progress left = _ at hrun
    rw [runOn_bind, runOn_advance, hstate] at hrun
    cases hrun
    rfl

/-! ## The other steps -/

/-- A step that looks at the stage, does its work and moves on. -/
def guarded {α : Type} (origin target : BuildState) (program : IndexProgram α) :
    BuildProgram α := do
  BuildProgram.require origin target
  let value ← BuildProgram.lift program
  BuildProgram.advance target
  return value

theorem merge_eq_guarded (pipeline : Pipeline) (codebook : Codebook) (count : Nat) :
    pipeline.merge codebook count = guarded .shardsComplete .merged
      (SegmentMerger.merge ⟨pipeline.layout.root, codebook⟩ count) := rfl

theorem openEngine_eq_guarded (pipeline : Pipeline) :
    pipeline.openEngine = guarded .merged .servable
      (QueryEngine.load pipeline.layout.root pipeline.settings.search.probes) := rfl

section

variable {α : Type} {origin target : BuildState} (program : IndexProgram α)

theorem guarded_refused (hstate : progress.state ≠ origin) (tree : Tree) :
    (guarded origin target program).runOn progress tree =
      ((.error (.invalidStateTransition progress.state target), progress), tree) := by
  unfold guarded
  rw [runOn_bind, runOn_require, if_pos hstate]

theorem runOn_guarded (hnext : origin.next = some target) (hstate : progress.state = origin)
    (tree : Tree) : (guarded origin target program).runOn progress tree =
      match program.runOn tree with
      | (.ok value, left) => ((.ok value, { progress with state := target }), left)
      | (.error error, left) => ((.error error, progress), left) := by
  unfold guarded
  rw [runOn_bind, runOn_require, if_neg (not_not_intro hstate)]
  dsimp only
  rw [runOn_bind, runOn_lift]
  generalize program.runOn tree = ran
  obtain ⟨made, left⟩ := ran
  cases made with
  | error error => rfl
  | ok value =>
    dsimp only
    rw [runOn_bind, runOn_advance, hstate, BuildState.advance_ok hnext]
    rfl

theorem state_guarded (hnext : origin.next = some target) (hstate : progress.state = origin)
    {result : Except IndexError α}
    (hrun : (guarded origin target program).runOn progress tree = ((result, last), changed)) :
    last.state = match result with
      | .ok _ => target
      | .error _ => origin := by
  rw [runOn_guarded program hnext hstate] at hrun
  generalize program.runOn tree = ran at hrun
  obtain ⟨made, left⟩ := ran
  cases made with
  | error error =>
    cases hrun
    exact hstate
  | ok value =>
    cases hrun
    rfl

end

/-- When the pool is done, the build is done with the segments or stays where it is. -/
theorem state_leaveShards (outcomes : List Outcome) (report : Except IndexError PoolReport)
    (hstate : progress.state = .shardsBuilding) {result : Except IndexError (List SegmentSummary)}
    (hrun : (leaveShards outcomes report).runOn progress tree = ((result, last), changed)) :
    (∃ segments, result = .ok segments ∧ last.state = .shardsComplete) ∨
      ∃ error, result = .error error ∧ last.state = .shardsBuilding := by
  unfold leaveShards at hrun
  rw [runOn_bind, runOn_record] at hrun
  dsimp only at hrun
  cases report with
  | error error =>
    cases hrun
    exact .inr ⟨error, rfl, hstate⟩
  | ok made =>
    change (BuildProgram.ofExcept made.result >>= fun segments ↦
      BuildProgram.advance .shardsComplete >>= fun _ ↦ pure segments).runOn _ tree = _ at hrun
    cases hmade : made.result with
    | error error =>
      rw [hmade] at hrun
      cases hrun
      exact .inr ⟨error, rfl, hstate⟩
    | ok segments =>
      rw [hmade] at hrun
      change (BuildProgram.advance .shardsComplete >>= fun _ ↦ pure segments).runOn _ tree = _
        at hrun
      rw [runOn_bind, runOn_advance] at hrun
      dsimp only at hrun
      rw [hstate] at hrun
      cases hrun
      exact .inl ⟨segments, rfl, rfl⟩

theorem state_enterShards (hstate : progress.state = .trained) {result : Except IndexError Unit}
    (hrun : pipeline.enterShards.runOn progress tree = ((result, last), changed)) :
    last.state = .shardsBuilding := by
  unfold enterShards at hrun
  rcases BuildProgram.runOn_bind_cases hrun with
    ⟨error, hadvance, -⟩ | ⟨done, later, middle, hadvance, hlift⟩
  · rw [runOn_advance, hstate] at hadvance
    cases hadvance
  · obtain ⟨-, rfl, -⟩ := BuildProgram.runOn_advance_ok.mp hadvance
    obtain ⟨-, rfl⟩ := BuildProgram.runOn_lift_eq.mp hlift
    rfl

/-- Building segments moves on when it starts, and again when all of them are there. -/
theorem state_buildShardsAlong {schedule : List Party} {codebook : Codebook}
    {texts : Pass (Except IndexError String)} (hstate : progress.state = .trained)
    {result : Except IndexError (Option (List SegmentSummary))}
    (hrun : (pipeline.buildShardsAlong schedule codebook texts).runOn progress tree =
      ((result, last), changed)) :
    (∃ segments, result = .ok (some segments) ∧ last.state = .shardsComplete) ∨
      ((∀ segments, result ≠ .ok (some segments)) ∧ last.state = .shardsBuilding) := by
  cases buildShardsAlong_course hrun with
  | refused hentering => exact .inr ⟨nofun, state_enterShards hstate hentering⟩
  | unfinished hentering => exact .inr ⟨nofun, state_enterShards hstate hentering⟩
  | reported hentering _ hleaving =>
    rcases state_leaveShards _ _ (state_enterShards hstate hentering) hleaving with
      ⟨segments, rfl, hmoves⟩ | ⟨error, rfl, hstays⟩
    · exact .inl ⟨segments, rfl, hmoves⟩
    · exact .inr ⟨nofun, hstays⟩

/-- A step that is refused before it does anything. -/
theorem buildShardsAlong_refused (schedule : List Party) (codebook : Codebook)
    (texts : Pass (Except IndexError String)) (hstate : progress.state.next ≠ some .shardsBuilding)
    (tree : Tree) : (pipeline.buildShardsAlong schedule codebook texts).runOn progress tree =
      ((.error (.invalidStateTransition progress.state .shardsBuilding), progress), tree) := by
  unfold buildShardsAlong enterShards
  rw [runOn_bind, runOn_bind, runOn_advance, BuildState.advance_error hstate]

/-! ## Calls -/

/-- A call of one of the steps. The workers take the turns of a schedule. -/
inductive Call where
  | train (texts : Pass (Except IndexError String))
  | buildShards (schedule : List Party) (codebook : Codebook)
    (texts : Pass (Except IndexError String))
  | merge (codebook : Codebook) (count : Nat)
  | openEngine

namespace Call

/-- The stage that the step has to come next to. -/
def target : Call → BuildState
  | train _ => .trained
  | buildShards .. => .shardsBuilding
  | merge .. => .merged
  | openEngine => .servable

/-- The stage that the step ends at when it succeeds. -/
def reached : Call → BuildState
  | buildShards .. => .shardsComplete
  | call => call.target

/-- The stage that the step ends at when it fails. -/
def entered (state : BuildState) : Call → BuildState
  | buildShards .. => .shardsBuilding
  | _ => state

/-- Runs the step and tells whether it returns. A schedule may end before its segments are
built. -/
def run (pipeline : Pipeline) : Call → BuildProgram Bool
  | train texts => do
    let _ ← pipeline.train texts
    return true
  | buildShards schedule codebook texts => do
    let segments ← pipeline.buildShardsAlong schedule codebook texts
    return segments.isSome
  | merge codebook count => do
    let _ ← pipeline.merge codebook count
    return true
  | openEngine => do
    let _ ← pipeline.openEngine
    return true

end Call

theorem runOn_bind_pure {α β : Type} (program : BuildProgram β) (given : β → α)
    (progress : Progress) (tree : Tree) :
    (program >>= fun value ↦ pure (given value)).runOn progress tree =
      (((program.runOn progress tree).1.1.map given, (program.runOn progress tree).1.2),
        (program.runOn progress tree).2) := by
  rw [runOn_bind]
  generalize program.runOn progress tree = ran
  obtain ⟨⟨result, last⟩, changed⟩ := ran
  cases result with
  | error error => rfl
  | ok value => rfl

/-- A call that was made, and what came of it. -/
structure Event (pipeline : Pipeline) where
  call : Call
  before : Progress
  found : Tree
  result : Except IndexError Bool
  after : Progress
  left : Tree
  runs : (call.run pipeline).runOn before found = ((result, after), left)

namespace Event

/-- What comes of a call. -/
def ofCall (pipeline : Pipeline) (call : Call) (before : Progress) (found : Tree) :
    Event pipeline :=
  let ran := (call.run pipeline).runOn before found
  ⟨call, before, found, ran.1.1, ran.1.2, ran.2, rfl⟩

/-- The call of a step that was next. -/
structure Moves (event : Event pipeline) : Prop where
  succeeded : event.result = .ok true → event.after.state = event.call.reached
  failed : event.result ≠ .ok true →
    event.after.state = event.call.entered event.before.state

/-- The call of a step that was not next. Training has done its work by then, and fails as it would
have failed at the first stage or because of the stage; every other step fails at once. -/
structure Refused (event : Event pipeline) : Prop where
  after_eq : event.after = event.before
  fails : ∃ error, event.result = .error error
  at_once : (∀ texts, event.call ≠ .train texts) →
    event.result = .error (.invalidStateTransition event.before.state event.call.target) ∧
      event.left = event.found
  trained : ∀ texts, event.call = .train texts →
    ∃ made progress, (pipeline.train texts).runOn (.start .untrained) event.found =
        ((made, progress), event.left) ∧
      event.result = .error (match made with
        | .ok _ => .invalidStateTransition event.before.state .trained
        | .error error => error)
  writes : ∃ contents, event.found.Replaces event.left pipeline.directory
    (pipeline.directory ++ [Layout.codebookFile]) contents

/-- A step that has returned is done with, and one that has failed is not. -/
theorem moves_of_program {α : Type} {event : Event pipeline} {program : BuildProgram α}
    (hcall : event.call.run pipeline = program >>= fun _ ↦ pure true)
    (hprogram : ∀ result last changed,
      program.runOn event.before event.found = ((result, last), changed) →
        last.state = match result with
          | .ok _ => event.call.reached
          | .error _ => event.call.entered event.before.state) : event.Moves := by
  obtain ⟨call, before, found, result, after, left, hruns⟩ := event
  have hrun := hruns
  rw [hcall, runOn_bind_pure] at hrun
  rcases hmade : program.runOn before found with ⟨⟨made, last⟩, changed⟩
  rw [hmade] at hrun
  have hlast := hprogram made last changed hmade
  cases hrun
  cases made with
  | error error => exact ⟨nofun, fun _ ↦ hlast⟩
  | ok value => exact ⟨fun _ ↦ hlast, fun h ↦ absurd rfl h⟩

theorem moves (event : Event pipeline)
    (hstate : event.before.state.next = some event.call.target) : event.Moves := by
  obtain ⟨call, before, found, result, after, left, hruns⟩ := event
  dsimp only at hstate
  cases call with
  | train texts =>
    have hbefore : before.state = .untrained := BuildState.eq_of_next hstate rfl
    refine moves_of_program rfl fun result last changed hrun ↦ ?_
    rw [state_train hbefore hrun]
    cases result with
    | error error => exact hbefore.symm
    | ok codebook => rfl
  | buildShards schedule codebook texts =>
    have hbefore : before.state = .trained := BuildState.eq_of_next hstate rfl
    have hrun := hruns
    rw [Call.run, runOn_bind_pure] at hrun
    rcases hmade : (pipeline.buildShardsAlong schedule codebook texts).runOn before found with
      ⟨⟨made, last⟩, changed⟩
    rw [hmade] at hrun
    cases hrun
    rcases state_buildShardsAlong hbefore hmade with ⟨segments, rfl, hlast⟩ | ⟨hnone, hlast⟩
    · exact ⟨fun _ ↦ hlast, fun h ↦ absurd rfl h⟩
    · refine ⟨fun h ↦ ?_, fun _ ↦ hlast⟩
      dsimp only at h
      cases made with
      | error error => cases h
      | ok segments =>
        obtain ⟨found, rfl⟩ := Option.isSome_iff_exists.mp (Except.ok.inj h)
        exact absurd rfl (hnone found)
  | merge codebook count =>
    have hbefore : before.state = .shardsComplete := BuildState.eq_of_next hstate rfl
    refine moves_of_program rfl fun result last changed hrun ↦ ?_
    rw [merge_eq_guarded] at hrun
    rw [state_guarded _ rfl hbefore hrun]
    cases result with
    | error error => exact hbefore.symm
    | ok metadata => rfl
  | openEngine =>
    have hbefore : before.state = .merged := BuildState.eq_of_next hstate rfl
    refine moves_of_program rfl fun result last changed hrun ↦ ?_
    rw [openEngine_eq_guarded] at hrun
    rw [state_guarded _ rfl hbefore hrun]
    cases result with
    | error error => exact hbefore.symm
    | ok engine => rfl

/-- A step that fails at once leaves everything as it is. -/
theorem refused_of_program {event : Event pipeline} (htrain : ∀ texts, event.call ≠ .train texts)
    (hcall : (event.call.run pipeline).runOn event.before event.found =
      ((.error (.invalidStateTransition event.before.state event.call.target), event.before),
        event.found)) : event.Refused := by
  obtain ⟨call, before, found, result, after, left, hruns⟩ := event
  dsimp only at htrain hcall
  rw [hcall] at hruns
  cases hruns
  exact ⟨rfl, ⟨_, rfl⟩, fun _ ↦ ⟨rfl, rfl⟩, fun texts h ↦ absurd h (htrain texts),
    [], fun _ h ↦ h, fun _ _ ↦ .inl rfl⟩

theorem refused (hquiet : pipeline.factory.IsQuiet) (event : Event pipeline)
    (hstate : event.before.state.next ≠ some event.call.target) : event.Refused := by
  obtain ⟨call, before, found, result, after, left, hruns⟩ := event
  dsimp only at hstate
  cases call with
  | train texts =>
    obtain ⟨made, first, changed, hfirst, hrefused⟩ :=
      pipeline.train_refused texts hstate found
    have hwrites := train_writes hquiet texts before found
    have hrun := hruns
    rw [Call.run, runOn_bind_pure, hrefused] at hrun
    rw [hrefused] at hwrites
    cases hrun
    refine ⟨rfl, ⟨_, rfl⟩, fun h ↦ absurd rfl (h texts), fun others hothers ↦ ?_, hwrites⟩
    cases hothers
    exact ⟨made, first, hfirst, rfl⟩
  | buildShards schedule codebook texts =>
    refine refused_of_program nofun ?_
    show (Call.run pipeline (.buildShards schedule codebook texts)).runOn before found = _
    rw [Call.run, runOn_bind_pure, buildShardsAlong_refused schedule codebook texts hstate]
    rfl
  | merge codebook count =>
    refine refused_of_program nofun ?_
    have hbefore : before.state ≠ .shardsComplete := fun h ↦ hstate (h ▸ rfl)
    show (Call.run pipeline (.merge codebook count)).runOn before found = _
    rw [Call.run, runOn_bind_pure, merge_eq_guarded, guarded_refused _ hbefore]
    rfl
  | openEngine =>
    refine refused_of_program nofun ?_
    have hbefore : before.state ≠ .merged := fun h ↦ hstate (h ▸ rfl)
    show (Call.run pipeline .openEngine).runOn before found = _
    rw [Call.run, runOn_bind_pure, openEngine_eq_guarded, guarded_refused _ hbefore]
    rfl

theorem Moves.precedes {event : Event pipeline} (hmoves : event.Moves)
    (hstate : event.before.state.next = some event.call.target) :
    event.before.state.Precedes event.after.state := by
  have hreached : event.call.target.Precedes event.call.reached := by
    cases event.call with
    | buildShards schedule codebook texts => exact .of_next rfl
    | _ => exact .refl _
  have hentered : event.before.state.Precedes (event.call.entered event.before.state) := by
    cases hcall : event.call with
    | buildShards schedule codebook texts =>
      rw [hcall] at hstate
      exact .of_next hstate
    | _ => exact .refl _
  by_cases hresult : event.result = .ok true
  · rw [hmoves.succeeded hresult]
    exact (BuildState.Precedes.of_next hstate).trans hreached
  · rw [hmoves.failed hresult]
    exact hentered

/-- No call leads back. -/
theorem precedes (hquiet : pipeline.factory.IsQuiet) (event : Event pipeline) :
    event.before.state.Precedes event.after.state := by
  by_cases hstate : event.before.state.next = some event.call.target
  · exact (event.moves hstate).precedes hstate
  · rw [(event.refused hquiet hstate).after_eq]
    exact .refl _

end Event

/-- Calls one after the other, each on whatever the directory then holds. -/
inductive History (pipeline : Pipeline) : Progress → List (Event pipeline) → Progress → Prop where
  | none (progress : Progress) : History pipeline progress [] progress
  | next (event : Event pipeline) {rest : List (Event pipeline)} {last : Progress}
    (hrest : History pipeline event.after rest last) :
    History pipeline event.before (event :: rest) last

/-- Whatever steps are called, each moves on if it is next and is refused if it is not, and the
build never goes back. -/
theorem history_lifecycle (hquiet : pipeline.factory.IsQuiet) {start : Progress}
    {events : List (Event pipeline)} (hhistory : History pipeline start events last) :
    (∀ event ∈ events,
      (event.before.state.next = some event.call.target → event.Moves) ∧
        (event.before.state.next ≠ some event.call.target → event.Refused)) ∧
      start.state.Precedes last.state := by
  induction hhistory with
  | none progress => exact ⟨fun _ h ↦ absurd h List.not_mem_nil, .refl _⟩
  | next event hrest ih =>
    refine ⟨fun other hother ↦ ?_, (event.precedes hquiet).trans ih.2⟩
    rcases List.mem_cons.mp hother with rfl | hother
    · exact ⟨other.moves, other.refused hquiet⟩
    · exact ih.1 other hother

/-- Training at the stage that training leads to. -/
def retraining : Event tinyPipeline :=
  .ofCall tinyPipeline (.train (.ofList [.ok "a"])) (.start .trained) .empty

/-- The second training is refused, but not before it has written its codebook. -/
theorem history_lifecycle_retraining : retraining.Refused ∧
    retraining.found.files ["index", "trained.index"] = none ∧
      (retraining.left.files ["index", "trained.index"]).isSome = true := by
  have hhistory : History tinyPipeline (.start .trained) [retraining] retraining.after :=
    .next retraining (.none _)
  have hrefused := ((history_lifecycle (fun _ _ ↦ rfl) hhistory).1 retraining
    List.mem_cons_self).2 (by decide)
  exact ⟨hrefused, rfl, by decide +kernel⟩

end Pipeline
end VectorIndex
