import VectorIndex.Proofs.Store.Conduct

/-!
# How programs conduct themselves

A program that is cut into its actions does proper things only, whatever the others make of the
store and whichever of its actions fail. What it has done so far says what it has staged, so each
part of a program is described by the events that it adds.
-/

namespace VectorIndex

open StagedFile (IsTemporary)

variable {root : Path} {may : Action → Bool} {admits : List Event → String → Bytes → Prop}
  {events : List Event} {α β : Type}

namespace StoreProgram

/-- Every event of the program is proper, and when it ends its value and its events have the
property. -/
def Conducts (root : Path) (may : Action → Bool) (admits : List Event → String → Bytes → Prop)
    (property : α → List Event → Prop) : StoreProgram α → List Event → Prop
  | done value, events => property value events
  | act action next, events => ∀ tree answer changed, Agrees root events tree →
    tree.Attempts may action answer changed → Proper root admits events ⟨action, answer⟩ ∧
      (next answer).Conducts root may admits property (⟨action, answer⟩ :: events)

theorem Conducts.imp {first second : α → List Event → Prop} {program : StoreProgram α}
    (hprogram : program.Conducts root may admits first events)
    (himp : ∀ value last, first value last → second value last) :
    program.Conducts root may admits second events := by
  induction program generalizing events with
  | done value => exact himp value events hprogram
  | act action next ih =>
    intro tree answer changed hagrees hattempt
    obtain ⟨hproper, hnext⟩ := hprogram tree answer changed hagrees hattempt
    exact ⟨hproper, ih answer hnext⟩

theorem Conducts.bind {property : β → List Event → Prop} {program : StoreProgram α}
    {next : α → StoreProgram β}
    (hprogram : program.Conducts root may admits
      (fun value last ↦ (next value).Conducts root may admits property last) events) :
    (program >>= next).Conducts root may admits property events := by
  induction program generalizing events with
  | done value => exact hprogram
  | act action more ih =>
    intro tree answer changed hagrees hattempt
    obtain ⟨hproper, hmore⟩ := hprogram tree answer changed hagrees hattempt
    exact ⟨hproper, ih answer hmore⟩

theorem Conducts.always {property : α → List Event → Prop} {returns : α → Prop}
    {program : StoreProgram α} (hprogram : program.Conducts root may admits property events)
    (halways : program.Always returns) :
    program.Conducts root may admits (fun value last ↦ property value last ∧ returns value)
      events := by
  induction program generalizing events with
  | done value => exact ⟨hprogram, halways⟩
  | act action next ih =>
    intro tree answer changed hagrees hattempt
    obtain ⟨hproper, hnext⟩ := hprogram tree answer changed hagrees hattempt
    exact ⟨hproper, ih answer hnext (halways answer)⟩

end StoreProgram

namespace IndexProgram

/-- The same for a program that may fail. -/
def Conducts (root : Path) (may : Action → Bool) (admits : List Event → String → Bytes → Prop)
    (good : α → List Event → Prop) (bad : List Event → Prop) (program : IndexProgram α)
    (events : List Event) : Prop :=
  StoreProgram.Conducts root may admits (fun result last ↦ match result with
    | .ok value => good value last
    | .error _ => bad last) (ExceptT.run program) events

variable {good : α → List Event → Prop} {bad : List Event → Prop}

theorem conducts_imp {program : IndexProgram α} {good' : α → List Event → Prop}
    {bad' : List Event → Prop} (hprogram : Conducts root may admits good bad program events)
    (hgood : ∀ value last, good value last → good' value last)
    (hbad : ∀ last, bad last → bad' last) :
    Conducts root may admits good' bad' program events := by
  refine StoreProgram.Conducts.imp hprogram fun result last hresult ↦ ?_
  cases result with
  | ok value => exact hgood value last hresult
  | error error => exact hbad last hresult

theorem conducts_pure {value : α} (hgood : good value events) :
    Conducts root may admits good bad (pure value) events := hgood

theorem conducts_throw {error : IndexError} (hbad : bad events) :
    Conducts root may admits good bad (throw error) events := hbad

theorem conducts_lift {program : StoreProgram α}
    (hprogram : program.Conducts root may admits good events) :
    Conducts root may admits good bad (ExceptT.lift program) events := by
  unfold Conducts
  rw [ExceptT.run_lift]
  exact StoreProgram.Conducts.bind hprogram

theorem conducts_bind {program : IndexProgram α} {next : α → IndexProgram β}
    {good : β → List Event → Prop}
    (hprogram : Conducts root may admits
      (fun value last ↦ Conducts root may admits good bad (next value) last) bad program events) :
    Conducts root may admits good bad (program >>= next) events := by
  unfold Conducts
  rw [ExceptT.run_bind]
  refine StoreProgram.Conducts.bind (StoreProgram.Conducts.imp hprogram ?_)
  intro result last hresult
  cases result with
  | ok value => exact hresult
  | error error => exact hresult

theorem conducts_onFailure {program : IndexProgram α} {cleanup : StoreProgram Unit}
    (hprogram : Conducts root may admits good
      (StoreProgram.Conducts root may admits (fun _ last ↦ bad last) cleanup) program events) :
    Conducts root may admits good bad (onFailure program cleanup) events := by
  unfold Conducts onFailure
  rw [ExceptT.run_mk]
  refine StoreProgram.Conducts.bind (StoreProgram.Conducts.imp hprogram ?_)
  intro result last hresult
  cases result with
  | ok value => exact hresult
  | error error => exact StoreProgram.Conducts.bind hresult

/-- A check of what is known anyway ends the program or leaves a value. -/
theorem conducts_ofExcept {result : Except IndexError α}
    (hgood : ∀ value, result = .ok value → good value events)
    (hbad : ∀ error, result = .error error → bad events) :
    Conducts root may admits good bad (ofExcept result) events := by
  cases result with
  | ok value => exact hgood value rfl
  | error error => exact hbad error rfl

/-- An action that is checked, and what follows it. -/
theorem conducts_perform_check_bind {action : Action} {γ : Type}
    {answer? : action.Answer → Except StoreFault γ} {toError : StoreFault → IndexError}
    {next : γ → IndexProgram α}
    (haction : ∀ tree answer changed, Agrees root events tree →
      tree.Attempts may action answer changed → Proper root admits events ⟨action, answer⟩ ∧
        match answer? answer with
        | .ok value => Conducts root may admits good bad (next value) (⟨action, answer⟩ :: events)
        | .error _ => bad (⟨action, answer⟩ :: events)) :
    Conducts root may admits good bad
      (perform action >>= fun answer ↦ check toError (answer? answer) >>= next) events := by
  intro tree answer changed hagrees hattempt
  obtain ⟨hproper, hnext⟩ := haction tree answer changed hagrees hattempt
  refine ⟨hproper, ?_⟩
  show Conducts root may admits good bad (check toError (answer? answer) >>= next) _
  cases hanswer : answer? answer with
  | ok value =>
    rw [hanswer] at hnext
    exact hnext
  | error fault =>
    rw [hanswer] at hnext
    exact hnext

theorem conducts_perform_check {action : Action} {answer? : action.Answer → Except StoreFault α}
    {toError : StoreFault → IndexError}
    (haction : ∀ tree answer changed, Agrees root events tree →
      tree.Attempts may action answer changed → Proper root admits events ⟨action, answer⟩ ∧
        match answer? answer with
        | .ok value => good value (⟨action, answer⟩ :: events)
        | .error _ => bad (⟨action, answer⟩ :: events)) :
    Conducts root may admits good bad
      (perform action >>= fun answer ↦ check toError (answer? answer)) events := by
  have hbind : (perform action >>= fun answer ↦ check toError (answer? answer)) =
      perform action >>= fun answer ↦ check toError (answer? answer) >>= pure := by
    simp only [bind_pure]
  rw [hbind]
  exact conducts_perform_check_bind haction

end IndexProgram

/-! ## Staged files -/

/-- Of the staged files only one has changed. -/
def Redrafted (events last : List Event) (location : Location) (draft : Option Draft) : Prop :=
  draftsOf last = Function.update (draftsOf events) location draft

/-- Of two changes of one staged file the second counts. -/
theorem Redrafted.trans {between last : List Event} {location : Location}
    {first second : Option Draft} (hfirst : Redrafted events between location first)
    (hsecond : Redrafted between last location second) :
    Redrafted events last location second := by
  rw [Redrafted, hsecond, hfirst, Function.update_idem]

theorem Redrafted.self {last : List Event} {location : Location} {draft : Option Draft}
    (hredrafted : Redrafted events last location draft) : draftsOf last location = draft := by
  rw [hredrafted, Function.update_self]

theorem Redrafted.other {last : List Event} {location other : Location} {draft : Option Draft}
    (hredrafted : Redrafted events last location draft) (hother : other ≠ location) :
    draftsOf last other = draftsOf events other := by
  rw [hredrafted, Function.update_of_ne hother]

/-- What was staged before is still there as it was. -/
def Spared (events last : List Event) : Prop :=
  ∀ location draft, draftsOf events location = some draft → draftsOf last location = some draft

theorem Redrafted.spared {last : List Event} {location : Location} {draft : Option Draft}
    (hredrafted : Redrafted events last location draft) (hfree : draftsOf events location = none) :
    Spared events last := by
  intro other held hheld
  rw [hredrafted.other, hheld]
  rintro rfl
  rw [hfree] at hheld
  cases hheld

namespace StagedFile

open IndexProgram (Conducts conducts_bind conducts_imp conducts_onFailure conducts_perform_check
  conducts_perform_check_bind conducts_pure)

/-- The staged file is one of the directory. -/
def IsIn (root : Path) (staged : StagedFile) (location : Location) : Prop :=
  Location.ofPath staged.temporary = some location ∧
    ∃ name, IsTemporary name ∧ location = Location.ofDirectory root ++ [name]

theorem path_of_attempts {tree changed : Tree} {place path : Path}
    {answer : (Action.stage place).Answer} (hattempt : tree.Attempts may (.stage place) answer changed)
    (hanswer : answer = .ok path) : path = Path.join place tree.freshName := by
  cases hattempt with
  | works => exact (Tree.stage_becomes (Tree.answer_stage hanswer)).1
  | fails _ hrefusal =>
    rw [hanswer] at hrefusal
    cases hrefusal
  | breaks _ haction => cases haction

/-- A new staged file is empty and was not there before. -/
theorem createIn_conducts {place : Path}
    (hplace : Location.ofDirectory place = Location.ofDirectory root) :
    Conducts root may admits
      (fun staged last ↦ staged.directory = place ∧ ∃ location, staged.IsIn root location ∧
        draftsOf events location = none ∧ Redrafted events last location (some (.holds [])))
      (Spared events) (createIn place) events := by
  unfold createIn
  apply conducts_perform_check_bind
  intro tree answer changed _ _
  refine ⟨.looks rfl, ?_⟩
  cases answer with
  | error fault => exact fun _ _ hdraft ↦ hdraft
  | ok done =>
    apply conducts_perform_check_bind
    intro tree answer changed hagrees hattempt
    refine ⟨.stages hplace, ?_⟩
    cases hanswer : answer with
    | error fault => exact fun _ _ hdraft ↦ hdraft
    | ok path =>
      obtain rfl := path_of_attempts hattempt hanswer
      have hpath := Location.ofPath_join place tree.isName_freshName
      rw [hplace] at hpath
      refine conducts_pure ⟨rfl, _, ⟨hpath, _, ⟨tree, rfl⟩, rfl⟩, ?_, ?_⟩
      · cases hdraft : draftsOf events (Location.ofDirectory root ++ [tree.freshName]) with
        | none => rfl
        | some draft =>
          obtain ⟨-, contents, hcontents, -⟩ := hagrees _ draft hdraft
          rw [Tree.files_of_none (Tree.find?_freshName _ _)] at hcontents
          cases hcontents
      · exact Drafts.alter_eq (draftsOf events) hpath fun _ ↦ some (.holds [])

section

variable {staged : StagedFile} {location : Location} (hin : staged.IsIn root location)
include hin

theorem append_conducts {contents : Bytes}
    (hdraft : draftsOf events location = some (.holds contents)) (path : Path) (bytes : Bytes) :
    Conducts root may admits
      (fun _ last ↦ Redrafted events last location (some (.holds (contents ++ bytes))))
      (fun last ↦ Redrafted events last location (some .broken))
      (staged.append path bytes) events := by
  unfold append
  apply conducts_perform_check
  intro tree answer changed _ _
  refine ⟨.appends hin.1 hdraft, ?_⟩
  have halters := fun change ↦ Drafts.alter_eq (draftsOf events) hin.1 change
  simp only [hdraft] at halters
  cases answer with
  | error fault => exact halters (·.map fun _ ↦ .broken)
  | ok done => exact halters (·.map (Draft.append bytes))

theorem discard_conducts {draft : Draft} (hdraft : draftsOf events location = some draft) :
    staged.discard.Conducts root may admits (fun _ last ↦ Redrafted events last location none)
      events := by
  intro tree answer changed _ _
  exact ⟨.removes hin.1 (.inl ⟨draft, hdraft⟩),
    Drafts.alter_eq (draftsOf events) hin.1 fun _ ↦ none⟩

/-- A complete staged file is published, or it is discarded. -/
theorem persist_conducts {name : String} {contents : Bytes} (hname : Path.IsName name)
    (hhead : name.toList.head? ≠ some '.')
    (hdraft : draftsOf events location = some (.holds contents))
    (hadmits : ∀ more, events <:+ more → admits more name contents) :
    Conducts root may admits
      (fun _ last ↦ Wrote last (Path.join root name) contents ∧ Redrafted events last location none)
      (fun last ↦ Redrafted events last location none) (staged.persist (Path.join root name))
      events := by
  unfold persist
  apply conducts_onFailure
  apply conducts_perform_check_bind
  intro tree answer changed _ _
  refine ⟨.looks rfl, ?_⟩
  -- an action that fails, and one that only looks, leaves the drafts as they are
  cases answer with
  | error fault => exact discard_conducts hin hdraft
  | ok done =>
    apply conducts_perform_check
    intro tree answer changed _ _
    refine ⟨.publishes hin.1 hname hhead hdraft (hadmits _ (List.suffix_cons _ _)), ?_⟩
    cases answer with
    | error fault => exact discard_conducts hin hdraft
    | ok done => exact ⟨wrote_rename hin.1 hdraft done,
        Drafts.alter_eq (draftsOf events) hin.1 fun _ ↦ none⟩

end

end StagedFile

/-- Publishing a file under a name that is admitted. -/
theorem publishFile_conducts {name : String} {contents : Bytes} (hname : Path.IsName name)
    (hhead : name.toList.head? ≠ some '.')
    (hadmits : ∀ more, admits more name contents) :
    IndexProgram.Conducts root may admits (fun _ _ ↦ True) (fun _ ↦ True)
      (publishFile (Path.join root name) contents) events := by
  have hplace := Location.ofDirectory_directoryOf_join root hname
  unfold publishFile publishPieces StagedFile.create
  apply IndexProgram.conducts_bind
  apply IndexProgram.conducts_bind
  apply IndexProgram.conducts_imp (StagedFile.createIn_conducts hplace) _ fun _ _ ↦ trivial
  rintro staged created ⟨-, location, hin, -, hmade⟩
  apply IndexProgram.conducts_pure
  apply IndexProgram.conducts_bind
  apply IndexProgram.conducts_onFailure
  apply IndexProgram.conducts_bind
  apply IndexProgram.conducts_bind
  have hplaced : ({ staged with target := some (Path.join root name) } : StagedFile).IsIn root
    location := hin
  apply IndexProgram.conducts_imp (StagedFile.append_conducts hplaced hmade.self _ _)
  · intro _ written hwritten
    apply IndexProgram.conducts_pure
    apply IndexProgram.conducts_pure
    apply IndexProgram.conducts_imp (StagedFile.persist_conducts hplaced hname hhead
      hwritten.self fun more _ ↦ hadmits more)
    · exact fun _ _ _ ↦ trivial
    · exact fun _ _ ↦ trivial
  · intro broken hbroken
    apply StoreProgram.Conducts.imp (StagedFile.discard_conducts hplaced hbroken.self)
    exact fun _ _ _ ↦ trivial

end VectorIndex
