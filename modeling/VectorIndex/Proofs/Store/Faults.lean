import VectorIndex.Proofs.Store.Directories

/-!
# Programs that are disturbed

An action may fail: then it has no effect, or adds a part of its bytes to a file. A program may
also be cut off between two actions. What is true of the store after each action, whatever fails,
is what a crash leaves and what a reader finds.
-/

namespace VectorIndex

/-! ## Faults -/

/-- The answer of an action that fails, if it can. -/
def Action.refusal? (fault : StoreFault) : (action : Action) → Option action.Answer
  | .inspect _ => some none
  | .modified _ => some none
  | .fetch _ => some (.error fault)
  | .list _ => some (.error fault)
  | .makeDirectories _ => some (.error fault)
  | .stage _ => some (.error fault)
  | .append .. => some (.error fault)
  | .synchronize _ => some (.error fault)
  | .rename .. => some (.error fault)
  | .remove _ => some (.error fault)
  | .overwrite .. => some (.error fault)
  | .now => none
  | .ancestors => none

/-- Whether the action finds files or removes them. -/
def Action.clears : Action → Bool
  | .inspect _ => true
  | .list _ => true
  | .remove _ => true
  | _ => false

/-- What an action may come to when it is one that may fail. -/
inductive Tree.Attempts (may : Action → Bool) (tree : Tree) (action : Action) :
    action.Answer → Tree → Prop
  | works : Attempts may tree action (tree.answer action).1 (tree.answer action).2
  | fails {fault : StoreFault} {answer : action.Answer} (hmay : may action = true)
    (hanswer : action.refusal? fault = some answer) : Attempts may tree action answer tree
  | breaks {fault : StoreFault} {answer : action.Answer} {path : Path} {bytes : Bytes}
    (hmay : may action = true) (haction : action = .append path bytes)
    (hanswer : action.refusal? fault = some answer) (count : Nat) :
    Attempts may tree action answer (tree.answer (.append path (bytes.take count))).2

/-- An action that was taken, with its answer. -/
structure Event where
  action : Action
  answer : action.Answer

/-- Whether a file was moved to the path. -/
def Event.commits (target : Path) : Event → Bool
  | ⟨.rename _ place, .ok _⟩ => place = target
  | _ => false

/-- The program comes to the second one, with the actions that it takes. -/
inductive StoreProgram.Reaches {α : Type} (may : Action → Bool) :
    StoreProgram α → Tree → List Event → StoreProgram α → Tree → Prop
  | here (program : StoreProgram α) (tree : Tree) : Reaches may program tree [] program tree
  | after {action : Action} {next : action.Answer → StoreProgram α} {tree changed : Tree}
    {answer : action.Answer} {history : List Event} {last : StoreProgram α} {final : Tree}
    (hattempt : tree.Attempts may action answer changed)
    (hrest : Reaches may (next answer) changed history last final) :
    Reaches may (.act action next) tree (⟨action, answer⟩ :: history) last final

/-! ## What is always true -/

/-- What a program is watched for: the actions of it that may fail, the target whose renaming is the
commit, and what has to be true of the store before the commit and since. -/
structure Watch where
  may : Action → Bool
  target : Path
  safe : Bool → Tree → Prop

namespace StoreProgram

variable {α β : Type} {watch : Watch}

/-- After every action the store is safe, and when the program ends the property holds of its
value, of whether it has committed, and of the store. -/
def Withstands (watch : Watch) (property : α → Bool → Tree → Prop) :
    StoreProgram α → Bool → Tree → Prop
  | done value, committed, tree => property value committed tree
  | act action next, committed, tree => ∀ answer changed,
    tree.Attempts watch.may action answer changed →
      watch.safe (committed || Event.commits watch.target ⟨action, answer⟩) changed ∧
        (next answer).Withstands watch property
          (committed || Event.commits watch.target ⟨action, answer⟩) changed

theorem Withstands.imp {first second : α → Bool → Tree → Prop} {program : StoreProgram α}
    {committed : Bool} {tree : Tree} (hprogram : program.Withstands watch first committed tree)
    (himp : ∀ value last final, first value last final → second value last final) :
    program.Withstands watch second committed tree := by
  induction program generalizing committed tree with
  | done value => exact himp value committed tree hprogram
  | act action next ih =>
    intro answer changed hattempt
    obtain ⟨hsafe, hnext⟩ := hprogram answer changed hattempt
    exact ⟨hsafe, ih answer hnext⟩

theorem Withstands.bind {property : β → Bool → Tree → Prop} {program : StoreProgram α}
    {next : α → StoreProgram β} {committed : Bool} {tree : Tree}
    (hprogram : program.Withstands watch
      (fun value last final ↦ (next value).Withstands watch property last final) committed tree) :
    (program >>= next).Withstands watch property committed tree := by
  induction program generalizing committed tree with
  | done value => exact hprogram
  | act action more ih =>
    intro answer changed hattempt
    obtain ⟨hsafe, hmore⟩ := hprogram answer changed hattempt
    exact ⟨hsafe, ih answer hmore⟩

/-- What a program always returns it returns when it is disturbed. -/
theorem Withstands.always {property : α → Bool → Tree → Prop} {returns : α → Prop}
    {program : StoreProgram α} {committed : Bool} {tree : Tree}
    (hprogram : program.Withstands watch property committed tree)
    (halways : program.Always returns) :
    program.Withstands watch (fun value last final ↦ property value last final ∧ returns value)
      committed tree := by
  induction program generalizing committed tree with
  | done value => exact ⟨hprogram, halways⟩
  | act action next ih =>
    intro answer changed hattempt
    obtain ⟨hsafe, hnext⟩ := hprogram answer changed hattempt
    exact ⟨hsafe, ih answer hnext (halways answer)⟩

/-- Wherever the program is cut off the store is safe, and the rest withstands as before. -/
theorem Withstands.reaches {property : α → Bool → Tree → Prop} {program last : StoreProgram α}
    {committed : Bool} {tree final : Tree} {history : List Event}
    (hprogram : program.Withstands watch property committed tree)
    (hsafe : watch.safe committed tree)
    (hreaches : program.Reaches watch.may tree history last final) :
    watch.safe (committed || history.any (Event.commits watch.target)) final ∧
      last.Withstands watch property
        (committed || history.any (Event.commits watch.target)) final := by
  induction hreaches generalizing committed with
  | here program tree =>
    rw [List.any_nil, Bool.or_false]
    exact ⟨hsafe, hprogram⟩
  | after hattempt hrest ih =>
    obtain ⟨hsafe, hnext⟩ := hprogram _ _ hattempt
    rw [List.any_cons, ← Bool.or_assoc]
    exact ih hnext hsafe

/-- Every action that the program takes is allowed. -/
def Takes (allowed : Action → Prop) : StoreProgram α → Prop
  | done _ => True
  | act action next => allowed action ∧ ∀ answer, (next answer).Takes allowed

theorem Takes.bind {allowed : Action → Prop} {program : StoreProgram α}
    {next : α → StoreProgram β} (hprogram : program.Takes allowed)
    (hnext : ∀ value, (next value).Takes allowed) : (program >>= next).Takes allowed := by
  induction program with
  | done value => exact hnext value
  | act action more ih => exact ⟨hprogram.1, fun answer ↦ ih answer (hprogram.2 answer)⟩

/-- A program none of whose actions may fail ends as it does when nothing disturbs it. -/
theorem Withstands.undisturbed {property : α → Bool → Tree → Prop} {program : StoreProgram α}
    {committed : Bool} {tree : Tree}
    (hprogram : program.Withstands watch property committed tree) {allowed : Action → Prop}
    (htakes : program.Takes allowed) (hmay : ∀ action, allowed action → watch.may action = false) :
    program.Withstands watch (fun value last final ↦ property value last final ∧
      program.run tree = (value, final)) committed tree := by
  induction program generalizing committed tree with
  | done value => exact ⟨hprogram, rfl⟩
  | act action next ih =>
    intro answer changed hattempt
    obtain ⟨hsafe, hnext⟩ := hprogram answer changed hattempt
    refine ⟨hsafe, ?_⟩
    have hnever : watch.may action ≠ true := by
      rw [hmay action htakes.1]
      exact Bool.false_ne_true
    cases hattempt with
    | works => exact ih _ hnext (htakes.2 _)
    | fails hfails => exact absurd hfails hnever
    | breaks hbreaks => exact absurd hbreaks hnever

/-- A program that nothing disturbs comes to what follows it. -/
theorem exists_reaches_bind (may : Action → Bool) (program : StoreProgram α)
    (next : α → StoreProgram β) (tree : Tree) :
    ∃ history, (program >>= next).Reaches may tree history (next (program.run tree).1)
      (program.run tree).2 := by
  induction program generalizing tree with
  | done value => exact ⟨[], .here _ _⟩
  | act action more ih =>
    obtain ⟨history, hrest⟩ := ih (tree.answer action).1 (tree.answer action).2
    exact ⟨_, .after .works hrest⟩

/-- A run that nothing disturbs is one of the runs that may be disturbed. -/
theorem exists_reaches_run (may : Action → Bool) (program : StoreProgram α) (tree : Tree) :
    ∃ history, program.Reaches may tree history (.done (program.run tree).1)
      (program.run tree).2 := by
  have hreaches := exists_reaches_bind may program done tree
  rwa [show program >>= done = program from bind_done program] at hreaches

theorem Reaches.trans {may : Action → Bool} {first second third : StoreProgram α}
    {start tree final : Tree} {before after : List Event}
    (hfirst : first.Reaches may start before second tree)
    (hsecond : second.Reaches may tree after third final) :
    first.Reaches may start (before ++ after) third final := by
  induction hfirst with
  | here => exact hsecond
  | after hattempt _ ih => exact .after hattempt (ih hsecond)

/-- The program can be cut off where the store is like this. -/
def Passes (may : Action → Bool) (place : Tree → Prop) (program : StoreProgram α) (tree : Tree) :
    Prop :=
  ∃ history last final, program.Reaches may tree history last final ∧ place final

theorem passes_here {may : Action → Bool} {place : Tree → Prop} (program : StoreProgram α)
    {tree : Tree} (hplace : place tree) : program.Passes may place tree :=
  ⟨[], program, tree, .here program tree, hplace⟩

end StoreProgram

namespace IndexProgram

variable {α β : Type} {watch : Watch} {committed : Bool} {tree : Tree}

/-- The same for a program that may fail. -/
def Withstands (watch : Watch) (property : Except IndexError α → Bool → Tree → Prop)
    (program : IndexProgram α) (committed : Bool) (tree : Tree) : Prop :=
  StoreProgram.Withstands watch property (ExceptT.run program) committed tree

/-- What follows a program that succeeds is passed after it. -/
theorem passes_bind {may : Action → Bool} {place : Tree → Prop} {program : IndexProgram α}
    {next : α → IndexProgram β} {changed : Tree} {value : α}
    (hrun : program.runOn tree = (.ok value, changed))
    (hnext : StoreProgram.Passes may place (next value).run changed) :
    StoreProgram.Passes may place (program >>= next).run tree := by
  obtain ⟨after, last, final, hafter, hplace⟩ := hnext
  obtain ⟨before, hbefore⟩ :=
    StoreProgram.exists_reaches_bind may program.run (ExceptT.bindCont next) tree
  rw [show StoreProgram.run program.run tree = (.ok value, changed) from hrun] at hbefore
  exact ⟨before ++ after, last, final, hbefore.trans hafter, hplace⟩

variable {property : Except IndexError β → Bool → Tree → Prop}

theorem withstands_imp {first second : Except IndexError α → Bool → Tree → Prop}
    {program : IndexProgram α} (hprogram : Withstands watch first program committed tree)
    (himp : ∀ result last final, first result last final → second result last final) :
    Withstands watch second program committed tree :=
  StoreProgram.Withstands.imp hprogram himp

theorem withstands_bind {program : IndexProgram α} {next : α → IndexProgram β}
    (hprogram : Withstands watch (fun result last final ↦ match result with
      | .ok value => Withstands watch property (next value) last final
      | .error error => property (.error error) last final) program committed tree) :
    Withstands watch property (program >>= next) committed tree := by
  unfold Withstands
  rw [ExceptT.run_bind]
  apply StoreProgram.Withstands.bind
  apply StoreProgram.Withstands.imp hprogram
  intro result last final hresult
  cases result with
  | ok value => exact hresult
  | error error => exact hresult

theorem withstands_onFailure {program : IndexProgram β} {cleanup : StoreProgram Unit}
    (hprogram : Withstands watch (fun result last final ↦ match result with
      | .ok value => property (.ok value) last final
      | .error error => StoreProgram.Withstands watch
        (fun _ last final ↦ property (.error error) last final) cleanup last final)
      program committed tree) :
    Withstands watch property (onFailure program cleanup) committed tree := by
  unfold Withstands onFailure
  rw [ExceptT.run_mk]
  apply StoreProgram.Withstands.bind
  apply StoreProgram.Withstands.imp hprogram
  intro result last final hresult
  cases result with
  | ok value => exact hresult
  | error error => exact StoreProgram.Withstands.bind hresult

theorem withstands_pure {value : β} (hvalue : property (.ok value) committed tree) :
    Withstands watch property (pure value) committed tree := hvalue

theorem withstands_ofExcept {result : Except IndexError β}
    (hresult : property result committed tree) :
    Withstands watch property (ofExcept result) committed tree := hresult

theorem withstands_perform {action : Action}
    {property : Except IndexError action.Answer → Bool → Tree → Prop}
    (haction : ∀ answer changed, tree.Attempts watch.may action answer changed →
      watch.safe (committed || Event.commits watch.target ⟨action, answer⟩) changed ∧
        property (.ok answer) (committed || Event.commits watch.target ⟨action, answer⟩)
          changed) :
    Withstands watch property (perform action) committed tree := haction

/-- An action that is checked: what it does when it works, and what its failure leaves. -/
theorem withstands_perform_check {action : Action} {γ : Type} {toError : StoreFault → IndexError}
    {property : Except IndexError γ → Bool → Tree → Prop}
    {check? : action.Answer → Except StoreFault γ}
    (haction : ∀ answer changed, tree.Attempts watch.may action answer changed →
      watch.safe (committed || Event.commits watch.target ⟨action, answer⟩) changed ∧
        property ((check? answer).mapError toError)
          (committed || Event.commits watch.target ⟨action, answer⟩) changed) :
    Withstands watch property (perform action >>= fun answer ↦ check toError (check? answer))
      committed tree := haction

theorem withstands_perform_check_bind {action : Action} {γ : Type}
    {toError : StoreFault → IndexError} {check? : action.Answer → Except StoreFault γ}
    {next : γ → IndexProgram β}
    (haction : ∀ answer changed, tree.Attempts watch.may action answer changed →
      watch.safe (committed || Event.commits watch.target ⟨action, answer⟩) changed ∧
        match check? answer with
        | .ok value => Withstands watch property (next value)
          (committed || Event.commits watch.target ⟨action, answer⟩) changed
        | .error fault => property (.error (toError fault))
          (committed || Event.commits watch.target ⟨action, answer⟩) changed) :
    Withstands watch property
      (perform action >>= fun answer ↦ check toError (check? answer) >>= next)
      committed tree := by
  intro answer changed hattempt
  obtain ⟨hsafe, hnext⟩ := haction answer changed hattempt
  refine ⟨hsafe, ?_⟩
  show Withstands watch property (check toError (check? answer) >>= next) _ changed
  cases hanswer : check? answer with
  | ok value =>
    rw [hanswer] at hnext
    exact hnext
  | error fault =>
    rw [hanswer] at hnext
    exact hnext

end IndexProgram

/-! ## Programs that read -/

namespace IndexProgram

variable {α β : Type}

/-- The program commits and changes nothing, and what it returns it returns undisturbed as well. -/
def Faithful (program : IndexProgram α) : Prop :=
  ∀ (watch : Watch) (committed : Bool) (tree : Tree), watch.safe committed tree →
    Withstands watch (fun result last final ↦ last = committed ∧ final = tree ∧
      ∀ value, result = .ok value → program.runOn tree = (.ok value, tree))
      program committed tree

theorem Faithful.runOn {program : IndexProgram α} (hprogram : program.Faithful) (tree : Tree) :
    (program.runOn tree).2 = tree := by
  let watch : Watch := ⟨fun _ ↦ false, "", fun _ _ ↦ True⟩
  obtain ⟨history, hreaches⟩ :=
    StoreProgram.exists_reaches_run watch.may (ExceptT.run program) tree
  exact ((StoreProgram.Withstands.reaches (hprogram watch false tree trivial) trivial
    hreaches).2).2.1

theorem faithful_ofExcept (result : Except IndexError α) : Faithful (ofExcept result) :=
  fun _ _ _ _ ↦ ⟨rfl, rfl, fun _ hvalue ↦ by rw [runOn_ofExcept, hvalue]⟩

theorem faithful_pure (value : α) : Faithful (pure value : IndexProgram α) :=
  faithful_ofExcept (.ok value)

theorem faithful_bind {program : IndexProgram α} {next : α → IndexProgram β}
    (hprogram : Faithful program) (hnext : ∀ value, Faithful (next value)) :
    Faithful (program >>= next) := by
  intro watch committed tree hsafe
  apply withstands_bind
  apply withstands_imp (hprogram watch committed tree hsafe)
  rintro result last final ⟨rfl, rfl, hresult⟩
  cases result with
  | error error => exact ⟨rfl, rfl, nofun⟩
  | ok value =>
    apply withstands_imp (hnext value watch last final hsafe)
    rintro result last' final' ⟨rfl, rfl, hlast⟩
    refine ⟨rfl, rfl, fun later hlater ↦ ?_⟩
    exact runOn_bind_ok.mpr ⟨value, final', hresult value rfl, hlast later hlater⟩

/-- Opening a file gives what is there, or an error. -/
theorem faithful_fetch (path : Path) (toError : StoreFault → IndexError) :
    Faithful (perform (.fetch path) >>= check toError) := by
  intro watch committed tree hsafe
  apply withstands_perform_check
  intro answer changed hattempt
  simp only [Event.commits, Bool.or_false]
  cases hattempt with
  | works => exact ⟨hsafe, trivial, rfl, fun value hvalue ↦ Prod.ext hvalue rfl⟩
  | fails _ hanswer =>
    obtain rfl := Option.some.inj hanswer
    exact ⟨hsafe, trivial, rfl, nofun⟩
  | breaks _ haction => cases haction

/-- A file that is found is there. -/
theorem faithful_exists? (path : Path) (error : IndexError) {program : IndexProgram α}
    (hprogram : Faithful program) :
    Faithful (ExceptT.lift (exists? path) >>= fun found ↦
      if found then program else throw error) := by
  intro watch committed tree hsafe answer changed hattempt
  simp only [Event.commits, Bool.or_false]
  cases hattempt with
  | works =>
    refine ⟨hsafe, ?_⟩
    cases hanswer : (tree.answer (.inspect path)).1 with
    | none => exact ⟨rfl, rfl, nofun⟩
    | some kind =>
      apply StoreProgram.Withstands.imp (hprogram watch committed tree hsafe)
      rintro result last final ⟨rfl, rfl, hresult⟩
      refine ⟨rfl, rfl, fun value hvalue ↦ ?_⟩
      rw [runOn_bind, runOn_lift]
      show IndexProgram.runOn (if (final.answer (.inspect path)).1.isSome then _ else _) final = _
      rw [hanswer]
      exact hresult value hvalue
  | fails _ hanswer =>
    obtain rfl := Option.some.inj hanswer
    exact ⟨hsafe, rfl, rfl, nofun⟩
  | breaks _ haction => cases haction

end IndexProgram

/-! ## Staged files -/

/-- Only staged files of a directory differ, and no directory is gone. -/
structure Tree.Drafts (directory : Location) (before after : Tree) : Prop where
  directories : ∀ location, before.IsDirectory location → after.IsDirectory location
  files_eq : ∀ location,
    (∀ name, StagedFile.IsTemporary name → location ≠ directory ++ [name]) →
      after.files location = before.files location

namespace Tree

theorem Drafts.refl (directory : Location) (tree : Tree) : tree.Drafts directory tree :=
  ⟨fun _ h ↦ h, fun _ _ ↦ rfl⟩

variable {tree changed : Tree} {directory : Location} {temporary : String}

/-- A staged file may be made, written or removed. -/
theorem Becomes.drafts {contents : Option Bytes} (htemporary : StagedFile.IsTemporary temporary)
    (hbecomes : tree.Becomes changed (tree.files.put (directory ++ [temporary]) contents)) :
    tree.Drafts directory changed := by
  refine ⟨hbecomes.directories, fun location hlocation ↦ ?_⟩
  rw [hbecomes.files_eq]
  exact Files.put_other _ _ (hlocation temporary htemporary)

theorem drafts_of_files_eq (action : Action)
    (hfiles : (tree.answer action).2.files = tree.files) :
    tree.Drafts directory (tree.answer action).2 :=
  ⟨fun _ h ↦ h.answer action, fun location _ ↦ congrFun hfiles location⟩

end Tree

/-- Whether the store is safe does not depend on the staged files of the directory. -/
def Watch.Overlooks (watch : Watch) (directory : Location) : Prop :=
  ∀ committed before after, before.Drafts directory after →
    watch.safe committed before → watch.safe committed after

/-- Nothing is committed, and the store is safe. -/
def Watch.Still {α : Type} (watch : Watch) (committed : Bool) (property : α → Tree → Prop)
    (value : α) (last : Bool) (final : Tree) : Prop :=
  last = committed ∧ watch.safe committed final ∧ property value final

namespace StagedFile

open IndexProgram (Withstands withstands_bind withstands_imp withstands_onFailure withstands_pure
  withstands_perform_check withstands_perform_check_bind)

section

variable {watch : Watch} {directory : Location} (hoverlooks : watch.Overlooks directory)
  {committed : Bool} {tree : Tree} (hsafe : watch.safe committed tree)
include hoverlooks hsafe

/-- Staging adds one empty file of a name that was unused, or only directories. -/
theorem createIn_withstands {place : Path} (hplace : Location.ofDirectory place = directory) :
    Withstands watch (watch.Still committed fun result changed ↦ ∀ staged, result = .ok staged →
      ∃ temporary, IsTemporary temporary ∧ staged.directory = place ∧
        Location.ofPath staged.temporary = some (directory ++ [temporary]) ∧
        tree.files (directory ++ [temporary]) = none ∧ changed.IsDirectory directory ∧
        tree.Becomes changed (tree.files.put (directory ++ [temporary]) (some [])))
      (createIn place) committed tree := by
  unfold createIn
  apply withstands_perform_check_bind
  intro answer made hmade
  have hdrafts : tree.Drafts directory made ∧ made.files = tree.files := by
    cases hmade with
    | works =>
      have hfiles := tree.files_makeDirectories place
      exact ⟨Tree.drafts_of_files_eq _ hfiles, hfiles⟩
    | fails => exact ⟨.refl _ _, rfl⟩
    | breaks _ haction => cases haction
  have hstill := hoverlooks committed _ _ hdrafts.1 hsafe
  simp only [Event.commits, Bool.or_false]
  refine ⟨hstill, ?_⟩
  cases answer with
  | error fault => exact ⟨rfl, hstill, nofun⟩
  | ok done =>
    apply withstands_perform_check_bind
    intro answer changed hstage
    simp only [Event.commits, Bool.or_false]
    cases hstage with
    | works =>
      cases hanswer : (made.answer (.stage place)).1 with
      | error fault =>
        rw [Tree.answer_stage_error hanswer]
        exact ⟨hstill, rfl, hstill, nofun⟩
      | ok path =>
        obtain ⟨rfl, hdirectory, hstaged⟩ := Tree.stage_becomes (Tree.answer_stage hanswer)
        rw [hplace] at hstaged hdirectory
        have hunused : made.files (directory ++ [made.freshName]) = none :=
          Tree.files_of_none (Tree.find?_freshName _ _)
        have hall := hoverlooks committed _ _ (hstaged.drafts ⟨made, rfl⟩) hstill
        refine ⟨hall, withstands_pure ⟨rfl, hall, ?_⟩⟩
        rintro staged hstaged'
        obtain rfl := Except.ok.inj hstaged'
        rw [hdrafts.2] at hunused hstaged
        refine ⟨made.freshName, ⟨made, rfl⟩, rfl, ?_, hunused, hstaged.directories _ hdirectory,
          hstaged.files_eq, fun l hl ↦ hstaged.directories l (hdrafts.1.directories l hl)⟩
        rw [← hplace]
        exact Location.ofPath_join place made.isName_freshName
    | fails _ hanswer =>
      obtain rfl := Option.some.inj hanswer
      exact ⟨hstill, rfl, hstill, nofun⟩
    | breaks _ haction => cases haction

variable {temporary : String} (htemporary : IsTemporary temporary) {staged : StagedFile}
  (hlocation : Location.ofPath staged.temporary = some (directory ++ [temporary]))
include htemporary hlocation

/-- A staged file is removed, or left where it is. -/
theorem discard_withstands :
    staged.discard.Withstands watch (watch.Still committed fun _ _ ↦ True) committed tree := by
  intro answer changed hremove
  simp only [Event.commits, Bool.or_false]
  have hstill : watch.safe committed changed := by
    cases hremove with
    | works =>
      have hloses : tree.Loses _ (· = directory ++ [temporary]) :=
        Tree.loses_remove hlocation rfl
      apply hoverlooks committed _ _ ⟨hloses.directories, fun location hother ↦ ?_⟩ hsafe
      exact hloses.keeps (hother temporary htemporary)
    | fails => exact hsafe
    | breaks _ haction => cases haction
  exact ⟨hstill, rfl, hstill, trivial⟩

/-- Bytes are added to the staged file, or some of them. -/
theorem append_withstands {held : Bytes} (hheld : tree.files (directory ++ [temporary]) = some held)
    (path : Path) (bytes : Bytes) :
    Withstands watch (watch.Still committed fun result changed ↦ result = .ok () →
      tree.Becomes changed
        (tree.files.put (directory ++ [temporary]) (some (held ++ bytes))))
      (staged.append path bytes) committed tree := by
  unfold append
  apply withstands_perform_check
  intro answer changed happend
  simp only [Event.commits, Bool.or_false]
  have hadds : ∀ part, ∃ contents, tree.Becomes (tree.answer (.append staged.temporary part)).2
      (tree.files.put (directory ++ [temporary]) contents) := by
    intro part
    cases hanswer : (tree.answer (.append staged.temporary part)).1 with
    | error fault =>
      have hsame : (tree.answer (.append staged.temporary part)).2 = tree :=
        Tree.change_error hanswer
      refine ⟨some held, ?_⟩
      rw [Files.put_of_eq hheld, hsame]
      exact tree.becomes_self
    | ok done =>
      obtain ⟨found, -, happended⟩ := Tree.answer_append hlocation hanswer
      exact ⟨_, happended⟩
  cases happend with
  | works =>
    obtain ⟨contents, hbecomes⟩ := hadds bytes
    have hstill := hoverlooks committed _ _ (hbecomes.drafts htemporary) hsafe
    refine ⟨hstill, rfl, hstill, fun hresult ↦ ?_⟩
    obtain ⟨found, hfound, happended⟩ :=
      Tree.answer_append hlocation (Result.mapError_ok.mp hresult)
    obtain rfl : found = held := Option.some.inj (hfound.symm.trans hheld)
    exact happended
  | fails _ hanswer =>
    obtain rfl := Option.some.inj hanswer
    exact ⟨hsafe, rfl, hsafe, nofun⟩
  | breaks _ haction hanswer count =>
    cases haction
    obtain ⟨contents, hbecomes⟩ := hadds (bytes.take count)
    have hstill := hoverlooks committed _ _ (hbecomes.drafts htemporary) hsafe
    obtain rfl := Option.some.inj hanswer
    exact ⟨hstill, rfl, hstill, nofun⟩

/-- A staged file is moved to its target, and this may be the commit, or it is discarded. -/
theorem persist_withstands {contents : Bytes}
    (hheld : tree.files (directory ++ [temporary]) = some contents) {target : Path}
    {place : Location} (htarget : Location.ofPath target = some place)
    (hmoved : ∀ changed, tree.Becomes changed
      ((tree.files.put (directory ++ [temporary]) none).put place (some contents)) →
        watch.safe (committed || decide (target = watch.target)) changed) :
    Withstands watch (fun result last final ↦ match result with
      | .ok _ => last = (committed || decide (target = watch.target)) ∧
        tree.Becomes final
          ((tree.files.put (directory ++ [temporary]) none).put place (some contents))
      | .error _ => last = committed ∧ watch.safe committed final)
      (staged.persist target) committed tree := by
  have hdiscard : staged.discard.Withstands watch
      (fun _ last final ↦ last = committed ∧ watch.safe committed final) committed tree :=
    (discard_withstands hoverlooks hsafe htemporary hlocation).imp
      fun _ _ _ hstill ↦ ⟨hstill.1, hstill.2.1⟩
  unfold persist
  apply withstands_onFailure
  apply withstands_perform_check_bind
  intro answer same hsynchronize
  simp only [Event.commits, Bool.or_false]
  obtain rfl : same = tree := by
    cases hsynchronize with
    | works => rfl
    | fails => rfl
    | breaks _ haction => cases haction
  refine ⟨hsafe, ?_⟩
  cases answer with
  | error fault => exact hdiscard
  | ok done =>
    apply withstands_perform_check
    intro answer changed hrename
    cases hrename with
    | works =>
      cases hanswer : (same.answer (.rename staged.temporary target)).1 with
      | error fault =>
        have hsame : (same.answer (.rename staged.temporary target)).2 = same :=
          Tree.change_error hanswer
        rw [hsame]
        simp only [Event.commits, Bool.or_false]
        exact ⟨hsafe, hdiscard⟩
      | ok done =>
        obtain ⟨found, hfound, hbecomes⟩ := Tree.answer_rename hlocation htarget hanswer
        obtain rfl : found = contents := Option.some.inj (hfound.symm.trans hheld)
        exact ⟨hmoved _ hbecomes, rfl, hbecomes⟩
    | fails _ hanswer =>
      obtain rfl := Option.some.inj hanswer
      simp only [Event.commits, Bool.or_false]
      exact ⟨hsafe, hdiscard⟩
    | breaks _ haction => cases haction

end

/-- Publishing a file replaces it at once, or leaves it as it was. -/
theorem publishFile_withstands {watch : Watch} {directory : Location}
    (hoverlooks : watch.Overlooks directory) {committed : Bool} {tree : Tree}
    (hsafe : watch.safe committed tree) {target : Path} {place : Location} {contents : Bytes}
    (hplace : Location.ofDirectory (directoryOf target) = directory)
    (htarget : Location.ofPath target = some place)
    (hmoved : ∀ before changed temporary, IsTemporary temporary → watch.safe committed before →
      before.Becomes changed
        ((before.files.put (directory ++ [temporary]) none).put place (some contents)) →
          watch.safe (committed || decide (target = watch.target)) changed) :
    Withstands watch (fun _ _ _ ↦ True) (publishFile target contents) committed tree := by
  unfold publishFile publishPieces create
  apply withstands_bind
  apply withstands_bind
  apply withstands_imp (createIn_withstands hoverlooks hsafe hplace)
  rintro result last created ⟨rfl, hstill, hcreated⟩
  cases result with
  | error error => trivial
  | ok staged =>
    obtain ⟨temporary, htemporary, -, hlocation, -, -, hmade⟩ := hcreated staged rfl
    have hempty : created.files (directory ++ [temporary]) = some [] := by
      rw [hmade.files_eq, Files.put_self]
    have hlocated : Location.ofPath
        ({ staged with target := some target } : StagedFile).temporary =
          some (directory ++ [temporary]) := hlocation
    apply withstands_pure
    apply withstands_bind
    apply withstands_onFailure
    apply withstands_bind
    apply withstands_bind
    apply withstands_imp
      (append_withstands hoverlooks hstill htemporary hlocated hempty target contents)
    rintro result last written ⟨rfl, hstill, hwritten⟩
    cases result with
    | error error =>
      exact (discard_withstands hoverlooks hstill htemporary hlocated).imp fun _ _ _ _ ↦ trivial
    | ok done =>
      have hheld : written.files (directory ++ [temporary]) = some contents := by
        rw [(hwritten rfl).files_eq, Files.put_self, List.nil_append]
      apply withstands_pure
      apply withstands_pure
      apply withstands_imp (persist_withstands hoverlooks hstill htemporary hlocated hheld htarget
        fun changed ↦ hmoved written changed temporary htemporary hstill)
      exact fun _ _ _ _ ↦ trivial

end StagedFile

/-! ## Publishing undisturbed -/

/-- Every file is as it was, staged files aside, or it is the one at the place and holds the
contents. -/
structure Tree.Replaces (before after : Tree) (directory place : Location) (contents : Bytes) :
    Prop where
  directories : ∀ location, before.IsDirectory location → after.IsDirectory location
  files_eq : ∀ location, (∀ name, StagedFile.IsTemporary name → location ≠ directory ++ [name]) →
    after.files location = before.files location ∨
      location = place ∧ after.files location = some contents

/-- Whatever comes of publishing a file, all others are as they were. -/
theorem publishFile_replaces (directory : Path) {name : String} (hname : Path.IsName name)
    (contents : Bytes) (tree : Tree) :
    tree.Replaces ((publishFile (Path.join directory name) contents).runOn tree).2
      (Location.ofDirectory directory) (Location.ofDirectory directory ++ [name]) contents := by
  have hplace := Location.ofDirectory_directoryOf_join directory hname
  let watch : Watch := ⟨fun _ ↦ false, Path.join directory name, fun _ after ↦ tree.Replaces after
    (Location.ofDirectory directory) (Location.ofDirectory directory ++ [name]) contents⟩
  have hstart : watch.safe false tree := ⟨fun _ h ↦ h, fun _ _ ↦ .inl rfl⟩
  have hoverlooks : watch.Overlooks (Location.ofDirectory directory) := by
    intro _ before after hdrafts hsafe
    refine ⟨fun l h ↦ hdrafts.directories l (hsafe.directories l h), fun location hlocation ↦ ?_⟩
    rw [hdrafts.files_eq location hlocation]
    exact hsafe.files_eq location hlocation
  have hwithstands : IndexProgram.Withstands watch (fun _ _ _ ↦ True)
      (publishFile (Path.join directory name) contents) false tree := by
    apply StagedFile.publishFile_withstands hoverlooks hstart hplace
      (Location.ofPath_join directory hname)
    intro before changed temporary htemporary hsafe hbecomes
    refine ⟨fun l h ↦ hbecomes.directories l (hsafe.directories l h), fun location hlocation ↦ ?_⟩
    rw [hbecomes.files_eq]
    by_cases hlast : location = Location.ofDirectory directory ++ [name]
    · rw [hlast, Files.put_self]
      exact .inr ⟨rfl, rfl⟩
    · rw [Files.put_other _ _ hlast, Files.put_other _ _ (hlocation temporary htemporary)]
      exact hsafe.files_eq location hlocation
  obtain ⟨history, hreaches⟩ := StoreProgram.exists_reaches_run watch.may
    (ExceptT.run (publishFile (Path.join directory name) contents)) tree
  exact (hwithstands.reaches hstart hreaches).1

end VectorIndex
