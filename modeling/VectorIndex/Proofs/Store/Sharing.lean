import VectorIndex.Proofs.Store.Staging

/-!
# Programs that share a store

Between two actions of a program others may change the store. What the program can rely on, and
what it may do to others, is a discipline that each of its actions has to keep. A program that
publishes a file owns its staged file and its target, and leaves every other file alone.
-/

namespace VectorIndex

/-- How a program shares the store. An account says what the program owns: the store agrees with
it for as long as others leave that alone, and an action is allowed to take the store from one
account to the next when it leaves alone what others own. -/
structure Discipline (σ : Type) where
  agrees : σ → Tree → Prop
  allows : σ → σ → Tree → Tree → Prop

namespace StoreProgram

variable {σ α β : Type} {discipline : Discipline σ}

/-- On every store that agrees with its account an action of the program is allowed and leads to an
account with which the store agrees again. The returned value and the last account have the
property. -/
def Keeps (discipline : Discipline σ) (property : α → σ → Prop) : StoreProgram α → σ → Prop
  | done value, account => property value account
  | act action next, account => ∀ tree, discipline.agrees account tree → ∃ later,
      discipline.allows account later tree (tree.answer action).2 ∧
        discipline.agrees later (tree.answer action).2 ∧
          (next (tree.answer action).1).Keeps discipline property later

theorem Keeps.imp {first second : α → σ → Prop} {program : StoreProgram α} {account : σ}
    (hprogram : program.Keeps discipline first account)
    (himp : ∀ value last, first value last → second value last) :
    program.Keeps discipline second account := by
  induction program generalizing account with
  | done value => exact himp value account hprogram
  | act action next ih =>
    intro tree htree
    obtain ⟨later, hallows, hagrees, hnext⟩ := hprogram tree htree
    exact ⟨later, hallows, hagrees, ih _ hnext⟩

theorem Keeps.bind {property : β → σ → Prop} {program : StoreProgram α}
    {next : α → StoreProgram β} {account : σ}
    (hprogram : program.Keeps discipline
      (fun value last ↦ (next value).Keeps discipline property last) account) :
    (program >>= next).Keeps discipline property account := by
  induction program generalizing account with
  | done value => exact hprogram
  | act action more ih =>
    intro tree htree
    obtain ⟨later, hallows, hagrees, hmore⟩ := hprogram tree htree
    exact ⟨later, hallows, hagrees, ih _ hmore⟩

/-- Every action of the program leaves the store as it is. -/
def OnlyReads : StoreProgram α → Prop
  | done _ => True
  | act action next =>
    (∀ tree : Tree, (tree.answer action).2 = tree) ∧ ∀ answer, (next answer).OnlyReads

theorem OnlyReads.bind {program : StoreProgram α} {next : α → StoreProgram β}
    (hprogram : program.OnlyReads) (hnext : ∀ value, (next value).OnlyReads) :
    (program >>= next).OnlyReads := by
  induction program with
  | done value => exact hnext value
  | act action more ih => exact ⟨hprogram.1, fun answer ↦ ih answer (hprogram.2 answer)⟩

theorem OnlyReads.run {program : StoreProgram α} (hprogram : program.OnlyReads) (tree : Tree) :
    (program.run tree).2 = tree := by
  induction program generalizing tree with
  | done value => rfl
  | act action more ih =>
    show ((more _).run (tree.answer action).2).2 = tree
    rw [hprogram.1 tree]
    exact ih _ (hprogram.2 _) tree

end StoreProgram

namespace IndexProgram

variable {σ α β : Type} {discipline : Discipline σ} {good : α → σ → Prop} {bad : σ → Prop}
  {account : σ}

/-- Every action of the program leaves the store as it is. -/
def OnlyReads (program : IndexProgram α) : Prop := StoreProgram.OnlyReads (ExceptT.run program)

theorem onlyReads_ofExcept (result : Except IndexError α) : OnlyReads (ofExcept result) := trivial

theorem onlyReads_bind {program : IndexProgram β} {next : β → IndexProgram α}
    (hprogram : OnlyReads program) (hnext : ∀ given, OnlyReads (next given)) :
    OnlyReads (program >>= next) := by
  unfold OnlyReads
  rw [ExceptT.run_bind]
  refine StoreProgram.OnlyReads.bind hprogram fun result ↦ ?_
  cases result with
  | ok given => exact hnext given
  | error error => trivial

theorem onlyReads_adapt {wrap : IndexError → IndexError} {program : IndexProgram α}
    (hprogram : OnlyReads program) : OnlyReads (ExceptT.adapt wrap program) :=
  StoreProgram.OnlyReads.bind hprogram fun _ ↦ trivial

theorem onlyReads_lift {program : StoreProgram α} (hprogram : program.OnlyReads) :
    OnlyReads (ExceptT.lift program) :=
  StoreProgram.OnlyReads.bind hprogram fun _ ↦ trivial

theorem onlyReads_fetch (source : Path) : OnlyReads (perform (.fetch source)) :=
  ⟨fun _ ↦ rfl, fun _ ↦ trivial⟩

theorem onlyReads_readFile (source : Path) : OnlyReads (readFile source) :=
  onlyReads_bind (onlyReads_fetch source) fun _ ↦
    onlyReads_bind (onlyReads_ofExcept _) fun _ ↦ onlyReads_ofExcept _

/-- The program keeps the discipline; its last account is good for the value that it returns, or
bad when it fails. -/
def Keeps (discipline : Discipline σ) (good : α → σ → Prop) (bad : σ → Prop)
    (program : IndexProgram α) (account : σ) : Prop :=
  StoreProgram.Keeps discipline (fun result last ↦ match result with
    | .ok value => good value last
    | .error _ => bad last) (ExceptT.run program) account

theorem keeps_imp {program : IndexProgram α} {good' : α → σ → Prop} {bad' : σ → Prop}
    (hprogram : Keeps discipline good bad program account)
    (hgood : ∀ value last, good value last → good' value last)
    (hbad : ∀ last, bad last → bad' last) : Keeps discipline good' bad' program account := by
  refine StoreProgram.Keeps.imp hprogram fun result last hresult ↦ ?_
  cases result with
  | ok value => exact hgood value last hresult
  | error error => exact hbad last hresult

theorem keeps_pure {value : α} (hgood : good value account) :
    Keeps discipline good bad (pure value) account := hgood

theorem keeps_ofExcept {result : Except IndexError α}
    (hgood : ∀ value, result = .ok value → good value account)
    (hbad : ∀ error, result = .error error → bad account) :
    Keeps discipline good bad (ofExcept result) account := by
  cases result with
  | ok value => exact hgood value rfl
  | error error => exact hbad error rfl

theorem keeps_check {toError : StoreFault → IndexError} {answer : Except StoreFault α}
    (hgood : ∀ value, answer = .ok value → good value account)
    (hbad : ∀ fault, answer = .error fault → bad account) :
    Keeps discipline good bad (check toError answer) account := by
  apply keeps_ofExcept
  · intro value hvalue
    exact hgood value (Result.mapError_ok.mp hvalue)
  · intro error herror
    obtain ⟨fault, hfault, -⟩ := Result.mapError_error.mp herror
    exact hbad fault hfault

theorem keeps_perform {action : Action} {good : action.Answer → σ → Prop}
    (haction : ∀ tree, discipline.agrees account tree → ∃ later,
      discipline.allows account later tree (tree.answer action).2 ∧
        discipline.agrees later (tree.answer action).2 ∧ good (tree.answer action).1 later) :
    Keeps discipline good bad (perform action) account := haction

theorem keeps_bind {program : IndexProgram α} {next : α → IndexProgram β}
    {good : β → σ → Prop}
    (hprogram : Keeps discipline
      (fun value last ↦ Keeps discipline good bad (next value) last) bad program account) :
    Keeps discipline good bad (program >>= next) account := by
  unfold Keeps
  rw [ExceptT.run_bind]
  refine StoreProgram.Keeps.bind (StoreProgram.Keeps.imp hprogram ?_)
  intro result last hresult
  cases result with
  | ok value => exact hresult
  | error error => exact hresult

theorem keeps_onFailure {program : IndexProgram α} {cleanup : StoreProgram Unit}
    (hprogram : Keeps discipline good
      (StoreProgram.Keeps discipline (fun _ last ↦ bad last) cleanup) program account) :
    Keeps discipline good bad (onFailure program cleanup) account := by
  unfold Keeps onFailure
  rw [ExceptT.run_mk]
  refine StoreProgram.Keeps.bind (StoreProgram.Keeps.imp hprogram ?_)
  intro result last hresult
  cases result with
  | ok value => exact hresult
  | error error => exact StoreProgram.Keeps.bind hresult

end IndexProgram

/-! ## Actions that leave the files alone -/

theorem Tree.files_makeDirectories (tree : Tree) (path : Path) :
    (tree.answer (.makeDirectories path)).2.files = tree.files := by
  show (tree.change (tree.makeDirectories path)).2.files = tree.files
  cases hmake : tree.makeDirectories path with
  | error fault => rfl
  | ok changed => exact (becomes_of_makeDirectories hmake).files_eq

theorem Tree.change_error {tree : Tree} {result : Except StoreFault Tree}
    {fault : StoreFault} (hresult : (tree.change result).1 = .error fault) :
    (tree.change result).2 = tree := by
  cases result with
  | ok changed => cases hresult
  | error fault => rfl

theorem Tree.answer_stage_error {tree : Tree} {directory : Path} {fault : StoreFault}
    (hresult : (tree.answer (.stage directory)).1 = .error fault) :
    (tree.answer (.stage directory)).2 = tree := by
  unfold answer at *
  cases hstage : tree.stage directory with
  | error fault => simp only [hstage]
  | ok pair => simp [hstage] at hresult

/-! ## Publishing a file -/

/-- How far the publishing of a file has come. -/
inductive Publication where
  | waiting
  | staged (temporary : String) (held : Bytes)
  | published

namespace Publication

open IndexProgram (Keeps keeps_imp keeps_pure keeps_check keeps_perform keeps_bind keeps_onFailure)
open StagedFile (IsTemporary)

/-- The name of the staged file. -/
def temporary? : Publication → Option String
  | staged temporary _ => some temporary
  | _ => none

/-- What the store holds of a file that is published under a name of a directory. -/
def Agrees (directory : Location) (name : String) (contents : Bytes) :
    Publication → Tree → Prop
  | waiting, _ => True
  | staged temporary held, tree =>
    IsTemporary temporary ∧ tree.files (directory ++ [temporary]) = some held
  | published, tree => tree.files (directory ++ [name]) = some contents

/-- Only the target and the staged file change, and a new staged file takes an unused name. -/
structure Allows (directory : Location) (name : String) (first second : Publication)
    (before after : Tree) : Prop where
  others : ∀ location, location ≠ directory ++ [name] →
    (∀ temporary, first.temporary? = some temporary ∨ second.temporary? = some temporary →
      location ≠ directory ++ [temporary]) → after.files location = before.files location
  unused : ∀ temporary, second.temporary? = some temporary →
    first.temporary? = some temporary ∨ before.files (directory ++ [temporary]) = none

/-- Only the staged file changes, and a new one takes an unused name. -/
structure SparesTarget (directory : Location) (first second : Publication)
    (before after : Tree) : Prop where
  others : ∀ location, (∀ temporary, first.temporary? = some temporary ∨
    second.temporary? = some temporary → location ≠ directory ++ [temporary]) →
      after.files location = before.files location
  unused : ∀ temporary, second.temporary? = some temporary →
    first.temporary? = some temporary ∨ before.files (directory ++ [temporary]) = none

theorem SparesTarget.allows {directory : Location} {first second : Publication}
    {before after : Tree} (hspares : SparesTarget directory first second before after)
    (name : String) : Allows directory name first second before after :=
  ⟨fun location _ hothers ↦ hspares.others location hothers, hspares.unused⟩

/-- The discipline of publishing a file. -/
def discipline (directory : Location) (name : String) (contents : Bytes) :
    Discipline Publication :=
  ⟨Agrees directory name contents, Allows directory name⟩

theorem allows_of_files_eq {directory : Location} {name : String} {contents : Bytes}
    {publication : Publication} {before after : Tree} (hfiles : after.files = before.files) :
    (discipline directory name contents).allows publication publication before after :=
  ⟨fun _ _ _ ↦ by rw [hfiles], fun _ htemporary ↦ .inl htemporary⟩

theorem agrees_of_files_eq {directory : Location} {name : String} {contents : Bytes}
    {publication : Publication} {before after : Tree} (hfiles : after.files = before.files)
    (hagrees : (discipline directory name contents).agrees publication before) :
    (discipline directory name contents).agrees publication after := by
  cases publication with
  | waiting => trivial
  | staged temporary held => exact ⟨hagrees.1, (congrFun hfiles _).trans hagrees.2⟩
  | published => exact (congrFun hfiles _).trans hagrees

variable {directory : Path} {name : String} {contents : Bytes} {α : Type}

section

variable {good : α → Publication → Prop} {bad : Publication → Prop}

/-- An action that leaves the files as they are keeps the account. -/
theorem keeps_still {action : Action} {good : action.Answer → Publication → Prop}
    {publication : Publication}
    (haction : ∀ tree : Tree, (tree.answer action).2.files = tree.files ∧
      good (tree.answer action).1 publication) :
    Keeps (discipline (Location.ofDirectory directory) name contents) good bad
      (IndexProgram.perform action) publication := by
  apply keeps_perform
  intro tree hagrees
  obtain ⟨hfiles, hgood⟩ := haction tree
  exact ⟨publication, allows_of_files_eq hfiles, agrees_of_files_eq hfiles hagrees, hgood⟩

end

/-! ### What each action does -/

section

variable {tree : Tree}

/-- A staged file has a name that was unused. -/
theorem spares_stage {place path : Path}
    (hplace : Location.ofDirectory place = Location.ofDirectory directory)
    (hstage : (tree.answer (.stage place)).1 = .ok path) :
    path = Path.join place tree.freshName ∧
      SparesTarget (Location.ofDirectory directory) .waiting (.staged tree.freshName []) tree
        (tree.answer (.stage place)).2 ∧
      (tree.answer (.stage place)).2.files (Location.ofDirectory directory ++ [tree.freshName]) =
        some [] := by
  obtain ⟨rfl, -, hstaged⟩ := Tree.stage_becomes (Tree.answer_stage hstage)
  rw [hplace] at hstaged
  have hunused : tree.files (Location.ofDirectory directory ++ [tree.freshName]) = none :=
    Tree.files_of_none (Tree.find?_freshName _ _)
  refine ⟨rfl, ⟨?_, ?_⟩, ?_⟩
  · intro location hothers
    rw [hstaged.files_eq]
    exact Files.put_other _ _ (hothers _ (.inr rfl))
  · intro temporary htemporary
    obtain rfl := Option.some.inj htemporary
    exact .inr hunused
  · rw [hstaged.files_eq, Files.put_self]

variable {path : Path} {temporary : String}
  (hlocation : Location.ofPath path = some (Location.ofDirectory directory ++ [temporary]))
include hlocation

theorem spares_append {held bytes : Bytes} {done : Unit}
    (hheld : tree.files (Location.ofDirectory directory ++ [temporary]) = some held)
    (happend : (tree.answer (.append path bytes)).1 = .ok done) :
    SparesTarget (Location.ofDirectory directory) (.staged temporary held)
        (.staged temporary (held ++ bytes)) tree (tree.answer (.append path bytes)).2 ∧
      (tree.answer (.append path bytes)).2.files
        (Location.ofDirectory directory ++ [temporary]) = some (held ++ bytes) := by
  obtain ⟨found, hfound, happended⟩ := Tree.answer_append hlocation happend
  obtain rfl : found = held := Option.some.inj (hfound.symm.trans hheld)
  refine ⟨⟨?_, fun _ htemporary ↦ .inl htemporary⟩, ?_⟩
  · intro location hothers
    rw [happended.files_eq]
    exact Files.put_other _ _ (hothers _ (.inr rfl))
  · rw [happended.files_eq, Files.put_self]

/-- A discarded file is nobody's concern, whether it could be removed or not. -/
theorem spares_remove (held : Bytes) :
    SparesTarget (Location.ofDirectory directory) (.staged temporary held) .waiting tree
      (tree.answer (.remove path)).2 := by
  refine ⟨?_, fun _ htemporary ↦ nomatch htemporary⟩
  intro location hothers
  have hloses : tree.Loses (tree.answer (.remove path)).2
      (· = Location.ofDirectory directory ++ [temporary]) := Tree.loses_remove hlocation rfl
  exact hloses.keeps (hothers temporary (.inl rfl))

theorem allows_rename (hname : Path.IsName name) {done : Unit}
    (hheld : tree.files (Location.ofDirectory directory ++ [temporary]) = some contents)
    (hrename : (tree.answer (.rename path (Path.join directory name))).1 = .ok done) :
    Allows (Location.ofDirectory directory) name (.staged temporary contents) .published tree
        (tree.answer (.rename path (Path.join directory name))).2 ∧
      (tree.answer (.rename path (Path.join directory name))).2.files
        (Location.ofDirectory directory ++ [name]) = some contents := by
  obtain ⟨found, hfound, hmoved⟩ :=
    Tree.answer_rename hlocation (Location.ofPath_join directory hname) hrename
  obtain rfl : found = contents := Option.some.inj (hfound.symm.trans hheld)
  refine ⟨⟨?_, fun _ htemporary ↦ nomatch htemporary⟩, ?_⟩
  · intro location htarget hothers
    rw [hmoved.files_eq, Files.put_other _ _ htarget,
      Files.put_other _ _ (hothers _ (.inl rfl))]
  · exact (congrFun hmoved.files_eq _).trans (Files.put_self _ _ _)

end

/-! ### What the parts of publishing do -/

/-- Staging makes a file of an unused name. -/
theorem createIn_keeps {place : Path} (hplace : Location.ofDirectory place =
      Location.ofDirectory directory) :
    Keeps (discipline (Location.ofDirectory directory) name contents)
      (fun staged publication ↦ ∃ temporary, publication = .staged temporary [] ∧
        Location.ofPath staged.temporary =
          some (Location.ofDirectory directory ++ [temporary]))
      (fun _ ↦ True) (StagedFile.createIn place) waiting := by
  unfold StagedFile.createIn
  apply keeps_bind
  apply keeps_still
  intro tree
  refine ⟨tree.files_makeDirectories place, ?_⟩
  apply keeps_bind
  refine keeps_check (fun _ _ ↦ ?_) fun _ _ ↦ trivial
  apply keeps_bind
  apply keeps_perform
  intro tree _
  cases hstage : (tree.answer (.stage place)).1 with
  | error fault =>
    have hfiles := congrArg Tree.files (Tree.answer_stage_error hstage)
    refine ⟨waiting, allows_of_files_eq hfiles, trivial, ?_⟩
    apply keeps_bind
    exact keeps_check (fun _ hok ↦ nomatch hok) fun _ _ ↦ trivial
  | ok path =>
    obtain ⟨rfl, hspares, hheld⟩ := spares_stage hplace hstage
    refine ⟨staged tree.freshName [], hspares.allows name, ⟨⟨tree, rfl⟩, hheld⟩, ?_⟩
    apply keeps_bind
    refine keeps_check (fun path hpath ↦ ?_) fun _ _ ↦ trivial
    obtain rfl := Except.ok.inj hpath
    exact keeps_pure ⟨tree.freshName, rfl,
      hplace ▸ Location.ofPath_join place (Tree.isName_freshName tree)⟩

section

variable {staged : StagedFile} {temporary : String} {held : Bytes}

theorem append_keeps (hlocation : Location.ofPath staged.temporary =
      some (Location.ofDirectory directory ++ [temporary])) (path : Path) (bytes : Bytes) :
    Keeps (discipline (Location.ofDirectory directory) name contents)
      (fun _ publication ↦ publication = .staged temporary (held ++ bytes))
      (fun publication ↦ publication = .staged temporary held)
      (staged.append path bytes) (.staged temporary held) := by
  unfold StagedFile.append
  apply keeps_bind
  apply keeps_perform
  intro tree hagrees
  cases happend : (tree.answer (.append staged.temporary bytes)).1 with
  | error fault =>
    have hfiles := congrArg Tree.files (Tree.change_error happend)
    refine ⟨.staged temporary held, allows_of_files_eq hfiles, ?_, ?_⟩
    · exact agrees_of_files_eq hfiles hagrees
    · exact keeps_check (fun _ hok ↦ nomatch hok) fun _ _ ↦ rfl
  | ok done =>
    obtain ⟨hspares, hheld⟩ := spares_append hlocation hagrees.2 happend
    refine ⟨.staged temporary (held ++ bytes), hspares.allows name, ⟨hagrees.1, hheld⟩, ?_⟩
    exact keeps_check (fun _ _ ↦ rfl) fun _ herror ↦ nomatch herror

theorem appendAll_keeps (hlocation : Location.ofPath staged.temporary =
      some (Location.ofDirectory directory ++ [temporary])) (path : Path) (pieces : List Bytes) :
    Keeps (discipline (Location.ofDirectory directory) name contents)
      (fun _ publication ↦ publication = .staged temporary (held ++ pieces.flatten))
      (fun publication ↦ ∃ held, publication = .staged temporary held)
      (pieces.forM (staged.append path)) (.staged temporary held) := by
  induction pieces generalizing held with
  | nil =>
    apply keeps_pure
    rw [List.flatten_nil, List.append_nil]
  | cons piece rest ih =>
    refine keeps_bind (keeps_imp (append_keeps hlocation path piece) ?_ ?_)
    · rintro _ publication rfl
      rw [List.flatten_cons, ← List.append_assoc]
      exact ih
    · rintro publication rfl
      exact ⟨held, rfl⟩

theorem discard_keeps (hlocation : Location.ofPath staged.temporary =
      some (Location.ofDirectory directory ++ [temporary])) :
    StoreProgram.Keeps (discipline (Location.ofDirectory directory) name contents)
      (fun _ _ ↦ True) staged.discard (.staged temporary held) := by
  exact fun tree _ ↦ ⟨.waiting, (spares_remove hlocation held).allows name, trivial, trivial⟩

/-- Once the staged file has all its contents, it takes the place of the target. -/
theorem persist_keeps (hname : Path.IsName name) (hlocation : Location.ofPath staged.temporary =
      some (Location.ofDirectory directory ++ [temporary])) :
    Keeps (discipline (Location.ofDirectory directory) name contents)
      (fun _ publication ↦ publication = .published) (fun _ ↦ True)
      (staged.persist (Path.join directory name)) (.staged temporary contents) := by
  unfold StagedFile.persist
  apply keeps_onFailure
  apply keeps_bind
  apply keeps_still
  intro tree
  refine ⟨rfl, ?_⟩
  apply keeps_bind
  refine keeps_check (fun _ _ ↦ ?_) fun _ herror ↦ nomatch herror
  apply keeps_bind
  apply keeps_perform
  intro tree hagrees
  cases hrename : (tree.answer (.rename staged.temporary (Path.join directory name))).1 with
  | error fault =>
    have hfiles := congrArg Tree.files (Tree.change_error hrename)
    refine ⟨.staged temporary contents, allows_of_files_eq hfiles, ?_, ?_⟩
    · exact agrees_of_files_eq hfiles hagrees
    · exact keeps_check (fun _ hok ↦ nomatch hok) fun _ _ ↦ discard_keeps hlocation
  | ok done =>
    obtain ⟨hallows, hafter⟩ := allows_rename hlocation hname hagrees.2 hrename
    refine ⟨.published, hallows, hafter, ?_⟩
    exact keeps_check (fun _ _ ↦ rfl) fun _ herror ↦ nomatch herror

end

/-- Publishing keeps the discipline, and when it succeeds the target has the contents. -/
theorem publishFile_keeps (hname : Path.IsName name) :
    Keeps (discipline (Location.ofDirectory directory) name contents)
      (fun _ publication ↦ publication = .published) (fun _ ↦ True)
      (publishFile (Path.join directory name) contents) .waiting := by
  have hsame := Location.ofDirectory_directoryOf_join directory hname
  unfold publishFile publishPieces StagedFile.create
  apply keeps_bind
  apply keeps_bind
  refine keeps_imp (createIn_keeps hsame) ?_ fun _ _ ↦ trivial
  rintro staged publication ⟨temporary, rfl, hlocation⟩
  apply keeps_pure
  apply keeps_bind
  apply keeps_onFailure
  apply keeps_bind
  refine keeps_imp (appendAll_keeps hlocation _ [contents]) ?_ ?_
  · rintro _ publication rfl
    rw [List.flatten_singleton, List.nil_append]
    exact keeps_pure (persist_keeps hname hlocation)
  · rintro publication ⟨held, rfl⟩
    exact discard_keeps hlocation

/-! ## Two programs that publish -/

section

variable {directory : Location} {first second : Publication} {before after : Tree}

theorem isTemporary_of_agrees {publication : Publication}
    (hagrees : (discipline directory name contents).agrees publication before) {temporary : String}
    (htemporary : publication.temporary? = some temporary) :
    IsTemporary temporary ∧ ∃ held, before.files (directory ++ [temporary]) = some held := by
  cases publication with
  | waiting => cases htemporary
  | staged given held =>
    obtain rfl := Option.some.inj htemporary
    exact ⟨hagrees.1, held, hagrees.2⟩
  | published => cases htemporary

variable (hallows : (discipline directory name contents).allows first second before after)
  (hfirst : (discipline directory name contents).agrees first before)
  (hsecond : (discipline directory name contents).agrees second after)
include hallows hfirst hsecond

/-- Nothing but the file of the name and staged files is touched. -/
theorem files_of_allows_elsewhere {location : Location}
    (hlocation : ¬ directory.Within (fun given ↦ IsTemporary given ∨ given = name) location) :
    after.files location = before.files location := by
  apply hallows.others
  · rintro rfl
    exact hlocation (Location.within_append.mpr (.inr rfl))
  · rintro temporary htemporary rfl
    apply hlocation (Location.within_append.mpr (.inl ?_))
    rcases htemporary with htemporary | htemporary
    · exact (isTemporary_of_agrees hfirst htemporary).1
    · exact (isTemporary_of_agrees hsecond htemporary).1

/-- A file of another name that no staged file has is left alone. -/
theorem files_of_allows {other : String} (hother : other ≠ name)
    (hhead : other.toList.head? ≠ some '.') :
    after.files (directory ++ [other]) = before.files (directory ++ [other]) := by
  apply files_of_allows_elsewhere hallows hfirst hsecond
  rw [Location.within_append]
  rintro (htemporary | rfl)
  · exact htemporary.ne hhead rfl
  · exact hother rfl

/-- What another program owns is left alone, and no staged file of it is taken. -/
theorem agrees_of_allows {other : String} {others : Bytes} {publication : Publication}
    (hother : other ≠ name) (hname : name.toList.head? ≠ some '.')
    (hhead : other.toList.head? ≠ some '.')
    (hapart : ∀ temporary, publication.temporary? = some temporary →
      first.temporary? ≠ some temporary)
    (hagrees : (discipline directory other others).agrees publication before) :
    (discipline directory other others).agrees publication after ∧
      ∀ temporary, publication.temporary? = some temporary →
        second.temporary? ≠ some temporary := by
  cases publication with
  | waiting => exact ⟨trivial, fun _ htemporary ↦ nomatch htemporary⟩
  | published =>
    refine ⟨?_, fun _ htemporary ↦ nomatch htemporary⟩
    exact (files_of_allows hallows hfirst hsecond hother hhead).trans hagrees
  | staged temporary held =>
    obtain ⟨hkind, hheld⟩ := hagrees
    have hfree : second.temporary? ≠ some temporary := by
      intro htemporary
      rcases hallows.unused temporary htemporary with hsame | hunused
      · exact hapart temporary rfl hsame
      · rw [hunused] at hheld
        cases hheld
    refine ⟨⟨hkind, ?_⟩, fun _ htemporary ↦ Option.some.inj htemporary ▸ hfree⟩
    rw [hallows.others, hheld]
    · simpa using hkind.ne hname
    · intro given hgiven heq
      obtain rfl : temporary = given := by simpa using heq
      exact hgiven.elim (hapart temporary rfl) hfree

end

end Publication
end VectorIndex
