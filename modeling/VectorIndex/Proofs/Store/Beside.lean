import VectorIndex.Proofs.Store.Directories

/-!
# Publishing beside others

Programs that publish files of different names in one directory cannot see each other. Whatever
the others do in between, publishing a file comes to the same as on the store that was there at
the start, and until it is done the target holds what it held then.
-/

namespace VectorIndex

namespace StoreProgram

variable {σ α : Type} {discipline : Discipline σ}

theorem keeps_pure {property : α → σ → Prop} {value : α} {account : σ}
    (hvalue : property value account) :
    (pure value : StoreProgram α).Keeps discipline property account := hvalue

/-- A program that keeps a discipline can be run alone. -/
theorem Keeps.run {property : α → σ → Prop} {program : StoreProgram α} {account : σ}
    (hprogram : program.Keeps discipline property account) {tree : Tree}
    (htree : discipline.agrees account tree) : ∃ last,
      property (program.run tree).1 last ∧ discipline.agrees last (program.run tree).2 := by
  induction program generalizing account tree with
  | done value => exact ⟨account, hprogram, htree⟩
  | act action next ih =>
    obtain ⟨later, -, hagrees, hnext⟩ := hprogram tree htree
    exact ih _ hnext hagrees

end StoreProgram

namespace IndexProgram

variable {σ α β : Type} {discipline : Discipline σ} {account : σ}

/-- The program keeps the discipline, and its result has the property with the last account. -/
def Ends (discipline : Discipline σ) (property : Except IndexError α → σ → Prop)
    (program : IndexProgram α) (account : σ) : Prop :=
  StoreProgram.Keeps discipline property (ExceptT.run program) account

variable {property : Except IndexError β → σ → Prop}

theorem ends_bind {program : IndexProgram α} {next : α → IndexProgram β}
    (hprogram : Ends discipline (fun result last ↦ match result with
      | .ok value => Ends discipline property (next value) last
      | .error error => property (.error error) last) program account) :
    Ends discipline property (program >>= next) account := by
  unfold Ends
  rw [ExceptT.run_bind]
  refine StoreProgram.Keeps.bind (StoreProgram.Keeps.imp hprogram ?_)
  intro result last hresult
  cases result with
  | ok value => exact hresult
  | error error => exact hresult

theorem ends_onFailure {program : IndexProgram β} {cleanup : StoreProgram Unit}
    (hprogram : Ends discipline (fun result last ↦ match result with
      | .ok value => property (.ok value) last
      | .error error =>
        StoreProgram.Keeps discipline (fun _ last ↦ property (.error error) last) cleanup last)
      program account) : Ends discipline property (onFailure program cleanup) account := by
  unfold Ends onFailure
  rw [ExceptT.run_mk]
  refine StoreProgram.Keeps.bind (StoreProgram.Keeps.imp hprogram ?_)
  intro result last hresult
  cases result with
  | ok value => exact hresult
  | error error => exact StoreProgram.Keeps.bind hresult

theorem ends_pure {value : β} (hvalue : property (.ok value) account) :
    Ends discipline property (pure value) account := hvalue

section

variable {action : Action} {γ : Type} {answer : action.Answer → Except StoreFault γ}
  {toError : StoreFault → IndexError}

/-- An action that is checked. -/
theorem ends_perform_check {property : Except IndexError γ → σ → Prop}
    (haction : ∀ tree, discipline.agrees account tree → ∃ later,
      discipline.allows account later tree (tree.answer action).2 ∧
        discipline.agrees later (tree.answer action).2 ∧
          property ((answer (tree.answer action).1).mapError toError) later) :
    Ends discipline property
      (perform action >>= fun given ↦ check toError (answer given)) account := haction

theorem ends_perform_check_bind {next : γ → IndexProgram β}
    (haction : ∀ tree, discipline.agrees account tree → ∃ later,
      discipline.allows account later tree (tree.answer action).2 ∧
        discipline.agrees later (tree.answer action).2 ∧
          match answer (tree.answer action).1 with
          | .ok value => Ends discipline property (next value) later
          | .error fault => property (.error (toError fault)) later) :
    Ends discipline property
      (perform action >>= fun given ↦ check toError (answer given) >>= next) account := by
  intro tree htree
  obtain ⟨later, hallows, hagrees, hnext⟩ := haction tree htree
  refine ⟨later, hallows, hagrees, ?_⟩
  show Ends discipline property (check toError (answer (tree.answer action).1) >>= next) later
  cases hanswer : answer (tree.answer action).1 with
  | ok value =>
    rw [hanswer] at hnext
    exact hnext
  | error fault =>
    rw [hanswer] at hnext
    exact hnext

end

end IndexProgram

/-- What others that publish in a directory leave as it was at the start: whether a file stands
in the way of the directory, and which names in it are those of directories. -/
structure Tree.SameSetting (start tree : Tree) (directory : Location) : Prop where
  above : ∀ count, tree.files (directory.take count) = start.files (directory.take count)
  within : ∀ name, tree.find? (directory ++ [name]) = some .directory ↔
    start.find? (directory ++ [name]) = some .directory
  kept : start.IsDirectory directory → tree.IsDirectory directory

theorem Tree.sameSetting_self (tree : Tree) (directory : Location) :
    tree.SameSetting tree directory := ⟨fun _ ↦ rfl, fun _ ↦ Iff.rfl, id⟩

namespace Publication

/-- What publishing under a name of a directory comes to on a store. -/
def outcome (start : Tree) (directory : Path) (name : String) : Except IndexError Unit :=
  let target := Path.join directory name
  let place := StagedFile.directoryOf target
  match (start.answer (.makeDirectories place)).1 with
  | .error fault => .error (.fileWrite place fault)
  | .ok () =>
    if start.find? (Location.ofDirectory directory ++ [name]) = some .directory then
      .error (.fileWrite target .isADirectory)
    else .ok ()

/-- How far publishing has come when it ends. -/
def ended {ε α : Type} : Except ε α → Publication
  | .ok _ => published
  | .error _ => waiting

/-- How far publishing has come in a directory that may have to be made. -/
structure Account where
  made : Bool
  publication : Publication

/-- What the store holds of a file that is published beside others. -/
structure AgreesBeside (start : Tree) (directory : Location) (name : String) (contents : Bytes)
    (account : Account) (tree : Tree) : Prop where
  setting : start.SameSetting tree directory
  made : account.made = true → tree.IsDirectory directory
  held : Agrees directory name contents account.publication tree
  untouched : account.publication ≠ .published →
    tree.files (directory ++ [name]) = start.files (directory ++ [name])

/-- What publishing beside others may do to them. -/
structure AllowsBeside (directory : Location) (name : String) (first second : Account)
    (before after : Tree) : Prop where
  files : Allows directory name first.publication second.publication before after
  directories : ∀ location, before.IsDirectory location → after.IsDirectory location

/-- The discipline of publishing a file beside others, from a store on. -/
def beside (start : Tree) (directory : Location) (name : String) (contents : Bytes) :
    Discipline Account :=
  ⟨AgreesBeside start directory name contents, AllowsBeside directory name⟩

theorem agrees_beside_start (start : Tree) (directory : Location) (name : String)
    (contents : Bytes) : (beside start directory name contents).agrees ⟨false, .waiting⟩ start :=
  ⟨start.sameSetting_self directory, (fun h ↦ nomatch h), trivial, fun _ ↦ rfl⟩

theorem Allows.files_take {directory : Location} {name : String} {first second : Publication}
    {before after : Tree} (hallows : Allows directory name first second before after)
    (count : Nat) : after.files (directory.take count) = before.files (directory.take count) := by
  have hne : ∀ other : String, directory.take count ≠ directory ++ [other] := by
    intro other heq
    have hlength := congrArg List.length heq
    rw [List.length_take, List.length_append, List.length_singleton] at hlength
    omega
  exact hallows.others _ (hne name) fun temporary _ ↦ hne temporary

section

variable {start : Tree} {directory : Location} {name : String} {contents : Bytes}
  {first second : Publication} {tree : Tree} {action : Action} {made : Bool}

/-- An action that makes no directories leaves the setting. -/
theorem allows_beside (haction : ∀ path, action ≠ .makeDirectories path)
    (hagrees : (beside start directory name contents).agrees ⟨made, first⟩ tree)
    (hallows : Allows directory name first second tree (tree.answer action).2)
    (hheld : Agrees directory name contents second (tree.answer action).2)
    (huntouched : second ≠ .published →
      (tree.answer action).2.files (directory ++ [name]) = start.files (directory ++ [name])) :
    (beside start directory name contents).allows ⟨made, first⟩ ⟨made, second⟩ tree
        (tree.answer action).2 ∧
      (beside start directory name contents).agrees ⟨made, second⟩ (tree.answer action).2 := by
  refine ⟨⟨hallows, fun location hdirectory ↦ hdirectory.answer action⟩, ?_, ?_, hheld, huntouched⟩
  · refine ⟨fun count ↦ ?_, fun other ↦ ?_, fun hstart ↦ ?_⟩
    · exact (hallows.files_take count).trans (hagrees.setting.above count)
    · exact (tree.sameDirectories_answer haction _).trans (hagrees.setting.within other)
    · exact (hagrees.setting.kept hstart).answer action
  · exact fun hmade ↦ (hagrees.made hmade).answer action

/-- As long as only the staged file changes, the target is untouched. -/
theorem spares_beside (hhead : name.toList.head? ≠ some '.')
    (haction : ∀ path, action ≠ .makeDirectories path)
    (hagrees : (beside start directory name contents).agrees ⟨made, first⟩ tree)
    (hfirst : first ≠ .published)
    (hspares : SparesTarget directory first second tree (tree.answer action).2)
    (hheld : Agrees directory name contents second (tree.answer action).2) :
    (beside start directory name contents).allows ⟨made, first⟩ ⟨made, second⟩ tree
        (tree.answer action).2 ∧
      (beside start directory name contents).agrees ⟨made, second⟩ (tree.answer action).2 := by
  refine allows_beside haction hagrees (hspares.allows name) hheld fun _ ↦ ?_
  rw [← hagrees.untouched hfirst]
  apply hspares.others
  intro temporary htemporary heq
  have hkind : StagedFile.IsTemporary temporary := by
    rcases htemporary with htemporary | htemporary
    · exact (isTemporary_of_agrees hagrees.held htemporary).1
    · exact (isTemporary_of_agrees hheld htemporary).1
  exact hkind.ne hhead (by simpa using heq.symm)

end

open IndexProgram (Ends ends_bind ends_onFailure ends_perform_check ends_perform_check_bind
  ends_pure)

variable {start : Tree} {directory : Path} {name : String} {contents : Bytes}

/-- An action that leaves the store as it is. -/
theorem beside_of_eq {account : Account} {tree after : Tree} (hafter : after = tree)
    (hagrees : (beside start (Location.ofDirectory directory) name contents).agrees account tree) :
    (beside start (Location.ofDirectory directory) name contents).allows account account tree
        after ∧
      (beside start (Location.ofDirectory directory) name contents).agrees account after := by
  subst hafter
  exact ⟨⟨⟨fun _ _ _ ↦ rfl, fun _ htemporary ↦ .inl htemporary⟩, fun _ h ↦ h⟩, hagrees⟩

section

variable (hhead : name.toList.head? ≠ some '.')
include hhead

/-- A file is staged as soon as there is its directory. -/
theorem createIn_beside {place : Path}
    (hplace : Location.ofPath place = some (Location.ofDirectory directory)) :
    Ends (beside start (Location.ofDirectory directory) name contents)
      (fun result last ↦ match result with
        | .ok file => (start.answer (.makeDirectories place)).1 = .ok () ∧
          ∃ temporary, last = ⟨true, .staged temporary []⟩ ∧
            Location.ofPath file.temporary =
              some (Location.ofDirectory directory ++ [temporary]) ∧
            Path.endsWithSlash file.temporary = false
        | .error error => last = ⟨false, .waiting⟩ ∧
          ∃ fault, (start.answer (.makeDirectories place)).1 = .error fault ∧
            error = .fileWrite place fault)
      (StagedFile.createIn place) ⟨false, .waiting⟩ := by
  unfold StagedFile.createIn
  apply ends_perform_check_bind
  intro tree hagrees
  have hsame := Tree.answer_makeDirectories_congr hplace hagrees.setting.above
  cases hmade : (tree.answer (.makeDirectories place)).1 with
  | error fault =>
    obtain ⟨hallows, hafter⟩ := beside_of_eq (Tree.change_error hmade) hagrees
    exact ⟨_, hallows, hafter, rfl, fault, hsame.symm.trans hmade, rfl⟩
  | ok done =>
    obtain ⟨hbecomes, hdirectory⟩ := Tree.answer_makeDirectories hplace hmade
    have hfiles := hbecomes.files_eq
    refine ⟨⟨true, .waiting⟩, ⟨⟨fun _ _ _ ↦ by rw [hfiles], fun _ h ↦ nomatch h⟩, ?_⟩, ?_, ?_⟩
    · exact fun location h ↦ h.answer _
    · refine ⟨⟨fun count ↦ ?_, fun other ↦ ?_, fun hstart ↦ ?_⟩, fun _ ↦ hdirectory, trivial, ?_⟩
      · rw [hfiles, hagrees.setting.above]
      · rw [Tree.find?_answer_makeDirectories tree hplace, hagrees.setting.within]
      · exact (hagrees.setting.kept hstart).answer _
      · intro hwaiting
        rw [hfiles, hagrees.untouched hwaiting]
    · apply ends_perform_check_bind
      intro tree hagrees
      have hsamePlace : Location.ofDirectory place = Location.ofDirectory directory := by
        show (Location.ofPath place).getD [] = _
        rw [hplace]
        rfl
      have hstage := Tree.stage_of_isDirectory (hsamePlace ▸ hagrees.made rfl)
      obtain ⟨-, hspares, hheld⟩ := spares_stage hsamePlace hstage
      obtain ⟨hallows, hafter⟩ := spares_beside hhead (by nofun) hagrees (by nofun) hspares
        ⟨⟨tree, rfl⟩, hheld⟩
      rw [hstage]
      refine ⟨_, hallows, hafter, ends_pure ⟨hsame.symm.trans hmade, tree.freshName, rfl, ?_⟩⟩
      rw [← hsamePlace]
      exact ⟨Location.ofPath_join place tree.isName_freshName,
        Path.endsWithSlash_join place tree.isName_freshName⟩

variable {staged : StagedFile} {temporary : String} {held : Bytes}
  (hlocation : Location.ofPath staged.temporary =
    some (Location.ofDirectory directory ++ [temporary]))
include hlocation

theorem discard_beside {property : Unit → Account → Prop} (hproperty : property () ⟨true, .waiting⟩) :
    StoreProgram.Keeps (beside start (Location.ofDirectory directory) name contents) property
      staged.discard ⟨true, .staged temporary held⟩ := by
  intro tree hagrees
  obtain ⟨hallows, hafter⟩ := spares_beside hhead (by nofun) hagrees (by nofun)
    (spares_remove hlocation held) trivial
  exact ⟨_, hallows, hafter, hproperty⟩

variable (hslash : Path.endsWithSlash staged.temporary = false)
include hslash

theorem append_beside (path : Path) (bytes : Bytes) :
    Ends (beside start (Location.ofDirectory directory) name contents)
      (fun result last ↦ result = .ok () ∧ last = ⟨true, .staged temporary (held ++ bytes)⟩)
      (staged.append path bytes) ⟨true, .staged temporary held⟩ := by
  unfold StagedFile.append
  apply ends_perform_check
  intro tree hagrees
  have happend := Tree.append_of_isDirectory (hagrees.made rfl) hlocation hslash hagrees.held.2 bytes
  obtain ⟨hspares, hheld⟩ := spares_append hlocation hagrees.held.2 happend
  obtain ⟨hallows, hafter⟩ := spares_beside hhead (by nofun) hagrees (by nofun) hspares
    ⟨hagrees.held.1, hheld⟩
  rw [happend]
  exact ⟨_, hallows, hafter, rfl, rfl⟩

/-- Committing fails only where a directory stands at the target. -/
theorem persist_beside (hname : Path.IsName name) :
    Ends (beside start (Location.ofDirectory directory) name contents)
      (fun result last ↦
        if start.find? (Location.ofDirectory directory ++ [name]) = some .directory then
          result = .error (.fileWrite (Path.join directory name) .isADirectory) ∧
            last = ⟨true, .waiting⟩
        else result = .ok () ∧ last = ⟨true, .published⟩)
      (staged.persist (Path.join directory name)) ⟨true, .staged temporary contents⟩ := by
  unfold StagedFile.persist
  apply ends_onFailure
  apply ends_perform_check_bind
  intro tree hagrees
  obtain ⟨hallows, hafter⟩ := beside_of_eq rfl hagrees
  refine ⟨_, hallows, hafter, ?_⟩
  apply ends_perform_check
  intro tree hagrees
  have hrename := Tree.rename_of_isDirectory (hagrees.made rfl) hlocation hslash hagrees.held.2
    (Location.ofPath_join directory hname) (Path.endsWithSlash_join directory hname)
  simp only [hagrees.setting.within name] at hrename
  by_cases htarget : start.find? (Location.ofDirectory directory ++ [name]) = some .directory
  · rw [if_pos htarget] at hrename
    obtain ⟨hallows, hafter⟩ := beside_of_eq (Tree.change_error hrename) hagrees
    refine ⟨_, hallows, hafter, ?_⟩
    rw [hrename]
    exact discard_beside hhead hlocation (by rw [if_pos htarget]; exact ⟨rfl, rfl⟩)
  · rw [if_neg htarget] at hrename
    obtain ⟨hallowed, hheld⟩ := allows_rename hlocation hname hagrees.held.2 hrename
    obtain ⟨hallows, hafter⟩ := allows_beside (by nofun) hagrees hallowed hheld
      fun hpublished ↦ absurd rfl hpublished
    refine ⟨_, hallows, hafter, ?_⟩
    rw [hrename]
    show if _ then _ else _
    rw [if_neg htarget]
    exact ⟨rfl, rfl⟩

end

/-- Publishing a file comes to what it comes to on the store from the start. -/
theorem publishFile_beside (hhead : name.toList.head? ≠ some '.') (hname : Path.IsName name) :
    Ends (beside start (Location.ofDirectory directory) name contents)
      (fun result last ↦ result = outcome start directory name ∧ last.publication = ended result)
      (publishFile (Path.join directory name) contents) ⟨false, .waiting⟩ := by
  have hplace := Location.ofPath_directoryOf_join directory hname
  unfold publishFile publishPieces StagedFile.create
  apply ends_bind
  apply ends_bind
  refine StoreProgram.Keeps.imp (createIn_beside hhead hplace) ?_
  intro result last hresult
  cases result with
  | error error =>
    obtain ⟨rfl, fault, hfault, rfl⟩ := hresult
    refine ⟨?_, rfl⟩
    unfold outcome
    simp only [hfault]
  | ok file =>
    obtain ⟨hmade, temporary, rfl, hlocation, hslash⟩ := hresult
    apply ends_pure
    apply ends_bind
    apply ends_onFailure
    apply ends_bind
    apply ends_bind
    refine StoreProgram.Keeps.imp (append_beside hhead hlocation hslash _ contents) ?_
    rintro result last ⟨rfl, rfl⟩
    apply ends_pure
    apply ends_pure
    refine StoreProgram.Keeps.imp (persist_beside hhead hlocation hslash hname) ?_
    intro result last hresult
    unfold outcome
    simp only [hmade]
    split at hresult
    · next htarget =>
      obtain ⟨rfl, rfl⟩ := hresult
      exact ⟨(if_pos htarget).symm, rfl⟩
    · next htarget =>
      obtain ⟨rfl, rfl⟩ := hresult
      exact ⟨(if_neg htarget).symm, rfl⟩

/-- What publishing alone returns. -/
theorem result_publishFile (hhead : name.toList.head? ≠ some '.') (hname : Path.IsName name)
    (contents : Bytes) (start : Tree) :
    ((publishFile (Path.join directory name) contents).runOn start).1 =
      outcome start directory name := by
  obtain ⟨_, ⟨hresult, -⟩, -⟩ :=
    (publishFile_beside hhead hname).run (agrees_beside_start start _ name contents)
  exact hresult

/-- A file is published where no file stands in the way of its directory and no directory stands at
the target. -/
theorem outcome_eq_ok (hname : Path.IsName name)
    (habove : ∀ count, start.files ((Location.ofDirectory directory).take count) = none)
    (htarget : start.find? (Location.ofDirectory directory ++ [name]) ≠ some .directory) :
    outcome start directory name = .ok () := by
  have hmade := Tree.answer_makeDirectories_of_files
    (Location.ofPath_directoryOf_join directory hname) habove
  unfold outcome
  simp only [hmade]
  exact if_neg htarget

/-- What the target holds when publishing ends. -/
def heldAfter {ε α : Type} (before : Option Bytes) (contents : Bytes) :
    Except ε α → Option Bytes
  | .ok _ => some contents
  | .error _ => before

theorem files_of_ended {ε α : Type} {result : Except ε α} {directory : Location}
    {account : Account} {tree : Tree} (hended : account.publication = ended result)
    (hagrees : (beside start directory name contents).agrees account tree) :
    tree.files (directory ++ [name]) =
      heldAfter (start.files (directory ++ [name])) contents result := by
  obtain ⟨made, publication⟩ := account
  dsimp only at hended
  subst hended
  cases result with
  | ok value => exact hagrees.held
  | error error => exact hagrees.untouched (by nofun)

/-- A program that publishes the same whatever others do leaves the target as it does alone. -/
theorem alone_beside {ε α : Type} {program : StoreProgram (Except ε α)} {directory : Location}
    (value : Except ε α)
    (hprogram : program.Keeps (beside start directory name contents)
      (fun result last ↦ result = value ∧ last.publication = ended result) ⟨false, .waiting⟩) :
    program.Keeps (beside start directory name contents)
      (fun result last ↦ result = (program.run start).1 ∧
        ∀ tree, (beside start directory name contents).agrees last tree →
          tree.files (directory ++ [name]) = (program.run start).2.files (directory ++ [name]))
      ⟨false, .waiting⟩ := by
  obtain ⟨last, ⟨hvalue, hended⟩, hagrees⟩ :=
    hprogram.run (agrees_beside_start start directory name contents)
  have halone := files_of_ended hended hagrees
  refine StoreProgram.Keeps.imp hprogram ?_
  rintro result last ⟨rfl, hlast⟩
  refine ⟨hvalue.symm, fun tree htree ↦ ?_⟩
  rw [halone, hvalue]
  exact files_of_ended hlast htree

/-! ## Two programs beside each other -/

section

variable {start : Tree} {directory : Location} {first second : Account} {before after : Tree}
  (hallows : (beside start directory name contents).allows first second before after)
  (hfirst : (beside start directory name contents).agrees first before)
  (hsecond : (beside start directory name contents).agrees second after)
include hallows hfirst hsecond

/-- A file of another name that no staged file has is left alone. -/
theorem files_of_allows_beside {other : String} (hother : other ≠ name)
    (hhead : other.toList.head? ≠ some '.') :
    after.files (directory ++ [other]) = before.files (directory ++ [other]) :=
  files_of_allows hallows.files hfirst.held hsecond.held hother hhead

/-- Nothing but the file of the name and staged files is touched. -/
theorem alters_of_allows_beside : before.Alters after
    (directory.Within fun given ↦ StagedFile.IsTemporary given ∨ given = name) :=
  ⟨fun _ ↦ files_of_allows_elsewhere hallows.files hfirst.held hsecond.held, hallows.directories⟩

/-- What another program knows of its file stays true, and no staged file of it is taken. -/
theorem agrees_beside_of_allows {other : String} {others : Bytes} {account : Account}
    (hother : other ≠ name) (hname : name.toList.head? ≠ some '.')
    (hhead : other.toList.head? ≠ some '.')
    (hapart : ∀ temporary, account.publication.temporary? = some temporary →
      first.publication.temporary? ≠ some temporary)
    (hagrees : (beside start directory other others).agrees account before) :
    (beside start directory other others).agrees account after ∧
      ∀ temporary, account.publication.temporary? = some temporary →
        second.publication.temporary? ≠ some temporary := by
  obtain ⟨hheld, hfree⟩ := agrees_of_allows hallows.files hfirst.held hsecond.held hother hname
    hhead hapart hagrees.held
  refine ⟨⟨hsecond.setting, fun hmade ↦ ?_, hheld, fun hpublication ↦ ?_⟩, hfree⟩
  · exact hallows.directories _ (hagrees.made hmade)
  · rw [files_of_allows_beside hallows hfirst hsecond hother hhead]
    exact hagrees.untouched hpublication

end

end Publication
end VectorIndex
