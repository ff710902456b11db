import VectorIndex.Proofs.Store.Program

/-!
# What publishing leaves

A staged file has a name that no other file has. Once it is committed its contents are at the
target, its own name is unused again, and every other file is as it was.
-/

namespace VectorIndex

/-! ## Actions that succeed -/

namespace Tree

theorem answer_change {tree : Tree} {result : Except StoreFault Tree} {done : Unit}
    (hok : (tree.change result).1 = .ok done) : result = .ok (tree.change result).2 := by
  cases result with
  | ok other => rfl
  | error fault => cases hok

theorem answer_makeDirectories {tree : Tree} {path : Path} {location : Location} {done : Unit}
    (hpath : Location.ofPath path = some location)
    (hok : (tree.answer (.makeDirectories path)).1 = .ok done) :
    tree.Becomes (tree.answer (.makeDirectories path)).2 tree.files ∧
      (tree.answer (.makeDirectories path)).2.IsDirectory location :=
  makeDirectories_becomes hpath (answer_change hok)

theorem answer_stage {tree : Tree} {directory path : Path}
    (hok : (tree.answer (.stage directory)).1 = .ok path) :
    tree.stage directory = .ok (path, (tree.answer (.stage directory)).2) := by
  unfold answer at *
  cases hstage : tree.stage directory with
  | error fault => simp [hstage] at hok
  | ok pair =>
    simp only [hstage, Except.ok.injEq] at hok ⊢
    rw [← hok]

theorem answer_append {tree : Tree} {path : Path} {location : Location} {bytes : Bytes}
    {done : Unit} (hpath : Location.ofPath path = some location)
    (hok : (tree.answer (.append path bytes)).1 = .ok done) :
    ∃ contents, tree.files location = some contents ∧
      tree.Becomes (tree.answer (.append path bytes)).2
        (tree.files.put location (some (contents ++ bytes))) :=
  append_becomes hpath (answer_change hok)

theorem answer_rename {tree : Tree} {source target : Path} {origin place : Location}
    {done : Unit} (hsource : Location.ofPath source = some origin)
    (htarget : Location.ofPath target = some place)
    (hok : (tree.answer (.rename source target)).1 = .ok done) :
    ∃ contents, tree.files origin = some contents ∧
      tree.Becomes (tree.answer (.rename source target)).2
        ((tree.files.put origin none).put place (some contents)) :=
  rename_becomes hsource htarget (answer_change hok)

end Tree

/-- A file that was moved is read at its target. -/
theorem Tree.read_of_rename {tree changed : Tree} {source target : Path} {origin : Location}
    (hsource : Location.ofPath source = some origin) {contents : Bytes}
    (hcontents : tree.files origin = some contents)
    (hrename : tree.rename source target = .ok changed) : changed.read target = .ok contents := by
  obtain ⟨hslash, place, htarget, habove⟩ := rename_leads hrename
  obtain ⟨held, hheld, hbecomes⟩ := rename_becomes hsource htarget hrename
  obtain rfl : held = contents := Option.some.inj (hheld.symm.trans hcontents)
  have hfile : changed.files place = some held := by rw [hbecomes.files_eq, Files.put_self]
  obtain ⟨modified, hfind⟩ := files_eq_some.mp hfile
  exact read_ok.mpr ⟨modified, (lookup_eq_ok htarget).mpr
    ⟨above_of_directories hbecomes.directories habove, hfind, by simp [hslash]⟩⟩

/-! ## Files that are removed -/

/-- Files may be gone from `places`; nothing else has happened. -/
structure Tree.Loses (before after : Tree) (places : Location → Prop) : Prop where
  directories : ∀ location, before.IsDirectory location → after.IsDirectory location
  files_eq : ∀ location, after.files location = before.files location ∨
    (after.files location = none ∧ places location)

namespace Tree.Loses

variable {first second third : Tree} {places : Location → Prop}

theorem refl (tree : Tree) : tree.Loses tree places := ⟨fun _ h ↦ h, fun _ ↦ .inl rfl⟩

theorem trans (hfirst : first.Loses second places) (hsecond : second.Loses third places) :
    first.Loses third places := by
  refine ⟨fun location h ↦ hsecond.directories location (hfirst.directories location h), ?_⟩
  intro location
  rcases hsecond.files_eq location with hsame | hgone
  · rw [hsame]
    exact hfirst.files_eq location
  · exact .inr hgone

theorem keeps (hloses : first.Loses second places) {location : Location}
    (hplace : ¬ places location) : second.files location = first.files location :=
  (hloses.files_eq location).resolve_right fun hgone ↦ hplace hgone.2

end Tree.Loses

theorem Tree.loses_remove {tree : Tree} {path : Path} {location : Location}
    {places : Location → Prop} (hpath : Location.ofPath path = some location)
    (hplace : places location) : tree.Loses (tree.answer (.remove path)).2 places := by
  show tree.Loses (tree.change (tree.remove path)).2 places
  cases hremove : tree.remove path with
  | error fault => exact Tree.Loses.refl tree
  | ok changed =>
    have hbecomes := Tree.remove_becomes hpath hremove
    show tree.Loses changed places
    refine ⟨hbecomes.directories, fun l ↦ ?_⟩
    rw [hbecomes.files_eq]
    by_cases hl : l = location
    · rw [hl, Files.put_self]
      exact .inr ⟨rfl, hplace⟩
    · exact .inl (Files.put_other _ _ hl)

/-- A file that is removed is gone. -/
theorem Tree.files_remove {tree : Tree} {path : Path} {directory : Location} {name : String}
    (hpath : Location.ofPath path = some (directory ++ [name]))
    (hslash : Path.endsWithSlash path = false) (hdirectory : tree.IsDirectory directory) :
    (tree.answer (.remove path)).2.files (directory ++ [name]) = none := by
  show (tree.change (tree.remove path)).2.files _ = none
  cases hremove : tree.remove path with
  | ok changed =>
    show changed.files _ = none
    rw [(Tree.remove_becomes hpath hremove).files_eq, Files.put_self]
  | error fault =>
    show tree.files _ = none
    rw [Option.eq_none_iff_forall_ne_some]
    intro contents hcontents
    obtain ⟨modified, hfind⟩ := Tree.files_eq_some.mp hcontents
    have habove := (Tree.above_name directory name).mpr hdirectory
    have hlookup := (Tree.lookup_eq_ok hpath).mpr ⟨habove, hfind, by simp [hslash]⟩
    have hlocation := (Tree.fileLocation_eq_ok hpath).mpr ⟨habove, by simp [hfind], rfl⟩
    have hremoved := Tree.remove_eq_ok.mpr ⟨_, _, _, hlookup, hlocation, rfl⟩
    cases hremove.symm.trans hremoved

open IndexProgram (Raises raises_bind raises_check raises_lift raises_onFailure raises_perform
  raises_pure raises_throw runOn_bind_ok runOn_onFailure_ok perform_check_ok perform_check_bind_ok
  runOn_pure_ok)

namespace StagedFile

/-! ## Staging -/

/-- A name that only a file being written has. -/
def IsTemporary (name : String) : Prop := ∃ tree : Tree, name = tree.freshName

theorem IsTemporary.isName {name : String} (hname : IsTemporary name) : Path.IsName name := by
  obtain ⟨tree, rfl⟩ := hname
  exact tree.isName_freshName

theorem IsTemporary.ne {name other : String} (hname : IsTemporary name)
    (hother : other.toList.head? ≠ some '.') : name ≠ other := by
  obtain ⟨tree, rfl⟩ := hname
  rintro rfl
  simp [Tree.freshName] at hother

/-- Staging adds one empty file of a name that was unused. -/
theorem createIn_ok {directory : Path} {tree changed : Tree} {staged : StagedFile}
    (hrun : (createIn directory).runOn tree = (.ok staged, changed)) :
    ∃ name, IsTemporary name ∧ staged.directory = directory ∧
      Location.ofPath staged.temporary = some (Location.ofDirectory directory ++ [name]) ∧
      tree.files (Location.ofDirectory directory ++ [name]) = none ∧
      changed.IsDirectory (Location.ofDirectory directory) ∧
      tree.Becomes changed
        (tree.files.put (Location.ofDirectory directory ++ [name]) (some [])) := by
  unfold createIn at hrun
  obtain ⟨_, hmake, hrun⟩ := perform_check_bind_ok.mp hrun
  obtain ⟨path, hstage, hrun⟩ := perform_check_bind_ok.mp hrun
  obtain ⟨rfl, rfl⟩ := runOn_pure_ok.mp hrun
  obtain ⟨rfl, hdirectory, hstaged⟩ := Tree.stage_becomes (Tree.answer_stage hstage)
  have hmade : tree.Becomes (tree.answer (.makeDirectories directory)).2 tree.files :=
    Tree.becomes_of_makeDirectories (Tree.answer_change hmake)
  rw [hmade.files_eq] at hstaged
  refine ⟨_, ⟨_, rfl⟩, rfl, Location.ofPath_join directory (Tree.isName_freshName _), ?_,
    hstaged.directories _ hdirectory, hmade.trans hstaged⟩
  rw [← hmade.files_eq]
  exact Tree.files_of_none (Tree.find?_freshName _ _)

/-- Staging beside a target is staging in its directory. -/
theorem create_ok {directory : Path} {name : String} (hname : Path.IsName name)
    {tree changed : Tree} {staged : StagedFile}
    (hrun : (create (Path.join directory name)).runOn tree = (.ok staged, changed)) :
    ∃ temporary, IsTemporary temporary ∧ staged.target = some (Path.join directory name) ∧
      Location.ofPath staged.temporary = some (Location.ofDirectory directory ++ [temporary]) ∧
      tree.files (Location.ofDirectory directory ++ [temporary]) = none ∧
      changed.IsDirectory (Location.ofDirectory directory) ∧
      tree.Becomes changed
        (tree.files.put (Location.ofDirectory directory ++ [temporary]) (some [])) := by
  have hsame := Location.ofDirectory_directoryOf_join directory hname
  unfold create at hrun
  obtain ⟨made, between, hmade, hrun⟩ := runOn_bind_ok.mp hrun
  obtain ⟨rfl, rfl⟩ := runOn_pure_ok.mp hrun
  obtain ⟨temporary, htemporary, -, hlocation, hunused, hdirectory, hbecomes⟩ :=
    createIn_ok hmade
  rw [hsame] at hunused hdirectory hbecomes hlocation
  exact ⟨temporary, htemporary, rfl, hlocation, hunused, hdirectory, hbecomes⟩

theorem append_ok {staged : StagedFile} {path : Path} {bytes : Bytes} {location : Location}
    (hlocation : Location.ofPath staged.temporary = some location) {tree changed : Tree}
    {done : Unit} (hrun : (staged.append path bytes).runOn tree = (.ok done, changed)) :
    ∃ contents, tree.files location = some contents ∧
      tree.Becomes changed (tree.files.put location (some (contents ++ bytes))) := by
  obtain ⟨happend, rfl⟩ := perform_check_ok.mp hrun
  exact Tree.answer_append hlocation happend

theorem appendAll_ok {staged : StagedFile} {path : Path} {location : Location}
    (hlocation : Location.ofPath staged.temporary = some location) {pieces : List Bytes}
    {tree changed : Tree} {contents : Bytes} (hcontents : tree.files location = some contents)
    {done : Unit} (hrun : (pieces.forM (staged.append path)).runOn tree = (.ok done, changed)) :
    tree.Becomes changed (tree.files.put location (some (contents ++ pieces.flatten))) := by
  induction pieces generalizing tree contents with
  | nil =>
    obtain ⟨-, rfl⟩ := runOn_pure_ok.mp hrun
    rw [List.flatten_nil, List.append_nil, Files.put_of_eq hcontents]
    exact tree.becomes_self
  | cons piece rest ih =>
    obtain ⟨_, between, hpiece, hrest⟩ := runOn_bind_ok.mp hrun
    obtain ⟨held, hheld, happended⟩ := append_ok hlocation hpiece
    obtain rfl : held = contents := Option.some.inj (hheld.symm.trans hcontents)
    have hlater := ih (by rw [happended.files_eq, Files.put_self]) hrest
    rw [happended.files_eq, Files.put_put, List.append_assoc] at hlater
    rw [List.flatten_cons]
    exact happended.trans hlater

/-- Committing moves the contents to the target. -/
theorem persist_ok {staged : StagedFile} {target : Path} {origin place : Location}
    (horigin : Location.ofPath staged.temporary = some origin)
    (hplace : Location.ofPath target = some place) {tree changed : Tree} {done : Unit}
    (hrun : (staged.persist target).runOn tree = (.ok done, changed)) :
    ∃ contents, tree.files origin = some contents ∧
      tree.Becomes changed ((tree.files.put origin none).put place (some contents)) := by
  unfold persist at hrun
  obtain ⟨-, -, hrun⟩ := perform_check_bind_ok.mp (runOn_onFailure_ok.mp hrun)
  obtain ⟨hrename, rfl⟩ := perform_check_ok.mp hrun
  exact Tree.answer_rename horigin hplace hrename

/-! ## What goes wrong -/

section

variable {errors : IndexError → Prop} (hwrite : ∀ path fault, errors (.fileWrite path fault))
include hwrite

theorem raises_createIn (directory : Path) : Raises errors (createIn directory) := by
  unfold createIn
  refine raises_bind (raises_perform _) fun made ↦ ?_
  refine raises_bind (raises_check (hwrite directory) made) fun _ ↦ ?_
  refine raises_bind (raises_perform _) fun path ↦ ?_
  exact raises_bind (raises_check (hwrite directory) path) fun temporary ↦ raises_pure _

theorem raises_create (target : Path) : Raises errors (create target) :=
  raises_bind (raises_createIn hwrite _) fun _ ↦ raises_pure _

theorem raises_append (staged : StagedFile) (path : Path) (bytes : Bytes) :
    Raises errors (staged.append path bytes) :=
  raises_bind (raises_perform _) fun answer ↦ raises_check (hwrite path) answer

theorem raises_persist (staged : StagedFile) (target : Path) :
    Raises errors (staged.persist target) := by
  unfold persist
  refine raises_onFailure ?_ _
  refine raises_bind (raises_perform _) fun answer ↦ ?_
  refine raises_bind (raises_check (hwrite target) answer) fun _ ↦ ?_
  exact raises_bind (raises_perform _) fun answer ↦ raises_check (hwrite target) answer

theorem raises_commit (staged : StagedFile) : Raises errors staged.commit := by
  unfold commit
  split
  · exact raises_persist hwrite staged _
  · exact raises_bind (raises_lift _) fun _ ↦ raises_throw (hwrite _ _)

end

end StagedFile

/-- What goes wrong when a file is published is the writing of a file. -/
theorem raises_publishFile {errors : IndexError → Prop}
    (hwrite : ∀ path fault, errors (.fileWrite path fault)) (target : Path) (contents : Bytes) :
    IndexProgram.Raises errors (publishFile target contents) := by
  unfold publishFile publishPieces
  refine raises_bind (StagedFile.raises_create hwrite target) fun staged ↦ ?_
  refine raises_bind (raises_onFailure ?_ _) fun _ ↦ StagedFile.raises_commit hwrite staged
  refine raises_bind ?_ fun _ ↦ raises_pure ()
  exact raises_bind (StagedFile.raises_append hwrite staged target contents) fun _ ↦ raises_pure ()

/-! ## Publishing -/

/-- Published pieces are together what the target holds, and every other file is as it was. -/
theorem publishPieces_ok {directory : Path} {name : String} (hname : Path.IsName name)
    {pieces : List Bytes} {failure : Option StoreFault} {tree changed : Tree} {done : Unit}
    (hrun : (publishPieces (Path.join directory name) pieces failure).runOn tree =
      (.ok done, changed)) :
    failure = none ∧ changed.IsDirectory (Location.ofDirectory directory) ∧
      tree.Becomes changed
        (tree.files.put (Location.ofDirectory directory ++ [name]) (some pieces.flatten)) := by
  unfold publishPieces at hrun
  obtain ⟨staged, first, hcreate, hrun⟩ := runOn_bind_ok.mp hrun
  obtain ⟨_, second, hwrite, hcommit⟩ := runOn_bind_ok.mp hrun
  obtain ⟨temporary, htemporary, htarget, hlocation, hunused, hdirectory, hstaged⟩ :=
    StagedFile.create_ok hname hcreate
  obtain ⟨_, third, happend, hlast⟩ := runOn_bind_ok.mp (runOn_onFailure_ok.mp hwrite)
  cases failure with
  | some fault => cases hlast
  | none =>
    obtain ⟨-, rfl⟩ := runOn_pure_ok.mp hlast
    have happended := StagedFile.appendAll_ok hlocation
      (by rw [hstaged.files_eq, Files.put_self]) happend
    unfold StagedFile.commit at hcommit
    rw [htarget] at hcommit
    obtain ⟨contents, hcontents, hpersisted⟩ :=
      StagedFile.persist_ok hlocation (Location.ofPath_join directory hname) hcommit
    rw [hstaged.files_eq, Files.put_put, List.nil_append] at happended
    rw [happended.files_eq, Files.put_self] at hcontents
    rw [happended.files_eq, Files.put_put, Files.put_of_eq hunused,
      ← Option.some.inj hcontents] at hpersisted
    have hall := (hstaged.trans happended).trans hpersisted
    exact ⟨rfl, hpersisted.directories _ (happended.directories _ hdirectory), hall⟩

theorem publishFile_ok {directory : Path} {name : String} (hname : Path.IsName name)
    {contents : Bytes} {tree changed : Tree} {done : Unit}
    (hrun : (publishFile (Path.join directory name) contents).runOn tree = (.ok done, changed)) :
    changed.IsDirectory (Location.ofDirectory directory) ∧
      tree.Becomes changed
        (tree.files.put (Location.ofDirectory directory ++ [name]) (some contents)) := by
  have hpieces := (publishPieces_ok hname hrun).2
  rwa [List.flatten_singleton] at hpieces

/-- Whatever path it is published at, a published file is read there. -/
theorem read_of_publishFile {target : Path} {contents : Bytes} {tree changed : Tree} {done : Unit}
    (hrun : (publishFile target contents).runOn tree = (.ok done, changed)) :
    changed.read target = .ok contents := by
  unfold publishFile publishPieces StagedFile.create at hrun
  obtain ⟨staged, first, hcreate, hrun⟩ := runOn_bind_ok.mp hrun
  obtain ⟨made, between, hmade, hcreate⟩ := runOn_bind_ok.mp hcreate
  obtain ⟨rfl, rfl⟩ := runOn_pure_ok.mp hcreate
  obtain ⟨temporary, -, -, hlocation, -, -, hstaged⟩ := StagedFile.createIn_ok hmade
  replace hlocation : Location.ofPath ({ made with target := some target } : StagedFile).temporary =
    some _ := hlocation
  obtain ⟨_, third, hwrite, hcommit⟩ := runOn_bind_ok.mp hrun
  obtain ⟨_, fourth, happend, hlast⟩ := runOn_bind_ok.mp (runOn_onFailure_ok.mp hwrite)
  obtain ⟨-, rfl⟩ := runOn_pure_ok.mp hlast
  have happended := StagedFile.appendAll_ok hlocation
    (by rw [hstaged.files_eq, Files.put_self]) happend
  have hcontents := congrFun happended.files_eq
    (Location.ofDirectory (StagedFile.directoryOf target) ++ [temporary])
  rw [Files.put_self, List.nil_append, List.flatten_singleton] at hcontents
  obtain ⟨-, -, hcommit⟩ := perform_check_bind_ok.mp (runOn_onFailure_ok.mp hcommit)
  obtain ⟨hrename, rfl⟩ := perform_check_ok.mp hcommit
  exact Tree.read_of_rename hlocation hcontents (Tree.answer_change hrename)

end VectorIndex
