import VectorIndex.Proofs.Store.Faults

/-!
# Directories in which publishing succeeds

In a directory that is there and holds no directory itself, files can be staged, written to and
moved to any name. All of this leaves the directory one in which more files can be published. A
directory that is missing will do for the first of them, if no file stands in its way.
-/

namespace VectorIndex

namespace Tree

/-- The directory is there, and nothing in it is a directory. -/
structure Hosts (tree : Tree) (directory : Path) : Prop where
  isDirectory : tree.IsDirectory (Location.ofDirectory directory)
  free : ∀ name, tree.find? (Location.ofDirectory directory ++ [name]) ≠ some .directory

/-- No file stands in the way to the directory, and nothing in it is a directory. -/
structure Admits (tree : Tree) (directory : Path) : Prop where
  clear : ∀ count, tree.files ((Location.ofDirectory directory).take count) = none
  free : ∀ name, tree.find? (Location.ofDirectory directory ++ [name]) ≠ some .directory

theorem Hosts.admits {tree : Tree} {directory : Path} (hhosts : tree.Hosts directory) :
    tree.Admits directory :=
  ⟨fun count ↦ files_of_directory (hhosts.isDirectory count), hhosts.free⟩

/-- Any other path to the place will do. -/
theorem Admits.congr {tree : Tree} {directory other : Path} (hadmits : tree.Admits directory)
    (hsame : Location.ofDirectory other = Location.ofDirectory directory) : tree.Admits other :=
  ⟨hsame ▸ hadmits.clear, hsame ▸ hadmits.free⟩

theorem Admits.tick {tree : Tree} {directory : Path} (hadmits : tree.Admits directory) :
    tree.tick.Admits directory :=
  ⟨hadmits.clear, hadmits.free⟩

theorem Admits.makeDirectories {tree : Tree} {directory : Path} (hadmits : tree.Admits directory) :
    (tree.answer (.makeDirectories directory)).1 = .ok () ∧
      (tree.answer (.makeDirectories directory)).2.Hosts directory := by
  by_cases hempty : directory = ""
  · subst hempty
    exact ⟨rfl, fun count ↦ congrArg (Tree.find? _) (List.take_nil (i := count)), hadmits.free⟩
  · have hplace := Location.ofPath_of_ne_empty hempty
    have hmade := answer_makeDirectories_of_files hplace hadmits.clear
    refine ⟨hmade, (answer_makeDirectories hplace hmade).2, fun name ↦ ?_⟩
    rw [find?_answer_makeDirectories tree hplace]
    exact hadmits.free name

/-- The directory is found, and no entry of the tree is a directory one level below. -/
def EntriesHost (tree : Tree) (directory : Path) : Prop :=
  (∀ count ≤ (Location.ofDirectory directory).length,
    tree.find? ((Location.ofDirectory directory).take count) = some .directory) ∧
  ∀ entry ∈ tree.entries, entry.2 = .directory →
    entry.1.length ≠ (Location.ofDirectory directory).length + 1

instance (tree : Tree) (directory : Path) : Decidable (tree.EntriesHost directory) :=
  inferInstanceAs (Decidable (_ ∧ _))

theorem hosts_of_entries {tree : Tree} {directory : Path} (hlisted : tree.EntriesHost directory) :
    tree.Hosts directory := by
  obtain ⟨hdirectory, hentries⟩ := hlisted
  have hfind := hdirectory _ (Nat.le_refl _)
  rw [List.take_length] at hfind
  refine ⟨isDirectory_of_above (fun count hcount ↦ hdirectory count (Nat.le_of_lt hcount)) hfind,
    fun name hname ↦ ?_⟩
  rw [find?, if_neg (by simp), Option.map_eq_some_iff] at hname
  obtain ⟨entry, hentry, hkind⟩ := hname
  have hplace : entry.1 = Location.ofDirectory directory ++ [name] := by
    simpa using List.find?_some hentry
  exact hentries entry (List.mem_of_find?_eq_some hentry) hkind (by simp [hplace])

namespace Hosts

variable {tree : Tree} {directory : Path} (hhosts : tree.Hosts directory)
include hhosts

/-- Any other path to the place will do. -/
theorem congr {other : Path}
    (hsame : Location.ofDirectory other = Location.ofDirectory directory) : tree.Hosts other :=
  ⟨hsame ▸ hhosts.isDirectory, hsame ▸ hhosts.free⟩

theorem of_sameDirectories {changed : Tree} (hsame : tree.SameDirectories changed) :
    changed.Hosts directory :=
  ⟨fun count ↦ (hsame _).mpr (hhosts.isDirectory count),
    fun name ↦ mt (hsame _).mp (hhosts.free name)⟩

/-- Only the making of directories can change what a directory hosts. -/
theorem answer {action : Action} (haction : ∀ path, action ≠ .makeDirectories path) :
    (tree.answer action).2.Hosts directory :=
  hhosts.of_sameDirectories (tree.sameDirectories_answer haction)

theorem tick : tree.tick.Hosts directory := ⟨hhosts.isDirectory, hhosts.free⟩

/-- Finding and removing files makes no directory. -/
theorem run_of_takes {α : Type} {program : StoreProgram α}
    (htakes : program.Takes (·.clears = true)) : (program.run tree).2.Hosts directory := by
  induction program generalizing tree with
  | done value => exact hhosts
  | act action next ih =>
    refine ih _ (hhosts.answer ?_) (htakes.2 _)
    rintro path rfl
    exact Bool.false_ne_true htakes.1

end Hosts
end Tree

open IndexProgram (perform_check_bind_ok perform_check_ok runOn_bind_ok runOn_onFailure_ok
  runOn_pure_ok)

namespace StagedFile

section

variable {tree : Tree} {directory : Path} (hadmits : tree.Admits directory)
include hadmits

theorem exists_createIn : ∃ staged changed,
    (createIn directory).runOn tree = (.ok staged, changed) ∧ changed.Hosts directory ∧
      Path.endsWithSlash staged.temporary = false := by
  obtain ⟨hmade, hhosted⟩ := hadmits.makeDirectories
  have hstage := Tree.stage_of_isDirectory hhosted.isDirectory
  unfold createIn
  exact ⟨_, _, perform_check_bind_ok.mpr ⟨_, hmade, perform_check_bind_ok.mpr
    ⟨_, hstage, runOn_pure_ok.mpr ⟨rfl, rfl⟩⟩⟩, hhosted.answer nofun,
    Path.endsWithSlash_join directory (Tree.isName_freshName _)⟩

theorem exists_create {name : String} (hname : Path.IsName name) : ∃ staged changed,
    (create (Path.join directory name)).runOn tree = (.ok staged, changed) ∧
      changed.Hosts directory ∧ Path.endsWithSlash staged.temporary = false := by
  have hsame := Location.ofDirectory_directoryOf_join directory hname
  obtain ⟨made, changed, hmade, hhosted, hslash⟩ := exists_createIn (hadmits.congr hsame)
  unfold create
  exact ⟨_, changed, runOn_bind_ok.mpr ⟨made, changed, hmade, runOn_pure_ok.mpr ⟨rfl, rfl⟩⟩,
    hhosted.congr hsame.symm, hslash⟩

end

variable {tree : Tree} {directory : Path} (hhosts : tree.Hosts directory)
include hhosts

variable {staged : StagedFile} {temporary : String} {contents : Bytes}
  (hlocation : Location.ofPath staged.temporary =
    some (Location.ofDirectory directory ++ [temporary]))
  (hslash : Path.endsWithSlash staged.temporary = false)
  (hcontents : tree.files (Location.ofDirectory directory ++ [temporary]) = some contents)
include hlocation hslash hcontents

theorem exists_append (path : Path) (bytes : Bytes) : ∃ changed,
    (staged.append path bytes).runOn tree = (.ok (), changed) ∧ changed.Hosts directory :=
  ⟨_, perform_check_ok.mpr ⟨Tree.append_of_isDirectory hhosts.isDirectory hlocation hslash
    hcontents bytes, rfl⟩, hhosts.answer nofun⟩

theorem exists_persist {name : String} (hname : Path.IsName name) : ∃ changed,
    (staged.persist (Path.join directory name)).runOn tree = (.ok (), changed) ∧
      changed.Hosts directory := by
  have hrename := Tree.rename_of_isDirectory hhosts.isDirectory hlocation hslash hcontents
    (Location.ofPath_join directory hname) (Path.endsWithSlash_join directory hname)
  rw [if_neg (hhosts.free name)] at hrename
  exact ⟨_, runOn_onFailure_ok.mpr (perform_check_bind_ok.mpr
    ⟨(), rfl, perform_check_ok.mpr ⟨hrename, rfl⟩⟩), hhosts.answer nofun⟩

end StagedFile

/-- A file of any name can be published. -/
theorem Tree.Admits.exists_publishFile {tree : Tree} {directory : Path}
    (hadmits : tree.Admits directory) {name : String} (hname : Path.IsName name)
    (contents : Bytes) : ∃ changed,
      (publishFile (Path.join directory name) contents).runOn tree = (.ok (), changed) ∧
        changed.Hosts directory := by
  obtain ⟨staged, created, hcreate, hcreated, hslash⟩ := StagedFile.exists_create hadmits hname
  obtain ⟨temporary, -, htarget, hlocation, -, -, hstaged⟩ := StagedFile.create_ok hname hcreate
  have hempty : created.files (Location.ofDirectory directory ++ [temporary]) = some [] := by
    rw [hstaged.files_eq, Files.put_self]
  obtain ⟨written, happend, hwritten⟩ := StagedFile.exists_append hcreated hlocation hslash hempty
    (Path.join directory name) contents
  have hpieces : (List.forM [contents] (staged.append (Path.join directory name))).runOn created =
      (.ok (), written) := runOn_bind_ok.mpr ⟨(), written, happend, rfl⟩
  have hfile : written.files (Location.ofDirectory directory ++ [temporary]) = some contents := by
    rw [(StagedFile.appendAll_ok hlocation hempty hpieces).files_eq, Files.put_self,
      List.nil_append, List.flatten_singleton]
  obtain ⟨changed, hpersist, hpublished⟩ :=
    StagedFile.exists_persist hwritten hlocation hslash hfile hname
  have hcommit : staged.commit.runOn written = (.ok (), changed) := by
    unfold StagedFile.commit
    rw [htarget]
    exact hpersist
  unfold publishFile publishPieces
  refine ⟨changed, runOn_bind_ok.mpr ⟨staged, created, hcreate, ?_⟩, hpublished⟩
  exact runOn_bind_ok.mpr ⟨(), written, runOn_onFailure_ok.mpr
    (runOn_bind_ok.mpr ⟨(), written, hpieces, rfl⟩), hcommit⟩

end VectorIndex
