import VectorIndex.Proofs.Store.Sharing

/-!
# Which directories there are

Only the making of directories changes which locations are directories, and it fails only where a
file stands in the way. Within a directory that is there, staging and appending succeed, and a
file is moved to every name that is not a directory's.
-/

namespace VectorIndex

namespace Tree

/-- Everything that is in a directory is there only when the directory is. -/
def Nested (tree : Tree) : Prop :=
  ∀ location name, tree.find? (location ++ [name]) ≠ none → tree.IsDirectory location

/-- The same for one directory. -/
def NestedIn (tree : Tree) (directory : Location) : Prop :=
  ∀ name, tree.find? (directory ++ [name]) ≠ none → tree.IsDirectory directory

/-- The same locations are those of directories. -/
def SameDirectories (before after : Tree) : Prop :=
  ∀ location, after.find? location = some .directory ↔ before.find? location = some .directory

theorem sameDirectories_set (tree : Tree) {location : Location}
    (hlocation : tree.find? location ≠ some .directory) (contents : Bytes) (modified : Moment) :
    tree.SameDirectories (tree.set location (.file contents modified)) := by
  intro l
  rw [find?_set tree _ (ne_nil_of_find? hlocation)]
  by_cases hl : l = location
  · simpa [hl] using hlocation
  · rw [if_neg hl]

theorem sameDirectories_erase {tree : Tree} {location : Location}
    (hlocation : tree.find? location ≠ some .directory) :
    tree.SameDirectories (tree.erase location) := by
  intro l
  rw [find?_erase tree (ne_nil_of_find? hlocation)]
  by_cases hl : l = location
  · simpa [hl] using hlocation
  · rw [if_neg hl]

theorem find?_of_fileLocation {tree : Tree} {path : Path} {location : Location}
    (hlocation : tree.fileLocation path = .ok location) :
    tree.find? location ≠ some .directory := by
  cases hpath : Location.ofPath path with
  | none => simp [fileLocation, hpath] at hlocation
  | some found =>
    obtain ⟨-, hfind, rfl⟩ := (fileLocation_eq_ok hpath).mp hlocation
    exact hfind

theorem sameDirectories_write {tree changed : Tree} {path : Path} {contents : Bytes}
    (hwrite : tree.write path contents = .ok changed) : tree.SameDirectories changed := by
  obtain ⟨location, hlocation, rfl⟩ := write_eq_ok.mp hwrite
  exact sameDirectories_set tree (find?_of_fileLocation hlocation) contents _

theorem sameDirectories_append {tree changed : Tree} {path : Path} {bytes : Bytes}
    (happend : tree.append path bytes = .ok changed) : tree.SameDirectories changed := by
  obtain ⟨_, _, -, hwrite⟩ := append_eq_ok.mp happend
  exact sameDirectories_write hwrite

theorem sameDirectories_remove {tree changed : Tree} {path : Path}
    (hremove : tree.remove path = .ok changed) : tree.SameDirectories changed := by
  obtain ⟨_, _, location, -, hlocation, rfl⟩ := remove_eq_ok.mp hremove
  exact sameDirectories_erase (find?_of_fileLocation hlocation)

theorem sameDirectories_rename {tree changed : Tree} {source target : Path}
    (hrename : tree.rename source target = .ok changed) : tree.SameDirectories changed := by
  obtain ⟨contents, modified, place, origin, -, -, hplace, horigin, rfl⟩ :=
    rename_eq_ok.mp hrename
  have herase := sameDirectories_erase (find?_of_fileLocation horigin)
  have hset := sameDirectories_set (tree.erase origin)
    (mt (herase place).mp (find?_of_fileLocation hplace)) contents modified
  exact fun l ↦ (hset l).trans (herase l)

theorem sameDirectories_stage (tree : Tree) (directory : Path) :
    tree.SameDirectories (tree.answer (.stage directory)).2 := by
  cases hresult : (tree.answer (.stage directory)).1 with
  | error fault =>
    rw [answer_stage_error hresult]
    exact fun _ ↦ Iff.rfl
  | ok path => exact sameDirectories_write (stage_eq_ok.mp (answer_stage hresult)).2.2

/-- No action but the making of directories changes which locations are directories. -/
theorem sameDirectories_answer (tree : Tree) {action : Action}
    (haction : ∀ path, action ≠ .makeDirectories path) :
    tree.SameDirectories (tree.answer action).2 := by
  have hchange : ∀ result, (∀ changed, result = .ok changed → tree.SameDirectories changed) →
      tree.SameDirectories (tree.change result).2 := by
    intro result hresult
    cases result with
    | ok changed => exact hresult changed rfl
    | error fault => exact fun _ ↦ Iff.rfl
  cases action with
  | makeDirectories path => exact absurd rfl (haction path)
  | stage directory => exact tree.sameDirectories_stage directory
  | append path bytes => exact hchange _ fun _ ↦ sameDirectories_append
  | overwrite path bytes => exact hchange _ fun _ ↦ sameDirectories_write
  | remove path => exact hchange _ fun _ ↦ sameDirectories_remove
  | rename source target => exact hchange _ fun _ ↦ sameDirectories_rename
  | _ => exact fun _ ↦ Iff.rfl

/-- No action takes a directory away. -/
theorem IsDirectory.answer {tree : Tree} {location : Location}
    (hdirectory : tree.IsDirectory location) (action : Action) :
    (tree.answer action).2.IsDirectory location := by
  by_cases haction : ∃ path, action = .makeDirectories path
  · obtain ⟨path, rfl⟩ := haction
    show (tree.change (tree.makeDirectories path)).2.IsDirectory location
    cases hmake : tree.makeDirectories path with
    | error fault => exact hdirectory
    | ok changed => exact (becomes_of_makeDirectories hmake).directories location hdirectory
  · rw [not_exists] at haction
    exact fun count ↦ (tree.sameDirectories_answer haction _).mpr (hdirectory count)

/-! ## What directories can be made -/

theorem isSome_files (tree : Tree) (location : Location) :
    (tree.files location).isSome = (tree.find? location matches some (.file ..)) := by
  unfold files
  cases tree.find? location with
  | none => rfl
  | some entry => cases entry <;> rfl

/-- Directories are made unless a file stands in the way. -/
theorem makeDirectories_eq (tree : Tree) {path : Path} {location : Location}
    (hpath : Location.ofPath path = some location) :
    tree.makeDirectories path =
      match (above location).find? fun l ↦ (tree.files l).isSome with
      | some _ => .error .notADirectory
      | none =>
        if (tree.files location).isSome then .error .alreadyExists
        else .ok (((above location ++ [location]).filter fun l ↦ (tree.find? l).isNone).foldl
          (fun tree l ↦ tree.set l .directory) tree) := by
  have hne : path.isEmpty = false := by
    rw [← Bool.not_eq_true]
    intro hempty
    simp [Location.ofPath, hempty] at hpath
  have hfile := funext tree.isSome_files
  simp only [makeDirectories, hne, hpath, Bool.false_eq_true, if_false]
  rw [hfile, congrFun hfile location]
  rfl

/-- Whether directories can be made depends on where files stand in the way. -/
theorem answer_makeDirectories_congr {tree other : Tree} {path : Path} {location : Location}
    (hpath : Location.ofPath path = some location)
    (hfiles : ∀ count, tree.files (location.take count) = other.files (location.take count)) :
    (tree.answer (.makeDirectories path)).1 = (other.answer (.makeDirectories path)).1 := by
  have habove : (above location).find? (fun l ↦ (tree.files l).isSome) =
      (above location).find? fun l ↦ (other.files l).isSome := by
    unfold above
    rw [List.find?_map, List.find?_map]
    congr 2
    funext count
    exact congrArg Option.isSome (hfiles count)
  have hlast : tree.files location = other.files location := by
    have htake := hfiles location.length
    rwa [List.take_length] at htake
  show (tree.change (tree.makeDirectories path)).1 = (other.change (other.makeDirectories path)).1
  rw [tree.makeDirectories_eq hpath, other.makeDirectories_eq hpath, habove, hlast]
  split
  · rfl
  · split
    · rfl
    · rfl

theorem answer_makeDirectories_of_files {tree : Tree} {path : Path} {location : Location}
    (hpath : Location.ofPath path = some location)
    (hfiles : ∀ count, tree.files (location.take count) = none) :
    (tree.answer (.makeDirectories path)).1 = .ok () := by
  have habove : (above location).find? (fun l ↦ (tree.files l).isSome) = none := by
    rw [List.find?_eq_none]
    intro l hl
    obtain ⟨count, -, rfl⟩ := List.mem_map.mp hl
    simp [hfiles count]
  have hlast := hfiles location.length
  rw [List.take_length] at hlast
  show (tree.change (tree.makeDirectories path)).1 = .ok ()
  rw [tree.makeDirectories_eq hpath, habove, hlast]
  rfl

/-- Making directories makes none within the last of them. -/
theorem find?_answer_makeDirectories (tree : Tree) {path : Path} {location : Location}
    (hpath : Location.ofPath path = some location) (name : String) :
    (tree.answer (.makeDirectories path)).2.find? (location ++ [name]) =
      tree.find? (location ++ [name]) := by
  show (tree.change (tree.makeDirectories path)).2.find? _ = _
  cases hmake : tree.makeDirectories path with
  | error fault => rfl
  | ok changed =>
    obtain ⟨-, rfl⟩ := makeDirectories_eq_ok hpath hmake
    show Tree.find? (List.foldl _ _ _) _ = _
    have hlength : ∀ l ∈ (above location ++ [location]).filter fun l ↦ (tree.find? l).isNone,
        l.length ≤ location.length := by
      intro l hl
      rcases List.mem_append.mp (List.mem_filter.mp hl).1 with hl | hl
      · obtain ⟨count, hcount, rfl⟩ := List.mem_map.mp hl
        exact List.length_take_le' _ _
      · exact Nat.le_of_eq (congrArg List.length (List.mem_singleton.mp hl))
    rw [find?_foldl_set, if_neg]
    · intro hmem
      have hle := hlength _ hmem
      rw [List.length_append, List.length_singleton] at hle
      omega
    · rintro l hl rfl
      simp at hl

/-! ## What can be done in a directory -/

section

variable {tree : Tree} {directory : Location} (hdirectory : tree.IsDirectory directory)
include hdirectory

variable {path : Path} {name : String} (hpath : Location.ofPath path = some (directory ++ [name]))
include hpath

theorem lookup_eq_ok_of_isDirectory (hslash : Path.endsWithSlash path = false) {entry : Entry} :
    tree.lookup path = .ok entry ↔ tree.find? (directory ++ [name]) = some entry := by
  rw [lookup_eq_ok hpath, above_name]
  simp [hdirectory, hslash]

theorem fileLocation_of_isDirectory :
    tree.fileLocation path =
      if tree.find? (directory ++ [name]) = some .directory then .error .isADirectory
      else .ok (directory ++ [name]) := by
  have habove := checkDirectories_above.mpr ((above_name directory name).mpr hdirectory)
  unfold fileLocation
  simp only [hpath, habove, bind, Except.bind, throw, throwThe, MonadExceptOf.throw, pure,
    Except.pure]

theorem write_of_isDirectory (hfree : tree.find? (directory ++ [name]) ≠ some .directory)
    (contents : Bytes) : ∃ changed, tree.write path contents = .ok changed := by
  have hlocation := fileLocation_of_isDirectory hdirectory hpath
  rw [if_neg hfree] at hlocation
  exact ⟨_, write_eq_ok.mpr ⟨_, hlocation, rfl⟩⟩

theorem append_of_isDirectory (hslash : Path.endsWithSlash path = false) {contents : Bytes}
    (hcontents : tree.files (directory ++ [name]) = some contents) (bytes : Bytes) :
    (tree.answer (.append path bytes)).1 = .ok () := by
  obtain ⟨modified, hfind⟩ := files_eq_some.mp hcontents
  have hlookup := (lookup_eq_ok_of_isDirectory hdirectory hpath hslash).mpr hfind
  obtain ⟨changed, hwrite⟩ := write_of_isDirectory hdirectory hpath (by simp [hfind])
    (contents ++ bytes)
  have happend : tree.append path bytes = .ok changed :=
    append_eq_ok.mpr ⟨contents, modified, hlookup, hwrite⟩
  show (tree.change (tree.append path bytes)).1 = .ok ()
  rw [happend]
  rfl

/-- A file is moved within a directory unless the target is a directory. -/
theorem rename_of_isDirectory (hslash : Path.endsWithSlash path = false) {contents : Bytes}
    (hcontents : tree.files (directory ++ [name]) = some contents) {target : Path}
    {other : String} (htarget : Location.ofPath target = some (directory ++ [other]))
    (hslash' : Path.endsWithSlash target = false) :
    (tree.answer (.rename path target)).1 =
      if tree.find? (directory ++ [other]) = some .directory then .error .isADirectory
      else .ok () := by
  obtain ⟨modified, hfind⟩ := files_eq_some.mp hcontents
  have hlookup := (lookup_eq_ok_of_isDirectory hdirectory hpath hslash).mpr hfind
  have hsource : tree.fileLocation path = .ok (directory ++ [name]) := by
    rw [fileLocation_of_isDirectory hdirectory hpath, if_neg (by simp [hfind])]
  have hplace := fileLocation_of_isDirectory hdirectory htarget
  show (tree.change (tree.rename path target)).1 = _
  unfold rename
  rw [hlookup]
  simp only [hslash', Bool.false_eq_true, if_false, bind, Except.bind, pure, Except.pure]
  by_cases hother : tree.find? (directory ++ [other]) = some .directory
  · rw [hplace, if_pos hother, if_pos hother]
    rfl
  · rw [hplace, if_neg hother, if_neg hother]
    simp only [hsource]
    rfl

end

/-- A file of a fresh name can be staged in every directory. -/
theorem stage_of_isDirectory {tree : Tree} {path : Path}
    (hdirectory : tree.IsDirectory (Location.ofDirectory path)) :
    (tree.answer (.stage path)).1 = .ok (Path.join path tree.freshName) := by
  have hjoin := Location.ofPath_join path tree.isName_freshName
  have hlookup : tree.lookup (if path.isEmpty then "." else path) = .ok .directory :=
    (lookup_eq_ok (Location.ofPath_staging path)).mpr
      ⟨fun count _ ↦ hdirectory count, hdirectory.find?, fun _ ↦ rfl⟩
  obtain ⟨changed, hwrite⟩ := write_of_isDirectory hdirectory hjoin
    (by rw [find?_freshName]; exact nofun) []
  have hstage : tree.stage path = .ok (Path.join path tree.freshName, changed) :=
    stage_eq_ok.mpr ⟨hlookup, rfl, hwrite⟩
  unfold answer
  simp only [hstage]

end Tree
end VectorIndex
