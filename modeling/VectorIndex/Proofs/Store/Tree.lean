import VectorIndex.Proofs.Result
import VectorIndex.Proofs.Store.Path

/-!
# Files and directories of a tree

Two views of a tree carry every argument about it: which bytes each location holds, and which
locations are directories. Every operation on a tree either fails or changes the first view at one
or two locations, and none of them takes a directory away.
-/

namespace VectorIndex

/-- The bytes that the files of a store hold. -/
abbrev Files := Location → Option Bytes

/-- The files with one location holding other contents, or none. -/
def Files.put (files : Files) (location : Location) (contents : Option Bytes) : Files :=
  fun l ↦ if l = location then contents else files l

namespace Files

@[simp] theorem put_self (files : Files) (location : Location) (contents : Option Bytes) :
    files.put location contents location = contents := if_pos rfl

theorem put_other (files : Files) {location l : Location} (contents : Option Bytes)
    (hl : l ≠ location) : files.put location contents l = files l := if_neg hl

@[simp] theorem put_put (files : Files) (location : Location) (first second : Option Bytes) :
    (files.put location first).put location second = files.put location second := by
  funext l
  by_cases hl : l = location
  · simp [put, hl]
  · simp [put, hl]

theorem put_comm (files : Files) {first second : Location} (a b : Option Bytes)
    (hne : first ≠ second) :
    (files.put first a).put second b = (files.put second b).put first a := by
  funext l
  unfold put
  by_cases hl : l = second
  · rw [if_pos hl, if_pos hl, if_neg fun hfirst ↦ hne (hfirst.symm.trans hl)]
  · rw [if_neg hl, if_neg hl]

theorem put_of_eq {files : Files} {location : Location} {contents : Option Bytes}
    (hcontents : files location = contents) : files.put location contents = files := by
  funext l
  unfold put
  split
  · next hl => rw [hl, hcontents]
  · rfl

/-- Two files moved from unused places are at the places where they were moved to. -/
theorem put_moved {files : Files} {first second place other : Location} (a b : Bytes)
    (hfirst : files first = none) (hsecond : files second = none) (hne : second ≠ first)
    (hplace : second ≠ place) :
    (((((files.put first (some a)).put second (some b)).put first none).put place (some a)).put
      second none).put other (some b) = (files.put place (some a)).put other (some b) := by
  have hcleared : (files.put first (some a)).put first none = files := by
    rw [put_put, put_of_eq hfirst]
  have hlast : (files.put place (some a)).put second none = files.put place (some a) := by
    rw [put_comm _ _ _ hplace.symm, put_of_eq hsecond]
  calc
    _ = ((((files.put second (some b)).put place (some a)).put second none).put other
        (some b)) := by
      rw [put_comm _ _ none hne, hcleared]
    _ = ((files.put place (some a)).put second none).put other (some b) := by
      rw [put_comm _ _ _ hplace, put_put]
    _ = (files.put place (some a)).put other (some b) := by rw [hlast]

end Files

/-- The locations of some names in a directory. -/
def Location.Within (directory : Location) (names : String → Prop) (location : Location) : Prop :=
  ∃ name, names name ∧ location = directory ++ [name]

@[simp] theorem Location.within_append {directory : Location} {names : String → Prop}
    {name : String} : Within directory names (directory ++ [name]) ↔ names name := by
  constructor
  · rintro ⟨other, hother, heq⟩
    obtain rfl : name = other := by simpa using heq
    exact hother
  · exact fun hname ↦ ⟨name, hname, rfl⟩

theorem Location.Within.mono {directory : Location} {few many : String → Prop}
    (hmany : ∀ name, few name → many name) {location : Location}
    (hwithin : Within directory few location) : Within directory many location := by
  obtain ⟨name, hname, rfl⟩ := hwithin
  exact within_append.mpr (hmany name hname)

namespace Tree

/-- What the file at each location holds. -/
def files (tree : Tree) : Files := fun location ↦
  match tree.find? location with
  | some (.file contents _) => some contents
  | _ => none

/-- The location and those above it are directories. -/
def IsDirectory (tree : Tree) (location : Location) : Prop :=
  ∀ count, tree.find? (location.take count) = some .directory

/-! ## Finding entries -/

@[simp] theorem find?_root (tree : Tree) : tree.find? [] = some .directory := rfl

@[simp] theorem find?_tick (tree : Tree) (location : Location) :
    tree.tick.find? location = tree.find? location := rfl

/-- Dropping the entries of one location leaves the others to be found. -/
theorem find?_filter_other (entries : List (Location × Entry)) {location l : Location}
    (hl : l ≠ location) :
    (entries.filter (·.1 ≠ location)).find? (·.1 = l) = entries.find? (·.1 = l) := by
  rw [List.find?_filter]
  congr 1
  funext pair
  by_cases hpair : pair.1 = l
  · simp [hpair, hl]
  · simp [hpair]

theorem find?_set (tree : Tree) {location : Location} (entry : Entry) (hlocation : location ≠ [])
    (l : Location) :
    (tree.set location entry).find? l = if l = location then some entry else tree.find? l := by
  unfold find? set
  by_cases hl : l = location
  · simp [hl, hlocation]
  · have hdecide : decide (location = l) = false := by simpa using Ne.symm hl
    rw [if_neg hl, List.find?_cons, hdecide, ← find?_filter_other tree.entries hl]

theorem find?_erase (tree : Tree) {location : Location} (hlocation : location ≠ [])
    (l : Location) :
    (tree.erase location).find? l = if l = location then none else tree.find? l := by
  unfold find? erase
  by_cases hl : l = location
  · simp [hl, hlocation, List.find?_filter]
  · rw [if_neg hl, ← find?_filter_other tree.entries hl]

theorem ne_nil_of_find? {tree : Tree} {location : Location}
    (hfind : tree.find? location ≠ some .directory) : location ≠ [] := by
  rintro rfl
  exact hfind rfl

theorem files_eq_some {tree : Tree} {location : Location} {contents : Bytes} :
    tree.files location = some contents ↔
      ∃ modified, tree.find? location = some (.file contents modified) := by
  unfold files
  split
  · next held modified hfind => simp [hfind]
  · next hfind => simpa using hfind contents

theorem files_of_not_file {tree : Tree} {location : Location}
    (hfind : ∀ contents modified, tree.find? location ≠ some (.file contents modified)) :
    tree.files location = none := by
  rw [Option.eq_none_iff_forall_ne_some]
  intro contents hcontents
  obtain ⟨modified, hfile⟩ := files_eq_some.mp hcontents
  exact hfind contents modified hfile

theorem files_eq_none {tree : Tree} {location : Location} :
    tree.files location = none ↔
      tree.find? location = none ∨ tree.find? location = some .directory := by
  unfold files
  cases tree.find? location with
  | none => simp
  | some entry =>
    cases entry with
    | file contents modified => simp
    | directory => simp

theorem find?_ne_none {tree : Tree} {location : Location} :
    tree.find? location ≠ none ↔
      tree.files location ≠ none ∨ tree.find? location = some .directory := by
  unfold files
  cases tree.find? location with
  | none => simp
  | some entry => cases entry <;> simp

theorem files_of_directory {tree : Tree} {location : Location}
    (hfind : tree.find? location = some .directory) : tree.files location = none := by
  simp [files, hfind]

theorem files_of_none {tree : Tree} {location : Location} (hfind : tree.find? location = none) :
    tree.files location = none := by
  simp [files, hfind]

/-! ## Directories -/

theorem IsDirectory.find? {tree : Tree} {location : Location} (hdirectory : tree.IsDirectory location) :
    tree.find? location = some .directory := by
  simpa using hdirectory location.length

theorem checkDirectories_eq_ok {tree : Tree} {locations : List Location} :
    tree.checkDirectories locations = .ok () ↔
      ∀ l ∈ locations, tree.find? l = some .directory := by
  induction locations with
  | nil => simp [checkDirectories]
  | cons location rest ih =>
    rw [checkDirectories]
    split
    · next hfind => simp [hfind, ih]
    · next hfind => simp [hfind]
    · next hfind => simp [hfind]

theorem checkDirectories_above {tree : Tree} {location : Location} :
    tree.checkDirectories (above location) = .ok () ↔
      ∀ count < location.length, tree.find? (location.take count) = some .directory := by
  unfold above
  rw [checkDirectories_eq_ok, List.forall_mem_map]
  simp

/-- What is above a name in a directory is the directory and what is above that. -/
theorem above_name {tree : Tree} (directory : Location) (name : String) :
    (∀ count < (directory ++ [name]).length,
      tree.find? ((directory ++ [name]).take count) = some .directory) ↔
      tree.IsDirectory directory := by
  constructor
  · intro hall count
    have hcount := hall (min count directory.length)
      (by rw [List.length_append, List.length_singleton]; omega)
    rw [List.take_append_of_le_length (by omega)] at hcount
    rw [← hcount]
    congr 1
    by_cases hle : count ≤ directory.length
    · rw [Nat.min_eq_left hle]
    · rw [Nat.min_eq_right (by omega), List.take_of_length_le (by omega), List.take_length]
  · intro hall count hcount
    rw [List.take_append_of_le_length (by simp at hcount; omega)]
    exact hall count

theorem isDirectory_of_above {tree : Tree} {location : Location}
    (habove : ∀ count < location.length, tree.find? (location.take count) = some .directory)
    (hfind : tree.find? location = some .directory) : tree.IsDirectory location := by
  intro count
  by_cases hcount : count < location.length
  · exact habove count hcount
  · rwa [List.take_of_length_le (by omega)]

/-! ## Looking up paths -/

theorem lookup_eq_ok {tree : Tree} {path : Path} {location : Location} {entry : Entry}
    (hpath : Location.ofPath path = some location) :
    tree.lookup path = .ok entry ↔
      (∀ count < location.length, tree.find? (location.take count) = some .directory) ∧
        tree.find? location = some entry ∧
        (Path.endsWithSlash path = true → entry = .directory) := by
  rw [← checkDirectories_above]
  unfold lookup
  simp only [hpath]
  cases tree.checkDirectories (above location) with
  | error fault => simp [bind, Except.bind]
  | ok done =>
    cases tree.find? location with
    | none => simp [bind, Except.bind, throw, throwThe, MonadExceptOf.throw]
    | some found =>
      simp only [bind, Except.bind, pure, Except.pure, Option.some.injEq, true_and]
      cases found with
      | directory =>
        constructor
        · intro hentry
          cases hentry
          exact ⟨rfl, fun _ ↦ rfl⟩
        · rintro ⟨rfl, -⟩
          rfl
      | file contents modified =>
        by_cases hslash : Path.endsWithSlash path = true
        · simp only [hslash, if_true]
          constructor
          · intro hentry
            cases hentry
          · rintro ⟨rfl, hdirectory⟩
            cases hdirectory trivial
        · simp only [hslash]
          constructor
          · intro hentry
            cases hentry
            exact ⟨rfl, fun h ↦ nomatch h⟩
          · rintro ⟨rfl, -⟩
            rfl

theorem fileLocation_eq_ok {tree : Tree} {path : Path} {location found : Location}
    (hpath : Location.ofPath path = some location) :
    tree.fileLocation path = .ok found ↔
      (∀ count < location.length, tree.find? (location.take count) = some .directory) ∧
        tree.find? location ≠ some .directory ∧ found = location := by
  rw [← checkDirectories_above]
  unfold fileLocation
  simp only [hpath]
  cases tree.checkDirectories (above location) with
  | error fault => simp [bind, Except.bind]
  | ok done =>
    by_cases hfind : tree.find? location = some .directory
    · simp [hfind, bind, Except.bind, throw, throwThe, MonadExceptOf.throw]
    · simp [hfind, bind, Except.bind, pure, Except.pure, eq_comm]

/-! ## What operations change -/

/-- The files are the given ones afterwards, and no directory is gone. -/
structure Becomes (before after : Tree) (files : Files) : Prop where
  files_eq : after.files = files
  directories : ∀ location, before.IsDirectory location → after.IsDirectory location

theorem Becomes.trans {first second third : Tree} {files later : Files}
    (hfirst : first.Becomes second files) (hsecond : second.Becomes third later) :
    first.Becomes third later :=
  ⟨hsecond.files_eq, fun location h ↦ hsecond.directories location (hfirst.directories location h)⟩

theorem becomes_self (tree : Tree) : tree.Becomes tree tree.files := ⟨rfl, fun _ h ↦ h⟩

theorem Becomes.tick {before after : Tree} {files : Files} (hbecomes : before.Becomes after files) :
    before.Becomes after.tick files := ⟨hbecomes.files_eq, hbecomes.directories⟩

/-- Only files at the places differ, and no directory is gone. -/
structure Alters (before after : Tree) (places : Location → Prop) : Prop where
  files_eq : ∀ location, ¬ places location → after.files location = before.files location
  directories : ∀ location, before.IsDirectory location → after.IsDirectory location

theorem alters_self (tree : Tree) (places : Location → Prop) : tree.Alters tree places :=
  ⟨fun _ _ ↦ rfl, fun _ h ↦ h⟩

theorem Alters.trans {first second third : Tree} {places : Location → Prop}
    (hfirst : first.Alters second places) (hsecond : second.Alters third places) :
    first.Alters third places :=
  ⟨fun location h ↦ (hsecond.files_eq location h).trans (hfirst.files_eq location h),
    fun location h ↦ hsecond.directories location (hfirst.directories location h)⟩

theorem Alters.mono {before after : Tree} {few many : Location → Prop}
    (halters : before.Alters after few) (hmany : ∀ location, few location → many location) :
    before.Alters after many :=
  ⟨fun location h ↦ halters.files_eq location (h ∘ hmany location), halters.directories⟩

theorem Becomes.alters {before after : Tree} {location : Location} {contents : Option Bytes}
    (hbecomes : before.Becomes after (before.files.put location contents)) :
    before.Alters after (· = location) :=
  ⟨fun _ hne ↦ hbecomes.files_eq ▸ Files.put_other _ _ hne, hbecomes.directories⟩

/-- Where no directory is gone, what leads to a location is still there. -/
theorem above_of_directories {before after : Tree}
    (hdirectories : ∀ location, before.IsDirectory location → after.IsDirectory location)
    {location : Location}
    (habove : ∀ count < location.length, before.find? (location.take count) = some .directory)
    (count : Nat) (hcount : count < location.length) :
    after.find? (location.take count) = some .directory := by
  apply (hdirectories (location.take count) fun lower ↦ ?_).find?
  rw [List.take_take]
  exact habove _ (Nat.lt_of_le_of_lt (Nat.min_le_right _ _) hcount)

theorem Alters.above {before after : Tree} {places : Location → Prop}
    (halters : before.Alters after places) {location : Location}
    (habove : ∀ count < location.length, before.find? (location.take count) = some .directory)
    (count : Nat) (hcount : count < location.length) :
    after.find? (location.take count) = some .directory :=
  above_of_directories halters.directories habove count hcount

theorem becomes_set_file {tree : Tree} {location : Location}
    (hlocation : tree.find? location ≠ some .directory) (contents : Bytes) (modified : Moment) :
    tree.Becomes (tree.set location (.file contents modified))
      (tree.files.put location (some contents)) := by
  have hne := ne_nil_of_find? hlocation
  constructor
  · funext l
    unfold files Files.put
    rw [find?_set tree _ hne]
    by_cases hl : l = location
    · simp [hl]
    · simp [hl]
  · intro directory hdirectory count
    rw [find?_set tree _ hne, if_neg, hdirectory count]
    rintro rfl
    exact hlocation (hdirectory count)

theorem becomes_erase {tree : Tree} {location : Location}
    (hlocation : tree.find? location ≠ some .directory) :
    tree.Becomes (tree.erase location) (tree.files.put location none) := by
  have hne := ne_nil_of_find? hlocation
  constructor
  · funext l
    unfold files Files.put
    rw [find?_erase tree hne]
    by_cases hl : l = location
    · simp [hl]
    · simp [hl]
  · intro directory hdirectory count
    rw [find?_erase tree hne, if_neg, hdirectory count]
    rintro rfl
    exact hlocation (hdirectory count)

theorem find?_foldl_set {locations : List Location} (hne : ∀ l ∈ locations, l ≠ []) (tree : Tree)
    (l : Location) :
    (locations.foldl (fun tree l ↦ tree.set l .directory) tree).find? l =
      if l ∈ locations then some .directory else tree.find? l := by
  induction locations generalizing tree with
  | nil => simp
  | cons first rest ih =>
    rw [List.foldl_cons, ih fun l hl ↦ hne l (List.mem_cons_of_mem first hl),
      find?_set _ _ (hne first List.mem_cons_self)]
    by_cases hrest : l ∈ rest
    · simp [hrest]
    · by_cases hfirst : l = first
      · simp [hfirst]
      · simp [hrest, hfirst]

/-- Directories are made where no file stands in the way. -/
theorem makeDirectories_eq_ok {tree changed : Tree} {path : Path} {location : Location}
    (hpath : Location.ofPath path = some location)
    (hmake : tree.makeDirectories path = .ok changed) :
    (∀ l ∈ above location ++ [location], tree.files l = none) ∧
      changed = ((above location ++ [location]).filter fun l ↦ (tree.find? l).isNone).foldl
        (fun tree l ↦ tree.set l .directory) tree := by
  have hne : path.isEmpty = false := by
    rw [← Bool.not_eq_true]
    intro hempty
    simp [Location.ofPath, hempty] at hpath
  simp only [makeDirectories, hne, hpath, Bool.false_eq_true, if_false] at hmake
  split at hmake
  · cases hmake
  · next habove =>
    split at hmake
    · cases hmake
    · next hlast =>
      refine ⟨?_, (Except.ok.inj hmake).symm⟩
      intro l hl
      rcases List.mem_append.mp hl with hl | hl
      · refine files_of_not_file fun contents modified hfile ↦ ?_
        simpa [hfile] using List.find?_eq_none.mp habove l hl
      · exact List.mem_singleton.mp hl ▸ files_of_not_file hlast

theorem take_mem_above (location : Location) (count : Nat) :
    location.take count ∈ above location ++ [location] := by
  unfold above
  by_cases hcount : count < location.length
  · exact List.mem_append_left _ (List.mem_map_of_mem (List.mem_range.mpr hcount))
  · rw [List.take_of_length_le (by omega)]
    exact List.mem_append_right _ (List.mem_singleton.mpr rfl)

/-- Making directories leaves every file, and the directory is there. -/
theorem makeDirectories_becomes {tree changed : Tree} {path : Path} {location : Location}
    (hpath : Location.ofPath path = some location)
    (hmake : tree.makeDirectories path = .ok changed) :
    tree.Becomes changed tree.files ∧ changed.IsDirectory location := by
  obtain ⟨hfree, rfl⟩ := makeDirectories_eq_ok hpath hmake
  have hne : ∀ l ∈ (above location ++ [location]).filter fun l ↦ (tree.find? l).isNone,
      l ≠ [] := by
    rintro l hl rfl
    simp at hl
  have hfind := find?_foldl_set hne tree
  refine ⟨⟨?_, ?_⟩, ?_⟩
  · funext l
    by_cases hmissing : l ∈ (above location ++ [location]).filter fun l ↦ (tree.find? l).isNone
    · have hnone : tree.find? l = none := by simpa using (List.mem_filter.mp hmissing).2
      rw [files_of_none hnone, files_of_directory (by rw [hfind, if_pos hmissing])]
    · unfold files
      rw [hfind, if_neg hmissing]
  · intro directory hdirectory count
    rw [hfind, hdirectory count]
    exact ite_self _
  · intro count
    have hmem := take_mem_above location count
    rw [hfind]
    rcases files_eq_none.mp (hfree _ hmem) with hnone | hthere
    · rw [if_pos (List.mem_filter.mpr ⟨hmem, by simp [hnone]⟩)]
    · rw [hthere]
      exact ite_self _

/-- No files change for directories, whatever path they are made for. -/
theorem becomes_of_makeDirectories {tree changed : Tree} {path : Path}
    (hmake : tree.makeDirectories path = .ok changed) : tree.Becomes changed tree.files := by
  by_cases hpath : path = ""
  · subst hpath
    obtain rfl := Except.ok.inj hmake
    exact becomes_self tree
  · exact (makeDirectories_becomes (Location.ofPath_of_ne_empty hpath) hmake).1

/-! ## What each operation does when it succeeds -/

theorem write_eq_ok {tree changed : Tree} {path : Path} {contents : Bytes} :
    tree.write path contents = .ok changed ↔ ∃ location, tree.fileLocation path = .ok location ∧
      changed = (tree.set location (.file contents tree.clock)).tick := by
  unfold write
  rw [Result.bind_ok]
  simp only [Result.pure_ok, eq_comm (a := changed)]

theorem append_eq_ok {tree changed : Tree} {path : Path} {bytes : Bytes} :
    tree.append path bytes = .ok changed ↔ ∃ contents modified,
      tree.lookup path = .ok (.file contents modified) ∧
        tree.write path (contents ++ bytes) = .ok changed := by
  unfold append
  rw [Result.bind_ok]
  constructor
  · rintro ⟨entry, hlookup, hwrite⟩
    cases entry with
    | directory => cases hwrite
    | file contents modified => exact ⟨contents, modified, hlookup, hwrite⟩
  · rintro ⟨contents, modified, hlookup, hwrite⟩
    exact ⟨_, hlookup, hwrite⟩

theorem remove_eq_ok {tree changed : Tree} {path : Path} :
    tree.remove path = .ok changed ↔ ∃ contents modified location,
      tree.lookup path = .ok (.file contents modified) ∧ tree.fileLocation path = .ok location ∧
        changed = (tree.erase location).tick := by
  unfold remove
  rw [Result.bind_ok]
  constructor
  · rintro ⟨entry, hlookup, hrest⟩
    cases entry with
    | directory => cases hrest
    | file contents modified =>
      obtain ⟨location, hlocation, herase⟩ := Result.bind_ok.mp hrest
      exact ⟨contents, modified, location, hlookup, hlocation, (Result.pure_ok.mp herase).symm⟩
  · rintro ⟨contents, modified, location, hlookup, hlocation, rfl⟩
    exact ⟨_, hlookup, Result.bind_ok.mpr ⟨location, hlocation, rfl⟩⟩

theorem rename_eq_ok {tree changed : Tree} {source target : Path} :
    tree.rename source target = .ok changed ↔ ∃ contents modified place origin,
      tree.lookup source = .ok (.file contents modified) ∧ Path.endsWithSlash target = false ∧
        tree.fileLocation target = .ok place ∧ tree.fileLocation source = .ok origin ∧
          changed = ((tree.erase origin).set place (.file contents modified)).tick := by
  unfold rename
  rw [Result.bind_ok]
  constructor
  · rintro ⟨entry, hlookup, hmove⟩
    cases entry with
    | directory => cases hmove
    | file contents modified =>
      obtain ⟨hslash, hmove⟩ := Result.guard_ok.mp hmove
      obtain ⟨place, hplace, hmove⟩ := Result.bind_ok.mp hmove
      obtain ⟨origin, horigin, hmoved⟩ := Result.bind_ok.mp hmove
      exact ⟨contents, modified, place, origin, hlookup, Bool.not_eq_true _ ▸ hslash, hplace,
        horigin, (Result.pure_ok.mp hmoved).symm⟩
  · rintro ⟨contents, modified, place, origin, hlookup, hslash, hplace, horigin, rfl⟩
    refine ⟨_, hlookup, Result.guard_ok.mpr ⟨by simp [hslash], ?_⟩⟩
    exact Result.bind_ok.mpr ⟨place, hplace, Result.bind_ok.mpr ⟨origin, horigin, rfl⟩⟩

theorem stage_eq_ok {tree changed : Tree} {directory path : Path} :
    tree.stage directory = .ok (path, changed) ↔
      tree.lookup (if directory.isEmpty then "." else directory) = .ok .directory ∧
        path = Path.join directory tree.freshName ∧ tree.write path [] = .ok changed := by
  unfold stage
  rw [Result.bind_ok]
  constructor
  · rintro ⟨entry, hlookup, hrest⟩
    cases entry with
    | file contents modified => cases hrest
    | directory =>
      obtain ⟨written, hwrite, hpair⟩ := Result.bind_ok.mp hrest
      obtain ⟨rfl, rfl⟩ := Prod.mk.inj (Result.pure_ok.mp hpair)
      exact ⟨hlookup, rfl, hwrite⟩
  · rintro ⟨hlookup, rfl, hwrite⟩
    exact ⟨_, hlookup, Result.bind_ok.mpr ⟨changed, hwrite, rfl⟩⟩

/-- Writing puts the contents where the path leads. -/
theorem write_becomes {tree changed : Tree} {path : Path} {location : Location}
    {contents : Bytes} (hpath : Location.ofPath path = some location)
    (hwrite : tree.write path contents = .ok changed) :
    tree.Becomes changed (tree.files.put location (some contents)) := by
  obtain ⟨found, hlocation, rfl⟩ := write_eq_ok.mp hwrite
  obtain ⟨-, hfind, rfl⟩ := (fileLocation_eq_ok hpath).mp hlocation
  exact (becomes_set_file hfind contents tree.clock).tick

theorem append_becomes {tree changed : Tree} {path : Path} {location : Location}
    {bytes : Bytes} (hpath : Location.ofPath path = some location)
    (happend : tree.append path bytes = .ok changed) :
    ∃ contents, tree.files location = some contents ∧
      tree.Becomes changed (tree.files.put location (some (contents ++ bytes))) := by
  obtain ⟨contents, modified, hlookup, hwrite⟩ := append_eq_ok.mp happend
  obtain ⟨-, hfind, -⟩ := (lookup_eq_ok hpath).mp hlookup
  exact ⟨contents, files_eq_some.mpr ⟨modified, hfind⟩, write_becomes hpath hwrite⟩

theorem remove_becomes {tree changed : Tree} {path : Path} {location : Location}
    (hpath : Location.ofPath path = some location)
    (hremove : tree.remove path = .ok changed) :
    tree.Becomes changed (tree.files.put location none) := by
  obtain ⟨_, _, found, -, hlocation, rfl⟩ := remove_eq_ok.mp hremove
  obtain ⟨-, hfind, rfl⟩ := (fileLocation_eq_ok hpath).mp hlocation
  exact (becomes_erase hfind).tick

/-- Renaming moves the contents; what the target held is gone. -/
theorem rename_becomes {tree changed : Tree} {source target : Path} {origin place : Location}
    (hsource : Location.ofPath source = some origin)
    (htarget : Location.ofPath target = some place)
    (hrename : tree.rename source target = .ok changed) :
    ∃ contents, tree.files origin = some contents ∧
      tree.Becomes changed ((tree.files.put origin none).put place (some contents)) := by
  obtain ⟨contents, modified, found, from_, hlookup, -, hplace, horigin, rfl⟩ :=
    rename_eq_ok.mp hrename
  obtain ⟨-, hfile, -⟩ := (lookup_eq_ok hsource).mp hlookup
  obtain ⟨-, hfree, rfl⟩ := (fileLocation_eq_ok htarget).mp hplace
  obtain ⟨-, hfind, rfl⟩ := (fileLocation_eq_ok hsource).mp horigin
  refine ⟨contents, files_eq_some.mpr ⟨modified, hfile⟩, ?_⟩
  have herase := becomes_erase hfind
  have hnone : (tree.erase from_).find? found ≠ some .directory := by
    rw [find?_erase tree (ne_nil_of_find? hfind)]
    split
    · exact nofun
    · exact hfree
  have hset := becomes_set_file hnone contents modified
  rw [herase.files_eq] at hset
  exact (herase.trans hset).tick

/-- A file is moved only to where a file can be read. -/
theorem rename_leads {tree changed : Tree} {source target : Path}
    (hrename : tree.rename source target = .ok changed) :
    Path.endsWithSlash target = false ∧ ∃ place, Location.ofPath target = some place ∧
      ∀ count < place.length, tree.find? (place.take count) = some .directory := by
  obtain ⟨_, _, found, _, -, hslash, hplace, -⟩ := rename_eq_ok.mp hrename
  cases htarget : Location.ofPath target with
  | none => simp [fileLocation, htarget] at hplace
  | some place =>
    obtain ⟨habove, -⟩ := (fileLocation_eq_ok htarget).mp hplace
    exact ⟨hslash, place, rfl, habove⟩

/-! ## Names that no file has yet -/

theorem le_foldl_max (names : Location) (longest : Nat) :
    longest ≤ names.foldl (fun longest n ↦ max longest n.length) longest ∧
      ∀ n ∈ names, n.length ≤ names.foldl (fun longest n ↦ max longest n.length) longest := by
  induction names generalizing longest with
  | nil => simp
  | cons name rest ih =>
    obtain ⟨hkeep, hrest⟩ := ih (max longest name.length)
    rw [List.foldl_cons, List.forall_mem_cons]
    exact ⟨by omega, by omega, hrest⟩

theorem le_foldl_longest (entries : List (Location × Entry)) (longest : Nat) :
    longest ≤ entries.foldl
        (fun longest (l, _) ↦ l.foldl (fun longest n ↦ max longest n.length) longest) longest ∧
      ∀ pair ∈ entries, ∀ n ∈ pair.1, n.length ≤ entries.foldl
        (fun longest (l, _) ↦ l.foldl (fun longest n ↦ max longest n.length) longest) longest := by
  induction entries generalizing longest with
  | nil => simp
  | cons pair rest ih =>
    obtain ⟨hlongest, hnames⟩ := le_foldl_max pair.1 longest
    obtain ⟨hkeep, hrest⟩ := ih (pair.1.foldl (fun longest n ↦ max longest n.length) longest)
    rw [List.foldl_cons, List.forall_mem_cons]
    exact ⟨Nat.le_trans hlongest hkeep, fun n hn ↦ Nat.le_trans (hnames n hn) hkeep, hrest⟩

theorem length_freshName (tree : Tree) : tree.freshName.length = tree.longestName + 8 := by
  unfold freshName
  rw [String.length_append, String.length_ofList (l := List.replicate _ _), List.length_replicate]
  exact Nat.add_comm 8 _

theorem isName_freshName (tree : Tree) : Path.IsName tree.freshName := by
  have hlength := tree.length_freshName
  have hne : ∀ name : String, name.length < 8 → tree.freshName ≠ name := by
    rintro name hname rfl
    omega
  exact ⟨hne _ (by decide), hne _ (by decide), hne _ (by decide), by simp [freshName]⟩

/-- No location with the fresh name in it has an entry. -/
theorem find?_freshName (tree : Tree) (directory : Location) :
    tree.find? (directory ++ [tree.freshName]) = none := by
  unfold find?
  rw [if_neg (by simp), Option.map_eq_none_iff, List.find?_eq_none]
  intro pair hpair
  rw [decide_eq_true_iff]
  intro hlocation
  have hle : tree.freshName.length ≤ tree.longestName :=
    (le_foldl_longest tree.entries 0).2 pair hpair tree.freshName (by simp [hlocation])
  rw [length_freshName] at hle
  omega

/-- Staging adds an empty file of a name that no file has yet. -/
theorem stage_becomes {tree changed : Tree} {directory path : Path}
    (hstage : tree.stage directory = .ok (path, changed)) :
    path = Path.join directory tree.freshName ∧
      tree.IsDirectory (Location.ofDirectory directory) ∧
      tree.Becomes changed
        (tree.files.put (Location.ofDirectory directory ++ [tree.freshName]) (some [])) := by
  obtain ⟨hlookup, rfl, hwrite⟩ := stage_eq_ok.mp hstage
  obtain ⟨habove, hfind, -⟩ := (lookup_eq_ok (Location.ofPath_staging directory)).mp hlookup
  exact ⟨rfl, isDirectory_of_above habove hfind,
    write_becomes (Location.ofPath_join directory tree.isName_freshName) hwrite⟩

end Tree
end VectorIndex
