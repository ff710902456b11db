import VectorIndex.Proofs.Store.Faults

/-!
# All or nothing

Until a publication renames its file over the target, all that is new is that file, of a name that
nothing had, and the directories that lead to it. When it fails it removes the file. So whatever
fails, and wherever it is cut off, a reader of the target finds what was there or all that is
published, and a publication that ends has left nothing else behind.
-/

namespace VectorIndex

/-! ## Entries that change -/

namespace Tree

/-- The location holds the entry, or none, and every other one holds what it held. -/
def Sets (before after : Tree) (location : Location) (held? : Option Entry) : Prop :=
  ∀ l, after.find? l = if l = location then held? else before.find? l

theorem write_sets {tree changed : Tree} {path : Path} {location : Location} {contents : Bytes}
    (hpath : Location.ofPath path = some location)
    (hwrite : tree.write path contents = .ok changed) :
    tree.Sets changed location (some (.file contents tree.clock)) := by
  obtain ⟨found, hlocation, rfl⟩ := write_eq_ok.mp hwrite
  obtain ⟨-, hfind, rfl⟩ := (fileLocation_eq_ok hpath).mp hlocation
  exact find?_set tree _ (ne_nil_of_find? hfind)

theorem append_sets {tree changed : Tree} {path : Path} {location : Location} {bytes : Bytes}
    (hpath : Location.ofPath path = some location)
    (happend : tree.append path bytes = .ok changed) :
    ∃ held, tree.files location = some held ∧
      tree.Sets changed location (some (.file (held ++ bytes) tree.clock)) := by
  obtain ⟨held, modified, hlookup, hwrite⟩ := append_eq_ok.mp happend
  obtain ⟨-, hfind, -⟩ := (lookup_eq_ok hpath).mp hlookup
  exact ⟨held, files_eq_some.mpr ⟨modified, hfind⟩, write_sets hpath hwrite⟩

theorem stage_sets {tree changed : Tree} {directory path : Path}
    (hstage : tree.stage directory = .ok (path, changed)) :
    tree.Sets changed (Location.ofDirectory directory ++ [tree.freshName])
      (some (.file [] tree.clock)) := by
  obtain ⟨-, rfl, hwrite⟩ := stage_eq_ok.mp hstage
  exact write_sets (Location.ofPath_join directory tree.isName_freshName) hwrite

/-- Renaming takes the file from where it was and sets it where the target leads. -/
theorem rename_sets {tree changed : Tree} {source target : Path} {origin place : Location}
    (hsource : Location.ofPath source = some origin)
    (htarget : Location.ofPath target = some place)
    (hrename : tree.rename source target = .ok changed) :
    ∃ contents modified between, tree.Sets between origin none ∧
      between.Sets changed place (some (.file contents modified)) := by
  obtain ⟨contents, modified, found, from_, -, -, hplace, horigin, rfl⟩ :=
    rename_eq_ok.mp hrename
  obtain ⟨-, hfree, rfl⟩ := (fileLocation_eq_ok htarget).mp hplace
  obtain ⟨-, hfind, rfl⟩ := (fileLocation_eq_ok hsource).mp horigin
  exact ⟨contents, modified, tree.erase from_, find?_erase tree (ne_nil_of_find? hfind),
    find?_set _ _ (ne_nil_of_find? hfree)⟩

/-- A file in a directory that is there can be removed, and then it is gone. -/
theorem remove_sets {tree : Tree} {path : Path} {directory : Location} {name : String}
    (hpath : Location.ofPath path = some (directory ++ [name]))
    (hslash : Path.endsWithSlash path = false) (hdirectory : tree.IsDirectory directory)
    {contents : Bytes} (hcontents : tree.files (directory ++ [name]) = some contents) :
    tree.Sets (tree.answer (.remove path)).2 (directory ++ [name]) none := by
  obtain ⟨modified, hfind⟩ := files_eq_some.mp hcontents
  have hlookup := (lookup_eq_ok_of_isDirectory hdirectory hpath hslash).mpr hfind
  have hlocation := fileLocation_of_isDirectory hdirectory hpath
  rw [if_neg (by simp [hfind])] at hlocation
  have hremove : tree.remove path = .ok (tree.erase (directory ++ [name])).tick :=
    remove_eq_ok.mpr ⟨_, _, _, hlookup, hlocation, rfl⟩
  show tree.Sets (tree.change (tree.remove path)).2 _ none
  rw [hremove]
  exact find?_erase tree (by simp)

/-! ## What is left as it was -/

/-- Outside the places every entry is the one from before, or a new directory that leads to the
location. -/
def Retains (before after : Tree) (directory : Location) (places : Location → Prop) : Prop :=
  ∀ location, ¬ places location → after.find? location = before.find? location ∨
    location <+: directory ∧ before.find? location = none ∧
      after.find? location = some .directory

/-- Nothing is changed, and all that is new are directories that lead to the given one. -/
def Untouched (before after : Tree) (directory : Path) : Prop :=
  before.Retains after (Location.ofDirectory directory) fun _ ↦ False

theorem retains_self (tree : Tree) (directory : Location) (places : Location → Prop) :
    tree.Retains tree directory places := fun _ _ ↦ .inl rfl

section

variable {start tree changed : Tree} {directory : Location} {places : Location → Prop}
  (hretains : start.Retains tree directory places)
include hretains

theorem Retains.mono {more : Location → Prop}
    (hmore : ∀ location, places location → more location) : start.Retains tree directory more :=
  fun location hlocation ↦ hretains location (hlocation ∘ hmore location)

/-- What changes at one of the places is not held against it. -/
theorem Retains.sets {location : Location} {held? : Option Entry}
    (hsets : tree.Sets changed location held?) (hlocation : places location) :
    start.Retains changed directory places := by
  intro l hl
  have hne : l ≠ location := fun heq ↦ hl (heq ▸ hlocation)
  rw [hsets l, if_neg hne]
  exact hretains l hl

/-- Nothing that was there before is at the places that were unused. -/
theorem Retains.find?_eq (hunused : ∀ location, places location → start.find? location = none)
    {location : Location} {entry : Entry} (hentry : start.find? location = some entry) :
    tree.find? location = some entry := by
  have hplace : ¬ places location := by
    intro hplace
    rw [hunused location hplace] at hentry
    cases hentry
  rcases hretains location hplace with hsame | ⟨-, hnone, -⟩
  · rw [hsame, hentry]
  · rw [hnone] at hentry
    cases hentry

/-- A reader finds the contents from before wherever nothing was put. -/
theorem Retains.read_eq_ok (hunused : ∀ location, places location → start.find? location = none)
    (hnested : start.Nested) {target : Path}
    (htarget : ∀ place, Location.ofPath target = some place → ¬ places place) {contents : Bytes} :
    tree.read target = .ok contents ↔ start.read target = .ok contents := by
  cases hpath : Location.ofPath target with
  | none => simp [read_ok, lookup, hpath, throw, throwThe, MonadExceptOf.throw]
  | some place =>
    simp only [read_ok, lookup_eq_ok hpath]
    apply exists_congr
    intro modified
    constructor
    · rintro ⟨-, hfind, hslash⟩
      have hstart : start.find? place = some (.file contents modified) := by
        rcases hretains place (htarget place hpath) with hsame | ⟨-, -, hdirectory⟩
        · rw [← hsame, hfind]
        · rw [hfind] at hdirectory
          cases hdirectory
      obtain ⟨parent, name, rfl⟩ : ∃ parent name, place = parent ++ [name] := by
        rcases place.eq_nil_or_concat with rfl | ⟨parent, name, hconcat⟩
        · cases hstart
        · exact ⟨parent, name, hconcat.trans (by rw [List.concat_eq_append])⟩
      have hparent := hnested parent name (by rw [hstart]; exact Option.some_ne_none _)
      exact ⟨(above_name parent name).mpr hparent, hstart, hslash⟩
    · rintro ⟨habove, hfind, hslash⟩
      exact ⟨fun count hcount ↦ hretains.find?_eq hunused (habove count hcount),
        hretains.find?_eq hunused hfind, hslash⟩

end

theorem untouched_makeDirectories (tree : Tree) (path : Path) :
    tree.Untouched (tree.answer (.makeDirectories path)).2 path := by
  show tree.Retains (tree.change (tree.makeDirectories path)).2 _ _
  cases hmake : tree.makeDirectories path with
  | error fault => exact tree.retains_self _ _
  | ok changed =>
    by_cases hpath : path = ""
    · subst hpath
      obtain rfl := Except.ok.inj hmake
      exact tree.retains_self _ _
    · obtain ⟨-, rfl⟩ := makeDirectories_eq_ok (Location.ofPath_of_ne_empty hpath) hmake
      intro l _
      show Tree.find? (List.foldl _ _ _) l = _ ∨ _ ∧ _ ∧ Tree.find? (List.foldl _ _ _) l = _
      rw [find?_foldl_set (fun l hl hnil ↦ by simp [hnil] at hl)]
      split
      · next hmissing =>
        obtain ⟨hmem, hnone⟩ := List.mem_filter.mp hmissing
        refine .inr ⟨?_, Option.isNone_iff_eq_none.mp hnone, rfl⟩
        rcases List.mem_append.mp hmem with hmem | hmem
        · obtain ⟨count, -, rfl⟩ := List.mem_map.mp hmem
          exact List.take_prefix count _
        · exact List.mem_singleton.mp hmem ▸ List.prefix_rfl
      · exact .inl rfl

/-- Where a file that is staged in the directory is. -/
def stagedPlace (tree : Tree) (directory : Path) : Location :=
  Location.ofDirectory directory ++ [(tree.answer (.makeDirectories directory)).2.freshName]

theorem find?_stagedPlace (tree : Tree) (directory : Path) :
    tree.find? (tree.stagedPlace directory) = none := by
  rcases tree.untouched_makeDirectories directory (tree.stagedPlace directory) id with
    hsame | ⟨-, hnone, -⟩
  · exact hsame.symm.trans (find?_freshName _ _)
  · exact hnone

/-- All that is new is one staged file, if anything, and directories. -/
def Unpublished (before after : Tree) (directory : Path) : Prop :=
  before.Retains after (Location.ofDirectory directory) (· = before.stagedPlace directory)

/-- The contents are at the target, and nothing else is new but directories. -/
structure Publishes (before after : Tree) (directory target : Path) (contents : Bytes) :
    Prop where
  read_eq : after.read target = .ok contents
  retains : before.Retains after (Location.ofDirectory directory)
    fun location ↦ Location.ofPath target = some location

section

variable {start tree changed : Tree} {directory : Path}

theorem Untouched.unpublished (huntouched : start.Untouched tree directory) :
    start.Unpublished tree directory :=
  huntouched.mono nofun

/-- Once the staged file is gone, nothing is left but directories. -/
theorem Unpublished.clear (hunpublished : start.Unpublished tree directory)
    (hsets : tree.Sets changed (start.stagedPlace directory) none) :
    start.Untouched changed directory := by
  intro l _
  rw [hsets l]
  split
  · next heq => exact .inl (by rw [heq, find?_stagedPlace])
  · next hne => exact hunpublished l hne

/-- A reader of a target that is not the staged file finds what was there. -/
theorem Unpublished.toOption_read (hunpublished : start.Unpublished tree directory)
    (hnested : start.Nested) {target : Path}
    (htarget : Location.ofPath target ≠ some (start.stagedPlace directory)) :
    (tree.read target).toOption = (start.read target).toOption := by
  refine Option.ext fun held ↦ ?_
  rw [Result.toOption_eq_some, Result.toOption_eq_some]
  apply Retains.read_eq_ok hunpublished _ hnested
  · intro place hplace hlocation
    exact htarget (hplace.trans (congrArg some hlocation))
  · intro location hlocation
    rw [hlocation, find?_stagedPlace]

end

end Tree

/-! ## Staged files -/

namespace StagedFile

open IndexProgram (Withstands withstands_bind withstands_imp withstands_onFailure withstands_pure
  withstands_perform_check withstands_perform_check_bind)

/-- Appends the pieces. A writer that gives up after them leaves no staged file. -/
def fill (staged : StagedFile) (path : Path) (pieces : List Bytes) (failure : Option StoreFault) :
    IndexProgram Unit :=
  IndexProgram.onFailure (do
    pieces.forM (staged.append path)
    match failure with
    | some fault => throw (.fileWrite path fault)
    | none => pure ()) staged.discard

def drop (staged : StagedFile) : IndexProgram Unit := ExceptT.lift staged.discard

/-- Stages a file, fills it and finishes with it. -/
def stageFilled (stage : IndexProgram StagedFile) (path : Path) (pieces : List Bytes)
    (failure : Option StoreFault) (finish : StagedFile → IndexProgram Unit) :
    IndexProgram Unit := do
  let staged ← stage
  staged.fill path pieces failure
  finish staged

/-- The staged file holds the contents, and it is all that is new. -/
structure Holds (staged : StagedFile) (start : Tree) (directory : Path) (contents : Bytes)
    (tree : Tree) : Prop where
  ofPath_temporary : Location.ofPath staged.temporary = some (start.stagedPlace directory)
  no_slash : Path.endsWithSlash staged.temporary = false
  isDirectory : tree.IsDirectory (Location.ofDirectory directory)
  unpublished : start.Unpublished tree directory
  files_eq : tree.files (start.stagedPlace directory) = some contents

/-- What staging a file comes to. -/
def Staging (start : Tree) (directory : Path) (named : StagedFile → Prop)
    (result : Except IndexError StagedFile) (last : Bool) (final : Tree) : Prop :=
  last = false ∧ match result with
    | .ok staged => named staged ∧ staged.Holds start directory [] final
    | .error _ => start.Untouched final directory

/-- A program that fails has left nothing, unless the removal of a file failed. -/
def Clears {α : Type} (watch : Watch) (start : Tree) (directory : Path)
    (succeeds : α → Tree → Prop) (result : Except IndexError α) (final : Tree) : Prop :=
  match result with
  | .ok value => succeeds value final
  | .error _ => (∀ path, watch.may (.remove path) = false) → start.Untouched final directory

section

variable {staged : StagedFile} {start tree changed : Tree} {directory : Path} {contents : Bytes}
  (hholds : staged.Holds start directory contents tree)
include hholds

/-- Appending adds the bytes, or fails and may have added some of them. -/
theorem Holds.append {may : Action → Bool} {bytes : Bytes}
    {answer : (Action.append staged.temporary bytes).Answer}
    (hattempt : tree.Attempts may (.append staged.temporary bytes) answer changed) :
    (∃ later, staged.Holds start directory later changed) ∧
      (answer = .ok () → staged.Holds start directory (contents ++ bytes) changed) := by
  have hadds : ∀ part, (∃ later, staged.Holds start directory later
      (tree.answer (.append staged.temporary part)).2) ∧
      ((tree.answer (.append staged.temporary part)).1 = .ok () →
        staged.Holds start directory (contents ++ part)
          (tree.answer (.append staged.temporary part)).2) := by
    intro part
    cases hanswer : (tree.answer (.append staged.temporary part)).1 with
    | error fault =>
      have hsame : (tree.answer (.append staged.temporary part)).2 = tree :=
        Tree.change_error hanswer
      rw [hsame]
      exact ⟨⟨contents, hholds⟩, nofun⟩
    | ok done =>
      obtain ⟨held, hheld, hsets⟩ :=
        Tree.append_sets hholds.ofPath_temporary (Tree.answer_change hanswer)
      obtain rfl : held = contents := Option.some.inj (hheld.symm.trans hholds.files_eq)
      have hlater : staged.Holds start directory (held ++ part)
          (tree.answer (.append staged.temporary part)).2 := by
        refine ⟨hholds.ofPath_temporary, hholds.no_slash, hholds.isDirectory.answer _,
          hholds.unpublished.sets hsets rfl, ?_⟩
        exact Tree.files_eq_some.mpr ⟨tree.clock, (hsets _).trans (if_pos rfl)⟩
      exact ⟨⟨_, hlater⟩, fun _ ↦ hlater⟩
  cases hattempt with
  | works => exact hadds bytes
  | fails _ hanswer =>
    obtain rfl := Option.some.inj hanswer
    exact ⟨⟨contents, hholds⟩, nofun⟩
  | breaks _ haction hanswer count =>
    cases haction
    obtain rfl := Option.some.inj hanswer
    exact ⟨(hadds (bytes.take count)).1, nofun⟩

/-- A staged file that is renamed is at the target. -/
theorem Holds.rename {target : Path}
    (hrename : tree.rename staged.temporary target = .ok changed) :
    start.Publishes changed directory target contents := by
  obtain ⟨-, place, htarget, -⟩ := Tree.rename_leads hrename
  obtain ⟨moved, modified, between, htaken, hset⟩ :=
    Tree.rename_sets hholds.ofPath_temporary htarget hrename
  refine ⟨Tree.read_of_rename hholds.ofPath_temporary hholds.files_eq hrename, ?_⟩
  exact ((hholds.unpublished.clear htaken).mono nofun).sets hset htarget

/-- A staged file that is removed is gone. -/
theorem Holds.remove :
    start.Untouched (tree.answer (.remove staged.temporary)).2 directory :=
  hholds.unpublished.clear (Tree.remove_sets hholds.ofPath_temporary hholds.no_slash
    hholds.isDirectory hholds.files_eq)

end

/-- A file that was just staged is empty, and it is all that is new. -/
theorem holds_of_stage {start made : Tree} {directory temporary : Path}
    (hmade : (start.answer (.makeDirectories directory)).2 = made)
    (hmakes : start.Untouched made directory)
    (hanswer : (made.answer (.stage directory)).1 = .ok temporary) :
    Holds ⟨directory, none, temporary⟩ start directory []
      (made.answer (.stage directory)).2 := by
  have hstage := Tree.answer_stage hanswer
  obtain ⟨rfl, hdirectory, -⟩ := Tree.stage_becomes hstage
  have hsets := Tree.stage_sets hstage
  have hplace : Location.ofDirectory directory ++ [made.freshName] =
      start.stagedPlace directory := by rw [Tree.stagedPlace, hmade]
  have hpath := Location.ofPath_join directory made.isName_freshName
  rw [hplace] at hsets hpath
  refine ⟨hpath, Path.endsWithSlash_join directory made.isName_freshName,
    hdirectory.answer _, hmakes.unpublished.sets hsets rfl, ?_⟩
  exact Tree.files_eq_some.mpr ⟨made.clock, (hsets _).trans (if_pos rfl)⟩

section

variable {watch : Watch} {start : Tree} {directory : Path}
  (hunpublished : ∀ tree, start.Unpublished tree directory → watch.safe false tree)
include hunpublished

/-- Staging adds one empty file, or only directories. -/
theorem createIn_holds :
    Withstands watch (Staging start directory (·.target = none)) (createIn directory) false
      start := by
  unfold createIn
  apply withstands_perform_check_bind
  intro answer made hmade
  simp only [Event.commits, Bool.or_false]
  cases hmade with
  | breaks _ haction => cases haction
  | fails _ hanswer =>
    obtain rfl := Option.some.inj hanswer
    have huntouched : start.Untouched start directory := start.retains_self _ _
    exact ⟨hunpublished start huntouched.unpublished, rfl, huntouched⟩
  | works =>
    have hmakes := start.untouched_makeDirectories directory
    have hsafe := hunpublished _ hmakes.unpublished
    refine ⟨hsafe, ?_⟩
    generalize hmade : (start.answer (.makeDirectories directory)).2 = made at *
    cases (start.answer (.makeDirectories directory)).1 with
    | error fault => exact ⟨rfl, hmakes⟩
    | ok done =>
      apply withstands_perform_check_bind
      intro answer changed hstage
      simp only [Event.commits, Bool.or_false]
      cases hstage with
      | breaks _ haction => cases haction
      | fails _ hanswer =>
        obtain rfl := Option.some.inj hanswer
        exact ⟨hsafe, rfl, hmakes⟩
      | works =>
        cases hanswer : (made.answer (.stage directory)).1 with
        | error fault =>
          rw [Tree.answer_stage_error hanswer]
          exact ⟨hsafe, rfl, hmakes⟩
        | ok temporary =>
          have hholds := holds_of_stage hmade hmakes hanswer
          exact ⟨hunpublished _ hholds.unpublished, withstands_pure ⟨rfl, rfl, hholds⟩⟩

variable {staged : StagedFile}

/-- Whatever becomes of writing the pieces, they are all there when it succeeds. -/
theorem appendAll_holds (path : Path) (pieces : List Bytes) {contents : Bytes} {tree : Tree}
    (hholds : staged.Holds start directory contents tree) :
    Withstands watch (fun result last final ↦ last = false ∧
      (∃ later, staged.Holds start directory later final) ∧
      (result = .ok () → staged.Holds start directory (contents ++ pieces.flatten) final))
      (pieces.forM (staged.append path)) false tree := by
  induction pieces generalizing contents tree with
  | nil => exact withstands_pure ⟨rfl, ⟨contents, hholds⟩, fun _ ↦ by simpa using hholds⟩
  | cons piece rest ih =>
    apply withstands_bind
    apply withstands_perform_check
    intro answer changed hattempt
    obtain ⟨⟨later, hlater⟩, hadded⟩ := hholds.append hattempt
    simp only [Event.commits, Bool.or_false]
    refine ⟨hunpublished _ hlater.unpublished, ?_⟩
    cases answer with
    | error fault => exact ⟨trivial, ⟨later, hlater⟩, fun hok ↦ by cases hok⟩
    | ok done =>
      rw [List.flatten_cons, ← List.append_assoc]
      exact ih (hadded rfl)

/-- A staged file that is discarded is gone when it can be removed. -/
theorem discard_holds {contents : Bytes} {tree : Tree}
    (hholds : staged.Holds start directory contents tree) :
    staged.discard.Withstands watch (fun _ last final ↦ last = false ∧
      ((∀ path, watch.may (.remove path) = false) → start.Untouched final directory))
      false tree := by
  intro answer changed hremove
  simp only [Event.commits, Bool.or_false]
  cases hremove with
  | works =>
    have hcleared := hholds.remove
    exact ⟨hunpublished _ hcleared.unpublished, rfl, fun _ ↦ hcleared⟩
  | fails hmay =>
    refine ⟨hunpublished _ hholds.unpublished, rfl, fun hnever ↦ ?_⟩
    rw [hnever] at hmay
    cases hmay
  | breaks _ haction => cases haction

/-- Committing moves the staged file to its target, or discards it. -/
theorem persist_holds {contents : Bytes} {tree : Tree}
    (hholds : staged.Holds start directory contents tree) {target : Path}
    (hpublished : ∀ changed, start.Publishes changed directory target contents →
      watch.safe (decide (target = watch.target)) changed) :
    Withstands watch (fun result _ final ↦
        Clears watch start directory (fun _ final ↦
          start.Publishes final directory target contents) result final)
      (staged.persist target) false tree := by
  have hdiscard := (discard_holds hunpublished hholds).imp fun _ _ _ ↦ And.right
  have hsafe := hunpublished tree hholds.unpublished
  unfold persist
  apply withstands_onFailure
  apply withstands_perform_check_bind
  intro answer same hsynchronize
  simp only [Event.commits, Bool.or_false]
  obtain rfl : same = tree := by
    cases hsynchronize with
    | works => rfl
    | fails => rfl
    | breaks _ haction => cases haction
  refine ⟨hsafe, ?_⟩
  cases answer with
  | error fault => exact hdiscard
  | ok done =>
    apply withstands_perform_check
    intro answer changed hrename
    cases hrename with
    | works =>
      cases hanswer : (same.answer (.rename staged.temporary target)).1 with
      | error fault =>
        have hsame : (same.answer (.rename staged.temporary target)).2 = same :=
          Tree.change_error hanswer
        rw [hsame]
        simp only [Event.commits, Bool.or_false]
        exact ⟨hsafe, hdiscard⟩
      | ok done =>
        have hpublishes := hholds.rename (Tree.answer_change hanswer)
        exact ⟨hpublished _ hpublishes, hpublishes⟩
    | fails _ hanswer =>
      obtain rfl := Option.some.inj hanswer
      simp only [Event.commits, Bool.or_false]
      exact ⟨hsafe, hdiscard⟩
    | breaks _ haction => cases haction

/-- A staged file that is filled holds all the pieces, or it is discarded. -/
theorem fill_holds (path : Path) (pieces : List Bytes) (failure : Option StoreFault) {tree : Tree}
    (hholds : staged.Holds start directory [] tree) :
    Withstands watch (fun result last final ↦ last = false ∧
        Clears watch start directory (fun _ final ↦
          failure = none ∧ staged.Holds start directory pieces.flatten final) result final)
      (staged.fill path pieces failure) false tree := by
  unfold fill
  apply withstands_onFailure
  apply withstands_bind
  apply withstands_imp (appendAll_holds hunpublished path pieces hholds)
  rintro result last final ⟨rfl, ⟨later, hlater⟩, hresult⟩
  cases result with
  | error error => exact discard_holds hunpublished hlater
  | ok done =>
    cases failure with
    | some fault => exact discard_holds hunpublished hlater
    | none => exact withstands_pure ⟨rfl, rfl, hresult rfl⟩

/-- What a staged file comes to, from what finishing with it does. -/
theorem stageFilled_withstands {stage : IndexProgram StagedFile} {named : StagedFile → Prop}
    (hstage : Withstands watch (Staging start directory named) stage false start)
    {path : Path} {pieces : List Bytes} {failure : Option StoreFault}
    {finish : StagedFile → IndexProgram Unit} {succeeds : Unit → Tree → Prop}
    (hfinish : ∀ staged filled, named staged → failure = none →
      staged.Holds start directory pieces.flatten filled →
        Withstands watch (fun result _ final ↦ Clears watch start directory succeeds result final)
          (finish staged) false filled) :
    Withstands watch (fun result _ final ↦ Clears watch start directory succeeds result final)
      (stageFilled stage path pieces failure finish) false start := by
  unfold stageFilled
  apply withstands_bind
  apply withstands_imp hstage
  rintro result last created ⟨rfl, hresult⟩
  cases result with
  | error error => exact fun _ ↦ hresult
  | ok staged =>
    obtain ⟨hnamed, hholds⟩ := hresult
    apply withstands_bind
    apply withstands_imp (fill_holds hunpublished path pieces failure hholds)
    rintro result last filled ⟨rfl, hresult⟩
    cases result with
    | error error => exact hresult
    | ok done => exact hfinish staged filled hnamed hresult.1 hresult.2

/-- A staged file that is dropped leaves nothing. -/
theorem drop_withstands {stage : IndexProgram StagedFile} {named : StagedFile → Prop}
    (hstage : Withstands watch (Staging start directory named) stage false start)
    (path : Path) (pieces : List Bytes) (failure : Option StoreFault) :
    Withstands watch (fun result _ final ↦ Clears watch start directory (fun _ final ↦
        (∀ path, watch.may (.remove path) = false) → start.Untouched final directory) result final)
      (stageFilled stage path pieces failure drop) false start := by
  apply stageFilled_withstands hunpublished hstage
  intro staged filled _ _ hholds
  apply StoreProgram.Withstands.bind
  exact (discard_holds hunpublished hholds).imp fun _ _ _ ↦ And.right

/-- A staged file that is committed without a target is refused, and leaves nothing. -/
theorem commit_withstands_unnamed (path : Path) (pieces : List Bytes)
    (failure : Option StoreFault) :
    Withstands watch (fun result _ final ↦
        Clears watch start directory (fun _ _ ↦ False) result final)
      (stageFilled (createIn directory) path pieces failure commit) false start := by
  apply stageFilled_withstands hunpublished (createIn_holds hunpublished)
  intro staged filled hnamed _ hholds
  unfold commit
  rw [hnamed]
  apply withstands_bind
  apply StoreProgram.Withstands.bind
  exact (discard_holds hunpublished hholds).imp fun _ _ _ ↦ And.right

end

/-- Staging beside a target is staging in its directory. -/
theorem create_holds {watch : Watch} {start : Tree} {target : Path} (hunpublished : ∀ tree,
      start.Unpublished tree (directoryOf target) → watch.safe false tree) :
    Withstands watch (Staging start (directoryOf target) (·.target = some target)) (create target)
      false start := by
  unfold create
  apply withstands_bind
  apply withstands_imp (createIn_holds hunpublished)
  rintro result last final ⟨rfl, hresult⟩
  cases result with
  | error error => exact ⟨rfl, hresult⟩
  | ok made =>
    obtain ⟨-, hholds⟩ := hresult
    exact withstands_pure ⟨rfl, rfl, { hholds with }⟩

end StagedFile

/-! ## Publications -/

/-- Publishing is staging a file beside the target, filling it and committing it. -/
theorem publishPieces_eq (target : Path) (pieces : List Bytes) (failure : Option StoreFault) :
    publishPieces target pieces failure = StagedFile.stageFilled (StagedFile.create target) target
      pieces failure StagedFile.commit := rfl

open IndexProgram (Withstands withstands_imp)

/-- What is always true while the contents are published at the target. -/
def Watch.publication (may : Action → Bool) (start : Tree) (target : Path) (contents : Bytes) :
    Watch where
  may := may
  target := target
  safe
    | false, tree => start.Unpublished tree (StagedFile.directoryOf target)
    | true, tree => start.Publishes tree (StagedFile.directoryOf target) target contents

/-- A publication that succeeds has put its pieces at the target, and one that fails has left
nothing. -/
theorem publishPieces_withstands (may : Action → Bool) (start : Tree) (target : Path)
    (pieces : List Bytes) (failure : Option StoreFault) :
    Withstands (.publication may start target pieces.flatten)
      (fun result _ final ↦ StagedFile.Clears (.publication may start target pieces.flatten) start
        (StagedFile.directoryOf target) (fun _ final ↦ failure = none ∧
          start.Publishes final (StagedFile.directoryOf target) target pieces.flatten) result final)
      (publishPieces target pieces failure) false start := by
  have hunpublished : ∀ tree, start.Unpublished tree (StagedFile.directoryOf target) →
      (Watch.publication may start target pieces.flatten).safe false tree := fun _ ↦ id
  rw [publishPieces_eq]
  apply StagedFile.stageFilled_withstands hunpublished (StagedFile.create_holds hunpublished)
  intro staged filled hnamed hfailure hholds
  have hpublished : ∀ changed,
      start.Publishes changed (StagedFile.directoryOf target) target pieces.flatten →
        (Watch.publication may start target pieces.flatten).safe (decide (target = target))
          changed := by
    intro changed hchanged
    rw [decide_eq_true rfl]
    exact hchanged
  unfold StagedFile.commit
  rw [hnamed]
  apply withstands_imp (StagedFile.persist_holds hunpublished hholds hpublished)
  intro result last final hresult
  cases result with
  | error error => exact hresult
  | ok done => exact ⟨hfailure, hresult⟩

/-- A reader of the target finds what was there, or all of what is published. -/
theorem Watch.read_publication {may : Action → Bool} {start final : Tree} {target : Path}
    {contents : Bytes} {committed : Bool}
    (hsafe : (Watch.publication may start target contents).safe committed final)
    (hnested : start.Nested)
    (htarget : Location.ofPath target ≠ some (start.stagedPlace (StagedFile.directoryOf target))) :
    (final.read target).toOption = (start.read target).toOption ∨
      final.read target = .ok contents := by
  cases committed with
  | true => exact .inr hsafe.read_eq
  | false => exact .inl (Tree.Unpublished.toOption_read hsafe hnested htarget)

/-- A file is published at once or not at all, whatever fails, and a staged file that is dropped or
has no target leaves nothing. The directories that lead to a file are made first and stay. -/
theorem publishPieces_atomic {may : Action → Bool} (hmay : ∀ path, may (.remove path) = false)
    (start : Tree) (target directory : Path) (pieces : List Bytes) (failure : Option StoreFault) :
    (∀ history last final, (publishPieces target pieces failure).attempt.Reaches may start
        history last final →
      (start.Nested →
        Location.ofPath target ≠ some (start.stagedPlace (StagedFile.directoryOf target)) →
        (final.read target).toOption = (start.read target).toOption ∨
          final.read target = .ok pieces.flatten) ∧
      (∀ error, last = .done (.error error) →
        start.Untouched final (StagedFile.directoryOf target)) ∧
      (last = .done (.ok ()) → failure = none ∧
        start.Publishes final (StagedFile.directoryOf target) target pieces.flatten)) ∧
    (∀ history result final, (StagedFile.stageFilled (StagedFile.create target) target pieces
        failure StagedFile.drop).attempt.Reaches may start history (.done result) final →
      start.Untouched final (StagedFile.directoryOf target)) ∧
    (∀ history result final, (StagedFile.stageFilled (StagedFile.createIn directory) directory
        pieces failure StagedFile.drop).attempt.Reaches may start history (.done result) final →
      start.Untouched final directory) ∧
    ∀ history result final, (StagedFile.stageFilled (StagedFile.createIn directory) directory
        pieces failure StagedFile.commit).attempt.Reaches may start history (.done result) final →
      (∃ error, result = .error error) ∧ start.Untouched final directory := by
  have hstart : ∀ place, start.Unpublished start place := fun place ↦ start.retains_self _ _
  -- a program that stages one file and never commits it is watched for that file only
  let idle (place : Path) : Watch := ⟨may, target, fun _ tree ↦ start.Unpublished tree place⟩
  have hidle : ∀ place tree, start.Unpublished tree place → (idle place).safe false tree :=
    fun _ _ ↦ id
  refine ⟨fun history last final hreaches ↦ ?_, fun history result final hreaches ↦ ?_,
    fun history result final hreaches ↦ ?_, fun history result final hreaches ↦ ?_⟩
  · obtain ⟨hsafe, hlast⟩ :=
      (publishPieces_withstands may start target pieces failure).reaches (hstart _) hreaches
    refine ⟨Watch.read_publication hsafe, ?_, ?_⟩
    · rintro error rfl
      exact hlast hmay
    · rintro rfl
      exact hlast
  · have hlast := ((StagedFile.drop_withstands (hidle _) (StagedFile.create_holds (hidle _)) target
      pieces failure).reaches (hstart _) hreaches).2
    cases result <;> exact hlast hmay
  · have hlast := ((StagedFile.drop_withstands (hidle _) (StagedFile.createIn_holds (hidle _))
      directory pieces failure).reaches (hstart _) hreaches).2
    cases result <;> exact hlast hmay
  · have hlast := ((StagedFile.commit_withstands_unnamed (hidle _) directory pieces failure).reaches
      (hstart _) hreaches).2
    cases result with
    | error error => exact ⟨⟨error, rfl⟩, hlast hmay⟩
    | ok done => exact hlast.elim

/-- Only the writing of bytes may fail. -/
def mayFailToAppend : Action → Bool
  | .append .. => true
  | _ => false

/-- Two pieces make one file, and a writer that gives up after them leaves none. -/
theorem publishPieces_atomic_small :
    (∀ path, mayFailToAppend (.remove path) = false) ∧
    ((publishPieces "d/f" [[1], [2, 3]] none).runOn Tree.empty).2.read "d/f" = .ok [1, 2, 3] ∧
    Tree.empty.Untouched
      ((publishPieces "d/f" [[1], [2, 3]] (some (.other "disk full"))).runOn Tree.empty).2 "d" := by
  have hmay : ∀ path, mayFailToAppend (.remove path) = false := fun _ ↦ rfl
  refine ⟨hmay, ?_, ?_⟩
  · obtain ⟨hpublished, -⟩ := publishPieces_atomic hmay Tree.empty "d/f" "d" [[1], [2, 3]] none
    obtain ⟨history, hreaches⟩ := StoreProgram.exists_reaches_run mayFailToAppend
      (publishPieces "d/f" [[1], [2, 3]] none).attempt Tree.empty
    have hok : ((publishPieces "d/f" [[1], [2, 3]] none).runOn Tree.empty).1 = .ok () := rfl
    rw [IndexProgram.run_attempt, hok] at hreaches
    exact ((hpublished _ _ _ hreaches).2.2 rfl).2.read_eq
  · obtain ⟨hpublished, -⟩ := publishPieces_atomic hmay Tree.empty "d/f" "d" [[1], [2, 3]]
      (some (.other "disk full"))
    obtain ⟨history, hreaches⟩ := StoreProgram.exists_reaches_run mayFailToAppend
      (publishPieces "d/f" [[1], [2, 3]] (some (.other "disk full"))).attempt Tree.empty
    rw [IndexProgram.run_attempt] at hreaches
    obtain ⟨-, herror, hok⟩ := hpublished _ _ _ hreaches
    have hdirectory : StagedFile.directoryOf "d/f" = "d" := rfl
    rw [hdirectory] at herror
    cases hresult : ((publishPieces "d/f" [[1], [2, 3]]
        (some (.other "disk full"))).runOn Tree.empty).1 with
    | error error => exact herror error (by rw [hresult])
    | ok done => cases (hok (by rw [hresult])).1

end VectorIndex
