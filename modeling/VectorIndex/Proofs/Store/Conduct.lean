import Mathlib.Logic.Function.Basic
import VectorIndex.Proofs.Store.Faults

/-!
# Writers in one directory

Any number of programs publish files in one directory at the same time, and any of their actions may
fail. Each of them writes to files that it has staged itself, under names that nobody used, and
moves them to their names when they are complete. What a program has staged follows from what it has
done, so the conduct of one program does not mention the others.
-/

namespace VectorIndex

open StagedFile (IsTemporary)

/-! ## What a program has staged -/

/-- What a staged file holds, as far as its writer knows. -/
inductive Draft where
  | holds (contents : Bytes)
  | broken

namespace Draft

def append (bytes : Bytes) : Draft → Draft
  | holds contents => holds (contents ++ bytes)
  | broken => broken

end Draft

/-- The staged files of a writer, by their places. -/
abbrev Drafts := Location → Option Draft

namespace Drafts

def alter (drafts : Drafts) (path : Path) (change : Option Draft → Option Draft) : Drafts :=
  match Location.ofPath path with
  | some location => Function.update drafts location (change (drafts location))
  | none => drafts

theorem alter_eq (drafts : Drafts) {path : Path} {location : Location}
    (hpath : Location.ofPath path = some location) (change : Option Draft → Option Draft) :
    drafts.alter path change = Function.update drafts location (change (drafts location)) := by
  rw [alter, hpath]

/-- An addition that fails may have added some of the bytes. -/
def after (drafts : Drafts) : Event → Drafts
  | ⟨.stage _, .ok path⟩ => drafts.alter path fun _ ↦ some (.holds [])
  | ⟨.append path bytes, .ok _⟩ => drafts.alter path (·.map (Draft.append bytes))
  | ⟨.append path _, .error _⟩ => drafts.alter path (·.map fun _ ↦ .broken)
  | ⟨.rename source _, .ok _⟩ => drafts.alter source fun _ ↦ none
  | ⟨.remove path, _⟩ => drafts.alter path fun _ ↦ none
  | _ => drafts

end Drafts

/-- What a writer has staged when it has done all this, the latest first. -/
def draftsOf : List Event → Drafts
  | [] => fun _ ↦ none
  | event :: earlier => (draftsOf earlier).after event

/-- What an event publishes after earlier ones: a staged file that is moved to a path, with its
contents at that moment. -/
def Event.write? (earlier : List Event) : Event → Option (Path × Bytes)
  | ⟨.rename source path, .ok _⟩ =>
    match (Location.ofPath source).bind (draftsOf earlier) with
    | some (.holds contents) => some (path, contents)
    | _ => none
  | _ => none

/-- What a writer has published when it has done all this, the latest first. -/
def writesOf : List Event → List (Path × Bytes)
  | [] => []
  | event :: earlier => (event.write? earlier).toList ++ writesOf earlier

def Wrote (events : List Event) (path : Path) (contents : Bytes) : Prop :=
  (path, contents) ∈ writesOf events

theorem wrote_rename {source path : Path} {location : Location} {contents : Bytes}
    {events : List Event} (hsource : Location.ofPath source = some location)
    (hdraft : draftsOf events location = some (.holds contents)) (done : Unit) :
    Wrote (⟨.rename source path, .ok done⟩ :: events) path contents := by
  have hheld : (Location.ofPath source).bind (draftsOf events) = some (.holds contents) := by
    rw [hsource]
    exact hdraft
  rw [Wrote, writesOf, Event.write?, hheld]
  exact List.mem_cons_self

theorem Wrote.mono {few many : List Event} {path : Path} {contents : Bytes}
    (hwrote : Wrote few path contents) (hmany : few <:+ many) : Wrote many path contents := by
  obtain ⟨more, rfl⟩ := hmany
  induction more with
  | nil => exact hwrote
  | cons event more ih => exact List.mem_append_right _ ih

/-! ## What a writer does -/

/-- Whether an action leaves every file as it is. -/
def Action.looks : Action → Bool
  | .stage _ => false
  | .append .. => false
  | .rename .. => false
  | .remove _ => false
  | .overwrite .. => false
  | _ => true

/-- What a writer of a directory does: it stages in the directory, writes and removes what it has
staged, publishes what it admits under a name, and removes nothing that may be staged by others. -/
inductive Proper (root : Path) (admits : List Event → String → Bytes → Prop)
    (events : List Event) : Event → Prop
  | looks {action : Action} {answer : action.Answer} (hlooks : action.looks = true) :
    Proper root admits events ⟨action, answer⟩
  | stages {place : Path} {answer : Except StoreFault Path}
    (hplace : Location.ofDirectory place = Location.ofDirectory root) :
    Proper root admits events ⟨.stage place, answer⟩
  | appends {path : Path} {bytes : Bytes} {answer : Except StoreFault Unit} {location : Location}
    {draft : Draft} (hpath : Location.ofPath path = some location)
    (hdraft : draftsOf events location = some draft) :
    Proper root admits events ⟨.append path bytes, answer⟩
  | publishes {source : Path} {name : String} {contents : Bytes} {answer : Except StoreFault Unit}
    {location : Location} (hsource : Location.ofPath source = some location)
    (hname : Path.IsName name) (hhead : name.toList.head? ≠ some '.')
    (hdraft : draftsOf events location = some (.holds contents))
    (hadmits : admits events name contents) :
    Proper root admits events ⟨.rename source (Path.join root name), answer⟩
  | removes {path : Path} {answer : Except StoreFault Unit} {location : Location}
    (hpath : Location.ofPath path = some location)
    (hspares : (∃ draft, draftsOf events location = some draft) ∨
      ∀ name, IsTemporary name → location ≠ Location.ofDirectory root ++ [name]) :
    Proper root admits events ⟨.remove path, answer⟩

/-- The store holds what the writer has staged. -/
def Agrees (root : Path) (events : List Event) (tree : Tree) : Prop :=
  ∀ location draft, draftsOf events location = some draft →
    (∃ name, IsTemporary name ∧ location = Location.ofDirectory root ++ [name]) ∧
      ∃ contents, tree.files location = some contents ∧
        ∀ held, draft = .holds held → contents = held

/-! ## What becomes of the store -/

/-- What one event makes of the store: what the writer has staged is there, what others have staged
is left alone, and every other file of the directory stays, goes, or is published. -/
structure Shares (root : Path) (admits : List Event → String → Bytes → Prop) (events : List Event)
    (event : Event) (tree changed : Tree) : Prop where
  agrees : Agrees root (event :: events) changed
  spares : ∀ name, IsTemporary name →
    draftsOf events (Location.ofDirectory root ++ [name]) = none →
      tree.files (Location.ofDirectory root ++ [name]) ≠ none →
        changed.files (Location.ofDirectory root ++ [name]) =
            tree.files (Location.ofDirectory root ++ [name]) ∧
          draftsOf (event :: events) (Location.ofDirectory root ++ [name]) = none
  files : ∀ name, name.toList.head? ≠ some '.' →
    changed.files (Location.ofDirectory root ++ [name]) =
        tree.files (Location.ofDirectory root ++ [name]) ∨
      changed.files (Location.ofDirectory root ++ [name]) = none ∨
      ∃ contents, changed.files (Location.ofDirectory root ++ [name]) = some contents ∧
        Wrote (event :: events) (Path.join root name) contents ∧ admits events name contents

section

variable {root : Path} {admits : List Event → String → Bytes → Prop} {events : List Event}
  {event : Event} {tree changed : Tree}

theorem shares_of_files_eq (hagrees : Agrees root events tree)
    (hdrafts : draftsOf (event :: events) = draftsOf events)
    (hfiles : changed.files = tree.files) : Shares root admits events event tree changed where
  agrees := by
    intro location draft hdraft
    rw [hdrafts] at hdraft
    rw [hfiles]
    exact hagrees location draft hdraft
  spares name _ hfree _ := ⟨congrFun hfiles _, hdrafts ▸ hfree⟩
  files name _ := .inl (congrFun hfiles _)

/-- Only one staged file is changed, which is the writer's or was not there. -/
theorem shares_of_draft {temporary : String} (htemporary : IsTemporary temporary)
    {draft : Option Draft} (hagrees : Agrees root events tree)
    (hdrafts : draftsOf (event :: events) =
      Function.update (draftsOf events) (Location.ofDirectory root ++ [temporary]) draft)
    (hothers : ∀ location, location ≠ Location.ofDirectory root ++ [temporary] →
      changed.files location = tree.files location)
    (hown : draftsOf events (Location.ofDirectory root ++ [temporary]) ≠ none ∨
      tree.files (Location.ofDirectory root ++ [temporary]) = none)
    (hheld : ∀ given, draft = some given → ∃ contents,
      changed.files (Location.ofDirectory root ++ [temporary]) = some contents ∧
        ∀ held, given = .holds held → contents = held) :
    Shares root admits events event tree changed where
  agrees := by
    intro location given hgiven
    rw [hdrafts] at hgiven
    by_cases hlocation : location = Location.ofDirectory root ++ [temporary]
    · subst hlocation
      rw [Function.update_self] at hgiven
      exact ⟨⟨temporary, htemporary, rfl⟩, hheld given hgiven⟩
    · rw [Function.update_of_ne hlocation] at hgiven
      rw [hothers location hlocation]
      exact hagrees location given hgiven
  spares name _ hfree hthere := by
    have hne : Location.ofDirectory root ++ [name] ≠ Location.ofDirectory root ++ [temporary] := by
      intro heq
      rw [heq] at hfree hthere
      exact hown.elim (· hfree) hthere
    refine ⟨hothers _ hne, ?_⟩
    rw [hdrafts, Function.update_of_ne hne]
    exact hfree
  files name hhead := by
    refine .inl (hothers _ fun heq ↦ ?_)
    exact htemporary.ne hhead (by simpa using heq.symm)

/-! ### Each action -/

variable {may : Action → Bool}

theorem files_of_looks {action : Action} {answer : action.Answer} (hlooks : action.looks = true)
    (hattempt : tree.Attempts may action answer changed) : changed.files = tree.files := by
  cases hattempt with
  | works =>
    cases action with
    | makeDirectories path => exact tree.files_makeDirectories path
    | stage => cases hlooks
    | append => cases hlooks
    | rename => cases hlooks
    | remove => cases hlooks
    | overwrite => cases hlooks
    | _ => rfl
  | fails => rfl
  | breaks _ haction =>
    subst haction
    cases hlooks

theorem draftsOf_looks {action : Action} (hlooks : action.looks = true) (answer : action.Answer) :
    draftsOf (⟨action, answer⟩ :: events) = draftsOf events := by
  cases action with
  | stage => cases hlooks
  | append => cases hlooks
  | rename => cases hlooks
  | remove => cases hlooks
  | overwrite => cases hlooks
  | _ => rfl

theorem shares_looks {action : Action} {answer : action.Answer} (hlooks : action.looks = true)
    (hagrees : Agrees root events tree) (hattempt : tree.Attempts may action answer changed) :
    Shares root admits events ⟨action, answer⟩ tree changed :=
  shares_of_files_eq hagrees (draftsOf_looks hlooks answer) (files_of_looks hlooks hattempt)

theorem shares_stage {place : Path} {answer : (Action.stage place).Answer}
    (hplace : Location.ofDirectory place = Location.ofDirectory root)
    (hagrees : Agrees root events tree)
    (hattempt : tree.Attempts may (.stage place) answer changed) :
    Shares root admits events ⟨.stage place, answer⟩ tree changed := by
  cases hattempt with
  | works =>
    cases hanswer : (tree.answer (.stage place)).1 with
    | error fault =>
      exact shares_of_files_eq hagrees rfl (congrArg Tree.files (Tree.answer_stage_error hanswer))
    | ok path =>
      obtain ⟨rfl, -, hstaged⟩ := Tree.stage_becomes (Tree.answer_stage hanswer)
      have hpath := Location.ofPath_join place tree.isName_freshName
      rw [hplace] at hpath hstaged
      refine shares_of_draft ⟨tree, rfl⟩ hagrees
        (Drafts.alter_eq (draftsOf events) hpath fun _ ↦ some (.holds [])) ?_ (.inr ?_) ?_
      · intro location hlocation
        rw [hstaged.files_eq, Files.put_other _ _ hlocation]
      · exact Tree.files_of_none (Tree.find?_freshName _ _)
      · rintro given hgiven
        obtain rfl := Option.some.inj hgiven
        refine ⟨[], by rw [hstaged.files_eq, Files.put_self], fun held hheld ↦ ?_⟩
        exact Draft.holds.inj hheld
  | fails _ hanswer =>
    obtain rfl := Option.some.inj hanswer
    exact shares_of_files_eq hagrees rfl rfl
  | breaks _ haction => cases haction

/-- Whatever comes of it, an addition changes only the file that it adds to. -/
theorem files_answer_append {path : Path} {location : Location} {held : Bytes}
    (hpath : Location.ofPath path = some location) (hheld : tree.files location = some held)
    (bytes : Bytes) :
    (∀ other, other ≠ location →
      (tree.answer (.append path bytes)).2.files other = tree.files other) ∧
    (∃ contents, (tree.answer (.append path bytes)).2.files location = some contents) ∧
    ((tree.answer (.append path bytes)).1 = .ok () →
      (tree.answer (.append path bytes)).2.files location = some (held ++ bytes)) := by
  cases hanswer : (tree.answer (.append path bytes)).1 with
  | error fault =>
    have hsame : (tree.answer (.append path bytes)).2 = tree := Tree.change_error hanswer
    rw [hsame]
    exact ⟨fun _ _ ↦ rfl, ⟨held, hheld⟩, nofun⟩
  | ok done =>
    obtain ⟨found, hfound, hbecomes⟩ := Tree.answer_append hpath hanswer
    obtain rfl : found = held := Option.some.inj (hfound.symm.trans hheld)
    rw [hbecomes.files_eq, Files.put_self]
    exact ⟨fun other hother ↦ Files.put_other _ _ hother, ⟨_, rfl⟩, fun _ ↦ rfl⟩

theorem shares_append {path : Path} {bytes : Bytes} {answer : (Action.append path bytes).Answer}
    {location : Location} {draft : Draft} (hpath : Location.ofPath path = some location)
    (hdraft : draftsOf events location = some draft) (hagrees : Agrees root events tree)
    (hattempt : tree.Attempts may (.append path bytes) answer changed) :
    Shares root admits events ⟨.append path bytes, answer⟩ tree changed := by
  obtain ⟨⟨temporary, htemporary, rfl⟩, held, hheld, hknown⟩ := hagrees _ draft hdraft
  have hown : draftsOf events (Location.ofDirectory root ++ [temporary]) ≠ none := by
    rw [hdraft]
    exact nofun
  -- an addition that fails leaves a draft of which nothing is known
  have hbroken : ∀ {fault : StoreFault} {final : Tree},
      (∀ other, other ≠ Location.ofDirectory root ++ [temporary] →
        final.files other = tree.files other) →
      (∃ contents, final.files (Location.ofDirectory root ++ [temporary]) = some contents) →
        Shares root admits events ⟨.append path bytes, .error fault⟩ tree final := by
    rintro fault final hothers ⟨contents, hcontents⟩
    refine shares_of_draft htemporary hagrees (Drafts.alter_eq _ hpath _) hothers (.inl hown) ?_
    rw [hdraft]
    rintro given hgiven
    obtain rfl := Option.some.inj hgiven
    exact ⟨contents, hcontents, nofun⟩
  cases hattempt with
  | works =>
    obtain ⟨hothers, hthere, hadded⟩ := files_answer_append hpath hheld bytes
    cases hanswer : (tree.answer (.append path bytes)).1 with
    | error fault => exact hbroken hothers hthere
    | ok done =>
      refine shares_of_draft htemporary hagrees (Drafts.alter_eq _ hpath _) hothers (.inl hown) ?_
      rw [hdraft]
      rintro given hgiven
      obtain rfl := Option.some.inj hgiven
      refine ⟨held ++ bytes, hadded hanswer, fun whole hwhole ↦ ?_⟩
      cases draft with
      | broken => cases hwhole
      | holds contents =>
        rw [hknown contents rfl]
        exact Draft.holds.inj hwhole
  | fails _ hanswer =>
    obtain rfl := Option.some.inj hanswer
    exact hbroken (fun _ _ ↦ rfl) ⟨held, hheld⟩
  | breaks _ haction hanswer count =>
    cases haction
    obtain rfl := Option.some.inj hanswer
    obtain ⟨hothers, hthere, -⟩ := files_answer_append hpath hheld (bytes.take count)
    exact hbroken hothers hthere

/-- A staged file that is moved to its name is no draft any more, and what has the name is what was
written. -/
theorem shares_of_moved {temporary name : String} {contents : Bytes}
    (htemporary : IsTemporary temporary) (hhead : name.toList.head? ≠ some '.')
    (hagrees : Agrees root events tree)
    (hdraft : draftsOf events (Location.ofDirectory root ++ [temporary]) = some (.holds contents))
    (hdrafts : draftsOf (event :: events) =
      Function.update (draftsOf events) (Location.ofDirectory root ++ [temporary]) none)
    (hmoved : tree.Becomes changed
      ((tree.files.put (Location.ofDirectory root ++ [temporary]) none).put
        (Location.ofDirectory root ++ [name]) (some contents)))
    (hwrote : Wrote (event :: events) (Path.join root name) contents)
    (hadmits : admits events name contents) : Shares root admits events event tree changed := by
  have hapart : ∀ other, IsTemporary other →
      Location.ofDirectory root ++ [other] ≠ Location.ofDirectory root ++ [name] :=
    fun other hother heq ↦ hother.ne hhead (by simpa using heq)
  refine ⟨?_, ?_, ?_⟩
  · intro location draft hgiven
    rw [hdrafts] at hgiven
    by_cases hlocation : location = Location.ofDirectory root ++ [temporary]
    · rw [hlocation, Function.update_self] at hgiven
      cases hgiven
    · rw [Function.update_of_ne hlocation] at hgiven
      obtain ⟨⟨other, hother, rfl⟩, hthere⟩ := hagrees location draft hgiven
      refine ⟨⟨other, hother, rfl⟩, ?_⟩
      rwa [hmoved.files_eq, Files.put_other _ _ (hapart other hother),
        Files.put_other _ _ hlocation]
  · intro other hother hfree _
    have hne : Location.ofDirectory root ++ [other] ≠
        Location.ofDirectory root ++ [temporary] := by
      intro heq
      rw [heq, hdraft] at hfree
      cases hfree
    rw [hdrafts, Function.update_of_ne hne, hmoved.files_eq,
      Files.put_other _ _ (hapart other hother), Files.put_other _ _ hne]
    exact ⟨rfl, hfree⟩
  · intro other hother
    by_cases hsame : other = name
    · subst hsame
      exact .inr (.inr ⟨contents, by rw [hmoved.files_eq, Files.put_self], hwrote, hadmits⟩)
    · refine .inl ?_
      rw [hmoved.files_eq, Files.put_other _ _ (by simpa using hsame), Files.put_other]
      intro heq
      exact htemporary.ne hother (by simpa using heq.symm)

theorem shares_publish {source : Path} {name : String} {contents : Bytes}
    {answer : (Action.rename source (Path.join root name)).Answer} {location : Location}
    (hsource : Location.ofPath source = some location) (hname : Path.IsName name)
    (hhead : name.toList.head? ≠ some '.')
    (hdraft : draftsOf events location = some (.holds contents))
    (hadmits : admits events name contents) (hagrees : Agrees root events tree)
    (hattempt : tree.Attempts may (.rename source (Path.join root name)) answer changed) :
    Shares root admits events ⟨.rename source (Path.join root name), answer⟩ tree changed := by
  obtain ⟨⟨temporary, htemporary, rfl⟩, held, hheld, hknown⟩ := hagrees _ _ hdraft
  obtain rfl := hknown contents rfl
  have hfailed : ∀ fault, Shares root admits events
      ⟨.rename source (Path.join root name), .error fault⟩ tree tree :=
    fun fault ↦ shares_of_files_eq hagrees rfl rfl
  cases hattempt with
  | works =>
    cases hanswer : (tree.answer (.rename source (Path.join root name))).1 with
    | error fault =>
      have hsame : (tree.answer (.rename source (Path.join root name))).2 = tree :=
        Tree.change_error hanswer
      rw [hsame]
      exact hfailed fault
    | ok done =>
      obtain ⟨found, hfound, hmoved⟩ :=
        Tree.answer_rename hsource (Location.ofPath_join root hname) hanswer
      obtain rfl : found = held := Option.some.inj (hfound.symm.trans hheld)
      exact shares_of_moved htemporary hhead hagrees hdraft
        (Drafts.alter_eq (draftsOf events) hsource fun _ ↦ none) hmoved
        (wrote_rename hsource hdraft done) hadmits
  | fails _ hanswer =>
    obtain rfl := Option.some.inj hanswer
    exact hfailed _
  | breaks _ haction => cases haction

theorem shares_remove {path : Path} {answer : (Action.remove path).Answer} {location : Location}
    (hpath : Location.ofPath path = some location)
    (hspares : (∃ draft, draftsOf events location = some draft) ∨
      ∀ name, IsTemporary name → location ≠ Location.ofDirectory root ++ [name])
    (hagrees : Agrees root events tree)
    (hattempt : tree.Attempts may (.remove path) answer changed) :
    Shares root admits events ⟨.remove path, answer⟩ tree changed := by
  have hdrafts : draftsOf (⟨.remove path, answer⟩ :: events) =
      Function.update (draftsOf events) location none :=
    Drafts.alter_eq (draftsOf events) hpath fun _ ↦ none
  have hloses : tree.Loses changed (· = location) := by
    cases hattempt with
    | works => exact Tree.loses_remove hpath rfl
    | fails => exact .refl tree
    | breaks _ haction => cases haction
  rcases hspares with ⟨draft, hdraft⟩ | hspares
  · obtain ⟨⟨temporary, htemporary, rfl⟩, -⟩ := hagrees location draft hdraft
    refine shares_of_draft htemporary hagrees hdrafts (fun _ hne ↦ hloses.keeps hne) (.inl ?_) nofun
    rw [hdraft]
    exact nofun
  · have hstill : draftsOf (⟨.remove path, answer⟩ :: events) = draftsOf events := by
      rw [hdrafts, Function.update_eq_self_iff]
      cases hdraft : draftsOf events location with
      | none => rfl
      | some draft =>
        obtain ⟨⟨temporary, htemporary, hlocation⟩, -⟩ := hagrees location draft hdraft
        exact absurd hlocation (hspares temporary htemporary)
    refine ⟨fun other draft hdraft ↦ ?_, fun name hname hfree _ ↦ ?_, fun name _ ↦ ?_⟩
    · rw [hstill] at hdraft
      obtain ⟨⟨temporary, htemporary, rfl⟩, hthere⟩ := hagrees other draft hdraft
      rw [hloses.keeps (hspares temporary htemporary).symm]
      exact ⟨⟨temporary, htemporary, rfl⟩, hthere⟩
    · exact ⟨hloses.keeps (hspares name hname).symm, hstill ▸ hfree⟩
    · exact (hloses.files_eq _).imp_right fun hgone ↦ .inl hgone.1

/-- Every proper event leaves the store in order. -/
theorem Proper.shares {action : Action} {answer : action.Answer}
    (hproper : Proper root admits events ⟨action, answer⟩) (hagrees : Agrees root events tree)
    (hattempt : tree.Attempts may action answer changed) :
    Shares root admits events ⟨action, answer⟩ tree changed := by
  cases hproper with
  | looks hlooks => exact shares_looks hlooks hagrees hattempt
  | stages hplace => exact shares_stage hplace hagrees hattempt
  | appends hpath hdraft => exact shares_append hpath hdraft hagrees hattempt
  | publishes hsource hname hhead hdraft hadmits =>
    exact shares_publish hsource hname hhead hdraft hadmits hagrees hattempt
  | removes hpath hspares => exact shares_remove hpath hspares hagrees hattempt

end

end VectorIndex
