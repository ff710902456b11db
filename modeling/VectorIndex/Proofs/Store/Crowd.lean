import VectorIndex.Proofs.Store.Writers

/-!
# Any number of writers and a reader

Programs that conduct themselves share a directory, and their actions come in any order. A step of
one of them keeps what the others have staged, so every file under a published name was written
whole by one of them. A reader that opens several files finds each of them as one writer published
it, though not all at one moment.
-/

namespace VectorIndex

open StagedFile (IsTemporary)

/-- Writers that share a store: what is left of their programs, and what they have done. -/
structure Crowd (β : Type) where
  tree : Tree
  left : Nat → StoreProgram β
  events : Nat → List Event

namespace Crowd

variable {α β : Type} {root : Path} {may : Action → Bool}
  {admits : Nat → List Event → String → Bytes → Prop} {names : String → Prop}
  {crowd later last : Crowd β}

/-- Nobody has done anything. -/
def start (programs : Nat → StoreProgram β) (tree : Tree) : Crowd β :=
  ⟨tree, programs, fun _ ↦ []⟩

/-- One of the writers has taken an action. -/
def taken (crowd : Crowd β) (i : Nat) (event : Event) (changed : Tree) (rest : StoreProgram β) :
    Crowd β :=
  ⟨changed, Function.update crowd.left i rest,
    Function.update crowd.events i (event :: crowd.events i)⟩

section

variable {i j : Nat} {event : Event} {changed : Tree} {rest : StoreProgram β}

@[simp] theorem tree_taken : (crowd.taken i event changed rest).tree = changed := rfl

@[simp] theorem left_taken_self : (crowd.taken i event changed rest).left i = rest :=
  Function.update_self ..

@[simp] theorem left_taken (hj : j ≠ i) :
    (crowd.taken i event changed rest).left j = crowd.left j :=
  Function.update_of_ne hj ..

@[simp] theorem events_taken_self :
    (crowd.taken i event changed rest).events i = event :: crowd.events i :=
  Function.update_self ..

@[simp] theorem events_taken (hj : j ≠ i) :
    (crowd.taken i event changed rest).events j = crowd.events j :=
  Function.update_of_ne hj ..

theorem events_suffix_taken (j : Nat) :
    crowd.events j <:+ (crowd.taken i event changed rest).events j := by
  by_cases hj : j = i
  · subst hj
    rw [events_taken_self]
    exact List.suffix_cons _ _
  · exact (events_taken hj).symm ▸ List.suffix_refl _

end

/-- One writer takes one action, or the store changes elsewhere than in the directory. -/
inductive Step (root : Path) (may : Action → Bool) (crowd : Crowd β) : Crowd β → Prop
  | acts (i : Nat) {action : Action} {next : action.Answer → StoreProgram β}
    {answer : action.Answer} {changed : Tree} (hleft : crowd.left i = .act action next)
    (hattempt : crowd.tree.Attempts may action answer changed) :
    Step root may crowd (crowd.taken i ⟨action, answer⟩ changed (next answer))
  | elsewhere {changed : Tree} (hfiles : ∀ name,
      changed.files (Location.ofDirectory root ++ [name]) =
        crowd.tree.files (Location.ofDirectory root ++ [name])) :
    Step root may crowd { crowd with tree := changed }

/-- A program reads while the writers take any of their steps, and returns the value. -/
inductive Reads (root : Path) (may : Action → Bool) :
    Crowd β → StoreProgram α → α → Crowd β → Prop
  | done (crowd : Crowd β) (value : α) : Reads root may crowd (.done value) value crowd
  | moves {crowd later last : Crowd β} {program : StoreProgram α} {value : α}
    (hstep : Step root may crowd later) (hrest : Reads root may later program value last) :
    Reads root may crowd program value last
  | reads {crowd last : Crowd β} {action : Action} {next : action.Answer → StoreProgram α}
    {value : α} {answer : action.Answer} {changed : Tree}
    (hattempt : crowd.tree.Attempts may action answer changed)
    (hrest : Reads root may { crowd with tree := changed } (next answer) value last) :
    Reads root may crowd (.act action next) value last

/-! ## Undisturbed runs -/

/-- What a program does when nothing disturbs it, the latest first, after what was done before. -/
def trace : StoreProgram α → Tree → List Event → List Event
  | .done _, _, events => events
  | .act action next, tree, events =>
    trace (next (tree.answer action).1) (tree.answer action).2
      (⟨action, (tree.answer action).1⟩ :: events)

/-- One of the writers has run to its end, and no other has moved meanwhile. -/
def ran (crowd : Crowd β) (i : Nat) : Crowd β :=
  ⟨((crowd.left i).run crowd.tree).2,
    Function.update crowd.left i (.done ((crowd.left i).run crowd.tree).1),
    Function.update crowd.events i (trace (crowd.left i) crowd.tree (crowd.events i))⟩

theorem left_ran {i j : Nat} (hj : j ≠ i) : (crowd.ran i).left j = crowd.left j :=
  Function.update_of_ne hj ..

theorem events_ran {i j : Nat} (hj : j ≠ i) : (crowd.ran i).events j = crowd.events j :=
  Function.update_of_ne hj ..

theorem Reads.of_ran {i : Nat} {reader : StoreProgram α} {value : α}
    (hreads : Reads root may (crowd.ran i) reader value last) :
    Reads root may crowd reader value last := by
  generalize hprogram : crowd.left i = program
  induction program generalizing crowd with
  | done result =>
    have hsame : crowd.ran i = crowd := by
      unfold ran
      rw [hprogram]
      show Crowd.mk crowd.tree (Function.update crowd.left i (.done result))
        (Function.update crowd.events i (crowd.events i)) = crowd
      rw [← hprogram, Function.update_eq_self, Function.update_eq_self]
    exact hsame ▸ hreads
  | act action next ih =>
    refine .moves (.acts i hprogram .works) (ih _ ?_ left_taken_self)
    have hsame : (crowd.taken i ⟨action, (crowd.tree.answer action).1⟩
        (crowd.tree.answer action).2 (next (crowd.tree.answer action).1)).ran i = crowd.ran i := by
      unfold ran
      rw [left_taken_self, events_taken_self, tree_taken, hprogram]
      unfold taken
      rw [Function.update_idem, Function.update_idem]
      rfl
    exact hsame ▸ hreads

/-- A reader may come when all writers rest. -/
theorem Reads.of_run {reader : StoreProgram α} (hreader : reader.OnlyReads) :
    Reads root may crowd reader (reader.run crowd.tree).1 crowd := by
  induction reader with
  | done value => exact .done crowd value
  | act action next ih =>
    have hsame := hreader.1 crowd.tree
    refine .reads .works ?_
    show Reads root may { crowd with tree := (crowd.tree.answer action).2 } _
      ((next (crowd.tree.answer action).1).run (crowd.tree.answer action).2).1 crowd
    rw [hsame]
    exact ih _ (hreader.2 _)

/-! ## What the writers have done stays done -/

theorem Step.events_suffix (hstep : Step root may crowd later) (i : Nat) :
    crowd.events i <:+ later.events i := by
  cases hstep with
  | acts j => exact events_suffix_taken i
  | elsewhere => exact List.suffix_refl _

theorem Reads.events_suffix {program : StoreProgram α} {value : α}
    (hreads : Reads root may crowd program value last) (i : Nat) :
    crowd.events i <:+ last.events i := by
  induction hreads with
  | done => exact List.suffix_refl _
  | moves hstep _ ih => exact (hstep.events_suffix i).trans ih
  | reads _ _ ih => exact ih

/-! ## The order that the writers keep -/

/-- The writers conduct themselves, no two have staged the same file, and whatever has one of the
names was published by one of them. -/
structure InOrder (root : Path) (may : Action → Bool)
    (admits : Nat → List Event → String → Bytes → Prop) (names : String → Prop)
    (crowd : Crowd β) : Prop where
  conducts : ∀ i, (crowd.left i).Conducts root may (admits i) (fun _ _ ↦ True) (crowd.events i)
  agrees : ∀ i, Agrees root (crowd.events i) crowd.tree
  apart : ∀ i j location, i ≠ j → draftsOf (crowd.events i) location = none ∨
    draftsOf (crowd.events j) location = none
  published : ∀ name contents, names name →
    crowd.tree.files (Location.ofDirectory root ++ [name]) = some contents →
      ∃ i, Wrote (crowd.events i) (Path.join root name) contents ∧
        admits i (crowd.events i) name contents

theorem inOrder_start {programs : Nat → StoreProgram β} {tree : Tree}
    (hconducts : ∀ i, (programs i).Conducts root may (admits i) (fun _ _ ↦ True) [])
    (hempty : ∀ name, names name →
      tree.files (Location.ofDirectory root ++ [name]) = none) :
    (start programs tree).InOrder root may admits names where
  conducts := hconducts
  agrees _ _ _ := nofun
  apart _ _ _ _ := .inl rfl
  published name contents hname hcontents := by
    rw [show (start programs tree).tree = tree from rfl, hempty name hname] at hcontents
    cases hcontents

/-- A change elsewhere is of no account. -/
theorem InOrder.elsewhere (horder : crowd.InOrder root may admits names) {changed : Tree}
    (hfiles : ∀ name, changed.files (Location.ofDirectory root ++ [name]) =
      crowd.tree.files (Location.ofDirectory root ++ [name])) :
    InOrder root may admits names { crowd with tree := changed } where
  conducts := horder.conducts
  agrees i location draft hdraft := by
    obtain ⟨⟨name, hname, rfl⟩, hheld⟩ := horder.agrees i location draft hdraft
    refine ⟨⟨name, hname, rfl⟩, ?_⟩
    rwa [hfiles name]
  apart := horder.apart
  published name contents hname hcontents := by
    rw [hfiles name] at hcontents
    exact horder.published name contents hname hcontents

section

variable (hnames : ∀ name, names name → name.toList.head? ≠ some '.')
  (hmono : ∀ i few many name contents, few <:+ many → admits i few name contents →
    admits i many name contents)
include hnames hmono

/-- An action of one writer leaves all writers in order. -/
theorem InOrder.acts (horder : crowd.InOrder root may admits names) {i : Nat} {action : Action}
    {next : action.Answer → StoreProgram β} {answer : action.Answer} {changed : Tree}
    (hleft : crowd.left i = .act action next)
    (hattempt : crowd.tree.Attempts may action answer changed) :
    (crowd.taken i ⟨action, answer⟩ changed (next answer)).InOrder root may admits names := by
  have hconducts := horder.conducts i
  rw [hleft] at hconducts
  obtain ⟨hproper, hnext⟩ := hconducts crowd.tree answer changed (horder.agrees i) hattempt
  have hshares := hproper.shares (horder.agrees i) hattempt
  -- what another writer has staged is neither changed nor taken over
  have hothers : ∀ j, j ≠ i → ∀ location draft, draftsOf (crowd.events j) location = some draft →
      changed.files location = crowd.tree.files location ∧
        draftsOf (⟨action, answer⟩ :: crowd.events i) location = none := by
    intro j hji location draft hdraft
    obtain ⟨⟨name, hname, rfl⟩, contents, hcontents, -⟩ := horder.agrees j location draft hdraft
    have hfree := (horder.apart i j _ hji.symm).resolve_right (by rw [hdraft]; exact nofun)
    exact hshares.spares name hname hfree (by rw [hcontents]; exact nofun)
  refine ⟨fun j ↦ ?_, fun j ↦ ?_, fun j k location hjk ↦ ?_, fun name contents hname hfile ↦ ?_⟩
  · by_cases hji : j = i
    · subst hji
      rwa [left_taken_self, events_taken_self]
    · rw [left_taken hji, events_taken hji]
      exact horder.conducts j
  · by_cases hji : j = i
    · subst hji
      rw [events_taken_self]
      exact hshares.agrees
    · intro location draft hdraft
      rw [events_taken hji] at hdraft
      rw [tree_taken, (hothers j hji location draft hdraft).1]
      exact horder.agrees j location draft hdraft
  · have hfree : ∀ m, m ≠ i → draftsOf (⟨action, answer⟩ :: crowd.events i) location = none ∨
        draftsOf (crowd.events m) location = none := by
      intro m hmi
      cases hdraft : draftsOf (crowd.events m) location with
      | none => exact .inr rfl
      | some draft => exact .inl (hothers m hmi location draft hdraft).2
    by_cases hji : j = i
    · subst hji
      rw [events_taken_self, events_taken hjk.symm]
      exact hfree k hjk.symm
    · rw [events_taken hji]
      by_cases hki : k = i
      · subst hki
        rw [events_taken_self]
        exact (hfree j hji).symm
      · rw [events_taken hki]
        exact horder.apart j k location hjk
  · rcases hshares.files name (hnames name hname) with
      hsame | hgone | ⟨written, hwritten, hwrote, hadmits⟩
    · obtain ⟨j, hwrote, hadmits⟩ := horder.published name contents hname (hsame.symm.trans hfile)
      exact ⟨j, hwrote.mono (events_suffix_taken j), hmono j _ _ _ _ (events_suffix_taken j) hadmits⟩
    · cases hfile.symm.trans hgone
    · obtain rfl := Option.some.inj (hwritten.symm.trans hfile)
      refine ⟨i, ?_⟩
      rw [events_taken_self]
      exact ⟨hwrote, hmono i _ _ _ _ (List.suffix_cons _ _) hadmits⟩

theorem InOrder.step (horder : crowd.InOrder root may admits names)
    (hstep : Step root may crowd later) : later.InOrder root may admits names := by
  cases hstep with
  | acts i hleft hattempt => exact horder.acts hnames hmono hleft hattempt
  | elsewhere hfiles => exact horder.elsewhere hfiles

end

end Crowd

/-! ## What a reader finds -/

namespace StoreProgram

variable {α β : Type} {found : Path → Bytes → Prop}

/-- The program leaves every file as it is, and its value has the property when all the files that
it opens are found. -/
def Finds (found : Path → Bytes → Prop) (property : α → Prop) : StoreProgram α → Prop
  | done value => property value
  | act action next => action.looks = true ∧ ∀ answer, (∀ path contents,
      (⟨action, answer⟩ : Event) = ⟨.fetch path, .ok (.file contents)⟩ → found path contents) →
        (next answer).Finds found property

theorem Finds.imp {first second : α → Prop} {program : StoreProgram α}
    (hprogram : program.Finds found first) (himp : ∀ value, first value → second value) :
    program.Finds found second := by
  induction program with
  | done value => exact himp value hprogram
  | act action next ih => exact ⟨hprogram.1, fun answer h ↦ ih answer (hprogram.2 answer h)⟩

theorem Finds.bind {property : β → Prop} {program : StoreProgram α} {next : α → StoreProgram β}
    (hprogram : program.Finds found fun value ↦ (next value).Finds found property) :
    (program >>= next).Finds found property := by
  induction program with
  | done value => exact hprogram
  | act action more ih => exact ⟨hprogram.1, fun answer h ↦ ih answer (hprogram.2 answer h)⟩

end StoreProgram

namespace IndexProgram

variable {α β : Type} {found : Path → Bytes → Prop} {good : α → Prop}

/-- The same for a program that may fail. -/
def Finds (found : Path → Bytes → Prop) (good : α → Prop) (program : IndexProgram α) : Prop :=
  StoreProgram.Finds found (fun result ↦ ∀ value, result = .ok value → good value)
    (ExceptT.run program)

theorem finds_imp {good' : α → Prop} {program : IndexProgram α}
    (hprogram : Finds found good program) (hgood : ∀ value, good value → good' value) :
    Finds found good' program :=
  StoreProgram.Finds.imp hprogram fun _ hresult value hvalue ↦ hgood value (hresult value hvalue)

theorem finds_pure {value : α} (hgood : good value) : Finds found good (pure value) := by
  rintro _ hvalue
  exact Except.ok.inj hvalue ▸ hgood

theorem finds_throw (error : IndexError) : Finds found good (throw error : IndexProgram α) :=
  fun _ ↦ nofun

theorem finds_ofExcept {result : Except IndexError α}
    (hgood : ∀ value, result = .ok value → good value) :
    Finds found good (ofExcept result) := hgood

theorem finds_bind {program : IndexProgram α} {next : α → IndexProgram β} {good : β → Prop}
    (hprogram : Finds found (fun value ↦ Finds found good (next value)) program) :
    Finds found good (program >>= next) := by
  unfold Finds
  rw [ExceptT.run_bind]
  refine StoreProgram.Finds.bind (StoreProgram.Finds.imp hprogram fun result hresult ↦ ?_)
  cases result with
  | ok value => exact hresult value rfl
  | error error => exact fun _ ↦ nofun

theorem finds_adapt {wrap : IndexError → IndexError} {program : IndexProgram α}
    (hprogram : Finds found good program) : Finds found good (ExceptT.adapt wrap program) := by
  refine StoreProgram.Finds.bind (StoreProgram.Finds.imp hprogram fun result hresult ↦ ?_)
  exact fun value hvalue ↦ hresult value (Result.mapError_ok.mp hvalue)

/-- Opening a file gives what is found there. -/
theorem finds_fetch (path : Path) :
    Finds found (fun answer ↦ ∀ contents, answer = .ok (.file contents) → found path contents)
      (perform (.fetch path)) := by
  refine ⟨rfl, fun answer hfound value hvalue contents hcontents ↦ hfound path contents ?_⟩
  rw [Except.ok.inj hvalue, hcontents]

theorem finds_readFile (path : Path) :
    Finds found (fun bytes ↦ found path bytes) (readFile path) := by
  unfold readFile
  apply finds_bind
  apply finds_imp (finds_fetch path)
  intro answer hfound
  apply finds_bind
  apply finds_ofExcept
  intro source hsource
  obtain rfl := Result.mapError_ok.mp hsource
  apply finds_ofExcept
  intro bytes hbytes
  cases source with
  | directory => cases hbytes
  | file contents => exact Except.ok.inj hbytes ▸ hfound contents rfl

end IndexProgram

namespace Crowd

variable {α β : Type} {root : Path} {may : Action → Bool}
  {admits : Nat → List Event → String → Bytes → Prop} {names : String → Prop}
  {crowd last : Crowd β}

/-- If the path is that of one of the names then a writer has published the contents there. -/
def Published (root : Path) (admits : Nat → List Event → String → Bytes → Prop)
    (names : String → Prop) (crowd : Crowd β) (path : Path) (contents : Bytes) : Prop :=
  ∀ name, Path.IsName name → names name → path = Path.join root name →
    ∃ i, Wrote (crowd.events i) path contents ∧ admits i (crowd.events i) name contents

theorem read_of_attempts {tree changed : Tree} {path : Path} {contents : Bytes}
    {answer : (Action.fetch path).Answer} (hattempt : tree.Attempts may (.fetch path) answer changed)
    (hanswer : answer = .ok (.file contents)) : tree.read path = .ok contents := by
  cases hattempt with
  | works => exact Tree.fetch_eq_ok.mp hanswer
  | fails _ hrefusal =>
    rw [hanswer] at hrefusal
    cases hrefusal
  | breaks _ haction => cases haction

/-- Whatever a reader opens was published by a writer. -/
theorem InOrder.finds (hnames : ∀ name, names name → name.toList.head? ≠ some '.')
    (hmono : ∀ i few many name contents, few <:+ many → admits i few name contents →
      admits i many name contents)
    (horder : crowd.InOrder root may admits names) {program : StoreProgram α} {value : α}
    (hreads : Reads root may crowd program value last) {property : α → Prop}
    (hfinds : program.Finds (last.Published root admits names) property) : property value := by
  induction hreads with
  | done => exact hfinds
  | moves hstep _ ih => exact ih (horder.step hnames hmono hstep) hfinds
  | @reads crowd last action next value answer changed hattempt hrest ih =>
    obtain ⟨hlooks, hnext⟩ := hfinds
    have hfiles := files_of_looks hlooks hattempt
    refine ih (horder.elsewhere fun name ↦ congrFun hfiles _) (hnext answer ?_)
    rintro path contents hevent name hname hcovered rfl
    cases hevent
    have hread := read_of_attempts hattempt rfl
    obtain ⟨i, hwrote, hadmits⟩ :=
      horder.published name contents hcovered ((Tree.read_join hname).mp hread).2
    have hlater := hrest.events_suffix i
    exact ⟨i, hwrote.mono hlater, hmono i _ _ _ _ hlater hadmits⟩

end Crowd
end VectorIndex
