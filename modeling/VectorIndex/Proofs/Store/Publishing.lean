import Mathlib.Logic.Relation
import VectorIndex.Proofs.Store.Sharing

/-!
# Programs on a store that others change

Others publish a file again and again while a program runs, and each time the file has a time of
modification that it never had before. The program notices nothing of it between two of its
actions, so what it has read may be of another version than what it reads next.
-/

namespace VectorIndex

/-- When what the path names was modified. -/
def Tree.modified? (tree : Tree) (path : Path) : Option Moment := (tree.answer (.modified path)).1

theorem Tree.modified?_of_lookup {tree : Tree} {path : Path} {contents : Bytes}
    {modified : Moment} (hfile : tree.lookup path = .ok (.file contents modified)) :
    tree.modified? path = some modified := by
  simp only [modified?, answer, hfile]

theorem Tree.modified?_congr {before after : Tree} {path : Path}
    (hsame : after.lookup path = before.lookup path) :
    after.modified? path = before.modified? path := by
  simp only [modified?, answer, hsame]

/-- A store, with every time of modification that one of its files has had. -/
structure Published where
  tree : Tree
  moments : List Moment

namespace Published

variable {path : Path} {before between after : Published}

/-- What others do: they publish the file anew, or leave it and change whatever else they like. -/
inductive Changes (path : Path) : Published → Published → Prop
  | leaves {before after : Tree} {moments : List Moment}
    (hsame : after.lookup path = before.lookup path) :
    Changes path ⟨before, moments⟩ ⟨after, moments⟩
  | publishes {before after : Tree} {moments : List Moment} {contents : Bytes} {modified : Moment}
    (hfile : after.lookup path = .ok (.file contents modified)) (hfresh : modified ∉ moments) :
    Changes path ⟨before, moments⟩ ⟨after, modified :: moments⟩

/-- Any number of changes. -/
def Later (path : Path) : Published → Published → Prop := Relation.ReflTransGen (Changes path)

/-- The time of the file is among those that it has had. -/
def Dated (path : Path) (now : Published) : Prop :=
  ∀ modified, now.tree.modified? path = some modified → modified ∈ now.moments

theorem Later.refl (now : Published) : Later path now now := Relation.ReflTransGen.refl

theorem Later.trans (hfirst : Later path before between) (hsecond : Later path between after) :
    Later path before after := Relation.ReflTransGen.trans hfirst hsecond

theorem Later.head (hchange : Changes path before between) (hlater : Later path between after) :
    Later path before after := Relation.ReflTransGen.head hchange hlater

/-- The times that the file has had are never forgotten. -/
theorem Later.suffix (hlater : Later path before after) : before.moments <:+ after.moments := by
  induction hlater with
  | refl => exact List.suffix_refl _
  | tail _ hchange ih =>
    cases hchange with
    | leaves => exact ih
    | publishes => exact ih.trans (List.suffix_cons _ _)

theorem Later.dated (hlater : Later path before after) (hdated : before.Dated path) :
    after.Dated path := by
  induction hlater with
  | refl => exact hdated
  | tail _ hchange ih =>
    cases hchange with
    | leaves hsame =>
      intro modified hmodified
      exact ih modified ((Tree.modified?_congr hsame).symm.trans hmodified)
    | publishes hfile =>
      intro modified hmodified
      rw [Tree.modified?_of_lookup hfile, Option.some.injEq] at hmodified
      exact hmodified ▸ List.mem_cons_self

/-- Once the file is there, it stays there. -/
theorem Later.exists_file (hlater : Later path before after)
    (hfile : ∃ contents modified, before.tree.lookup path = .ok (.file contents modified)) :
    ∃ contents modified, after.tree.lookup path = .ok (.file contents modified) := by
  induction hlater with
  | refl => exact hfile
  | tail _ hchange ih =>
    cases hchange with
    | leaves hsame => simpa only [hsame] using ih
    | publishes hpublished => exact ⟨_, _, hpublished⟩

/-- When the file has had no other time since, it is the same file. -/
theorem Later.lookup_eq (hlater : Later path before after)
    (hquiet : after.moments = before.moments) :
    after.tree.lookup path = before.tree.lookup path := by
  induction hlater with
  | refl => rfl
  | tail hearlier hchange ih =>
    cases hchange with
    | leaves hsame => exact hsame.trans (ih hquiet)
    | publishes =>
      -- A publish leaves more times than there were before it.
      have hlength := (Later.suffix hearlier).length_le
      have hlonger := congrArg List.length hquiet
      rw [List.length_cons] at hlonger
      exact absurd hlength (by rw [← hlonger]; exact Nat.not_succ_le_self _)

/-- There was no publish before some point when there was none until later. -/
theorem Later.moments_between (hfirst : Later path before between)
    (hsecond : Later path between after) (hquiet : after.moments = before.moments) :
    between.moments = before.moments := by
  have hle := hsecond.suffix.length_le
  rw [hquiet] at hle
  exact (hfirst.suffix.eq_of_length_le hle).symm

/-- When the file has one of the times that it had, there was no publish. -/
theorem Later.moments_eq (hlater : Later path before after) {modified : Moment}
    (hbefore : modified ∈ before.moments) (hafter : after.tree.modified? path = some modified) :
    after.moments = before.moments := by
  -- After a publish the file has another time for good, since no time comes back.
  have hcases : after.moments = before.moments ∨ after.tree.modified? path ≠ some modified := by
    clear hafter
    induction hlater with
    | refl => exact .inl rfl
    | tail hearlier hchange ih =>
      cases hchange with
      | leaves hsame => rwa [Tree.modified?_congr hsame]
      | publishes hfile hfresh =>
        refine .inr fun hsame ↦ ?_
        rw [Tree.modified?_of_lookup hfile, Option.some.injEq] at hsame
        exact hfresh (hsame ▸ (Later.suffix hearlier).mem hbefore)
  exact hcases.resolve_right (not_not_intro hafter)

end Published

/-! ## Programs amid changes -/

section

open Published (Changes Later)

variable {α β : Type} {path : Path} {before after : Published} {value : α}

/-- The program ends with a value when others may change the store before each of its actions and
after the last one. -/
inductive StoreProgram.Amid (path : Path) :
    StoreProgram α → Published → α → Published → Prop
  | done (value : α) (now : Published) : Amid path (.done value) now value now
  | changes {program : StoreProgram α} {before between after : Published} {value : α}
    (hchange : Changes path before between) (hrest : Amid path program between value after) :
    Amid path program before value after
  | acts {action : Action} {next : action.Answer → StoreProgram α} {before after : Published}
    {value : α} (hrest : Amid path (next (before.tree.answer action).1)
      ⟨(before.tree.answer action).2, before.moments⟩ value after) :
    Amid path (.act action next) before value after

namespace StoreProgram

theorem Amid.pure {given : α}
    (hamid : (Pure.pure given : StoreProgram α).Amid path before value after) :
    value = given ∧ Later path before after := by
  generalize hprogram : (Pure.pure given : StoreProgram α) = program at hamid
  induction hamid with
  | done value now =>
    cases hprogram
    exact ⟨rfl, .refl _⟩
  | changes hchange _ ih => exact ⟨(ih hprogram).1, .head hchange (ih hprogram).2⟩
  | acts => cases hprogram

/-- One action that reads, and what follows it. -/
theorem Amid.reads {action : Action} {next : action.Answer → StoreProgram α}
    (hreads : ∀ tree : Tree, (tree.answer action).2 = tree)
    (hamid : (act action next).Amid path before value after) :
    ∃ at_, Later path before at_ ∧
      (next (at_.tree.answer action).1).Amid path at_ value after := by
  generalize hprogram : act action next = program at hamid
  induction hamid with
  | done => cases hprogram
  | changes hchange _ ih =>
    obtain ⟨at_, hlater, hrest⟩ := ih hprogram
    exact ⟨at_, .head hchange hlater, hrest⟩
  | acts hrest =>
    cases hprogram
    rw [hreads] at hrest
    exact ⟨_, .refl _, hrest⟩

theorem Amid.bind {program : StoreProgram β} {next : β → StoreProgram α}
    (hamid : (program >>= next).Amid path before value after) :
    ∃ given between, program.Amid path before given between ∧
      (next given).Amid path between value after := by
  generalize hwhole : program >>= next = whole at hamid
  induction hamid generalizing program with
  | done value now =>
    cases program with
    | done given =>
      have hnext : next given = _ := hwhole
      exact ⟨given, now, .done given now, hnext ▸ .done value now⟩
    | act action more => cases hwhole
  | changes hchange _ ih =>
    obtain ⟨given, between, hfirst, hsecond⟩ := ih hwhole
    exact ⟨given, between, .changes hchange hfirst, hsecond⟩
  | acts hrest ih =>
    cases program with
    | done given =>
      have hnext : next given = _ := hwhole
      exact ⟨given, _, .done given _, hnext ▸ .acts hrest⟩
    | act action more =>
      cases hwhole
      obtain ⟨given, between, hfirst, hsecond⟩ := ih rfl
      exact ⟨given, between, .acts hfirst, hsecond⟩

/-- A program that only reads leaves the changes to others. -/
theorem OnlyReads.later {program : StoreProgram α} (hreads : program.OnlyReads)
    (hamid : program.Amid path before value after) : Later path before after := by
  induction hamid with
  | done value now => exact .refl now
  | changes hchange _ ih => exact .head hchange (ih hreads)
  | acts _ ih =>
    have hrest := ih (hreads.2 _)
    rw [hreads.1] at hrest
    exact hrest

/-- A program that nothing disturbs. -/
theorem OnlyReads.amid {program : StoreProgram α} (hreads : program.OnlyReads) {now : Published}
    (hvalue : (program.run now.tree).1 = value) : program.Amid path now value now := by
  induction program with
  | done given =>
    obtain rfl : given = value := hvalue
    exact .done given now
  | act action next ih =>
    have hsame := hreads.1 now.tree
    change ((next (now.tree.answer action).1).run (now.tree.answer action).2).1 = value at hvalue
    refine .acts ?_
    rw [hsame] at hvalue ⊢
    exact ih _ (hreads.2 _) hvalue

end StoreProgram

/-! ## Programs that may fail -/

namespace IndexProgram

/-- The program succeeds with a value while others change the store. -/
def Amid (path : Path) (program : IndexProgram α) (before : Published) (value : α)
    (after : Published) : Prop :=
  (ExceptT.run program).Amid path before (.ok value) after

theorem amid_pure {given : α} (hamid : Amid path (pure given) before value after) :
    value = given ∧ Later path before after := by
  obtain ⟨hvalue, hlater⟩ := StoreProgram.Amid.pure hamid
  exact ⟨Except.ok.inj hvalue, hlater⟩

theorem amid_ofExcept {result : Except IndexError α}
    (hamid : Amid path (ofExcept result) before value after) :
    result = .ok value ∧ Later path before after := by
  obtain ⟨hvalue, hlater⟩ := StoreProgram.Amid.pure hamid
  exact ⟨hvalue.symm, hlater⟩

theorem amid_bind {program : IndexProgram β} {next : β → IndexProgram α}
    (hamid : Amid path (program >>= next) before value after) :
    ∃ given between, Amid path program before given between ∧
      Amid path (next given) between value after := by
  unfold Amid at hamid
  rw [ExceptT.run_bind] at hamid
  obtain ⟨result, between, hfirst, hsecond⟩ := hamid.bind
  cases result with
  | ok given => exact ⟨given, between, hfirst, hsecond⟩
  | error error =>
    obtain ⟨herror, -⟩ := StoreProgram.Amid.pure hsecond
    cases herror

theorem amid_adapt {wrap : IndexError → IndexError} {program : IndexProgram α}
    (hamid : Amid path (ExceptT.adapt wrap program) before value after) :
    ∃ between, Amid path program before value between ∧ Later path between after := by
  obtain ⟨result, between, hfirst, hsecond⟩ := StoreProgram.Amid.bind hamid
  obtain ⟨hresult, hlater⟩ := hsecond.pure
  obtain rfl := Result.mapError_ok.mp hresult.symm
  exact ⟨between, hfirst, hlater⟩

theorem amid_check {toError : StoreFault → IndexError} {answer : Except StoreFault α}
    (hamid : Amid path (check toError answer) before value after) :
    answer = .ok value ∧ Later path before after := by
  obtain ⟨hvalue, hlater⟩ := StoreProgram.Amid.pure hamid
  exact ⟨Result.mapError_ok.mp hvalue.symm, hlater⟩

theorem amid_perform {action : Action} (hreads : ∀ tree : Tree, (tree.answer action).2 = tree)
    {answer : action.Answer} (hamid : Amid path (perform action) before answer after) :
    ∃ at_, Later path before at_ ∧ Later path at_ after ∧
      answer = (at_.tree.answer action).1 := by
  obtain ⟨at_, hlater, hrest⟩ := StoreProgram.Amid.reads hreads hamid
  obtain ⟨hanswer, hrest⟩ := StoreProgram.Amid.pure hrest
  exact ⟨at_, hlater, hrest, Except.ok.inj hanswer⟩

/-- A file is read at one moment. -/
theorem amid_readFile {source : Path} {bytes : Bytes}
    (hamid : Amid path (readFile source) before bytes after) :
    ∃ at_, Later path before at_ ∧ Later path at_ after ∧
      at_.tree.read source = .ok bytes := by
  obtain ⟨answer, first, hfetch, hamid₁⟩ := amid_bind hamid
  obtain ⟨found, second, hfound, hamid₂⟩ := amid_bind hamid₁
  obtain ⟨at_, hbefore, hfirst, rfl⟩ := amid_perform (fun _ ↦ rfl) hfetch
  obtain ⟨hanswer, hsecond⟩ := amid_check hfound
  obtain ⟨hbytes, hafter⟩ := amid_check hamid₂
  cases found with
  | directory => cases hbytes
  | file contents =>
    obtain rfl := Except.ok.inj hbytes
    exact ⟨at_, hbefore, hfirst.trans (hsecond.trans hafter), Tree.fetch_eq_ok.mp hanswer⟩

end IndexProgram
end
end VectorIndex
