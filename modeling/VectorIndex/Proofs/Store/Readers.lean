import VectorIndex.Proofs.Store.Faults

/-!
# Readers beside a writer

A reader that opens certain files one after the other sees each of them at its own time. When they
are on every store that it may meet as on one store, it returns what it returns there.
-/

namespace VectorIndex

namespace StoreProgram

variable {α β : Type}

/-- The value is what the reader may return when a writer takes any of its actions in between. -/
inductive Meets (may : Action → Bool) :
    StoreProgram α → StoreProgram β → Tree → β → Prop
  | done (writer : StoreProgram α) (value : β) (tree : Tree) :
    Meets may writer (.done value) tree value
  | reads {writer : StoreProgram α} {action : Action} {next : action.Answer → StoreProgram β}
    {tree : Tree} {value : β}
    (hrest : Meets may writer (next (tree.answer action).1) (tree.answer action).2 value) :
    Meets may writer (.act action next) tree value
  | writes {action : Action} {next : action.Answer → StoreProgram α} {reader : StoreProgram β}
    {tree changed : Tree} {answer : action.Answer} {value : β}
    (hattempt : tree.Attempts may action answer changed)
    (hrest : Meets may (next answer) reader changed value) :
    Meets may (.act action next) reader tree value

/-- On the store the program opens the paths one after the other, and does nothing else. -/
def Consults (tree : Tree) : List Path → StoreProgram α → Prop
  | [], done _ => True
  | path :: rest, act action next =>
    action = .fetch path ∧ (next (tree.answer action).1).Consults tree rest
  | _, _ => False

theorem Consults.bind {tree : Tree} {first second : List Path} {program : StoreProgram α}
    {next : α → StoreProgram β} (hprogram : program.Consults tree first)
    (hnext : (next (program.run tree).1).Consults tree second) :
    (program >>= next).Consults tree (first ++ second) := by
  induction first generalizing program with
  | nil =>
    cases program with
    | done value => exact hnext
    | act action more => exact hprogram.elim
  | cons path rest ih =>
    cases program with
    | done value => exact hprogram.elim
    | act action more =>
      obtain ⟨rfl, hmore⟩ := hprogram
      exact ⟨rfl, ih hmore hnext⟩

/-- A reader that meets the files of one store returns what it returns there. -/
theorem Meets.eq_run {watch : Watch} {property : α → Bool → Tree → Prop} {writer : StoreProgram α}
    {reader : StoreProgram β} {committed : Bool} {tree current : Tree} {paths : List Path}
    {value : β} (hmeets : writer.Meets watch.may reader current value)
    (hwriter : writer.Withstands watch property committed current)
    (hsafe : watch.safe committed current) (hreader : reader.Consults tree paths)
    (hsame : ∀ later final, committed ≤ later → watch.safe later final → ∀ path ∈ paths,
      (final.answer (.fetch path)).1 = (tree.answer (.fetch path)).1) :
    value = (reader.run tree).1 := by
  induction hmeets generalizing committed paths with
  | done writer value current => rfl
  | reads hrest ih =>
    cases paths with
    | nil => exact hreader.elim
    | cons path rest =>
      obtain ⟨rfl, hnext⟩ := hreader
      have hanswer := hsame committed _ (Bool.le_refl _) hsafe path List.mem_cons_self
      rw [hanswer] at ih
      exact ih hwriter hsafe hnext fun later final hle hlater other hother ↦
        hsame later final hle hlater other (List.mem_cons_of_mem _ hother)
  | writes hattempt hrest ih =>
    obtain ⟨hsafe, hwriter⟩ := hwriter _ _ hattempt
    refine ih hwriter hsafe hreader fun later final hle ↦ hsame later final ?_
    exact fun hcommitted ↦ hle (by rw [hcommitted, Bool.true_or])

end StoreProgram

namespace IndexProgram

variable {α β : Type} {tree : Tree}

/-- The same for a program that may fail. -/
def Consults (tree : Tree) (paths : List Path) (program : IndexProgram α) : Prop :=
  StoreProgram.Consults tree paths (ExceptT.run program)

theorem consults_ofExcept (result : Except IndexError α) :
    Consults tree [] (ofExcept result) := trivial

theorem consults_readFile (path : Path) : Consults tree [path] (readFile path) := by
  refine ⟨rfl, ?_⟩
  cases (tree.answer (.fetch path)).1 with
  | error fault => trivial
  | ok source => cases source <;> trivial

/-- What follows a part that succeeds is consulted after it. -/
theorem consults_bind {first second : List Path} {program : IndexProgram α}
    {next : α → IndexProgram β} {value : α} (hprogram : Consults tree first program)
    (hvalue : program.runOn tree = (.ok value, tree)) (hnext : Consults tree second (next value)) :
    Consults tree (first ++ second) (program >>= next) := by
  unfold Consults
  rw [ExceptT.run_bind]
  apply StoreProgram.Consults.bind hprogram
  rw [show (StoreProgram.run (ExceptT.run program) tree).1 = .ok value from
    congrArg Prod.fst hvalue]
  exact hnext

theorem consults_adapt {wrap : IndexError → IndexError} {paths : List Path}
    {program : IndexProgram α} (hprogram : Consults tree paths program) :
    Consults tree paths (ExceptT.adapt wrap program) := by
  show StoreProgram.Consults tree paths
    (ExceptT.run program >>= fun result ↦ pure (result.mapError wrap))
  rw [← paths.append_nil]
  exact StoreProgram.Consults.bind hprogram trivial

end IndexProgram

end VectorIndex
