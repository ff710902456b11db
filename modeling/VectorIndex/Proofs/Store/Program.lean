import VectorIndex.Proofs.Result
import VectorIndex.Proofs.Store.Tree

/-!
# Running programs

What a program does on a tree is put together from what its parts do. A property of everything a
program may return, whatever the store answers, is put together in the same way.
-/

namespace VectorIndex

namespace StoreProgram

variable {α β : Type}

theorem run_perform (action : Action) (tree : Tree) :
    (perform action).run tree = tree.answer action := rfl

theorem run_map (f : α → β) (program : StoreProgram α) (tree : Tree) :
    (f <$> program).run tree = (f (program.run tree).1, (program.run tree).2) := by
  rw [map_eq_pure_bind, run_bind]
  rfl

/-- The property holds of the value that the program returns, whatever the store answers. -/
def Always (property : α → Prop) : StoreProgram α → Prop
  | done value => property value
  | act _ next => ∀ answer, (next answer).Always property

theorem Always.of_forall {property : α → Prop} (hall : ∀ value, property value)
    (program : StoreProgram α) : program.Always property := by
  induction program with
  | done value => exact hall value
  | act action next ih => exact ih

theorem Always.bind {program : StoreProgram α} {next : α → StoreProgram β} {property : β → Prop}
    (hprogram : program.Always fun value ↦ (next value).Always property) :
    (program >>= next).Always property := by
  induction program with
  | done value => exact hprogram
  | act action more ih => exact fun answer ↦ ih answer (hprogram answer)

theorem Always.run {program : StoreProgram α} {property : α → Prop}
    (hprogram : program.Always property) (tree : Tree) : property (program.run tree).1 := by
  induction program generalizing tree with
  | done value => exact hprogram
  | act action next ih => exact ih _ (hprogram _) _

end StoreProgram

namespace IndexProgram

variable {α β : Type}

/-- The result of a program on a tree, and the tree it leaves. -/
def runOn (program : IndexProgram α) (tree : Tree) : Except IndexError α × Tree :=
  StoreProgram.run (ExceptT.run program) tree

@[simp] theorem runOn_pure (value : α) (tree : Tree) :
    (pure value : IndexProgram α).runOn tree = (.ok value, tree) := rfl

@[simp] theorem runOn_throw (error : IndexError) (tree : Tree) :
    (throw error : IndexProgram α).runOn tree = (.error error, tree) := rfl

@[simp] theorem runOn_perform (action : Action) (tree : Tree) :
    (perform action).runOn tree = (.ok (tree.answer action).1, (tree.answer action).2) := rfl

@[simp] theorem runOn_ofExcept (result : Except IndexError α) (tree : Tree) :
    (ofExcept result).runOn tree = (result, tree) := rfl

@[simp] theorem runOn_check (toError : StoreFault → IndexError) (answer : Except StoreFault α)
    (tree : Tree) : (check toError answer).runOn tree = (answer.mapError toError, tree) := rfl

@[simp] theorem runOn_lift (program : StoreProgram α) (tree : Tree) :
    runOn (ExceptT.lift program) tree = (.ok (program.run tree).1, (program.run tree).2) := by
  unfold runOn ExceptT.lift
  rw [ExceptT.run_mk, StoreProgram.run_map]

theorem run_attempt (program : IndexProgram α) (tree : Tree) :
    StoreProgram.run program.attempt tree = program.runOn tree := rfl

theorem runOn_bind (program : IndexProgram α) (next : α → IndexProgram β) (tree : Tree) :
    (program >>= next).runOn tree =
      match program.runOn tree with
      | (.ok value, changed) => (next value).runOn changed
      | (.error error, changed) => (.error error, changed) := by
  unfold runOn
  rw [ExceptT.run_bind, StoreProgram.run_bind]
  rcases StoreProgram.run (ExceptT.run program) tree with ⟨result, changed⟩
  cases result <;> rfl

/-- A sequence succeeds when both parts do. -/
theorem runOn_bind_ok {program : IndexProgram α} {next : α → IndexProgram β} {tree last : Tree}
    {value : β} :
    (program >>= next).runOn tree = (.ok value, last) ↔
      ∃ between changed, program.runOn tree = (.ok between, changed) ∧
        (next between).runOn changed = (.ok value, last) := by
  rw [runOn_bind]
  rcases program.runOn tree with ⟨result, changed⟩
  cases result with
  | error error => simp
  | ok between =>
    simp only [Prod.mk.injEq, Except.ok.injEq]
    exact ⟨fun hnext ↦ ⟨between, changed, ⟨rfl, rfl⟩, hnext⟩,
      fun ⟨_, _, ⟨hbetween, hchanged⟩, hnext⟩ ↦ hbetween ▸ hchanged ▸ hnext⟩

theorem runOn_adapt (wrap : IndexError → IndexError) (program : IndexProgram α) (tree : Tree) :
    runOn (ExceptT.adapt wrap program) tree =
      ((program.runOn tree).1.mapError wrap, (program.runOn tree).2) := by
  unfold runOn ExceptT.adapt
  rw [ExceptT.run_mk, StoreProgram.run_map]
  rfl

/-- A program with a cleanup succeeds as the program alone does. -/
theorem runOn_onFailure_ok {program : IndexProgram α} {cleanup : StoreProgram Unit}
    {tree last : Tree} {value : α} :
    (onFailure program cleanup).runOn tree = (.ok value, last) ↔
      program.runOn tree = (.ok value, last) := by
  unfold runOn onFailure
  rw [ExceptT.run_mk, StoreProgram.run_bind, run_attempt]
  unfold runOn
  rcases StoreProgram.run (ExceptT.run program) tree with ⟨result, changed⟩
  cases result with
  | ok between => rfl
  | error error => simp [StoreProgram.run_map]

theorem runOn_pure_ok {given value : α} {tree last : Tree} :
    (pure given : IndexProgram α).runOn tree = (.ok value, last) ↔ given = value ∧ tree = last := by
  simp

theorem runOn_ofExcept_ok {result : Except IndexError α} {value : α} {tree last : Tree} :
    (ofExcept result).runOn tree = (.ok value, last) ↔ result = .ok value ∧ tree = last := by
  simp

theorem exists_runOn_ok {program : IndexProgram α} {tree : Tree}
    (hok : (program.runOn tree).1.isOk = true) :
    ∃ value changed, program.runOn tree = (.ok value, changed) := by
  generalize program.runOn tree = result at hok ⊢
  obtain ⟨result, changed⟩ := result
  cases result with
  | error error => cases hok
  | ok value => exact ⟨value, changed, rfl⟩

theorem runOn_lift_ok {program : StoreProgram α} {value : α} {tree last : Tree} :
    runOn (ExceptT.lift program) tree = (.ok value, last) ↔
      (program.run tree).1 = value ∧ (program.run tree).2 = last := by
  rw [runOn_lift, Prod.mk.injEq, Except.ok.injEq]

section

variable {action : Action} {γ : Type} {answer : action.Answer → Except StoreFault γ}
  {toError : StoreFault → IndexError} {tree last : Tree}

/-- A checked action succeeds when the store answers well. -/
theorem perform_check_ok {value : γ} :
    (perform action >>= fun given ↦ check toError (answer given)).runOn tree = (.ok value, last) ↔
      answer (tree.answer action).1 = .ok value ∧ (tree.answer action).2 = last := by
  rw [runOn_bind, runOn_perform]
  simp only [runOn_check, Prod.mk.injEq]
  cases answer (tree.answer action).1 with
  | error fault => simp
  | ok given => simp

theorem perform_check_bind_ok {next : γ → IndexProgram β} {value : β} :
    (perform action >>= fun given ↦ check toError (answer given) >>= next).runOn tree =
        (.ok value, last) ↔
      ∃ between, answer (tree.answer action).1 = .ok between ∧
        (next between).runOn (tree.answer action).2 = (.ok value, last) := by
  rw [runOn_bind, runOn_perform]
  simp only [runOn_bind, runOn_check]
  cases answer (tree.answer action).1 with
  | error fault => simp
  | ok given => simp

end

/-! ## Errors -/

/-- Whatever the store answers, an error that the program raises is one of `errors`. -/
def Raises (errors : IndexError → Prop) (program : IndexProgram α) : Prop :=
  StoreProgram.Always (fun result ↦ ∀ error, result = .error error → errors error)
    (ExceptT.run program)

variable {errors : IndexError → Prop}

theorem raises_pure (value : α) : Raises errors (pure value : IndexProgram α) :=
  fun _ herror ↦ nomatch herror

theorem raises_throw {error : IndexError} (herror : errors error) :
    Raises errors (throw error : IndexProgram α) :=
  fun _ hsame ↦ Except.error.inj hsame ▸ herror

theorem raises_ofExcept {result : Except IndexError α}
    (hresult : ∀ error, result = .error error → errors error) : Raises errors (ofExcept result) :=
  hresult

theorem raises_check {toError : StoreFault → IndexError} (hall : ∀ fault, errors (toError fault))
    (answer : Except StoreFault α) : Raises errors (check toError answer) := by
  apply raises_ofExcept
  intro error herror
  cases answer with
  | ok value => cases herror
  | error fault =>
    cases herror
    exact hall fault

theorem raises_perform (action : Action) : Raises errors (perform action) :=
  fun _ _ herror ↦ nomatch herror

theorem raises_lift (program : StoreProgram α) :
    Raises errors (ExceptT.lift program : IndexProgram α) := by
  unfold Raises ExceptT.lift
  rw [ExceptT.run_mk, map_eq_pure_bind]
  apply StoreProgram.Always.bind
  exact StoreProgram.Always.of_forall (fun value error herror ↦ nomatch herror) program

theorem raises_bind {program : IndexProgram α} {next : α → IndexProgram β}
    (hprogram : Raises errors program) (hnext : ∀ value, Raises errors (next value)) :
    Raises errors (program >>= next) := by
  unfold Raises at *
  rw [ExceptT.run_bind]
  apply StoreProgram.Always.bind
  generalize ExceptT.run program = given at hprogram
  induction given with
  | done result =>
    cases result with
    | ok value => exact hnext value
    | error error => exact fun _ herror ↦ hprogram _ (by rw [Except.error.inj herror])
  | act action more ih => exact fun answer ↦ ih answer (hprogram answer)

theorem raises_onFailure {program : IndexProgram α} (hprogram : Raises errors program)
    (cleanup : StoreProgram Unit) : Raises errors (onFailure program cleanup) := by
  unfold Raises onFailure attempt at *
  rw [ExceptT.run_mk]
  apply StoreProgram.Always.bind
  generalize ExceptT.run program = given at hprogram
  induction given with
  | done result =>
    cases result with
    | ok value => exact hprogram
    | error error =>
      apply StoreProgram.Always.bind
      exact StoreProgram.Always.of_forall (fun _ ↦ hprogram) cleanup
  | act action more ih => exact fun answer ↦ ih answer (hprogram answer)

theorem Raises.runOn {program : IndexProgram α} (hprogram : Raises errors program) {tree : Tree}
    {error : IndexError} (herror : (program.runOn tree).1 = .error error) : errors error :=
  StoreProgram.Always.run hprogram tree error herror

end IndexProgram

/-! ## Reading a file -/

namespace Tree

/-- The bytes of the file that a path names, or why they cannot be read. -/
def read (tree : Tree) (path : Path) : Except IndexError Bytes :=
  match tree.lookup path with
  | .ok (.file contents _) => .ok contents
  | .ok .directory => .error (.fileRead path .isADirectory)
  | .error fault => .error (.fileRead path fault)

theorem answer_fetch (tree : Tree) (path : Path) :
    tree.answer (.fetch path) = (match tree.lookup path with
      | .ok (.file contents _) => .ok (.file contents)
      | .ok .directory => .ok .directory
      | .error fault => .error fault, tree) := rfl

theorem answer_inspect (tree : Tree) (path : Path) :
    (tree.answer (.inspect path)).1 = match tree.lookup path with
      | .ok (.file ..) => some .file
      | .ok .directory => some .directory
      | .error _ => none := rfl

theorem fetch_eq_ok {tree : Tree} {path : Path} {contents : Bytes} :
    (tree.answer (.fetch path)).1 = .ok (.file contents) ↔ tree.read path = .ok contents := by
  rw [answer_fetch]
  unfold read
  cases tree.lookup path with
  | error fault => simp
  | ok entry =>
    cases entry with
    | file held modified => simp
    | directory => simp

theorem read_ok {tree : Tree} {path : Path} {contents : Bytes} :
    tree.read path = .ok contents ↔ ∃ modified, tree.lookup path = .ok (.file contents modified) := by
  unfold read
  cases tree.lookup path with
  | error fault => simp
  | ok entry =>
    cases entry with
    | file held modified => simp
    | directory => simp

/-- A file in a directory can be read when the directory is there and holds it. -/
theorem read_eq_ok {tree : Tree} {path : Path} {directory : Location} {name : String}
    {contents : Bytes} (hpath : Location.ofPath path = some (directory ++ [name]))
    (hslash : Path.endsWithSlash path = false) :
    tree.read path = .ok contents ↔
      tree.IsDirectory directory ∧ tree.files (directory ++ [name]) = some contents := by
  rw [read_ok, ← above_name directory name, files_eq_some, ← exists_and_left]
  apply exists_congr
  intro modified
  rw [lookup_eq_ok hpath]
  simp [hslash]

/-- A file reads as before where nothing is altered. -/
theorem Alters.read {before after : Tree} {places : Location → Prop}
    (halters : before.Alters after places) {path : Path} {contents : Bytes}
    (hread : before.read path = .ok contents)
    (hplace : ∀ location, Location.ofPath path = some location → ¬ places location) :
    after.read path = .ok contents := by
  obtain ⟨modified, hlookup⟩ := read_ok.mp hread
  cases hpath : Location.ofPath path with
  | none => simp [lookup, hpath, throw, throwThe, MonadExceptOf.throw] at hlookup
  | some location =>
    obtain ⟨habove, hfind, hslash⟩ := (lookup_eq_ok hpath).mp hlookup
    have hfile : after.files location = some contents := by
      rw [halters.files_eq location (hplace location hpath)]
      exact files_eq_some.mpr ⟨modified, hfind⟩
    obtain ⟨later, hlater⟩ := files_eq_some.mp hfile
    refine read_ok.mpr ⟨later, (lookup_eq_ok hpath).mpr ⟨halters.above habove, hlater, ?_⟩⟩
    intro hending
    cases hslash hending

/-- The passing of time does not change what can be read. -/
theorem read_tick_ok {tree : Tree} {path : Path} {contents : Bytes} :
    tree.tick.read path = .ok contents ↔ tree.read path = .ok contents := by
  have hforth : tree.tick.Alters tree fun _ ↦ False := ⟨fun _ _ ↦ rfl, fun _ h ↦ h⟩
  have hback : tree.Alters tree.tick fun _ ↦ False := ⟨fun _ _ ↦ rfl, fun _ h ↦ h⟩
  exact ⟨fun h ↦ hforth.read h fun _ _ ↦ id, fun h ↦ hback.read h fun _ _ ↦ id⟩

/-- The same for the path that joins the directory and the name. -/
theorem read_join {tree : Tree} {directory : Path} {name : String} (hname : Path.IsName name)
    {contents : Bytes} :
    tree.read (Path.join directory name) = .ok contents ↔
      tree.IsDirectory (Location.ofDirectory directory) ∧
        tree.files (Location.ofDirectory directory ++ [name]) = some contents :=
  read_eq_ok (Location.ofPath_join directory hname) (Path.endsWithSlash_join directory hname)

theorem lookup_directory {tree : Tree} {path : Path} {location : Location}
    (hpath : Location.ofPath path = some location) (hdirectory : tree.IsDirectory location) :
    tree.lookup path = .ok .directory :=
  (lookup_eq_ok hpath).mpr ⟨fun count _ ↦ hdirectory count, hdirectory.find?, fun _ ↦ rfl⟩

/-- A directory lists the names of everything that it holds, and no others. -/
theorem exists_list {tree : Tree} {path : Path} {location : Location}
    (hpath : Location.ofPath path = some location) (hdirectory : tree.IsDirectory location) :
    ∃ names, tree.list path = .ok names ∧
      ∀ name, name ∈ names ↔ tree.find? (location ++ [name]) ≠ none := by
  unfold list
  simp only [lookup_directory hpath hdirectory, hpath]
  refine ⟨_, rfl, fun name ↦ ?_⟩
  have hheld : tree.find? (location ++ [name]) ≠ none ↔
      ∃ entry ∈ tree.entries, entry.1 = location ++ [name] := by
    unfold find?
    rw [if_neg (by simp), ne_eq, Option.map_eq_none_iff, List.find?_eq_none]
    simp
  rw [hheld, List.mem_filterMap]
  constructor
  · rintro ⟨⟨found, entry⟩, hentry, hname⟩
    dsimp only at hname
    split at hname
    · next hwithin =>
      obtain ⟨front, rfl⟩ := List.getLast?_eq_some_iff.mp hname
      rw [List.dropLast_concat] at hwithin
      exact ⟨_, hentry, by rw [hwithin.2]⟩
    · cases hname
  · rintro ⟨⟨found, entry⟩, hentry, rfl⟩
    exact ⟨_, hentry, by simp⟩

theorem inspect_isSome_of_read {tree : Tree} {path : Path} {contents : Bytes}
    (hread : tree.read path = .ok contents) : (tree.answer (.inspect path)).1.isSome := by
  rw [answer_inspect]
  unfold read at hread
  cases hlookup : tree.lookup path with
  | error fault => simp [hlookup] at hread
  | ok entry => cases entry <;> rfl

/-- A file can still be read when its bytes have stayed. -/
theorem Becomes.read_eq_ok {before after : Tree} {files : Files} {path : Path}
    {directory : Location} {name : String} {contents : Bytes}
    (hbecomes : before.Becomes after files)
    (hpath : Location.ofPath path = some (directory ++ [name]))
    (hslash : Path.endsWithSlash path = false) (hdirectory : before.IsDirectory directory)
    (hcontents : files (directory ++ [name]) = some contents) :
    after.read path = .ok contents :=
  (Tree.read_eq_ok hpath hslash).mpr
    ⟨hbecomes.directories directory hdirectory, hbecomes.files_eq ▸ hcontents⟩

end Tree

namespace IndexProgram

theorem runOn_readFile (path : Path) (tree : Tree) :
    (readFile path).runOn tree = (tree.read path, tree) := by
  unfold readFile Tree.read
  rw [runOn_bind, runOn_perform, Tree.answer_fetch]
  cases tree.lookup path with
  | error fault => rfl
  | ok entry =>
    cases entry with
    | file contents modified => rfl
    | directory => rfl

end IndexProgram
end VectorIndex
