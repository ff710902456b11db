/-!
# Results of checks

A chain of checks succeeds when each of them does, and its error is the error of one of them.
-/

namespace VectorIndex.Result

variable {ε δ α β : Type}

@[simp] theorem ok_mapError (toError : ε → δ) (value : α) :
    (Except.ok value).mapError toError = .ok value := rfl

@[simp] theorem error_mapError (toError : ε → δ) (error : ε) :
    (Except.error error : Except ε α).mapError toError = .error (toError error) := rfl

/-- A check that throws is passed when its condition fails. -/
theorem guard_ok {condition : Prop} [Decidable condition] {error : ε} {rest : Except ε α}
    {stop : PUnit → Except ε α} {value : α} :
    (if condition then (throw error : Except ε PUnit) >>= stop else rest) = .ok value ↔
      ¬condition ∧ rest = .ok value := by
  by_cases hcondition : condition
  · simp [hcondition, throw, throwThe, MonadExceptOf.throw, bind, Except.bind]
  · simp [hcondition]

theorem bind_ok {result : Except ε α} {next : α → Except ε β} {value : β} :
    (result >>= next) = .ok value ↔ ∃ between, result = .ok between ∧ next between = .ok value := by
  cases result with
  | error error => simp [bind, Except.bind]
  | ok between => simp [bind, Except.bind]

theorem pure_ok {given value : α} : (pure given : Except ε α) = .ok value ↔ given = value := by
  simp [pure, Except.pure]

theorem toOption_eq_some {result : Except ε α} {value : α} :
    result.toOption = some value ↔ result = .ok value := by
  cases result with
  | error error => simp [Except.toOption]
  | ok given => simp [Except.toOption]

/-- Results that all give values are these values. -/
theorem eq_map_ok_of_toOption {results : List (Except ε α)} {values : List α}
    (hvalues : results.map (·.toOption) = values.map some) : results = values.map .ok := by
  induction results generalizing values with
  | nil => cases values with
    | nil => rfl
    | cons value rest => cases hvalues
  | cons result rest ih => cases values with
    | nil => cases hvalues
    | cons value later =>
      obtain ⟨hvalue, hlater⟩ := List.cons.inj hvalues
      rw [toOption_eq_some.mp hvalue, ih hlater]
      rfl

theorem isOk_iff {result : Except ε Unit} : result.isOk = true ↔ result = .ok () := by
  cases result with
  | error error => simp [Except.isOk, Except.toBool]
  | ok done => simp [Except.isOk, Except.toBool]

theorem mapError_ok {toError : ε → δ} {result : Except ε α} {value : α} :
    result.mapError toError = .ok value ↔ result = .ok value := by
  cases result with
  | error error => simp
  | ok given => simp

theorem guard_error {condition : Prop} [Decidable condition] {thrown error : ε}
    {rest : Except ε α} {stop : PUnit → Except ε α} :
    (if condition then (throw thrown : Except ε PUnit) >>= stop else rest) = .error error ↔
      condition ∧ thrown = error ∨ ¬condition ∧ rest = .error error := by
  by_cases hcondition : condition
  · simp [hcondition, throw, throwThe, MonadExceptOf.throw, bind, Except.bind]
  · simp [hcondition]

theorem bind_error {result : Except ε α} {next : α → Except ε β} {error : ε} :
    (result >>= next) = .error error ↔
      result = .error error ∨ ∃ between, result = .ok between ∧ next between = .error error := by
  cases result with
  | error error => simp [bind, Except.bind]
  | ok between => simp [bind, Except.bind]

theorem mapError_error {toError : ε → δ} {result : Except ε α} {error : δ} :
    result.mapError toError = .error error ↔
      ∃ cause, result = .error cause ∧ toError cause = error := by
  cases result with
  | error cause => simp
  | ok given => simp

end VectorIndex.Result
