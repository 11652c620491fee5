import Mathlib.Logic.Function.Basic

set_option autoImplicit false

/- Two computations that may fail, one of which follows the other. -/
namespace Relating

variable {Error Error' Value Value' Result Result' : Type}
variable {errors : Error → Error' → Prop} {values : Value → Value' → Prop}
variable {results : Result → Result' → Prop}

theorem bind_eq_error {first : Except Error Value} {next : Value → Except Error Result} {e : Error} :
    (first >>= next) = .error e ↔ first = .error e ∨ ∃ v, first = .ok v ∧ next v = .error e := by
  constructor
  · intro ran
    cases first with
    | error e =>
        cases ran
        exact .inl rfl
    | ok v => exact .inr ⟨v, rfl, ran⟩
  · rintro (rfl | ⟨v, rfl, ran⟩)
    · rfl
    · exact ran

/-- Both fail with related errors, or both return related values. -/
inductive Relates (errors : Error → Error' → Prop) (values : Value → Value' → Prop) :
    Except Error Value → Except Error' Value' → Prop
  | error {e : Error} {e' : Error'} (related : errors e e') :
      Relates errors values (.error e) (.error e')
  | ok {v : Value} {v' : Value'} (related : values v v') : Relates errors values (.ok v) (.ok v')

theorem Relates.bind {first : Except Error Value} {first' : Except Error' Value'}
    {next : Value → Except Error Result} {next' : Value' → Except Error' Result'}
    (related : Relates errors values first first')
    (follows : ∀ v v', values v v' → Relates errors results (next v) (next' v')) :
    Relates errors results (first >>= next) (first' >>= next') := by
  cases related with
  | error related => exact .error related
  | ok related => exact follows _ _ related

theorem Relates.mono {values' : Value → Value' → Prop} {first : Except Error Value}
    {first' : Except Error' Value'} (related : Relates errors values first first')
    (weaker : ∀ v v', values v v' → values' v v') : Relates errors values' first first' := by
  cases related with
  | error related => exact .error related
  | ok related => exact .ok (weaker _ _ related)

/-- Both take the same branch. -/
theorem Relates.ite {condition condition' : Prop} [Decidable condition] [Decidable condition']
    {first second : Except Error Value} {first' second' : Except Error' Value'}
    (same : condition ↔ condition') (yes : condition → Relates errors values first first')
    (no : ¬ condition → Relates errors values second second') :
    Relates errors values (if condition then first else second)
      (if condition' then first' else second') := by
  by_cases holds : condition
  · rw [if_pos holds, if_pos (same.mp holds)]
    exact yes holds
  · rw [if_neg holds, if_neg fun holds' => holds (same.mpr holds')]
    exact no holds

end Relating
