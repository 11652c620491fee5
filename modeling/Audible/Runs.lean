import Mathlib.Data.List.Basic

set_option autoImplicit false

/- Runs of a system that takes one action at a time: the states it reaches when every action
is allowed where it is taken, and what every such state satisfies. -/
namespace Runs

variable {State Action : Type} {step : State → Action → Option State}
variable {allowed stricter : State → Action → Prop} {start state : State}

/-- The states reached from `start` by actions that are all allowed. -/
inductive Reachable (step : State → Action → Option State) (allowed : State → Action → Prop)
    (start : State) : State → Prop
  | refl : Reachable step allowed start start
  | tail {state next : State} (action : Action) (before : Reachable step allowed start state)
      (permitted : allowed state action) (taken : step state action = some next) :
      Reachable step allowed start next

def Any : State → Action → Prop := fun _ _ => True

/-- What holds at the start and is kept by every allowed action holds everywhere. -/
theorem Reachable.invariant (holds : State → Prop) (atStart : holds start)
    (kept : ∀ state action next, holds state → allowed state action →
      step state action = some next → holds next)
    (reached : Reachable step allowed start state) : holds state := by
  induction reached with
  | refl => exact atStart
  | tail action _ permitted taken ih => exact kept _ action _ ih permitted taken

theorem Reachable.mono (weaker : ∀ state action, stricter state action → allowed state action)
    (reached : Reachable step stricter start state) : Reachable step allowed start state := by
  induction reached with
  | refl => exact .refl
  | tail action _ permitted taken ih => exact .tail action ih (weaker _ _ permitted) taken

/-- The state after a list of actions, if all of them can be taken. -/
def run (step : State → Action → Option State) (state : State) : List Action → Option State
  | [] => some state
  | action :: actions => (step state action).bind fun next => run step next actions

/-- Every action of the list is allowed where it is taken. -/
def Follows (step : State → Action → Option State) (allowed : State → Action → Prop)
    (state : State) : List Action → Prop
  | [] => True
  | action :: actions =>
      allowed state action ∧ ∀ next, step state action = some next → Follows step allowed next actions

theorem reachable_run (actions : List Action) (before : Reachable step allowed start state)
    (follows : Follows step allowed state actions) {final : State}
    (taken : run step state actions = some final) : Reachable step allowed start final := by
  induction actions generalizing state with
  | nil =>
      cases taken
      exact before
  | cons action actions ih =>
      obtain ⟨next, first, rest⟩ := Option.bind_eq_some_iff.mp taken
      exact ih (before.tail action follows.1 first) (follows.2 next first) rest

theorem follows_any (actions : List Action) : Follows step Any state actions := by
  induction actions generalizing state with
  | nil => trivial
  | cons action actions ih => exact ⟨trivial, fun _ _ => ih⟩

/-- What every step keeps exactly if its action is allowed, a run keeps exactly if all its actions
are. -/
theorem follows_iff (holds : State → Prop)
    (exact_ : ∀ state action next, step state action = some next →
      (holds next ↔ holds state ∧ allowed state action))
    (actions : List Action) {final : State} (taken : run step state actions = some final) :
    holds final ↔ holds state ∧ Follows step allowed state actions := by
  induction actions generalizing state with
  | nil =>
      cases taken
      exact (and_iff_left trivial).symm
  | cons action actions ih =>
      obtain ⟨next, first, rest⟩ := Option.bind_eq_some_iff.mp taken
      rw [ih rest, exact_ state action next first, and_assoc]
      apply and_congr_right
      intro _
      apply and_congr_right
      intro _
      constructor
      · intro follows next' second
        cases first.symm.trans second
        exact follows
      · exact fun follows => follows next first

/-- A test that is enough for an action to be allowed, made along the run. -/
def followsBy (step : State → Action → Option State) (check : State → Action → Bool)
    (state : State) : List Action → Bool
  | [] => true
  | action :: actions =>
      check state action && (step state action).all fun next => followsBy step check next actions

theorem follows_of_check {check : State → Action → Bool}
    (enough : ∀ state action, check state action = true → allowed state action)
    (actions : List Action) (passes : followsBy step check state actions = true) :
    Follows step allowed state actions := by
  induction actions generalizing state with
  | nil => trivial
  | cons action actions ih =>
      unfold followsBy at passes
      rw [Bool.and_eq_true] at passes
      refine ⟨enough state action passes.1, fun next taken => ih ?_⟩
      have rest := passes.2
      rw [taken] at rest
      exact rest

/-- A state that a list of actions leads to and a test accepts is reached. -/
theorem exists_reachable (actions : List Action) {check : State → Action → Bool}
    (enough : ∀ state action, check state action = true → allowed state action)
    (follows : followsBy step check start actions = true) (test : State → Bool)
    (passes : (run step start actions).any test = true) :
    ∃ state, run step start actions = some state ∧ Reachable step allowed start state ∧
      test state = true := by
  obtain ⟨final, taken, passed⟩ := (Option.any_eq_true _ _).mp passes
  exact ⟨final, taken, reachable_run actions .refl (follows_of_check enough actions follows) taken,
    passed⟩

/-- A property fails somewhere if a list of actions leads to a state that refutes it. -/
theorem not_forall_reachable {holds : State → Prop} (actions : List Action)
    (follows : Follows step allowed start actions) (check : State → Bool)
    (passes : (run step start actions).any check = true)
    (refutes : ∀ state, check state = true → ¬ holds state) :
    ¬ ∀ state, Reachable step allowed start state → holds state := by
  intro always
  obtain ⟨final, taken, passed⟩ := (Option.any_eq_true _ _).mp passes
  exact refutes final passed (always final (reachable_run actions .refl follows taken))

/-- What every turn of a loop keeps, of the actions that are left and of the state, holds at its
end. -/
theorem foldlM_comes {Error : Type} {body : State → Action → Except Error State}
    (holds : List Action → State → Prop) (comes : Except Error State → Prop)
    (each : ∀ action actions state, holds (action :: actions) state →
      (∃ next, body state action = .ok next ∧ holds actions next) ∨
        ∃ error, body state action = .error error ∧ comes (.error error))
    (finished : ∀ state, holds [] state → comes (.ok state)) {actions : List Action}
    (atStart : holds actions state) : comes (actions.foldlM body state) := by
  induction actions generalizing state with
  | nil => exact finished state atStart
  | cons action actions ih =>
      rw [List.foldlM_cons]
      rcases each action actions state atStart with ⟨next, taken, kept⟩ | ⟨error, taken, ended⟩
      · rw [taken]
        exact ih kept
      · rw [taken]
        exact ended

end Runs
