import Mathlib.Init

set_option autoImplicit false

/- What a program with state returns, and the state it leaves, where states are only known by
descriptions of them. -/
namespace Returning

variable {σ ε α β S : Type}

/-- From every state of the one description the program returns the value in a state of the
other. -/
def Returns (describes : S → σ → Prop) (before : S) (program : StateT σ (Except ε) α) (value : α)
    (after : S) : Prop :=
  ∀ s, describes before s → ∃ s', program s = .ok (value, s') ∧ describes after s'

variable {describes : S → σ → Prop} {first mid last : S}

theorem Returns.pure (value : α) :
    Returns describes first (pure value : StateT σ (Except ε) α) value first :=
  fun s described => ⟨s, rfl, described⟩

/-- A program whose first part has run goes on. -/
theorem run_bind {program : StateT σ (Except ε) α} {next : α → StateT σ (Except ε) β} {s s' : σ} {a : α}
    (runs : program s = .ok (a, s')) : (program >>= next) s = next a s' := by
  simp only [Bind.bind, StateT.bind, runs]
  rfl

/-- A program whose first part has ended without a value does not go on. -/
theorem stop_bind {program : StateT σ (Except ε) α} {next : α → StateT σ (Except ε) β} {s : σ} {stop : ε}
    (stops : program s = .error stop) : (program >>= next) s = .error stop := by
  simp only [Bind.bind, StateT.bind, stops]
  rfl

/-- A program that has run has run its two parts. -/
theorem of_bind {program : StateT σ (Except ε) α} {next : α → StateT σ (Except ε) β} {s s' : σ} {b : β}
    (runs : (program >>= next) s = .ok (b, s')) :
    ∃ a mid, program s = .ok (a, mid) ∧ next a mid = .ok (b, s') := by
  cases ran : program s with
  | error stop =>
      rw [stop_bind ran] at runs
      cases runs
  | ok pair =>
      rw [run_bind ran] at runs
      exact ⟨pair.1, pair.2, rfl, runs⟩

theorem Returns.bind {program : StateT σ (Except ε) α} {next : α → StateT σ (Except ε) β}
    {a : α} {b : β} (head : Returns describes first program a mid)
    (tail : Returns describes mid (next a) b last) :
    Returns describes first (program >>= next) b last := by
  intro s described
  obtain ⟨s', runs, described⟩ := head s described
  obtain ⟨s'', continues, described⟩ := tail s' described
  refine ⟨s'', ?_, described⟩
  rw [run_bind runs]
  exact continues

/-- Two steps are one where their result is what is known. -/
theorem Returns.assoc {γ : Type} {program : StateT σ (Except ε) α} {next : α → StateT σ (Except ε) β}
    {last' : β → StateT σ (Except ε) γ} {c : γ}
    (runs : Returns describes first ((program >>= next) >>= last') c last) :
    Returns describes first (program >>= fun a => next a >>= last') c last := by
  rw [← bind_assoc]
  exact runs

/-- The program looks at the state, of which only some of what it sees is known. -/
theorem Returns.look {program : StateT σ (Except ε) α} {next : α → StateT σ (Except ε) β} {b : β}
    {sees : α → Prop} (head : ∀ s, describes first s → ∃ a, program s = .ok (a, s) ∧ sees a)
    (tail : ∀ a, sees a → Returns describes first (next a) b last) :
    Returns describes first (program >>= next) b last := by
  intro s described
  obtain ⟨a, looks, seen⟩ := head s described
  obtain ⟨s', continues, described⟩ := tail a seen s described
  refine ⟨s', ?_, described⟩
  rw [run_bind looks]
  exact continues

theorem Returns.map {program : StateT σ (Except ε) α} {a : α} (f : α → β)
    (runs : Returns describes first program a last) :
    Returns describes first (f <$> program) (f a) last := by
  intro s described
  obtain ⟨s', runs, described⟩ := runs s described
  refine ⟨s', ?_, described⟩
  simp only [Functor.map, StateT.map, runs]
  rfl

/-- Less is said of the state that is left. -/
theorem Returns.weaken {program : StateT σ (Except ε) α} {a : α}
    (runs : Returns describes first program a mid)
    (weaker : ∀ s, describes mid s → describes last s) :
    Returns describes first program a last := by
  intro s described
  obtain ⟨s', runs, described⟩ := runs s described
  exact ⟨s', runs, weaker s' described⟩

/-- From every state of a description the program ends without a value. -/
def Stops (describes : S → σ → Prop) (before : S) (program : StateT σ (Except ε) α) (stop : ε) :
    Prop :=
  ∀ s, describes before s → program s = .error stop

variable {stop : ε}

theorem Stops.bind {program : StateT σ (Except ε) α} {next : α → StateT σ (Except ε) β}
    (head : Stops describes first program stop) :
    Stops describes first (program >>= next) stop := by
  intro s described
  exact stop_bind (head s described)

theorem Returns.stops {program : StateT σ (Except ε) α} {next : α → StateT σ (Except ε) β} {a : α}
    (head : Returns describes first program a mid) (tail : Stops describes mid (next a) stop) :
    Stops describes first (program >>= next) stop := by
  intro s described
  obtain ⟨s', runs, described⟩ := head s described
  rw [run_bind runs]
  exact tail s' described

/-- The program looks at the state and then ends, whatever it has seen. -/
theorem Stops.look {program : StateT σ (Except ε) α} {next : α → StateT σ (Except ε) β}
    {sees : α → Prop} (head : ∀ s, describes first s → ∃ a, program s = .ok (a, s) ∧ sees a)
    (tail : ∀ a, sees a → Stops describes first (next a) stop) :
    Stops describes first (program >>= next) stop := by
  intro s described
  obtain ⟨a, looks, seen⟩ := head s described
  rw [run_bind looks]
  exact tail a seen s described

/-- What a program returns passes a test, which it does not where it ends without a value. -/
def returnsWith (result : Except ε (α × σ)) (test : α → σ → Bool) : Bool :=
  match result with
  | .ok (a, s) => test a s
  | .error _ => false

theorem of_returnsWith {result : Except ε (α × σ)} {test : α → σ → Bool}
    (passes : returnsWith result test = true) : ∃ a s, result = .ok (a, s) ∧ test a s = true := by
  cases result with
  | error stop => cases passes
  | ok pair => exact ⟨pair.1, pair.2, rfl, passes⟩

/-- Where the first program returns, the second one returns the same in the same state. -/
def Below (program other : StateT σ (Except ε) α) : Prop :=
  ∀ s result, program s = .ok result → other s = .ok result

theorem Below.refl (program : StateT σ (Except ε) α) : Below program program := fun _ _ runs => runs

theorem Below.bind {program other : StateT σ (Except ε) α} {next rest : α → StateT σ (Except ε) β}
    (first : Below program other) (after : ∀ a, Below (next a) (rest a)) :
    Below (program >>= next) (other >>= rest) := by
  intro s result runs
  obtain ⟨a, mid, ran, continues⟩ := of_bind runs
  rw [run_bind (first s (a, mid) ran)]
  exact after a mid result continues

theorem Below.map {program other : StateT σ (Except ε) α} (f : α → β) (first : Below program other) :
    Below (f <$> program) (f <$> other) := by
  rw [map_eq_pure_bind, map_eq_pure_bind]
  exact first.bind fun _ => .refl _

theorem Below.ite {holds : Prop} [Decidable holds] {left right left' right' : StateT σ (Except ε) α}
    (yes : Below left left') (no : Below right right') :
    Below (if holds then left else right) (if holds then left' else right') := by
  by_cases case : holds
  · rw [if_pos case, if_pos case]
    exact yes
  · rw [if_neg case, if_neg case]
    exact no

end Returning
