import Mathlib.Data.List.Basic

set_option autoImplicit false

/- Resources with a flag that is meant to say whether someone holds them, and at most one
holder each. -/
namespace Holding

variable {Holder Resource : Type} {flag flag' : Resource → Prop}
variable {holds holds' : Holder → Resource → Prop}

/-- The flags agree with the holders, and no resource has two. -/
structure Agrees (flag : Resource → Prop) (holds : Holder → Resource → Prop) : Prop where
  flagged : ∀ r, flag r ↔ ∃ h, holds h r
  unique : ∀ h h' r, holds h r → holds h' r → h = h'

theorem Agrees.congr (agrees : Agrees flag holds) (flags : ∀ r, flag' r ↔ flag r)
    (holders : ∀ h r, holds' h r ↔ holds h r) : Agrees flag' holds' := by
  refine ⟨fun r => ?_, fun a b r first second => ?_⟩
  · rw [flags, agrees.flagged]
    exact exists_congr fun h => (holders h r).symm
  · exact agrees.unique a b r ((holders a r).mp first) ((holders b r).mp second)

/-- A resource whose flag is clear gets a holder. -/
theorem Agrees.acquire (agrees : Agrees flag holds) (h : Holder) (r : Resource) (free : ¬ flag r)
    (flags : ∀ q, flag' q ↔ q = r ∨ flag q)
    (holders : ∀ a q, holds' a q ↔ a = h ∧ q = r ∨ holds a q) : Agrees flag' holds' := by
  have unheld : ∀ a, ¬ holds a r := fun a held => free ((agrees.flagged r).mpr ⟨a, held⟩)
  refine ⟨fun q => ?_, fun a b q first second => ?_⟩
  · rw [flags, agrees.flagged]
    constructor
    · rintro (rfl | ⟨a, held⟩)
      · exact ⟨h, (holders h q).mpr (.inl ⟨rfl, rfl⟩)⟩
      · exact ⟨a, (holders a q).mpr (.inr held)⟩
    · rintro ⟨a, held⟩
      rcases (holders a q).mp held with ⟨-, same⟩ | held
      · exact .inl same
      · exact .inr ⟨a, held⟩
  · rcases (holders a q).mp first with ⟨rfl, rfl⟩ | first
    · rcases (holders b q).mp second with ⟨rfl, -⟩ | second
      · rfl
      · exact absurd second (unheld b)
    · rcases (holders b q).mp second with ⟨rfl, rfl⟩ | second
      · exact absurd first (unheld a)
      · exact agrees.unique a b q first second

/-- A holder gives a resource up, and its flag is cleared. -/
theorem Agrees.drop (agrees : Agrees flag holds) {h : Holder} {r : Resource} (held : holds h r)
    (flags : ∀ q, flag' q ↔ q ≠ r ∧ flag q)
    (holders : ∀ a q, holds' a q ↔ ¬ (a = h ∧ q = r) ∧ holds a q) : Agrees flag' holds' := by
  refine ⟨fun q => ?_, fun a b q first second => ?_⟩
  · rw [flags, agrees.flagged]
    constructor
    · rintro ⟨other, a, taken⟩
      exact ⟨a, (holders a q).mpr ⟨fun same => other same.2, taken⟩⟩
    · rintro ⟨a, taken⟩
      obtain ⟨other, taken⟩ := (holders a q).mp taken
      refine ⟨?_, a, taken⟩
      rintro rfl
      exact other ⟨agrees.unique a h q taken held, rfl⟩
  · exact agrees.unique a b q ((holders a q).mp first).2 ((holders b q).mp second).2

/-- One holder has a turn: it held `mine` before and holds `mine'` after. The others keep what they
hold. -/
structure Turn (holds holds' : Holder → Resource → Prop) (h : Holder) (mine mine' : Resource → Prop) :
    Prop where
  before : ∀ r, holds h r ↔ mine r
  after : ∀ r, holds' h r ↔ mine' r
  others : ∀ a, a ≠ h → ∀ r, holds' a r ↔ holds a r

theorem Turn.keeps {h : Holder} {mine mine' : Resource → Prop} (turn : Turn holds holds' h mine mine')
    {q : Resource} (same : mine' q ↔ mine q) (a : Holder) : holds' a q ↔ holds a q := by
  by_cases own : a = h
  · rw [own, turn.after, same, turn.before]
  · exact turn.others a own q

theorem Turn.gets {h : Holder} {mine mine' : Resource → Prop} (turn : Turn holds holds' h mine mine')
    {q r : Resource} (more : mine' q ↔ q = r ∨ mine q) (a : Holder) :
    holds' a q ↔ a = h ∧ q = r ∨ holds a q := by
  by_cases own : a = h
  · simp [own, turn.after, turn.before, more]
  · simp [own, turn.others]

theorem Turn.loses {h : Holder} {mine mine' : Resource → Prop} (turn : Turn holds holds' h mine mine')
    {q r : Resource} (less : mine' q ↔ q ≠ r ∧ mine q) (a : Holder) :
    holds' a q ↔ ¬ (a = h ∧ q = r) ∧ holds a q := by
  by_cases own : a = h
  · simp [own, turn.after, turn.before, less]
  · simp [own, turn.others]

/-- Only some of the resources are still looked at. -/
theorem Agrees.restrict (agrees : Agrees flag holds) (kept : Resource → Prop)
    (flags : ∀ q, flag' q ↔ kept q ∧ flag q) (holders : ∀ a q, holds' a q ↔ kept q ∧ holds a q) :
    Agrees flag' holds' := by
  refine ⟨fun q => ?_, fun a b q first second => ?_⟩
  · rw [flags, agrees.flagged]
    constructor
    · rintro ⟨inside, a, held⟩
      exact ⟨a, (holders a q).mpr ⟨inside, held⟩⟩
    · rintro ⟨a, held⟩
      obtain ⟨inside, held⟩ := (holders a q).mp held
      exact ⟨inside, a, held⟩
  · exact agrees.unique a b q ((holders a q).mp first).2 ((holders b q).mp second).2

/-- A holder of nothing takes a resource whose flag is clear. -/
theorem Agrees.take (agrees : Agrees flag holds) (h : Holder) (r : Resource) (free : ¬ flag r)
    (flags : ∀ q, flag' q ↔ q = r ∨ flag q)
    (holders : ∀ a q, holds' a q ↔ a = h ∧ q = r ∨ a ≠ h ∧ holds a q)
    (fresh : ∀ q, ¬ holds h q) : Agrees flag' holds' := by
  refine agrees.acquire h r free flags fun a q => ?_
  rw [holders]
  refine or_congr_right ⟨And.right, fun held => ⟨?_, held⟩⟩
  rintro rfl
  exact fresh q held

/-- A holder gives up the one resource it holds, and its flag is cleared. -/
theorem Agrees.release (agrees : Agrees flag holds) {h : Holder} {r : Resource} (held : holds h r)
    (flags : ∀ q, flag' q ↔ q ≠ r ∧ flag q)
    (holders : ∀ a q, holds' a q ↔ a ≠ h ∧ holds a q)
    (single : ∀ q, holds h q → q = r) : Agrees flag' holds' := by
  refine agrees.drop held flags fun a q => ?_
  rw [holders]
  refine and_congr_left fun taken => not_congr ⟨fun same => ⟨same, ?_⟩, And.left⟩
  subst same
  exact single q taken

/-- Clearing the flag of a resource that is still held breaks the agreement. -/
theorem not_agrees_of_cleared {h : Holder} {r : Resource} (held : holds h r) (cleared : ¬ flag r) :
    ¬ Agrees flag holds :=
  fun agrees => cleared ((agrees.flagged r).mpr ⟨h, held⟩)

end Holding
