import Mathlib.Data.Set.Finite.List
import Mathlib.Logic.Relation
import Mathlib.Order.WellFoundedSet

set_option autoImplicit false

/- Threads that hold resources and wait for others, where what is waited for comes after what is
held. -/
namespace Waiting

variable {Thread Resource : Type}
variable {holds waits : Thread → Resource → Prop} {edge : Resource → Resource → Prop}

/-- Edges from finitely many nodes, none of which is on a cycle, are followed forwards only finitely
often. -/
theorem wellFounded_of_acyclic {nodes : List Resource} (within : ∀ x y, edge x y → x ∈ nodes)
    (acyclic : ∀ x, ¬ Relation.TransGen edge x x) :
    WellFounded fun y x => Relation.TransGen edge x y := by
  have starts : ∀ {x y}, Relation.TransGen edge x y → x ∈ nodes := by
    intro x y path
    obtain ⟨z, first, -⟩ := Relation.TransGen.head'_iff.mp path
    exact within x z first
  let order : IsStrictOrder Resource fun y x => Relation.TransGen edge x y :=
    { irrefl := acyclic, trans := fun _ _ _ first second => second.trans first }
  have inside : Set.WellFoundedOn {x | x ∈ nodes} fun y x => Relation.TransGen edge x y :=
    (List.finite_toSet nodes).wellFoundedOn
  have accessible : ∀ x ∈ nodes, Acc (fun y x => Relation.TransGen edge x y) x := by
    intro x member
    refine inside.induction member fun x _ ih => ⟨x, fun y path => ?_⟩
    by_cases last : y ∈ nodes
    · exact ih y last path
    · exact ⟨y, fun z more => absurd (starts more) last⟩
  constructor
  intro x
  by_cases member : x ∈ nodes
  · exact accessible x member
  · exact ⟨x, fun y path => absurd (starts path) member⟩

/-- So are they from a node from which no cycle can be reached. -/
theorem acc_of_no_cycle {nodes : List Resource} (within : ∀ x y, edge x y → x ∈ nodes) {x : Resource}
    (none : ∀ z, Relation.ReflTransGen edge x z → ¬ Relation.TransGen edge z z) :
    Acc (fun y x => edge x y) x := by
  have kept : ∀ {a b}, Relation.TransGen (fun a b => Relation.ReflTransGen edge x a ∧ edge a b) a b →
      Relation.ReflTransGen edge x a ∧ Relation.TransGen edge a b := by
    intro a b path
    refine ⟨?_, Relation.TransGen.mono (fun _ _ step => step.2) _ _ path⟩
    obtain ⟨_, first, -⟩ := Relation.TransGen.head'_iff.mp path
    exact first.1
  have ends := (wellFounded_of_acyclic (fun a b step => within a b step.2) (fun a path =>
    none a (kept path).1 (kept path).2)).apply x
  have from_start : ∀ y, Acc (fun b a => Relation.TransGen
      (fun a b => Relation.ReflTransGen edge x a ∧ edge a b) a b) y →
        Relation.ReflTransGen edge x y → Acc (fun y x => edge x y) y := by
    intro y accessible
    induction accessible with
    | intro y _ ih => exact fun path => ⟨y, fun z step => ih z (.single ⟨path, step⟩) (path.tail step)⟩
  exact from_start x ends .refl

/-- If what is waited for is held, and a thread waits only for what comes after all that it holds,
then some thread that holds something does not wait. -/
theorem exists_running {before : Resource → Resource → Prop}
    (ascends : WellFounded fun y x => before x y) (held : ∀ t x, waits t x → ∃ h, holds h x)
    (ordered : ∀ t x y, holds t x → waits t y → before x y) {t : Thread} {x : Resource}
    (waiting : waits t x) : ∃ h y, holds h y ∧ ∀ z, ¬ waits h z := by
  induction x using ascends.induction generalizing t with
  | _ x ih =>
      obtain ⟨h, holding⟩ := held t x waiting
      by_cases more : ∃ z, waits h z
      · obtain ⟨z, waiting⟩ := more
        exact ih z (ordered h x z holding waiting) waiting
      · exact ⟨h, x, holding, fun z waiting => more ⟨z, waiting⟩⟩

end Waiting
