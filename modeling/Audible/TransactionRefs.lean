import Audible.TransactionAbort
import Mathlib.Algebra.BigOperators.Group.List.Basic
import Mathlib.Algebra.GroupWithZero.Nat

set_option autoImplicit false

/- Whether the reference counts of transactions are right. -/
namespace Audible.Xacto

variable {τ : Type} [DecidableEq τ] {m m' : Manager τ} {tp : τ}

/-- The dependency nodes that point to a transaction. -/
def Manager.nodes (m : Manager τ) (tp : τ) : Nat :=
  (m.created.map fun x => (m.server.trans x).depends.count tp).sum

/-- The references to a transaction: those held by callers, and those of dependency nodes and of
live versions. -/
def Manager.outstanding (m : Manager τ) (tp : τ) : Nat :=
  m.held tp + m.nodes tp + m.versions tp

def Manager.Balanced (m : Manager τ) : Prop :=
  ∀ tp ∈ m.created, (m.server.trans tp).refcnt.toNat = m.outstanding tp

/-- A caller gives up a reference that it holds. -/
def GivesUpHeld (m : Manager τ) : Call τ → Prop
  | .unref tp | .commit tp | .abort tp => 0 < m.held tp
  | .versionDispose tp => 0 < m.versions tp
  | .create _ | .ref _ | .add _ _ | .versionCreate _ => True

/-- Besides, the count does not overflow, and `trans_abort` is called for a transaction that has
not been aborted and has no pending dependencies. -/
def AllowsBalanced (m : Manager τ) (c : Call τ) : Prop :=
  GivesUpHeld m c ∧
    match c with
    | .ref tp | .add _ tp | .versionCreate tp => m.outstanding tp + 1 < 2 ^ 32
    | .abort tp => (m.server.trans tp).status ≠ .aborted ∧
        ∀ dtp ∈ (m.server.trans tp).depends, (m.server.trans dtp).status ≠ .pending
    | .create _ | .unref _ | .versionDispose _ | .commit _ => True

instance (m : Manager τ) : (c : Call τ) → Decidable (GivesUpHeld m c)
  | .unref tp | .commit tp | .abort tp => inferInstanceAs (Decidable (0 < m.held tp))
  | .versionDispose tp => inferInstanceAs (Decidable (0 < m.versions tp))
  | .create _ | .ref _ | .add _ _ | .versionCreate _ => .isTrue trivial

instance (m : Manager τ) : (c : Call τ) → Decidable (AllowsBalanced m c)
  | .ref tp | .add _ tp | .versionCreate tp =>
      inferInstanceAs (Decidable (_ ∧ m.outstanding tp + 1 < 2 ^ 32))
  | .abort tp =>
      inferInstanceAs (Decidable (_ ∧ (m.server.trans tp).status ≠ .aborted ∧
        ∀ dtp ∈ (m.server.trans tp).depends, (m.server.trans dtp).status ≠ .pending))
  | .create _ | .unref _ | .versionDispose _ | .commit _ => inferInstanceAs (Decidable (_ ∧ True))

theorem sum_map_add {f g : τ → Nat} {more : Nat} {tps : List τ} (member : tp ∈ tps)
    (nodup : tps.Nodup) (here : g tp = f tp + more) (others : ∀ x, x ≠ tp → g x = f x) :
    (tps.map g).sum = (tps.map f).sum + more := by
  induction tps with
  | nil => cases member
  | cons x tps ih =>
      obtain ⟨fresh, nodup⟩ := List.nodup_cons.mp nodup
      rw [List.map_cons, List.map_cons, List.sum_cons, List.sum_cons]
      by_cases same : x = tp
      · have rest : tps.map g = tps.map f := by
          apply List.map_congr_left
          intro y later
          apply others
          intro equal
          rw [same, ← equal] at fresh
          exact fresh later
        rw [same, here, rest]
        omega
      · have later : tp ∈ tps := by
          rcases List.mem_cons.mp member with rfl | later
          · exact absurd rfl same
          · exact later
        rw [ih later nodup, others x same]
        omega

theorem nodes_congr {m' : Manager τ} (created : m'.created = m.created)
    (depends : ∀ x, (m'.server.trans x).depends = (m.server.trans x).depends) (tp : τ) :
    m'.nodes tp = m.nodes tp := by
  unfold Manager.nodes
  rw [created]
  congr 1
  apply List.map_congr_left
  intro x _
  rw [depends]

/-- Nothing points to a transaction that has not been created. -/
theorem nodes_fresh (sound : m.Sound) (fresh : tp ∉ m.created) : m.nodes tp = 0 := by
  apply List.sum_eq_zero
  intro count member
  obtain ⟨x, created, rfl⟩ := List.mem_map.mp member
  apply List.count_eq_zero_of_not_mem
  exact fun linked => fresh (sound.closed x created tp linked)

/-- One reference more, in the count and outside. -/
theorem Manager.Balanced.raised (balanced : m.Balanced) (created : m'.created = m.created)
    (room : m.outstanding tp + 1 < 2 ^ 32)
    (refcnts : ∀ x, (m'.server.trans x).refcnt =
      if x = tp then (m.server.trans x).refcnt + 1 else (m.server.trans x).refcnt)
    (outside : ∀ x, m'.outstanding x =
      if x = tp then m.outstanding x + 1 else m.outstanding x) : m'.Balanced := by
  intro x member
  rw [created] at member
  have before := balanced x member
  rw [refcnts, outside]
  split
  · rename_i same
    rw [← same] at room
    bv_omega
  · exact before

/-- One reference less, in the count and outside. -/
theorem Manager.Balanced.dropped (balanced : m.Balanced) (created : m'.created = m.created)
    (some : 0 < m.outstanding tp)
    (refcnts : ∀ x, (m'.server.trans x).refcnt =
      if x = tp then (m.server.trans x).refcnt - 1 else (m.server.trans x).refcnt)
    (outside : ∀ x, m'.outstanding x =
      if x = tp then m.outstanding x - 1 else m.outstanding x) : m'.Balanced := by
  intro x member
  rw [created] at member
  have before := balanced x member
  rw [refcnts, outside]
  split
  · rename_i same
    rw [← same] at some
    bv_omega
  · exact before

section Outside

variable {server : Server τ}
variable (depends : ∀ x, (server.trans x).depends = (m.server.trans x).depends)
include depends

/-- What changes outside when a transaction's references that callers hold do. -/
theorem outstanding_hold (held : Nat) (x : τ) :
    ({ m with server }.hold tp held).outstanding x =
      if x = tp then held + m.nodes x + m.versions x else m.outstanding x := by
  have nodes := @nodes_congr _ _ m ({ m with server }.hold tp held) rfl depends x
  unfold Manager.outstanding
  rw [nodes]
  by_cases same : x = tp
  · simp [Manager.hold, same]
  · simp [Manager.hold, same]

theorem outstanding_setVersions (versions : Nat) (x : τ) :
    ({ m with server }.setVersions tp versions).outstanding x =
      if x = tp then m.held x + m.nodes x + versions else m.outstanding x := by
  have nodes := @nodes_congr _ _ m ({ m with server }.setVersions tp versions) rfl depends x
  unfold Manager.outstanding
  rw [nodes]
  by_cases same : x = tp
  · simp [Manager.setVersions, same]
  · simp [Manager.setVersions, same]

end Outside

/-- A reference that its holder gives up. -/
theorem Manager.Balanced.givenUp (balanced : m.Balanced) (gives : 0 < m.held tp)
    {server : Server τ} (leaves : Leaves m.server server
      (fun x => if x = tp then (m.server.trans x).refcnt - 1 else (m.server.trans x).refcnt)
      (fun x => (m.server.trans x).depends)) :
    ({ m with server }.hold tp (m.held tp - 1)).Balanced := by
  apply balanced.dropped (by rfl)
  · change 0 < m.held tp + m.nodes tp + m.versions tp
    omega
  · exact leaves.refcnts
  · intro x
    rw [outstanding_hold leaves.depends]
    split
    · rename_i same
      rw [same, Manager.outstanding]
      omega
    · rfl

/-- The call of `trans_abort` for a transaction without pending dependencies. -/
theorem abort_leaves (sound : m.Sound) (member : tp ∈ m.created) {s' : Server τ}
    (unaborted : (m.server.trans tp).status ≠ .aborted)
    (settled : ∀ dtp ∈ (m.server.trans tp).depends, (m.server.trans dtp).status ≠ .pending)
    (returned : m.abort tp = .ok s') :
    Leaves m.server s'
      (fun x => if x = tp then (m.server.trans x).refcnt - 1 else (m.server.trans x).refcnt)
      (fun x => (m.server.trans x).depends) := by
  have ready := sound.ready
  have pending : (m.server.trans tp).status = .pending := by
    cases status : (m.server.trans tp).status with
    | pending => rfl
    | committed =>
        rw [Manager.abort, transAbort, status] at returned
        cases returned
    | aborted => exact absurd status unaborted
  have aborted : ∀ dtp ∈ (m.server.trans tp).depends, (m.server.trans dtp).status = .aborted := by
    intro dtp linked
    have other : dtp ≠ tp := by
      rintro rfl
      exact settled dtp linked pending
    rw [Manager.abort, transAbort_pending _ pending (ready.free tp pending)] at returned
    obtain ⟨s₁, loop, rfl⟩ := map_ok returned
    have outcome := abortAll_outcome (fun tp s ready => transAbort_outcome m.created.length tp ready)
      (m.server.trans tp).depends (enterAbort_ready tp ready)
    rw [loop] at outcome
    rcases outcome.1.statuses dtp with same | ⟨before, -⟩
    · rw [outcome.2 dtp linked, enterAbort_trans, if_neg other] at same
      exact same.symm
    · rw [enterAbort_trans, if_neg other] at before
      exact absurd before (settled dtp linked)
  rw [Manager.abort_of_aborted sound member pending aborted] at returned
  cases returned
  have alone : ((enterAbort tp m.server).trans tp).waitcnt = 0 := (enterAbort_ready tp ready).waitcnts tp
  have free := sound.free tp
  constructor
  all_goals
    intro x
    rw [leaveAbort_trans alone, enterAbort_trans, enterAbort_trans]
    grind

theorem Manager.Balanced.call (sound : m.Sound) (balanced : m.Balanced) {c : Call τ}
    (allowed : AllowsBalanced m c) (called : m.call c = some m') : m'.Balanced := by
  obtain ⟨valid, ended⟩ := Manager.returned_of_call called
  obtain ⟨gives, allowed⟩ := allowed
  cases c with
  | create tp =>
      cases ended
      have fresh : tp ∉ m.created := by simpa [Manager.valid] using valid
      intro x member
      have nodes : ∀ held versions, Manager.nodes
          { server := m.server.setTrans tp transCreate, created := m.created ++ [tp], held, versions }
          x = m.nodes x := by
        intro held versions
        have old : (m.created.map fun y =>
              ((m.server.setTrans tp transCreate).trans y).depends.count x) =
            m.created.map fun y => (m.server.trans y).depends.count x := by
          apply List.map_congr_left
          intro y created
          rw [setTrans_of_ne]
          rintro rfl
          exact fresh created
        unfold Manager.nodes
        rw [List.map_append, List.sum_append, old]
        simp [transCreate]
      unfold Manager.outstanding
      rw [nodes]
      by_cases same : x = tp
      · rw [same, nodes_fresh sound fresh]
        simp [transCreate]
      · have before : x ∈ m.created := by simpa [same] using member
        simp only [setTrans_of_ne _ _ same, Function.update_of_ne same]
        exact balanced x before
  | ref tp =>
      cases ended
      apply balanced.raised (by rfl) allowed (transRef_leaves tp m.server).refcnts
      intro x
      rw [outstanding_hold (transRef_leaves tp m.server).depends]
      grind [Manager.outstanding]
  | unref tp =>
      cases ended
      exact balanced.givenUp gives (transUnref_leaves tp m.server)
  | add tp dtp =>
      obtain ⟨server, added, rfl⟩ := map_ok ended
      have both : tp ∈ m.created ∧ dtp ∈ m.created := by simpa [Manager.valid] using valid
      have leaves := transAddDependency_leaves added
      apply balanced.raised (by rfl) allowed leaves.refcnts
      intro x
      unfold Manager.outstanding
      have nodes : Manager.nodes { m with server } x =
          m.nodes x + if x = dtp then 1 else 0 := by
        apply sum_map_add both.1 sound.nodup
        · rw [leaves.depends, if_pos rfl, List.count_cons]
          grind
        · intro y other
          rw [leaves.depends, if_neg other]
      rw [nodes]
      grind
  | versionCreate tp =>
      cases ended
      apply balanced.raised (by rfl) allowed (transRef_leaves tp m.server).refcnts
      intro x
      rw [outstanding_setVersions (transRef_leaves tp m.server).depends]
      grind [Manager.outstanding]
  | versionDispose tp =>
      cases ended
      have live : 0 < m.versions tp := gives
      apply balanced.dropped (by rfl) _ (transUnref_leaves tp m.server).refcnts
      · intro x
        rw [outstanding_setVersions (transUnref_leaves tp m.server).depends]
        grind [Manager.outstanding]
      · change 0 < m.held tp + m.nodes tp + m.versions tp
        omega
  | commit tp =>
      obtain ⟨server, committed, rfl⟩ := map_ok ended
      exact balanced.givenUp gives (transCommit_leaves (sound.alone tp) committed)
  | abort tp =>
      obtain ⟨server, aborted, rfl⟩ := map_ok ended
      have member : tp ∈ m.created := by simpa [Manager.valid] using valid
      exact balanced.givenUp gives (abort_leaves sound member allowed.1 allowed.2 aborted)

/-- Every count is the number of references there are, as long as none is aborted again and none
is aborted that depends on a pending one. -/
theorem balanced_of_allowed (reached : Runs.Reachable Manager.call AllowsBalanced .start m) :
    m.Balanced := by
  have both : m.Sound ∧ m.Balanced := by
    apply Runs.Reachable.invariant (fun m : Manager τ => m.Sound ∧ m.Balanced) _ _ reached
    · constructor
      · exact Manager.sound_start
      · intro tp member
        cases member
    · intro m c m' before allowed called
      constructor
      · exact before.1.call called
      · exact before.2.call before.1 allowed called
  exact both.2

/-- Two transactions, one of them dependent on the other and with a version, aborted in turn. -/
def abortedInTurn : List (Call Nat) :=
  [.create 0, .create 1, .add 1 0, .versionCreate 1, .abort 0, .abort 1, .versionDispose 1]

theorem balanced_example : (afterCalls abortedInTurn).Balanced := by
  apply balanced_of_allowed
  apply Runs.reachable_run abortedInTurn .refl
  · exact Runs.follows_of_check (fun _ _ => of_decide_eq_true) _ (by decide)
  · rfl

/-- A second abort of a transaction leaves the reference that it is given. -/
def abortedTwice : List (Call Nat) := [.create 0, .ref 0, .abort 0, .abort 0]

theorem not_balanced : ¬ ∀ m : Manager Nat,
    Runs.Reachable Manager.call GivesUpHeld .start m → m.Balanced := by
  apply Runs.not_forall_reachable abortedTwice
    (Runs.follows_of_check (fun _ _ => of_decide_eq_true) _ (by decide))
    (fun m => 0 ∈ m.created && (m.server.trans 0).refcnt.toNat ≠ m.outstanding 0)
  · decide
  · intro m passes balanced
    simp only [Bool.and_eq_true, decide_eq_true_eq] at passes
    exact passes.2 (balanced 0 passes.1)

end Audible.Xacto
