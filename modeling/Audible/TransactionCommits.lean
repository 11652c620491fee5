import Audible.TransactionSafety

set_option autoImplicit false

/- Runs in which no client calls `trans_abort`. -/
namespace Audible.Xacto

variable {τ : Type} {t t' : τ → Transaction τ} {client : τ}
variable {activity activity' : Activity τ} {s s' : Server τ}

def NoAborts (_ : Server τ) : Action τ → Prop
  | .abort _ => False
  | _ => True

instance (s : Server τ) : (action : Action τ) → Decidable (NoAborts s action)
  | .add _ _ => .isTrue trivial
  | .commit _ => .isTrue trivial
  | .abort _ => .isFalse id
  | .go _ => .isTrue trivial

/-- The status that has been read, if any, is not TRANS_ABORTED. -/
def ScanPc.Unaborted : ScanPc → Prop
  | .firstUnlock read | .secondUnlock read | .pollUnlock read | .resultUnlock read =>
      read ≠ .aborted
  | _ => True

/-- The thread knows of no aborted transaction. -/
def Activity.Unaborted : Activity τ → Prop
  | .committing (.scan loop pc) => loop.status = .committed ∧ pc.Unaborted
  | .aborting _ _ _ => False
  | _ => True

theorem Activity.Unaborted.scan {loop : Scan τ} {pc pc' : ScanPc}
    (unaborted : (Activity.committing (.scan loop pc)).Unaborted) (next : pc'.Unaborted) :
    (Activity.committing (.scan loop pc')).Unaborted := ⟨unaborted.1, next⟩

theorem Checks.unaborted {status : TransStatus} {depends : List τ}
    (checks : Checks t t' client status depends activity) (committed : status = .committed)
    (before : ∀ x, (t x).status ≠ .aborted) :
    activity.Unaborted ∧ ∀ x, (t' x).status ≠ .aborted := by
  cases checks with
  | go dtp next still => exact ⟨⟨committed, trivial⟩, fun x => still.statuses x ▸ before x⟩
  | finish writes =>
      refine ⟨trivial, fun x => ?_⟩
      by_cases own : x = client
      · simp [own, writes.written, committed]
      · exact writes.statuses x own ▸ before x

/-- A step of a thread that knows of no aborted transaction aborts none. -/
theorem Moves.unaborted (moves : Moves t t' client activity activity')
    (unaborted : activity.Unaborted) (before : ∀ x, (t x).status ≠ .aborted) :
    activity'.Unaborted ∧ ∀ x, (t' x).status ≠ .aborted := by
  have same : (∀ x, (t' x).status = (t x).status) → ∀ x, (t' x).status ≠ .aborted :=
    fun statuses x => statuses x ▸ before x
  cases moves with
  | addAcquire dtp t₁ takes still _ =>
      exact ⟨trivial, same fun x => (still x).1.trans (takes.statuses x)⟩
  | addRelease dtp gives => exact ⟨trivial, same gives.statuses⟩
  | commitAcquire dtp next takes _ => exact ⟨⟨rfl, trivial⟩, same takes.statuses⟩
  | commitAlone writes _ =>
      refine ⟨trivial, fun x => ?_⟩
      by_cases own : x = client
      · simp [own, writes.written]
      · exact writes.statuses x own ▸ before x
  | firstLock loop still | secondLock loop still | pollLock loop still | resultLock loop still =>
      exact ⟨unaborted.scan (before loop.trans), same still.statuses⟩
  | firstAborted loop writes => exact absurd rfl unaborted.2
  | secondOther loop read _ _ checks => exact checks.unaborted unaborted.1 before
  | resultUnlock loop read _ checks =>
      rw [if_neg unaborted.2] at checks
      exact checks.unaborted unaborted.1 before
  | waitP loop takes => exact ⟨unaborted.scan trivial, same takes.statuses⟩
  | waitV loop gives => exact ⟨unaborted.scan trivial, same gives.statuses⟩
  | firstOther loop _ _ still | secondPending loop still | countLock loop still
  | countUnlock loop still | pollPending loop still | pollOther loop _ _ still =>
      exact ⟨unaborted.scan trivial, same still.statuses⟩
  | commitTail pc _ effect after =>
      refine ⟨?_, same (effect.elim Still.statuses Gives.statuses)⟩
      rcases after with rfl | ⟨_, rfl⟩ <;> trivial
  | addRefLock _ still | addRefUnlock _ still => exact ⟨trivial, same still.statuses⟩
  | abortLook | abortLate | abortAcquire | abortTail => exact absurd unaborted id

structure Server.Unaborted (s : Server τ) : Prop where
  statuses : ∀ x, (s.trans x).status ≠ .aborted
  activities : ∀ client, (s.activity client).Unaborted

/-- Nothing that a thread can do then is kept from it. -/
theorem Server.Unaborted.allows (unaborted : s.Unaborted) (action : Action τ) :
    AllowsSafe s action := by
  cases action with
  | go client =>
      have activity := unaborted.activities client
      unfold AllowsSafe
      dsimp only
      split
      · rename_i now
        rw [now] at activity
        exact absurd activity id
      · exact .inl (unaborted.statuses _)
      · trivial
  | _ => trivial

variable [DecidableEq τ]

theorem step_unaborted {action : Action τ} (unaborted : s.Unaborted) (allowed : NoAborts s action)
    (ran : step s action = some s') : s'.Unaborted := by
  have started : ∀ activity : Activity τ, activity.Unaborted → s'.trans = s.trans →
      s'.activity = Function.update s.activity action.client activity → s'.Unaborted := by
    intro activity known trans now
    refine ⟨fun x => trans ▸ unaborted.statuses x, fun client => ?_⟩
    rw [now]
    by_cases own : client = action.client
    · rw [own, Function.update_self]
      exact known
    · rw [Function.update_of_ne own]
      exact unaborted.activities client
  cases action with
  | add client dtp =>
      unfold step at ran
      dsimp only at ran
      split at ran
      · cases ran
        exact started (.adding dtp .acquire) trivial rfl rfl
      · cases ran
  | commit client =>
      unfold step at ran
      dsimp only at ran
      split at ran
      · cases ran
        exact started (.committing .acquire) trivial rfl rfl
      · cases ran
  | abort client => exact absurd allowed id
  | go client =>
      have advances := advance_advances ran
      obtain ⟨known, statuses⟩ :=
        advances.moves.unaborted (unaborted.activities client) unaborted.statuses
      refine ⟨statuses, fun other => ?_⟩
      by_cases own : other = client
      · exact own ▸ known
      · exact advances.others other own ▸ unaborted.activities other

theorem unaborted_of_reachable (reached : Runs.Reachable step NoAborts Server.init s) :
    s.Unaborted := by
  have start : (Server.init : Server τ).Unaborted :=
    ⟨fun _ => by simp [Server.init, transCreate], fun _ => trivial⟩
  refine reached.invariant Server.Unaborted start ?_
  intro s action next unaborted allowed ran
  exact step_unaborted unaborted allowed ran

/-- In a run without a call of `trans_abort` no transaction is aborted, and what a committed
transaction depends on, through any chain, has been committed. -/
theorem commits_whole (reached : Runs.Reachable step NoAborts Server.init s) :
    (∀ tp, (s.trans tp).status ≠ .aborted) ∧ CommitSafe s.trans := by
  refine ⟨(unaborted_of_reachable reached).statuses, ?_⟩
  have kept : s.Unaborted ∧ s.Sound ∧ s.Covers := by
    refine reached.invariant (fun s => s.Unaborted ∧ s.Sound ∧ s.Covers)
      ⟨unaborted_of_reachable .refl, sound_init, covers_init⟩ ?_
    intro s action next holds allowed ran
    obtain ⟨unaborted, sound, covers⟩ := holds
    exact ⟨step_unaborted unaborted allowed ran, step_sound sound ran,
      step_covers sound covers (unaborted.allows action) ran⟩
  exact commitSafe_of_direct kept.2.2.direct

/-- Transaction 1 waits until 0 has been committed. -/
theorem commits_whole_example : ∃ s : Server Nat, Runs.Reachable step NoAborts Server.init s ∧
    (s.trans 1).status = .committed ∧ (s.trans 1).depends = [0] ∧
      (∀ tp, (s.trans tp).status ≠ .aborted) ∧ CommitSafe s.trans := by
  obtain ⟨s, -, reached, passed⟩ := @Runs.exists_reachable _ _ step _ Server.init commitInTurn
    (fun s action => decide (NoAborts s action)) (fun _ _ => of_decide_eq_true) (by decide)
    (fun s => (s.trans 1).status = .committed && (s.trans 1).depends = [0]) (by decide)
  simp only [Bool.and_eq_true, decide_eq_true_eq] at passed
  exact ⟨s, reached, passed.1, passed.2, commits_whole reached⟩

end Audible.Xacto
