import Audible.TransactionFinal
import Mathlib.Logic.Relation

set_option autoImplicit false

/- Whether a committed transaction has only committed dependencies. -/
namespace Audible.Xacto

variable {τ : Type} {t t' : τ → Transaction τ} {client : τ}
variable {activity activity' : Activity τ} {attempted : Bool}

/-- Directly, and through a chain. -/
structure CommitSafe (t : τ → Transaction τ) : Prop where
  direct : ∀ tp, (t tp).status = .committed → ∀ dtp ∈ (t tp).depends, (t dtp).status = .committed
  chained : ∀ tp dtp, (t tp).status = .committed →
    Relation.TransGen (fun tp dtp => dtp ∈ (t tp).depends) tp dtp → (t dtp).status = .committed

theorem commitSafe_of_direct (direct : ∀ tp, (t tp).status = .committed →
    ∀ dtp ∈ (t tp).depends, (t dtp).status = .committed) : CommitSafe t := by
  refine ⟨direct, fun tp dtp committed chain => ?_⟩
  induction chain with
  | single first => exact direct _ committed _ first
  | tail _ last ih => exact direct _ ih _ last

/-- A transaction that has been committed, or that its client is committing. -/
def Server.Relies (s : Server τ) (tp : τ) : Prop :=
  (s.trans tp).status = .committed ∨ ∃ pc, s.activity tp = .committing pc

/-- Where `trans_abort` takes the semaphore of a committed transaction, none that depends on it has
been committed or is being committed; where `trans_commit` asks for a status the second time, the
dependency has not been aborted, or another one had been. -/
def AllowsSafe (s : Server τ) : Action τ → Prop
  | .go client =>
      match s.activity client with
      | .aborting tp .acquire _ => (s.trans tp).status = .committed →
          ∀ other, tp ∈ (s.trans other).depends → ¬ s.Relies other
      | .committing (.scan loop .secondLock) =>
          (s.trans loop.trans).status ≠ .aborted ∨ loop.status = .aborted
      | _ => True
  | _ => True

/-- What is known of the dependency that is looked at. -/
def Looked (t : τ → Transaction τ) (dtp : τ) : ScanPc → Prop
  | .secondUnlock read => read ≠ .aborted ∧ (read = .committed → (t dtp).status = .committed)
  | .pollUnlock read => read ≠ .pending → ¬ Pending t dtp
  | .resultLock => ¬ Pending t dtp
  | .resultUnlock read => read ≠ .pending ∧ (read = .committed → (t dtp).status = .committed)
  | _ => True

/-- All dependencies but those still to come have been committed. -/
def Covered (t : τ → Transaction τ) (client : τ) (next : List τ) : Prop :=
  ∀ dtp ∈ (t client).depends, dtp ∈ next ∨ (t dtp).status = .committed

/-- What a commit that has found no aborted dependency knows. -/
def Known (t : τ → Transaction τ) (client : τ) : Activity τ → Prop
  | .committing (.scan loop pc) => (∀ dtp ∈ loop.trans :: loop.next, dtp ∈ (t client).depends) ∧
      (loop.status = .committed → Covered t client (loop.trans :: loop.next) ∧
        Looked t loop.trans pc)
  | _ => True

theorem known_outside (outside : ∀ pc, activity ≠ .committing pc) : Known t client activity := by
  cases activity with
  | committing pc => exact absurd rfl (outside pc)
  | _ => trivial

theorem known_starts (starts : activity.Starts client) : Known t client activity := by
  cases activity with
  | committing pc =>
      cases pc with
      | scan _ _ => cases starts
      | _ => trivial
  | _ => trivial

/-- What is found out stays true while pending transactions finish and committed ones that are
depended on stay committed. -/
theorem Looked.mono {dtp : τ} {pc : ScanPc} (looked : Looked t dtp pc)
    (pending : Pending t' dtp → Pending t dtp)
    (committed : (t dtp).status = .committed → (t' dtp).status = .committed) :
    Looked t' dtp pc := by
  cases pc with
  | secondUnlock read => exact ⟨looked.1, fun same => committed (looked.2 same)⟩
  | pollUnlock read => exact fun finished now => looked finished (pending now)
  | resultLock => exact fun now => looked (pending now)
  | resultUnlock read => exact ⟨looked.1, fun same => committed (looked.2 same)⟩
  | _ => trivial

theorem Known.mono (known : Known t client activity) (depends : (t' client).depends = (t client).depends)
    (pending : ∀ dtp, Pending t' dtp → Pending t dtp)
    (committed : ∀ pc, activity = .committing pc → ∀ dtp ∈ (t client).depends,
      (t dtp).status = .committed → (t' dtp).status = .committed) : Known t' client activity := by
  cases activity with
  | committing pc =>
      cases pc with
      | scan loop pc =>
          obtain ⟨listed, found⟩ := known
          refine ⟨fun dtp member => depends ▸ listed dtp member, fun unaborted => ?_⟩
          obtain ⟨covered, looked⟩ := found unaborted
          refine ⟨fun dtp member => ?_, looked.mono (pending _)
            (committed _ rfl _ (listed _ (List.mem_cons_self ..)))⟩
          rw [depends] at member
          exact (covered dtp member).imp_right (committed _ rfl dtp member)
      | _ => trivial
  | _ => trivial

theorem Moves.depends (moves : Moves t t' client activity activity') {other : τ}
    (kept : other = client → ∀ dtp, activity ≠ .adding dtp .acquire) :
    (t' other).depends = (t other).depends := by
  have checked : ∀ status depends activity, Checks t t' client status depends activity →
      (t' other).depends = (t other).depends := by
    intro status depends activity checks
    cases checks with
    | go _ _ still => exact still.depends other
    | finish writes => exact writes.depends other
  cases moves with
  | addAcquire dtp t₁ takes _ others =>
      have different : other ≠ client := fun same => kept same dtp rfl
      rw [others other different, takes.depends]
  | addRelease dtp gives => exact gives.depends other
  | commitAcquire dtp next takes _ => exact takes.depends other
  | commitAlone writes _ => exact writes.depends other
  | firstAborted loop writes => exact writes.depends other
  | secondOther loop read _ _ checks => exact checked _ _ _ checks
  | resultUnlock loop read _ checks => exact checked _ _ _ checks
  | waitP loop takes => exact takes.depends other
  | waitV loop gives => exact gives.depends other
  | abortAcquire tp callers _ writes => exact writes.depends other
  | commitTail pc _ effect _ =>
      rcases effect with still | gives
      · exact still.depends other
      · exact gives.depends other
  | abortTail tp pc callers _ effect _ =>
      rcases effect with still | gives
      · exact still.depends other
      · exact gives.depends other
  | abortLook tp pc pc' callers still _ => exact still.depends other
  | _ => rename_i still; exact still.depends other

/-- Only `trans_abort` changes the status of a committed transaction. -/
theorem Moves.committed {tp : τ} (moves : Moves t t' client activity activity')
    (placed : Placed t attempted client activity) (committed : (t tp).status = .committed)
    (spared : ∀ callers, activity ≠ .aborting tp .acquire callers) :
    (t' tp).status = .committed := by
  rcases moves.statuses placed with same | ⟨_, _, -, writes, -, before⟩ | ⟨aborted, callers, now, -, writes⟩
  · rw [same, committed]
  · have different : tp ≠ client := by
      rintro rfl
      exact before committed
    rw [writes.statuses tp different, committed]
  · have different : tp ≠ aborted := by
      rintro rfl
      exact spared callers now
    rw [writes.statuses tp different, committed]

/-- The second status that `trans_commit` asks for is not TRANS_ABORTED, unless it knows of another
aborted dependency. -/
def Careful (t : τ → Transaction τ) (activity : Activity τ) : Prop :=
  ∀ loop, activity = .committing (.scan loop .secondLock) →
    (t loop.trans).status ≠ .aborted ∨ loop.status = .aborted

theorem known_scan {loop : Scan τ} {pc pc' : ScanPc}
    (known : Known t client (.committing (.scan loop pc)))
    (statuses : ∀ x, (t' x).status = (t x).status) (depends : (t' client).depends = (t client).depends)
    (looked : loop.status = .committed → Looked t loop.trans pc → Looked t loop.trans pc') :
    Known t' client (.committing (.scan loop pc')) := by
  have kept : Known t client (.committing (.scan loop pc')) :=
    ⟨known.1, fun found => ⟨(known.2 found).1, looked found (known.2 found).2⟩⟩
  exact kept.mono depends (fun dtp now => by rwa [Pending, statuses] at now)
    (fun _ _ dtp _ now => by rwa [statuses])

/-- A dependency that is known to have been committed is passed. -/
theorem Covered.pass {dtp : τ} {next : List τ} (covered : Covered t client (dtp :: next))
    (committed : (t dtp).status = .committed) : Covered t client next := by
  intro other member
  rcases covered other member with here | done
  · rcases List.mem_cons.mp here with rfl | later
    · exact .inr committed
    · exact .inl later
  · exact .inr done

theorem Checks.known {status : TransStatus} {depends : List τ}
    (checks : Checks t t' client status depends activity)
    (listed : ∀ dtp ∈ depends, dtp ∈ (t client).depends)
    (covered : status = .committed → Covered t client depends) : Known t' client activity := by
  cases checks with
  | go dtp next still =>
      have kept : Known t client (.committing (.scan ⟨status, dtp, next⟩ .firstLock)) :=
        ⟨listed, fun found => ⟨covered found, trivial⟩⟩
      exact known_scan kept still.statuses (still.depends client) fun _ _ => trivial
  | finish _ => trivial

theorem committed_of_read {read : TransStatus} (unpending : read ≠ .pending)
    (unaborted : read ≠ .aborted) : read = .committed := by
  cases read with
  | pending => exact absurd rfl unpending
  | committed => rfl
  | aborted => exact absurd rfl unaborted

/-- A loop that goes on past a dependency, as far as it has found none that was aborted. -/
theorem Known.passes {loop : Scan τ} {pc : ScanPc}
    (known : Known t client (.committing (.scan loop pc))) {status : TransStatus}
    (committed : status = .committed → loop.status = .committed)
    (looked : status = .committed → Looked t loop.trans pc → (t loop.trans).status = .committed) :
    (∀ dtp ∈ loop.next, dtp ∈ (t client).depends) ∧
      (status = .committed → Covered t client loop.next) := by
  refine ⟨fun dtp member => known.1 dtp (List.mem_cons_of_mem _ member), fun found => ?_⟩
  obtain ⟨covered, seen⟩ := known.2 (committed found)
  exact covered.pass (looked found seen)

theorem Known.secondPasses {loop : Scan τ} {read : TransStatus}
    (known : Known t client (.committing (.scan loop (.secondUnlock read)))) (other : read ≠ .pending) :
    (∀ dtp ∈ loop.next, dtp ∈ (t client).depends) ∧
      (loop.status = .committed → Covered t client loop.next) :=
  known.passes id fun _ seen => seen.2 (committed_of_read other seen.1)

theorem Known.resultPasses {loop : Scan τ} {read : TransStatus}
    (known : Known t client (.committing (.scan loop (.resultUnlock read)))) :
    (∀ dtp ∈ loop.next, dtp ∈ (t client).depends) ∧
      ((if read = .aborted then .aborted else loop.status) = TransStatus.committed →
        Covered t client loop.next) := by
  by_cases aborted : read = .aborted
  · rw [if_pos aborted]
    exact known.passes (fun same => by cases same) fun same _ => by cases same
  · rw [if_neg aborted]
    exact known.passes id fun _ seen => seen.2 (committed_of_read seen.1 aborted)

/-- What the client's own thread knows after a step. -/
theorem Moves.known (moves : Moves t t' client activity activity')
    (known : Known t client activity) (careful : Careful t activity) : Known t' client activity' := by
  have outside := moves.outside
  have depends : ∀ pc, activity = .committing pc → (t' client).depends = (t client).depends :=
    fun pc same => moves.depends fun _ dtp => by simp [same]
  cases moves with
  | addAcquire | addRefLock | addRefUnlock | addRelease =>
      exact known_outside (outside (by simp))
  | abortLook | abortLate | abortAcquire | abortTail =>
      exact known_outside (outside (by simp))
  | commitAcquire dtp next takes all =>
      have start : Known t client (.committing (.scan ⟨.committed, dtp, next⟩ .firstLock)) := by
        refine ⟨fun other member => ?_, fun _ => ⟨fun other member => .inl ?_, trivial⟩⟩
        · rw [all]
          exact member
        · rw [← all]
          exact member
      exact known_scan start takes.statuses (depends _ rfl) fun _ _ => trivial
  | commitAlone | firstAborted => trivial
  | commitTail _ _ _ after =>
      rcases after with rfl | ⟨_, rfl⟩
      · trivial
      · trivial
  | secondLock loop still =>
      refine known_scan known still.statuses (depends _ rfl) fun found _ => ⟨?_, id⟩
      exact (careful loop rfl).resolve_right (by simp [found])
  | secondOther loop read _ other checks =>
      exact checks.known (known.secondPasses other).1 (known.secondPasses other).2
  | pollLock loop still =>
      exact known_scan known still.statuses (depends _ rfl) fun _ _ => id
  | pollOther loop read other still =>
      exact known_scan known still.statuses (depends _ rfl) fun _ seen => seen other
  | resultLock loop still =>
      exact known_scan known still.statuses (depends _ rfl) fun _ seen => ⟨seen, id⟩
  | resultUnlock loop read _ checks => exact checks.known known.resultPasses.1 known.resultPasses.2
  | waitP loop takes => exact known_scan known takes.statuses (depends _ rfl) fun _ _ => trivial
  | waitV loop gives => exact known_scan known gives.statuses (depends _ rfl) fun _ _ => trivial
  | _ =>
      rename_i still
      exact known_scan known still.statuses (depends _ rfl) fun _ _ => trivial

/-- A transaction is committed after all its dependencies. -/
theorem Moves.commits (moves : Moves t t' client activity activity')
    (known : Known t client activity) (before : (t client).status ≠ .committed)
    (now : (t' client).status = .committed) :
    ∀ dtp ∈ (t client).depends, (t dtp).status = .committed := by
  have same : (∀ x, (t' x).status = (t x).status) →
      ∀ dtp ∈ (t client).depends, (t dtp).status = .committed := by
    intro statuses
    exact absurd (statuses client ▸ now) before
  have checked : ∀ status depends activity, Checks t t' client status depends activity →
      (status = .committed → Covered t client depends) →
      ∀ dtp ∈ (t client).depends, (t dtp).status = .committed := by
    intro status depends activity checks covered
    cases checks with
    | go _ _ still => exact same still.statuses
    | finish writes =>
        intro dtp member
        exact (covered (writes.written.symm.trans now) dtp member).resolve_left (by simp)
  cases moves with
  | addAcquire dtp t₁ takes still _ => exact same fun x => (still x).1.trans (takes.statuses x)
  | addRelease dtp gives => exact same gives.statuses
  | commitAcquire dtp next takes _ => exact same takes.statuses
  | commitAlone writes alone => simp [alone]
  | firstAborted loop writes => cases writes.written.symm.trans now
  | secondOther loop read _ other checks => exact checked _ _ _ checks (known.secondPasses other).2
  | resultUnlock loop read _ checks => exact checked _ _ _ checks known.resultPasses.2
  | waitP loop takes => exact same takes.statuses
  | waitV loop gives => exact same gives.statuses
  | abortAcquire tp callers _ writes =>
      by_cases equal : client = tp
      · rw [equal, writes.written] at now
        cases now
      · exact absurd (writes.statuses client equal ▸ now) before
  | commitTail pc _ effect _ => exact same (effect.elim Still.statuses Gives.statuses)
  | abortTail tp pc callers _ effect _ => exact same (effect.elim Still.statuses Gives.statuses)
  | abortLook _ _ _ _ still _ => exact same still.statuses
  | _ => rename_i still; exact same still.statuses

/-- What the runs keep: the property itself, and what every commit under way knows. -/
structure Server.Covers (s : Server τ) : Prop where
  direct : ∀ tp, (s.trans tp).status = .committed →
    ∀ dtp ∈ (s.trans tp).depends, (s.trans dtp).status = .committed
  known : ∀ client, Known s.trans client (s.activity client)

theorem covers_init : (Server.init : Server τ).Covers := by
  refine ⟨fun tp committed => ?_, fun client => trivial⟩
  simp [Server.init, transCreate] at committed

variable {s s' : Server τ}

theorem AllowsSafe.careful (allowed : AllowsSafe s (.go client)) :
    Careful s.trans (s.activity client) := by
  intro loop now
  simp only [AllowsSafe, now] at allowed
  exact allowed

/-- What a transaction relies on stays committed. -/
theorem Advances.relies {tp dtp : τ} (advances : Advances s s' client) (sound : s.Sound)
    (allowed : AllowsSafe s (.go client)) (relies : s.Relies tp)
    (member : dtp ∈ (s.trans tp).depends) (committed : (s.trans dtp).status = .committed) :
    (s'.trans dtp).status = .committed := by
  refine advances.moves.committed (sound.placed client) committed fun callers now => ?_
  simp only [AllowsSafe, now] at allowed
  exact allowed committed tp member relies

/-- Nothing is added to the dependencies of a transaction that is relied on. -/
theorem Advances.depends {tp : τ} (advances : Advances s s' client) (sound : s.Sound)
    (relies : s.Relies tp) : (s'.trans tp).depends = (s.trans tp).depends := by
  refine advances.moves.depends fun same dtp adding => ?_
  have placed := sound.placed client
  rw [adding] at placed
  rw [same] at relies
  rcases relies with committed | ⟨pc, commits⟩
  · exact (sound.unattempted client placed).1 committed
  · rw [adding] at commits
    cases commits

theorem Advances.covers (advances : Advances s s' client) (sound : s.Sound) (covers : s.Covers)
    (allowed : AllowsSafe s (.go client)) : s'.Covers := by
  have placed := sound.placed client
  have finishes := advances.moves.finishes placed
  refine ⟨fun tp now dtp member => ?_, fun other => ?_⟩
  · by_cases before : (s.trans tp).status = .committed
    · rw [advances.depends sound (.inl before)] at member
      exact advances.relies sound allowed (.inl before) member (covers.direct tp before dtp member)
    · have own : tp = client := by
        by_contra different
        exact before (finishes.committed tp different now)
      subst own
      have commits : ∃ pc, s.activity tp = .committing pc := by
        by_contra outside
        rcases advances.moves.statuses placed with
          same | ⟨pc, _, commits, -⟩ | ⟨other, _, -, -, writes⟩
        · exact before (same tp ▸ now)
        · exact outside ⟨pc, commits⟩
        · by_cases equal : tp = other
          · rw [equal, writes.written] at now
            cases now
          · exact before (writes.statuses tp equal ▸ now)
      rw [advances.depends sound (.inr commits)] at member
      exact advances.relies sound allowed (.inr commits) member
        (advances.moves.commits (covers.known tp) before now dtp member)
  · by_cases own : other = client
    · rw [own]
      exact advances.moves.known (covers.known client) allowed.careful
    · rw [advances.others other own]
      refine (covers.known other).mono (advances.moves.depends fun same => absurd same own)
        finishes.pending fun pc commits dtp member committed => ?_
      exact advances.relies sound allowed (.inr ⟨pc, commits⟩) member committed

variable [DecidableEq τ]

theorem step_covers {action : Action τ} (sound : s.Sound) (covers : s.Covers)
    (allowed : AllowsSafe s action) (ran : step s action = some s') : s'.Covers := by
  rcases step_cases ran with ⟨-, calls⟩ | ⟨go, advances⟩
  · obtain ⟨same, activity, starts, now⟩ := calls.starts
    refine ⟨same ▸ covers.direct, fun client => ?_⟩
    rw [same, now]
    by_cases own : client = action.client
    · rw [own, Function.update_self]
      exact known_starts starts
    · rw [Function.update_of_ne own]
      exact covers.known client
  · rw [go] at allowed
    exact advances.covers sound covers allowed

/-- In every state of a run whose steps are allowed, what is committed depends on committed
transactions only. -/
theorem commit_safe (reached : Runs.Reachable step AllowsSafe Server.init s) :
    CommitSafe s.trans := by
  have kept : s.Sound ∧ s.Covers := by
    refine reached.invariant (fun s => s.Sound ∧ s.Covers) ⟨sound_init, covers_init⟩ ?_
    intro s action next holds allowed ran
    exact ⟨step_sound holds.1 ran, step_covers holds.1 holds.2 allowed ran⟩
  exact commitSafe_of_direct kept.2.direct

/-- Enough for a step to be allowed. -/
def Server.calm (s : Server Nat) : Action Nat → Bool
  | .go client =>
      match s.activity client with
      | .aborting tp .acquire _ => (s.trans tp).status ≠ .committed
      | .committing (.scan loop .secondLock) => (s.trans loop.trans).status ≠ .aborted
      | _ => true
  | _ => true

theorem Server.allowsSafe_of_calm (s : Server Nat) (action : Action Nat)
    (calm : s.calm action = true) : AllowsSafe s action := by
  cases action with
  | go client =>
      unfold AllowsSafe
      unfold Server.calm at calm
      dsimp only at calm ⊢
      split
      · rename_i now
        rw [now] at calm
        intro committed
        exact absurd committed (of_decide_eq_true calm)
      · rename_i now
        rw [now] at calm
        exact .inl (of_decide_eq_true calm)
      · trivial
  | _ => trivial

/-- Transaction 1 waits until 0 has been committed. -/
def commitInTurn : List (Action Nat) :=
  dependent ++ .commit 1 :: List.replicate 9 (.go 1) ++ .commit 0 :: List.replicate 7 (.go 0) ++
    List.replicate 6 (.go 1)

theorem commit_safe_example : ∃ s : Server Nat, Runs.Reachable step AllowsSafe Server.init s ∧
    (s.trans 1).status = .committed ∧ (s.trans 1).depends = [0] ∧ CommitSafe s.trans := by
  obtain ⟨s, -, reached, passed⟩ := @Runs.exists_reachable _ _ step _ Server.init commitInTurn _
    Server.allowsSafe_of_calm (by decide)
    (fun s => (s.trans 1).status = .committed && (s.trans 1).depends = [0]) (by decide)
  simp only [Bool.and_eq_true, decide_eq_true_eq] at passed
  exact ⟨s, reached, passed.1, passed.2, commit_safe reached⟩

/-- The client of 0 aborts between the two questions of the commit of 1. -/
theorem not_commit_safe :
    ¬ ∀ s : Server Nat, Runs.Reachable step Older Server.init s → CommitSafe s.trans := by
  apply Runs.not_forall_reachable (dependent ++ .commit 1 :: List.replicate 3 (.go 1) ++
      .abort 0 :: List.replicate 10 (.go 0) ++ List.replicate 2 (.go 1))
    (Runs.follows_of_check (fun _ _ => of_decide_eq_true) _ (by decide))
    (fun s => (s.trans 1).status = .committed && 0 ∈ (s.trans 1).depends &&
      (s.trans 0).status = .aborted)
  · decide
  · intro s passed safe
    simp only [Bool.and_eq_true, decide_eq_true_eq] at passed
    have committed := safe.direct 1 passed.1.1 0 passed.1.2
    rw [passed.2] at committed
    cases committed

end Audible.Xacto
