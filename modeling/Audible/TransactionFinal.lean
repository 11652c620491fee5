import Audible.TransactionLocks

set_option autoImplicit false

/- Whether the status of a transaction that is pending no more can change. -/
namespace Audible.Xacto

variable {τ : Type} {t t' : τ → Transaction τ} {holds : τ → τ → Prop} {client tp : τ}
variable {activity activity' : Activity τ} {attempted : Bool}

/-- Where `trans_commit` takes the semaphore, the transaction has not been aborted, or a dependency
of it has; where `trans_abort` does, the transaction has not been committed. -/
def Settled (t : τ → Transaction τ) (client : τ) : Activity τ → Prop
  | .committing .acquire => (t client).status = .aborted →
      ∃ dtp ∈ (t client).depends, (t dtp).status = .aborted
  | .aborting tp .acquire _ => (t tp).status ≠ .committed
  | _ => True

def AllowsFinal (s : Server τ) : Action τ → Prop
  | .go client => Settled s.trans client (s.activity client)
  | _ => True

instance [DecidableEq τ] (t : τ → Transaction τ) (client : τ) :
    (activity : Activity τ) → Decidable (Settled t client activity)
  | .committing .acquire => inferInstanceAs (Decidable (_ → ∃ dtp ∈ _, _))
  | .aborting _ .acquire _ => inferInstanceAs (Decidable (_ ≠ _))
  | .idle => .isTrue trivial
  | .adding _ _ => .isTrue trivial
  | .committing (.scan _ _) => .isTrue trivial
  | .committing (.tail _) => .isTrue trivial
  | .aborting _ .firstLock _ => .isTrue trivial
  | .aborting _ (.firstUnlock _) _ => .isTrue trivial
  | .aborting _ .secondLock _ => .isTrue trivial
  | .aborting _ (.secondUnlock _) _ => .isTrue trivial
  | .aborting _ (.tail _) _ => .isTrue trivial

instance [DecidableEq τ] (s : Server τ) : (action : Action τ) → Decidable (AllowsFinal s action)
  | .go client => inferInstanceAs (Decidable (Settled s.trans client (s.activity client)))
  | .add _ _ => .isTrue trivial
  | .commit _ => .isTrue trivial
  | .abort _ => .isTrue trivial

/-- The commit of a transaction that has been aborted has found an aborted dependency, or has
still to look at one. -/
def Doomed (t : τ → Transaction τ) (client : τ) : Activity τ → Prop
  | .committing (.scan loop .firstLock) => (t client).status = .aborted →
      loop.status = .aborted ∨ ∃ dtp ∈ loop.trans :: loop.next, (t dtp).status = .aborted
  | .committing (.scan loop (.firstUnlock read)) => (t client).status = .aborted →
      read = .aborted ∨ loop.status = .aborted ∨ ∃ dtp ∈ loop.next, (t dtp).status = .aborted
  | .committing (.scan loop _) => (t client).status = .aborted →
      loop.status = .aborted ∨ ∃ dtp ∈ loop.next, (t dtp).status = .aborted
  | _ => True

def Keeps (t t' : τ → Transaction τ) : Prop := ∀ x, ¬ Pending t x → (t' x).status = (t x).status

theorem Keeps.aborted {tp : τ} (keeps : Keeps t t') (now : (t tp).status = .aborted) :
    (t' tp).status = .aborted := by
  rw [keeps tp (by simp [Pending, now]), now]

theorem keeps_of_statuses (same : ∀ x, (t' x).status = (t x).status) : Keeps t t' :=
  fun x _ => same x

/-- A status is written for the first time, or again. -/
theorem Writes.keeps {status : TransStatus} (writes : Writes t t' tp status)
    (again : ¬ Pending t tp → (t tp).status = status) : Keeps t t' := by
  intro x finished
  by_cases same : x = tp
  · rw [same, writes.written, again (same ▸ finished)]
  · exact writes.statuses x same

theorem aborted_of_finished {status : TransStatus} (uncommitted : status ≠ .committed)
    (finished : status ≠ .pending) : status = .aborted := by
  cases status with
  | pending => exact absurd rfl finished
  | committed => exact absurd rfl uncommitted
  | aborted => rfl

theorem Checks.keeps {status : TransStatus} {depends : List τ}
    (checks : Checks t t' client status depends activity) (before : (t client).status ≠ .committed)
    (doomed : (t client).status = .aborted →
      status = .aborted ∨ ∃ dtp ∈ depends, (t dtp).status = .aborted) : Keeps t t' := by
  cases checks with
  | go _ _ still => exact keeps_of_statuses still.statuses
  | finish writes =>
      refine writes.keeps fun finished => ?_
      have aborted := aborted_of_finished before finished
      rcases doomed aborted with found | ⟨_, none, _⟩
      · rw [aborted, found]
      · cases none

/-- What the loop goes on with is no less doomed. -/
theorem doomed_result {status read : TransStatus} {depends : List τ}
    (doomed : status = .aborted ∨ ∃ dtp ∈ depends, (t dtp).status = .aborted) :
    (if read = .aborted then .aborted else status) = TransStatus.aborted ∨
      ∃ dtp ∈ depends, (t dtp).status = .aborted := by
  rcases doomed with found | later
  · left
    split
    · rfl
    · exact found
  · exact .inr later

/-- A step of a settled thread. -/
theorem Moves.keeps (moves : Moves t t' client activity activity')
    (placed : Placed t attempted client activity) (doomed : Doomed t client activity)
    (settled : Settled t client activity) : Keeps t t' := by
  cases moves with
  | addAcquire dtp t₁ takes still _ =>
      exact keeps_of_statuses fun x => (still x).1.trans (takes.statuses x)
  | addRelease dtp gives => exact keeps_of_statuses gives.statuses
  | commitAcquire dtp next takes _ => exact keeps_of_statuses takes.statuses
  | commitAlone writes alone =>
      refine writes.keeps fun finished => ?_
      obtain ⟨dtp, member, -⟩ := settled (aborted_of_finished placed finished)
      rw [alone] at member
      cases member
  | firstAborted loop writes => exact writes.keeps (aborted_of_finished placed.1)
  | secondOther loop read _ _ checks => exact checks.keeps placed.1 doomed
  | resultUnlock loop read _ checks =>
      exact checks.keeps placed.1 fun aborted => doomed_result (doomed aborted)
  | waitP loop takes => exact keeps_of_statuses takes.statuses
  | waitV loop gives => exact keeps_of_statuses gives.statuses
  | abortAcquire tp callers _ writes => exact writes.keeps (aborted_of_finished settled)
  | commitTail pc _ effect _ =>
      rcases effect with still | gives
      · exact keeps_of_statuses still.statuses
      · exact keeps_of_statuses gives.statuses
  | abortTail tp pc callers _ effect _ =>
      rcases effect with still | gives
      · exact keeps_of_statuses still.statuses
      · exact keeps_of_statuses gives.statuses
  | abortLook tp pc pc' callers still _ => exact keeps_of_statuses still.statuses
  | _ => rename_i still; exact keeps_of_statuses still.statuses

/-- Other threads abort no transaction while it is being committed, and keep what is aborted. -/
theorem Doomed.mono (doomed : Doomed t client activity) (keeps : Keeps t t')
    (locked : ∀ pc loop, activity = .committing (.scan loop pc) →
      (t' client).status = .aborted → (t client).status = .aborted) : Doomed t' client activity := by
  have later : ∀ depends : List τ, (∃ dtp ∈ depends, (t dtp).status = .aborted) →
      ∃ dtp ∈ depends, (t' dtp).status = .aborted := by
    rintro depends ⟨dtp, member, aborted⟩
    exact ⟨dtp, member, keeps.aborted aborted⟩
  cases activity with
  | committing pc =>
      cases pc with
      | scan loop pc =>
          cases pc with
          | firstLock => exact fun now => (doomed (locked _ loop rfl now)).imp_right (later _)
          | firstUnlock read =>
              exact fun now => (doomed (locked _ loop rfl now)).imp_right (Or.imp_right (later _))
          | _ => exact fun now => (doomed (locked _ loop rfl now)).imp_right (later _)
      | _ => trivial
  | _ => trivial

theorem Checks.doomed {status : TransStatus} {depends : List τ}
    (checks : Checks t t' client status depends activity)
    (doomed : (t client).status = .aborted →
      status = .aborted ∨ ∃ dtp ∈ depends, (t dtp).status = .aborted) : Doomed t' client activity := by
  cases checks with
  | go dtp next still =>
      intro now
      simp only [still.statuses] at now ⊢
      exact doomed now
  | finish writes => trivial

theorem doomed_outside (outside : ∀ pc, activity ≠ .committing pc) : Doomed t client activity := by
  cases activity with
  | committing pc => exact absurd rfl (outside pc)
  | _ => trivial

/-- The place of the client's own thread. -/
theorem Moves.doomed (moves : Moves t t' client activity activity')
    (doomed : Doomed t client activity) (settled : Settled t client activity) :
    Doomed t' client activity' := by
  have outside := moves.outside
  cases moves with
  | commitAcquire dtp next takes depends =>
      intro now
      simp only [takes.statuses] at now ⊢
      rw [← depends]
      exact .inr (settled now)
  | firstLock loop still =>
      intro now
      simp only [still.statuses] at now ⊢
      rcases doomed now with found | ⟨dtp, member, aborted⟩
      · exact .inr (.inl found)
      · rcases List.mem_cons.mp member with rfl | member
        · exact .inl aborted
        · exact .inr (.inr ⟨dtp, member, aborted⟩)
  | firstOther loop read other still =>
      intro now
      simp only [still.statuses] at now ⊢
      exact (doomed now).resolve_left other
  | secondOther loop read _ _ checks => exact checks.doomed doomed
  | resultUnlock loop read _ checks => exact checks.doomed fun now => doomed_result (doomed now)
  | waitP loop takes =>
      intro now
      simp only [takes.statuses] at now ⊢
      exact doomed now
  | waitV loop gives =>
      intro now
      simp only [gives.statuses] at now ⊢
      exact doomed now
  | addAcquire | addRefLock | addRefUnlock | addRelease =>
      exact doomed_outside (outside (by simp))
  | abortLook | abortLate | abortAcquire | abortTail =>
      exact doomed_outside (outside (by simp))
  | commitAlone _ _ => trivial
  | firstAborted _ _ => trivial
  | commitTail _ _ _ after =>
      rcases after with rfl | ⟨_, rfl⟩
      · trivial
      · trivial
  | _ =>
      rename_i still
      intro now
      simp only [still.statuses] at now ⊢
      exact doomed now

theorem doomed_starts (starts : activity.Starts client) : Doomed t client activity := by
  cases activity with
  | committing pc =>
      cases pc with
      | scan _ _ => cases starts
      | _ => trivial
  | _ => trivial

theorem holds_scan {loop : Scan τ} {pc : ScanPc} :
    (Activity.committing (.scan loop pc)).Holds client client := by
  cases pc with
  | waitV => exact .inl rfl
  | _ => rfl

variable [DecidableEq τ] {s s' : Server τ}

/-- A step that is allowed. -/
theorem step_keeps {action : Action τ} (sound : s.Sound)
    (doomed : ∀ client, Doomed s.trans client (s.activity client)) (allowed : AllowsFinal s action)
    (ran : step s action = some s') :
    Keeps s.trans s'.trans ∧ ∀ client, Doomed s'.trans client (s'.activity client) := by
  rcases step_cases ran with ⟨-, calls⟩ | ⟨go, advances⟩
  · obtain ⟨same, activity, starts, now⟩ := calls.starts
    rw [same, now]
    refine ⟨keeps_of_statuses fun _ => rfl, fun client => ?_⟩
    by_cases own : client = action.client
    · rw [own, Function.update_self]
      exact doomed_starts starts
    · rw [Function.update_of_ne own]
      exact doomed client
  · rw [go] at allowed
    have placed := sound.placed action.client
    have keeps := advances.moves.keeps placed (doomed _) allowed
    have finishes := advances.moves.finishes placed
    refine ⟨keeps, fun client => ?_⟩
    by_cases own : client = action.client
    · rw [own]
      exact advances.moves.doomed (doomed _) allowed
    · rw [advances.others client own]
      refine (doomed client).mono keeps fun pc loop scans now => ?_
      by_cases pending : Pending s.trans client
      · have held : (s.activity client).Holds client client := scans ▸ holds_scan
        have still := advances.moves.locked placed sound.exclusive own pending held
        rw [Pending, now] at still
        cases still
      · rwa [keeps client pending] at now

theorem kept_of_reachable (reached : Runs.Reachable step AllowsFinal Server.init s) :
    s.Sound ∧ ∀ client, Doomed s.trans client (s.activity client) := by
  refine reached.invariant (fun s => s.Sound ∧ ∀ client, Doomed s.trans client (s.activity client))
    ⟨sound_init, ?_⟩ ?_
  · intro client
    trivial
  · intro s action next holds allowed ran
    exact ⟨step_sound holds.1 ran, (step_keeps holds.1 holds.2 allowed ran).2⟩

/-- In runs whose steps are allowed, a status that is not TRANS_PENDING never changes again. -/
theorem status_final (reached : Runs.Reachable step AllowsFinal Server.init s)
    (later : Runs.Reachable step AllowsFinal s s') : Keeps s.trans s'.trans := by
  have kept := kept_of_reachable reached
  refine (later.invariant (fun next => (next.Sound ∧
    ∀ client, Doomed next.trans client (next.activity client)) ∧ Keeps s.trans next.trans)
    ⟨kept, keeps_of_statuses fun _ => rfl⟩ ?_).2
  intro next action after holds allowed ran
  obtain ⟨⟨sound, doomed⟩, keeps⟩ := holds
  have onward := step_keeps sound doomed allowed ran
  refine ⟨⟨step_sound sound ran, onward.2⟩, fun x finished => ?_⟩
  have before := keeps x finished
  rw [onward.1 x (by rwa [Pending, before]), before]

/-- Transaction 1 depends on transaction 0. -/
def dependent : List (Action Nat) := .add 1 0 :: List.replicate 4 (.go 1)

/-- The client of 1 aborts, which aborts 0 as well. -/
def abortedTogether : List (Action Nat) := dependent ++ .abort 1 :: List.replicate 20 (.go 1)

/-- Transaction 1 has been aborted with its dependency, and its client tries to commit it. -/
theorem status_final_example : ∃ s s' : Server Nat,
    Runs.Reachable step AllowsFinal Server.init s ∧ Runs.Reachable step AllowsFinal s s' ∧
      (s.trans 1).status = .aborted ∧ s'.attempted 1 = true ∧ Keeps s.trans s'.trans := by
  have enough : ∀ (s : Server Nat) action, decide (AllowsFinal s action) = true →
      AllowsFinal s action := fun _ _ => of_decide_eq_true
  obtain ⟨s, -, reached, passed⟩ := @Runs.exists_reachable _ _ step _ Server.init abortedTogether _
    enough (by decide) (fun s => (s.trans 1).status = .aborted &&
      Runs.followsBy step (fun s action => decide (AllowsFinal s action)) s
        (.commit 1 :: List.replicate 3 (.go 1)) &&
        (Runs.run step s (.commit 1 :: List.replicate 3 (.go 1))).any fun s' => s'.attempted 1)
    (by decide)
  simp only [Bool.and_eq_true, decide_eq_true_eq] at passed
  obtain ⟨⟨aborted, follows⟩, last⟩ := passed
  obtain ⟨s', -, onward, attempted⟩ :=
    Runs.exists_reachable (.commit 1 :: List.replicate 3 (.go 1)) enough follows _ last
  exact ⟨s, s', reached, onward, aborted, attempted, status_final reached onward⟩

/-- Dependencies go to transactions with smaller ids, as in the store, so there is no cycle. -/
def Older (_ : Server Nat) : Action Nat → Prop
  | .add client dtp => dtp < client
  | _ => True

instance (s : Server Nat) : (action : Action Nat) → Decidable (Older s action)
  | .add client dtp => inferInstanceAs (Decidable (dtp < client))
  | .commit _ => .isTrue trivial
  | .abort _ => .isTrue trivial
  | .go _ => .isTrue trivial

/-- The client of 0 commits after the client of 1 has aborted both. -/
theorem not_status_final : ¬ ∀ s s' : Server Nat, Runs.Reachable step Older Server.init s →
    Runs.Reachable step Older s s' → Keeps s.trans s'.trans := by
  intro always
  have enough : ∀ (s : Server Nat) action, decide (Older s action) = true → Older s action :=
    fun _ _ => of_decide_eq_true
  obtain ⟨s, -, reached, passed⟩ := @Runs.exists_reachable _ _ step _ Server.init abortedTogether _
    enough (by decide) (fun s => (s.trans 0).status = .aborted &&
      (Runs.run step s [.commit 0, .go 0]).any fun s' => (s'.trans 0).status = .committed)
    (by decide)
  simp only [Bool.and_eq_true, decide_eq_true_eq] at passed
  obtain ⟨s', later, committed⟩ := (Option.any_eq_true _ _).mp passed.2
  rw [decide_eq_true_eq] at committed
  have follows : Runs.Follows step Older s [.commit 0, .go 0] :=
    ⟨trivial, fun _ _ => ⟨trivial, fun _ _ => trivial⟩⟩
  have onward := Runs.reachable_run _ .refl follows later
  have kept := always s s' reached onward 0 (by simp [Pending, passed.1])
  rw [committed, passed.1] at kept
  cases kept

end Audible.Xacto
