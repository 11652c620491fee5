import Audible.Holding
import Audible.Runs
import Audible.TransactionSteps

set_option autoImplicit false

/- Who holds the semaphore of a pending transaction, in any run. -/
namespace Audible.Xacto

variable {τ : Type} {t t' : τ → Transaction τ} {holds holds' : τ → τ → Prop} {client tp : τ}

def Pending (t : τ → Transaction τ) (tp : τ) : Prop := (t tp).status = .pending

/-- The semaphore of a pending transaction is 1, or it is 0 and one thread holds it. -/
structure Exclusive (t : τ → Transaction τ) (holds : τ → τ → Prop) : Prop where
  agrees : Holding.Agrees (fun tp => Pending t tp ∧ (t tp).sem = 0)
    (fun client tp => Pending t tp ∧ holds client tp)
  single : ∀ tp, Pending t tp → (t tp).sem ≤ 1

theorem Exclusive.congr (exclusive : Exclusive t holds)
    (statuses : ∀ x, (t' x).status = (t x).status) (sems : ∀ x, (t' x).sem = (t x).sem)
    (holders : ∀ a x, Pending t x → (holds' a x ↔ holds a x)) : Exclusive t' holds' := by
  have same : ∀ x, Pending t' x ↔ Pending t x := fun x => by rw [Pending, Pending, statuses]
  refine ⟨exclusive.agrees.congr (fun x => ?_) (fun a x => ?_), fun x pending => ?_⟩
  · rw [same, sems]
  · rw [same]
    exact and_congr_right (holders a x)
  · rw [sems]
    exact exclusive.single x ((same x).mp pending)

theorem Exclusive.takes (exclusive : Exclusive t holds) (client : τ) (takes : Takes t t' tp)
    (holders : ∀ a x, holds' a x ↔ a = client ∧ x = tp ∨ holds a x) : Exclusive t' holds' := by
  have taken := takes.taken
  have statuses : ∀ x, Pending t' x ↔ Pending t x := fun x => by
    rw [Pending, Pending, takes.statuses]
  by_cases pending : Pending t tp
  · have atMost := exclusive.single tp pending
    refine ⟨exclusive.agrees.acquire client tp (fun flagged => by omega) (fun x => ?_) (fun a x => ?_),
      fun x still => ?_⟩
    · rw [statuses]
      by_cases same : x = tp
      · subst same
        simp only [pending, true_and, true_or, iff_true]
        omega
      · simp [same, takes.others x same]
    · rw [statuses, holders, and_or_left]
      refine or_congr_left ⟨And.right, fun same => ⟨?_, same⟩⟩
      rw [same.2]
      exact pending
    · by_cases same : x = tp
      · subst same
        omega
      · rw [takes.others x same]
        exact exclusive.single x ((statuses x).mp still)
  · have different : ∀ x, Pending t x → x ≠ tp := fun x now same => pending (same ▸ now)
    refine ⟨exclusive.agrees.congr (fun x => ?_) (fun a x => ?_), fun x still => ?_⟩
    · rw [statuses]
      refine and_congr_right fun now => ?_
      rw [takes.others x (different x now)]
    · rw [statuses, holders]
      refine and_congr_right fun now => ?_
      simp [different x now]
    · have now := (statuses x).mp still
      rw [takes.others x (different x now)]
      exact exclusive.single x now

/-- A V on a transaction that is pending is made by the thread that holds it. -/
theorem Exclusive.gives (exclusive : Exclusive t holds) (client : τ) (gives : Gives t t' tp)
    (held : Pending t tp → holds client tp)
    (holders : ∀ a x, Pending t x → (holds' a x ↔ ¬ (a = client ∧ x = tp) ∧ holds a x)) :
    Exclusive t' holds' := by
  have given := gives.given
  have statuses : ∀ x, Pending t' x ↔ Pending t x := fun x => by
    rw [Pending, Pending, gives.statuses]
  by_cases pending : Pending t tp
  · have empty := ((exclusive.agrees.flagged tp).mpr ⟨client, pending, held pending⟩).2
    refine ⟨exclusive.agrees.drop ⟨pending, held pending⟩ (fun x => ?_) (fun a x => ?_),
      fun x still => ?_⟩
    · rw [statuses]
      by_cases same : x = tp
      · subst same
        simp only [ne_eq, not_true_eq_false, false_and, iff_false, not_and]
        omega
      · simp [same, gives.others x same]
    · rw [statuses, and_left_comm]
      exact and_congr_right fun now => holders a x now
    · by_cases same : x = tp
      · subst same
        omega
      · rw [gives.others x same]
        exact exclusive.single x ((statuses x).mp still)
  · have different : ∀ x, Pending t x → x ≠ tp := fun x now same => pending (same ▸ now)
    refine ⟨exclusive.agrees.congr (fun x => ?_) (fun a x => ?_), fun x still => ?_⟩
    · rw [statuses]
      refine and_congr_right fun now => ?_
      rw [gives.others x (different x now)]
    · rw [statuses]
      refine and_congr_right fun now => ?_
      rw [holders a x now]
      simp [different x now]
    · have now := (statuses x).mp still
      rw [gives.others x (different x now)]
      exact exclusive.single x now

/-- A transaction that is pending no more is not looked at any more. -/
theorem Exclusive.writes {status : TransStatus} (exclusive : Exclusive t holds)
    (writes : Writes t t' tp status) (finished : status ≠ .pending)
    (holders : ∀ a x, x ≠ tp → (holds' a x ↔ holds a x)) : Exclusive t' holds' := by
  have statuses : ∀ x, Pending t' x ↔ x ≠ tp ∧ Pending t x := fun x => by
    by_cases same : x = tp
    · subst same
      simp [Pending, writes.written, finished]
    · simp [Pending, writes.statuses x same, same]
  refine ⟨exclusive.agrees.restrict (fun x => x ≠ tp) (fun x => ?_) (fun a x => ?_), fun x still => ?_⟩
  · rw [statuses, and_assoc]
    refine and_congr_right fun different => and_congr_right fun _ => ?_
    rw [writes.sems x different]
  · rw [statuses, and_assoc]
    exact and_congr_right fun different => and_congr_right fun _ => holders a x different
  · obtain ⟨different, now⟩ := (statuses x).mp still
    rw [writes.sems x different]
    exact exclusive.single x now

/-- The thread of `client` has taken the semaphore of `tp`, unless that is of a transaction that
it knows to be pending no more. -/
def Activity.Holds (client tp : τ) : Activity τ → Prop
  | .adding _ .acquire => False
  | .adding _ _ => tp = client
  | .committing (.scan loop .waitV) => tp = client ∨ tp = loop.trans
  | .committing (.scan _ _) => tp = client
  | _ => False

/-- What a thread knows from where it is. -/
def Placed (t : τ → Transaction τ) (attempted : Bool) (client : τ) : Activity τ → Prop
  | .idle => True
  | .adding _ _ => attempted = false
  | .committing .acquire => (t client).status ≠ .committed
  | .committing (.scan loop pc) => (t client).status ≠ .committed ∧ loop.status ≠ .pending ∧
      (pc = .waitV → loop.trans = client → ¬ Pending t client)
  | .committing (.tail _) => ¬ Pending t client
  | .aborting tp pc callers => (∀ caller ∈ callers, ¬ Pending t caller.trans) ∧
      ∀ tail, pc = .tail tail → ¬ Pending t tp

structure Server.Sound (s : Server τ) : Prop where
  exclusive : Exclusive s.trans (fun client tp => (s.activity client).Holds client tp)
  placed : ∀ client, Placed s.trans (s.attempted client) client (s.activity client)
  unattempted : ∀ client, s.attempted client = false →
    (s.trans client).status ≠ .committed ∧ ∀ pc, s.activity client ≠ .committing pc

/-- What other threads do to the statuses does not concern a thread. -/
theorem Placed.mono {attempted : Bool} {activity : Activity τ}
    (placed : Placed t attempted client activity) (pending : ∀ x, Pending t' x → Pending t x)
    (committed : (t' client).status = .committed → (t client).status = .committed) :
    Placed t' attempted client activity := by
  cases activity with
  | idle => trivial
  | adding dtp pc => exact placed
  | committing pc =>
      cases pc with
      | acquire => exact fun now => placed (committed now)
      | scan loop pc =>
          exact ⟨fun now => placed.1 (committed now), placed.2.1,
            fun waits same now => placed.2.2 waits same (pending _ now)⟩
      | tail pc => exact fun now => placed (pending _ now)
  | aborting tp pc callers =>
      exact ⟨fun caller member now => placed.1 caller member (pending _ now),
        fun tail same now => placed.2 tail same (pending _ now)⟩

theorem placed_abortFrom {attempted : Bool} {callers : List (Caller τ)} (depends : List τ)
    (finished : ¬ Pending t tp) (rest : ∀ caller ∈ callers, ¬ Pending t caller.trans) :
    Placed t attempted client (abortFrom tp callers depends) := by
  cases depends with
  | nil => exact ⟨rest, fun _ _ => finished⟩
  | cons dtp next =>
      refine ⟨fun caller member => ?_, fun _ same => by cases same⟩
      rcases List.mem_cons.mp member with rfl | member
      · exact finished
      · exact rest caller member

theorem placed_returnTo {attempted : Bool} {callers : List (Caller τ)}
    (rest : ∀ caller ∈ callers, ¬ Pending t caller.trans) :
    Placed t attempted client (returnTo callers) := by
  cases callers with
  | nil => trivial
  | cons caller callers =>
      exact placed_abortFrom caller.next (rest caller (List.mem_cons_self ..))
        fun other member => rest other (List.mem_cons_of_mem _ member)

/-- A thread that aborts holds only transactions that are pending no more. -/
theorem holds_abortFrom {callers : List (Caller τ)} {depends : List τ} {x : τ} :
    ¬ (abortFrom tp callers depends).Holds client x := by
  cases depends <;> exact id

theorem holds_returnTo {callers : List (Caller τ)} {x : τ} :
    ¬ (returnTo callers).Holds client x := by
  cases callers with
  | nil => exact id
  | cons caller callers => exact holds_abortFrom

/-- No transaction becomes pending, and none but the client's own becomes COMMITTED. -/
structure Finishes (t t' : τ → Transaction τ) (client : τ) : Prop where
  pending : ∀ x, Pending t' x → Pending t x
  committed : ∀ x ≠ client, (t' x).status = .committed → (t x).status = .committed

theorem finishes_of_statuses (same : ∀ x, (t' x).status = (t x).status) : Finishes t t' client :=
  ⟨fun x now => by rwa [Pending, same] at now, fun x _ now => by rwa [same] at now⟩

theorem Writes.finishes {status : TransStatus} (writes : Writes t t' tp status)
    (finished : status ≠ .pending) (own : status = .committed → tp = client) : Finishes t t' client := by
  constructor
  · intro x now
    by_cases same : x = tp
    · rw [same, Pending, writes.written] at now
      exact absurd now finished
    · rwa [Pending, writes.statuses x same] at now
  · intro x other now
    by_cases same : x = tp
    · rw [same, writes.written] at now
      exact absurd (same.trans (own now)) other
    · rwa [writes.statuses x same] at now

variable {activity activity' : Activity τ} {attempted : Bool}

/-- The status that `trans_commit` goes on with. -/
theorem result_ne_pending {status read : TransStatus} (finished : status ≠ .pending) :
    (if read = .aborted then .aborted else status) ≠ TransStatus.pending := by
  split
  · simp
  · exact finished

/-- Where a status is written: by the commit of the client's own transaction, or by an abort. -/
theorem Moves.statuses (moves : Moves t t' client activity activity')
    (placed : Placed t attempted client activity) :
    (∀ x, (t' x).status = (t x).status) ∨
      (∃ pc status, activity = .committing pc ∧ Writes t t' client status ∧ status ≠ .pending ∧
        (t client).status ≠ .committed) ∨
      ∃ tp callers, activity = .aborting tp .acquire callers ∧ 0 < (t tp).sem ∧
        Writes t t' tp .aborted := by
  have checked : ∀ {status depends pc}, status ≠ .pending → (t client).status ≠ .committed →
      activity = .committing pc → Checks t t' client status depends activity' →
      (∀ x, (t' x).status = (t x).status) ∨
        ∃ pc status, activity = .committing pc ∧ Writes t t' client status ∧ status ≠ .pending ∧
          (t client).status ≠ .committed := by
    intro status depends pc finished before now checks
    cases checks with
    | go _ _ still => exact .inl still.statuses
    | finish writes => exact .inr ⟨pc, status, now, writes, finished, before⟩
  cases moves with
  | addAcquire dtp t₁ takes still _ => exact .inl fun x => (still x).1.trans (takes.statuses x)
  | addRelease dtp gives => exact .inl gives.statuses
  | commitAcquire dtp next takes _ => exact .inl takes.statuses
  | commitAlone writes _ => exact .inr (.inl ⟨_, _, rfl, writes, by simp, placed⟩)
  | firstAborted loop writes => exact .inr (.inl ⟨_, _, rfl, writes, by simp, placed.1⟩)
  | secondOther loop read _ _ checks =>
      exact (checked placed.2.1 placed.1 rfl checks).imp_right .inl
  | resultUnlock loop read _ checks =>
      exact (checked (result_ne_pending placed.2.1) placed.1 rfl checks).imp_right .inl
  | waitP loop takes => exact .inl takes.statuses
  | waitV loop gives => exact .inl gives.statuses
  | abortAcquire tp callers positive writes => exact .inr (.inr ⟨tp, callers, rfl, positive, writes⟩)
  | commitTail pc _ effect _ => exact .inl (effect.elim Still.statuses Gives.statuses)
  | abortTail tp pc callers _ effect _ => exact .inl (effect.elim Still.statuses Gives.statuses)
  | abortLook tp pc pc' callers still _ => exact .inl still.statuses
  | _ => rename_i still; exact .inl still.statuses

theorem Moves.finishes (moves : Moves t t' client activity activity')
    (placed : Placed t attempted client activity) : Finishes t t' client := by
  rcases moves.statuses placed with same | ⟨_, _, -, writes, finished, -⟩ | ⟨_, _, -, -, writes⟩
  · exact finishes_of_statuses same
  · exact writes.finishes finished fun _ => rfl
  · exact writes.finishes (by simp) (by simp)

theorem Checks.placed {status : TransStatus} {depends : List τ}
    (checks : Checks t t' client status depends activity) (finished : status ≠ .pending)
    (before : (t client).status ≠ .committed) : Placed t' attempted client activity := by
  cases checks with
  | go dtp next still => exact ⟨by rwa [still.statuses], finished, fun waits => by cases waits⟩
  | finish writes =>
      intro now
      exact finished (writes.written.symm.trans now)

/-- Where the client's own thread is after a step. A V after a wait for the transaction itself
comes only when that is pending no more. -/
theorem Moves.placed (moves : Moves t t' client activity activity') (exclusive : Exclusive t holds)
    (held : ∀ x, activity.Holds client x → holds client x)
    (placed : Placed t attempted client activity) : Placed t' attempted client activity' := by
  have finishes := moves.finishes placed
  cases moves with
  | addAcquire dtp t₁ takes _ _ => exact placed
  | addRefLock dtp still => exact placed
  | addRefUnlock dtp still => exact placed
  | addRelease dtp gives => trivial
  | commitAcquire dtp next takes _ =>
      exact ⟨by rw [takes.statuses]; exact placed, by simp, fun waits => by cases waits⟩
  | commitAlone writes _ =>
      intro now
      exact absurd (writes.written.symm.trans now) (by simp)
  | firstAborted loop writes =>
      intro now
      exact absurd (writes.written.symm.trans now) (by simp)
  | secondOther loop read _ _ checks => exact checks.placed placed.2.1 placed.1
  | resultUnlock loop read _ checks => exact checks.placed (result_ne_pending placed.2.1) placed.1
  | waitP loop takes =>
      refine ⟨by rw [takes.statuses]; exact placed.1, placed.2.1, fun _ same now => ?_⟩
      have before : Pending t client := finishes.pending client now
      have mine := held client rfl
      have empty := ((exclusive.agrees.flagged client).mpr ⟨client, before, mine⟩).2
      have taken := takes.taken
      rw [same] at taken
      omega
  | waitV loop gives =>
      exact ⟨by rw [gives.statuses]; exact placed.1, placed.2.1, fun waits => by cases waits⟩
  | commitTail pc _ _ after =>
      rcases after with rfl | ⟨next, rfl⟩
      · trivial
      · exact fun now => placed (finishes.pending client now)
  | abortLook tp pc pc' callers still early =>
      exact ⟨fun caller member now => placed.1 caller member (finishes.pending _ now),
        fun tail same => absurd same (early tail)⟩
  | abortLate tp pc callers still =>
      exact placed_returnTo fun caller member now => placed.1 caller member (finishes.pending _ now)
  | abortAcquire tp callers _ writes =>
      refine placed_abortFrom _ (fun now => ?_)
        fun caller member now => placed.1 caller member (finishes.pending _ now)
      exact absurd (writes.written.symm.trans now) (by simp)
  | abortTail tp pc callers _ _ after =>
      have rest : ∀ caller ∈ callers, ¬ Pending t' caller.trans := fun caller member now =>
        placed.1 caller member (finishes.pending _ now)
      rcases after with rfl | ⟨next, rfl⟩
      · exact placed_returnTo rest
      · exact ⟨rest, fun tail same now => placed.2 pc rfl (finishes.pending _ now)⟩
  | _ =>
      rename_i still
      exact ⟨by rw [still.statuses]; exact placed.1, placed.2.1, fun waits => by cases waits⟩

theorem abortFrom_ne_committing {callers : List (Caller τ)} {depends : List τ} {pc : CommitPc τ} :
    abortFrom tp callers depends ≠ .committing pc := by
  cases depends <;> simp [abortFrom]

theorem returnTo_ne_committing {callers : List (Caller τ)} {pc : CommitPc τ} :
    returnTo callers ≠ .committing pc := by
  cases callers with
  | nil => simp [returnTo]
  | cons caller callers => exact abortFrom_ne_committing

/-- Only `trans_commit` commits. -/
theorem Moves.outside (moves : Moves t t' client activity activity')
    (outside : ∀ pc, activity ≠ .committing pc) : ∀ pc, activity' ≠ .committing pc := by
  cases moves with
  | addAcquire | addRefLock | addRefUnlock | addRelease | abortLook => simp
  | abortLate => exact fun _ => returnTo_ne_committing
  | abortAcquire => exact fun _ => abortFrom_ne_committing
  | abortTail tp pc callers _ effect next =>
      intro _
      rcases next with rfl | ⟨next, rfl⟩
      · exact returnTo_ne_committing
      · simp
  | _ => exact absurd rfl (outside _)

/-- While a thread has the semaphore of a pending transaction, that stays pending. -/
theorem Moves.locked {other : τ} (moves : Moves t t' client activity activity')
    (placed : Placed t attempted client activity) (exclusive : Exclusive t holds)
    (different : other ≠ client) (pending : Pending t other) (held : holds other other) :
    Pending t' other := by
  rcases moves.statuses placed with same | ⟨_, _, -, writes, -, -⟩ | ⟨tp, _, -, positive, writes⟩
  · rwa [Pending, same]
  · rwa [Pending, writes.statuses other different]
  · by_cases equal : other = tp
    · have empty := ((exclusive.agrees.flagged other).mpr ⟨other, pending, held⟩).2
      rw [equal] at empty
      omega
    · rwa [Pending, writes.statuses other equal]

-- The holders after a step: the client's from where its thread is, the others as before.

section Turns

open Holding

variable {mine mine' : τ → Prop}

theorem Exclusive.still (exclusive : Exclusive t holds) (still : Still t t')
    (turn : Turn holds holds' client mine mine') (same : ∀ x, mine' x ↔ mine x) :
    Exclusive t' holds' :=
  exclusive.congr still.statuses still.sems fun a x _ => turn.keeps (same x) a

/-- A V on a transaction that is pending no more. -/
theorem Exclusive.late (exclusive : Exclusive t holds) (finished : ¬ Pending t tp)
    (effect : Still t t' ∨ Gives t t' tp) (turn : Turn holds holds' client mine mine')
    (same : ∀ x, mine' x ↔ mine x) : Exclusive t' holds' := by
  rcases effect with still | gives
  · exact exclusive.still still turn same
  · refine exclusive.gives client gives (fun now => absurd now finished) fun a x now => ?_
    have different : x ≠ tp := fun equal => finished (equal ▸ now)
    exact turn.loses (by simp [same, different]) a

/-- The client holds only its own transaction while it goes through the dependencies. -/
theorem Exclusive.checks {status : TransStatus} {depends : List τ} (exclusive : Exclusive t holds)
    (checks : Checks t t' client status depends activity') (finished : status ≠ .pending)
    (turn : Turn holds holds' client (· = client) (activity'.Holds client)) :
    Exclusive t' holds' := by
  cases checks with
  | go dtp next still => exact exclusive.still still turn fun _ => Iff.rfl
  | finish writes =>
      exact exclusive.writes writes finished fun a x other => turn.keeps (iff_of_false id other) a

theorem Moves.exclusive (moves : Moves t t' client activity activity')
    (exclusive : Exclusive t holds) (placed : Placed t attempted client activity)
    (turn : Turn holds holds' client (activity.Holds client) (activity'.Holds client)) :
    Exclusive t' holds' := by
  cases moves with
  | addAcquire dtp t₁ takes still others =>
      have taken : Exclusive t₁ holds' :=
        exclusive.takes client takes fun a x => turn.gets (by simp [Activity.Holds]) a
      exact taken.congr (fun x => (still x).1) (fun x => (still x).2) fun _ _ _ => Iff.rfl
  | addRelease dtp gives =>
      refine exclusive.gives client gives (fun _ => (turn.before client).mpr rfl) fun a x _ => ?_
      exact turn.loses (by simp [Activity.Holds]) a
  | commitAcquire dtp next takes _ =>
      exact exclusive.takes client takes fun a x => turn.gets (by simp [Activity.Holds]) a
  | commitAlone writes _ =>
      exact exclusive.writes writes (by simp) fun a x _ => turn.keeps (by simp [Activity.Holds]) a
  | firstAborted loop writes =>
      refine exclusive.writes writes (by simp) fun a x other => ?_
      exact turn.keeps (by simp [Activity.Holds, other]) a
  | secondOther loop read _ _ checks => exact exclusive.checks checks placed.2.1 turn
  | resultUnlock loop read _ checks =>
      exact exclusive.checks checks (result_ne_pending placed.2.1) turn
  | waitP loop takes =>
      refine exclusive.takes client takes fun a x => ?_
      exact turn.gets (by simp [Activity.Holds, or_comm]) a
  | waitV loop gives =>
      refine exclusive.gives client gives (fun _ => (turn.before _).mpr (.inr rfl))
        fun a x now => turn.loses ?_ a
      have different : x = client → x ≠ loop.trans := by
        rintro rfl same
        exact placed.2.2 rfl same.symm now
      simp only [Activity.Holds]
      tauto
  | commitTail pc _ effect next =>
      refine exclusive.late placed effect turn fun x => ?_
      rcases next with rfl | ⟨next, rfl⟩ <;> rfl
  | abortLook tp pc pc' callers still _ => exact exclusive.still still turn fun _ => Iff.rfl
  | abortLate tp pc callers still =>
      exact exclusive.still still turn fun _ => iff_of_false holds_returnTo id
  | abortAcquire tp callers _ writes =>
      refine exclusive.writes writes (by simp) fun a x _ => ?_
      exact turn.keeps (iff_of_false holds_abortFrom id) a
  | abortTail tp pc callers _ effect next =>
      refine exclusive.late (placed.2 pc rfl) effect turn fun x => ?_
      rcases next with rfl | ⟨next, rfl⟩
      · exact iff_of_false holds_returnTo id
      · rfl
  | _ =>
      rename_i still
      exact exclusive.still still turn fun _ => Iff.rfl

end Turns

variable {s s' : Server τ}

theorem sound_init : (Server.init : Server τ).Sound := by
  refine ⟨⟨⟨fun x => ?_, fun a b x first => ?_⟩, fun x _ => ?_⟩, fun client => trivial,
    fun client _ => ⟨?_, ?_⟩⟩
  · simp [Server.init, transCreate, Activity.Holds]
  · cases first.2
  · simp [Server.init, transCreate]
  · simp [Server.init, transCreate]
  · simp [Server.init]

variable [DecidableEq τ]

/-- A client calls a function, which has taken nothing yet. -/
theorem Server.Sound.calls {activity : Activity τ} (sound : s.Sound)
    (idle : s.activity client = .idle) (trans : s'.trans = s.trans)
    (now : s'.activity = Function.update s.activity client activity)
    (others : ∀ other ≠ client, s'.attempted other = s.attempted other)
    (free : ∀ x, ¬ activity.Holds client x)
    (placed : Placed s.trans (s'.attempted client) client activity)
    (unattempted : s'.attempted client = false →
      s.attempted client = false ∧ ∀ pc, activity ≠ .committing pc) : s'.Sound := by
  refine ⟨?_, fun other => ?_, fun other never => ?_⟩
  · rw [trans, now]
    refine sound.exclusive.congr (fun _ => rfl) (fun _ => rfl) fun a x _ => ?_
    by_cases same : a = client
    · rw [same, Function.update_self, idle]
      exact iff_of_false (free x) id
    · rw [Function.update_of_ne same]
  · rw [trans, now]
    by_cases same : other = client
    · rw [same, Function.update_self]
      exact placed
    · rw [Function.update_of_ne same, others other same]
      exact sound.placed other
  · rw [trans, now]
    by_cases same : other = client
    · rw [same] at never ⊢
      obtain ⟨before, later⟩ := unattempted never
      rw [Function.update_self]
      exact ⟨(sound.unattempted client before).1, later⟩
    · rw [Function.update_of_ne same]
      exact sound.unattempted other (others other same ▸ never)

theorem Server.Sound.advances (sound : s.Sound) (advances : Advances s s' client) : s'.Sound := by
  have finishes := advances.moves.finishes (sound.placed client)
  refine ⟨?_, fun other => ?_, fun other never => ?_⟩
  · refine advances.moves.exclusive sound.exclusive (sound.placed client) ?_
    exact ⟨fun _ => Iff.rfl, fun _ => Iff.rfl, fun a other x => by rw [advances.others a other]⟩
  · rw [advances.attempted]
    by_cases same : other = client
    · rw [same]
      exact advances.moves.placed sound.exclusive (fun _ => id) (sound.placed client)
    · rw [advances.others other same]
      exact (sound.placed other).mono finishes.pending (finishes.committed other same)
  · rw [advances.attempted] at never
    obtain ⟨unfinished, outside⟩ := sound.unattempted other never
    by_cases same : other = client
    · subst same
      refine ⟨fun now => ?_, advances.moves.outside outside⟩
      rcases advances.moves.statuses (sound.placed other) with
        kept | ⟨pc, _, commits, -⟩ | ⟨tp, _, -, -, writes⟩
      · exact unfinished (kept other ▸ now)
      · exact outside pc commits
      · by_cases equal : other = tp
        · rw [equal, writes.written] at now
          cases now
        · exact unfinished (writes.statuses other equal ▸ now)
    · rw [advances.others other same]
      exact ⟨fun now => unfinished (finishes.committed other same now), outside⟩

/-- What a call does: the thread of an idle client starts. -/
inductive Calls (s s' : Server τ) (client : τ) : Prop
  | add (dtp : τ) (fresh : s.attempted client = false)
      (started : s' = s.goto client (.adding dtp .acquire))
  | commit (fresh : s.attempted client = false)
      (started : s' = { s with attempted := Function.update s.attempted client true }.goto client
        (.committing .acquire))
  | abort (started : s' = s.goto client (.aborting client .firstLock []))

/-- The first operation of a function. -/
def Activity.Starts (client : τ) : Activity τ → Prop
  | .adding _ .acquire => True
  | .committing .acquire => True
  | .aborting tp .firstLock [] => tp = client
  | _ => False

theorem Calls.starts (calls : Calls s s' client) : s'.trans = s.trans ∧
    ∃ activity, activity.Starts client ∧ s'.activity = Function.update s.activity client activity := by
  cases calls with
  | add dtp _ started => exact ⟨started ▸ rfl, .adding dtp .acquire, trivial, started ▸ rfl⟩
  | commit _ started => exact ⟨started ▸ rfl, .committing .acquire, trivial, started ▸ rfl⟩
  | abort started => exact ⟨started ▸ rfl, .aborting client .firstLock [], rfl, started ▸ rfl⟩

theorem step_cases {action : Action τ} (ran : step s action = some s') :
    s.activity action.client = .idle ∧ Calls s s' action.client ∨
      action = .go action.client ∧ Advances s s' action.client := by
  cases action with
  | add client dtp =>
      unfold step at ran
      dsimp only at ran
      split at ran
      · rename_i idle fresh
        cases ran
        exact .inl ⟨idle, .add dtp fresh rfl⟩
      · cases ran
  | commit client =>
      unfold step at ran
      dsimp only at ran
      split at ran
      · rename_i idle fresh
        cases ran
        exact .inl ⟨idle, .commit fresh rfl⟩
      · cases ran
  | abort client =>
      unfold step at ran
      dsimp only at ran
      split at ran
      · rename_i idle
        cases ran
        exact .inl ⟨idle, .abort rfl⟩
      · cases ran
  | go client => exact .inr ⟨rfl, advance_advances ran⟩

theorem step_sound {action : Action τ} (sound : s.Sound) (ran : step s action = some s') :
    s'.Sound := by
  rcases step_cases ran with ⟨idle, calls⟩ | ⟨-, advances⟩
  · cases calls with
    | add dtp fresh started =>
        subst started
        exact sound.calls idle rfl rfl (fun _ _ => rfl) (fun _ => id) fresh
          fun _ => ⟨fresh, by simp⟩
    | commit fresh started =>
        subst started
        refine sound.calls idle rfl rfl (fun other different => ?_) (fun _ => id)
          (sound.unattempted _ fresh).1 fun never => ?_
        · simp [Server.goto, different]
        · simp [Server.goto] at never
    | abort started =>
        subst started
        exact sound.calls idle rfl rfl (fun _ _ => rfl) (fun _ => id) ⟨by simp, by simp⟩
          fun never => ⟨never, by simp⟩
  · exact sound.advances advances

theorem sound_of_reachable {allowed : Server τ → Action τ → Prop}
    (reached : Runs.Reachable step allowed Server.init s) : s.Sound := by
  refine reached.invariant Server.Sound sound_init ?_
  intro s action next sound _ ran
  exact step_sound sound ran

end Audible.Xacto
