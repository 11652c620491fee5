import Audible.TransactionHolds

set_option autoImplicit false

/- What the calls of a client's thread know when they return. -/
namespace Audible.Xacto

variable {τ : Type} {t t' : τ → Transaction τ} {client tp : τ} {callers : List (Caller τ)}
variable {activity activity' : Activity τ}

/-- The transaction that the outermost call of `trans_abort` is for. -/
def root (tp : τ) : List (Caller τ) → τ
  | [] => tp
  | caller :: callers => root caller.trans callers

/-- Where a step in `trans_abort` leads. -/
inductive Goes (t : τ → Transaction τ) (tp : τ) (callers : List (Caller τ)) :
    AbortPc → Activity τ → Prop
  | first : Goes t tp callers .firstLock (.aborting tp (.firstUnlock (t tp).status) callers)
  | uncommitted (read : TransStatus) (other : read ≠ .committed) :
      Goes t tp callers (.firstUnlock read) (.aborting tp .secondLock callers)
  | second : Goes t tp callers .secondLock (.aborting tp (.secondUnlock (t tp).status) callers)
  | pending : Goes t tp callers (.secondUnlock .pending) (.aborting tp .acquire callers)
  | late (read : TransStatus) (other : read ≠ .pending) :
      Goes t tp callers (.secondUnlock read) (returnTo callers)
  | acquire : Goes t tp callers .acquire (abortFrom tp callers (t tp).depends)
  | goes (pc pc' : TailPc) : Goes t tp callers (.tail pc) (.aborting tp (.tail pc') callers)
  | returns (pc : TailPc) : Goes t tp callers (.tail pc) (returnTo callers)

/-- The outermost call of `trans_abort` is for this client's transaction, and a call returns from a
transaction that it does not abort only if that is pending no more. -/
def Rooted (t : τ → Transaction τ) (client : τ) : Activity τ → Prop
  | .aborting tp pc callers => root tp callers = client ∧
      ∀ read, pc = .secondUnlock read → read ≠ .pending → ¬ Pending t tp
  | _ => True

theorem Rooted.mono (rooted : Rooted t client activity) (pending : ∀ x, Pending t' x → Pending t x) :
    Rooted t' client activity := by
  cases activity with
  | aborting tp pc callers =>
      obtain ⟨own, read⟩ := rooted
      exact ⟨own, fun status now other still => read status now other (pending tp still)⟩
  | _ => trivial

theorem rooted_abortFrom (own : root tp callers = client) (depends : List τ) :
    Rooted t client (abortFrom tp callers depends) := by
  cases depends with
  | nil => exact ⟨own, fun _ now => by cases now⟩
  | cons dtp next => exact ⟨own, fun _ now => by cases now⟩

theorem rooted_returnTo (own : root tp callers = client) : Rooted t client (returnTo callers) := by
  cases callers with
  | nil => trivial
  | cons caller callers =>
      have outer : root caller.trans callers = client := own
      exact rooted_abortFrom outer caller.next

theorem Goes.rooted {pc : AbortPc} (goes : Goes t tp callers pc activity')
    (rooted : Rooted t client (.aborting tp pc callers)) : Rooted t client activity' := by
  obtain ⟨own, -⟩ := rooted
  cases goes with
  | second =>
      refine ⟨own, fun read now other pending => other ?_⟩
      cases now
      exact pending
  | late => exact rooted_returnTo own
  | returns => exact rooted_returnTo own
  | acquire => exact rooted_abortFrom own _
  | first | uncommitted | pending | goes => exact ⟨own, fun _ now => by cases now⟩

theorem abortFrom_aborting (tp : τ) (callers : List (Caller τ)) (depends : List τ) :
    ∃ tp' pc' callers', abortFrom tp callers depends = .aborting tp' pc' callers' := by
  cases depends <;> exact ⟨_, _, _, rfl⟩

/-- The outermost call returns, or an outer call goes on. -/
theorem returnTo_cases (callers : List (Caller τ)) :
    callers = [] ∧ returnTo callers = .idle ∨
      ∃ tp' pc' callers', returnTo callers = .aborting tp' pc' callers' := by
  cases callers with
  | nil => exact .inl ⟨rfl, rfl⟩
  | cons caller callers => exact .inr (abortFrom_aborting _ _ _)

theorem root_mem (recursive : callers ≠ []) : root tp callers ∈ callers.map Caller.trans := by
  induction callers generalizing tp with
  | nil => exact absurd rfl recursive
  | cons caller callers ih =>
      rw [List.map_cons, List.mem_cons]
      by_cases last : callers = []
      · subst last
        exact .inl rfl
      · exact .inr (ih last)

theorem abortFrom_ne_read {depends : List τ} {tp' : τ} {read : TransStatus}
    {callers' : List (Caller τ)} :
    abortFrom tp callers depends ≠ .aborting tp' (.firstUnlock read) callers' := by
  cases depends <;> simp [abortFrom]

theorem returnTo_ne_read {tp' : τ} {read : TransStatus} {callers' : List (Caller τ)} :
    returnTo callers ≠ .aborting tp' (.firstUnlock read) callers' := by
  cases callers with
  | nil => simp [returnTo]
  | cons caller callers => exact abortFrom_ne_read

/-- No call reads that a transaction is committed if it is not. -/
theorem Goes.unread {pc : AbortPc} {x : τ} (goes : Goes t tp callers pc activity')
    (uncommitted : (t x).status ≠ .committed) (callers' : List (Caller τ)) :
    activity' ≠ .aborting x (.firstUnlock .committed) callers' := by
  intro found
  cases goes with
  | first =>
      injection found with same read
      injection read with read
      exact uncommitted (same ▸ read)
  | late | returns => exact returnTo_ne_read found
  | acquire => exact abortFrom_ne_read found
  | uncommitted | second | pending | goes => cases found

/-- The thread is still in a call of the same function, or it has returned. -/
inductive Stays (pending : Prop) : Activity τ → Activity τ → Prop
  | adding (dtp : τ) (pc pc' : AddPc) : Stays pending (.adding dtp pc) (.adding dtp pc')
  | added (dtp : τ) (pc : AddPc) : Stays pending (.adding dtp pc) .idle
  | committing (pc pc' : CommitPc τ) : Stays pending (.committing pc) (.committing pc')
  | committed (pc : CommitPc τ) (finished : ¬ pending) : Stays pending (.committing pc) .idle
  | aborting (tp tp' : τ) (pc pc' : AbortPc) (callers callers' : List (Caller τ)) :
      Stays pending (.aborting tp pc callers) (.aborting tp' pc' callers')
  | aborted (tp : τ) (pc : AbortPc) (callers : List (Caller τ)) (finished : ¬ pending) :
      Stays pending (.aborting tp pc callers) .idle

theorem Checks.committing {status : TransStatus} {depends : List τ}
    (checks : Checks t t' client status depends activity) : ∃ pc, activity = .committing pc := by
  cases checks <;> exact ⟨_, rfl⟩

/-- A call of `trans_commit` returns after it has written a status. -/
theorem Moves.stays {pc : CommitPc τ} {attempted : Bool}
    (moves : Moves t t' client (.committing pc) activity')
    (placed : Placed t attempted client (.committing pc)) (pending : ∀ x, Pending t' x → Pending t x) :
    Stays (Pending t' client) (.committing pc) activity' := by
  cases moves with
  | secondOther _ _ _ _ checks | resultUnlock _ _ _ checks =>
      obtain ⟨pc', rfl⟩ := checks.committing
      exact .committing _ pc'
  | commitTail pc _ _ after =>
      rcases after with rfl | ⟨pc', rfl⟩
      · exact .committed _ fun still => placed (pending client still)
      · exact .committing _ _
  | _ => exact .committing _ _

/-- A call of `trans_abort` returns when the client's transaction is pending no more. -/
theorem Goes.stays {attempted : Bool} {pc : AbortPc} (goes : Goes t tp callers pc activity')
    (placed : Placed t attempted client (.aborting tp pc callers))
    (rooted : Rooted t client (.aborting tp pc callers)) (pending : ∀ x, Pending t' x → Pending t x) :
    Stays (Pending t' client) (.aborting tp pc callers) activity' := by
  obtain ⟨-, tail⟩ := placed
  obtain ⟨own, late⟩ := rooted
  have returned (finished : ¬ Pending t tp) :
      Stays (Pending t' client) (.aborting tp pc callers) (returnTo callers) := by
    rcases returnTo_cases callers with ⟨rfl, idle⟩ | ⟨tp', pc', callers', outer⟩
    · rw [idle]
      have same : tp = client := own
      exact .aborted tp pc [] fun still => finished (same ▸ pending client still)
    · rw [outer]
      exact .aborting ..
  cases goes with
  | late read other => exact returned (late read rfl other)
  | returns pc => exact returned (tail pc rfl)
  | acquire =>
      obtain ⟨tp', pc', callers', inner⟩ := abortFrom_aborting tp callers (t tp).depends
      rw [inner]
      exact .aborting ..
  | first | uncommitted | second | pending | goes => exact .aborting ..

/-- A call of another function does not abort. -/
theorem Stays.rooted {pending : Prop} (stays : Stays pending activity activity')
    (other : ∀ tp pc callers, activity ≠ .aborting tp pc callers) : Rooted t client activity' := by
  cases stays with
  | aborting tp _ pc _ callers _ => exact absurd rfl (other tp pc callers)
  | adding | added | committing | committed | aborted => trivial

theorem rooted_start (t : τ → Transaction τ) (client : τ) :
    Rooted t client (.aborting client .firstLock []) := ⟨rfl, fun _ now => by cases now⟩

/-- A call of `trans_abort` goes on, or the outermost one returns. -/
theorem Goes.aborting {pc : AbortPc} (goes : Goes t tp callers pc activity') :
    activity' = .idle ∨ ∃ tp' pc' callers', activity' = .aborting tp' pc' callers' := by
  cases goes with
  | late | returns => exact (returnTo_cases callers).imp And.right id
  | acquire => exact .inr (abortFrom_aborting _ _ _)
  | first | uncommitted | second | pending | goes => exact .inr ⟨_, _, _, rfl⟩

variable [DecidableEq τ] {s s' : Server τ} {pc : AbortPc}

theorem abortStep_goes {pc : AbortPc} (ran : abortStep client tp callers s pc = some s') :
    Goes s.trans tp callers pc (s'.activity client) := by
  cases pc with
  | firstLock =>
      obtain ⟨locked, took, rfl⟩ := Option.map_eq_some_iff.mp ran
      rw [activity_goto, (still_lock took).1.statuses]
      exact .first
  | firstUnlock read =>
      unfold abortStep at ran
      dsimp only at ran
      split at ran
      · cases ran
      · rename_i other
        cases ran
        rw [activity_goto]
        exact .uncommitted read other
  | secondLock =>
      obtain ⟨locked, took, rfl⟩ := Option.map_eq_some_iff.mp ran
      rw [activity_goto, (still_lock took).1.statuses]
      exact .second
  | secondUnlock read =>
      unfold abortStep at ran
      dsimp only at ran
      split at ran
      · rename_i pending
        cases ran
        subst pending
        rw [activity_goto]
        exact .pending
      · rename_i other
        cases ran
        rw [activity_goto]
        exact .late read other
  | acquire =>
      obtain ⟨taken, took, rfl⟩ := Option.map_eq_some_iff.mp ran
      rw [activity_goto, (takes_P took).1.depends]
      exact .acquire
  | tail pc =>
      obtain ⟨⟨after, next⟩, took, rfl⟩ := Option.map_eq_some_iff.mp ran
      cases next with
      | none =>
          dsimp only
          rw [activity_goto]
          exact .returns pc
      | some pc' =>
          dsimp only
          rw [activity_goto]
          exact .goes pc pc'

theorem addStep_stays {dtp : τ} {pc : AddPc} (ran : addStep client dtp s pc = some s')
    (pending : Prop) : Stays pending (.adding dtp pc) (s'.activity client) := by
  cases pc with
  | acquire =>
      obtain ⟨_, -, rfl⟩ := Option.map_eq_some_iff.mp ran
      rw [activity_goto]
      exact .adding dtp _ _
  | refLock =>
      obtain ⟨_, -, rfl⟩ := Option.map_eq_some_iff.mp ran
      rw [activity_goto]
      exact .adding dtp _ _
  | refUnlock =>
      cases ran
      rw [activity_goto]
      exact .adding dtp _ _
  | release =>
      cases ran
      rw [activity_goto]
      exact .added dtp _

/-- A thread in a call stays in it until the call returns; `trans_commit` and `trans_abort` return
when the client's transaction is pending no more. -/
theorem advance_stays (sound : s.Sound) (rooted : Rooted s.trans client (s.activity client))
    (ran : advance client s = some s') :
    Stays (Pending s'.trans client) (s.activity client) (s'.activity client) := by
  have advances := advance_advances ran
  have placed := sound.placed client
  have finishes := advances.moves.finishes placed
  have moves := advances.moves
  unfold advance at ran
  cases now : s.activity client with
  | idle =>
      rw [now] at ran
      cases ran
  | adding dtp pc =>
      rw [now] at ran
      exact addStep_stays ran _
  | committing pc =>
      rw [now] at moves placed
      exact moves.stays placed finishes.pending
  | aborting tp pc callers =>
      rw [now] at ran placed rooted
      exact (abortStep_goes ran).stays placed rooted finishes.pending

/-- A thread that aborts commits nothing. -/
theorem advance_uncommitted (sound : s.Sound) (ran : advance client s = some s')
    (now : s.activity client = .aborting tp pc callers) {x : τ}
    (before : (s.trans x).status ≠ .committed) : (s'.trans x).status ≠ .committed := by
  have moves := (advance_advances ran).moves
  rw [now] at moves
  have placed := now ▸ sound.placed client
  rcases moves.statuses placed with same | ⟨pc, status, other, -⟩ | ⟨aborted, _, -, -, writes⟩
  · exact same x ▸ before
  · cases other
  · by_cases own : x = aborted
    · rw [own, writes.written]
      exact fun committed => by cases committed
    · exact writes.statuses x own ▸ before

theorem advance_unread {x : τ} (ran : advance client s = some s')
    (now : s.activity client = .aborting tp pc callers)
    (uncommitted : (s.trans x).status ≠ .committed) (callers' : List (Caller τ)) :
    s'.activity client ≠ .aborting x (.firstUnlock .committed) callers' := by
  unfold advance at ran
  rw [now] at ran
  exact (abortStep_goes ran).unread uncommitted callers'

theorem advance_rooted (sound : s.Sound) (ran : advance client s = some s')
    (rooted : Rooted s.trans client (s.activity client)) :
    Rooted s'.trans client (s'.activity client) := by
  have stays := advance_stays sound rooted ran
  have finishes := (advance_advances ran).moves.finishes (sound.placed client)
  unfold advance at ran
  cases now : s.activity client with
  | aborting tp pc callers =>
      rw [now] at ran rooted
      exact ((abortStep_goes ran).rooted rooted).mono finishes.pending
  | idle | adding | committing =>
      rw [now] at stays
      exact stays.rooted (by simp)

theorem advance_aborting (ran : advance client s = some s')
    (now : s.activity client = .aborting tp pc callers) : s'.activity client = .idle ∨
      ∃ tp' pc' callers', s'.activity client = .aborting tp' pc' callers' := by
  unfold advance at ran
  rw [now] at ran
  exact (abortStep_goes ran).aborting

theorem step_commit (ran : step s (.commit client) = some s') : s.activity client = .idle ∧
    s'.trans = s.trans ∧ s'.activity client = .committing .acquire := by
  unfold step at ran
  dsimp only at ran
  split at ran
  · rename_i idle _
    cases ran
    exact ⟨idle, rfl, activity_goto _ _⟩
  · cases ran

theorem step_abort (ran : step s (.abort client) = some s') : s.activity client = .idle ∧
    s'.trans = s.trans ∧ s'.attempted = s.attempted ∧
      s'.activity client = .aborting client .firstLock [] := by
  unfold step at ran
  dsimp only at ran
  split at ran
  · rename_i idle
    cases ran
    exact ⟨idle, rfl, rfl, activity_goto _ _⟩
  · cases ran

theorem step_add {dtp : τ} (ran : step s (.add client dtp) = some s') : s'.trans = s.trans ∧
    s'.attempted = s.attempted ∧ s'.activity client = .adding dtp .acquire := by
  unfold step at ran
  dsimp only at ran
  split at ran
  · cases ran
    exact ⟨rfl, rfl, activity_goto _ _⟩
  · cases ran

/-- What the steps of a client's thread leave to the other threads. -/
theorem step_others {action : Action τ} (sound : s.Sound) (ran : step s action = some s')
    {other : τ} (different : other ≠ action.client) : s'.activity other = s.activity other ∧
      s'.attempted other = s.attempted other ∧
      (∀ x, Pending s'.trans x → Pending s.trans x) ∧
      ((s'.trans other).status = .committed → (s.trans other).status = .committed) := by
  rcases step_cases ran with ⟨-, calls⟩ | ⟨-, advances⟩
  · obtain ⟨trans, activity, -, now⟩ := calls.starts
    rw [trans, now, Function.update_of_ne different]
    refine ⟨rfl, ?_, fun _ => id, id⟩
    cases calls with
    | add dtp _ started => rw [started]; rfl
    | commit _ started => rw [started]; exact Function.update_of_ne different _ _
    | abort started => rw [started]; rfl
  · have finishes := advances.moves.finishes (sound.placed action.client)
    exact ⟨advances.others other different, congrFun advances.attempted other,
      finishes.pending, finishes.committed other different⟩

end Audible.Xacto
