import Audible.TransactionHolds
import Audible.TransactionSafety
import Audible.Waiting

set_option autoImplicit false

/- Whether the threads can all be waiting for each other. -/
namespace Audible.Xacto

variable {τ : Type} {s s' : Server τ} {t t' : τ → Transaction τ} {client tp x : τ}
variable {activity activity' : Activity τ}

def Server.Depends (s : Server τ) (tp dtp : τ) : Prop := dtp ∈ (s.trans tp).depends

/-- The transactions whose semaphores a call of `trans_abort` has taken, each of which depends on
the one before it. -/
def Linked (t : τ → Transaction τ) : τ → List (Caller τ) → Prop
  | _, [] => True
  | tp, caller :: callers => tp ∈ (t caller.trans).depends ∧
      (∀ dtp ∈ caller.next, dtp ∈ (t caller.trans).depends) ∧ Linked t caller.trans callers

/-- The loops are at dependencies of the transactions whose semaphores they hold. -/
def Follows (t : τ → Transaction τ) (client : τ) : Activity τ → Prop
  | .committing (.scan loop _) => ∀ dtp ∈ loop.trans :: loop.next, dtp ∈ (t client).depends
  | .aborting tp _ callers => Linked t tp callers
  | _ => True

theorem Linked.mono {callers : List (Caller τ)} {tp : τ}
    (linked : Linked t tp callers) (grows : ∀ x, (t x).depends ⊆ (t' x).depends) :
    Linked t' tp callers := by
  induction callers generalizing tp with
  | nil => trivial
  | cons caller callers ih =>
      obtain ⟨here, later, rest⟩ := linked
      exact ⟨grows _ here, fun dtp member => grows _ (later dtp member), ih rest⟩

theorem Follows.mono (follows : Follows t client activity)
    (grows : ∀ x, (t x).depends ⊆ (t' x).depends) : Follows t' client activity := by
  cases activity with
  | idle | adding => trivial
  | committing pc =>
      cases pc with
      | acquire | tail => trivial
      | scan loop pc => exact fun dtp member => grows _ (follows dtp member)
  | aborting tp pc callers => exact Linked.mono follows grows

theorem follows_abortFrom {callers : List (Caller τ)} {depends : List τ}
    (linked : Linked t tp callers) (here : ∀ dtp ∈ depends, dtp ∈ (t tp).depends) :
    Follows t client (abortFrom tp callers depends) := by
  cases depends with
  | nil => exact linked
  | cons dtp next =>
      exact ⟨here dtp (List.mem_cons_self ..),
        fun other member => here other (List.mem_cons_of_mem _ member), linked⟩

theorem follows_returnTo {callers : List (Caller τ)}
    (linked : Linked t tp callers) : Follows t client (returnTo callers) := by
  cases callers with
  | nil => trivial
  | cons caller callers => exact follows_abortFrom linked.2.2 linked.2.1

theorem Checks.follows {status : TransStatus} {depends : List τ}
    (checks : Checks t t' client status depends activity)
    (here : ∀ dtp ∈ depends, dtp ∈ (t client).depends) : Follows t client activity := by
  cases checks with
  | go dtp next _ => exact here
  | finish _ => trivial

/-- Where a step leaves the client's own thread. -/
theorem Moves.follows (moves : Moves t t' client activity activity')
    (follows : Follows t client activity) : Follows t client activity' := by
  cases moves with
  | addAcquire | addRefLock | addRefUnlock | addRelease => trivial
  | commitAcquire dtp next _ depends => exact fun other member => depends ▸ member
  | commitAlone | firstAborted => trivial
  | commitTail _ _ _ after =>
      rcases after with rfl | ⟨_, rfl⟩
      · trivial
      · trivial
  | secondOther loop _ _ _ checks | resultUnlock loop _ _ checks =>
      exact checks.follows fun dtp member => follows dtp (List.mem_cons_of_mem _ member)
  | abortLate tp _ callers _ => exact follows_returnTo (show Linked t tp callers from follows)
  | abortAcquire tp callers _ _ => exact follows_abortFrom follows fun _ => id
  | abortTail tp _ callers _ _ after =>
      rcases after with rfl | ⟨_, rfl⟩
      · exact follows_returnTo (show Linked t tp callers from follows)
      · exact follows
  | _ => exact follows

theorem Activity.Starts.follows (starts : activity.Starts client) : Follows t client activity := by
  cases activity with
  | idle | adding => trivial
  | committing pc =>
      cases pc with
      | acquire | tail => trivial
      | scan => cases starts
  | aborting tp pc callers =>
      cases callers with
      | nil => trivial
      | cons caller callers => cases pc <;> cases starts

variable [DecidableEq τ]

/-- The thread can go on. -/
def Operation.Ready (s : Server τ) : Operation τ → Prop
  | .lock tp => s.mutexes tp = false
  | .P tp => s.sems tp ≠ 0
  | _ => True

/-- The fatal error of `trans_abort`. -/
def Activity.Fatal (activity : Activity τ) : Prop :=
  ∃ tp callers, activity = .aborting tp (.firstUnlock .committed) callers

@[simp] theorem isSome_lock (tp : τ) (s : Server τ) :
    (lock tp s).isSome = true ↔ s.mutexes tp = false := by
  unfold lock
  cases locked : (s.trans tp).mutex <;> simp [Server.mutexes, locked]

@[simp] theorem isSome_P (tp : τ) (s : Server τ) : (P tp s).isSome = true ↔ s.sems tp ≠ 0 := by
  unfold P
  cases empty : (s.trans tp).sem <;> simp [Server.sems, empty]

theorem isSome_tailStep {afterWake afterUnref pc : TailPc}
    (ready : (pc.operation tp).Ready s) : (tailStep tp afterWake afterUnref s pc).isSome = true := by
  cases pc with
  | wakeLock | unrefLock => simpa [tailStep, TailPc.operation, Operation.Ready] using ready
  | _ => rfl

theorem isSome_scanStep {loop : Scan τ} {pc : ScanPc} (ready : (pc.operation loop.trans).Ready s) :
    (scanStep client loop s pc).isSome = true := by
  cases pc with
  | firstLock | secondLock | countLock | pollLock | resultLock =>
      simpa [scanStep, Scan.read, ScanPc.operation, Operation.Ready] using ready
  | waitP => simpa [scanStep, ScanPc.operation, Operation.Ready] using ready
  | firstUnlock read | secondUnlock read | pollUnlock read =>
      unfold scanStep
      dsimp only
      split <;> rfl
  | countUnlock | waitV | resultUnlock => rfl

theorem isSome_abortStep {pc : AbortPc} {callers : List (Caller τ)}
    (ready : (pc.operation tp).Ready s) (error : pc ≠ .firstUnlock .committed) :
    (abortStep client tp callers s pc).isSome = true := by
  cases pc with
  | firstLock | secondLock | acquire =>
      simpa [abortStep, AbortPc.operation, Operation.Ready] using ready
  | firstUnlock read =>
      have other : read ≠ .committed := fun same => error (same ▸ rfl)
      simp [abortStep, other]
  | secondUnlock read =>
      unfold abortStep
      dsimp only
      split <;> rfl
  | tail pc => simpa [abortStep] using isSome_tailStep ready

/-- A thread goes on unless it has to wait or is at the fatal error. -/
theorem isSome_advance {op : Operation τ} (now : (s.activity client).operation client = some op)
    (ready : op.Ready s) (error : ¬ (s.activity client).Fatal) :
    (advance client s).isSome = true := by
  unfold advance
  cases activity : s.activity client with
  | idle =>
      rw [activity] at now
      cases now
  | adding dtp pc =>
      rw [activity] at now
      cases now
      cases pc with
      | acquire | refLock => simpa [addStep, AddPc.operation, Operation.Ready] using ready
      | refUnlock | release => rfl
  | committing pc =>
      rw [activity] at now
      cases pc with
      | acquire =>
          cases now
          simpa [commitStep, Operation.Ready] using ready
      | scan loop pc =>
          cases now
          exact isSome_scanStep ready
      | tail pc =>
          cases now
          simpa [commitStep] using isSome_tailStep ready
  | aborting tp pc callers =>
      rw [activity] at now
      cases now
      refine isSome_abortStep ready ?_
      rintro rfl
      exact error ⟨tp, callers, activity⟩

/-- Dependencies are only added, by `trans_add_dependency`. -/
theorem advance_depends (ran : advance client s = some s') :
    (∀ x, (s.trans x).depends ⊆ (s'.trans x).depends) ∧ ∀ x y, s'.Depends x y →
      s.Depends x y ∨ x = client ∧ s.activity client = .adding y .acquire := by
  have advances := advance_advances ran
  by_cases adding : ∃ dtp, s.activity client = .adding dtp .acquire
  · obtain ⟨dtp, now⟩ := adding
    unfold advance at ran
    rw [now] at ran
    obtain ⟨taken, took, rfl⟩ := Option.map_eq_some_iff.mp ran
    have same := (takes_P took).1.depends
    refine ⟨fun x => ?_, fun x y depends => ?_⟩
    · rw [← same]
      by_cases own : x = client <;> simp [Server.goto, addDependency, Server.setTrans, own]
    · rw [Server.Depends, ← same]
      by_cases own : x = client
      · subst own
        rcases List.mem_cons.mp (by simpa [Server.goto, addDependency, Server.setTrans,
          Server.Depends] using depends) with rfl | before
        · exact .inr ⟨rfl, now⟩
        · exact .inl before
      · refine .inl ?_
        simpa [Server.goto, addDependency, Server.setTrans, Server.Depends, own] using depends
  · have same : ∀ x, (s'.trans x).depends = (s.trans x).depends :=
      fun x => advances.moves.depends fun _ dtp now => adding ⟨dtp, now⟩
    refine ⟨fun x => ?_, fun x y depends => .inl ?_⟩
    · rw [same]
      exact List.Subset.refl _
    · rwa [Server.Depends, same] at depends

structure Server.Tracked (s : Server τ) : Prop where
  follows : ∀ client, Follows s.trans client (s.activity client)
  finite : ∃ nodes : List τ, ∀ x y, s.Depends x y → x ∈ nodes

/-- A call that starts follows nothing yet. -/
theorem Server.Tracked.calls (tracked : s.Tracked) (trans : s'.trans = s.trans)
    (now : s'.activity = Function.update s.activity client activity)
    (follows : Follows s.trans client activity) : s'.Tracked := by
  obtain ⟨nodes, finite⟩ := tracked.finite
  refine ⟨fun other => ?_, nodes, fun x y depends => finite x y ?_⟩
  · rw [trans, now]
    by_cases own : other = client
    · rw [own, Function.update_self]
      exact follows
    · rw [Function.update_of_ne own]
      exact tracked.follows other
  · rwa [Server.Depends, trans] at depends

theorem step_tracked {action : Action τ} (tracked : s.Tracked) (ran : step s action = some s') :
    s'.Tracked := by
  rcases step_cases ran with ⟨idle, calls⟩ | ⟨go, advances⟩
  · obtain ⟨trans, activity, starts, now⟩ := calls.starts
    exact tracked.calls trans now starts.follows
  · rw [go] at ran
    obtain ⟨grows, added⟩ := advance_depends ran
    refine ⟨fun client => ?_, ?_⟩
    · by_cases own : client = action.client
      · rw [own]
        exact (advances.moves.follows (tracked.follows action.client)).mono grows
      · rw [advances.others client own]
        exact (tracked.follows client).mono grows
    · obtain ⟨nodes, finite⟩ := tracked.finite
      refine ⟨action.client :: nodes, fun x y depends => ?_⟩
      rcases added x y depends with before | ⟨own, -⟩
      · exact List.mem_cons_of_mem _ (finite x y before)
      · exact own ▸ List.mem_cons_self ..

omit [DecidableEq τ] in
theorem tracked_init : (Server.init : Server τ).Tracked :=
  ⟨fun _ => trivial, [], fun _ _ depends => absurd depends List.not_mem_nil⟩

theorem tracked_of_reachable {allowed : Server τ → Action τ → Prop}
    (reached : Runs.Reachable step allowed Server.init s) : s.Tracked := by
  refine reached.invariant Server.Tracked tracked_init ?_
  intro s action next tracked _ ran
  exact step_tracked tracked ran

def Server.Waits (s : Server τ) (client x : τ) : Prop :=
  (s.activity client).operation client = some (.P x) ∧ s.sems x = 0

omit [DecidableEq τ] in
/-- Whatever a call of `trans_abort` has locked leads to the transaction that it is at. -/
theorem Linked.leads {callers : List (Caller τ)} (linked : Linked s.trans tp callers)
    (member : x ∈ callers.map Caller.trans) : Relation.TransGen s.Depends x tp := by
  induction callers generalizing tp with
  | nil => cases member
  | cons caller callers ih =>
      obtain ⟨here, -, rest⟩ := linked
      rcases List.mem_cons.mp member with rfl | later
      · exact .single here
      · exact (ih rest later).tail here

omit [DecidableEq τ] in
/-- A thread waits for a transaction that all those it holds depend on. -/
theorem Follows.ordered (follows : Follows s.trans client (s.activity client))
    (waits : s.Waits client tp) (member : x ∈ (s.activity client).taken client) :
    Relation.TransGen s.Depends x tp := by
  have next := waits.1
  cases now : s.activity client with
  | idle =>
      rw [now] at member
      cases member
  | adding dtp pc =>
      rw [now] at member next
      cases pc with
      | acquire => cases member
      | refLock | refUnlock | release => cases next
  | committing pc =>
      rw [now] at member next follows
      cases pc with
      | acquire => cases member
      | scan loop pc =>
          cases pc with
          | waitP =>
              cases next
              rw [List.mem_singleton.mp member]
              exact .single (follows loop.trans (List.mem_cons_self ..))
          | _ => cases next
      | tail pc => cases pc <;> cases next
  | aborting dtp pc callers =>
      rw [now] at member next follows
      cases pc with
      | acquire =>
          cases next
          exact Linked.leads follows member
      | tail pc => cases pc <;> cases next
      | _ => cases next

omit [DecidableEq τ] in
/-- A thread that has locked a mutex never waits. -/
theorem Activity.ready_of_inside (inside : activity.inside client = some x) :
    ∃ op, activity.operation client = some op ∧ op.Ready s := by
  cases activity with
  | idle => cases inside
  | adding dtp pc =>
      cases pc with
      | refUnlock => exact ⟨_, rfl, trivial⟩
      | _ => cases inside
  | committing pc =>
      cases pc with
      | acquire => cases inside
      | scan loop pc => cases pc <;> first | cases inside; done | exact ⟨_, rfl, trivial⟩
      | tail pc => cases pc <;> first | cases inside; done | exact ⟨_, rfl, trivial⟩
  | aborting tp pc callers =>
      cases pc with
      | firstUnlock | secondUnlock => exact ⟨_, rfl, trivial⟩
      | tail pc => cases pc <;> first | cases inside; done | exact ⟨_, rfl, trivial⟩
      | _ => cases inside

section Older

omit [DecidableEq τ]

theorem returnTo_ne_adding {callers : List (Caller τ)} {dtp : τ} {pc : AddPc} :
    returnTo callers ≠ .adding dtp pc := by
  cases callers with
  | nil => simp [returnTo]
  | cons caller callers => cases next : caller.next <;> simp [returnTo, abortFrom, next]

theorem Checks.ne_adding {status : TransStatus} {depends : List τ}
    (checks : Checks t t' client status depends activity) {dtp : τ} {pc : AddPc} :
    activity ≠ .adding dtp pc := by
  cases checks with
  | go | finish => simp

theorem Moves.adding (moves : Moves t t' client activity activity') {dtp : τ} {pc' : AddPc}
    (now : activity' = .adding dtp pc') : ∃ pc, activity = .adding dtp pc := by
  cases moves with
  | addAcquire | addRefLock | addRefUnlock =>
      cases now
      exact ⟨_, rfl⟩
  | secondOther _ _ _ _ checks | resultUnlock _ _ _ checks => exact absurd now checks.ne_adding
  | commitTail _ _ _ after => rcases after with rfl | ⟨_, rfl⟩ <;> cases now
  | abortLate => exact absurd now returnTo_ne_adding
  | abortAcquire tp callers _ _ => cases depends : (t tp).depends <;> simp [abortFrom, depends] at now
  | abortTail _ _ _ _ _ after =>
      rcases after with rfl | ⟨_, rfl⟩
      · exact absurd now returnTo_ne_adding
      · cases now
  | _ => cases now

end Older

/-- A thread adds the dependency that its client has asked for. -/
theorem step_adding {action : Action τ} (ran : step s action = some s') {dtp : τ} {pc' : AddPc}
    (now : s'.activity client = .adding dtp pc') :
    (∃ pc, s.activity client = .adding dtp pc) ∨ action = .add client dtp := by
  rcases step_cases ran with ⟨idle, calls⟩ | ⟨-, advances⟩
  · by_cases own : client = action.client
    · subst own
      cases action with
      | add client other =>
          unfold step at ran
          dsimp only at ran
          split at ran
          · cases ran
            rw [Action.client, activity_goto] at now
            cases now
            exact .inr rfl
          · cases ran
      | commit client | abort client =>
          unfold step at ran
          dsimp only at ran
          split at ran
          · cases ran
            rw [Action.client, activity_goto] at now
            cases now
          · cases ran
      | go client =>
          rw [Action.client] at idle
          rw [step, advance, idle] at ran
          cases ran
    · obtain ⟨-, activity, -, started⟩ := calls.starts
      rw [started, Function.update_of_ne own] at now
      exact .inl ⟨_, now⟩
  · by_cases own : client = action.client
    · rw [own] at now ⊢
      exact .inl (advances.moves.adding now)
    · rw [advances.others client own] at now
      exact .inl ⟨_, now⟩

/-- Every dependency is on an older transaction. -/
structure Server.Ordered (s : Server Nat) : Prop where
  depends : ∀ x y, s.Depends x y → y < x
  adding : ∀ client dtp pc, s.activity client = .adding dtp pc → dtp < client

theorem ordered_of_reachable {s : Server Nat} (reached : Runs.Reachable step Older Server.init s) :
    s.Ordered := by
  have start : (Server.init : Server Nat).Ordered :=
    ⟨fun _ _ depends => absurd depends List.not_mem_nil, fun _ _ _ now => by cases now⟩
  refine reached.invariant Server.Ordered start ?_
  intro s action next ordered older ran
  constructor
  · intro x y depends
    rcases step_cases ran with ⟨-, calls⟩ | ⟨go, -⟩
    · exact ordered.depends x y (by rwa [Server.Depends, calls.starts.1] at depends)
    · rw [go] at ran
      rcases (advance_depends ran).2 x y depends with before | ⟨rfl, adding⟩
      · exact ordered.depends x y before
      · exact ordered.adding _ y _ adding
  · intro client dtp pc now
    rcases step_adding ran now with ⟨_, before⟩ | rfl
    · exact ordered.adding client dtp _ before
    · exact older

theorem Server.Ordered.acyclic {s : Server Nat} (ordered : s.Ordered) (x : Nat) :
    ¬ Relation.TransGen s.Depends x x := by
  have below : ∀ y, Relation.TransGen s.Depends x y → y < x := by
    intro y path
    induction path with
    | single first => exact ordered.depends _ _ first
    | tail _ last ih => exact (ordered.depends _ _ last).trans ih
  exact fun path => (below x path).false

/-- As long as no transaction depends on itself and not every thread is idle, some thread can go on
or is at the fatal error. -/
theorem some_thread_goes (reached : Runs.Reachable step Runs.Any Server.init s)
    (acyclic : ∀ x, ¬ Relation.TransGen s.Depends x x)
    (busy : ∃ client, s.activity client ≠ .idle) :
    (∃ client s', step s (.go client) = some s') ∨ ∃ client, (s.activity client).Fatal := by
  have accounted := accounted_of_reachable reached
  have tracked := tracked_of_reachable reached
  by_contra stuck
  rw [not_or, not_exists, not_exists] at stuck
  obtain ⟨stops, error⟩ := stuck
  have blocked : ∀ client op, (s.activity client).operation client = some op → ¬ op.Ready s := by
    intro client op now ready
    obtain ⟨s', ran⟩ := Option.isSome_iff_exists.mp (isSome_advance now ready (error client))
    exact stops client ⟨s', ran⟩
  have unlocked : ∀ x, s.mutexes x = false := by
    intro x
    refine eq_false_of_ne_true fun locked => ?_
    obtain ⟨client, inside⟩ := (accounted.mutexes.flagged x).mp locked
    obtain ⟨op, now, ready⟩ := @Activity.ready_of_inside _ s _ _ _ inside
    exact blocked client op now ready
  -- Every thread that is not idle waits for a semaphore.
  have waits : ∀ client op, (s.activity client).operation client = some op →
      ∃ x, s.Waits client x := by
    intro client op now
    cases op with
    | lock tp => exact absurd (unlocked tp) (blocked client _ now)
    | unlock tp | V tp => exact absurd trivial (blocked client _ now)
    | P tp => exact ⟨tp, now, not_not.mp (blocked client _ now)⟩
  have operation : ∀ client, s.activity client ≠ .idle →
      ∃ op, (s.activity client).operation client = some op := by
    intro client now
    cases activity : s.activity client with
    | idle => exact absurd activity now
    | adding dtp pc => exact ⟨_, rfl⟩
    | committing pc => cases pc <;> exact ⟨_, rfl⟩
    | aborting tp pc callers => exact ⟨_, rfl⟩
  obtain ⟨client, now⟩ := busy
  obtain ⟨op, next⟩ := operation client now
  obtain ⟨x, waiting⟩ := waits client op next
  obtain ⟨nodes, finite⟩ := tracked.finite
  obtain ⟨holder, y, member, running⟩ := Waiting.exists_running
    (Waiting.wellFounded_of_acyclic finite acyclic)
    (fun client x waiting => accounted.sems x waiting.2)
    (fun client x y member waiting => (tracked.follows client).ordered waiting member) waiting
  have holds : s.activity holder ≠ .idle := by
    intro idle
    rw [idle] at member
    cases member
  obtain ⟨op, next⟩ := operation holder holds
  obtain ⟨z, waiting⟩ := waits holder op next
  exact running z waiting

/-- The client of 1 waits for transaction 0, which its client is committing. -/
def commitBoth : List (Action Nat) :=
  dependent ++ .commit 1 :: List.replicate 9 (.go 1) ++ [.commit 0, .go 0]

theorem some_thread_goes_example : ∃ s : Server Nat, Runs.Reachable step Runs.Any Server.init s ∧
    s.Waits 1 0 ∧
      ((∃ client s', step s (.go client) = some s') ∨ ∃ client, (s.activity client).Fatal) := by
  obtain ⟨s, -, reached, passed⟩ := @Runs.exists_reachable _ _ step _ Server.init commitBoth
    (fun s action => decide (Older s action)) (fun _ _ => of_decide_eq_true) (by decide)
    (fun s => (s.activity 1).operation 1 = some (.P 0) && s.sems 0 = 0) (by decide)
  simp only [Bool.and_eq_true, decide_eq_true_eq] at passed
  have waits : s.Waits 1 0 := passed
  have busy : s.activity 1 ≠ .idle := by
    intro idle
    rw [Server.Waits, idle] at waits
    cases waits.1
  exact ⟨s, reached.mono fun _ _ _ => trivial, waits,
    some_thread_goes (reached.mono fun _ _ _ => trivial) (ordered_of_reachable reached).acyclic
      ⟨1, busy⟩⟩

/-- A transaction that depends on itself waits for itself. -/
example : (Runs.run step Server.init (.add 0 0 :: List.replicate 4 (.go 0) ++
    .commit 0 :: List.replicate 9 (.go 0))).any (fun s : Server Nat => (advance 0 s).isNone &&
      s.sems 0 = 0) = true := by
  decide

end Audible.Xacto
