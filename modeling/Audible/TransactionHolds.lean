import Audible.TransactionLocks

set_option autoImplicit false

/- What the threads have locked and taken, in any run. -/
namespace Audible.Xacto

variable {τ : Type}

inductive Operation (τ : Type)
  | lock (tp : τ)
  | unlock (tp : τ)
  | P (tp : τ)
  | V (tp : τ)
  deriving DecidableEq

def AddPc.operation (client dtp : τ) : AddPc → Operation τ
  | .acquire => .P client
  | .refLock => .lock dtp
  | .refUnlock => .unlock dtp
  | .release => .V client

def ScanPc.operation (tp : τ) : ScanPc → Operation τ
  | .firstLock | .secondLock | .countLock | .pollLock | .resultLock => .lock tp
  | .firstUnlock _ | .secondUnlock _ | .countUnlock | .pollUnlock _ | .resultUnlock _ => .unlock tp
  | .waitP => .P tp
  | .waitV => .V tp

def TailPc.operation (tp : τ) : TailPc → Operation τ
  | .wakeLock | .unrefLock => .lock tp
  | .wakeUnlock | .unrefUnlock => .unlock tp
  | .wakeV | .release => .V tp

def AbortPc.operation (tp : τ) : AbortPc → Operation τ
  | .firstLock | .secondLock => .lock tp
  | .firstUnlock _ | .secondUnlock _ => .unlock tp
  | .acquire => .P tp
  | .tail pc => pc.operation tp

/-- The next operation of the thread of `client`. -/
def Activity.operation (client : τ) : Activity τ → Option (Operation τ)
  | .idle => none
  | .adding dtp pc => some (pc.operation client dtp)
  | .committing .acquire => some (.P client)
  | .committing (.scan loop pc) => some (pc.operation loop.trans)
  | .committing (.tail pc) => some (pc.operation client)
  | .aborting tp pc _ => some (pc.operation tp)

def ScanPc.inside (tp : τ) : ScanPc → Option τ
  | .firstUnlock _ | .secondUnlock _ | .countUnlock | .pollUnlock _ | .resultUnlock _ => some tp
  | _ => none

def TailPc.inside (tp : τ) : TailPc → Option τ
  | .wakeV | .wakeUnlock | .unrefUnlock => some tp
  | _ => none

def AbortPc.inside (tp : τ) : AbortPc → Option τ
  | .firstUnlock _ | .secondUnlock _ => some tp
  | .tail pc => pc.inside tp
  | _ => none

def Activity.inside (client : τ) : Activity τ → Option τ
  | .adding dtp .refUnlock => some dtp
  | .committing (.scan loop pc) => pc.inside loop.trans
  | .committing (.tail pc) => pc.inside client
  | .aborting tp pc _ => pc.inside tp
  | _ => none

/-- The semaphores that a thread has taken and has still to give back. -/
def Activity.taken (client : τ) : Activity τ → List τ
  | .idle => []
  | .adding _ .acquire => []
  | .adding _ _ => [client]
  | .committing .acquire => []
  | .committing (.scan loop .waitV) => [loop.trans, client]
  | .committing (.scan _ _) => [client]
  | .committing (.tail _) => [client]
  | .aborting tp (.tail _) callers => tp :: callers.map Caller.trans
  | .aborting _ _ callers => callers.map Caller.trans

@[simp] theorem taken_abortFrom (client tp : τ) (callers : List (Caller τ)) (depends : List τ) :
    (abortFrom tp callers depends).taken client = tp :: callers.map Caller.trans := by
  cases depends <;> rfl

@[simp] theorem taken_returnTo (client : τ) (callers : List (Caller τ)) :
    (returnTo callers).taken client = callers.map Caller.trans := by
  cases callers with
  | nil => rfl
  | cons caller callers => exact taken_abortFrom ..

@[simp] theorem inside_abortFrom (client tp : τ) (callers : List (Caller τ)) (depends : List τ) :
    (abortFrom tp callers depends).inside client = none := by
  cases depends <;> rfl

@[simp] theorem inside_returnTo (client : τ) (callers : List (Caller τ)) :
    (returnTo callers).inside client = none := by
  cases callers with
  | nil => rfl
  | cons caller callers => exact inside_abortFrom ..

def Server.mutexes (s : Server τ) (tp : τ) : Bool := (s.trans tp).mutex

def Server.sems (s : Server τ) (tp : τ) : Nat := (s.trans tp).sem

variable [DecidableEq τ] {s s' : Server τ} {client tp x : τ} {activity activity' : Activity τ}

/-- An operation, from where the thread is before it to where it is after it. -/
inductive Operates (s s' : Server τ) (client : τ) (activity activity' : Activity τ) :
    Operation τ → Prop
  | lock (tp : τ) (free : s.mutexes tp = false)
      (mutexes : s'.mutexes = Function.update s.mutexes tp true) (sems : s'.sems = s.sems)
      (outside : activity.inside client = none) (enters : activity'.inside client = some tp)
      (taken : activity'.taken client = activity.taken client) :
      Operates s s' client activity activity' (.lock tp)
  | unlock (tp : τ) (mutexes : s'.mutexes = Function.update s.mutexes tp false)
      (sems : s'.sems = s.sems) (inside : activity.inside client = some tp)
      (leaves : activity'.inside client = none)
      (taken : activity'.taken client = activity.taken client) :
      Operates s s' client activity activity' (.unlock tp)
  | P (tp : τ) (positive : s.sems tp ≠ 0) (mutexes : s'.mutexes = s.mutexes)
      (sems : s'.sems = Function.update s.sems tp (s.sems tp - 1))
      (outside : activity.inside client = none) (still : activity'.inside client = none)
      (taken : activity'.taken client = tp :: activity.taken client) :
      Operates s s' client activity activity' (.P tp)
  | V (tp : τ) (mutexes : s'.mutexes = s.mutexes)
      (sems : s'.sems = Function.update s.sems tp (s.sems tp + 1))
      (same : activity'.inside client = activity.inside client)
      (taken : activity'.taken client = activity.taken client ∨
        activity.taken client = tp :: activity'.taken client) :
      Operates s s' client activity activity' (.V tp)

theorem mutexes_setTrans (s : Server τ) (tp : τ) (trans : Transaction τ) :
    (s.setTrans tp trans).mutexes = Function.update s.mutexes tp trans.mutex := by
  funext x
  by_cases same : x = tp <;> simp [Server.mutexes, Server.setTrans, same]

theorem sems_setTrans (s : Server τ) (tp : τ) (trans : Transaction τ) :
    (s.setTrans tp trans).sems = Function.update s.sems tp trans.sem := by
  funext x
  by_cases same : x = tp <;> simp [Server.sems, Server.setTrans, same]

/-- Statements that write another field. -/
theorem mutexes_kept {trans : Transaction τ} (same : trans.mutex = (s.trans tp).mutex) :
    (s.setTrans tp trans).mutexes = s.mutexes := by
  rw [mutexes_setTrans, same]
  exact Function.update_eq_self ..

theorem sems_kept {trans : Transaction τ} (same : trans.sem = (s.trans tp).sem) :
    (s.setTrans tp trans).sems = s.sems := by
  rw [sems_setTrans, same]
  exact Function.update_eq_self ..

@[simp] theorem mutexes_goto (s : Server τ) (activity : Activity τ) :
    (s.goto client activity).mutexes = s.mutexes := rfl

@[simp] theorem sems_goto (s : Server τ) (activity : Activity τ) :
    (s.goto client activity).sems = s.sems := rfl

@[simp] theorem mutexes_setStatus (status : TransStatus) (s : Server τ) :
    (setStatus tp status s).mutexes = s.mutexes := mutexes_kept rfl

@[simp] theorem sems_setStatus (status : TransStatus) (s : Server τ) :
    (setStatus tp status s).sems = s.sems := sems_kept rfl

@[simp] theorem mutexes_addReference (s : Server τ) : (addReference tp s).mutexes = s.mutexes :=
  mutexes_kept rfl

@[simp] theorem sems_addReference (s : Server τ) : (addReference tp s).sems = s.sems :=
  sems_kept rfl

@[simp] theorem mutexes_dropReference (s : Server τ) : (dropReference tp s).mutexes = s.mutexes :=
  mutexes_kept rfl

@[simp] theorem sems_dropReference (s : Server τ) : (dropReference tp s).sems = s.sems :=
  sems_kept rfl

@[simp] theorem mutexes_addDependency (dtp : τ) (s : Server τ) :
    (addDependency tp dtp s).mutexes = s.mutexes := mutexes_kept rfl

@[simp] theorem sems_addDependency (dtp : τ) (s : Server τ) :
    (addDependency tp dtp s).sems = s.sems := sems_kept rfl

@[simp] theorem mutexes_setWaitcnt (waitcnt : Nat) (s : Server τ) :
    (setWaitcnt tp waitcnt s).mutexes = s.mutexes := mutexes_kept rfl

@[simp] theorem sems_setWaitcnt (waitcnt : Nat) (s : Server τ) :
    (setWaitcnt tp waitcnt s).sems = s.sems := sems_kept rfl

@[simp] theorem mutexes_wakeNext (s : Server τ) : (wakeNext tp s).1.mutexes = s.mutexes := by
  unfold wakeNext
  split
  · rfl
  · exact mutexes_setWaitcnt ..

@[simp] theorem sems_wakeNext (s : Server τ) : (wakeNext tp s).1.sems = s.sems := by
  unfold wakeNext
  split
  · rfl
  · exact sems_setWaitcnt ..

theorem wakeNext_inside (s : Server τ) : (wakeNext tp s).2.inside tp = some tp := by
  unfold wakeNext
  split <;> rfl

@[simp] theorem mutexes_unlock (s : Server τ) :
    (unlock tp s).mutexes = Function.update s.mutexes tp false := mutexes_setTrans ..

@[simp] theorem sems_unlock (s : Server τ) : (unlock tp s).sems = s.sems :=
  sems_kept rfl

@[simp] theorem mutexes_V (s : Server τ) : (V tp s).mutexes = s.mutexes :=
  mutexes_kept rfl

@[simp] theorem sems_V (s : Server τ) :
    (V tp s).sems = Function.update s.sems tp (s.sems tp + 1) := sems_setTrans ..

theorem lock_effect (ran : lock tp s = some s') : s.mutexes tp = false ∧
    s'.mutexes = Function.update s.mutexes tp true ∧ s'.sems = s.sems := by
  unfold lock at ran
  split at ran
  · cases ran
  · rename_i free
    cases ran
    exact ⟨eq_false_of_ne_true free, mutexes_setTrans .., sems_kept rfl⟩

theorem P_effect (ran : P tp s = some s') : s.sems tp ≠ 0 ∧ s'.mutexes = s.mutexes ∧
    s'.sems = Function.update s.sems tp (s.sems tp - 1) := by
  unfold P at ran
  split at ran
  · cases ran
  · rename_i sem positive
    cases ran
    have before : s.sems tp = sem + 1 := positive
    refine ⟨by simp [before], mutexes_kept rfl, ?_⟩
    rw [sems_setTrans, before]
    rfl

@[simp] theorem activity_goto (s : Server τ) (activity : Activity τ) :
    (s.goto client activity).activity client = activity := Function.update_self ..

variable {s₁ : Server τ}

theorem operates_lock (took : lock tp s = some s₁) (mutexes : s'.mutexes = s₁.mutexes)
    (sems : s'.sems = s₁.sems) (outside : activity.inside client = none)
    (enters : activity'.inside client = some tp)
    (taken : activity'.taken client = activity.taken client) :
    Operates s s' client activity activity' (.lock tp) := by
  obtain ⟨free, locked, same⟩ := lock_effect took
  exact .lock tp free (mutexes.trans locked) (sems.trans same) outside enters taken

theorem operates_unlock (mutexes : s'.mutexes = (unlock tp s).mutexes) (sems : s'.sems = s.sems)
    (inside : activity.inside client = some tp) (leaves : activity'.inside client = none)
    (taken : activity'.taken client = activity.taken client) :
    Operates s s' client activity activity' (.unlock tp) :=
  .unlock tp (mutexes.trans (mutexes_unlock s)) sems inside leaves taken

theorem operates_P (took : P tp s = some s₁) (mutexes : s'.mutexes = s₁.mutexes)
    (sems : s'.sems = s₁.sems) (outside : activity.inside client = none)
    (still : activity'.inside client = none)
    (taken : activity'.taken client = tp :: activity.taken client) :
    Operates s s' client activity activity' (.P tp) := by
  obtain ⟨positive, same, less⟩ := P_effect took
  exact .P tp positive (mutexes.trans same) (sems.trans less) outside still taken

theorem operates_V (mutexes : s'.mutexes = s.mutexes) (sems : s'.sems = (V tp s).sems)
    (same : activity'.inside client = activity.inside client)
    (taken : activity'.taken client = activity.taken client ∨
      activity.taken client = tp :: activity'.taken client) :
    Operates s s' client activity activity' (.V tp) :=
  .V tp mutexes (sems.trans (sems_V s)) same taken

theorem addStep_operates {dtp : τ} {pc : AddPc} (ran : addStep client dtp s pc = some s') :
    Operates s s' client (.adding dtp pc) (s'.activity client) (pc.operation client dtp) := by
  cases pc with
  | acquire =>
      obtain ⟨taken, took, rfl⟩ := Option.map_eq_some_iff.mp ran
      rw [activity_goto]
      exact operates_P took (by simp) (by simp) rfl rfl rfl
  | refLock =>
      obtain ⟨locked, took, rfl⟩ := Option.map_eq_some_iff.mp ran
      rw [activity_goto]
      exact operates_lock took (by simp) (by simp) rfl rfl rfl
  | refUnlock =>
      cases ran
      rw [activity_goto]
      exact operates_unlock (by simp) (by simp) rfl rfl rfl
  | release =>
      cases ran
      rw [activity_goto]
      exact operates_V (by simp) (by simp) rfl (.inr rfl)

/-- `releaseDependents`, `trans_unref` and the last V. -/
theorem tailStep_operates {afterWake afterUnref pc : TailPc} {after : Option TailPc}
    (ran : tailStep tp afterWake afterUnref s pc = some (s₁, after))
    (wakes : afterWake.inside tp = none) (unrefs : afterUnref.inside tp = none)
    (mutexes : s'.mutexes = s₁.mutexes) (sems : s'.sems = s₁.sems)
    (before : activity.inside client = pc.inside tp)
    (now : activity'.inside client = after.bind (TailPc.inside tp))
    (goes : after ≠ none → activity'.taken client = activity.taken client)
    (returns : after = none → activity.taken client = tp :: activity'.taken client) :
    Operates s s' client activity activity' (pc.operation tp) := by
  cases pc with
  | wakeLock =>
      obtain ⟨locked, took, same⟩ := Option.map_eq_some_iff.mp ran
      cases same
      exact operates_lock took (by simpa using mutexes) (by simpa using sems) before
        (now.trans (wakeNext_inside locked)) (goes (by simp))
  | wakeV =>
      cases ran
      exact operates_V (by simpa using mutexes) (by simpa using sems)
        (now.trans ((wakeNext_inside (V tp s)).trans before.symm)) (.inl (goes (by simp)))
  | wakeUnlock =>
      cases ran
      exact operates_unlock mutexes (by simpa using sems) before (now.trans wakes) (goes (by simp))
  | unrefLock =>
      obtain ⟨locked, took, same⟩ := Option.map_eq_some_iff.mp ran
      cases same
      exact operates_lock took (by simpa using mutexes) (by simpa using sems) before now
        (goes (by simp))
  | unrefUnlock =>
      cases ran
      exact operates_unlock mutexes (by simpa using sems) before (now.trans unrefs) (goes (by simp))
  | release =>
      cases ran
      exact operates_V (by simpa using mutexes) sems (now.trans before.symm) (.inr (returns rfl))

theorem read_operates {loop : Scan τ} {pc : ScanPc} {next : TransStatus → ScanPc}
    (ran : loop.read client next s = some s') (outside : pc.inside loop.trans = none)
    (enters : ∀ read, (next read).inside loop.trans = some loop.trans)
    (taken : ∀ read, (Activity.committing (.scan loop (next read))).taken client =
      (Activity.committing (.scan loop pc)).taken client) :
    Operates s s' client (.committing (.scan loop pc)) (s'.activity client) (.lock loop.trans) := by
  obtain ⟨locked, took, rfl⟩ := Option.map_eq_some_iff.mp ran
  rw [Scan.goto, activity_goto]
  exact operates_lock took (by simp) (by simp) outside (enters _) (taken _)

/-- The loop of `trans_commit` goes on, or it is over. -/
theorem checkFrom_places (status : TransStatus) (depends : List τ) (s : Server τ) :
    (checkFrom client status depends s).mutexes = s.mutexes ∧
      (checkFrom client status depends s).sems = s.sems ∧
      ((checkFrom client status depends s).activity client).inside client = none ∧
      ((checkFrom client status depends s).activity client).taken client = [client] := by
  cases depends with
  | nil =>
      unfold checkFrom finishCommit
      simp [Activity.inside, Activity.taken, TailPc.inside]
  | cons dtp next =>
      unfold checkFrom
      simp [Activity.inside, Activity.taken, ScanPc.inside]

theorem scanStep_operates {loop : Scan τ} {pc : ScanPc} (ran : scanStep client loop s pc = some s') :
    Operates s s' client (.committing (.scan loop pc)) (s'.activity client)
      (pc.operation loop.trans) := by
  cases pc with
  | firstLock | secondLock | pollLock | resultLock =>
      exact read_operates ran rfl (fun _ => rfl) fun _ => rfl
  | firstUnlock read =>
      unfold scanStep at ran
      dsimp only at ran
      split at ran
      · cases ran
        rw [finishCommit, activity_goto]
        exact operates_unlock (by simp) (by simp) rfl rfl rfl
      · cases ran
        rw [Scan.goto, activity_goto]
        exact operates_unlock (by simp) (by simp) rfl rfl rfl
  | secondUnlock read =>
      unfold scanStep at ran
      dsimp only at ran
      split at ran
      · cases ran
        rw [Scan.goto, activity_goto]
        exact operates_unlock (by simp) (by simp) rfl rfl rfl
      · cases ran
        obtain ⟨mutexes, sems, outside, taken⟩ :=
          @checkFrom_places _ _ client loop.status loop.next (unlock loop.trans s)
        exact operates_unlock mutexes (sems.trans (sems_unlock s)) rfl outside taken
  | countLock =>
      obtain ⟨locked, took, rfl⟩ := Option.map_eq_some_iff.mp ran
      rw [Scan.goto, activity_goto]
      exact operates_lock took (by simp) (by simp) rfl rfl rfl
  | countUnlock =>
      cases ran
      rw [Scan.goto, activity_goto]
      exact operates_unlock (by simp) (by simp) rfl rfl rfl
  | pollUnlock read =>
      unfold scanStep at ran
      dsimp only at ran
      split at ran
      · cases ran
        rw [Scan.goto, activity_goto]
        exact operates_unlock (by simp) (by simp) rfl rfl rfl
      · cases ran
        rw [Scan.goto, activity_goto]
        exact operates_unlock (by simp) (by simp) rfl rfl rfl
  | waitP =>
      obtain ⟨taken, took, rfl⟩ := Option.map_eq_some_iff.mp ran
      rw [Scan.goto, activity_goto]
      exact operates_P took (by simp) (by simp) rfl rfl rfl
  | waitV =>
      cases ran
      rw [Scan.goto, activity_goto]
      exact operates_V (by simp) (by simp) rfl (.inr rfl)
  | resultUnlock read =>
      cases ran
      obtain ⟨mutexes, sems, outside, taken⟩ := @checkFrom_places _ _ client
        (if read = .aborted then .aborted else loop.status) loop.next (unlock loop.trans s)
      exact operates_unlock mutexes (sems.trans (sems_unlock s)) rfl outside taken

theorem commitStep_operates {pc : CommitPc τ} (ran : commitStep client s pc = some s') :
    ∃ op, (Activity.committing pc).operation client = some op ∧
      Operates s s' client (.committing pc) (s'.activity client) op := by
  cases pc with
  | acquire =>
      obtain ⟨taken, took, rfl⟩ := Option.map_eq_some_iff.mp ran
      obtain ⟨mutexes, sems, outside, holds⟩ :=
        @checkFrom_places _ _ client .committed (taken.trans client).depends taken
      exact ⟨_, rfl, operates_P took mutexes sems rfl outside holds⟩
  | scan loop pc => exact ⟨_, rfl, scanStep_operates ran⟩
  | tail pc =>
      obtain ⟨⟨after, next⟩, took, rfl⟩ := Option.map_eq_some_iff.mp ran
      cases next with
      | none =>
          dsimp only
          rw [activity_goto]
          exact ⟨_, rfl, tailStep_operates took rfl rfl (by simp) (by simp) rfl rfl (by simp)
            fun _ => rfl⟩
      | some next =>
          dsimp only
          rw [activity_goto]
          exact ⟨_, rfl, tailStep_operates took rfl rfl (by simp) (by simp) rfl rfl (fun _ => rfl)
            (by simp)⟩

theorem abortStep_operates {pc : AbortPc} {callers : List (Caller τ)}
    (ran : abortStep client tp callers s pc = some s') :
    Operates s s' client (.aborting tp pc callers) (s'.activity client) (pc.operation tp) := by
  cases pc with
  | firstLock | secondLock =>
      obtain ⟨locked, took, rfl⟩ := Option.map_eq_some_iff.mp ran
      rw [activity_goto]
      exact operates_lock took (by simp) (by simp) rfl rfl rfl
  | firstUnlock read =>
      unfold abortStep at ran
      dsimp only at ran
      split at ran
      · cases ran
      · cases ran
        rw [activity_goto]
        exact operates_unlock (by simp) (by simp) rfl rfl rfl
  | secondUnlock read =>
      unfold abortStep at ran
      dsimp only at ran
      split at ran
      · cases ran
        rw [activity_goto]
        exact operates_unlock (by simp) (by simp) rfl rfl rfl
      · cases ran
        rw [activity_goto]
        exact operates_unlock (by simp) (by simp) rfl (inside_returnTo ..) (taken_returnTo ..)
  | acquire =>
      obtain ⟨taken, took, rfl⟩ := Option.map_eq_some_iff.mp ran
      rw [activity_goto]
      exact operates_P took (by simp) (by simp) rfl (inside_abortFrom ..) (taken_abortFrom ..)
  | tail pc =>
      obtain ⟨⟨after, next⟩, took, rfl⟩ := Option.map_eq_some_iff.mp ran
      cases next with
      | none =>
          dsimp only
          rw [activity_goto]
          exact tailStep_operates took rfl rfl (by simp) (by simp) rfl (inside_returnTo ..) (by simp)
            fun _ => congrArg _ (taken_returnTo client callers).symm
      | some next =>
          dsimp only
          rw [activity_goto]
          exact tailStep_operates took rfl rfl (by simp) (by simp) rfl rfl (fun _ => rfl) (by simp)

theorem advance_operates (ran : advance client s = some s') :
    ∃ op, (s.activity client).operation client = some op ∧
      Operates s s' client (s.activity client) (s'.activity client) op := by
  unfold advance at ran
  split at ran
  · cases ran
  · rename_i now
    rw [now]
    exact ⟨_, rfl, addStep_operates ran⟩
  · rename_i now
    rw [now]
    exact commitStep_operates ran
  · rename_i now
    rw [now]
    exact ⟨_, rfl, abortStep_operates ran⟩

/-- A mutex is locked exactly if one thread is inside of it; a semaphore that is 0 has been taken by
a thread that has still to give it back. -/
structure Server.Accounted (s : Server τ) : Prop where
  mutexes : Holding.Agrees (fun x => s.mutexes x = true)
    (fun client x => (s.activity client).inside client = some x)
  sems : ∀ x, s.sems x = 0 → ∃ client, x ∈ (s.activity client).taken client

omit [DecidableEq τ] in
theorem accounted_init : (Server.init : Server τ).Accounted := by
  refine ⟨⟨fun x => ?_, fun a b x first => ?_⟩, fun x empty => ?_⟩
  · simp [Server.init, transCreate, Server.mutexes, Activity.inside]
  · cases first
  · simp [Server.init, transCreate, Server.sems] at empty

section Turns

variable {op : Operation τ} (operates : Operates s s' client (s.activity client) (s'.activity client) op)
variable (others : ∀ other ≠ client, s'.activity other = s.activity other)

include operates others in
theorem Operates.mutexes (accounted : s.Accounted) :
    Holding.Agrees (fun x => s'.mutexes x = true)
      (fun client x => (s'.activity client).inside client = some x) := by
  have turn : Holding.Turn (fun client x => (s.activity client).inside client = some x)
      (fun client x => (s'.activity client).inside client = some x) client
      (fun x => (s.activity client).inside client = some x)
      (fun x => (s'.activity client).inside client = some x) :=
    ⟨fun _ => Iff.rfl, fun _ => Iff.rfl, fun a other x => by rw [others a other]⟩
  have quiet : s'.mutexes = s.mutexes →
      (s'.activity client).inside client = (s.activity client).inside client →
      Holding.Agrees (fun x => s'.mutexes x = true)
        (fun client x => (s'.activity client).inside client = some x) := by
    intro mutexes same
    exact accounted.mutexes.congr (fun x => by rw [mutexes]) fun a x => turn.keeps (by rw [same]) a
  cases operates with
  | lock tp free mutexes _ outside enters _ =>
      refine accounted.mutexes.acquire client tp (by simp [free]) (fun x => ?_) fun a x => ?_
      · by_cases same : x = tp <;> simp [mutexes, same]
      · exact turn.gets (by simp [outside, enters, eq_comm]) a
  | unlock tp mutexes _ inside leaves _ =>
      refine accounted.mutexes.drop inside (fun x => ?_) fun a x => ?_
      · by_cases same : x = tp <;> simp [mutexes, same]
      · exact turn.loses (by simp [inside, leaves, eq_comm]) a
  | P tp _ mutexes _ outside still _ => exact quiet mutexes (still.trans outside.symm)
  | V tp mutexes _ same _ => exact quiet mutexes same

include operates others in
theorem Operates.sems (accounted : s.Accounted) :
    ∀ x, s'.sems x = 0 → ∃ client, x ∈ (s'.activity client).taken client := by
  have kept : ∀ {x}, (x ∈ (s.activity client).taken client → x ∈ (s'.activity client).taken client) →
      s.sems x = 0 → ∃ client, x ∈ (s'.activity client).taken client := by
    intro x goes empty
    obtain ⟨holder, member⟩ := accounted.sems x empty
    by_cases own : holder = client
    · exact ⟨client, goes (own ▸ member)⟩
    · exact ⟨holder, by rwa [others holder own]⟩
  intro x empty
  cases operates with
  | lock tp _ _ sems _ _ taken | unlock tp _ sems _ _ taken =>
      rw [sems] at empty
      exact kept (fun member => taken ▸ member) empty
  | P tp positive _ sems _ _ taken =>
      by_cases same : x = tp
      · exact ⟨client, by simp [taken, same]⟩
      · rw [sems, Function.update_of_ne same] at empty
        exact kept (fun member => by simp [taken, member]) empty
  | V tp _ sems _ taken =>
      have different : x ≠ tp := by
        rintro rfl
        simp [sems] at empty
      rw [sems, Function.update_of_ne different] at empty
      refine kept (fun member => ?_) empty
      rcases taken with same | given
      · rwa [same]
      · rw [given] at member
        exact (List.mem_cons.mp member).resolve_left different

end Turns

omit [DecidableEq τ] in
/-- A thread that starts has neither locked nor taken anything. -/
theorem Activity.Starts.empty (starts : activity.Starts client) :
    activity.inside client = none ∧ activity.taken client = [] := by
  cases activity with
  | idle => exact ⟨rfl, rfl⟩
  | adding dtp pc => cases pc <;> first | exact ⟨rfl, rfl⟩ | cases starts
  | committing pc => cases pc <;> first | exact ⟨rfl, rfl⟩ | cases starts
  | aborting tp pc callers =>
      cases pc <;> cases callers <;> first | exact ⟨rfl, rfl⟩ | cases starts

theorem step_accounted {action : Action τ} (accounted : s.Accounted)
    (ran : step s action = some s') : s'.Accounted := by
  rcases step_cases ran with ⟨idle, calls⟩ | ⟨go, advances⟩
  · obtain ⟨trans, activity, starts, now⟩ := calls.starts
    have same : ∀ client, (s'.activity client).inside client = (s.activity client).inside client ∧
        (s'.activity client).taken client = (s.activity client).taken client := by
      intro client
      rw [now]
      by_cases own : client = action.client
      · rw [own, Function.update_self, idle]
        exact starts.empty
      · rw [Function.update_of_ne own]
        exact ⟨rfl, rfl⟩
    refine ⟨accounted.mutexes.congr (fun x => by rw [Server.mutexes, Server.mutexes, trans]) ?_, ?_⟩
    · exact fun client x => by rw [(same client).1]
    · intro x empty
      rw [Server.sems, trans] at empty
      obtain ⟨client, member⟩ := accounted.sems x empty
      exact ⟨client, by rwa [(same client).2]⟩
  · rw [go] at ran
    obtain ⟨op, -, operates⟩ := advance_operates ran
    exact ⟨operates.mutexes advances.others accounted, operates.sems advances.others accounted⟩

theorem accounted_of_reachable {allowed : Server τ → Action τ → Prop}
    (reached : Runs.Reachable step allowed Server.init s) : s.Accounted := by
  refine reached.invariant Server.Accounted accounted_init ?_
  intro s action next accounted _ ran
  exact step_accounted accounted ran

/-- A mutex is locked exactly if one thread is between its `pthread_mutex_lock` and its
`pthread_mutex_unlock`; while no thread is in a function, no mutex is locked and no semaphore is
0. -/
theorem locks_given_back (reached : Runs.Reachable step Runs.Any Server.init s) :
    (∀ tp, (s.trans tp).mutex = true ↔ ∃! client, (s.activity client).inside client = some tp) ∧
      ((∀ client, s.activity client = .idle) →
        ∀ tp, (s.trans tp).mutex = false ∧ (s.trans tp).sem ≠ 0) := by
  have accounted := accounted_of_reachable reached
  constructor
  · intro tp
    refine (accounted.mutexes.flagged tp).trans ⟨?_, ?_⟩
    · rintro ⟨client, inside⟩
      exact ⟨client, inside, fun other held => accounted.mutexes.unique other client tp held inside⟩
    · rintro ⟨client, inside, -⟩
      exact ⟨client, inside⟩
  · intro idle tp
    constructor
    · refine eq_false_of_ne_true fun locked => ?_
      obtain ⟨client, inside⟩ := (accounted.mutexes.flagged tp).mp locked
      rw [idle] at inside
      cases inside
    · intro empty
      obtain ⟨client, member⟩ := accounted.sems tp empty
      rw [idle] at member
      cases member

theorem locks_given_back_example : ∃ s : Server Nat, Runs.Reachable step Runs.Any Server.init s ∧
    (s.trans 0).mutex = true ∧ ∃! client, (s.activity client).inside client = some 0 := by
  obtain ⟨s, -, reached, passed⟩ := @Runs.exists_reachable _ _ step _ Server.init [.abort 0, .go 0]
    (fun _ _ => true) (fun _ _ _ => trivial) (by decide) (fun s => (s.trans 0).mutex) (by decide)
  exact ⟨s, reached, passed, ((locks_given_back reached).1 0).mp passed⟩

end Audible.Xacto
