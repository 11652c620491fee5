import Audible.TransactionData

set_option autoImplicit false

/- What a step of a thread does to statuses, dependencies and semaphores. -/
namespace Audible.Xacto

variable {τ : Type}

/-- Neither a status nor a semaphore changes. -/
structure Still (t t' : τ → Transaction τ) : Prop where
  statuses : ∀ x, (t' x).status = (t x).status
  sems : ∀ x, (t' x).sem = (t x).sem
  depends : ∀ x, (t' x).depends = (t x).depends

structure Takes (t t' : τ → Transaction τ) (tp : τ) : Prop where
  statuses : ∀ x, (t' x).status = (t x).status
  taken : (t tp).sem = (t' tp).sem + 1
  others : ∀ x ≠ tp, (t' x).sem = (t x).sem
  depends : ∀ x, (t' x).depends = (t x).depends

structure Gives (t t' : τ → Transaction τ) (tp : τ) : Prop where
  statuses : ∀ x, (t' x).status = (t x).status
  given : (t' tp).sem = (t tp).sem + 1
  others : ∀ x ≠ tp, (t' x).sem = (t x).sem
  depends : ∀ x, (t' x).depends = (t x).depends

/-- A status is written; nothing is said of the semaphore of that transaction. -/
structure Writes (t t' : τ → Transaction τ) (tp : τ) (status : TransStatus) : Prop where
  written : (t' tp).status = status
  statuses : ∀ x ≠ tp, (t' x).status = (t x).status
  sems : ∀ x ≠ tp, (t' x).sem = (t x).sem
  depends : ∀ x, (t' x).depends = (t x).depends

/-- The loop of `trans_commit` goes on with the dependencies `depends`, or it is over and the
status is written. -/
inductive Checks (t t' : τ → Transaction τ) (client : τ) (status : TransStatus) :
    List τ → Activity τ → Prop
  | go (dtp : τ) (next : List τ) (still : Still t t') :
      Checks t t' client status (dtp :: next)
        (.committing (.scan ⟨status, dtp, next⟩ .firstLock))
  | finish (writes : Writes t t' client status) :
      Checks t t' client status [] (.committing (.tail .wakeLock))

/-- What a step of a client's thread does, by where the thread is before and after it. -/
inductive Moves (t t' : τ → Transaction τ) (client : τ) : Activity τ → Activity τ → Prop
  | addAcquire (dtp : τ) (t₁ : τ → Transaction τ) (takes : Takes t t₁ client)
      (still : ∀ x, (t' x).status = (t₁ x).status ∧ (t' x).sem = (t₁ x).sem)
      (others : ∀ x ≠ client, (t' x).depends = (t₁ x).depends) :
      Moves t t' client (.adding dtp .acquire) (.adding dtp .refLock)
  | addRefLock (dtp : τ) (still : Still t t') :
      Moves t t' client (.adding dtp .refLock) (.adding dtp .refUnlock)
  | addRefUnlock (dtp : τ) (still : Still t t') :
      Moves t t' client (.adding dtp .refUnlock) (.adding dtp .release)
  | addRelease (dtp : τ) (gives : Gives t t' client) :
      Moves t t' client (.adding dtp .release) .idle
  | commitAcquire (dtp : τ) (next : List τ) (takes : Takes t t' client)
      (depends : (t client).depends = dtp :: next) :
      Moves t t' client (.committing .acquire)
        (.committing (.scan ⟨.committed, dtp, next⟩ .firstLock))
  | commitAlone (writes : Writes t t' client .committed) (depends : (t client).depends = []) :
      Moves t t' client (.committing .acquire) (.committing (.tail .wakeLock))
  | firstLock (loop : Scan τ) (still : Still t t') :
      Moves t t' client (.committing (.scan loop .firstLock))
        (.committing (.scan loop (.firstUnlock (t loop.trans).status)))
  | firstAborted (loop : Scan τ) (writes : Writes t t' client .aborted) :
      Moves t t' client (.committing (.scan loop (.firstUnlock .aborted))) (.committing (.tail .wakeLock))
  | firstOther (loop : Scan τ) (read : TransStatus) (other : read ≠ .aborted) (still : Still t t') :
      Moves t t' client (.committing (.scan loop (.firstUnlock read)))
        (.committing (.scan loop .secondLock))
  | secondLock (loop : Scan τ) (still : Still t t') :
      Moves t t' client (.committing (.scan loop .secondLock))
        (.committing (.scan loop (.secondUnlock (t loop.trans).status)))
  | secondPending (loop : Scan τ) (still : Still t t') :
      Moves t t' client (.committing (.scan loop (.secondUnlock .pending)))
        (.committing (.scan loop .countLock))
  | secondOther (loop : Scan τ) (read : TransStatus) (activity : Activity τ) (other : read ≠ .pending)
      (checks : Checks t t' client loop.status loop.next activity) :
      Moves t t' client (.committing (.scan loop (.secondUnlock read))) activity
  | countLock (loop : Scan τ) (still : Still t t') :
      Moves t t' client (.committing (.scan loop .countLock)) (.committing (.scan loop .countUnlock))
  | countUnlock (loop : Scan τ) (still : Still t t') :
      Moves t t' client (.committing (.scan loop .countUnlock)) (.committing (.scan loop .pollLock))
  | pollLock (loop : Scan τ) (still : Still t t') :
      Moves t t' client (.committing (.scan loop .pollLock))
        (.committing (.scan loop (.pollUnlock (t loop.trans).status)))
  | pollPending (loop : Scan τ) (still : Still t t') :
      Moves t t' client (.committing (.scan loop (.pollUnlock .pending)))
        (.committing (.scan loop .waitP))
  | pollOther (loop : Scan τ) (read : TransStatus) (other : read ≠ .pending) (still : Still t t') :
      Moves t t' client (.committing (.scan loop (.pollUnlock read)))
        (.committing (.scan loop .resultLock))
  | waitP (loop : Scan τ) (takes : Takes t t' loop.trans) :
      Moves t t' client (.committing (.scan loop .waitP)) (.committing (.scan loop .waitV))
  | waitV (loop : Scan τ) (gives : Gives t t' loop.trans) :
      Moves t t' client (.committing (.scan loop .waitV)) (.committing (.scan loop .pollLock))
  | resultLock (loop : Scan τ) (still : Still t t') :
      Moves t t' client (.committing (.scan loop .resultLock))
        (.committing (.scan loop (.resultUnlock (t loop.trans).status)))
  | resultUnlock (loop : Scan τ) (read : TransStatus) (activity : Activity τ)
      (checks : Checks t t' client (if read = .aborted then .aborted else loop.status) loop.next
        activity) :
      Moves t t' client (.committing (.scan loop (.resultUnlock read))) activity
  | commitTail (pc : TailPc) (activity : Activity τ) (gives : Still t t' ∨ Gives t t' client)
      (after : activity = .idle ∨ ∃ pc, activity = .committing (.tail pc)) :
      Moves t t' client (.committing (.tail pc)) activity
  | abortLook (tp : τ) (pc pc' : AbortPc) (callers : List (Caller τ)) (still : Still t t')
      (early : ∀ tail, pc' ≠ .tail tail) :
      Moves t t' client (.aborting tp pc callers) (.aborting tp pc' callers)
  | abortLate (tp : τ) (pc : AbortPc) (callers : List (Caller τ)) (still : Still t t') :
      Moves t t' client (.aborting tp pc callers) (returnTo callers)
  | abortAcquire (tp : τ) (callers : List (Caller τ)) (positive : 0 < (t tp).sem)
      (writes : Writes t t' tp .aborted) :
      Moves t t' client (.aborting tp .acquire callers)
        (abortFrom tp callers (t tp).depends)
  | abortTail (tp : τ) (pc : TailPc) (callers : List (Caller τ)) (activity : Activity τ)
      (gives : Still t t' ∨ Gives t t' tp)
      (after : activity = returnTo callers ∨ ∃ pc, activity = .aborting tp (.tail pc) callers) :
      Moves t t' client (.aborting tp (.tail pc) callers) activity

theorem Still.refl (t : τ → Transaction τ) : Still t t := ⟨fun _ => rfl, fun _ => rfl, fun _ => rfl⟩

variable {t t' t'' : τ → Transaction τ} {tp client : τ} {status : TransStatus}

theorem Still.trans (first : Still t t') (second : Still t' t'') : Still t t'' :=
  ⟨fun x => (second.statuses x).trans (first.statuses x),
    fun x => (second.sems x).trans (first.sems x),
    fun x => (second.depends x).trans (first.depends x)⟩

theorem Still.writes (first : Still t t') (second : Writes t' t'' tp status) :
    Writes t t'' tp status :=
  ⟨second.written, fun x other => (second.statuses x other).trans (first.statuses x),
    fun x other => (second.sems x other).trans (first.sems x),
    fun x => (second.depends x).trans (first.depends x)⟩

theorem Takes.writes (first : Takes t t' tp) (second : Writes t' t'' tp status) :
    Writes t t'' tp status :=
  ⟨second.written, fun x other => (second.statuses x other).trans (first.statuses x),
    fun x other => (second.sems x other).trans (first.others x other),
    fun x => (second.depends x).trans (first.depends x)⟩

theorem Gives.still (first : Gives t t' tp) (second : Still t' t'') : Gives t t'' tp :=
  ⟨fun x => (second.statuses x).trans (first.statuses x), (second.sems tp).trans first.given,
    fun x other => (second.sems x).trans (first.others x other),
    fun x => (second.depends x).trans (first.depends x)⟩

variable [DecidableEq τ] {s s' : Server τ}

/-- A field that nothing here looks at changes. -/
theorem still_setTrans {trans : Transaction τ} (status : trans.status = (s.trans tp).status)
    (sem : trans.sem = (s.trans tp).sem) (depends : trans.depends = (s.trans tp).depends) :
    Still s.trans (s.setTrans tp trans).trans := by
  constructor
  · intro x
    by_cases same : x = tp <;> simp [Server.setTrans, same, status]
  · intro x
    by_cases same : x = tp <;> simp [Server.setTrans, same, sem]
  · intro x
    by_cases same : x = tp <;> simp [Server.setTrans, same, depends]

theorem still_lock (ran : lock tp s = some s') :
    Still s.trans s'.trans ∧ s'.activity = s.activity ∧ s'.attempted = s.attempted := by
  unfold lock at ran
  split at ran
  · cases ran
  · cases ran
    exact ⟨still_setTrans rfl rfl rfl, rfl, rfl⟩

theorem still_unlock (tp : τ) (s : Server τ) : Still s.trans (unlock tp s).trans :=
  still_setTrans rfl rfl rfl

theorem takes_P (ran : P tp s = some s') :
    Takes s.trans s'.trans tp ∧ s'.activity = s.activity ∧ s'.attempted = s.attempted := by
  unfold P at ran
  split at ran
  · cases ran
  · rename_i sem positive
    cases ran
    refine ⟨⟨fun x => ?_, ?_, fun x other => ?_, fun x => ?_⟩, rfl, rfl⟩
    · by_cases same : x = tp <;> simp [Server.setTrans, same]
    · simp [Server.setTrans, positive]
    · simp [Server.setTrans, other]
    · by_cases same : x = tp <;> simp [Server.setTrans, same]

theorem gives_V (tp : τ) (s : Server τ) : Gives s.trans (V tp s).trans tp := by
  refine ⟨fun x => ?_, ?_, fun x other => ?_, fun x => ?_⟩
  · by_cases same : x = tp <;> simp [V, Server.setTrans, same]
  · simp [V, Server.setTrans]
  · simp [V, Server.setTrans, other]
  · by_cases same : x = tp <;> simp [V, Server.setTrans, same]

theorem writes_setStatus (tp : τ) (status : TransStatus) (s : Server τ) :
    Writes s.trans (setStatus tp status s).trans tp status := by
  refine ⟨?_, fun x other => ?_, fun x other => ?_, fun x => ?_⟩
  · simp [setStatus, Server.setTrans]
  · simp [setStatus, Server.setTrans, other]
  · simp [setStatus, Server.setTrans, other]
  · by_cases same : x = tp <;> simp [setStatus, Server.setTrans, same]

theorem still_wakeNext (tp : τ) (s : Server τ) :
    Still s.trans (wakeNext tp s).1.trans ∧ (wakeNext tp s).1.activity = s.activity ∧
      (wakeNext tp s).1.attempted = s.attempted := by
  unfold wakeNext
  split
  · exact ⟨Still.refl _, rfl, rfl⟩
  · exact ⟨still_setTrans rfl rfl rfl, rfl, rfl⟩

theorem tailStep_effect {afterWake afterUnref : TailPc} {pc : TailPc} {after : Option TailPc}
    (ran : tailStep tp afterWake afterUnref s pc = some (s', after)) :
    (Still s.trans s'.trans ∨ Gives s.trans s'.trans tp) ∧ s'.activity = s.activity ∧
      s'.attempted = s.attempted := by
  cases pc with
  | wakeLock =>
      obtain ⟨locked, took, same⟩ := Option.map_eq_some_iff.mp ran
      cases same
      obtain ⟨first, activity, attempted⟩ := still_lock took
      obtain ⟨second, activity', attempted'⟩ := still_wakeNext tp locked
      exact ⟨.inl (first.trans second), activity'.trans activity, attempted'.trans attempted⟩
  | wakeV =>
      cases ran
      obtain ⟨second, activity', attempted'⟩ := still_wakeNext tp (V tp s)
      exact ⟨.inr ((gives_V tp s).still second), activity', attempted'⟩
  | wakeUnlock =>
      cases ran
      exact ⟨.inl (still_unlock tp s), rfl, rfl⟩
  | unrefLock =>
      obtain ⟨locked, took, same⟩ := Option.map_eq_some_iff.mp ran
      cases same
      obtain ⟨first, activity, attempted⟩ := still_lock took
      exact ⟨.inl (first.trans (still_setTrans rfl rfl rfl)), activity, attempted⟩
  | unrefUnlock =>
      cases ran
      exact ⟨.inl (still_unlock tp s), rfl, rfl⟩
  | release =>
      cases ran
      exact ⟨.inr (gives_V tp s), rfl, rfl⟩

/-- What a step of a client does: only that client's thread moves. -/
structure Advances (s s' : Server τ) (client : τ) : Prop where
  others : ∀ other ≠ client, s'.activity other = s.activity other
  attempted : s'.attempted = s.attempted
  moves : Moves s.trans s'.trans client (s.activity client) (s'.activity client)

theorem advances_goto {s₁ : Server τ} {activity activity' : Activity τ}
    (now : s.activity client = activity) (kept : s₁.activity = s.activity)
    (attempted : s₁.attempted = s.attempted)
    (moves : Moves s.trans s₁.trans client activity activity') :
    Advances s (s₁.goto client activity') client := by
  refine ⟨fun other different => ?_, attempted, ?_⟩
  · simp [Server.goto, different, kept]
  · simpa [Server.goto, now] using moves

theorem advances_checkFrom {s₁ : Server τ} {activity : Activity τ} {depends : List τ}
    (now : s.activity client = activity) (kept : s₁.activity = s.activity)
    (attempted : s₁.attempted = s.attempted) (still : Still s.trans s₁.trans)
    (moves : ∀ t' activity', Checks s.trans t' client status depends activity' →
      Moves s.trans t' client activity activity') :
    Advances s (checkFrom client status depends s₁) client := by
  cases depends with
  | nil =>
      exact advances_goto now kept attempted
        (moves _ _ (.finish (still.writes (writes_setStatus client status s₁))))
  | cons dtp next => exact advances_goto now kept attempted (moves _ _ (.go dtp next still))

theorem addStep_advances {dtp : τ} {pc : AddPc} (now : s.activity client = .adding dtp pc)
    (ran : addStep client dtp s pc = some s') : Advances s s' client := by
  cases pc with
  | acquire =>
      obtain ⟨taken, took, rfl⟩ := Option.map_eq_some_iff.mp ran
      obtain ⟨takes, activity, attempted⟩ := takes_P took
      refine advances_goto now activity attempted (.addAcquire dtp taken.trans takes ?_ ?_)
      · intro x
        by_cases same : x = client <;> simp [addDependency, Server.setTrans, same]
      · intro x other
        simp [addDependency, Server.setTrans, other]
  | refLock =>
      obtain ⟨locked, took, rfl⟩ := Option.map_eq_some_iff.mp ran
      obtain ⟨still, activity, attempted⟩ := still_lock took
      exact advances_goto now activity attempted
        (.addRefLock dtp (still.trans (still_setTrans rfl rfl rfl)))
  | refUnlock =>
      cases ran
      exact advances_goto now rfl rfl (.addRefUnlock dtp (still_unlock dtp s))
  | release =>
      cases ran
      exact advances_goto now rfl rfl (.addRelease dtp (gives_V client s))

theorem read_advances {loop : Scan τ} {pc : ScanPc} {next : TransStatus → ScanPc}
    (now : s.activity client = .committing (.scan loop pc)) (ran : loop.read client next s = some s')
    (moves : ∀ t', Still s.trans t' → Moves s.trans t' client (.committing (.scan loop pc))
      (.committing (.scan loop (next (s.trans loop.trans).status)))) : Advances s s' client := by
  obtain ⟨locked, took, rfl⟩ := Option.map_eq_some_iff.mp ran
  obtain ⟨still, activity, attempted⟩ := still_lock took
  refine advances_goto now activity attempted ?_
  rw [still.statuses]
  exact moves locked.trans still

theorem scanStep_advances {loop : Scan τ} {pc : ScanPc}
    (now : s.activity client = .committing (.scan loop pc))
    (ran : scanStep client loop s pc = some s') : Advances s s' client := by
  have unlocked := still_unlock loop.trans s
  cases pc with
  | firstLock => exact read_advances now ran fun _ => .firstLock loop
  | firstUnlock read =>
      unfold scanStep at ran
      dsimp only at ran
      split at ran
      · rename_i aborted
        cases ran
        subst aborted
        exact advances_goto now rfl rfl
          (.firstAborted loop (unlocked.writes (writes_setStatus client .aborted _)))
      · rename_i other
        cases ran
        exact advances_goto now rfl rfl (.firstOther loop read other unlocked)
  | secondLock => exact read_advances now ran fun _ => .secondLock loop
  | secondUnlock read =>
      unfold scanStep at ran
      dsimp only at ran
      split at ran
      · rename_i pending
        cases ran
        subst pending
        exact advances_goto now rfl rfl (.secondPending loop unlocked)
      · rename_i other
        cases ran
        exact advances_checkFrom now rfl rfl unlocked fun _ activity checks =>
          .secondOther loop read activity other checks
  | countLock =>
      obtain ⟨locked, took, rfl⟩ := Option.map_eq_some_iff.mp ran
      obtain ⟨still, activity, attempted⟩ := still_lock took
      exact advances_goto now activity attempted
        (.countLock loop (still.trans (still_setTrans rfl rfl rfl)))
  | countUnlock =>
      cases ran
      exact advances_goto now rfl rfl (.countUnlock loop unlocked)
  | pollLock => exact read_advances now ran fun _ => .pollLock loop
  | pollUnlock read =>
      unfold scanStep at ran
      dsimp only at ran
      split at ran
      · rename_i pending
        cases ran
        subst pending
        exact advances_goto now rfl rfl (.pollPending loop unlocked)
      · rename_i other
        cases ran
        exact advances_goto now rfl rfl (.pollOther loop read other unlocked)
  | waitP =>
      obtain ⟨taken, took, rfl⟩ := Option.map_eq_some_iff.mp ran
      obtain ⟨takes, activity, attempted⟩ := takes_P took
      exact advances_goto now activity attempted (.waitP loop takes)
  | waitV =>
      cases ran
      exact advances_goto now rfl rfl (.waitV loop (gives_V loop.trans s))
  | resultLock => exact read_advances now ran fun _ => .resultLock loop
  | resultUnlock read =>
      cases ran
      exact advances_checkFrom now rfl rfl unlocked fun _ activity checks =>
        .resultUnlock loop read activity checks

theorem commitStep_advances {pc : CommitPc τ} (now : s.activity client = .committing pc)
    (ran : commitStep client s pc = some s') : Advances s s' client := by
  cases pc with
  | acquire =>
      obtain ⟨taken, took, rfl⟩ := Option.map_eq_some_iff.mp ran
      obtain ⟨takes, activity, attempted⟩ := takes_P took
      cases depends : (taken.trans client).depends with
      | nil =>
          refine advances_goto now activity attempted (.commitAlone ?_ ?_)
          · exact takes.writes (writes_setStatus client .committed taken)
          · rw [← takes.depends, depends]
      | cons dtp next =>
          refine advances_goto now activity attempted (.commitAcquire dtp next takes ?_)
          rw [← takes.depends, depends]
  | scan loop pc => exact scanStep_advances now ran
  | tail pc =>
      obtain ⟨⟨after, next⟩, took, rfl⟩ := Option.map_eq_some_iff.mp ran
      obtain ⟨effect, activity, attempted⟩ := tailStep_effect took
      cases next with
      | none => exact advances_goto now activity attempted (.commitTail pc _ effect (.inl rfl))
      | some next =>
          exact advances_goto now activity attempted (.commitTail pc _ effect (.inr ⟨next, rfl⟩))

theorem abortStep_advances {pc : AbortPc} {callers : List (Caller τ)}
    (now : s.activity client = .aborting tp pc callers)
    (ran : abortStep client tp callers s pc = some s') : Advances s s' client := by
  cases pc with
  | firstLock =>
      obtain ⟨locked, took, rfl⟩ := Option.map_eq_some_iff.mp ran
      obtain ⟨still, activity, attempted⟩ := still_lock took
      exact advances_goto now activity attempted (.abortLook tp _ _ callers still (by simp))
  | firstUnlock read =>
      unfold abortStep at ran
      dsimp only at ran
      split at ran
      · cases ran
      · cases ran
        exact advances_goto now rfl rfl (.abortLook tp _ _ callers (still_unlock tp s) (by simp))
  | secondLock =>
      obtain ⟨locked, took, rfl⟩ := Option.map_eq_some_iff.mp ran
      obtain ⟨still, activity, attempted⟩ := still_lock took
      exact advances_goto now activity attempted (.abortLook tp _ _ callers still (by simp))
  | secondUnlock read =>
      unfold abortStep at ran
      dsimp only at ran
      split at ran
      · cases ran
        exact advances_goto now rfl rfl (.abortLook tp _ _ callers (still_unlock tp s) (by simp))
      · cases ran
        exact advances_goto now rfl rfl (.abortLate tp _ callers (still_unlock tp s))
  | acquire =>
      obtain ⟨taken, took, rfl⟩ := Option.map_eq_some_iff.mp ran
      obtain ⟨takes, activity, attempted⟩ := takes_P took
      refine advances_goto now activity attempted ?_
      rw [takes.depends]
      exact .abortAcquire tp callers (takes.taken ▸ Nat.succ_pos _)
        (takes.writes (writes_setStatus tp .aborted taken))
  | tail pc =>
      obtain ⟨⟨after, next⟩, took, rfl⟩ := Option.map_eq_some_iff.mp ran
      obtain ⟨effect, activity, attempted⟩ := tailStep_effect took
      cases next with
      | none =>
          exact advances_goto now activity attempted (.abortTail tp pc callers _ effect (.inl rfl))
      | some next =>
          exact advances_goto now activity attempted
            (.abortTail tp pc callers _ effect (.inr ⟨next, rfl⟩))

theorem advance_advances (ran : advance client s = some s') : Advances s s' client := by
  unfold advance at ran
  split at ran
  · cases ran
  · rename_i now
    exact addStep_advances now ran
  · rename_i now
    exact commitStep_advances now ran
  · rename_i now
    exact abortStep_advances now ran

end Audible.Xacto
