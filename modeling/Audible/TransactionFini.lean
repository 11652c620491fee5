import Audible.TransactionAbort
import Audible.TransactionLocks

set_option autoImplicit false

/- The end of the server: `trans_fini`, and what `terminate` does after the threads of the clients
have ended. -/
namespace Audible.Xacto

variable {τ : Type} {s s' s'' : Server τ} {tp : τ} {tps dtps : List τ}

/-- What aborting transactions one after another does. Their semaphores are only given back. -/
structure Shuts (s s' : Server τ) : Prop where
  statuses : ∀ x, (s'.trans x).status = (s.trans x).status ∨
    (s.trans x).status = .pending ∧ (s'.trans x).status = .aborted
  depends : ∀ x, (s'.trans x).depends = (s.trans x).depends
  sems : ∀ x, (s'.trans x).status = .pending → (s'.trans x).sem = (s.trans x).sem

theorem Shuts.refl (s : Server τ) : Shuts s s :=
  ⟨fun _ => .inl rfl, fun _ => rfl, fun _ _ => rfl⟩

theorem Shuts.keeps (shuts : Shuts s s') {x : τ} (finished : (s.trans x).status ≠ .pending) :
    (s'.trans x).status = (s.trans x).status := by
  rcases shuts.statuses x with same | ⟨pending, -⟩
  · exact same
  · exact absurd pending finished

theorem Shuts.pending (shuts : Shuts s s') {x : τ} (pending : (s'.trans x).status = .pending) :
    (s.trans x).status = .pending := by
  by_contra finished
  rw [shuts.keeps finished] at pending
  exact finished pending

theorem Shuts.aborted (shuts : Shuts s s') {x : τ} (aborted : (s.trans x).status = .aborted) :
    (s'.trans x).status = .aborted := by
  rw [shuts.keeps (by simp [aborted]), aborted]

theorem Shuts.trans (first : Shuts s s') (second : Shuts s' s'') : Shuts s s'' := by
  constructor
  · intro x
    rcases first.statuses x with same | ⟨pending, aborted⟩
    · rw [← same]
      exact second.statuses x
    · exact .inr ⟨pending, second.aborted aborted⟩
  · intro x
    rw [second.depends, first.depends]
  · intro x pending
    rw [second.sems x pending, first.sems x (second.pending pending)]

/-- No thread holds the semaphore of a pending transaction of the list, and what they depend on is
in the list. -/
structure Quiescent (tps : List τ) (s : Server τ) : Prop where
  closed : Closed tps s
  free : ∀ x ∈ tps, (s.trans x).status = .pending → 0 < (s.trans x).sem

theorem Manager.Sound.quiescent {m : Manager τ} (sound : m.Sound) : Quiescent m.created m.server where
  closed := sound.closed
  free := fun x _ _ => by rw [sound.free]; exact Nat.one_pos

theorem Shuts.quiescent (shuts : Shuts s s') (quiescent : Quiescent tps s) : Quiescent tps s' := by
  constructor
  · intro x member dtp
    rw [shuts.depends]
    exact quiescent.closed x member dtp
  · intro x member pending
    rw [shuts.sems x pending]
    exact quiescent.free x member (shuts.pending pending)

theorem Shuts.pendingCount_le (shuts : Shuts s s') (tps : List τ) :
    pendingCount tps s' ≤ pendingCount tps s := by
  apply List.countP_mono_left
  intro x _ pending
  simp only [decide_eq_true_eq] at pending ⊢
  exact shuts.pending pending

/-- What aborting the transactions of a list comes to: they are aborted, or the program ends with
the fatal error, for which some transaction has been committed. -/
def Ends (tps dtps : List τ) (s : Server τ) : Except Stop (Server τ) → Prop
  | .ok s' => Shuts s s' ∧ ∀ dtp ∈ dtps, (s'.trans dtp).status = .aborted
  | .error stop => stop = .fatal ∧ ∃ x ∈ tps, (s.trans x).status = .committed

theorem Shuts.committed (shuts : Shuts s s')
    (committed : ∃ x ∈ tps, (s'.trans x).status = .committed) :
    ∃ x ∈ tps, (s.trans x).status = .committed := by
  obtain ⟨x, member, committed⟩ := committed
  refine ⟨x, member, ?_⟩
  rcases shuts.statuses x with same | ⟨-, aborted⟩
  · rw [← same, committed]
  · rw [aborted] at committed
    cases committed

/-- The loop over transactions, from what one call comes to. -/
theorem abortAll_ends {bound : Nat} {abort : τ → Server τ → Except Stop (Server τ)}
    (each : ∀ tp ∈ tps, ∀ s, Quiescent tps s → pendingCount tps s < bound →
      Ends tps [tp] s (abort tp s))
    (members : ∀ dtp ∈ dtps, dtp ∈ tps) (quiescent : Quiescent tps s)
    (enough : pendingCount tps s < bound) :
    Ends tps dtps s (dtps.foldlM (fun s tp => abort tp s) s) := by
  apply Runs.foldlM_comes
    (fun left s' => (∀ dtp ∈ left, dtp ∈ tps) ∧ Shuts s s' ∧
      ∀ x ∈ dtps, x ∈ left ∨ (s'.trans x).status = .aborted)
    (Ends tps dtps s)
  · rintro dtp left s' ⟨members, shuts, done⟩
    have fewer := shuts.pendingCount_le tps
    have turn := each dtp (members dtp List.mem_cons_self) s' (shuts.quiescent quiescent) (by omega)
    cases aborted : abort dtp s' with
    | error stop =>
        rw [aborted] at turn
        exact .inr ⟨stop, rfl, turn.1, shuts.committed turn.2⟩
    | ok s'' =>
        rw [aborted] at turn
        refine .inl ⟨s'', rfl, fun x member => members x (List.mem_cons_of_mem _ member),
          shuts.trans turn.1, fun x member => ?_⟩
        rcases done x member with ahead | before
        · rcases List.mem_cons.mp ahead with rfl | later
          · exact .inr (turn.2 x (List.mem_singleton_self x))
          · exact .inl later
        · exact .inr (turn.1.aborted before)
  · rintro s' ⟨-, shuts, done⟩
    exact ⟨shuts, fun x member => (done x member).resolve_left List.not_mem_nil⟩
  · exact ⟨members, .refl s, fun x member => .inl member⟩

variable [DecidableEq τ]

theorem wake_trans (waitcnt : Nat) (s : Server τ) (x : τ) :
    ((wake tp waitcnt s).trans x).status = (s.trans x).status ∧
      ((wake tp waitcnt s).trans x).depends = (s.trans x).depends ∧
      (x ≠ tp → ((wake tp waitcnt s).trans x).sem = (s.trans x).sem) := by
  induction waitcnt generalizing s with
  | zero => exact ⟨rfl, rfl, fun _ => rfl⟩
  | succ waitcnt ih =>
      obtain ⟨status, depends, sem⟩ := ih (V tp (setWaitcnt tp waitcnt s))
      rw [wake, status, depends]
      by_cases same : x = tp
      · rw [same]
        simp [V, setWaitcnt]
      · refine ⟨?_, ?_, fun different => ?_⟩
        · simp [V, setWaitcnt, setTrans_of_ne _ _ same]
        · simp [V, setWaitcnt, setTrans_of_ne _ _ same]
        · rw [sem different]
          simp [V, setWaitcnt, setTrans_of_ne _ _ same]

theorem enterAbort_shuts (pending : (s.trans tp).status = .pending) : Shuts s (enterAbort tp s) := by
  constructor
  · intro x
    rw [enterAbort_trans]
    split
    · rename_i same
      exact .inr ⟨by rw [same, pending], rfl⟩
    · exact .inl rfl
  · intro x
    rw [enterAbort_trans]
    split
    · rename_i same
      rw [same]
    · rfl
  · intro x pending
    rw [enterAbort_trans] at pending ⊢
    split at pending
    · cases pending
    · rename_i different
      rw [if_neg different]

/-- The end of the call, however many threads are waiting. -/
theorem leaveAbort_shuts (finished : (s.trans tp).status ≠ .pending) :
    Shuts s (leaveAbort tp s) := by
  have woken := @wake_trans τ tp _ ((transUnref tp s).trans tp).waitcnt (transUnref tp s)
  have given : ∀ x, ((leaveAbort tp s).trans x).status = (s.trans x).status ∧
      ((leaveAbort tp s).trans x).depends = (s.trans x).depends ∧
      (x ≠ tp → ((leaveAbort tp s).trans x).sem = (s.trans x).sem) := by
    intro x
    obtain ⟨status, depends, sem⟩ := woken x
    unfold leaveAbort releaseDependents V
    by_cases same : x = tp
    · subst same
      rw [setTrans_self]
      refine ⟨status.trans ?_, depends.trans ?_, fun different => absurd rfl different⟩
      · simp [transUnref, dropReference]
      · simp [transUnref, dropReference]
    · have kept : (transUnref tp s).trans x = s.trans x := setTrans_of_ne _ _ same
      rw [setTrans_of_ne _ _ same, status, depends, sem same, kept]
      exact ⟨rfl, rfl, fun _ => rfl⟩
  constructor
  · exact fun x => .inl (given x).1
  · exact fun x => (given x).2.1
  · intro x pending
    apply (given x).2.2
    rintro rfl
    rw [(given x).1] at pending
    exact finished pending

/-- A call of `trans_abort` on a transaction of the list. Every call inside another has one
transaction less to abort. -/
theorem transAbort_ends (bound : Nat) (member : tp ∈ tps) (quiescent : Quiescent tps s)
    (enough : pendingCount tps s < bound) : Ends tps [tp] s (transAbort bound tp s) := by
  induction bound generalizing s tp with
  | zero => omega
  | succ bound ih =>
      cases status : (s.trans tp).status with
      | committed =>
          rw [transAbort, status]
          exact ⟨rfl, tp, member, status⟩
      | aborted =>
          rw [transAbort, status]
          exact ⟨.refl s, by simpa using status⟩
      | pending =>
          have entered := enterAbort_shuts status
          have fewer := enterAbort_pendingCount member status
          have loop : Ends tps (s.trans tp).depends (enterAbort tp s)
              ((s.trans tp).depends.foldlM (fun s dtp => transAbort bound dtp s)
                (enterAbort tp s)) :=
            abortAll_ends (fun tp member s quiescent enough => ih member quiescent enough)
              (quiescent.closed tp member) (entered.quiescent quiescent) (by omega)
          rw [transAbort_pending bound status (quiescent.free tp member status)]
          cases ended : (s.trans tp).depends.foldlM (fun s dtp => transAbort bound dtp s)
              (enterAbort tp s) with
          | error stop =>
              rw [ended] at loop
              exact ⟨loop.1, entered.committed loop.2⟩
          | ok s' =>
              rw [ended] at loop
              have aborted : (s'.trans tp).status = .aborted := by
                have now : ((enterAbort tp s).trans tp).status = .aborted := by
                  rw [enterAbort_trans, if_pos rfl]
                exact loop.1.aborted now
              have left : Shuts s' (leaveAbort tp s') := leaveAbort_shuts (by simp [aborted])
              refine ⟨(entered.trans loop.1).trans left, fun x member => ?_⟩
              rw [List.mem_singleton.mp member]
              exact left.aborted aborted

/-- The walk along `trans_list`, whose links no call changes. The recursion of `trans_abort` has a
bound that is never met. -/
def transFini (transList : List τ) (s : Server τ) : Except Stop (Server τ) :=
  transList.foldlM (fun s tp => transAbort (transList.length + 1) tp s) s

inductive ExitStatus
  | success
  | failure
  deriving DecidableEq

/-- `terminate` from `trans_fini` on. What `store_fini` leaves is a parameter. -/
def terminate (storeFini : Server τ → Option (Server τ)) (transList : List τ) (s : Server τ) :
    Option ExitStatus :=
  match transFini transList s with
  | .error .fatal => some .failure
  | .error _ => none
  | .ok s => (storeFini s).map fun _ => .success

/-- All transactions are visited: the pending ones are aborted and the others are left as they are,
and the program ends with EXIT_SUCCESS. -/
def ShutsDown (storeFini : Server τ → Option (Server τ)) (transList : List τ) (s : Server τ) :
    Prop :=
  ∃ s', transFini transList s = .ok s' ∧
    (∀ tp ∈ transList, (s.trans tp).status = .pending → (s'.trans tp).status = .aborted) ∧
    (∀ tp ∈ transList, (s.trans tp).status ≠ .pending →
      (s'.trans tp).status = (s.trans tp).status) ∧
    terminate storeFini transList s = some .success

theorem transFini_ends (quiescent : Quiescent tps s) : Ends tps tps s (transFini tps s) := by
  have bounded : pendingCount tps s < tps.length + 1 := Nat.lt_succ_of_le List.countP_le_length
  exact abortAll_ends (fun tp member s quiescent enough => transAbort_ends _ member quiescent enough)
    (fun _ => id) quiescent bounded

/-- With a committed transaction in the list, the program ends with the fatal error. -/
theorem transFini_fatal_iff (quiescent : Quiescent tps s) :
    transFini tps s = .error .fatal ↔ ∃ tp ∈ tps, (s.trans tp).status = .committed := by
  have ends := transFini_ends quiescent
  constructor
  · intro fatal
    rw [fatal] at ends
    exact ends.2
  · rintro ⟨tp, member, committed⟩
    cases ended : transFini tps s with
    | error stop =>
        rw [ended] at ends
        rw [ends.1]
    | ok s' =>
        rw [ended] at ends
        have finished : (s.trans tp).status ≠ .pending := by simp [committed]
        have kept := ends.1.keeps finished
        rw [ends.2 tp member, committed] at kept
        cases kept

theorem shutsDown_iff {storeFini : Server τ → Option (Server τ)}
    (returns : ∀ s, (storeFini s).isSome = true) (quiescent : Quiescent tps s) :
    ShutsDown storeFini tps s ↔ ∀ tp ∈ tps, (s.trans tp).status ≠ .committed := by
  constructor
  · rintro ⟨s', ended, -⟩ tp member committed
    have fatal := (transFini_fatal_iff quiescent).mpr ⟨tp, member, committed⟩
    rw [ended] at fatal
    cases fatal
  · intro uncommitted
    have ends := transFini_ends quiescent
    cases ended : transFini tps s with
    | error stop =>
        rw [ended] at ends
        obtain ⟨tp, member, committed⟩ := ends.2
        exact absurd committed (uncommitted tp member)
    | ok s' =>
        rw [ended] at ends
        obtain ⟨shuts, aborted⟩ := ends
        obtain ⟨left, finished⟩ := Option.isSome_iff_exists.mp (returns s')
        refine ⟨s', ended, fun tp member _ => aborted tp member,
          fun tp _ finished => shuts.keeps finished, ?_⟩
        simp only [terminate, ended, finished, Option.map_some]

/-- When the threads of the clients have ended, none holds a semaphore. -/
theorem quiescent_of_idle (reached : Runs.Reachable step Runs.Any Server.init s)
    (ended : ∀ client, s.activity client = .idle) (closed : Closed tps s) : Quiescent tps s where
  closed := closed
  free := by
    intro x member pending
    have sound := sound_of_reachable reached
    by_contra taken
    obtain ⟨client, -, holds⟩ := (sound.exclusive.agrees.flagged x).mp ⟨pending, by omega⟩
    rw [ended client] at holds
    exact holds

/-- After any run of the threads, the server ends as it should exactly if no transaction has been
committed. Dependencies are transactions, so they are in `trans_list`. -/
theorem transFini_iff {storeFini : Server τ → Option (Server τ)} {transList : List τ}
    (reached : Runs.Reachable step Runs.Any Server.init s)
    (ended : ∀ client, s.activity client = .idle) (closed : Closed transList s)
    (returns : ∀ s, (storeFini s).isSome = true) :
    ShutsDown storeFini transList s ↔ ∀ tp ∈ transList, (s.trans tp).status ≠ .committed :=
  shutsDown_iff returns (quiescent_of_idle reached ended closed)

/-- The same after calls that do not overlap. -/
theorem Manager.shutsDown_iff_calls {m : Manager τ} {storeFini : Server τ → Option (Server τ)}
    (reached : Runs.Reachable Manager.call Runs.Any .start m)
    (returns : ∀ s, (storeFini s).isSome = true) :
    ShutsDown storeFini m.created m.server ↔
      ∀ tp ∈ m.created, (m.server.trans tp).status ≠ .committed :=
  shutsDown_iff returns (Manager.sound_of_reachable reached).quiescent

def Activity.isIdle {τ : Type} : Activity τ → Bool
  | .idle => true
  | _ => false

theorem Activity.idle_of_isIdle {τ : Type} {activity : Activity τ} (idle : activity.isIdle = true) :
    activity = .idle := by
  cases activity with
  | idle => rfl
  | _ => cases idle

/-- One transaction depends on the other, and both are pending. -/
theorem transFini_pair : ∃ s : Server Bool, (s.trans true).depends = [false] ∧
    (ShutsDown some [false, true] s ↔ ∀ tp ∈ [false, true], (s.trans tp).status ≠ .committed) := by
  obtain ⟨s, -, reached, passed⟩ := @Runs.exists_reachable _ _ step Runs.Any Server.init
    (.add true false :: List.replicate 4 (.go true)) (fun _ _ => true) (fun _ _ _ => trivial)
    (by decide)
    (fun s => (s.activity false).isIdle && (s.activity true).isIdle && (s.trans true).depends = [false])
    (by decide)
  simp only [Bool.and_eq_true, decide_eq_true_eq] at passed
  obtain ⟨⟨first, second⟩, depends⟩ := passed
  refine ⟨s, depends, transFini_iff reached ?_ ?_ fun _ => rfl⟩
  · intro client
    cases client with
    | false => exact Activity.idle_of_isIdle first
    | true => exact Activity.idle_of_isIdle second
  · intro tp _ dtp _
    cases dtp <;> decide

/-- The only transaction has been committed. -/
theorem transFini_fatal : ¬ ∀ (s : Server Unit) (transList : List Unit),
    Runs.Reachable step Runs.Any Server.init s → (∀ client, s.activity client = .idle) →
    Closed transList s → ShutsDown some transList s := by
  intro always
  obtain ⟨s, -, reached, passed⟩ := @Runs.exists_reachable _ _ step Runs.Any Server.init
    (.commit () :: List.replicate 6 (.go ())) (fun _ _ => true) (fun _ _ _ => trivial)
    (by decide) (fun s => (s.activity ()).isIdle && (s.trans ()).status = .committed) (by decide)
  simp only [Bool.and_eq_true, decide_eq_true_eq] at passed
  have ended : ∀ client, s.activity client = .idle := fun _ => Activity.idle_of_isIdle passed.1
  have closed : Closed [()] s := fun _ _ _ _ => List.mem_singleton_self _
  exact (shutsDown_iff (fun _ => rfl) (quiescent_of_idle reached ended closed)).mp
    (always s [()] reached ended closed) () (List.mem_singleton_self _) passed.2

end Audible.Xacto
