import Audible.ServerProtocol
import Audible.ServerRegistry
import Audible.TransactionLocks

set_option autoImplicit false

/- The threads of the server: one runs `xacto_client_service` for every client, and a SIGHUP makes
one of them, or the main thread, run `terminate`. A step is an operation on the semaphore of the
registry and the code up to the next one, a step in a function of `transaction.c`, or a request.
While the store handles a request, it calls `trans_add_dependency` for the transaction of the
client and `trans_abort` for any transaction, as often as it likes and in any order (`store.h`);
the references that its versions hold are left out. `terminate` is followed to the end of
`creg_wait_for_empty`, up to `creg_fini` and `trans_fini`. `malloc` succeeds. -/
namespace Audible.Threads

open Xacto (TransStatus Activity Pending)
open Registry (ClientRegistry)
open Protocol (putPkt getPkt commitPkt)

/-- Where the thread of a client is in `xacto_client_service`. `leaving` and `unregistering` are
`creg_unregister`, before the P and after it, with what is then left to do. -/
inductive Phase
  | away
  | accepted
  | registering
  | receiving
  | storing
  | committing
  | hangingUp
  | leaving (abort : Bool)
  | unregistering (abort : Bool)
  | aborting
  | ended
  deriving DecidableEq

def Phase.alive : Phase → Bool
  | .away | .ended => false
  | _ => true

def Phase.created : Phase → Bool
  | .away | .accepted | .registering => false
  | _ => true

/-- Between `creg_register` and `creg_unregister`. -/
def Phase.inside : Phase → Bool
  | .receiving | .storing | .committing | .hangingUp | .leaving _ | .unregistering _ => true
  | _ => false

/-- The thread has taken the semaphore of the registry. -/
def Phase.holds : Phase → Bool
  | .registering | .unregistering _ => true
  | _ => false

/-- Where `terminate` is: in `creg_shutdown_all` or in `creg_wait_for_empty`, before a P or after
it, or past them. -/
inductive Terminating
  | shutdown
  | shuttingDown
  | waiting
  | counting
  | finished
  deriving DecidableEq

def Terminating.holds : Terminating → Bool
  | .shuttingDown | .counting => true
  | _ => false

/-- `closing` is the thread that SIGHUP has interrupted, `none` for the main thread, and where
`terminate` is. `descriptors` are those of all connections, since the server closes none. The code
does not keep `refused`, whether `creg_register` has found the table full, nor `shut`. -/
structure Service (τ : Type) where
  manager : Xacto.Server τ
  registry : ClientRegistry
  sem : Nat
  phase : τ → Phase
  fd : τ → Int
  status : τ → TransStatus
  refused : τ → Bool
  descriptors : List Int
  closing : Option (Option τ × Terminating)
  shut : List Int

variable {τ : Type}

def Service.init : Service τ where
  manager := .init
  registry := Registry.cregInit
  sem := 1
  phase := fun _ => .away
  fd := fun _ => -1
  status := fun _ => .pending
  refused := fun _ => false
  descriptors := []
  closing := none
  shut := []

variable [DecidableEq τ]

/-- A thread that SIGHUP has interrupted does not go on. -/
def Service.suspended (s : Service τ) (thread : Option τ) : Bool :=
  match s.closing with
  | none => false
  | some (interrupted, _) => interrupted = thread

def Service.goto (s : Service τ) (c : τ) (phase : Phase) : Service τ :=
  { s with phase := Function.update s.phase c phase }

/-- P on the semaphore of the registry. -/
def Service.take (s : Service τ) : Option (Service τ) :=
  match s.sem with
  | 0 => none
  | sem + 1 => some { s with sem := sem }

def Service.give (s : Service τ) : Service τ := { s with sem := s.sem + 1 }

def Service.manage (s : Service τ) (action : Xacto.Action τ) : Option (Service τ) :=
  (Xacto.step s.manager action).map fun manager => { s with manager }

/-- `trans_abort` for a transaction that need not be the client's. -/
def Service.revoke (s : Service τ) (c tp : τ) : Option (Service τ) :=
  match s.manager.activity c with
  | .idle => some { s with manager := s.manager.goto c (.aborting tp .firstLock []) }
  | _ => none

-- xacto_client_service

/-- creg_register, once the semaphore is taken, and `trans_create` -/
def register (c : τ) (s : Service τ) : Service τ :=
  { s with
      registry := Registry.cregRegister s.registry (s.fd c)
      refused := Function.update s.refused c (decide (-1 ∉ s.registry.clientList))
      status := Function.update s.status c .pending }.give.goto c .receiving

/-- creg_unregister, once the semaphore is taken -/
def unregister (c : τ) (s : Service τ) : Service τ :=
  { s with registry := Registry.cregUnregister s.registry (s.fd c) }.give

/-- After `xacto_reply`. -/
def replied (c : τ) (type : Byte) (status : TransStatus) (s : Service τ) : Service τ :=
  { s with status := Function.update s.status c status }.goto c
    (if type = commitPkt ∨ status = TransStatus.aborted then
      .leaving (decide (status = TransStatus.aborted))
    else .receiving)

def requested (c : τ) (type : Byte) (s : Service τ) : Option (Service τ) :=
  if type = putPkt ∨ type = getPkt then some (s.goto c .storing)
  else if type = commitPkt then (s.manage (.commit c)).map fun s => s.goto c .committing
  else some (replied c type (s.status c) s)

/-- The thread of a client that is in no function of `transaction.c`. -/
def proceed (c : τ) (s : Service τ) : Option (Service τ) :=
  match s.phase c with
  | .accepted => s.take.map fun s => s.goto c .registering
  | .registering => some (register c s)
  | .committing => some (replied c commitPkt (s.manager.trans c).status s)
  | .hangingUp => some (s.goto c (.leaving false))
  | .leaving abort => s.take.map fun s => s.goto c (.unregistering abort)
  | .unregistering false => some ((unregister c s).goto c .ended)
  | .unregistering true => ((unregister c s).manage (.abort c)).map fun s => s.goto c .aborting
  | .aborting => some (s.goto c .ended)
  | .away | .receiving | .storing | .ended => none

def advance (c : τ) (s : Service τ) : Option (Service τ) :=
  match s.manager.activity c with
  | .idle => proceed c s
  | _ => s.manage (.go c)

-- terminate, up to trans_fini

def Service.closeAt (s : Service τ) (interrupted : Option τ) (terminating : Terminating) :
    Service τ :=
  { s with closing := some (interrupted, terminating) }

def terminate (interrupted : Option τ) (s : Service τ) : Terminating → Option (Service τ)
  | .shutdown => s.take.map fun s => s.closeAt interrupted .shuttingDown
  | .shuttingDown =>
      some ({ s with shut := Registry.cregShutdownAll s.registry }.give.closeAt interrupted .waiting)
  | .waiting => s.take.map fun s => s.closeAt interrupted .counting
  | .counting =>
      if Registry.cregWaitForEmpty s.registry then some (s.give.closeAt interrupted .finished)
      else some (s.give.closeAt interrupted .waiting)
  | .finished => none

/-- `packet` and `hangUp` are what `proto_recv_packet` finds, `depend` and `revoke` what the store does
with the request and `stored` what it returns for it. -/
inductive Action (τ : Type)
  | accept (c : τ) (fd : Int)
  | packet (c : τ) (type : Byte)
  | hangUp (c : τ)
  | depend (c dtp : τ)
  | revoke (c tp : τ)
  | stored (c : τ) (status : TransStatus)
  | go (c : τ)
  | signal (interrupted : Option τ)
  | terminate

/-- The thread that acts, if one of the server's does, and `none` for the main thread. -/
def Action.thread {τ : Type} : Action τ → Option (Option τ)
  | .accept _ _ => some none
  | .packet c _ | .hangUp c | .depend c _ | .revoke c _ | .stored c _ | .go c => some (some c)
  | .signal _ | .terminate => none

/-- What an action does unless its thread is suspended. -/
def act (s : Service τ) : Action τ → Option (Service τ)
  | .accept c fd =>
      match s.phase c with
      | .away =>
          if 0 ≤ fd ∧ fd ∉ s.descriptors then
            some ({ s with
              fd := Function.update s.fd c fd
              descriptors := fd :: s.descriptors }.goto c .accepted)
          else none
      | _ => none
  | .packet c type =>
      match s.phase c with
      | .receiving => requested c type s
      | _ => none
  | .hangUp c =>
      match s.phase c with
      | .receiving => (s.manage (.abort c)).map fun s => s.goto c .hangingUp
      | _ => none
  | .depend c dtp =>
      match s.phase c, (s.phase dtp).created with
      | .storing, true => s.manage (.add c dtp)
      | _, _ => none
  | .revoke c tp =>
      match s.phase c, (s.phase tp).created with
      | .storing, true => s.revoke c tp
      | _, _ => none
  | .stored c status =>
      match s.phase c, s.manager.activity c with
      | .storing, .idle => some (replied c putPkt status s)
      | _, _ => none
  | .go c => advance c s
  | .signal interrupted =>
      match s.closing with
      | none =>
          if interrupted.all fun w => (s.phase w).alive then some (s.closeAt interrupted .shutdown)
          else none
      | some _ => none
  | .terminate =>
      match s.closing with
      | none => none
      | some (interrupted, terminating) => terminate interrupted s terminating

def step (s : Service τ) (action : Action τ) : Option (Service τ) :=
  if action.thread.any s.suspended then none else act s action

variable {s s' : Service τ}

/-- What the thread of a client does, by where it is. -/
inductive Turn (s : Service τ) (c : τ) : Service τ → Prop
  | stores (receiving : s.phase c = .receiving) : Turn s c (s.goto c .storing)
  | commits (manager : Xacto.Server τ) (receiving : s.phase c = .receiving)
      (ran : Xacto.step s.manager (.commit c) = some manager) :
      Turn s c ({ s with manager }.goto c .committing)
  | ignores (type : Byte) (receiving : s.phase c = .receiving) (other : type ≠ commitPkt) :
      Turn s c (replied c type (s.status c) s)
  | hangsUp (manager : Xacto.Server τ) (receiving : s.phase c = .receiving)
      (ran : Xacto.step s.manager (.abort c) = some manager) :
      Turn s c ({ s with manager }.goto c .hangingUp)
  | depends (dtp : τ) (manager : Xacto.Server τ) (storing : s.phase c = .storing)
      (ran : Xacto.step s.manager (.add c dtp) = some manager) : Turn s c { s with manager }
  | revokes (tp : τ) (storing : s.phase c = .storing) (idle : s.manager.activity c = .idle) :
      Turn s c { s with manager := s.manager.goto c (.aborting tp .firstLock []) }
  | stored (status : TransStatus) (storing : s.phase c = .storing)
      (idle : s.manager.activity c = .idle) : Turn s c (replied c putPkt status s)
  | manages (manager : Xacto.Server τ) (ran : Xacto.advance c s.manager = some manager) :
      Turn s c { s with manager }
  | enters (sem : Nat) (accepted : s.phase c = .accepted) (free : s.sem = sem + 1) :
      Turn s c ({ s with sem }.goto c .registering)
  | registers (registering : s.phase c = .registering) : Turn s c (register c s)
  | committed (committing : s.phase c = .committing) (idle : s.manager.activity c = .idle) :
      Turn s c (replied c commitPkt (s.manager.trans c).status s)
  | hungUp (hangingUp : s.phase c = .hangingUp) (idle : s.manager.activity c = .idle) :
      Turn s c (s.goto c (.leaving false))
  | leaves (abort : Bool) (sem : Nat) (leaving : s.phase c = .leaving abort) (free : s.sem = sem + 1) :
      Turn s c ({ s with sem }.goto c (.unregistering abort))
  | ends (unregistering : s.phase c = .unregistering false) :
      Turn s c ((unregister c s).goto c .ended)
  | aborts (manager : Xacto.Server τ) (unregistering : s.phase c = .unregistering true)
      (ran : Xacto.step s.manager (.abort c) = some manager) :
      Turn s c ({ unregister c s with manager }.goto c .aborting)
  | aborted (aborting : s.phase c = .aborting) (idle : s.manager.activity c = .idle) :
      Turn s c (s.goto c .ended)

/-- What a step of the server does. -/
inductive Steps (s : Service τ) : Service τ → Prop
  | client (c : τ) (s' : Service τ) (goes : s.suspended (some c) = false) (turn : Turn s c s') :
      Steps s s'
  | accept (c : τ) (fd : Int) (away : s.phase c = .away) (positive : 0 ≤ fd)
      (fresh : fd ∉ s.descriptors) :
      Steps s ({ s with
        fd := Function.update s.fd c fd
        descriptors := fd :: s.descriptors }.goto c .accepted)
  | signal (interrupted : Option τ) (first : s.closing = none) :
      Steps s (s.closeAt interrupted .shutdown)
  | takes (interrupted : Option τ) (before after : Terminating) (sem : Nat)
      (closing : s.closing = some (interrupted, before)) (free : s.sem = sem + 1)
      (next : before = .shutdown ∧ after = .shuttingDown ∨ before = .waiting ∧ after = .counting) :
      Steps s ({ s with sem }.closeAt interrupted after)
  | shuts (interrupted : Option τ) (closing : s.closing = some (interrupted, .shuttingDown)) :
      Steps s ({ s with shut := Registry.cregShutdownAll s.registry }.give.closeAt interrupted .waiting)
  | counts (interrupted : Option τ) (closing : s.closing = some (interrupted, .counting))
      (clients : Registry.cregWaitForEmpty s.registry = false) :
      Steps s (s.give.closeAt interrupted .waiting)
  | finishes (interrupted : Option τ) (closing : s.closing = some (interrupted, .counting))
      (empty : Registry.cregWaitForEmpty s.registry = true) :
      Steps s (s.give.closeAt interrupted .finished)

omit [DecidableEq τ] in
theorem take_eq_some (took : s.take = some s') : ∃ sem, s.sem = sem + 1 ∧ s' = { s with sem } := by
  unfold Service.take at took
  split at took
  · cases took
  · rename_i sem free
    cases took
    exact ⟨sem, free, rfl⟩

theorem manage_eq_some {action : Xacto.Action τ} (ran : s.manage action = some s') :
    ∃ manager, Xacto.step s.manager action = some manager ∧ s' = { s with manager } := by
  obtain ⟨manager, stepped, rfl⟩ := Option.map_eq_some_iff.mp ran
  exact ⟨manager, stepped, rfl⟩

theorem revoke_eq_some {c tp : τ} (ran : s.revoke c tp = some s') :
    s.manager.activity c = .idle ∧
      s' = { s with manager := s.manager.goto c (.aborting tp .firstLock []) } := by
  unfold Service.revoke at ran
  split at ran
  · rename_i idle
    cases ran
    exact ⟨idle, rfl⟩
  · cases ran

theorem requested_turn {c : τ} {type : Byte} (receiving : s.phase c = .receiving)
    (ran : requested c type s = some s') : Turn s c s' := by
  unfold requested at ran
  split at ran
  · cases ran
    exact .stores receiving
  · split at ran
    · obtain ⟨started, managed, rfl⟩ := Option.map_eq_some_iff.mp ran
      obtain ⟨manager, stepped, rfl⟩ := manage_eq_some managed
      exact .commits manager receiving stepped
    · rename_i other
      cases ran
      exact .ignores type receiving other

theorem proceed_turn {c : τ} (idle : s.manager.activity c = .idle) (ran : proceed c s = some s') :
    Turn s c s' := by
  unfold proceed at ran
  split at ran
  · rename_i accepted
    obtain ⟨taken, took, rfl⟩ := Option.map_eq_some_iff.mp ran
    obtain ⟨sem, free, rfl⟩ := take_eq_some took
    exact .enters sem accepted free
  · rename_i registering
    cases ran
    exact .registers registering
  · rename_i committing
    cases ran
    exact .committed committing idle
  · rename_i hangingUp
    cases ran
    exact .hungUp hangingUp idle
  · rename_i abort leaving
    obtain ⟨taken, took, rfl⟩ := Option.map_eq_some_iff.mp ran
    obtain ⟨sem, free, rfl⟩ := take_eq_some took
    exact .leaves abort sem leaving free
  · rename_i unregistering
    cases ran
    exact .ends unregistering
  · rename_i unregistering
    obtain ⟨started, managed, rfl⟩ := Option.map_eq_some_iff.mp ran
    obtain ⟨manager, stepped, rfl⟩ := manage_eq_some managed
    exact .aborts manager unregistering stepped
  · rename_i aborting
    cases ran
    exact .aborted aborting idle
  all_goals cases ran

theorem advance_turn {c : τ} (ran : advance c s = some s') : Turn s c s' := by
  unfold advance at ran
  split at ran
  · rename_i idle
    exact proceed_turn idle ran
  · obtain ⟨manager, stepped, rfl⟩ := manage_eq_some ran
    exact .manages manager stepped

theorem terminate_steps {interrupted : Option τ} {terminating : Terminating}
    (closing : s.closing = some (interrupted, terminating))
    (ran : terminate interrupted s terminating = some s') : Steps s s' := by
  cases terminating with
  | shutdown =>
      obtain ⟨taken, took, rfl⟩ := Option.map_eq_some_iff.mp ran
      obtain ⟨sem, free, rfl⟩ := take_eq_some took
      exact .takes interrupted _ _ sem closing free (.inl ⟨rfl, rfl⟩)
  | shuttingDown =>
      cases ran
      exact .shuts interrupted closing
  | waiting =>
      obtain ⟨taken, took, rfl⟩ := Option.map_eq_some_iff.mp ran
      obtain ⟨sem, free, rfl⟩ := take_eq_some took
      exact .takes interrupted _ _ sem closing free (.inr ⟨rfl, rfl⟩)
  | counting =>
      unfold terminate at ran
      dsimp only at ran
      split at ran
      · rename_i empty
        cases ran
        exact .finishes interrupted closing empty
      · rename_i clients
        cases ran
        exact .counts interrupted closing (Bool.eq_false_iff.mpr clients)
  | finished => cases ran

theorem step_steps {action : Action τ} (ran : step s action = some s') : Steps s s' := by
  unfold step at ran
  split at ran
  · cases ran
  · rename_i goes
    have runs (c : τ) (own : action.thread = some (some c)) : s.suspended (some c) = false := by
      rw [own] at goes
      exact Bool.eq_false_iff.mpr goes
    unfold act at ran
    split at ran
    · split at ran
      · rename_i away
        split at ran
        · rename_i fresh
          cases ran
          exact .accept _ _ away fresh.1 fresh.2
        · cases ran
      · cases ran
    · rename_i c type
      split at ran
      · rename_i receiving
        exact .client c _ (runs c rfl) (requested_turn receiving ran)
      · cases ran
    · rename_i c
      split at ran
      · rename_i receiving
        obtain ⟨started, managed, rfl⟩ := Option.map_eq_some_iff.mp ran
        obtain ⟨manager, stepped, rfl⟩ := manage_eq_some managed
        exact .client c _ (runs c rfl) (.hangsUp manager receiving stepped)
      · cases ran
    · rename_i c dtp
      split at ran
      · rename_i storing _
        obtain ⟨manager, stepped, rfl⟩ := manage_eq_some ran
        exact .client c _ (runs c rfl) (.depends dtp manager storing stepped)
      · cases ran
    · rename_i c tp
      split at ran
      · rename_i storing _
        obtain ⟨idle, rfl⟩ := revoke_eq_some ran
        exact .client c _ (runs c rfl) (.revokes tp storing idle)
      · cases ran
    · rename_i c status
      split at ran
      · rename_i storing idle
        cases ran
        exact .client c _ (runs c rfl) (.stored status storing idle)
      · cases ran
    · rename_i c
      exact .client c _ (runs c rfl) (advance_turn ran)
    · split at ran
      · rename_i first
        split at ran
        · cases ran
          exact .signal _ first
        · cases ran
      · cases ran
    · split at ran
      · cases ran
      · rename_i closing
        exact terminate_steps closing ran

end Audible.Threads
