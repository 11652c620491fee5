import Mathlib.Logic.Function.Basic

set_option autoImplicit false

/- `transaction.c`, with a thread for the client of every transaction. A step is one operation on
a semaphore or a mutex and the code up to the next one. `malloc` succeeds; `none` is a thread
that has to wait, or the end of the program. -/
namespace Audible.Xacto

inductive TransStatus
  | pending
  | committed
  | aborted
  deriving DecidableEq, Repr

/-- `TRANSACTION` without `id`, `next` and `prev`. The nodes of `depends` never change once they
are linked in, so the list stands for its first node, and a tail of it for a node. -/
structure Transaction (τ : Type) where
  refcnt : BitVec 32
  status : TransStatus
  depends : List τ
  waitcnt : Nat
  sem : Nat
  mutex : Bool

def transCreate {τ : Type} : Transaction τ where
  refcnt := 1
  status := .pending
  depends := []
  waitcnt := 0
  sem := 1
  mutex := false

/-- The operations of `trans_add_dependency`. -/
inductive AddPc
  | acquire
  | refLock
  | refUnlock
  | release

/-- The variables of the loop of `trans_commit`: `status`, `depend->trans` and `depend->next`. -/
structure Scan (τ : Type) where
  status : TransStatus
  trans : τ
  next : List τ

/-- The operations of one round of that loop. `read` is what `trans_get_status` returns. -/
inductive ScanPc
  | firstLock
  | firstUnlock (read : TransStatus)
  | secondLock
  | secondUnlock (read : TransStatus)
  | countLock
  | countUnlock
  | pollLock
  | pollUnlock (read : TransStatus)
  | waitP
  | waitV
  | resultLock
  | resultUnlock (read : TransStatus)

/-- The operations of `releaseDependents`, `trans_unref` and the last V. -/
inductive TailPc
  | wakeLock
  | wakeV
  | wakeUnlock
  | unrefLock
  | unrefUnlock
  | release
  deriving DecidableEq

inductive CommitPc (τ : Type)
  | acquire
  | scan (loop : Scan τ) (pc : ScanPc)
  | tail (pc : TailPc)

inductive AbortPc
  | firstLock
  | firstUnlock (read : TransStatus)
  | secondLock
  | secondUnlock (read : TransStatus)
  | acquire
  | tail (pc : TailPc)

/-- A call of `trans_abort` inside its loop: `tp` and `depend->next`. -/
structure Caller (τ : Type) where
  trans : τ
  next : List τ

inductive Activity (τ : Type)
  | idle
  | adding (trans : τ) (pc : AddPc)
  | committing (pc : CommitPc τ)
  | aborting (trans : τ) (pc : AbortPc) (callers : List (Caller τ))

/-- Every transaction has a client, which tries to commit it once at most. -/
structure Server (τ : Type) where
  trans : τ → Transaction τ
  activity : τ → Activity τ
  attempted : τ → Bool

variable {τ : Type}

def Server.init : Server τ where
  trans := fun _ => transCreate
  activity := fun _ => .idle
  attempted := fun _ => false

variable [DecidableEq τ]

def Server.setTrans (s : Server τ) (tp : τ) (trans : Transaction τ) : Server τ :=
  { s with trans := Function.update s.trans tp trans }

def Server.goto (s : Server τ) (client : τ) (activity : Activity τ) : Server τ :=
  { s with activity := Function.update s.activity client activity }

def P (tp : τ) (s : Server τ) : Option (Server τ) :=
  match (s.trans tp).sem with
  | 0 => none
  | sem + 1 => some (s.setTrans tp { s.trans tp with sem := sem })

def V (tp : τ) (s : Server τ) : Server τ :=
  s.setTrans tp { s.trans tp with sem := (s.trans tp).sem + 1 }

def lock (tp : τ) (s : Server τ) : Option (Server τ) :=
  if (s.trans tp).mutex then none else some (s.setTrans tp { s.trans tp with mutex := true })

def unlock (tp : τ) (s : Server τ) : Server τ :=
  s.setTrans tp { s.trans tp with mutex := false }

def setStatus (tp : τ) (status : TransStatus) (s : Server τ) : Server τ :=
  s.setTrans tp { s.trans tp with status := status }

def addReference (tp : τ) (s : Server τ) : Server τ :=
  s.setTrans tp { s.trans tp with refcnt := (s.trans tp).refcnt + 1 }

def dropReference (tp : τ) (s : Server τ) : Server τ :=
  s.setTrans tp { s.trans tp with refcnt := (s.trans tp).refcnt - 1 }

def addDependency (tp dtp : τ) (s : Server τ) : Server τ :=
  s.setTrans tp { s.trans tp with depends := dtp :: (s.trans tp).depends }

def setWaitcnt (tp : τ) (waitcnt : Nat) (s : Server τ) : Server τ :=
  s.setTrans tp { s.trans tp with waitcnt := waitcnt }

-- trans_add_dependency

def addStep (client dtp : τ) (s : Server τ) : AddPc → Option (Server τ)
  | .acquire => (P client s).map fun s => (addDependency client dtp s).goto client (.adding dtp .refLock)
  | .refLock => (lock dtp s).map fun s => (addReference dtp s).goto client (.adding dtp .refUnlock)
  | .refUnlock => some ((unlock dtp s).goto client (.adding dtp .release))
  | .release => some ((V client s).goto client .idle)

-- releaseDependents, trans_unref and the last V

/-- The test of the loop of `releaseDependents`, up to the next V or to the end. -/
def wakeNext (tp : τ) (s : Server τ) : Server τ × TailPc :=
  match (s.trans tp).waitcnt with
  | 0 => (s, .wakeUnlock)
  | waitcnt + 1 => (setWaitcnt tp waitcnt s, .wakeV)

/-- The next operation, if the function does not return. `trans_commit` wakes the waiters first,
`trans_abort` drops its reference first. -/
def tailStep (tp : τ) (afterWake afterUnref : TailPc) (s : Server τ) :
    TailPc → Option (Server τ × Option TailPc)
  | .wakeLock => (lock tp s).map fun s => ((wakeNext tp s).1, some (wakeNext tp s).2)
  | .wakeV => some ((wakeNext tp (V tp s)).1, some (wakeNext tp (V tp s)).2)
  | .wakeUnlock => some (unlock tp s, some afterWake)
  | .unrefLock => (lock tp s).map fun s => (dropReference tp s, some .unrefUnlock)
  | .unrefUnlock => some (unlock tp s, some afterUnref)
  | .release => some (V tp s, none)

-- trans_commit

/-- After the loop. -/
def finishCommit (client : τ) (status : TransStatus) (s : Server τ) : Server τ :=
  (setStatus client status s).goto client (.committing (.tail .wakeLock))

/-- The loop with `depend` at the start of a list. -/
def checkFrom (client : τ) (status : TransStatus) (depends : List τ) (s : Server τ) : Server τ :=
  match depends with
  | [] => finishCommit client status s
  | dtp :: next => s.goto client (.committing (.scan ⟨status, dtp, next⟩ .firstLock))

def Scan.goto (loop : Scan τ) (client : τ) (pc : ScanPc) (s : Server τ) : Server τ :=
  s.goto client (.committing (.scan loop pc))

/-- The first half of `trans_get_status`. -/
def Scan.read (loop : Scan τ) (client : τ) (next : TransStatus → ScanPc) (s : Server τ) :
    Option (Server τ) :=
  (lock loop.trans s).map fun s => loop.goto client (next (s.trans loop.trans).status) s

def scanStep (client : τ) (loop : Scan τ) (s : Server τ) : ScanPc → Option (Server τ)
  | .firstLock => loop.read client .firstUnlock s
  | .firstUnlock read =>
      if read = .aborted then some (finishCommit client .aborted (unlock loop.trans s))
      else some (loop.goto client .secondLock (unlock loop.trans s))
  | .secondLock => loop.read client .secondUnlock s
  | .secondUnlock read =>
      if read = .pending then some (loop.goto client .countLock (unlock loop.trans s))
      else some (checkFrom client loop.status loop.next (unlock loop.trans s))
  | .countLock =>
      (lock loop.trans s).map fun s =>
        loop.goto client .countUnlock (setWaitcnt loop.trans ((s.trans loop.trans).waitcnt + 1) s)
  | .countUnlock => some (loop.goto client .pollLock (unlock loop.trans s))
  | .pollLock => loop.read client .pollUnlock s
  | .pollUnlock read =>
      if read = .pending then some (loop.goto client .waitP (unlock loop.trans s))
      else some (loop.goto client .resultLock (unlock loop.trans s))
  | .waitP => (P loop.trans s).map (loop.goto client .waitV)
  | .waitV => some (loop.goto client .pollLock (V loop.trans s))
  | .resultLock => loop.read client .resultUnlock s
  | .resultUnlock read =>
      let status := if read = .aborted then .aborted else loop.status
      some (checkFrom client status loop.next (unlock loop.trans s))

def commitStep (client : τ) (s : Server τ) : CommitPc τ → Option (Server τ)
  | .acquire => (P client s).map fun s => checkFrom client .committed (s.trans client).depends s
  | .scan loop pc => scanStep client loop s pc
  | .tail pc =>
      (tailStep client .unrefLock .release s pc).map fun next =>
        match next with
        | (s, some pc) => s.goto client (.committing (.tail pc))
        | (s, none) => s.goto client .idle

-- trans_abort

/-- The loop of `trans_abort` with `depend` at the start of a list. -/
def abortFrom (tp : τ) (callers : List (Caller τ)) (depends : List τ) : Activity τ :=
  match depends with
  | [] => .aborting tp (.tail .unrefLock) callers
  | dtp :: next => .aborting dtp .firstLock (⟨tp, next⟩ :: callers)

def returnTo (callers : List (Caller τ)) : Activity τ :=
  match callers with
  | [] => .idle
  | caller :: callers => abortFrom caller.trans callers caller.next

/-- The fatal error ends the program. -/
def abortStep (client tp : τ) (callers : List (Caller τ)) (s : Server τ) :
    AbortPc → Option (Server τ)
  | .firstLock =>
      (lock tp s).map fun s => s.goto client (.aborting tp (.firstUnlock (s.trans tp).status) callers)
  | .firstUnlock read =>
      if read = .committed then none
      else some ((unlock tp s).goto client (.aborting tp .secondLock callers))
  | .secondLock =>
      (lock tp s).map fun s => s.goto client (.aborting tp (.secondUnlock (s.trans tp).status) callers)
  | .secondUnlock read =>
      if read = .pending then some ((unlock tp s).goto client (.aborting tp .acquire callers))
      else some ((unlock tp s).goto client (returnTo callers))
  | .acquire =>
      (P tp s).map fun s =>
        (setStatus tp .aborted s).goto client (abortFrom tp callers (s.trans tp).depends)
  | .tail pc =>
      (tailStep tp .release .wakeLock s pc).map fun next =>
        match next with
        | (s, some pc) => s.goto client (.aborting tp (.tail pc) callers)
        | (s, none) => s.goto client (returnTo callers)

/-- A client calls one of the functions for its transaction, or its thread goes on. -/
inductive Action (τ : Type)
  | add (client dtp : τ)
  | commit (client : τ)
  | abort (client : τ)
  | go (client : τ)

def Action.client {τ : Type} : Action τ → τ
  | .add client _ => client
  | .commit client => client
  | .abort client => client
  | .go client => client

def advance (client : τ) (s : Server τ) : Option (Server τ) :=
  match s.activity client with
  | .idle => none
  | .adding dtp pc => addStep client dtp s pc
  | .committing pc => commitStep client s pc
  | .aborting tp pc callers => abortStep client tp callers s pc

/-- Nothing is added to a transaction that its client has tried to commit. -/
def step (s : Server τ) : Action τ → Option (Server τ)
  | .add client dtp =>
      match s.activity client, s.attempted client with
      | .idle, false => some (s.goto client (.adding dtp .acquire))
      | _, _ => none
  | .commit client =>
      match s.activity client, s.attempted client with
      | .idle, false =>
          some ({ s with attempted := Function.update s.attempted client true }.goto client
            (.committing .acquire))
      | _, _ => none
  | .abort client =>
      match s.activity client with
      | .idle => some (s.goto client (.aborting client .firstLock []))
      | _ => none
  | .go client => advance client s

end Audible.Xacto
