import Audible.Runs
import Audible.TransactionData

set_option autoImplicit false

/- The functions of `transaction.c`, called one after another. The mutex of a transaction is only
held inside one of them, so it is left out; a semaphore may have to be waited for. -/
namespace Audible.Xacto

/-- Why a call does not return: it waits for a semaphore or for another transaction, the fatal
error has ended the program, or the recursion is deeper than its bound. -/
inductive Stop
  | waits
  | fatal
  | deep
  deriving DecidableEq

variable {τ : Type} [DecidableEq τ]

def waitFor (tp : τ) (s : Server τ) : Except Stop (Server τ) :=
  match P tp s with
  | none => .error .waits
  | some s => .ok s

def transRef (tp : τ) (s : Server τ) : Server τ := addReference tp s

def transUnref (tp : τ) (s : Server τ) : Server τ := dropReference tp s

/-- The loop of `releaseDependents`. -/
def wake (tp : τ) : Nat → Server τ → Server τ
  | 0, s => s
  | waitcnt + 1, s => wake tp waitcnt (V tp (setWaitcnt tp waitcnt s))

def releaseDependents (tp : τ) (s : Server τ) : Server τ := wake tp (s.trans tp).waitcnt s

def transAddDependency (tp dtp : τ) (s : Server τ) : Except Stop (Server τ) := do
  let s ← waitFor tp s
  return V tp (transRef dtp (addDependency tp dtp s))

/-- The loop of `trans_commit`, which waits for pending dependencies. -/
def checkDepends (s : Server τ) : List τ → Except Stop TransStatus
  | [] => .ok .committed
  | dtp :: next =>
      match (s.trans dtp).status with
      | .aborted => .ok .aborted
      | .pending => .error .waits
      | .committed => checkDepends s next

def transCommit (tp : τ) (s : Server τ) : Except Stop (Server τ) := do
  let s ← waitFor tp s
  let status ← checkDepends s (s.trans tp).depends
  return V tp (transUnref tp (releaseDependents tp (setStatus tp status s)))

/-- The first argument bounds the recursion. -/
def transAbort : Nat → τ → Server τ → Except Stop (Server τ)
  | 0, _, _ => .error .deep
  | bound + 1, tp, s =>
      match (s.trans tp).status with
      | .committed => .error .fatal
      | .aborted => .ok s
      | .pending => do
          let s ← waitFor tp s
          let s := setStatus tp .aborted s
          let s ← (s.trans tp).depends.foldlM (fun s dtp => transAbort bound dtp s) s
          return V tp (releaseDependents tp (transUnref tp s))

/-- `trans_list`, and the references that there are: those that callers hold (the one that
`trans_create` returns and those that `trans_ref` adds), and one for each live version. -/
structure Manager (τ : Type) where
  server : Server τ
  created : List τ
  held : τ → Nat
  versions : τ → Nat

def Manager.start : Manager τ where
  server := .init
  created := []
  held := fun _ => 0
  versions := fun _ => 0

inductive Call (τ : Type)
  | create (tp : τ)
  | ref (tp : τ)
  | unref (tp : τ)
  | add (tp dtp : τ)
  | versionCreate (tp : τ)
  | versionDispose (tp : τ)
  | commit (tp : τ)
  | abort (tp : τ)

def Manager.hold (m : Manager τ) (tp : τ) (references : Nat) : Manager τ :=
  { m with held := Function.update m.held tp references }

def Manager.setVersions (m : Manager τ) (tp : τ) (versions : Nat) : Manager τ :=
  { m with versions := Function.update m.versions tp versions }

/-- `trans_abort`, with a bound that is never met. -/
def Manager.abort (m : Manager τ) (tp : τ) : Except Stop (Server τ) :=
  transAbort (m.created.length + 1) tp m.server

/-- The arguments of a call are transactions that have been created. -/
def Manager.valid (m : Manager τ) : Call τ → Bool
  | .create tp => tp ∉ m.created
  | .add tp dtp => tp ∈ m.created ∧ dtp ∈ m.created
  | .ref tp | .unref tp | .versionCreate tp | .versionDispose tp | .commit tp | .abort tp =>
      tp ∈ m.created

/-- What a call leaves, if it returns. `version_create` and `version_dispose` take and drop a
reference, `trans_commit` and `trans_abort` are given one. -/
def Manager.returned (m : Manager τ) : Call τ → Except Stop (Manager τ)
  | .create tp =>
      .ok { server := m.server.setTrans tp transCreate
            created := m.created ++ [tp]
            held := Function.update m.held tp 1
            versions := Function.update m.versions tp 0 }
  | .ref tp => .ok ({ m with server := transRef tp m.server }.hold tp (m.held tp + 1))
  | .unref tp => .ok ({ m with server := transUnref tp m.server }.hold tp (m.held tp - 1))
  | .add tp dtp => (transAddDependency tp dtp m.server).map fun server => { m with server }
  | .versionCreate tp =>
      .ok ({ m with server := transRef tp m.server }.setVersions tp (m.versions tp + 1))
  | .versionDispose tp =>
      .ok ({ m with server := transUnref tp m.server }.setVersions tp (m.versions tp - 1))
  | .commit tp =>
      (transCommit tp m.server).map fun server => { m with server }.hold tp (m.held tp - 1)
  | .abort tp => (m.abort tp).map fun server => { m with server }.hold tp (m.held tp - 1)

def Manager.call (m : Manager τ) (c : Call τ) : Option (Manager τ) :=
  if m.valid c then (m.returned c).toOption else none

end Audible.Xacto
