import Audible.PrinterSteps
import Audible.Runs

set_option autoImplicit false

/- The handler of SIGCHLD between the statements of `print` and `runJobs`. The handler runs as
one step; the main program takes one statement at a time while SIGCHLD is not blocked. -/
namespace Audible.Imprimer

/-- Where a call of `runJob` returns to: the end of `print`, at the prompt or in a batch file, or
the next node of the loop of `runJobs` (the handler does not change the list). -/
inductive Caller
  | print (prompt : Bool)
  | runJobs (nodes : List Nat)

/-- The arguments `file` and `job` of `runJob`. -/
structure Call where
  caller : Caller
  file : Text
  jobid : Nat

/-- The statements of `runJob` once the printer has been found idle. -/
inductive Stage
  | status
  | chosen
  | time
  | message
  | mark
  | marked
  | process
  deriving DecidableEq

/-- The statement the main program executes next. -/
inductive Pc
  | idle
  | announce (call : Call)
  | lookup (call : Call)
  | search (call : Call) (pass remaining : Nat)
  | find (call : Call) (printername : Text)
  | check (call : Call) (printername : Text) (id : Nat)
  | start (call : Call) (printername : Text) (id : Nat) (stage : Stage)
  | test (nodes : List Nat)
  | remove

structure Machine where
  s : Spooler
  pc : Pc

def Machine.init : Machine := ⟨Spooler.init, .idle⟩

/-- After a command: `runJobs` at the prompt, the next line in a batch file. -/
def afterCommand (prompt : Bool) (s : Spooler) : Pc := if prompt then .test s.nodes else .idle

/-- The return of `runJob`, or of a search that has found no printer. -/
def finish (call : Call) (s : Spooler) : Machine :=
  match call.caller with
  | .print prompt => ⟨s, afterCommand prompt s⟩
  | .runJobs nodes => ⟨s, .test nodes⟩

/-- A line of input. Every command but `print` is one step, and so is `print` up to `newJob`:
it only reads what the handler leaves alone. -/
def readLine (world : World) (prompt : Bool) (input : Text) (s : Spooler) : Option Machine :=
  match readCommand input with
  | .print file printers => do
      let file ← file
      match newPrintJob world file printers s with
      | (s, none) => return ⟨s, afterCommand prompt s⟩
      | (s, some jobid) => return ⟨s, .announce ⟨.print prompt, file, jobid⟩⟩
  | command => (execute world command s).map fun s => ⟨s, afterCommand prompt s⟩

/-- One statement of `runJob` from `job->status = RUNNING` on. SIGCHLD is blocked from before
`fork` until the process group has been stored. -/
def startStep (world : World) (call : Call) (printername : Text) (id : Nat) (s : Spooler) :
    Stage → Option Machine
  | .status => some ⟨setStatus call.jobid .running s, .start call printername id .chosen⟩
  | .chosen => some ⟨setChosen call.jobid id s, .start call printername id .time⟩
  | .time => some ⟨setChangeTime world call.jobid s, .start call printername id .message⟩
  | .message => some ⟨jobMessage call.jobid s, .start call printername id .mark⟩
  | .mark =>
      match getPrinter s printername with
      | none => some ⟨undefinedPrinter s, .start call printername id .process⟩
      | some id => some ⟨markBusy id s, .start call printername id .marked⟩
  | .marked => some ⟨printerMessage id s, .start call printername id .process⟩
  | .process => (runJobProcess world call.file call.jobid id s).map (finish call)

def mainStep (world : World) (m : Machine) : Option Machine :=
  let s := m.s
  match m.pc with
  | .idle => none
  | .announce call => some ⟨jobMessage call.jobid s, .lookup call⟩
  | .lookup call =>
      if (getType s.typeArray (s.job call.jobid).fileType).isNone then
        some (finish call (errorMessage "File type of job is not supported." s))
      else some ⟨s, .search call 0 s.printerCount⟩
  | .search call pass 0 =>
      if pass < 2 then some ⟨s, .search call (pass + 1) s.printerCount⟩ else some (finish call s)
  | .search call pass (remaining + 1) => do
      let id := s.printerCount - (remaining + 1)
      if ← suits s call.jobid pass id then return ⟨s, .find call (s.printer id).name⟩
      else return ⟨s, .search call pass remaining⟩
  | .find call printername =>
      match getPrinter s printername with
      | none => some (finish call s)
      | some id => some ⟨s, .check call printername id⟩
  | .check call printername id =>
      if (s.printer id).busy then some (finish call s)
      else some ⟨s, .start call printername id .status⟩
  | .start call printername id stage => startStep world call printername id s stage
  | .test [] => some ⟨s, .remove⟩
  | .test (jobid :: nodes) =>
      if (s.job jobid).status = .queued then
        some ⟨s, .lookup ⟨.runJobs nodes, getFile (s.job jobid), jobid⟩⟩
      else some ⟨s, .test nodes⟩
  | .remove => some ⟨removeJobs world s, .idle⟩

inductive MachineAction
  | line (world : World) (prompt : Bool) (input : Text)
  | main (world : World)
  | sigchld (world : World) (reported : Option (Int × ChildStatus))

/-- `waitpid` reports children by positive process ids. -/
def machineStep (m : Machine) : MachineAction → Option Machine
  | .line world prompt input =>
      match m.pc with
      | .idle => readLine world prompt input m.s
      | _ => none
  | .main world => mainStep world m
  | .sigchld world reported =>
      if ∀ child ∈ reported, 0 < child.1 then
        (printHandler world reported m.s).map fun s => ⟨s, m.pc⟩
      else none

/-- The changes of status that a job may make. -/
def JobStatus.Next : JobStatus → JobStatus → Prop
  | .queued, .running => True
  | .running, .paused => True
  | .paused, .running => True
  | .running, .completed => True
  | .running, .aborted => True
  | .paused, .aborted => True
  | _, _ => False

/-- The status that an event gives to a job. -/
def Event.statusOf (jobid : Nat) : Event → Option JobStatus
  | .status changed next => if changed = jobid then some next else none
  | _ => none

/-- The statuses of a job, from the first one on. -/
def history (events : List Event) (jobid : Nat) : List JobStatus :=
  .queued :: events.filterMap (Event.statusOf jobid)

def Event.forks (jobid : Nat) : Event → Bool
  | .forked owner _ _ _ => owner = jobid
  | _ => false

def pipelines (events : List Event) (jobid : Nat) : Nat := events.countP (Event.forks jobid)

/-- The event gives a printer, or marks it, while it is busy. -/
def Event.overlaps : Event → Bool
  | .given _ _ busy => busy
  | .marked _ busy => busy
  | _ => false

/-- The job that the main program has set RUNNING and not yet forked a pipeline for. -/
def Pc.pending : Pc → Option Nat
  | .start call _ _ stage => if stage = .status then none else some call.jobid
  | _ => none

/-- Every history is a path of changes that a job may make, ends in the job's status, and has one
pipeline once it has left QUEUED (or is about to have it); no busy printer is given away. -/
structure Machine.StartedOnce (m : Machine) : Prop where
  path : ∀ jobid, (history m.s.events jobid).IsChain JobStatus.Next
  current : ∀ jobid, (history m.s.events jobid).getLast? = some (m.s.job jobid).status
  unforked : ∀ jobid, (m.s.job jobid).status = .queued ∨ m.pc.pending = some jobid →
    pipelines m.s.events jobid = 0
  forked : ∀ jobid, (m.s.job jobid).status ≠ .queued → m.pc.pending ≠ some jobid →
    pipelines m.s.events jobid = 1
  apart : ∀ event ∈ m.s.events, event.overlaps = false

/-- A report after which the handler frees a printer and runs jobs. -/
def Ends : Option (Int × ChildStatus) → Prop
  | some (_, .exited 0) => True
  | some (_, .exited 1) => True
  | some (_, .signaled) => True
  | _ => False

/-- `runJob` finds the printer idle only for a job that is still QUEUED; no child is reported to
have ended between that test and `job->status = RUNNING`; from there to `busyPrinter` one is
reported only while no QUEUED job can be printed on that printer. -/
def Machine.Allowed (m : Machine) : MachineAction → Prop
  | .line _ _ _ => True
  | .main _ =>
      match m.pc with
      | .check call _ id => (m.s.printer id).busy = false → (m.s.job call.jobid).status = .queued
      | _ => True
  | .sigchld _ reported =>
      match m.pc with
      | .start _ _ _ .status => ¬ Ends reported
      | .start _ _ _ .marked => True
      | .start _ _ _ .process => True
      | .start _ _ id _ => Ends reported →
          ∀ jobid ∈ m.s.nodes, (m.s.job jobid).status = .queued → ¬ m.s.MayUse jobid id
      | _ => True

end Audible.Imprimer
