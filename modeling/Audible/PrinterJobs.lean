import Audible.PrinterData

set_option autoImplicit false

/- The job list, the commands and the handler of SIGCHLD (`jobs.c` and `main.c`). -/
namespace Audible.Imprimer

/-- What the world decides while the program runs: the clock, and what each `fork` of the run
returns to the parent. -/
structure World where
  now : Int
  pid : Nat → Int

/-- A world in which the children are numbered from 100. -/
def quietWorld : World := { now := 0, pid := fun n => 100 + n }

-- jobs.c

def addJob (job : Job) (s : Spooler) : Spooler :=
  { s with
    job := Function.update s.job s.jobCount job
    jobCount := s.jobCount + 1
    nodes := s.nodes ++ [s.jobCount] }

def newJob (world : World) (name type : Text) (pgid : Int) (set : BitVec 32) (s : Spooler) : Spooler :=
  addJob
    { status := .queued
      pgid := pgid
      fileName := name
      fileType := type
      eligiblePrinters := set
      chosenPrinter := none
      creationTime := world.now
      changeTime := world.now } s

def getJobByPID (s : Spooler) (pid : Int) : Option Nat :=
  s.nodes.find? fun jobid => (s.job jobid).pgid = pid

def getJobByID (s : Spooler) (id : Int) : Option Nat := s.nodes.find? fun jobid => (jobid : Int) = id

def removeJob (jobid : Nat) (s : Spooler) : Spooler := { s with nodes := s.nodes.erase jobid }

def expired (world : World) (job : Job) : Bool :=
  (job.status = .completed || job.status = .aborted) && 60 ≤ world.now - job.changeTime

/-- A removed node keeps its `next`, so the loop goes on through the old list. -/
def removeJobs (world : World) (s : Spooler) : Spooler :=
  s.nodes.foldl (fun s' jobid => if expired world (s.job jobid) then removeJob jobid s' else s') s

def setStatus (jobid : Nat) (status : JobStatus) (s : Spooler) : Spooler :=
  (s.setJob jobid { s.job jobid with status := status }).emit (.status jobid status)

def setChosen (jobid id : Nat) (s : Spooler) : Spooler :=
  (s.setJob jobid { s.job jobid with chosenPrinter := some id }).emit
    (.given jobid id (s.printer id).busy)

def setChangeTime (world : World) (jobid : Nat) (s : Spooler) : Spooler :=
  s.setJob jobid { s.job jobid with changeTime := world.now }

/-- The three statements of every change of status. -/
def changeStatus (world : World) (jobid : Nat) (status : JobStatus) (s : Spooler) : Spooler :=
  jobMessage jobid (setChangeTime world jobid (setStatus jobid status s))

def pauseJob (world : World) (jobid : Nat) (s : Spooler) : Spooler :=
  if (s.job jobid).status = .running then changeStatus world jobid .paused s
  else errorMessage "This job is not running." s

def resumeJob (world : World) (jobid : Nat) (s : Spooler) : Spooler :=
  if (s.job jobid).status = .paused then changeStatus world jobid .running s
  else errorMessage "This job is not paused." s

def completeJob (world : World) (jobid : Nat) (s : Spooler) : Spooler :=
  if (s.job jobid).status = .running then changeStatus world jobid .completed s
  else errorMessage "This job is not running." s

def abortJob (world : World) (jobid : Nat) (s : Spooler) : Spooler :=
  if (s.job jobid).status = .running ∨ (s.job jobid).status = .paused then
    changeStatus world jobid .aborted s
  else errorMessage "This job is not running." s

/-- The parent's side, from blocking SIGCHLD to unblocking it. A failing `fork` ends the
program. -/
def runJobProcess (world : World) (file : Text) (jobid id : Nat) (s : Spooler) : Option Spooler :=
  let pid := world.pid s.forks
  if 0 < pid then
    some (({ s with forks := s.forks + 1 }.setJob jobid { s.job jobid with pgid := pid }).emit
      (.forked jobid file id pid))
  else none

def runJob (world : World) (file : Text) (jobid : Nat) (printername : Text) (s : Spooler) :
    Option Spooler :=
  match getPrinter s printername with
  | none => some s
  | some id =>
      if (s.printer id).busy then some s
      else
        let s := setStatus jobid .running s
        let s := setChosen jobid id s
        let s := setChangeTime world jobid s
        let s := jobMessage jobid s
        let s := busyPrinter printername s
        runJobProcess world file jobid id s

/-- `helpers.c` -/
def getFile (job : Job) : Text := job.fileName ++ '.' :: job.fileType

/-- What `runJobs` and `print` do with a job: find it a printer and run it there. -/
def startJob (world : World) (file : Text) (jobid : Nat) (s : Spooler) : Option Spooler := do
  let (s, chosenPrinter) ← getEligiblePrinter jobid s
  match chosenPrinter with
  | none => return s
  | some id => runJob world file jobid (s.printer id).name s

/-- The loop of `runJobs` over the rest of the list. -/
def runJobsFrom (world : World) : List Nat → Spooler → Option Spooler
  | [], s => some s
  | jobid :: nodes, s => do
      let s ← if (s.job jobid).status = .queued then startJob world (getFile (s.job jobid)) jobid s
        else some s
      runJobsFrom world nodes s

def runJobs (world : World) (s : Spooler) : Option Spooler := runJobsFrom world s.nodes s

-- main.c

/-- A change of a child's state as `waitpid` decodes it. -/
inductive ChildStatus
  | exited (exitStatus : Nat)
  | stopped
  | continued
  | signaled
  deriving DecidableEq

def releasePrinter (jobid : Nat) (s : Spooler) : Option Spooler :=
  ((s.job jobid).chosenPrinter).map fun id => freePrinter (s.printer id).name s

/-- The branches that end a job: its printer is freed whether or not `finish` accepts the job. -/
def endJob (world : World) (finish : World → Nat → Spooler → Spooler) (pid : Int) (s : Spooler) :
    Option Spooler := do
  let jobid ← getJobByPID s pid
  let s ← releasePrinter jobid (finish world jobid s)
  runJobs world s

/-- `reported` is what `waitpid` returns, if anything. -/
def printHandler (world : World) (reported : Option (Int × ChildStatus)) (s : Spooler) :
    Option Spooler :=
  match reported with
  | none => some s
  | some (pid, .exited 0) => endJob world completeJob pid s
  | some (pid, .exited 1) => endJob world abortJob pid s
  | some (_, .exited _) => some s
  | some (pid, .stopped) => (getJobByPID s pid).map fun jobid => pauseJob world jobid s
  | some (pid, .continued) => (getJobByPID s pid).map fun jobid => resumeJob world jobid s
  | some (pid, .signaled) => endJob world abortJob pid s

/-- The part of `print` that creates the job; its id, if there is one. -/
def newPrintJob (world : World) (file : Text) (printers : Option Text) (s : Spooler) :
    Spooler × Option Nat :=
  match strtok ['.'] file with
  | none => (errorMessage "File type is not defined." s, none)
  | some (name, rest) =>
      match strtok ['\n'] rest with
      | none => (errorMessage "File type is not defined." s, none)
      | some (type, _) =>
          if (getType s.typeArray type).isNone then
            (errorMessage "File type is not defined." s, none)
          else
            let (s, printerSet) := getPrinterSet printers s
            if printerSet = 0 then (s, none)
            else (newJob world name type 0 printerSet s, some s.jobCount)

/-- `strdup` of a missing file name crashes. -/
def print (world : World) (file printers : Option Text) (s : Spooler) : Option Spooler := do
  let file ← file
  let (s, job) := newPrintJob world file printers s
  match job with
  | none => return s
  | some jobid => startJob world file jobid (jobMessage jobid s)

/-- What `pause`, `resume` and `cancel` have in common. -/
def signalJob (wanted : JobStatus) (signal : Signal) (usage refusal : String) (jobID : Option Text)
    (s : Spooler) : Spooler :=
  match jobID with
  | none => s
  | some jobID =>
      let id := atoi jobID
      if id = 0 ∧ jobID ≠ ['0'] then errorMessage usage s
      else
        match getJobByID s id with
        | none => errorMessage "No job with that ID." s
        | some jobid =>
            if (s.job jobid).status = wanted then s.emit (.killpg (s.job jobid).pgid signal)
            else errorMessage refusal s

def pauseCommand : Option Text → Spooler → Spooler :=
  signalJob .running .tstp "Correct Use: pause jobID" "Job is not running."

def resumeCommand : Option Text → Spooler → Spooler :=
  signalJob .paused .cont "Correct Use: resume jobID" "Job is not paused."

def cancelCommand : Option Text → Spooler → Spooler :=
  signalJob .running .term "Correct Use: cancel jobID" "Job is not running."

/-- The words of a command line. -/
inductive Command
  | help
  | type (name : Option Text)
  | printer (name type : Option Text)
  | printers
  | jobs
  | pause (jobID : Option Text)
  | resume (jobID : Option Text)
  | cancel (jobID : Option Text)
  | conversion (type1 type2 program args : Option Text)
  | print (file printers : Option Text)
  | disable (name : Option Text)
  | enable (name : Option Text)
  | quit
  | unknown
  deriving DecidableEq

/-- The tokens `runCommand` takes from its input. -/
def readCommand (input : Text) : Command :=
  match strtok [' '] input with
  | none => .unknown
  | some (flag1, rest) =>
      let first := strtokNext [' '] rest
      let second := strtokNext [' '] first.2
      let third := strtokNext [' '] second.2
      if flag1 = "help".toList then .help
      else if flag1 = "type".toList then .type first.1
      else if flag1 = "printer".toList then .printer first.1 second.1
      else if flag1 = "printers".toList then .printers
      else if flag1 = "jobs".toList then .jobs
      else if flag1 = "pause".toList then .pause first.1
      else if flag1 = "resume".toList then .resume first.1
      else if flag1 = "cancel".toList then .cancel first.1
      else if flag1 = "conversion".toList then
        .conversion first.1 second.1 third.1 (strtokNext ['\n'] third.2).1
      else if flag1 = "print".toList then .print first.1 (strtokNext ['\n'] first.2).1
      else if flag1 = "disable".toList then .disable first.1
      else if flag1 = "enable".toList then .enable first.1
      else if flag1 = "quit".toList then .quit
      else .unknown

/-- `strcmp` with a missing name crashes as soon as there is a printer to compare with. -/
def withName (name : Option Text) (command : Text → Spooler → Spooler) (s : Spooler) :
    Option Spooler :=
  match name with
  | none => if s.printerCount = 0 then some (undefinedPrinter s) else none
  | some name => some (command name s)

def executeIn (memory : Memory) (world : World) (command : Command) (s : Spooler) : Option Spooler :=
  match command with
  | .help => some s
  | .type name => some (newExtensionIn memory name s)
  | .printer name type => some (newPrinterIn memory name type s)
  | .printers => some (printerStatus s)
  | .jobs => some (jobStatus s)
  | .pause jobID => some (pauseCommand jobID s)
  | .resume jobID => some (resumeCommand jobID s)
  | .cancel jobID => some (cancelCommand jobID s)
  | .conversion type1 type2 program args => some (newConversionIn memory type1 type2 program args s)
  | .print file printers => print world file printers s
  | .disable name => withName name disablePrinter s
  | .enable name => withName name enablePrinter s
  | .quit => none
  | .unknown => some s

def execute : World → Command → Spooler → Option Spooler := executeIn .enough

def runCommand (world : World) (input : Text) (s : Spooler) : Option Spooler :=
  execute world (readCommand input) s

/-- One step of the program: a line of a batch file, a line at the prompt, or a run of the
handler. -/
inductive Action
  | batch (world : World) (input : Text)
  | prompt (world : World) (input : Text)
  | sigchld (world : World) (reported : Option (Int × ChildStatus))

def step (s : Spooler) : Action → Option Spooler
  | .batch world input => runCommand world input s
  | .prompt world input => do
      let s ← runCommand world input s
      let s ← runJobs world s
      return removeJobs world s
  | .sigchld world reported => printHandler world reported s

end Audible.Imprimer
