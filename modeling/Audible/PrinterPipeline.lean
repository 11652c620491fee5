import Audible.Descriptors
import Audible.PrinterArgs
import Audible.PrinterJobs

set_option autoImplicit false

/- The process of a job (`runJobProcess` after its `fork`), down to its descriptors and pipes. -/
namespace Audible.Pipeline

open Descriptors Imprimer

/-- What a descriptor stands for. The pipes are numbered in the order in which they are made;
`inherited` is whatever the spooler had open. -/
inductive Stream
  | inherited
  | document
  | readEnd (pipe : Nat)
  | writeEnd (pipe : Nat)
  | printer
  deriving DecidableEq

/-- A program, by what it writes and how it ends when it has read its input to the end. -/
abbrev Filter := List UInt8 → List UInt8 × ChildStatus

/-- What the process finds: the file if it can be opened, what is left on the spooler's standard
input, whether the n-th `pipe` and the n-th `fork` succeed, what a pipe can hold, the programs that
can be executed, and whether `imp_connect_to_printer` succeeds. -/
structure Host where
  file : Option (List UInt8)
  stdin : List UInt8
  pipes : Nat → Bool
  forks : Nat → Bool
  capacity : Nat
  execute : List Text → Option Filter
  printer : Bool

/-- How the process ends. It `waits` if it never does. -/
inductive Outcome
  | exited (status : Nat)
  | signaled
  | waits
  deriving DecidableEq

/-- The process, what is left of the file and in the pipes, how many calls of `pipe` and `fork`
there have been, and what has been written to the printer and to the spooler's output. -/
structure Master where
  table : Table Stream
  document : List UInt8
  pipe : Nat → List UInt8
  pipes : Nat
  forks : Nat
  printed : List UInt8
  shown : List UInt8
  messages : List (Option Stream × String)

abbrev Running := Except (Outcome × Master)

def Master.complain (m : Master) (table : Table Stream) (message : String) : Master :=
  { m with messages := m.messages ++ [(table.file 1, message)] }

def Master.fail {α : Type} (m : Master) (message : String) : Running α :=
  .error (.exited 1, m.complain m.table message)

/-- `parent2child` or `child2parent` -/
abbrev PipeEnds := Nat × Nat

def makePipe (host : Host) (m : Master) : Running (PipeEnds × Master) :=
  if host.pipes m.pipes then
    let (ends, table) := m.table.pipe (.readEnd m.pipes) (.writeEnd m.pipes)
    .ok (ends, { m with table := table, pipes := m.pipes + 1 })
  else m.fail "Unable to create pipes."

def fork (host : Host) (m : Master) : Running Master :=
  if host.forks m.forks then .ok { m with forks := m.forks + 1 }
  else m.fail "Unable to fork master process."

/-- What a child reads, up to the end of the file. A pipe has no end while the child or the process
that waits for it can write to it. -/
def readInput (host : Host) (child : Table Stream) (m : Master) : Running (List UInt8 × Master) :=
  match child.file 0 with
  | some .document => .ok (m.document, { m with document := [] })
  | some (.readEnd p) =>
      if child.holds (.writeEnd p) || m.table.holds (.writeEnd p) then .error (.waits, m)
      else .ok (m.pipe p, { m with pipe := Function.update m.pipe p [] })
  | some .inherited => .ok (host.stdin, m)
  | _ => .ok ([], m)

/-- What a child writes. Nobody reads from a pipe before the child has ended, so what the pipe
cannot hold keeps it waiting; SIGPIPE ends it if nobody could read. -/
def writeOutput (host : Host) (child : Table Stream) (output : List UInt8) (status : ChildStatus)
    (m : Master) : Running (ChildStatus × Master) :=
  match child.file 1 with
  | some (.writeEnd p) =>
      if child.holds (.readEnd p) || m.table.holds (.readEnd p) then
        if (m.pipe p ++ output).length ≤ host.capacity then
          .ok (status, { m with pipe := Function.update m.pipe p (m.pipe p ++ output) })
        else .error (.waits, m)
      else .ok (if output = [] then status else .signaled, m)
  | some .printer => .ok (status, { m with printed := m.printed ++ output })
  | some .inherited => .ok (status, { m with shown := m.shown ++ output })
  | _ => .ok (status, m)

/-- `execv` in a child, and `waitpid` for it. -/
def runChild (host : Host) (argv : List Text) (child : Table Stream) (refusal : String)
    (m : Master) : Running (ChildStatus × Master) :=
  match host.execute argv with
  | none => .ok (.exited 1, m.complain child refusal)
  | some filter => do
      let (input, m) ← readInput host child m
      writeOutput host child (filter input).1 (filter input).2 m

/-- The descriptors of a conversion. `fd` is the file. -/
def conversionChild (head : Bool) (fd parent2child : Nat) (child2parent : PipeEnds)
    (table : Table Stream) : Table Stream :=
  let table := if head then table.dup2 fd parent2child else table
  let table := table.close fd
  let table := table.dup2 parent2child 0
  let table := table.dup2 child2parent.2 1
  ((table.close parent2child).close child2parent.1).close child2parent.2

/-- The output of the last conversion becomes the input of the next. -/
def nextPipe (host : Host) (parent2child : Nat) (child2parent : PipeEnds) (m : Master) :
    Running (PipeEnds × Master) :=
  let table := m.table.close child2parent.2
  let table := table.dup2 child2parent.1 parent2child
  makePipe host { m with table := table.close child2parent.1 }

/-- The loop over the conversion path. -/
def convertFrom (host : Host) (fd parent2child : Nat) :
    Bool → List Conversion → PipeEnds → Master → Running (PipeEnds × Master)
  | _, [], child2parent, m => .ok (child2parent, m)
  | head, conversion :: path, child2parent, m => do
      let m ← fork host m
      let (status, m) ← runChild host (argumentsOf conversion)
        (conversionChild head fd parent2child child2parent m.table)
        "Unable to run conversion program." m
      if status = .exited 1 then m.fail "A conversion process have terminated abnormally."
      else if path = [] then
        return (child2parent, { m with table := m.table.dup2 child2parent.1 0 })
      else do
        let (child2parent, m) ← nextPipe host parent2child child2parent m
        convertFrom host fd parent2child false path child2parent m

def getPrinterArgs : List Text := ["/bin/cat".toList]

/-- The descriptors of the process that prints. `dup2` does nothing with the -1 of a printer that
is not there. -/
def printerChild (host : Host) (table : Table Stream) : Table Stream :=
  if host.printer then
    let (printerfd, table) := table.openFile .printer
    table.dup2 printerfd 1
  else table

def afterPrinter (fd : Nat) (status : ChildStatus) (m : Master) : Running Master :=
  if status = .exited 1 then m.fail "Printer has terminated abnormally."
  else return { m with table := m.table.close fd }

def printDocument (host : Host) (fd : Nat) (m : Master) : Running Master := do
  let m ← fork host m
  let (status, m) ← runChild host getPrinterArgs (printerChild host m.table)
    "Unable to connect to printer." m
  afterPrinter fd status m

/-- After the pipes have been made. A NULL pointer has been followed where there is no path at
all. -/
def convertDocument (host : Host) (path : Option (List Conversion)) (fd : Nat)
    (parent2child child2parent : PipeEnds) (m : Master) : Running Master :=
  match path with
  | none => .error (.signaled, m)
  | some path => do
      let table := m.table.close parent2child.2
      let table := if path = [] then table.dup2 fd 0 else table
      let (child2parent, m) ← convertFrom host fd parent2child.1 true path child2parent
        { m with table := table }
      let table := ((m.table.close parent2child.1).close child2parent.1).close child2parent.2
      return { m with table := table }

def openDocument (host : Host) (m : Master) : Running (Nat × Master) :=
  match host.file with
  | none => m.fail "Unable to open file."
  | some file =>
      let (fd, table) := m.table.openFile .document
      .ok (fd, { m with table := table, document := file })

def startMaster (table : Table Stream) : Master where
  table := table
  document := []
  pipe := fun _ => []
  pipes := 0
  forks := 0
  printed := []
  shown := []
  messages := []

/-- Up to the `fork` for the printer. -/
def prepareDocument (host : Host) (path : Option (List Conversion)) (table : Table Stream) :
    Running (Nat × Master) := do
  let (fd, m) ← openDocument host (startMaster table)
  let (parent2child, m) ← makePipe host m
  let (child2parent, m) ← makePipe host m
  let m ← convertDocument host path fd parent2child child2parent m
  return (fd, m)

def ended : Running Master → Outcome × Master
  | .error ended => ended
  | .ok m => (.exited 0, m)

/-- The process that `runJobProcess` starts with the descriptors of the spooler. -/
def jobProcess (host : Host) (path : Option (List Conversion)) (table : Table Stream) :
    Outcome × Master :=
  ended do
    let (fd, m) ← prepareDocument host path table
    printDocument host fd m

end Audible.Pipeline
