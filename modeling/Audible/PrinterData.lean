import Audible.CInt

set_option autoImplicit false

/- Types, conversions, printers and jobs of the spooler (`types.c`, `conversions.c`,
`printers.c`, `messages.c` and the job records of `jobs.c`). Nothing is ever freed, so a
pointer to a printer or to a job is its index in order of creation, which is also its id.
`malloc` and `strdup` succeed. `none` is a crash or the end of the program. -/
namespace Audible.Imprimer

/-- A C string without its terminator. -/
abbrev Text := List Char

inductive JobStatus
  | queued
  | running
  | paused
  | completed
  | aborted
  deriving DecidableEq, Repr

structure Conversion where
  type : Text
  program : Text
  args : Option Text
  deriving DecidableEq

/-- `TYPE` -/
structure FileType where
  type : Text
  conversions : List Conversion
  deriving DecidableEq

structure Printer where
  name : Text
  type : Text
  enabled : Bool
  busy : Bool
  deriving DecidableEq, Inhabited

/-- Times are seconds of `gettimeofday`. -/
structure Job where
  status : JobStatus
  pgid : Int
  fileName : Text
  fileType : Text
  eligiblePrinters : BitVec 32
  chosenPrinter : Option Nat
  creationTime : Int
  changeTime : Int
  deriving DecidableEq

instance : Inhabited Job := ⟨⟨.queued, 0, [], [], 0, none, 0, 0⟩⟩

inductive Message
  | error (message : String)
  | printer (id : Nat) (printer : Printer)
  | job (jobid : Nat) (job : Job)
  deriving DecidableEq

inductive Signal
  | tstp
  | cont
  | term
  deriving DecidableEq

/-- What the program does, in order: its output, the signals it sends, the pipelines it forks,
and the changes of a job's status and of a printer's assignment, with the flag `busy` at the
time of the change. -/
inductive Event
  | message (message : Message)
  | killpg (pgid : Int) (signal : Signal)
  | forked (jobid : Nat) (file : Text) (printer : Nat) (pid : Int)
  | status (jobid : Nat) (status : JobStatus)
  | given (jobid : Nat) (printer : Nat) (busy : Bool)
  | marked (printer : Nat) (busy : Bool)
  deriving DecidableEq

/-- The globals. `nodes` is the list at `job_head`; removed jobs stay in memory. -/
structure Spooler where
  typeArray : List FileType
  printer : Nat → Printer
  printerCount : Nat
  job : Nat → Job
  jobCount : Nat
  nodes : List Nat
  forks : Nat
  events : List Event

def Spooler.init : Spooler where
  typeArray := []
  printer := fun _ => default
  printerCount := 0
  job := fun _ => default
  jobCount := 0
  nodes := []
  forks := 0
  events := []

def maxPrinters : Nat := 32

def maxTypes : Nat := 31

def maxConversions : Nat := 63

def Spooler.emit (s : Spooler) (event : Event) : Spooler :=
  { s with events := s.events ++ [event] }

def Spooler.setPrinter (s : Spooler) (id : Nat) (printer : Printer) : Spooler :=
  { s with printer := Function.update s.printer id printer }

def Spooler.setJob (s : Spooler) (jobid : Nat) (job : Job) : Spooler :=
  { s with job := Function.update s.job jobid job }

/-- The first call of `strtok`, and what later calls with NULL go on with. -/
def strtok (delimiters : List Char) (text : Text) : Option (Text × Text) :=
  let text := text.dropWhile (· ∈ delimiters)
  if text = [] then none
  else some (text.takeWhile (· ∉ delimiters), (text.dropWhile (· ∉ delimiters)).drop 1)

/-- A call of `strtok` with NULL: the token and what is left. -/
def strtokNext (delimiters : List Char) (rest : Text) : Option Text × Text :=
  match strtok delimiters rest with
  | none => (none, [])
  | some (token, rest) => (some token, rest)

/-- The loop over all tokens; every token uses up a character, so `text.length` rounds do. -/
def tokensFrom (delimiters : List Char) : Nat → Text → List Text
  | 0, _ => []
  | rounds + 1, text =>
      match strtok delimiters text with
      | none => []
      | some (token, rest) => token :: tokensFrom delimiters rounds rest

def tokens (delimiters : List Char) (text : Text) : List Text :=
  tokensFrom delimiters text.length text

def digitsFrom (value : Int) : Text → Int
  | [] => value
  | c :: text => if c.isDigit then digitsFrom (10 * value + (c.toNat - 48 : Nat)) text else value

def isspace (c : Char) : Bool := c = ' ' || 9 ≤ c.toNat && c.toNat ≤ 13

/-- What `strtol` reads as a number, before it is cut to a `long`. -/
def signedFrom : Text → Int
  | '-' :: text => -digitsFrom 0 text
  | '+' :: text => digitsFrom 0 text
  | text => digitsFrom 0 text

/-- The nearest `long`. -/
def cutToLong (value : Int) : Int :=
  if value < -0x8000000000000000 then -0x8000000000000000
  else if 0x7fffffffffffffff < value then 0x7fffffffffffffff
  else value

/-- The `long` that `strtol` returns, in an `int`. -/
def atoi (text : Text) : Int :=
  (cutToLong (signedFrom (text.dropWhile isspace))).bmod 0x100000000

-- messages.c

def errorMessage (message : String) (s : Spooler) : Spooler := s.emit (.message (.error message))

def printerMessage (id : Nat) (s : Spooler) : Spooler :=
  s.emit (.message (.printer id (s.printer id)))

def jobMessage (jobid : Nat) (s : Spooler) : Spooler :=
  s.emit (.message (.job jobid (s.job jobid)))

def printerStatus (s : Spooler) : Spooler :=
  (List.range s.printerCount).foldl (fun s id => printerMessage id s) s

def jobStatus (s : Spooler) : Spooler := s.nodes.foldl (fun s jobid => jobMessage jobid s) s

-- types.c and conversions.c

def getType (typeArray : List FileType) (type : Text) : Option FileType :=
  typeArray.find? fun known => known.type = type

def addType (type : FileType) (s : Spooler) : Spooler :=
  if maxTypes ≤ s.typeArray.length then errorMessage "Max types reached. Unable to add type." s
  else { s with typeArray := s.typeArray ++ [type] }

/-- Which allocations of a declaration succeed: that of its record, and those of the copies of
strings that are checked. The others do. -/
structure Memory where
  record : Bool
  copies : Bool

def Memory.enough : Memory := ⟨true, true⟩

/-- A type that is defined already is reported and added all the same. -/
def newExtensionIn (memory : Memory) (name : Option Text) (s : Spooler) : Spooler :=
  match name with
  | none => s
  | some name =>
      let s := if (getType s.typeArray name).isSome then errorMessage "Type already defined." s else s
      if !memory.record then errorMessage "Unable to add type." s
      else addType { type := name, conversions := [] } s

def newExtension : Option Text → Spooler → Spooler := newExtensionIn .enough

/-- The conversion of `type` to `type2`. -/
def FileType.conversionTo (type : FileType) (type2 : Text) : Option Conversion :=
  type.conversions.find? fun conversion => conversion.type = type2

def getConversion (typeArray : List FileType) (type1 type2 : Text) : Option Conversion :=
  (getType typeArray type1).bind fun type => type.conversionTo type2

/-- The conversion is added to the first type of that name. -/
def addConversion (type : Text) (conversion : Conversion) (s : Spooler) : Spooler :=
  match getType s.typeArray type with
  | none => s
  | some known =>
      if maxConversions ≤ known.conversions.length then
        errorMessage "Max conversions reached. Unable to add conversion." s
      else
        let index := s.typeArray.findIdx (fun known => known.type = type)
        let grown := { known with conversions := known.conversions ++ [conversion] }
        { s with typeArray := s.typeArray.set index grown }

def newConversionIn (memory : Memory) (type1 type2 program args : Option Text) (s : Spooler) :
    Spooler :=
  match type1, type2, program with
  | some type1, some type2, some program =>
      if (getType s.typeArray type1).isNone ∨ (getType s.typeArray type2).isNone then
        errorMessage "file types are not defined." s
      else if !memory.record then errorMessage "Unable to create conversion." s
      else if (getConversion s.typeArray type1 type2).isSome then
        errorMessage "conversion for these files is already defined." s
      else if !memory.copies then errorMessage "Unable to create conversion due to memory." s
      else addConversion type1 { type := type2, program := program, args := args } s
  | _, _, _ => s

def newConversion : Option Text → Option Text → Option Text → Option Text → Spooler → Spooler :=
  newConversionIn .enough

/-- The body of `getConversionPath` with the `for` loop as a parameter. An empty path is NULL,
`none` the dereference of an undeclared type. -/
def enterType (typeArray : List FileType) (fileType printerType : Text) (loops : Nat)
    (search : List Conversion → Option (List Conversion)) : Option (List Conversion) := do
  let type ← getType typeArray fileType
  if type.conversions = [] ∨ fileType = printerType ∨ loops = 0 then return []
  else
    match getConversion typeArray fileType printerType with
    | some conversion => return [conversion]
    | none => search type.conversions

/-- The `for` loop, which counts `loops` down before every recursive call. When the count has
run out every further call returns NULL. -/
def searchConversions (typeArray : List FileType) (printerType : Text) :
    Nat → List Conversion → Option (List Conversion)
  | 0, conversions =>
      if conversions.all fun conversion => (getType typeArray conversion.type).isSome then some []
      else none
  | _ + 1, [] => some []
  | loops + 1, conversion :: rest => do
      let path ← enterType typeArray conversion.type printerType loops
        (searchConversions typeArray printerType loops)
      if path ≠ [] then return conversion :: path
      else searchConversions typeArray printerType loops rest

def getConversionPath (typeArray : List FileType) (fileType printerType : Text) (loops : Nat) :
    Option (List Conversion) :=
  enterType typeArray fileType printerType loops (searchConversions typeArray printerType loops)

-- printers.c

def getPrinter (s : Spooler) (name : Text) : Option Nat :=
  (List.range s.printerCount).find? fun id => (s.printer id).name = name

def addPrinter (printer : Printer) (s : Spooler) : Spooler :=
  { s with printer := Function.update s.printer s.printerCount printer
           printerCount := s.printerCount + 1 }

/-- The new printer and its announcement by the command `printer`. -/
def newPrinterIn (memory : Memory) (name type : Option Text) (s : Spooler) : Spooler :=
  match name, type with
  | some name, some type =>
      if (getType s.typeArray type).isNone then errorMessage "File type is not defined." s
      else if maxPrinters ≤ s.printerCount then
        errorMessage "Max printers reached. Unable to add printer." s
      else if !memory.record then errorMessage "Unable to start printer." s
      else if !memory.copies then errorMessage "Unable to create printer due to memory." s
      else
        printerMessage s.printerCount
          (addPrinter { name := name, type := type, enabled := false, busy := false } s)
  | _, _ => s

def newPrinter : Option Text → Option Text → Spooler → Spooler := newPrinterIn .enough

def anyPrinter : BitVec 32 := 0xffffffff

/-- The loop of `getPrinterSet` over the names it was given. -/
def collectPrinters (s : Spooler) (printerSet : BitVec 32) : List Text → Spooler × BitVec 32
  | [] => (s, printerSet)
  | name :: names =>
      match getPrinter s name with
      | none => (errorMessage ("Printer " ++ String.ofList name ++ " is not defined.") s, 0)
      | some id => collectPrinters s (printerSet ||| 1 <<< id) names

def getPrinterSet (printers : Option Text) (s : Spooler) : Spooler × BitVec 32 :=
  match printers with
  | none => (s, anyPrinter)
  | some names => collectPrinters s 0 (tokens [' '] names)

def undefinedPrinter (s : Spooler) : Spooler := errorMessage "No printer with that name exists." s

def disablePrinter (name : Text) (s : Spooler) : Spooler :=
  match getPrinter s name with
  | none => undefinedPrinter s
  | some id =>
      if !(s.printer id).enabled then errorMessage "Printer is already disabled." s
      else printerMessage id (s.setPrinter id { s.printer id with enabled := false })

def enablePrinter (name : Text) (s : Spooler) : Spooler :=
  match getPrinter s name with
  | none => undefinedPrinter s
  | some id =>
      if (s.printer id).enabled then errorMessage "Printer is already enabled." s
      else printerMessage id (s.setPrinter id { s.printer id with enabled := true })

def setBusy (id : Nat) (busy : Bool) (s : Spooler) : Spooler :=
  s.setPrinter id { s.printer id with busy := busy }

/-- The assignment in `busyPrinter`. -/
def markBusy (id : Nat) (s : Spooler) : Spooler :=
  setBusy id true (s.emit (.marked id (s.printer id).busy))

def busyPrinter (name : Text) (s : Spooler) : Spooler :=
  match getPrinter s name with
  | none => undefinedPrinter s
  | some id => printerMessage id (markBusy id s)

def freePrinter (name : Text) (s : Spooler) : Spooler :=
  match getPrinter s name with
  | none => undefinedPrinter s
  | some id => printerMessage id (setBusy id false s)

/-- An enabled printer of the job's set. -/
def usable (s : Spooler) (jobid id : Nat) : Bool :=
  (s.printer id).enabled && (s.job jobid).eligiblePrinters.getLsbD id

/-- The test of each of the three loops of `getEligiblePrinter`. -/
def suits (s : Spooler) (jobid pass id : Nat) : Option Bool :=
  if !usable s jobid id then some false
  else
    match pass with
    | 0 => some (!(s.printer id).busy && (s.printer id).type = (s.job jobid).fileType)
    | 1 =>
        (getConversionPath s.typeArray (s.job jobid).fileType (s.printer id).type maxConversions).map
          fun path => path ≠ []
    | _ => some ((s.printer id).type = (s.job jobid).fileType)

/-- The loop of pass `pass` with `remaining` printers to go. -/
def searchPrinters (s : Spooler) (jobid pass : Nat) : Nat → Option (Option Nat)
  | 0 => some none
  | remaining + 1 => do
      let id := s.printerCount - (remaining + 1)
      if ← suits s jobid pass id then return some id
      else searchPrinters s jobid pass remaining

/-- The passes from `pass` on. -/
def searchPasses (s : Spooler) (jobid : Nat) : List Nat → Option (Option Nat)
  | [] => some none
  | pass :: passes => do
      match ← searchPrinters s jobid pass s.printerCount with
      | some id => return some id
      | none => searchPasses s jobid passes

def getEligiblePrinter (jobid : Nat) (s : Spooler) : Option (Spooler × Option Nat) :=
  if (getType s.typeArray (s.job jobid).fileType).isNone then
    some (errorMessage "File type of job is not supported." s, none)
  else (searchPasses s jobid [0, 1, 2]).map fun id => (s, id)

end Audible.Imprimer
