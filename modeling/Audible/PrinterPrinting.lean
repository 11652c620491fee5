import Audible.PrinterPipeline
import Audible.Relating

set_option autoImplicit false

/- What the process of a job is for: the document goes through the conversions, one after another,
and is printed. -/
namespace Audible.Pipeline

open Descriptors Imprimer Relating

def spareFork (host : Host) (n : Nat) : Except Outcome Unit :=
  if host.forks n then .ok () else .error (.exited 1)

def sparePipe (host : Host) (n : Nat) : Except Outcome Unit :=
  if host.pipes n then .ok () else .error (.exited 1)

/-- A program that is run with its output going into a pipe. -/
def runFilter (host : Host) (argv : List Text) (input : List UInt8) :
    Except Outcome (ChildStatus × List UInt8) :=
  match host.execute argv with
  | none => .ok (.exited 1, [])
  | some filter =>
      if (filter input).1.length ≤ host.capacity then .ok ((filter input).2, (filter input).1)
      else .error .waits

def convert (host : Host) (conversion : Conversion) (input : List UInt8) :
    Except Outcome (List UInt8) := do
  let (status, output) ← runFilter host (argumentsOf conversion) input
  if status = .exited 1 then .error (.exited 1) else return output

/-- The conversions of a path, after `n` others. -/
def convertAll (host : Host) : List Conversion → Nat → List UInt8 → Except Outcome (List UInt8)
  | [], _, input => .ok input
  | conversion :: path, n, input => do
      spareFork host n
      let output ← convert host conversion input
      if path = [] then return output
      else do
        sparePipe host (n + 2)
        convertAll host path (n + 1) output

def printerOutcome (status : ChildStatus) : Outcome :=
  if status = .exited 1 then .exited 1 else .exited 0

/-- How the process ends, and what the printer is sent. -/
def printOutput (host : Host) (n : Nat) (input : List UInt8) : Outcome × List UInt8 :=
  if host.forks n then
    match host.execute getPrinterArgs with
    | none => (printerOutcome (.exited 1), [])
    | some filter => (printerOutcome (filter input).2, (filter input).1)
  else (.exited 1, [])

def findDocument (host : Host) : Except Outcome (List UInt8) :=
  match host.file with
  | none => .error (.exited 1)
  | some file => .ok file

def convertAlong (host : Host) (path : Option (List Conversion)) (document : List UInt8) :
    Except Outcome (List UInt8) :=
  match path with
  | none => .error .signaled
  | some path => convertAll host path 0 document

def convertedDocument (host : Host) (path : Option (List Conversion)) :
    Except Outcome (List UInt8) := do
  let document ← findDocument host
  sparePipe host 0
  sparePipe host 1
  convertAlong host path document

def spoolDocument (host : Host) (path : Option (List Conversion)) : Outcome × List UInt8 :=
  match convertedDocument host path with
  | .error outcome => (outcome, [])
  | .ok output => printOutput host (path.getD []).length output

variable {host : Host} {m m' : Master} {child : Table Stream} {p q fd parent2child n : Nat}
variable {child2parent : PipeEnds} {input : List UInt8} {head : Bool}

def Master.Quiet (m : Master) : Prop := m.printed = [] ∧ m.shown = []

/-- Before a conversion. `p` is the pipe that it reads from, if it is not the first, and `q` the pipe
that it writes to. -/
structure Ready (fd parent2child : Nat) (child2parent : PipeEnds) (head : Bool) (input : List UInt8)
    (n p q : Nat) (m : Master) : Prop where
  document : m.table.file fd = some .document
  reads : m.table.file parent2child = some (.readEnd p)
  next : m.table.file child2parent.1 = some (.readEnd q)
  writes : m.table.file child2parent.2 = some (.writeEnd q)
  writer : ∀ x r, m.table.file x = some (.writeEnd r) → x = child2parent.2
  stdin : m.table.file 0 = some .inherited
  stdout : m.table.file 1 = some .inherited
  other : p ≠ q
  made : q < m.pipes
  input : if head then m.document = input else m.pipe p = input
  empty : m.pipe q = []
  later : ∀ r, m.pipes ≤ r → m.pipe r = []
  pipes : m.pipes = n + 2
  quiet : m.Quiet

theorem Ready.forked (ready : Ready fd parent2child child2parent head input n p q m) (forks : Nat) :
    Ready fd parent2child child2parent head input n p q { m with forks := forks } :=
  { ready with }

theorem Ready.apart (ready : Ready fd parent2child child2parent head input n p q m) :
    fd ≠ parent2child ∧ fd ≠ child2parent.1 ∧ fd ≠ child2parent.2 ∧
      parent2child ≠ child2parent.1 ∧ parent2child ≠ child2parent.2 ∧
      child2parent.1 ≠ child2parent.2 := by
  have other := ready.other
  refine ⟨?_, ?_, ?_, ?_, ?_, ?_⟩ <;> intro same
  · exact absurd (ready.document.symm.trans (same ▸ ready.reads)) (by simp)
  · exact absurd (ready.document.symm.trans (same ▸ ready.next)) (by simp)
  · exact absurd (ready.document.symm.trans (same ▸ ready.writes)) (by simp)
  · exact absurd (ready.reads.symm.trans (same ▸ ready.next)) (by simp [other])
  · exact absurd (ready.reads.symm.trans (same ▸ ready.writes)) (by simp)
  · exact absurd (ready.next.symm.trans (same ▸ ready.writes)) (by simp)

theorem Ready.standard (ready : Ready fd parent2child child2parent head input n p q m) {x : Nat}
    (standard : m.table.file x = some .inherited) :
    x ≠ fd ∧ x ≠ parent2child ∧ x ≠ child2parent.1 ∧ x ≠ child2parent.2 := by
  refine ⟨?_, ?_, ?_, ?_⟩ <;> rintro rfl
  · exact absurd (standard.symm.trans ready.document) (by simp)
  · exact absurd (standard.symm.trans ready.reads) (by simp)
  · exact absurd (standard.symm.trans ready.next) (by simp)
  · exact absurd (standard.symm.trans ready.writes) (by simp)

theorem Ready.reader (ready : Ready fd parent2child child2parent head input n p q m) :
    m.table.holds (.readEnd q) = true := holds_iff.mpr ⟨_, ready.next⟩

/-- The process that waits does not keep the input of a conversion open. -/
theorem Ready.unwritten (ready : Ready fd parent2child child2parent head input n p q m) :
    m.table.holds (.writeEnd p) = false := by
  refine holds_eq_false fun x held => ready.other ?_
  have own := held
  rw [ready.writer x p held, ready.writes] at own
  cases own
  rfl

/-- A conversion reads the document or the pipe of the one before it, and writes to the next
pipe. -/
structure Connected (child : Table Stream) (head : Bool) (p q : Nat) : Prop where
  stdin : child.file 0 = some (if head then .document else .readEnd p)
  stdout : child.file 1 = some (.writeEnd q)
  writer : ∀ x r, child.file x = some (.writeEnd r) → r = q

theorem Ready.child_file (ready : Ready fd parent2child child2parent head input n p q m) (x : Nat) :
    (conversionChild head fd parent2child child2parent m.table).file x =
      if x = child2parent.2 then none else if x = child2parent.1 then none
      else if x = parent2child then none else if x = 1 then some (.writeEnd q)
      else if x = 0 then some (if head then .document else .readEnd p)
      else if x = fd then none else m.table.file x := by
  obtain ⟨inFd, -, writeFd, -, writeIn, -⟩ := ready.apart
  obtain ⟨-, -, -, writeZero⟩ := ready.standard ready.stdin
  have first : ∀ x, x ≠ parent2child →
      (if head then m.table.dup2 fd parent2child else m.table).file x = m.table.file x := by
    intro x other
    cases head with
    | false => rfl
    | true =>
        rw [if_pos rfl, file_dup2 ready.document, if_neg other]
  have fed : ((if head then m.table.dup2 fd parent2child else m.table).close fd).file parent2child =
      some (if head then .document else .readEnd p) := by
    rw [file_close, if_neg inFd.symm]
    cases head with
    | false => exact ready.reads
    | true =>
        rw [if_pos rfl, file_dup2 ready.document, if_pos rfl]
        rfl
  have written : (((if head then m.table.dup2 fd parent2child else m.table).close fd).dup2
      parent2child 0).file child2parent.2 = some (.writeEnd q) := by
    rw [file_dup2 fed, if_neg writeZero.symm, file_close, if_neg writeFd.symm,
      first _ writeIn.symm, ready.writes]
  unfold conversionChild
  simp only [file_close, file_dup2 written, file_dup2 fed]
  by_cases own : x = parent2child
  · simp [own]
  · rw [first x own]

theorem Ready.connected (ready : Ready fd parent2child child2parent head input n p q m) :
    Connected (conversionChild head fd parent2child child2parent m.table) head p q := by
  obtain ⟨-, zeroIn, zeroRead, zeroWrite⟩ := ready.standard ready.stdin
  obtain ⟨-, oneIn, oneRead, oneWrite⟩ := ready.standard ready.stdout
  have stdout : (conversionChild head fd parent2child child2parent m.table).file 1 =
      some (.writeEnd q) := by
    rw [ready.child_file]
    simp [oneIn, oneRead, oneWrite]
  refine ⟨?_, stdout, fun x r held => ?_⟩
  · rw [ready.child_file]
    simp [zeroIn, zeroRead, zeroWrite]
  · by_cases one : x = 1
    · rw [one, stdout] at held
      cases held
      rfl
    · rw [ready.child_file, if_neg one] at held
      split_ifs at held with last
      · cases held
      · cases held
      · exact absurd (ready.writer x r held) last

/-- What a conversion leaves: its output is in the pipe. -/
structure Converted (q : Nat) (m : Master) (status : ChildStatus) (output : List UInt8)
    (m' : Master) : Prop where
  table : m'.table = m.table
  pipes : m'.pipes = m.pipes
  forks : m'.forks = m.forks
  quiet : m'.Quiet
  output : status ≠ .exited 1 → m'.pipe q = output
  later : ∀ r, r ≠ q → m.pipe r = [] → m'.pipe r = []

def SameOutcome (error : Outcome × Master) (outcome : Outcome) : Prop :=
  error.1 = outcome ∧ error.2.Quiet

/-- A conversion that waits or ends as its program does. -/
theorem runChild_relates (connected : Connected child head p q) (other : p ≠ q)
    (next : m.table.holds (.readEnd q) = true) (last : m.table.holds (.writeEnd p) = false)
    (fed : if head then m.document = input else m.pipe p = input) (empty : m.pipe q = [])
    (quiet : m.Quiet) (argv : List Text) (refusal : String) :
    Relates SameOutcome
      (fun (left : ChildStatus × Master) (right : ChildStatus × List UInt8) =>
        left.1 = right.1 ∧ Converted q m left.1 right.2 left.2)
      (runChild host argv child refusal m) (runFilter host argv input) := by
  unfold runChild runFilter
  cases host.execute argv with
  | none => exact .ok ⟨rfl, rfl, rfl, rfl, quiet, fun other => absurd rfl other, fun _ _ => id⟩
  | some filter =>
      have reads : ∃ m₁ : Master, readInput host child m = .ok (input, m₁) ∧ m₁.table = m.table ∧
          m₁.pipes = m.pipes ∧ m₁.forks = m.forks ∧ m₁.Quiet ∧ m₁.pipe q = [] ∧
          ∀ r, m.pipe r = [] → m₁.pipe r = [] := by
        unfold readInput
        rw [connected.stdin]
        cases head with
        | true =>
            exact ⟨{ m with document := [] }, by simp [← show m.document = input from fed], rfl, rfl,
              rfl, quiet, empty, fun _ => id⟩
        | false =>
            have alone : child.holds (.writeEnd p) = false :=
              holds_eq_false fun x held => other (connected.writer x p held)
            refine ⟨{ m with pipe := Function.update m.pipe p [] }, ?_, rfl, rfl, rfl, quiet, ?_, ?_⟩
            · simp [alone, last, ← show m.pipe p = input from fed]
            · simp [other.symm, empty]
            · intro r none
              by_cases same : r = p
              · simp [same]
              · simp [same, none]
      obtain ⟨m₁, read, table, pipes, forks, still, unwritten, later⟩ := reads
      dsimp only
      rw [read]
      show Relates _ _ (writeOutput host child (filter input).1 (filter input).2 m₁) _
      unfold writeOutput
      rw [connected.stdout]
      dsimp only
      have reader : m₁.table.holds (.readEnd q) = true := table ▸ next
      rw [unwritten, List.nil_append, reader, Bool.or_true, if_pos rfl]
      refine Relates.ite Iff.rfl (fun _ => .ok ⟨rfl, ?_⟩) fun _ => .error ⟨rfl, still⟩
      refine ⟨table, pipes, forks, still, fun _ => Function.update_self .., fun r different none => ?_⟩
      exact (Function.update_of_ne different ..).trans (later r none)

/-- After the last conversion the output is on descriptor 0. -/
structure Loaded (parent2child : Nat) (child2parent : PipeEnds) (output : List UInt8) (n : Nat)
    (m : Master) : Prop where
  stdin : ∃ q, m.table.file 0 = some (.readEnd q) ∧ m.pipe q = output
  stdout : m.table.file 1 = some .inherited
  writer : ∀ x r, m.table.file x = some (.writeEnd r) → x = child2parent.2
  apart : ∀ x ≤ 1, x ≠ parent2child ∧ x ≠ child2parent.1 ∧ x ≠ child2parent.2
  forks : m.forks = n
  quiet : m.Quiet

theorem fork_relates (quiet : m.Quiet) (forks : m.forks = n) :
    Relates SameOutcome (fun m' _ => m' = { m with forks := n + 1 }) (fork host m)
      (spareFork host n) := by
  subst forks
  exact Relates.ite Iff.rfl (fun _ => .ok rfl) fun _ => .error ⟨rfl, quiet⟩

structure Made (n : Nat) (m : Master) (ends : PipeEnds) (m' : Master) : Prop where
  piped : Piped m.table m'.table (.readEnd n) (.writeEnd n) ends.1 ends.2
  same : m' = { m with table := m'.table, pipes := n + 1 }

theorem makePipe_relates (quiet : m.Quiet) (pipes : m.pipes = n) :
    Relates SameOutcome (fun (left : PipeEnds × Master) _ => Made n m left.1 left.2)
      (makePipe host m) (sparePipe host n) := by
  subst pipes
  refine Relates.ite Iff.rfl (fun _ => .ok ⟨?_, rfl⟩) fun _ => .error ⟨rfl, quiet⟩
  exact pipe_spec m.table (.readEnd m.pipes) (.writeEnd m.pipes)

theorem Ready.nextPipe (ready : Ready fd parent2child child2parent head input n p q m)
    {status : ChildStatus} {output : List UInt8} (converted : Converted q m status output m')
    (success : status ≠ .exited 1) :
    Relates SameOutcome (fun (left : PipeEnds × Master) _ =>
        Ready fd parent2child left.1 false output (n + 1) q (n + 2) left.2 ∧
          left.2.forks = m.forks)
      (nextPipe host parent2child child2parent m') (sparePipe host (n + 2)) := by
  obtain ⟨inFd, readFd, writeFd, readIn, writeIn, writeRead⟩ := ready.apart
  have later : ∀ r, n + 2 ≤ r → m'.pipe r = [] := by
    intro r high
    have pipes := ready.pipes
    have made := ready.made
    exact converted.later r (by omega) (ready.later r (by omega))
  have kept : (m.table.close child2parent.2).file child2parent.1 = some (.readEnd q) := by
    rw [file_close, if_neg writeRead, ready.next]
  let table := ((m.table.close child2parent.2).dup2 child2parent.1 parent2child).close child2parent.1
  have file : ∀ x, table.file x = if x = child2parent.1 then none
      else if x = parent2child then some (.readEnd q)
      else if x = child2parent.2 then none else m.table.file x := by
    intro x
    simp only [table, file_close, file_dup2 kept]
  have unwritten : ∀ x r, table.file x ≠ some (.writeEnd r) := by
    intro x r held
    rw [file] at held
    split_ifs at held with _ _ last
    · cases held
    · exact last (ready.writer x r held)
  unfold Pipeline.nextPipe
  rw [converted.table]
  refine (@makePipe_relates host { m' with table := table } (n + 2) converted.quiet
    (converted.pipes.trans ready.pipes)).mono fun left _ made => ?_
  have piped := made.piped
  have pipe : left.2.pipe = m'.pipe := by rw [made.same]
  have pipes : left.2.pipes = n + 3 := by rw [made.same]
  have stays : ∀ {x f}, x ≠ parent2child → x ≠ child2parent.1 → x ≠ child2parent.2 →
      m.table.file x = some f → left.2.table.file x = some f := by
    intro x f notIn notRead notWrite held
    refine piped.kept ?_
    show table.file x = some f
    rw [file, if_neg notRead, if_neg notIn, if_neg notWrite, held]
  obtain ⟨-, zeroIn, zeroRead, zeroWrite⟩ := ready.standard ready.stdin
  obtain ⟨-, oneIn, oneRead, oneWrite⟩ := ready.standard ready.stdout
  have made_ := ready.made
  have before := ready.pipes
  refine ⟨⟨stays inFd readFd writeFd ready.document, piped.kept ?_, ?_, ?_, fun x r held => ?_,
    stays zeroIn zeroRead zeroWrite ready.stdin, stays oneIn oneRead oneWrite ready.stdout, ?_, ?_,
    ?_, ?_, fun r high => ?_, pipes, ?_⟩, ?_⟩
  · show table.file parent2child = _
    rw [file, if_neg readIn, if_pos rfl]
  · rw [piped.file, if_neg piped.different, if_pos rfl]
  · rw [piped.file, if_pos rfl]
  · by_contra notLast
    rw [piped.file, if_neg notLast] at held
    split_ifs at held
    · cases held
    · exact unwritten x r held
  · omega
  · omega
  · rw [if_neg (by simp), pipe, converted.output success]
  · rw [pipe, later _ (by omega)]
  · rw [pipe, later _ (by omega)]
  · rw [made.same]
    exact converted.quiet
  · rw [made.same]
    exact converted.forks

/-- The last conversion leaves its output on descriptor 0. -/
theorem Ready.loaded (ready : Ready fd parent2child child2parent head input n p q m)
    {status : ChildStatus} {output : List UInt8} (converted : Converted q m status output m')
    (success : status ≠ .exited 1) {count : Nat} (forks : m'.forks = count) :
    Loaded parent2child child2parent output count
      { m' with table := m'.table.dup2 child2parent.1 0 } := by
  have file : ∀ x, (m'.table.dup2 child2parent.1 0).file x =
      if x = 0 then some (.readEnd q) else m.table.file x := by
    intro x
    rw [converted.table, file_dup2 ready.next]
  refine ⟨⟨q, by rw [file, if_pos rfl], converted.output success⟩, ?_, fun x r held => ?_, ?_, forks,
    converted.quiet⟩
  · rw [file, if_neg (by simp), ready.stdout]
  · rw [file] at held
    split_ifs at held
    · cases held
    · exact ready.writer x r held
  · intro x low
    have standard : m.table.file x = some .inherited := by
      rcases Nat.le_one_iff_eq_zero_or_eq_one.mp low with rfl | rfl
      · exact ready.stdin
      · exact ready.stdout
    exact (ready.standard standard).2

theorem convertFrom_relates {path : List Conversion} (nonempty : path ≠ [])
    (ready : Ready fd parent2child child2parent head input n p q m) (forks : m.forks = n) :
    Relates SameOutcome
      (fun left output => Loaded parent2child left.1 output (n + path.length) left.2)
      (convertFrom host fd parent2child head path child2parent m) (convertAll host path n input) := by
  induction path generalizing head child2parent input n p q m with
  | nil => exact absurd rfl nonempty
  | cons conversion path ih =>
      unfold convertFrom convertAll
      refine (fork_relates ready.quiet forks).bind fun m₁ _ same => ?_
      have forked : Ready fd parent2child child2parent head input n p q m₁ :=
        same ▸ ready.forked (n + 1)
      have count : m₁.forks = n + 1 := same ▸ rfl
      unfold convert
      rw [bind_assoc]
      refine (runChild_relates forked.connected forked.other forked.reader forked.unwritten
        forked.input forked.empty forked.quiet _ _).bind fun left right ended => ?_
      obtain ⟨status, m'⟩ := left
      obtain ⟨status', output⟩ := right
      obtain ⟨same, converted⟩ := ended
      dsimp only at same converted ⊢
      subst same
      by_cases failed : status = .exited 1
      · rw [if_pos failed, if_pos failed]
        exact .error ⟨rfl, converted.quiet⟩
      · rw [if_neg failed, if_neg failed, pure_bind]
        refine Relates.ite Iff.rfl (fun alone => .ok ?_) fun more => ?_
        · subst alone
          exact forked.loaded converted failed (converted.forks.trans count)
        · refine (forked.nextPipe converted failed).bind fun left _ now => ?_
          have rest := ih more now.1 (now.2.trans count)
          rw [Nat.add_right_comm] at rest
          exact rest

/-- The descriptors that the spooler has open. -/
structure Inherited (table : Table Stream) : Prop where
  stdin : table.file 0 = some .inherited
  stdout : table.file 1 = some .inherited
  other : ∀ x f, table.file x = some f → f = .inherited

structure Opened (fd : Nat) (document : List UInt8) (m : Master) : Prop where
  file : m.table.file fd = some .document
  stdin : m.table.file 0 = some .inherited
  stdout : m.table.file 1 = some .inherited
  other : ∀ x f, m.table.file x = some f → f = .document ∨ f = .inherited
  input : m.document = document
  empty : ∀ r, m.pipe r = []
  pipes : m.pipes = 0
  forks : m.forks = 0
  quiet : m.Quiet

theorem openDocument_relates {table : Table Stream} (inherited : Inherited table) :
    Relates SameOutcome (fun (left : Nat × Master) document => Opened left.1 document left.2)
      (openDocument host (startMaster table)) (findDocument host) := by
  unfold openDocument findDocument
  cases host.file with
  | none => exact .error ⟨rfl, rfl, rfl⟩
  | some document =>
      have zero : 0 ≠ table.lowest := ne_lowest (by simp [inherited.stdin])
      have one : 1 ≠ table.lowest := ne_lowest (by simp [inherited.stdout])
      refine .ok ⟨?_, ?_, ?_, fun x f held => ?_, rfl, fun _ => rfl, rfl, rfl, rfl, rfl⟩
      · exact (file_set ..).trans (if_pos rfl)
      · exact (file_set ..).trans ((if_neg zero).trans inherited.stdin)
      · exact (file_set ..).trans ((if_neg one).trans inherited.stdout)
      · replace held := (file_set ..).symm.trans held
        split_ifs at held
        · cases held
          exact .inl rfl
        · exact .inr (inherited.other x f held)

/-- The printer reads its input up to the end. -/
structure Fed (output : List UInt8) (n : Nat) (m : Master) : Prop where
  stdin : (m.table.file 0 = some .document ∧ m.document = output) ∨
    ∃ q, m.table.file 0 = some (.readEnd q) ∧ m.pipe q = output
  stdout : m.table.file 1 = some .inherited
  writer : ∀ x r, m.table.file x ≠ some (.writeEnd r)
  forks : m.forks = n
  quiet : m.Quiet

theorem Loaded.fed {output : List UInt8} (loaded : Loaded parent2child child2parent output n m) :
    Fed output n { m with table :=
      ((m.table.close parent2child).close child2parent.1).close child2parent.2 } := by
  obtain ⟨zeroIn, zeroRead, zeroWrite⟩ := loaded.apart 0 (by simp)
  obtain ⟨oneIn, oneRead, oneWrite⟩ := loaded.apart 1 (by simp)
  obtain ⟨q, stdin, full⟩ := loaded.stdin
  refine ⟨.inr ⟨q, ?_, full⟩, ?_, fun x r held => ?_, loaded.forks, loaded.quiet⟩
  · simp [zeroIn, zeroRead, zeroWrite, stdin]
  · simp [oneIn, oneRead, oneWrite, loaded.stdout]
  · simp only [file_close] at held
    split_ifs at held with last _ _
    exact last (loaded.writer x r held)

/-- Before the first conversion. -/
theorem Opened.ready {fd : Nat} {document : List UInt8} {m₁ m₂ : Master}
    {parent2child child2parent : PipeEnds} (opened : Opened fd document m)
    (first : Made 0 m parent2child m₁) (second : Made 1 m₁ child2parent m₂) :
    Ready fd parent2child.1 child2parent true document 0 0 1
      { m₂ with table := m₂.table.close parent2child.2 } ∧ m₂.forks = 0 := by
  have inFirst : m₁.table.file parent2child.1 = some (.readEnd 0) := by
    rw [first.piped.file, if_neg first.piped.different, if_pos rfl]
  have inSecond : m₁.table.file parent2child.2 = some (.writeEnd 0) := by
    rw [first.piped.file, if_pos rfl]
  have kept : ∀ {x f}, f ≠ .writeEnd 0 → m₁.table.file x = some f →
      (m₂.table.close parent2child.2).file x = some f := by
    intro x f other held
    have different : x ≠ parent2child.2 := by
      rintro rfl
      exact other (Option.some.inj (held.symm.trans inSecond))
    rw [file_close, if_neg different, second.piped.kept held]
  have fresh : ∀ {x}, m₁.table.file x = none → x ≠ parent2child.2 := by
    rintro x closed rfl
    cases closed.symm.trans inSecond
  have document' : m₂.document = document := by rw [second.same, first.same, opened.input]
  have pipe : m₂.pipe = m.pipe := by rw [second.same, first.same]
  have pipes : m₂.pipes = 2 := by rw [second.same]
  have quiet : m₂.Quiet := by
    rw [second.same, first.same]
    exact opened.quiet
  refine ⟨⟨kept (by simp) (first.piped.kept opened.file), kept (by simp) inFirst, ?_, ?_,
    fun x r held => ?_, kept (by simp) (first.piped.kept opened.stdin),
    kept (by simp) (first.piped.kept opened.stdout), by simp, ?_, document', ?_, fun r _ => ?_, pipes,
    quiet⟩, ?_⟩
  · rw [file_close, if_neg (fresh second.piped.first_closed), second.piped.file,
      if_neg second.piped.different, if_pos rfl]
  · rw [file_close, if_neg (fresh second.piped.second_closed), second.piped.file, if_pos rfl]
  · by_contra last
    rw [file_close] at held
    split_ifs at held with writes
    rw [second.piped.file, if_neg last, first.piped.file, if_neg writes] at held
    split_ifs at held
    · cases held
    · cases held
    · rcases opened.other x _ held with same | same <;> cases same
  · show 1 < m₂.pipes
    omega
  · rw [pipe, opened.empty]
  · rw [pipe, opened.empty]
  · rw [second.same, first.same, opened.forks]

/-- A document that needs no conversion. -/
theorem Ready.fed (ready : Ready fd parent2child child2parent true input n p q m)
    (forks : m.forks = n) :
    Fed input n { m with table :=
      (((m.table.dup2 fd 0).close parent2child).close child2parent.1).close child2parent.2 } := by
  obtain ⟨-, zeroIn, zeroRead, zeroWrite⟩ := ready.standard ready.stdin
  obtain ⟨-, oneIn, oneRead, oneWrite⟩ := ready.standard ready.stdout
  refine ⟨.inl ⟨?_, ready.input⟩, ?_, fun x r held => ?_, forks, ready.quiet⟩
  · simp [zeroIn, zeroRead, zeroWrite, file_dup2 ready.document]
  · simp [oneIn, oneRead, oneWrite, file_dup2 ready.document, ready.stdout]
  · simp only [file_close, file_dup2 ready.document] at held
    split_ifs at held with last
    · cases held
    · exact last (ready.writer x r held)

theorem prepareDocument_relates {table : Table Stream} (inherited : Inherited table)
    (path : Option (List Conversion)) :
    Relates SameOutcome (fun left output => Fed output (path.getD []).length left.2)
      (prepareDocument host path table) (convertedDocument host path) := by
  refine (openDocument_relates inherited).bind fun left document opened => ?_
  obtain ⟨fd, m⟩ := left
  refine (makePipe_relates opened.quiet opened.pipes).bind fun left _ first => ?_
  obtain ⟨parent2child, m₁⟩ := left
  dsimp only at opened first ⊢
  have quiet : m₁.Quiet := by
    rw [first.same]
    exact opened.quiet
  have pipes : m₁.pipes = 1 := by rw [first.same]
  refine (makePipe_relates quiet pipes).bind fun left _ second => ?_
  obtain ⟨child2parent, m₂⟩ := left
  obtain ⟨ready, forks⟩ := opened.ready first second
  unfold convertDocument convertAlong
  cases path with
  | none => exact .error ⟨rfl, ready.quiet⟩
  | some path =>
      by_cases none : path = []
      · subst none
        exact .ok (ready.fed forks)
      · dsimp only
        rw [if_neg none, bind_assoc, ← bind_pure (convertAll host path 0 document)]
        refine (convertFrom_relates none ready forks).bind fun left output loaded => .ok ?_
        rw [Nat.zero_add] at loaded
        exact loaded.fed

/-- What the process does, as the abstract printer says: how it ends, and where the output goes if
there is no printer. -/
structure Delivers (host : Host) (left : Outcome × Master) (right : Outcome × List UInt8) : Prop where
  outcome : left.1 = right.1
  printed : left.2.printed = if host.printer then right.2 else []
  shown : left.2.shown = if host.printer then [] else right.2

theorem Fed.child_file {output : List UInt8} (fed : Fed output n m) :
    (printerChild host m.table).file 0 = m.table.file 0 ∧
      (printerChild host m.table).file 1 = some (if host.printer then .printer else .inherited) ∧
      ∀ x r, (printerChild host m.table).file x ≠ some (.writeEnd r) := by
  unfold printerChild
  cases host.printer with
  | false => exact ⟨rfl, fed.stdout, fed.writer⟩
  | true =>
      have file : ∀ x, (m.table.openFile .printer).2.file x =
          if x = m.table.lowest then some .printer else m.table.file x := fun _ => file_set ..
      have opened : (m.table.openFile .printer).2.file m.table.lowest = some .printer := by
        rw [file, if_pos rfl]
      have zero : 0 ≠ m.table.lowest := by
        refine ne_lowest ?_
        rcases fed.stdin with ⟨held, -⟩ | ⟨q, held, -⟩ <;> simp [held]
      rw [if_pos rfl, if_pos rfl]
      refine ⟨?_, ?_, fun x r held => ?_⟩
      · exact (file_dup2 opened 0).trans ((if_neg (by simp)).trans ((file 0).trans (if_neg zero)))
      · exact (file_dup2 opened 1).trans (if_pos rfl)
      · replace held := (file_dup2 opened x).symm.trans held
        rw [file] at held
        split_ifs at held
        · cases held
        · cases held
        · exact fed.writer x r held

theorem Fed.read {output : List UInt8} (fed : Fed output n m) {child : Table Stream}
    (stdin : child.file 0 = m.table.file 0) (writer : ∀ x r, child.file x ≠ some (.writeEnd r)) :
    ∃ m', readInput host child m = .ok (output, m') ∧ m'.Quiet := by
  unfold readInput
  rw [stdin]
  rcases fed.stdin with ⟨held, whole⟩ | ⟨q, held, whole⟩
  · rw [held]
    exact ⟨{ m with document := [] }, by rw [← whole], fed.quiet⟩
  · have alone : child.holds (.writeEnd q) = false := holds_eq_false fun x => writer x q
    have unwritten : m.table.holds (.writeEnd q) = false := holds_eq_false fun x => fed.writer x q
    rw [held]
    dsimp only
    rw [alone, unwritten, ← whole]
    exact ⟨_, rfl, fed.quiet⟩

theorem Fed.forked {output : List UInt8} (fed : Fed output n m) (forks : Nat) :
    Fed output forks { m with forks := forks } :=
  { fed with forks := rfl }

/-- The printer's program, and what it has written. -/
structure Printed (host : Host) (output : List UInt8) (m : Master) : Prop where
  printed : m.printed = if host.printer then output else []
  shown : m.shown = if host.printer then [] else output

theorem Master.Quiet.printed (quiet : m.Quiet) : Printed host [] m := by
  refine ⟨?_, ?_⟩
  · rw [quiet.1, ite_self]
  · rw [quiet.2, ite_self]

theorem Printed.afterPrinter {output : List UInt8} (printed : Printed host output m) (fd : Nat)
    (status : ChildStatus) :
    Delivers host (ended (afterPrinter fd status m)) (printerOutcome status, output) := by
  unfold Pipeline.afterPrinter printerOutcome
  split
  · exact ⟨rfl, printed.printed, printed.shown⟩
  · exact ⟨rfl, printed.printed, printed.shown⟩

theorem Fed.runChild {output : List UInt8} (fed : Fed output n m) {filter : Filter}
    (program : host.execute getPrinterArgs = some filter) (refusal : String) :
    ∃ m', runChild host getPrinterArgs (printerChild host m.table) refusal m =
        .ok ((filter output).2, m') ∧ Printed host (filter output).1 m' := by
  obtain ⟨stdin, stdout, writer⟩ := @Fed.child_file host _ _ _ fed
  obtain ⟨m', read, quiet⟩ := @Fed.read host _ _ _ fed _ stdin writer
  unfold Pipeline.runChild
  rw [program]
  dsimp only
  rw [read]
  show ∃ final, writeOutput host _ _ _ m' = .ok (_, final) ∧ _
  unfold writeOutput
  rw [stdout]
  cases host_printer : host.printer with
  | true =>
      refine ⟨_, rfl, ?_, ?_⟩
      · simp [host_printer, quiet.1]
      · simp [host_printer, quiet.2]
  | false =>
      refine ⟨_, rfl, ?_, ?_⟩
      · simp [host_printer, quiet.1]
      · simp [host_printer, quiet.2]

theorem Fed.delivers {output : List UInt8} (fed : Fed output n m) (fd : Nat) :
    Delivers host (ended (printDocument host fd m)) (printOutput host n output) := by
  unfold printDocument printOutput fork
  rw [fed.forks]
  cases spare : host.forks n with
  | false => exact ⟨rfl, fed.quiet.printed.printed, fed.quiet.printed.shown⟩
  | true =>
      rw [if_pos rfl, if_pos rfl]
      show Delivers host (ended (Pipeline.runChild host _ (printerChild host m.table) _ _ >>= _)) _
      cases program : host.execute getPrinterArgs with
      | none =>
          unfold Pipeline.runChild
          rw [program]
          have refused : Printed host [] ({ m with forks := n + 1 }.complain
              (printerChild host m.table) "Unable to connect to printer.") :=
            ⟨fed.quiet.printed.printed, fed.quiet.printed.shown⟩
          exact refused.afterPrinter fd (.exited 1)
      | some filter =>
          obtain ⟨m', ran, printed⟩ := (fed.forked (n + 1)).runChild program
            "Unable to connect to printer."
          dsimp only at ran
          rw [ran]
          exact printed.afterPrinter fd _

/-- The process of a job, with its descriptors and pipes, converts and prints the document as the
conversions and the printer alone would. -/
theorem jobProcess_refines {table : Table Stream} (inherited : Inherited table)
    (path : Option (List Conversion)) :
    Delivers host (jobProcess host path table) (spoolDocument host path) := by
  have related := @prepareDocument_relates host _ inherited path
  unfold jobProcess spoolDocument
  generalize prepareDocument host path table = prepared at related ⊢
  generalize convertedDocument host path = converted at related ⊢
  cases related with
  | error same =>
      obtain ⟨outcome, quiet⟩ := same
      exact ⟨outcome, quiet.printed.printed, quiet.printed.shown⟩
  | ok fed => exact fed.delivers _

end Audible.Pipeline
