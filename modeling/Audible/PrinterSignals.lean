import Audible.PrinterChoice
import Audible.PrinterOnce

set_option autoImplicit false

/- The processes of the jobs, SIGCHLD and `waitpid`: what the kernel keeps of changes that have not
been reported. A standard signal that is pending already is not queued again, and of a process only
the last change is kept. -/
namespace Audible.Imprimer

def ChildStatus.Terminal : ChildStatus → Prop
  | .exited _ => True
  | .signaled => True
  | .stopped => False
  | .continued => False

instance : (status : ChildStatus) → Decidable status.Terminal
  | .exited _ => .isTrue trivial
  | .signaled => .isTrue trivial
  | .stopped => .isFalse id
  | .continued => .isFalse id

/-- What can happen to the process of a job, which exits with `EXIT_SUCCESS` or `EXIT_FAILURE`. -/
def ChildStatus.Possible : ChildStatus → Prop
  | .exited exitStatus => exitStatus ≤ 1
  | _ => True

instance : (status : ChildStatus) → Decidable status.Possible
  | .exited exitStatus => inferInstanceAs (Decidable (exitStatus ≤ 1))
  | .signaled => .isTrue trivial
  | .stopped => .isTrue trivial
  | .continued => .isTrue trivial

/-- The program, the nodes that the loop of the handler has left, the processes that have not
terminated, the changes that `waitpid` has not returned, and whether SIGCHLD is pending. The handler
has been `entered` until it calls `waitpid`. -/
structure Kernel where
  m : Machine
  handler : Option (List Nat)
  live : List Int
  waiting : List (Int × ChildStatus)
  pending : Bool
  entered : Bool

def Kernel.init : Kernel where
  m := .init
  handler := none
  live := []
  waiting := []
  pending := false
  entered := false

def Kernel.handling (k : Kernel) : Bool := k.entered || k.handler.isSome

/-- A line of input, a statement of the main program, a round of the loop of the handler, a change
of a process, the delivery of SIGCHLD, and the call of `waitpid`. -/
inductive KernelAction
  | line (world : World) (prompt : Bool) (input : Text)
  | main (world : World)
  | round (world : World)
  | change (pid : Int) (status : ChildStatus)
  | deliver
  | wait (world : World) (pid : Option Int)

def Event.forkedPid : Event → Option Int
  | .forked _ _ _ pid => some pid
  | _ => none

def forkedPids (s s' : Spooler) : List Int :=
  (s'.events.drop s.events.length).filterMap Event.forkedPid

/-- The program has gone on. A new process gets no id that a process has. -/
def Kernel.goOn (k : Kernel) (m : Machine) : Option Kernel :=
  if ∀ pid ∈ forkedPids k.m.s m.s, pid ∉ k.live ∧ pid ∉ k.waiting.map Prod.fst then
    some { k with m := m, live := forkedPids k.m.s m.s ++ k.live }
  else none

/-- SIGCHLD is blocked while the handler runs, and the main program waits for it. `waitpid` returns
the change of any process that has one, and 0 if there is none. -/
def kernelStep (k : Kernel) : KernelAction → Option Kernel
  | .line world prompt input =>
      if k.handling then none else (machineStep k.m (.line world prompt input)).bind k.goOn
  | .main world => if k.handling then none else (machineStep k.m (.main world)).bind k.goOn
  | .round world =>
      match k.handler with
      | none => none
      | some [] => some { k with handler := none }
      | some (jobid :: nodes) =>
          (runRound world jobid k.m.s).bind fun s =>
            Kernel.goOn { k with handler := some nodes } ⟨s, k.m.pc⟩
  | .change pid status =>
      if pid ∈ k.live ∧ status.Possible then
        some { k with
          live := if status.Terminal then k.live.filter (· ≠ pid) else k.live
          waiting := (pid, status) :: k.waiting.filter (·.1 ≠ pid)
          pending := true }
      else none
  | .deliver =>
      if k.pending = true ∧ k.handling = false then some { k with pending := false, entered := true }
      else none
  | .wait world none =>
      if k.entered = true ∧ k.waiting = [] then
        (enterHandler world none k.m.s).map fun (s, nodes) =>
          { k with m := ⟨s, k.m.pc⟩, handler := nodes, entered := false }
      else none
  | .wait world (some pid) =>
      if k.entered then do
        let reported ← k.waiting.find? (·.1 = pid)
        let (s, nodes) ← enterHandler world (some reported) k.m.s
        return { k with
          m := ⟨s, k.m.pc⟩
          handler := nodes
          waiting := k.waiting.filter (·.1 ≠ pid)
          entered := false }
      else none

/-- When no SIGCHLD is pending and the handler is not running, `waitpid` has returned every change,
and no job is RUNNING whose process has terminated. (The job that `runJob` is about to fork for has
no process yet.) -/
def Kernel.NothingLost (k : Kernel) : Prop :=
  k.pending = false → k.handling = false →
    k.waiting = [] ∧ ∀ jobid, (k.m.s.job jobid).status = .running → k.m.pc.pending ≠ some jobid →
      (k.m.s.job jobid).pgid ∈ k.live

/-- A process changes its state only if no more processes, with this one, have changes waiting than
`waitpid` will still be called for: once for the signal that is pending now, and once more if the
handler has been entered. A new process gets no id that a job of the list has. -/
def Kernel.Allowed (k : Kernel) : KernelAction → Prop
  | .change pid _ => (k.waiting.filter (·.1 ≠ pid)).length ≤ k.entered.toNat
  | .main world | .round world =>
      ∀ jobid ∈ k.m.s.nodes, (k.m.s.job jobid).pgid ≠ world.pid k.m.s.forks
  | .line _ _ _ => True
  | .deliver => True
  | .wait _ _ => True

instance (k : Kernel) : (action : KernelAction) → Decidable (k.Allowed action)
  | .change _ _ => inferInstanceAs (Decidable (_ ≤ k.entered.toNat))
  | .main _ | .round _ => inferInstanceAs (Decidable (∀ jobid ∈ k.m.s.nodes, _ ≠ _))
  | .line _ _ _ => .isTrue trivial
  | .deliver => .isTrue trivial
  | .wait _ _ => .isTrue trivial

variable {s s' : Spooler} {world : World} {jobid id : Nat}

/-- Nothing that is asked of other jobs changes. -/
structure Spooler.Reported (s s' : Spooler) (jobid : Nat) : Prop where
  nodes : s'.nodes = s.nodes
  groups : ∀ other, (s'.job other).pgid = (s.job other).pgid
  others : ∀ other, other ≠ jobid → (s'.job other).status = (s.job other).status

theorem Talks.reported (talks : Talks s s') (jobid : Nat) : s.Reported s' jobid := by
  obtain ⟨messages, rfl⟩ := talks
  exact ⟨rfl, fun _ => rfl, fun _ _ => rfl⟩

theorem changeStatus_reported (world : World) (jobid : Nat) (status : JobStatus) (s : Spooler) :
    s.Reported (changeStatus world jobid status s) jobid := by
  rw [changeStatus_eq]
  constructor
  · rfl
  · intro other
    by_cases same : other = jobid
    · simp [same]
    · simp [same]
  · intro other different
    simp [different]

theorem changeStatus_status (world : World) (jobid : Nat) (status : JobStatus) (s : Spooler) :
    ((changeStatus world jobid status s).job jobid).status = status := by
  rw [changeStatus_eq]
  simp

theorem InOrder.reported {change : World → Nat → Spooler → Spooler} (inOrder : InOrder change)
    (world : World) (jobid : Nat) (s : Spooler) : s.Reported (change world jobid s) jobid := by
  rcases inOrder world jobid s with talks | ⟨status, -, changed⟩
  · exact talks.reported jobid
  · rw [changed]
    exact changeStatus_reported world jobid status s

/-- The functions that leave a job in another status than RUNNING. -/
def Ending (change : World → Nat → Spooler → Spooler) : Prop :=
  ∀ world jobid s, ((change world jobid s).job jobid).status ≠ .running

theorem ending_pauseJob : Ending pauseJob := by
  intro world jobid s
  unfold pauseJob
  split
  · simp [changeStatus_status]
  · rename_i other
    exact other

theorem ending_completeJob : Ending completeJob := by
  intro world jobid s
  unfold completeJob
  split
  · simp [changeStatus_status]
  · rename_i other
    exact other

theorem ending_abortJob : Ending abortJob := by
  intro world jobid s
  unfold abortJob
  split
  · simp [changeStatus_status]
  · rename_i other
    rw [not_or] at other
    exact other.1

theorem freePrinter_nodes (name : Text) (s : Spooler) : (freePrinter name s).nodes = s.nodes := by
  unfold freePrinter
  split <;> rfl

/-- What the handler has done to the job that it has found, before it runs others. -/
structure Entered (s s' : Spooler) (pid : Int) (status : ChildStatus) (nodes : Option (List Nat))
    (found : Nat) : Prop where
  listed : found ∈ s.nodes
  group : (s.job found).pgid = pid
  reported : s.Reported s' found
  left : status ≠ .continued → (s'.job found).status ≠ .running
  loop : ∀ jobid ∈ nodes.getD [], jobid ∈ s.nodes

theorem finishJob_entered {finish : World → Nat → Spooler → Spooler} {pid : Int}
    {status : ChildStatus} {nodes : Option (List Nat)} (inOrder : InOrder finish)
    (ending : Ending finish) (ran : finishJob world finish pid s = some (s', nodes)) :
    ∃ found, Entered s s' pid status nodes found := by
  simp only [finishJob, Option.bind_eq_bind, Option.bind_eq_some_iff] at ran
  obtain ⟨found, lookup, freed, release, ran⟩ := ran
  cases ran
  obtain ⟨id, -, rfl⟩ := Option.map_eq_some_iff.mp release
  obtain ⟨listed, group⟩ := mem_nodes_of_getJobByPID lookup
  have reported := inOrder.reported world found s
  refine ⟨found, listed, group, ⟨?_, ?_, ?_⟩, ?_, ?_⟩
  · rw [freePrinter_nodes, reported.nodes]
  · rw [freePrinter_job]
    exact reported.groups
  · rw [freePrinter_job]
    exact reported.others
  · rw [freePrinter_job]
    exact fun _ => ending world found s
  · intro jobid member
    rw [← reported.nodes, ← freePrinter_nodes]
    exact member

theorem enterHandler_entered {pid : Int} {status : ChildStatus} {nodes : Option (List Nat)}
    (possible : status.Possible)
    (ran : enterHandler world (some (pid, status)) s = some (s', nodes)) :
    ∃ found, Entered s s' pid status nodes found := by
  cases status with
  | exited exitStatus =>
      match exitStatus, possible with
      | 0, _ => exact finishJob_entered inOrder_completeJob ending_completeJob ran
      | 1, _ => exact finishJob_entered inOrder_abortJob ending_abortJob ran
      | code + 2, possible => exact absurd possible (by simp [ChildStatus.Possible])
  | signaled => exact finishJob_entered inOrder_abortJob ending_abortJob ran
  | stopped =>
      obtain ⟨found, lookup, same⟩ := Option.map_eq_some_iff.mp ran
      cases same
      obtain ⟨listed, group⟩ := mem_nodes_of_getJobByPID lookup
      exact ⟨found, listed, group, inOrder_pauseJob.reported world found s,
        fun _ => ending_pauseJob world found s, by simp⟩
  | continued =>
      obtain ⟨found, lookup, same⟩ := Option.map_eq_some_iff.mp ran
      cases same
      obtain ⟨listed, group⟩ := mem_nodes_of_getJobByPID lookup
      exact ⟨found, listed, group, inOrder_resumeJob.reported world found s,
        fun other => absurd rfl other, by simp⟩

/-- Jobs are as they were, or new; no RUNNING job leaves the list, and no process is forked. -/
structure Spooler.Calm (s s' : Spooler) : Prop where
  jobs : ∀ jobid, (s'.job jobid).status = (s.job jobid).status ∧
      (s'.job jobid).pgid = (s.job jobid).pgid ∨
    (s'.job jobid).status = .queued ∧ (s'.job jobid).pgid = 0
  listed : ∀ jobid ∈ s'.nodes, jobid ∈ s.nodes ∨ (s'.job jobid).pgid = 0
  kept : ∀ jobid ∈ s.nodes, (s.job jobid).status = .running → jobid ∈ s'.nodes
  events : ∃ added, s'.events = s.events ++ added ∧ added.filterMap Event.forkedPid = []

theorem Spooler.Quiet.calm (quiet : s.Quiet s') : s.Calm s' := by
  obtain ⟨added, events, silent⟩ := quiet.silent
  constructor
  · intro jobid
    rw [quiet.jobs]
    exact .inl ⟨rfl, rfl⟩
  · intro jobid member
    rw [quiet.nodes] at member
    exact .inl member
  · intro jobid member _
    rw [quiet.nodes]
    exact member
  · refine ⟨added, events, ?_⟩
    rw [List.filterMap_eq_nil_iff]
    intro event member
    have quietly := silent event member
    cases event <;> simp_all [Event.silent, Event.forkedPid]

theorem Spooler.Calm.refl (s : Spooler) : s.Calm s := (Talks.refl s).quiet.calm

theorem calm_of_same {added : List Event} (statuses : ∀ jobid, (s'.job jobid).status = (s.job jobid).status)
    (groups : ∀ jobid, (s'.job jobid).pgid = (s.job jobid).pgid) (nodes : s'.nodes = s.nodes)
    (events : s'.events = s.events ++ added) (unforked : added.filterMap Event.forkedPid = []) :
    s.Calm s' := by
  constructor
  · exact fun jobid => .inl ⟨statuses jobid, groups jobid⟩
  · intro jobid member
    rw [nodes] at member
    exact .inl member
  · intro jobid member _
    rw [nodes]
    exact member
  · exact ⟨added, events, unforked⟩

theorem calm_setJob {job : Job} (status : job.status = (s.job jobid).status)
    (group : job.pgid = (s.job jobid).pgid) : s.Calm (s.setJob jobid job) := by
  have same : ∀ other, ((s.setJob jobid job).job other).status = (s.job other).status ∧
      ((s.setJob jobid job).job other).pgid = (s.job other).pgid := by
    intro other
    by_cases here : other = jobid
    · simp [Spooler.setJob, here, status, group]
    · simp [Spooler.setJob, here]
  exact calm_of_same (fun other => (same other).1) (fun other => (same other).2) rfl
    (List.append_nil _).symm rfl

theorem Spooler.Calm.emit {event : Event} (calm : s.Calm s') (unforked : event.forkedPid = none) :
    s.Calm (s'.emit event) := by
  obtain ⟨added, events, before⟩ := calm.events
  refine ⟨calm.jobs, calm.listed, calm.kept, added ++ [event], ?_, ?_⟩
  · rw [Spooler.emit, events, List.append_assoc]
  · rw [List.filterMap_append, before]
    simp [unforked]

theorem Spooler.Calm.talks {s'' : Spooler} (calm : s.Calm s') (talks : Talks s' s'') : s.Calm s'' := by
  obtain ⟨messages, rfl⟩ := talks
  obtain ⟨added, events, unforked⟩ := calm.events
  refine ⟨calm.jobs, calm.listed, calm.kept, added ++ messages.map .message, ?_, ?_⟩
  · rw [events, List.append_assoc]
  · rw [List.filterMap_append, unforked, List.filterMap_eq_nil_iff.mpr]
    · rfl
    · intro event member
      obtain ⟨message, -, rfl⟩ := List.mem_map.mp member
      rfl

theorem Spooler.Calm.newJob (calm : s.Calm s') (world : World) (name type : Text) (set : BitVec 32) :
    s.Calm (newJob world name type 0 set s') := by
  unfold Imprimer.newJob addJob
  refine ⟨?_, ?_, ?_, calm.events⟩
  · intro jobid
    by_cases new : jobid = s'.jobCount
    · simp [new]
    · simpa [new] using calm.jobs jobid
  · intro jobid member
    by_cases new : jobid = s'.jobCount
    · simp [new]
    · have old : jobid ∈ s'.nodes := by simpa [new] using member
      simpa [new] using calm.listed jobid old
  · intro jobid member running
    exact List.mem_append_left _ (calm.kept jobid member running)

/-- Jobs that are RUNNING do not expire. -/
theorem removeJobs_calm (world : World) (s : Spooler) : s.Calm (removeJobs world s) := by
  obtain ⟨left, inside, kept, removed⟩ := removeJobs_eq world s
  rw [removed]
  constructor
  · exact fun _ => .inl ⟨rfl, rfl⟩
  · exact fun _ member => .inl (inside member)
  · exact fun jobid member running => kept jobid member (not_expired_of_active (.inl running))
  · exact ⟨[], (List.append_nil _).symm, rfl⟩

/-- The program stays calm, or a job is started besides. -/
def Goes (world : World) (s s' : Spooler) : Prop :=
  s.Calm s' ∨ ∃ s₁ file jobid id, s.Calm s₁ ∧ jobid ∈ s₁.nodes ∧ 0 < world.pid s.forks ∧
    s₁.forks = s.forks ∧ s' = s₁.started world file jobid id

theorem startJob_goes {s₁ : Spooler} {file : Text} (calm : s.Calm s₁) (forks : s₁.forks = s.forks)
    (member : jobid ∈ s₁.nodes) (ran : startJob world file jobid s₁ = some s') : Goes world s s' := by
  rcases startJob_cases ran with talks | ⟨id, -, positive, started⟩
  · exact .inl (calm.talks talks)
  · rw [forks] at positive
    exact .inr ⟨s₁, file, jobid, id, calm, member, positive, forks, started⟩

theorem runRound_goes (member : jobid ∈ s.nodes) (ran : runRound world jobid s = some s') :
    Goes world s s' ∧ s'.nodes = s.nodes := by
  unfold runRound at ran
  split at ran
  · exact ⟨startJob_goes (Spooler.Calm.refl s) rfl member ran, startJob_nodes ran⟩
  · cases ran
    exact ⟨.inl (Spooler.Calm.refl s), rfl⟩

/-- A statement leaves the jobs alone, or sets one RUNNING that is pending from then on, or forks for
the job that is pending. -/
def Moves (world : World) (m m' : Machine) : Prop :=
  m.s.Calm m'.s ∧ m'.pc.pending = m.pc.pending ∨
  (∃ jobid ∈ m.s.nodes, m'.s = setStatus jobid .running m.s ∧ m.pc.pending = none ∧
    m'.pc.pending = some jobid) ∨
  ∃ file, ∃ jobid ∈ m.s.nodes, ∃ id, runJobProcess world file jobid id m.s = some m'.s ∧
    m.pc.pending = some jobid

/-- The jobs that the main program has still to look at are in the list. -/
def Machine.Looping (m : Machine) : Prop := ∀ jobid ∈ m.pc.jobs, jobid ∈ m.s.nodes

theorem afterCommand_looping (prompt : Bool) (s : Spooler) :
    Machine.Looping ⟨s, afterCommand prompt s⟩ := by
  cases prompt
  · simp [Machine.Looping, afterCommand, Pc.jobs]
  · exact fun _ member => member

theorem finish_looping {call : Call} (listed : ∀ jobid ∈ call.jobs, jobid ∈ s.nodes) :
    (Imprimer.finish call s).Looping := by
  unfold Imprimer.finish
  unfold Call.jobs at listed
  cases caller : call.caller with
  | print prompt => exact afterCommand_looping prompt s
  | runJobs nodes =>
      rw [caller] at listed
      exact fun jobid member => listed jobid (List.mem_cons_of_mem _ member)

theorem afterCommand_pending (prompt : Bool) (s : Spooler) : (afterCommand prompt s).pending = none := by
  cases prompt <;> rfl

theorem finish_eq (call : Call) (s : Spooler) :
    (Imprimer.finish call s).s = s ∧ (Imprimer.finish call s).pc.pending = none := by
  unfold Imprimer.finish
  split
  · exact ⟨rfl, afterCommand_pending _ _⟩
  · exact ⟨rfl, rfl⟩

variable {m next : Machine}

theorem readLine_calm {prompt : Bool} {input : Text}
    (ran : readLine world prompt input s = some next) :
    s.Calm next.s ∧ next.pc.pending = none ∧ next.Looping := by
  rcases readLine_cases ran with
    ⟨file, printers, after, job, made, ended⟩ | ⟨command, after, other, executed, rfl⟩
  · rcases newPrintJob_cases made with
      ⟨talks, rfl⟩ | ⟨before, name, type, set, talks, rfl, rfl⟩
    · rcases ended with ⟨-, rfl⟩ | ⟨jobid, made, -⟩
      · exact ⟨talks.quiet.calm, afterCommand_pending _ _, afterCommand_looping _ _⟩
      · cases made
    · rcases ended with ⟨made, -⟩ | ⟨jobid, made, rfl⟩
      · cases made
      · cases made
        refine ⟨talks.quiet.calm.newJob world name type set, rfl, ?_⟩
        simp [Machine.Looping, Pc.jobs, Call.jobs, newJob, addJob]
  · exact ⟨Spooler.Quiet.calm (execute_quiet other executed), afterCommand_pending _ _,
      afterCommand_looping _ _⟩

theorem startStep_moves {call : Call} {name : Text} {stage : Stage}
    (listed : ∀ jobid ∈ call.jobs, jobid ∈ s.nodes)
    (ran : startStep world call name id s stage = some next) :
    Moves world ⟨s, .start call name id stage⟩ next ∧ next.Looping := by
  have member : call.jobid ∈ s.nodes := listed call.jobid (List.mem_cons_self ..)
  cases stage with
  | status =>
      cases ran
      exact ⟨.inr (.inl ⟨call.jobid, member, rfl, rfl, rfl⟩), listed⟩
  | chosen =>
      cases ran
      refine ⟨.inl ⟨?_, rfl⟩, listed⟩
      apply Spooler.Calm.emit _ rfl
      apply calm_setJob
      · rfl
      · rfl
  | time =>
      cases ran
      refine ⟨.inl ⟨?_, rfl⟩, listed⟩
      apply calm_setJob
      · rfl
      · rfl
  | message =>
      cases ran
      exact ⟨.inl ⟨(talks_jobMessage _ _).quiet.calm, rfl⟩, listed⟩
  | mark =>
      simp only [startStep] at ran
      split at ran
      · cases ran
        exact ⟨.inl ⟨(talks_errorMessage _ _).quiet.calm, rfl⟩, listed⟩
      · cases ran
        exact ⟨.inl ⟨calm_of_same (fun _ => rfl) (fun _ => rfl) rfl rfl rfl, rfl⟩, listed⟩
  | marked =>
      cases ran
      exact ⟨.inl ⟨(talks_printerMessage _ _).quiet.calm, rfl⟩, listed⟩
  | process =>
      obtain ⟨after, forked, rfl⟩ := Option.map_eq_some_iff.mp ran
      have nodes : after.nodes = s.nodes := by
        unfold runJobProcess at forked
        dsimp only at forked
        split at forked
        · cases forked
          rfl
        · cases forked
      constructor
      · refine .inr (.inr ⟨call.file, call.jobid, member, id, ?_, rfl⟩)
        rw [(finish_eq call after).1]
        exact forked
      · apply finish_looping
        rw [nodes]
        exact listed

/-- A statement outside of `runJob`, or the tests of `runJob`. -/
theorem mainStep_moves (looping : m.Looping) (ran : mainStep world m = some next) :
    Moves world m next ∧ next.Looping := by
  obtain ⟨s, pc⟩ := m
  have calm := Spooler.Calm.refl s
  have finished : ∀ call : Call, (∀ jobid ∈ call.jobs, jobid ∈ s.nodes) → pc.pending = none →
      Moves world ⟨s, pc⟩ (Imprimer.finish call s) ∧ (Imprimer.finish call s).Looping := by
    intro call listed outside
    obtain ⟨same, returned⟩ := finish_eq call s
    refine ⟨.inl ⟨?_, returned.trans outside.symm⟩, finish_looping listed⟩
    rw [same]
    exact calm
  unfold mainStep at ran
  cases pc with
  | idle => cases ran
  | announce call =>
      cases ran
      exact ⟨.inl ⟨(talks_jobMessage _ _).quiet.calm, rfl⟩, looping⟩
  | lookup call =>
      dsimp only at ran
      split at ran
      · cases ran
        obtain ⟨same, returned⟩ :=
          finish_eq call (errorMessage "File type of job is not supported." s)
        refine ⟨.inl ⟨?_, returned⟩, finish_looping looping⟩
        rw [same]
        exact (talks_errorMessage _ _).quiet.calm
      · cases ran
        exact ⟨.inl ⟨calm, rfl⟩, looping⟩
  | search call pass remaining =>
      cases remaining with
      | zero =>
          dsimp only at ran
          split at ran
          · cases ran
            exact ⟨.inl ⟨calm, rfl⟩, looping⟩
          · cases ran
            exact finished call looping rfl
      | succ remaining =>
          simp only [Option.bind_eq_bind, Option.bind_eq_some_iff] at ran
          obtain ⟨good, -, ran⟩ := ran
          cases good with
          | true =>
              cases ran
              exact ⟨.inl ⟨calm, rfl⟩, looping⟩
          | false =>
              cases ran
              exact ⟨.inl ⟨calm, rfl⟩, looping⟩
  | find call name =>
      dsimp only at ran
      split at ran
      · cases ran
        exact finished call looping rfl
      · cases ran
        exact ⟨.inl ⟨calm, rfl⟩, looping⟩
  | check call name id =>
      dsimp only at ran
      split at ran
      · cases ran
        exact finished call looping rfl
      · cases ran
        exact ⟨.inl ⟨calm, rfl⟩, looping⟩
  | start call name id stage => exact startStep_moves looping ran
  | test nodes =>
      cases nodes with
      | nil =>
          cases ran
          exact ⟨.inl ⟨calm, rfl⟩, by simp [Machine.Looping, Pc.jobs]⟩
      | cons jobid nodes =>
          dsimp only at ran
          split at ran
          · cases ran
            exact ⟨.inl ⟨calm, rfl⟩, looping⟩
          · cases ran
            refine ⟨.inl ⟨calm, rfl⟩, ?_⟩
            exact fun other member => looping other (List.mem_cons_of_mem _ member)
  | remove =>
      cases ran
      exact ⟨.inl ⟨removeJobs_calm world s, rfl⟩, by simp [Machine.Looping, Pc.jobs]⟩

/-- RUNNING jobs are in the list, jobs of the list have different processes, and the process of a
RUNNING job that is not `waiting` to be forked for has not terminated, or that has still to be
reported. -/
structure Tracked (s : Spooler) (live : List Int) (unreported : List (Int × ChildStatus))
    (waiting : Option Nat) : Prop where
  listed : ∀ jobid, (s.job jobid).status = .running → jobid ∈ s.nodes
  apart : ∀ i ∈ s.nodes, ∀ j ∈ s.nodes, 0 < (s.job i).pgid → (s.job i).pgid = (s.job j).pgid → i = j
  running : ∀ jobid, (s.job jobid).status = .running → waiting ≠ some jobid →
    (s.job jobid).pgid ∈ live ∨
      ∃ status : ChildStatus, status.Terminal ∧ ((s.job jobid).pgid, status) ∈ unreported

variable {live : List Int} {unreported : List (Int × ChildStatus)} {waiting waiting' : Option Nat}

theorem tracked_init : Tracked Spooler.init [] [] none := by
  constructor <;> simp [Spooler.init, default]

theorem Tracked.calm (tracked : Tracked s live unreported waiting) (calm : s.Calm s') :
    Tracked s' live unreported waiting := by
  have was : ∀ jobid, (s'.job jobid).status = .running →
      (s.job jobid).status = .running ∧ (s'.job jobid).pgid = (s.job jobid).pgid := by
    intro jobid running
    rcases calm.jobs jobid with ⟨status, group⟩ | ⟨queued, -⟩
    · rw [status] at running
      exact ⟨running, group⟩
    · rw [queued] at running
      cases running
  have old : ∀ jobid ∈ s'.nodes, 0 < (s'.job jobid).pgid →
      jobid ∈ s.nodes ∧ (s'.job jobid).pgid = (s.job jobid).pgid := by
    intro jobid member positive
    constructor
    · rcases calm.listed jobid member with before | zero
      · exact before
      · omega
    · rcases calm.jobs jobid with ⟨-, group⟩ | ⟨-, zero⟩
      · exact group
      · omega
  constructor
  · intro jobid running
    have before := (was jobid running).1
    exact calm.kept jobid (tracked.listed jobid before) before
  · intro i listed j other positive same
    obtain ⟨listedI, groupI⟩ := old i listed positive
    obtain ⟨listedJ, groupJ⟩ := old j other (by omega)
    apply tracked.apart i listedI j listedJ
    · omega
    · omega
  · intro jobid running forked
    obtain ⟨before, group⟩ := was jobid running
    rw [group]
    exact tracked.running jobid before forked

/-- The first statement of `runJob` after its tests. -/
theorem Tracked.setStatus (tracked : Tracked s live unreported none) (member : jobid ∈ s.nodes) :
    Tracked (setStatus jobid .running s) live unreported (some jobid) := by
  have groups : ∀ other, ((Imprimer.setStatus jobid .running s).job other).pgid =
      (s.job other).pgid := by
    intro other
    by_cases same : other = jobid
    · simp [Imprimer.setStatus, Spooler.setJob, Spooler.emit, same]
    · simp [Imprimer.setStatus, Spooler.setJob, Spooler.emit, same]
  have others : ∀ other, other ≠ jobid →
      (Imprimer.setStatus jobid .running s).job other = s.job other := by
    intro other different
    simp [Imprimer.setStatus, Spooler.setJob, Spooler.emit, different]
  constructor
  · intro other running
    by_cases same : other = jobid
    · rw [same]
      exact member
    · rw [others other same] at running
      exact tracked.listed other running
  · intro i listed j other
    rw [groups, groups]
    exact tracked.apart i listed j other
  · intro other running forked
    have different : other ≠ jobid := fun same => forked (congrArg some same.symm)
    rw [others other different] at running ⊢
    exact tracked.running other running (by simp)

/-- A job has been given a new process. -/
theorem Tracked.given {pid : Int} (tracked : Tracked s live unreported waiting)
    (member : jobid ∈ s.nodes) (nodes : s'.nodes = s.nodes) (here : (s'.job jobid).pgid = pid)
    (others : ∀ other, other ≠ jobid → s'.job other = s.job other)
    (fresh : ∀ other ∈ s.nodes, (s.job other).pgid ≠ pid)
    (left : ∀ other, waiting = some other → other = jobid ∨ waiting' = some other) :
    Tracked s' (pid :: live) unreported waiting' := by
  constructor
  · intro other running
    rw [nodes]
    by_cases same : other = jobid
    · rw [same]
      exact member
    · rw [others other same] at running
      exact tracked.listed other running
  · intro i listed j other positive same
    rw [nodes] at listed other
    by_cases first : i = jobid
    · by_cases second : j = jobid
      · rw [first, second]
      · rw [first, here, others j second] at same
        exact absurd same.symm (fresh j other)
    · by_cases second : j = jobid
      · rw [second, here, others i first] at same
        exact absurd same (fresh i listed)
      · rw [others i first] at positive
        rw [others i first, others j second] at same
        exact tracked.apart i listed j other positive same
  · intro other running forked
    by_cases same : other = jobid
    · rw [same, here]
      exact .inl (List.mem_cons_self ..)
    · rw [others other same] at running ⊢
      have before : waiting ≠ some other := by
        intro now
        rcases left other now with now | now
        · exact same now
        · exact forked now
      rcases tracked.running other running before with alive | reported
      · exact .inl (List.mem_cons_of_mem _ alive)
      · exact .inr reported

theorem Tracked.started {file : Text} (tracked : Tracked s live unreported waiting)
    (member : jobid ∈ s.nodes)
    (fresh : ∀ other ∈ s.nodes, (s.job other).pgid ≠ world.pid s.forks) :
    Tracked (s.started world file jobid id) (world.pid s.forks :: live) unreported waiting := by
  refine tracked.given member rfl ?_ ?_ fresh (fun _ now => .inr now)
  · simp [Spooler.started]
  · intro other different
    simp [Spooler.started, different]

theorem runJobProcess_eq {file : Text} (forked : runJobProcess world file jobid id s = some s') :
    0 < world.pid s.forks ∧
      s' = ({ s with forks := s.forks + 1 }.setJob jobid
        { s.job jobid with pgid := world.pid s.forks }).emit
          (.forked jobid file id (world.pid s.forks)) := by
  unfold runJobProcess at forked
  dsimp only at forked
  split at forked
  · rename_i positive
    cases forked
    exact ⟨positive, rfl⟩
  · cases forked

theorem Tracked.process {file : Text} (tracked : Tracked s live unreported (some jobid))
    (member : jobid ∈ s.nodes)
    (fresh : ∀ other ∈ s.nodes, (s.job other).pgid ≠ world.pid s.forks)
    (forked : runJobProcess world file jobid id s = some s') :
    Tracked s' (world.pid s.forks :: live) unreported waiting' := by
  obtain ⟨-, rfl⟩ := runJobProcess_eq forked
  refine tracked.given member rfl ?_ ?_ fresh ?_
  · simp [Spooler.setJob, Spooler.emit]
  · intro other different
    simp [Spooler.setJob, Spooler.emit, different]
  · intro other now
    cases now
    exact .inl rfl

/-- The process of a job has changed. -/
theorem Tracked.changed {pid : Int} {status : ChildStatus}
    (tracked : Tracked s live unreported waiting) (alive : pid ∈ live) :
    Tracked s (if status.Terminal then live.filter (· ≠ pid) else live)
      ((pid, status) :: unreported.filter (·.1 ≠ pid)) waiting := by
  refine ⟨tracked.listed, tracked.apart, ?_⟩
  intro jobid running forked
  by_cases same : (s.job jobid).pgid = pid
  · by_cases terminal : status.Terminal
    · exact .inr ⟨status, terminal, by simp [same]⟩
    · rw [if_neg terminal, same]
      exact .inl alive
  · rcases tracked.running jobid running forked with alive | ⟨last, terminal, reported⟩
    · left
      split
      · simpa [same] using alive
      · exact alive
    · refine .inr ⟨last, terminal, List.mem_cons_of_mem _ ?_⟩
      simpa [same] using reported

/-- The handler has been told of the change of a process. -/
theorem Tracked.entered {pid : Int} {status : ChildStatus} {nodes : Option (List Nat)} {found : Nat}
    (tracked : Tracked s live unreported waiting) (entered : Entered s s' pid status nodes found)
    (positive : 0 < pid) (going : ¬ status.Terminal → pid ∈ live) :
    Tracked s' live (unreported.filter (·.1 ≠ pid)) waiting := by
  have reported := entered.reported
  have was : ∀ jobid, (s'.job jobid).status = .running → jobid ≠ found →
      (s.job jobid).status = .running := by
    intro jobid running different
    rw [← reported.others jobid different]
    exact running
  constructor
  · intro jobid running
    rw [reported.nodes]
    by_cases same : jobid = found
    · rw [same]
      exact entered.listed
    · exact tracked.listed jobid (was jobid running same)
  · intro i listed j other
    rw [reported.nodes] at listed other
    rw [reported.groups, reported.groups]
    exact tracked.apart i listed j other
  · intro jobid running forked
    rw [reported.groups]
    by_cases same : jobid = found
    · -- A job that is RUNNING after the report has been continued.
      left
      rw [same, entered.group]
      apply going
      rw [same] at running
      by_cases continued : status = .continued
      · rw [continued]
        exact fun terminal => terminal
      · exact absurd running (entered.left continued)
    · have before := was jobid running same
      have different : (s.job jobid).pgid ≠ pid := by
        intro equal
        apply same
        apply tracked.apart jobid (tracked.listed jobid before) found entered.listed
        · omega
        · rw [equal, entered.group]
      rcases tracked.running jobid before forked with alive | ⟨last, terminal, still⟩
      · exact .inl alive
      · refine .inr ⟨last, terminal, ?_⟩
        simpa [different] using still

theorem forkedPids_append {added : List Event} (events : s'.events = s.events ++ added) :
    forkedPids s s' = added.filterMap Event.forkedPid := by
  rw [forkedPids, events, List.drop_left]

theorem forkedPids_calm (calm : s.Calm s') : forkedPids s s' = [] := by
  obtain ⟨added, events, unforked⟩ := calm.events
  rw [forkedPids_append events, unforked]

theorem forkedPids_started {file : Text} (calm : s.Calm s') (forks : s'.forks = s.forks) :
    forkedPids s (s'.started world file jobid id) = [world.pid s.forks] := by
  obtain ⟨added, events, unforked⟩ := calm.events
  have more : (s'.started world file jobid id).events = s.events ++ (added ++
      [.status jobid .running, .given jobid id (s'.printer id).busy,
        .message (.job jobid { s'.job jobid with
          status := .running, chosenPrinter := some id, changeTime := world.now }),
        .marked id (s'.printer id).busy,
        .message (.printer id { s'.printer id with busy := true }),
        .forked jobid file id (world.pid s.forks)]) := by
    rw [← List.append_assoc, ← events, ← forks]
    rfl
  rw [forkedPids_append more, List.filterMap_append, unforked]
  rfl

/-- What holds whenever changes are allowed: no more changes wait than `waitpid` will still be called
for. -/
structure Kernel.Sound (k : Kernel) : Prop where
  counted : k.waiting.length ≤ k.pending.toNat + k.entered.toNat
  possible : ∀ change ∈ k.waiting, change.2.Possible
  going : ∀ change ∈ k.waiting, ¬ change.2.Terminal → change.1 ∈ k.live
  alive : ∀ pid ∈ k.live, 0 < pid
  waited : ∀ change ∈ k.waiting, 0 < change.1
  looping : k.m.Looping
  rounds : ∀ jobid ∈ k.handler.getD [], jobid ∈ k.m.s.nodes
  tracked : Tracked k.m.s k.live k.waiting k.m.pc.pending

theorem kernelSound_init : Kernel.init.Sound := by
  constructor
  · exact Nat.le_refl 0
  · simp [Kernel.init]
  · simp [Kernel.init]
  · simp [Kernel.init]
  · simp [Kernel.init]
  · simp [Kernel.init, Machine.init, Machine.Looping, Pc.jobs]
  · simp [Kernel.init]
  · exact tracked_init

variable {k k' : Kernel}

/-- The program has gone on with the processes it had, or with a new one. -/
theorem Kernel.Sound.goOn {m : Machine} (sound : k.Sound) (looping : m.Looping)
    (rounds : ∀ jobid ∈ k.handler.getD [], jobid ∈ m.s.nodes)
    (goes : forkedPids k.m.s m.s = [] ∧ Tracked m.s k.live k.waiting m.pc.pending ∨
      ∃ pid, 0 < pid ∧ forkedPids k.m.s m.s = [pid] ∧
        Tracked m.s (pid :: k.live) k.waiting m.pc.pending)
    (ran : k.goOn m = some k') : k'.Sound := by
  simp only [Kernel.goOn] at ran
  split at ran
  · cases ran
    rcases goes with ⟨none, tracked⟩ | ⟨pid, positive, one, tracked⟩
    · rw [none, List.nil_append]
      exact { sound with looping := looping, rounds := rounds, tracked := tracked }
    · rw [one, List.singleton_append]
      refine { sound with
        going := ?_, alive := ?_, looping := looping, rounds := rounds, tracked := tracked }
      · exact fun change here ongoing => List.mem_cons_of_mem _ (sound.going change here ongoing)
      · intro other here
        rcases List.mem_cons.mp here with rfl | old
        · exact positive
        · exact sound.alive other old
  · cases ran

theorem Kernel.handler_eq_none (idle : ¬ k.handling = true) : k.handler = none := by
  rw [Bool.not_eq_true] at idle
  exact Option.isNone_iff_eq_none.mp (by simpa using (Bool.or_eq_false_iff.mp idle).2)

theorem Kernel.Sound.line {m : Machine} {prompt : Bool} {input : Text} (sound : k.Sound)
    (idle : k.handler = none) (stepped : machineStep k.m (.line world prompt input) = some m)
    (ran : k.goOn m = some k') : k'.Sound := by
  simp only [machineStep] at stepped
  split at stepped
  · rename_i waits
    obtain ⟨calm, none, looping⟩ := readLine_calm stepped
    apply sound.goOn looping _ _ ran
    · simp [idle]
    · have tracked := sound.tracked
      rw [waits] at tracked
      rw [none]
      exact .inl ⟨forkedPids_calm calm, tracked.calm calm⟩
  · cases stepped

theorem Kernel.Sound.moves {m : Machine} (sound : k.Sound) (moves : Moves world k.m m)
    (looping : m.Looping) (idle : k.handler = none)
    (fresh : ∀ jobid ∈ k.m.s.nodes, (k.m.s.job jobid).pgid ≠ world.pid k.m.s.forks)
    (ran : k.goOn m = some k') : k'.Sound := by
  apply sound.goOn looping _ _ ran
  · simp [idle]
  · rcases moves with ⟨calm, same⟩ | ⟨jobid, member, set, none, one⟩ |
      ⟨file, jobid, member, id, forked, one⟩
    · left
      rw [same]
      exact ⟨forkedPids_calm calm, sound.tracked.calm calm⟩
    · left
      have tracked := sound.tracked
      rw [none] at tracked
      have events : (setStatus jobid .running k.m.s).events =
          k.m.s.events ++ [.status jobid .running] := rfl
      rw [one, set, forkedPids_append events]
      exact ⟨rfl, tracked.setStatus member⟩
    · right
      have tracked := sound.tracked
      rw [one] at tracked
      obtain ⟨positive, after⟩ := runJobProcess_eq forked
      have events : m.s.events =
          k.m.s.events ++ [.forked jobid file id (world.pid k.m.s.forks)] := by
        rw [after]
        rfl
      refine ⟨_, positive, ?_, tracked.process member fresh forked⟩
      rw [forkedPids_append events]
      rfl

theorem Kernel.Sound.round {nodes : List Nat} (sound : k.Sound)
    (inside : k.handler = some (jobid :: nodes))
    (fresh : ∀ jobid ∈ k.m.s.nodes, (k.m.s.job jobid).pgid ≠ world.pid k.m.s.forks)
    (ran : runRound world jobid k.m.s = some s')
    (went : Kernel.goOn { k with handler := some nodes } ⟨s', k.m.pc⟩ = some k') : k'.Sound := by
  have rounds := sound.rounds
  rw [inside] at rounds
  obtain ⟨goes, same⟩ := runRound_goes (rounds jobid (by simp)) ran
  have left : ∀ other ∈ nodes, other ∈ k.m.s.nodes :=
    fun other member => rounds other (List.mem_cons_of_mem _ member)
  have before : Kernel.Sound { k with handler := some nodes } := { sound with rounds := left }
  apply before.goOn _ _ _ went
  · intro other member
    rw [same]
    exact sound.looping other member
  · intro other member
    rw [same]
    exact left other member
  · rcases goes with calm | ⟨s₁, file, other, id, calm, member, positive, forks, rfl⟩
    · exact .inl ⟨forkedPids_calm calm, sound.tracked.calm calm⟩
    · have apart : ∀ other ∈ s₁.nodes, (s₁.job other).pgid ≠ world.pid s₁.forks := by
        intro other listed
        rw [forks]
        rcases calm.jobs other with ⟨-, group⟩ | ⟨-, zero⟩
        · rcases calm.listed other listed with old | zero
          · rw [group]
            exact fresh other old
          · omega
        · omega
      have tracked : Tracked (s₁.started world file other id) (world.pid s₁.forks :: k.live)
          k.waiting k.m.pc.pending := (sound.tracked.calm calm).started member apart
      rw [forks] at tracked
      exact .inr ⟨_, positive, forkedPids_started calm forks, tracked⟩

theorem Kernel.Sound.change {pid : Int} {status : ChildStatus} (sound : k.Sound)
    (alive : pid ∈ k.live) (possible : status.Possible)
    (room : (k.waiting.filter (·.1 ≠ pid)).length ≤ k.entered.toNat) :
    Kernel.Sound { k with
      live := if status.Terminal then k.live.filter (· ≠ pid) else k.live
      waiting := (pid, status) :: k.waiting.filter (·.1 ≠ pid)
      pending := true } := by
  have old : ∀ change ∈ k.waiting.filter (·.1 ≠ pid), change ∈ k.waiting ∧ change.1 ≠ pid := by
    intro change here
    simpa using here
  constructor
  · show (k.waiting.filter (·.1 ≠ pid)).length + 1 ≤ 1 + k.entered.toNat
    omega
  · intro change here
    rcases List.mem_cons.mp here with rfl | before
    · exact possible
    · exact sound.possible change (old change before).1
  · intro change here ongoing
    rcases List.mem_cons.mp here with rfl | before
    · rw [if_neg ongoing]
      exact alive
    · have still := sound.going change (old change before).1 ongoing
      split
      · exact List.mem_filter.mpr ⟨still, by simpa using (old change before).2⟩
      · exact still
  · intro other here
    split at here
    · exact sound.alive other (List.mem_filter.mp here).1
    · exact sound.alive other here
  · intro change here
    rcases List.mem_cons.mp here with rfl | before
    · exact sound.alive pid alive
    · exact sound.waited change (old change before).1
  · exact sound.looping
  · exact sound.rounds
  · exact sound.tracked.changed alive

theorem Kernel.Sound.deliver (sound : k.Sound) (pending : k.pending = true)
    (idle : k.handling = false) : Kernel.Sound { k with pending := false, entered := true } := by
  have outside : k.entered = false := (Bool.or_eq_false_iff.mp idle).1
  have counted := sound.counted
  rw [pending, outside] at counted
  exact { sound with counted := counted }

/-- `waitpid` has taken a change away. -/
theorem length_filter_lt_of_find? {pid : Int} {reported : Int × ChildStatus}
    (found : unreported.find? (·.1 = pid) = some reported) :
    (unreported.filter (·.1 ≠ pid)).length < unreported.length := by
  apply List.length_filter_lt_length_iff_exists.mpr
  refine ⟨reported, List.mem_of_find?_eq_some found, ?_⟩
  simpa using List.find?_some found

theorem Kernel.Sound.wait {pid : Int} {reported : Int × ChildStatus} {nodes : Option (List Nat)}
    (sound : k.Sound) (entered : k.entered = true)
    (found : k.waiting.find? (·.1 = pid) = some reported)
    (ran : enterHandler world (some reported) k.m.s = some (s', nodes)) :
    Kernel.Sound { k with
      m := ⟨s', k.m.pc⟩
      handler := nodes
      waiting := k.waiting.filter (·.1 ≠ pid)
      entered := false } := by
  have member := List.mem_of_find?_eq_some found
  have same : reported.1 = pid := by simpa using List.find?_some found
  obtain ⟨process, status⟩ := reported
  cases same
  have old : ∀ change ∈ k.waiting.filter (·.1 ≠ process), change ∈ k.waiting :=
    fun change here => (List.mem_filter.mp here).1
  obtain ⟨job, done⟩ := enterHandler_entered (sound.possible _ member) ran
  constructor
  · have counted := sound.counted
    have fewer : (k.waiting.filter (·.1 ≠ process)).length < k.waiting.length :=
      length_filter_lt_of_find? found
    rw [entered] at counted
    simp only [Bool.toNat_true, Bool.toNat_false] at counted ⊢
    omega
  · exact fun change here => sound.possible change (old change here)
  · exact fun change here => sound.going change (old change here)
  · exact sound.alive
  · exact fun change here => sound.waited change (old change here)
  · intro jobid left
    rw [done.reported.nodes]
    exact sound.looping jobid left
  · intro jobid left
    rw [done.reported.nodes]
    exact done.loop jobid left
  · exact sound.tracked.entered done (sound.waited _ member) (sound.going _ member)

/-- Without a change to report the handler returns at once. -/
theorem Kernel.Sound.waitNone (sound : k.Sound) (empty : k.waiting = []) :
    Kernel.Sound { k with handler := none, entered := false } := by
  refine { sound with counted := ?_, rounds := ?_ }
  · simp [empty]
  · simp

theorem kernelStep_sound {action : KernelAction} (sound : k.Sound) (allowed : k.Allowed action)
    (ran : kernelStep k action = some k') : k'.Sound := by
  cases action with
  | line world prompt input =>
      simp only [kernelStep] at ran
      split at ran
      · cases ran
      · rename_i idle
        obtain ⟨m, stepped, ran⟩ := Option.bind_eq_some_iff.mp ran
        exact sound.line (Kernel.handler_eq_none idle) stepped ran
  | main world =>
      simp only [kernelStep] at ran
      split at ran
      · cases ran
      · rename_i idle
        obtain ⟨m, stepped, ran⟩ := Option.bind_eq_some_iff.mp ran
        obtain ⟨moves, looping⟩ := mainStep_moves sound.looping stepped
        exact sound.moves moves looping (Kernel.handler_eq_none idle) allowed ran
  | round world =>
      simp only [kernelStep] at ran
      split at ran
      · cases ran
      · cases ran
        exact { sound with rounds := by simp }
      · rename_i jobid nodes inside
        obtain ⟨s', ran, went⟩ := Option.bind_eq_some_iff.mp ran
        exact sound.round inside allowed ran went
  | change pid status =>
      simp only [kernelStep] at ran
      split at ran
      · rename_i can
        cases ran
        exact sound.change can.1 can.2 allowed
      · cases ran
  | deliver =>
      simp only [kernelStep] at ran
      split at ran
      · rename_i can
        cases ran
        exact sound.deliver can.1 can.2
      · cases ran
  | wait world pid =>
      cases pid with
      | none =>
          simp only [kernelStep] at ran
          split at ran
          · rename_i can
            cases ran
            exact sound.waitNone can.2
          · cases ran
      | some pid =>
          by_cases entered : k.entered = true
          · simp only [kernelStep, if_pos entered, Option.bind_eq_bind] at ran
            obtain ⟨reported, found, ran⟩ := Option.bind_eq_some_iff.mp ran
            obtain ⟨⟨s', nodes⟩, handled, ran⟩ := Option.bind_eq_some_iff.mp ran
            cases ran
            exact sound.wait entered found handled
          · simp only [kernelStep, if_neg entered] at ran
            cases ran

/-- Changes that come when `waitpid` will be called often enough are all reported. -/
theorem nothingLost_of_allowed (reached : Runs.Reachable kernelStep Kernel.Allowed .init k) :
    k.NothingLost := by
  have sound := reached.invariant Kernel.Sound kernelSound_init
    (fun _ _ _ sound allowed ran => kernelStep_sound sound allowed ran)
  intro pending idle
  have outside : k.entered = false := (Bool.or_eq_false_iff.mp idle).1
  have counted := sound.counted
  rw [pending, outside] at counted
  have empty : k.waiting = [] := List.eq_nil_of_length_eq_zero (Nat.le_zero.mp counted)
  refine ⟨empty, ?_⟩
  intro jobid running forked
  rcases sound.tracked.running jobid running forked with alive | ⟨status, -, reported⟩
  · exact alive
  · rw [empty] at reported
    cases reported

def kernelBatch (lines : List String) : List KernelAction :=
  lines.map fun input => .line quietWorld false input.toList

/-- A job is printed by `count` statements of the main program. -/
def kernelPrint (line : String) (count : Nat) : List KernelAction :=
  kernelBatch [line] ++ List.replicate count (.main quietWorld)

/-- The handler is entered, is told of a process and runs `runJobs` over `count` jobs. -/
def handled (pid : Int) (count : Nat) : List KernelAction :=
  [.deliver, .wait quietWorld (some pid)] ++ List.replicate (count + 1) (.round quietWorld)

theorem Kernel.allowed_of_decide (k : Kernel) (action : KernelAction)
    (passes : decide (k.Allowed action) = true) : k.Allowed action :=
  of_decide_eq_true passes

/-- A job is stopped, continued and done, and the handler is told each time. -/
def reportedJob : List KernelAction :=
  kernelBatch ["type txt", "printer p txt", "enable p"] ++ kernelPrint "print a.txt" 12 ++
    [.change 100 .stopped, .deliver, .wait quietWorld (some 100),
      .change 100 .continued, .deliver, .wait quietWorld (some 100),
      .change 100 (.exited 0)] ++ handled 100 1

theorem nothingLost_example : ∃ k, Runs.Reachable kernelStep Kernel.Allowed Kernel.init k ∧
    k.NothingLost ∧ k.pending = false ∧ k.handling = false ∧
    history k.m.s.events 0 = [.queued, .running, .paused, .running, .completed] := by
  obtain ⟨final, -, reached, passed⟩ := @Runs.exists_reachable _ _ kernelStep _ Kernel.init
    reportedJob _ Kernel.allowed_of_decide (by decide +kernel) (fun k => !k.pending && !k.handling &&
      history k.m.s.events 0 = [.queued, .running, .paused, .running, .completed])
    (by decide +kernel)
  simp only [Bool.and_eq_true, Bool.not_eq_true', decide_eq_true_eq] at passed
  exact ⟨final, reached, nothingLost_of_allowed reached, passed.1.1, passed.1.2, passed.2⟩

/-- Two jobs are done before the handler runs: it is told of the first, and no signal is left for
the second, which stays RUNNING with its printer. -/
theorem loses_a_change :
    ¬ ∀ k, Runs.Reachable kernelStep Runs.Any Kernel.init k → k.NothingLost := by
  apply Runs.not_forall_reachable (kernelBatch ["type txt", "printer p txt", "enable p",
      "printer q txt", "enable q"] ++ kernelPrint "print a.txt" 12 ++ kernelPrint "print b.txt" 13 ++
      [.change 100 (.exited 0), .change 101 (.exited 0)] ++ handled 100 2) (Runs.follows_any _)
    (fun k => !k.pending && !k.handling && k.waiting = [(101, .exited 0)] &&
      (k.m.s.job 1).status = .running && k.live = [] && (k.m.s.printer 1).busy)
  · decide +kernel
  · intro k lost nothing
    simp only [Bool.and_eq_true, Bool.not_eq_true', decide_eq_true_eq] at lost
    have empty := (nothing lost.1.1.1.1.1 lost.1.1.1.1.2).1
    rw [lost.1.1.1.2] at empty
    cases empty

end Audible.Imprimer
