import Audible.PrinterStarts

set_option autoImplicit false

/- Every job is started once, as long as the handler does not run between the tests of `runJob`
and what they protect. -/
namespace Audible.Imprimer

variable {m next : Machine} {s s' : Spooler} {world : World} {jobid id : Nat}

/-- The jobs that the main program has still to look at. -/
def Call.jobs (call : Call) : List Nat :=
  call.jobid :: match call.caller with
    | .print _ => []
    | .runJobs nodes => nodes

def Pc.jobs : Pc → List Nat
  | .idle => []
  | .announce call => call.jobs
  | .lookup call => call.jobs
  | .search call _ _ => call.jobs
  | .find call _ => call.jobs
  | .check call _ _ => call.jobs
  | .start call _ _ _ => call.jobs
  | .test nodes => nodes
  | .remove => []

/-- The printer `runJob` works with, and its name. -/
def Pc.target : Pc → Option (Text × Nat)
  | .check _ name id => some (name, id)
  | .start _ name id _ => some (name, id)
  | _ => none

def Pc.unstarted : Pc → Option Nat
  | .start call _ _ .status => some call.jobid
  | _ => none

/-- A printer that has been found idle and is not marked yet. -/
def Pc.reserved : Pc → Option Nat
  | .start _ _ _ .marked => none
  | .start _ _ _ .process => none
  | .start _ _ id _ => some id
  | _ => none

structure Machine.Guarded (m : Machine) : Prop where
  recorded : Recorded m.s m.pc.pending
  known : ∀ jobid ∈ m.pc.jobs, jobid < m.s.jobCount
  target : ∀ name id, m.pc.target = some (name, id) → getPrinter m.s name = some id
  queued : ∀ jobid, m.pc.unstarted = some jobid → (m.s.job jobid).status = .queued
  idle : ∀ id, m.pc.reserved = some id → (m.s.printer id).busy = false

theorem Machine.Guarded.startedOnce (guarded : m.Guarded) : m.StartedOnce :=
  ⟨fun jobid => (guarded.recorded.jobs jobid).path, fun jobid => (guarded.recorded.jobs jobid).current,
    fun jobid => (guarded.recorded.jobs jobid).unforked,
    fun jobid => (guarded.recorded.jobs jobid).forked, guarded.recorded.apart⟩

theorem guarded_init : Machine.init.Guarded :=
  ⟨recorded_init, by simp [Machine.init, Pc.jobs], by simp [Machine.init, Pc.target],
    by simp [Machine.init, Pc.unstarted], by simp [Machine.init, Pc.reserved]⟩

/-- Outside of `runJob` only the list of jobs matters. -/
theorem guarded_outside {pc : Pc} (recorded : Recorded s none)
    (known : ∀ jobid ∈ pc.jobs, jobid < s.jobCount) (pending : pc.pending = none)
    (target : pc.target = none) (unstarted : pc.unstarted = none) (reserved : pc.reserved = none) :
    Machine.Guarded ⟨s, pc⟩ := by
  refine ⟨by rw [pending]; exact recorded, known, ?_, ?_, ?_⟩
  · simp [target]
  · simp [unstarted]
  · simp [reserved]

theorem afterCommand_guarded {prompt : Bool} (recorded : Recorded s none) :
    Machine.Guarded ⟨s, afterCommand prompt s⟩ := by
  cases prompt with
  | true => exact guarded_outside recorded recorded.listed rfl rfl rfl rfl
  | false => exact guarded_outside recorded (by simp [afterCommand, Pc.jobs]) rfl rfl rfl rfl

theorem finish_guarded {call : Call} (recorded : Recorded s none)
    (known : ∀ jobid ∈ call.jobs, jobid < s.jobCount) : (finish call s).Guarded := by
  unfold finish
  unfold Call.jobs at known
  cases caller : call.caller with
  | print prompt => exact afterCommand_guarded recorded
  | runJobs nodes =>
      rw [caller] at known
      exact guarded_outside recorded (fun jobid member => known jobid (List.mem_cons_of_mem _ member))
        rfl rfl rfl rfl

theorem newPrintJob_recorded {file : Text} {printers : Option Text} {job : Option Nat}
    (recorded : Recorded s none) (made : newPrintJob world file printers s = (s', job)) :
    Recorded s' none ∧ ∀ jobid, job = some jobid → jobid < s'.jobCount := by
  rcases newPrintJob_cases made with ⟨talks, rfl⟩ | ⟨before, name, type, set, talks, rfl, rfl⟩
  · exact ⟨talks.recorded recorded, by simp⟩
  · refine ⟨(talks.recorded recorded).addJob rfl rfl, ?_⟩
    intro jobid same
    cases same
    exact Nat.lt_succ_self _

/-- A line of input is one step, or its `print` has made a job that is announced next. -/
theorem readLine_cases {prompt : Bool} {input : Text}
    (ran : readLine world prompt input s = some next) :
    (∃ file printers after job, newPrintJob world file printers s = (after, job) ∧
      (job = none ∧ next = ⟨after, afterCommand prompt after⟩ ∨
        ∃ jobid, job = some jobid ∧ next = ⟨after, .announce ⟨.print prompt, file, jobid⟩⟩)) ∨
    ∃ command after, (∀ file printers, command ≠ .print file printers) ∧
      execute world command s = some after ∧ next = ⟨after, afterCommand prompt after⟩ := by
  unfold readLine at ran
  split at ran
  · rename_i file printers _
    simp only [Option.bind_eq_bind, Option.bind_eq_some_iff] at ran
    obtain ⟨file, -, ran⟩ := ran
    cases made : newPrintJob world file printers s with
    | mk after job =>
        rw [made] at ran
        refine .inl ⟨file, printers, after, job, made, ?_⟩
        cases job with
        | none =>
            cases ran
            exact .inl ⟨rfl, rfl⟩
        | some jobid =>
            cases ran
            exact .inr ⟨jobid, rfl, rfl⟩
  · rename_i other
    obtain ⟨after, executed, rfl⟩ := Option.map_eq_some_iff.mp ran
    exact .inr ⟨_, after, fun file printers => other file printers, executed, rfl⟩

theorem readLine_guarded {prompt : Bool} {input : Text} (recorded : Recorded s none)
    (ran : readLine world prompt input s = some next) : next.Guarded := by
  rcases readLine_cases ran with
    ⟨file, printers, after, job, made, ended⟩ | ⟨command, after, other, executed, rfl⟩
  · obtain ⟨kept, inside⟩ := newPrintJob_recorded recorded made
    rcases ended with ⟨rfl, rfl⟩ | ⟨jobid, rfl, rfl⟩
    · exact afterCommand_guarded kept
    · exact guarded_outside kept (by simpa [Pc.jobs, Call.jobs] using inside) rfl rfl rfl rfl
  · exact afterCommand_guarded (Spooler.Quiet.recorded (execute_quiet other executed) recorded)

theorem removeJobs_recorded (recorded : Recorded s none) : Recorded (removeJobs world s) none := by
  obtain ⟨left, inside, -, removed⟩ := removeJobs_eq world s
  rw [removed]
  exact recorded.quiet (List.append_nil _).symm (by simp) (fun _ => rfl) (fun _ => rfl) rfl
    fun _ member => inside member

/-- Within `runJob`, when no job is pending or reserved for any more. -/
theorem guarded_start {call : Call} {name : Text} {stage : Stage}
    (recorded : Recorded s (Pc.pending (.start call name id stage)))
    (known : ∀ jobid ∈ call.jobs, jobid < s.jobCount) (target : getPrinter s name = some id)
    (queued : stage = .status → (s.job call.jobid).status = .queued)
    (idle : Pc.reserved (.start call name id stage) = some id → (s.printer id).busy = false) :
    Machine.Guarded ⟨s, .start call name id stage⟩ := by
  refine ⟨recorded, known, ?_, ?_, ?_⟩
  · intro other q same
    cases same
    exact target
  · intro jobid same
    cases stage <;> cases same
    exact queued rfl
  · intro q same
    cases stage <;> cases same <;> exact idle rfl

theorem startStep_guarded {call : Call} {name : Text} {stage : Stage}
    (guarded : Machine.Guarded ⟨s, .start call name id stage⟩)
    (ran : startStep world call name id s stage = some next) : next.Guarded := by
  have known := guarded.known
  have target := guarded.target name id rfl
  have inside : call.jobid < s.jobCount := known call.jobid (List.mem_cons_self ..)
  have record := guarded.recorded
  cases stage with
  | status =>
      cases ran
      exact guarded_start (record.setStatus inside (guarded.queued call.jobid rfl)) known target
        (fun same => by cases same) (fun _ => guarded.idle id rfl)
  | chosen =>
      cases ran
      have idle := guarded.idle id rfl
      refine guarded_start (record.quiet rfl ?_ ?_ ?_ rfl (fun _ member => member)) known target
        (fun same => by cases same) (fun _ => idle)
      · intro event member jobid
        rw [List.mem_singleton.mp member]
        exact ⟨rfl, rfl, idle⟩
      · intro jobid
        by_cases same : jobid = call.jobid <;>
          simp [setChosen, Spooler.setJob, Spooler.emit, same]
      · intro jobid
        by_cases same : jobid = call.jobid <;>
          simp [setChosen, Spooler.setJob, Spooler.emit, same]
  | time =>
      cases ran
      refine guarded_start (record.quiet (List.append_nil _).symm (by simp) ?_ ?_ rfl
        (fun _ member => member)) known target (fun same => by cases same)
        (fun _ => guarded.idle id rfl)
      · intro jobid
        by_cases same : jobid = call.jobid <;> simp [setChangeTime, Spooler.setJob, same]
      · intro jobid
        by_cases same : jobid = call.jobid <;> simp [setChangeTime, Spooler.setJob, same]
  | message =>
      cases ran
      exact guarded_start ((talks_jobMessage _ _).recorded record) known target
        (fun same => by cases same) (fun _ => guarded.idle id rfl)
  | mark =>
      simp only [startStep, target] at ran
      cases ran
      have idle := guarded.idle id rfl
      refine guarded_start (record.quiet rfl ?_ (fun _ => rfl) (fun _ => rfl) rfl
        (fun _ member => member)) known ?_ (fun same => by cases same) (fun same => by cases same)
      · intro event member jobid
        rw [List.mem_singleton.mp member]
        exact ⟨rfl, rfl, idle⟩
      · refine (@getPrinter_congr s (markBusy id s) (fun q => ?_) rfl name).trans target
        by_cases same : q = id <;> simp [markBusy, setBusy, Spooler.setPrinter, Spooler.emit, same]
  | marked =>
      cases ran
      exact guarded_start ((talks_printerMessage _ _).recorded record) known target
        (fun same => by cases same) (fun same => by cases same)
  | process =>
      obtain ⟨after, forked, rfl⟩ := Option.map_eq_some_iff.mp ran
      refine finish_guarded (record.process inside forked) ?_
      unfold runJobProcess at forked
      dsimp only at forked
      split at forked
      · cases forked
        exact known
      · cases forked

/-- A statement of the main program. -/
theorem mainStep_guarded (guarded : m.Guarded) (allowed : m.Allowed (.main world))
    (ran : mainStep world m = some next) : next.Guarded := by
  obtain ⟨s, pc⟩ := m
  have known := guarded.known
  have recorded := guarded.recorded
  unfold mainStep at ran
  cases pc with
  | idle => cases ran
  | announce call =>
      cases ran
      exact guarded_outside ((talks_jobMessage _ _).recorded recorded) known rfl rfl rfl rfl
  | lookup call =>
      dsimp only at ran
      split at ran
      · cases ran
        exact finish_guarded ((talks_errorMessage _ _).recorded recorded) known
      · cases ran
        exact guarded_outside recorded known rfl rfl rfl rfl
  | search call pass remaining =>
      cases remaining with
      | zero =>
          dsimp only at ran
          split at ran
          · cases ran
            exact guarded_outside recorded known rfl rfl rfl rfl
          · cases ran
            exact finish_guarded recorded known
      | succ remaining =>
          simp only [Option.bind_eq_bind, Option.bind_eq_some_iff] at ran
          obtain ⟨good, -, ran⟩ := ran
          cases good with
          | true =>
              cases ran
              exact guarded_outside recorded known rfl rfl rfl rfl
          | false =>
              cases ran
              exact guarded_outside recorded known rfl rfl rfl rfl
  | find call name =>
      dsimp only at ran
      split at ran
      · cases ran
        exact finish_guarded recorded known
      · rename_i id found
        cases ran
        refine ⟨recorded, known, ?_, by simp [Pc.unstarted], by simp [Pc.reserved]⟩
        intro other q same
        cases same
        exact found
  | check call name id =>
      dsimp only at ran
      split at ran
      · cases ran
        exact finish_guarded recorded known
      · rename_i free
        rw [Bool.not_eq_true] at free
        cases ran
        exact guarded_start recorded known (guarded.target name id rfl) (fun _ => allowed free)
          (fun _ => free)
  | start call name id stage => exact startStep_guarded guarded ran
  | test nodes =>
      cases nodes with
      | nil =>
          cases ran
          exact guarded_outside recorded (by simp [Pc.jobs]) rfl rfl rfl rfl
      | cons jobid nodes =>
          have rest : ∀ jobid ∈ nodes, jobid < s.jobCount := fun jobid member =>
            known jobid (List.mem_cons_of_mem _ member)
          dsimp only at ran
          split at ran
          · cases ran
            exact guarded_outside recorded known rfl rfl rfl rfl
          · cases ran
            exact guarded_outside recorded rest rfl rfl rfl rfl
  | remove =>
      cases ran
      exact guarded_outside (removeJobs_recorded recorded) (by simp [Pc.jobs]) rfl rfl rfl rfl

/-- A run of the handler, which leaves the main program where it is. -/
theorem sigchld_guarded {reported : Option (Int × ChildStatus)} (guarded : m.Guarded)
    (allowed : m.Allowed (.sigchld world reported)) (positive : ∀ child ∈ reported, 0 < child.1)
    (ran : printHandler world reported m.s = some s') : Machine.Guarded ⟨s', m.pc⟩ := by
  obtain ⟨s, pc⟩ := m
  have spared : Ends reported → ∀ id, pc.reserved = some id →
      ∀ jobid ∈ s.nodes, (s.job jobid).status = .queued → ¬ s.MayUse jobid id := by
    intro ends id held
    cases pc with
    | start call name printer stage =>
        cases stage <;> cases held
        · exact absurd ends allowed
        all_goals exact allowed ends
    | _ => cases held
  obtain ⟨kept, stays⟩ :=
    printHandler_handles positive (Spooler.Handles.refl guarded.recorded guarded.idle) spared ran
  refine ⟨kept.recorded, ?_, ?_, ?_, kept.idle⟩
  · intro jobid member
    rw [kept.jobCount]
    exact guarded.known jobid member
  · intro name id same
    rw [kept.setup.lookup]
    exact guarded.target name id same
  · intro jobid same
    refine stays ?_ jobid (guarded.queued jobid same)
    cases pc with
    | start call name printer stage =>
        cases stage <;> cases same
        exact allowed
    | _ => cases same

theorem machineStep_guarded (action : MachineAction) (guarded : m.Guarded)
    (allowed : m.Allowed action) (ran : machineStep m action = some next) : next.Guarded := by
  cases action with
  | line world prompt input =>
      obtain ⟨s, pc⟩ := m
      cases pc with
      | idle => exact readLine_guarded guarded.recorded ran
      | _ => cases ran
  | main world => exact mainStep_guarded guarded allowed ran
  | sigchld world reported =>
      unfold machineStep at ran
      dsimp only at ran
      split at ran
      · rename_i positive
        obtain ⟨s', handled, rfl⟩ := Option.map_eq_some_iff.mp ran
        exact sigchld_guarded guarded allowed positive handled
      · cases ran

/-- In every run whose steps are allowed, each job is started once. -/
theorem startedOnce_of_allowed
    (reached : Runs.Reachable machineStep Machine.Allowed Machine.init m) : m.StartedOnce := by
  refine (reached.invariant Machine.Guarded guarded_init ?_).startedOnce
  intro m action next guarded allowed ran
  exact machineStep_guarded action guarded allowed ran

/-- The handler only runs while the main program waits for a line. -/
def Machine.calm (m : Machine) : MachineAction → Bool
  | .line _ _ _ => true
  | .main _ =>
      match m.pc with
      | .check call _ id => (m.s.printer id).busy || (m.s.job call.jobid).status = .queued
      | _ => true
  | .sigchld _ _ =>
      match m.pc with
      | .idle => true
      | _ => false

theorem Machine.allowed_of_calm (m : Machine) (action : MachineAction) (calm : m.calm action = true) :
    m.Allowed action := by
  obtain ⟨s, pc⟩ := m
  cases action with
  | line _ _ _ => trivial
  | main _ =>
      cases pc with
      | check call name id =>
          intro free
          have either : (s.printer id).busy = true ∨ (s.job call.jobid).status = .queued := by
            simpa [Machine.calm] using calm
          exact either.resolve_left (Bool.eq_false_iff.mp free)
      | _ => trivial
  | sigchld _ _ =>
      cases pc with
      | idle => trivial
      | _ => cases calm

def batchOf (lines : List String) : List MachineAction :=
  lines.map fun line => .line quietWorld false line.toList

def mainSteps (count : Nat) : List MachineAction := List.replicate count (.main quietWorld)

/-- A job is printed, and its child is reported to be done. -/
def printedJob : List MachineAction :=
  batchOf ["type txt", "printer p txt", "enable p", "print a.txt"] ++ mainSteps 12 ++
    [.sigchld quietWorld (some (100, .exited 0))]

theorem startedOnce_example : ∃ m, Runs.Reachable machineStep Machine.Allowed Machine.init m ∧
    m.StartedOnce ∧ history m.s.events 0 = [.queued, .running, .completed] ∧
    pipelines m.s.events 0 = 1 := by
  obtain ⟨final, -, reached, passed⟩ := @Runs.exists_reachable _ _ machineStep _ Machine.init
    printedJob _ Machine.allowed_of_calm (by decide +kernel) (fun m =>
      history m.s.events 0 = [.queued, .running, .completed] && pipelines m.s.events 0 = 1)
    (by decide +kernel)
  simp only [Bool.and_eq_true, decide_eq_true_eq] at passed
  exact ⟨final, reached, startedOnce_of_allowed reached, passed⟩

/-- Two printers are enabled and a job runs on the first. The next job has found the second one
idle when the first is done: the handler starts it on the first, and `runJob` on the second. -/
theorem not_startedOnce :
    ¬ ∀ m, Runs.Reachable machineStep Runs.Any Machine.init m → m.StartedOnce := by
  apply Runs.not_forall_reachable (batchOf ["type txt", "printer p txt", "enable p", "printer q txt",
      "enable q", "print a.txt"] ++ mainSteps 12 ++ batchOf ["print b.txt"] ++ mainSteps 6 ++
      [.sigchld quietWorld (some (100, .exited 0))] ++ mainSteps 7) (Runs.follows_any _)
    (fun m => history m.s.events 1 = [.queued, .running, .running] && pipelines m.s.events 1 = 2)
  · decide +kernel
  · intro m twice started
    simp only [Bool.and_eq_true, decide_eq_true_eq] at twice
    have path := started.path 1
    rw [twice.1] at path
    simp [JobStatus.Next] at path

end Audible.Imprimer
