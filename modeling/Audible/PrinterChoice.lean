import Audible.PrinterStarts

set_option autoImplicit false

/- Which printers jobs are run on. A command, the part of the handler before `runJobs`, and one
round of the loop of `runJobs` are a step each, so that a step starts one job at most. -/
namespace Audible.Imprimer

/-- The loops of `runJobs` that are running, with the nodes they have left: the one at the prompt,
and the one of the handler, which goes first. -/
structure Program where
  s : Spooler
  main : Option (List Nat)
  handler : Option (List Nat)

def Program.init : Program := ⟨Spooler.init, none, none⟩

inductive ProgramAction
  | line (world : World) (prompt : Bool) (input : Text)
  | sigchld (world : World) (reported : Option (Int × ChildStatus))
  | round (world : World)

/-- The branches of the handler that end a job, up to `runJobs`. -/
def finishJob (world : World) (finish : World → Nat → Spooler → Spooler) (pid : Int) (s : Spooler) :
    Option (Spooler × Option (List Nat)) := do
  let jobid ← getJobByPID s pid
  let s ← releasePrinter jobid (finish world jobid s)
  return (s, some s.nodes)

/-- The handler up to `runJobs`, if it gets there. -/
def enterHandler (world : World) (reported : Option (Int × ChildStatus)) (s : Spooler) :
    Option (Spooler × Option (List Nat)) :=
  match reported with
  | none => some (s, none)
  | some (pid, .exited 0) => finishJob world completeJob pid s
  | some (pid, .exited 1) => finishJob world abortJob pid s
  | some (_, .exited _) => some (s, none)
  | some (pid, .stopped) => (getJobByPID s pid).map fun jobid => (pauseJob world jobid s, none)
  | some (pid, .continued) => (getJobByPID s pid).map fun jobid => (resumeJob world jobid s, none)
  | some (pid, .signaled) => finishJob world abortJob pid s

/-- One round of the loop of `runJobs`. -/
def runRound (world : World) (jobid : Nat) (s : Spooler) : Option Spooler :=
  if (s.job jobid).status = .queued then startJob world (getFile (s.job jobid)) jobid s else some s

/-- A line is read when no loop is running; the handler may be entered between any two rounds of
the loop at the prompt. -/
def programStep (m : Program) : ProgramAction → Option Program
  | .line world prompt input =>
      match m.main, m.handler with
      | none, none =>
          (runCommand world input m.s).map fun s => ⟨s, if prompt then some s.nodes else none, none⟩
      | _, _ => none
  | .sigchld world reported =>
      match m.handler with
      | none => (enterHandler world reported m.s).map fun (s, nodes) => ⟨s, m.main, nodes⟩
      | some _ => none
  | .round world =>
      match m.main, m.handler with
      | main, some [] => some ⟨m.s, main, none⟩
      | main, some (jobid :: nodes) => (runRound world jobid m.s).map fun s => ⟨s, main, some nodes⟩
      | some [], none => some ⟨removeJobs world m.s, none, none⟩
      | some (jobid :: nodes), none => (runRound world jobid m.s).map fun s => ⟨s, some nodes, none⟩
      | none, none => none

variable {s s' : Spooler} {world : World} {jobid id : Nat}

/-- The rounds of a loop, from any node on. -/
theorem reachable_rounds {loop : List Nat → Spooler → Program}
    (rounds : ∀ jobid nodes s, programStep (loop (jobid :: nodes) s) (.round world) =
      (runRound world jobid s).map (loop nodes)) {nodes : List Nat} {start : Program}
    (before : Runs.Reachable programStep Runs.Any start (loop nodes s))
    (ran : runJobsFrom world nodes s = some s') :
    Runs.Reachable programStep Runs.Any start (loop [] s') := by
  induction nodes generalizing s with
  | nil =>
      cases ran
      exact before
  | cons jobid nodes ih =>
      rw [runJobsFrom_cons] at ran
      obtain ⟨next, first, rest⟩ := Option.bind_eq_some_iff.mp ran
      apply ih _ rest
      apply before.tail (.round world) trivial
      rw [rounds, runRound, first]
      rfl

/-- The loop of the handler, or of the program without it. -/
theorem reachable_handler (main : Option (List Nat)) {nodes : List Nat} {start : Program}
    (before : Runs.Reachable programStep Runs.Any start ⟨s, main, some nodes⟩)
    (ran : runJobsFrom world nodes s = some s') :
    Runs.Reachable programStep Runs.Any start ⟨s', main, none⟩ := by
  have ended := @reachable_rounds s s' world (fun nodes s => ⟨s, main, some nodes⟩)
    (fun _ _ _ => rfl) nodes start before ran
  exact ended.tail (.round world) trivial rfl

theorem reachable_main {nodes : List Nat} {start : Program}
    (before : Runs.Reachable programStep Runs.Any start ⟨s, some nodes, none⟩)
    (ran : runJobsFrom world nodes s = some s') :
    Runs.Reachable programStep Runs.Any start ⟨removeJobs world s', none, none⟩ := by
  have ended := @reachable_rounds s s' world (fun nodes s => ⟨s, some nodes, none⟩)
    (fun _ _ _ => rfl) nodes start before ran
  exact ended.tail (.round world) trivial rfl

/-- The loops of `runJobs` that the handler runs, if any, from the state it has been entered with. -/
def leaveHandler (world : World) (entered : Spooler × Option (List Nat)) : Option Spooler :=
  runJobsFrom world (entered.2.getD []) entered.1

theorem endJob_eq (finish : World → Nat → Spooler → Spooler) (pid : Int) (s : Spooler) :
    endJob world finish pid s = (finishJob world finish pid s).bind (leaveHandler world) := by
  unfold endJob finishJob
  cases getJobByPID s pid with
  | none => rfl
  | some jobid =>
      change (releasePrinter jobid (finish world jobid s)).bind (runJobs world) =
        ((releasePrinter jobid (finish world jobid s)).bind fun s => some (s, some s.nodes)).bind
          (leaveHandler world)
      cases releasePrinter jobid (finish world jobid s) <;> rfl

/-- The handler is its part before `runJobs` and the loop. -/
theorem printHandler_eq (world : World) (reported : Option (Int × ChildStatus)) (s : Spooler) :
    printHandler world reported s = (enterHandler world reported s).bind (leaveHandler world) := by
  have changed : ∀ (pid : Int) (change : Nat → Spooler),
      (getJobByPID s pid).map change =
        ((getJobByPID s pid).map fun jobid => (change jobid, none)).bind (leaveHandler world) := by
    intro pid change
    cases getJobByPID s pid <;> rfl
  rcases reported with _ | ⟨pid, status⟩
  · rfl
  · cases status with
    | exited exitStatus =>
        match exitStatus with
        | 0 => exact endJob_eq completeJob pid s
        | 1 => exact endJob_eq abortJob pid s
        | _ + 2 => rfl
    | stopped => exact changed pid _
    | continued => exact changed pid _
    | signaled => exact endJob_eq abortJob pid s

/-- What a step of the program does, its parts do one after another. -/
theorem step_rounds {action : Action} {start : Program}
    (before : Runs.Reachable programStep Runs.Any start ⟨s, none, none⟩)
    (ran : step s action = some s') :
    Runs.Reachable programStep Runs.Any start ⟨s', none, none⟩ := by
  cases action with
  | batch world input =>
      apply before.tail (.line world false input) trivial
      change (runCommand world input s).map _ = _
      change runCommand world input s = some s' at ran
      rw [ran]
      rfl
  | prompt world input =>
      change (runCommand world input s).bind (fun s =>
        (runJobs world s).bind fun s => some (removeJobs world s)) = _ at ran
      obtain ⟨read, command, ran⟩ := Option.bind_eq_some_iff.mp ran
      obtain ⟨last, jobs, ran⟩ := Option.bind_eq_some_iff.mp ran
      cases ran
      apply reachable_main _ jobs
      apply before.tail (.line world true input) trivial
      change (runCommand world input s).map _ = _
      rw [command]
      rfl
  | sigchld world reported =>
      change printHandler world reported s = _ at ran
      rw [printHandler_eq] at ran
      obtain ⟨⟨entered, nodes⟩, handled, ran⟩ := Option.bind_eq_some_iff.mp ran
      have enters : Runs.Reachable programStep Runs.Any start ⟨entered, none, nodes⟩ := by
        apply before.tail (.sigchld world reported) trivial
        change (enterHandler world reported s).map _ = _
        rw [handled]
        rfl
      cases nodes with
      | none =>
          cases ran
          exact enters
      | some nodes => exact reachable_handler none enters ran

/-- What commands and runs of the handler reach as one step each is reached. -/
theorem reachable_of_steps (reached : Runs.Reachable step Runs.Any .init s) :
    Runs.Reachable programStep Runs.Any .init ⟨s, none, none⟩ := by
  induction reached with
  | refl => exact .refl
  | tail action _ _ ran ih => exact step_rounds ih ran

/-- A printer that is enabled is the first of its name. -/
def Spooler.Registered (s : Spooler) : Prop :=
  ∀ id, (s.printer id).enabled = true → getPrinter s (s.printer id).name = some id

/-- Nothing that `enabled` depends on changes. -/
structure Spooler.SamePrinters (s s' : Spooler) : Prop where
  count : s'.printerCount = s.printerCount
  names : ∀ id, (s'.printer id).name = (s.printer id).name
  enabled : ∀ id, (s'.printer id).enabled = (s.printer id).enabled

theorem Spooler.SamePrinters.refl (s : Spooler) : s.SamePrinters s :=
  ⟨rfl, fun _ => rfl, fun _ => rfl⟩

theorem Spooler.SamePrinters.trans {s'' : Spooler} (first : s.SamePrinters s')
    (second : s'.SamePrinters s'') : s.SamePrinters s'' := by
  constructor
  · rw [second.count, first.count]
  · intro id
    rw [second.names, first.names]
  · intro id
    rw [second.enabled, first.enabled]

theorem Spooler.SamePrinters.registered (same : s.SamePrinters s') (registered : s.Registered) :
    s'.Registered := by
  intro id enabled
  rw [same.enabled] at enabled
  rw [same.names, getPrinter_congr same.names same.count, registered id enabled]

theorem Talks.samePrinters (talks : Talks s s') : s.SamePrinters s' := by
  obtain ⟨messages, rfl⟩ := talks
  exact ⟨rfl, fun _ => rfl, fun _ => rfl⟩

theorem setBusy_samePrinters (id : Nat) (busy : Bool) (s : Spooler) :
    s.SamePrinters (setBusy id busy s) := by
  constructor
  · rfl
  · intro q
    by_cases same : q = id <;> simp [setBusy, Spooler.setPrinter, same]
  · intro q
    by_cases same : q = id <;> simp [setBusy, Spooler.setPrinter, same]

theorem Spooler.Registered.addPrinter {printer : Printer} (registered : s.Registered)
    (disabled : printer.enabled = false) : (addPrinter printer s).Registered := by
  intro id enabled
  by_cases new : id = s.printerCount
  · rw [new] at enabled
    simp [Imprimer.addPrinter, disabled] at enabled
  · have old : ((Imprimer.addPrinter printer s).printer id) = s.printer id := by
      simp [Imprimer.addPrinter, new]
    rw [old] at enabled ⊢
    obtain ⟨below, -, first⟩ := getPrinter_eq_some.mp (registered id enabled)
    rw [getPrinter_eq_some, old]
    refine ⟨Nat.lt_succ_of_lt below, rfl, ?_⟩
    intro j before
    have older : j ≠ s.printerCount := by omega
    simpa [Imprimer.addPrinter, older] using first j before

theorem Spooler.Registered.setEnabled {name : Text} (registered : s.Registered) (enabled : Bool)
    (named : getPrinter s name = some id) :
    (s.setPrinter id { s.printer id with enabled := enabled }).Registered := by
  have names : ∀ q, ((s.setPrinter id { s.printer id with enabled := enabled }).printer q).name =
      (s.printer q).name := by
    intro q
    by_cases same : q = id <;> simp [Spooler.setPrinter, same]
  intro q set
  rw [names, getPrinter_congr names rfl]
  by_cases same : q = id
  · rw [same, (getPrinter_eq_some.mp named).2.1, named]
  · apply registered
    simpa [Spooler.setPrinter, same] using set

theorem started_samePrinters (file : Text) (jobid id : Nat) (s : Spooler) :
    s.SamePrinters (s.started world file jobid id) := by
  have marked := setBusy_samePrinters id true s
  constructor
  · rfl
  · exact marked.names
  · exact marked.enabled

theorem startJob_samePrinters {file : Text} (ran : startJob world file jobid s = some s') :
    s.SamePrinters s' := by
  rcases startJob_cases ran with talks | ⟨id, -, -, rfl⟩
  · exact talks.samePrinters
  · exact started_samePrinters file jobid id s

theorem freePrinter_samePrinters (name : Text) (s : Spooler) :
    s.SamePrinters (freePrinter name s) := by
  unfold freePrinter
  split
  · exact (talks_errorMessage _ _).samePrinters
  · exact (setBusy_samePrinters _ _ s).trans (talks_printerMessage _ _).samePrinters

theorem changeStatus_queued {status : JobStatus} (left : (s.job jobid).status ≠ .queued) {other : Nat}
    (queued : (s.job other).status = .queued) :
    ((changeStatus world jobid status s).job other).status = .queued := by
  have different : other ≠ jobid := by
    rintro rfl
    exact left queued
  rw [changeStatus_eq]
  simp only [Function.update_of_ne different]
  exact queued

/-- The functions that report a change of a job's status leave `enabled` and QUEUED jobs alone. -/
structure Spares (s s' : Spooler) : Prop where
  printers : s.SamePrinters s'
  queued : ∀ other, (s.job other).status = .queued → (s'.job other).status = .queued

theorem Talks.spares (talks : Talks s s') : Spares s s' := by
  constructor
  · exact talks.samePrinters
  · obtain ⟨messages, rfl⟩ := talks
    exact fun _ => id

theorem spares_changeStatus {status : JobStatus} (left : (s.job jobid).status ≠ .queued) :
    Spares s (changeStatus world jobid status s) := by
  constructor
  · exact ⟨rfl, fun _ => rfl, fun _ => rfl⟩
  · exact fun _ => changeStatus_queued left

theorem spares_pauseJob (world : World) (jobid : Nat) (s : Spooler) :
    Spares s (pauseJob world jobid s) := by
  unfold pauseJob
  split
  · rename_i running
    apply spares_changeStatus
    simp [running]
  · exact (talks_errorMessage _ _).spares

theorem spares_resumeJob (world : World) (jobid : Nat) (s : Spooler) :
    Spares s (resumeJob world jobid s) := by
  unfold resumeJob
  split
  · rename_i paused
    apply spares_changeStatus
    simp [paused]
  · exact (talks_errorMessage _ _).spares

theorem spares_completeJob (world : World) (jobid : Nat) (s : Spooler) :
    Spares s (completeJob world jobid s) := by
  unfold completeJob
  split
  · rename_i running
    apply spares_changeStatus
    simp [running]
  · exact (talks_errorMessage _ _).spares

theorem spares_abortJob (world : World) (jobid : Nat) (s : Spooler) :
    Spares s (abortJob world jobid s) := by
  unfold abortJob
  split
  · rename_i active
    apply spares_changeStatus
    rcases active with running | paused
    · simp [running]
    · simp [paused]
  · exact (talks_errorMessage _ _).spares

theorem freePrinter_job (name : Text) (s : Spooler) : (freePrinter name s).job = s.job := by
  unfold freePrinter
  split <;> rfl

/-- The functions that report a change of a job's status. -/
inductive Reporting : (World → Nat → Spooler → Spooler) → Prop
  | pause : Reporting pauseJob
  | resume : Reporting resumeJob
  | complete : Reporting completeJob
  | abort : Reporting abortJob

theorem Reporting.inOrder {change : World → Nat → Spooler → Spooler} (reporting : Reporting change) :
    InOrder change := by
  cases reporting with
  | pause => exact inOrder_pauseJob
  | resume => exact inOrder_resumeJob
  | complete => exact inOrder_completeJob
  | abort => exact inOrder_abortJob

theorem Reporting.spares {change : World → Nat → Spooler → Spooler} (reporting : Reporting change)
    (world : World) (jobid : Nat) (s : Spooler) : Spares s (change world jobid s) := by
  cases reporting with
  | pause => exact spares_pauseJob world jobid s
  | resume => exact spares_resumeJob world jobid s
  | complete => exact spares_completeJob world jobid s
  | abort => exact spares_abortJob world jobid s

theorem finishJob_cases {finish : World → Nat → Spooler → Spooler} {pid : Int}
    {nodes : Option (List Nat)} (ran : finishJob world finish pid s = some (s', nodes)) :
    nodes = some s'.nodes ∧ ∃ jobid name, s' = freePrinter name (finish world jobid s) := by
  simp only [finishJob, Option.bind_eq_bind, Option.bind_eq_some_iff] at ran
  obtain ⟨jobid, -, freed, release, ran⟩ := ran
  cases ran
  obtain ⟨id, -, rfl⟩ := Option.map_eq_some_iff.mp release
  exact ⟨rfl, jobid, _, rfl⟩

/-- Nothing happens, or a job is paused or resumed, or a child has ended: then its printer is freed
and jobs are run. -/
theorem enterHandler_cases {reported : Option (Int × ChildStatus)} {nodes : Option (List Nat)}
    (ran : enterHandler world reported s = some (s', nodes)) :
    nodes = none ∧ s' = s ∨
      (nodes = none ∧ ∃ change jobid, Reporting change ∧ s' = change world jobid s) ∨
      Ends reported ∧ nodes = some s'.nodes ∧
        ∃ change jobid name, Reporting change ∧ s' = freePrinter name (change world jobid s) := by
  unfold enterHandler at ran
  split at ran
  · cases ran
    exact .inl ⟨rfl, rfl⟩
  · obtain ⟨runs, jobid, name, rfl⟩ := finishJob_cases ran
    exact .inr (.inr ⟨trivial, runs, completeJob, jobid, name, .complete, rfl⟩)
  · obtain ⟨runs, jobid, name, rfl⟩ := finishJob_cases ran
    exact .inr (.inr ⟨trivial, runs, abortJob, jobid, name, .abort, rfl⟩)
  · cases ran
    exact .inl ⟨rfl, rfl⟩
  · obtain ⟨jobid, -, same⟩ := Option.map_eq_some_iff.mp ran
    cases same
    exact .inr (.inl ⟨rfl, pauseJob, jobid, .pause, rfl⟩)
  · obtain ⟨jobid, -, same⟩ := Option.map_eq_some_iff.mp ran
    cases same
    exact .inr (.inl ⟨rfl, resumeJob, jobid, .resume, rfl⟩)
  · obtain ⟨runs, jobid, name, rfl⟩ := finishJob_cases ran
    exact .inr (.inr ⟨trivial, runs, abortJob, jobid, name, .abort, rfl⟩)

/-- What the reporting functions and `freePrinter` keep, the handler keeps up to `runJobs`. -/
theorem enterHandler_related {R : Spooler → Spooler → Prop} (same : R s s)
    (changes : ∀ change, Reporting change → ∀ jobid, R s (change world jobid s))
    (frees : ∀ name next, R s next → R s (freePrinter name next))
    {reported : Option (Int × ChildStatus)} {nodes : Option (List Nat)}
    (ran : enterHandler world reported s = some (s', nodes)) : R s s' := by
  rcases enterHandler_cases ran with
    ⟨-, rfl⟩ | ⟨-, change, jobid, reporting, rfl⟩ | ⟨-, -, change, jobid, name, reporting, rfl⟩
  · exact same
  · exact changes change reporting jobid
  · exact frees name _ (changes change reporting jobid)

theorem enterHandler_spares {reported : Option (Int × ChildStatus)} {nodes : Option (List Nat)}
    (ran : enterHandler world reported s = some (s', nodes)) : Spares s s' := by
  refine enterHandler_related (Talks.refl s).spares (fun change reporting jobid => ?_)
    (fun name next spares => ⟨?_, ?_⟩) ran
  · exact reporting.spares world jobid s
  · exact spares.printers.trans (freePrinter_samePrinters name next)
  · rw [freePrinter_job]
    exact spares.queued

theorem errorMessage_samePrinters (message : String) (s : Spooler) :
    s.SamePrinters (errorMessage message s) := (talks_errorMessage message s).samePrinters

theorem DeclaresTypes.samePrinters (declares : DeclaresTypes s s') : s.SamePrinters s' := by
  obtain ⟨types, talks⟩ := declares
  have same : s.SamePrinters { s with typeArray := types } := ⟨rfl, fun _ => rfl, fun _ => rfl⟩
  exact same.trans talks.samePrinters

theorem signalJob_samePrinters (wanted : JobStatus) (signal : Signal) (usage refusal : String)
    (jobID : Option Text) (s : Spooler) :
    s.SamePrinters (signalJob wanted signal usage refusal jobID s) := by
  unfold signalJob
  split
  · exact .refl s
  · dsimp only
    split
    · exact errorMessage_samePrinters _ s
    · split
      · exact errorMessage_samePrinters _ s
      · split
        · exact ⟨rfl, fun _ => rfl, fun _ => rfl⟩
        · exact errorMessage_samePrinters _ s

theorem Spooler.Registered.talks (registered : s.Registered) (talks : Talks s s') : s'.Registered :=
  talks.samePrinters.registered registered

theorem newPrinterIn_registered (registered : s.Registered) (memory : Memory)
    (name type : Option Text) : (newPrinterIn memory name type s).Registered := by
  rcases newPrinterIn_cases memory name type s with talks | ⟨name, type, made⟩
  · exact registered.talks talks
  · rw [made]
    exact (registered.addPrinter rfl).talks (talks_printerMessage _ _)

theorem disablePrinter_registered (name : Text) (s : Spooler) (registered : s.Registered) :
    (disablePrinter name s).Registered := by
  unfold disablePrinter
  split
  · exact registered.talks (talks_errorMessage _ _)
  · rename_i id named
    split
    · exact registered.talks (talks_errorMessage _ _)
    · apply Spooler.Registered.talks _ (talks_printerMessage _ _)
      exact registered.setEnabled false named

theorem enablePrinter_registered (name : Text) (s : Spooler) (registered : s.Registered) :
    (enablePrinter name s).Registered := by
  unfold enablePrinter
  split
  · exact registered.talks (talks_errorMessage _ _)
  · rename_i id named
    split
    · exact registered.talks (talks_errorMessage _ _)
    · apply Spooler.Registered.talks _ (talks_printerMessage _ _)
      exact registered.setEnabled true named

theorem withName_registered {name : Option Text} {command : Text → Spooler → Spooler}
    (registers : ∀ name s, Spooler.Registered s → (command name s).Registered)
    (registered : s.Registered) (ran : withName name command s = some s') : s'.Registered := by
  unfold withName at ran
  split at ran
  · split at ran
    · cases ran
      exact registered.talks (talks_errorMessage _ _)
    · cases ran
  · cases ran
    exact registers _ s registered

/-- What `print` has done before it starts the job. -/
theorem newPrintJob_samePrinters {file : Text} {printers : Option Text} {job : Option Nat}
    (made : newPrintJob world file printers s = (s', job)) : s.SamePrinters s' := by
  rcases newPrintJob_cases made with ⟨talks, -⟩ | ⟨before, name, type, set, talks, rfl, -⟩
  · exact talks.samePrinters
  · exact talks.samePrinters.trans ⟨rfl, fun _ => rfl, fun _ => rfl⟩

theorem print_samePrinters {file printers : Option Text}
    (ran : print world file printers s = some s') : s.SamePrinters s' := by
  obtain ⟨file, after, job, made, ended⟩ := print_cases ran
  have same := newPrintJob_samePrinters made
  rcases ended with ⟨-, rfl⟩ | ⟨jobid, -, started⟩
  · exact same
  · exact same.trans ((talks_jobMessage _ _).samePrinters.trans (startJob_samePrinters started))

theorem execute_registered {command : Command} (registered : s.Registered)
    (ran : execute world command s = some s') : s'.Registered := by
  cases command with
  | help =>
      cases ran
      exact registered
  | type name =>
      cases ran
      exact (newExtensionIn_declares _ name s).samePrinters.registered registered
  | printer name type =>
      cases ran
      exact newPrinterIn_registered registered _ name type
  | printers =>
      cases ran
      exact registered.talks (talks_foldl _ (fun s id => talks_printerMessage id s) _ s)
  | jobs =>
      cases ran
      exact registered.talks (talks_foldl _ (fun s jobid => talks_jobMessage jobid s) _ s)
  | pause jobID =>
      cases ran
      exact (signalJob_samePrinters _ _ _ _ jobID s).registered registered
  | resume jobID =>
      cases ran
      exact (signalJob_samePrinters _ _ _ _ jobID s).registered registered
  | cancel jobID =>
      cases ran
      exact (signalJob_samePrinters _ _ _ _ jobID s).registered registered
  | conversion type1 type2 program args =>
      cases ran
      exact (newConversionIn_declares _ type1 type2 program args s).samePrinters.registered registered
  | print file printers => exact (print_samePrinters ran).registered registered
  | disable name => exact withName_registered disablePrinter_registered registered ran
  | enable name => exact withName_registered enablePrinter_registered registered ran
  | quit => cases ran
  | unknown =>
      cases ran
      exact registered

/-- A step executes a command, starts a job, enters the handler, or drops nodes. -/
theorem programStep_parts {m m' : Program} {action : ProgramAction}
    (ran : programStep m action = some m') :
    (∃ world command, execute world command m.s = some m'.s) ∨
      (∃ world file jobid, startJob world file jobid m.s = some m'.s) ∨
      (∃ world reported nodes, enterHandler world reported m.s = some (m'.s, nodes)) ∨
      ∃ nodes, nodes ⊆ m.s.nodes ∧ m'.s = { m.s with nodes := nodes } := by
  have round : ∀ (world : World) (jobid : Nat) (rest : Spooler → Program),
      (∀ s, (rest s).s = s) → (runRound world jobid m.s).map rest = some m' →
      (∃ world file jobid, startJob world file jobid m.s = some m'.s) ∨ m'.s = m.s := by
    intro world jobid rest state ran
    obtain ⟨next, first, rfl⟩ := Option.map_eq_some_iff.mp ran
    rw [state]
    unfold runRound at first
    split at first
    · exact .inl ⟨world, _, jobid, first⟩
    · cases first
      exact .inr rfl
  cases action with
  | line world prompt input =>
      simp only [programStep] at ran
      split at ran
      · obtain ⟨next, command, rfl⟩ := Option.map_eq_some_iff.mp ran
        exact .inl ⟨world, _, command⟩
      · cases ran
  | sigchld world reported =>
      simp only [programStep] at ran
      split at ran
      · obtain ⟨⟨next, nodes⟩, entered, rfl⟩ := Option.map_eq_some_iff.mp ran
        exact .inr (.inr (.inl ⟨world, reported, nodes, entered⟩))
      · cases ran
  | round world =>
      simp only [programStep] at ran
      split at ran
      · cases ran
        exact .inr (.inr (.inr ⟨_, fun _ => id, rfl⟩))
      · rcases round world _ _ (fun _ => rfl) ran with started | same
        · exact .inr (.inl started)
        · exact .inr (.inr (.inr ⟨m.s.nodes, fun _ => id, same⟩))
      · cases ran
        obtain ⟨nodes, inside, -, removed⟩ := removeJobs_eq world m.s
        exact .inr (.inr (.inr ⟨nodes, inside, removed⟩))
      · rcases round world _ _ (fun _ => rfl) ran with started | same
        · exact .inr (.inl started)
        · exact .inr (.inr (.inr ⟨m.s.nodes, fun _ => id, same⟩))
      · cases ran

/-- A step executes a command, starts a job, or leaves queued jobs alone. -/
theorem programStep_cases {m m' : Program} {action : ProgramAction}
    (ran : programStep m action = some m') :
    (∃ world command, execute world command m.s = some m'.s) ∨
      (∃ world file jobid, startJob world file jobid m.s = some m'.s) ∨ Spares m.s m'.s := by
  rcases programStep_parts ran with executed | started | ⟨world, reported, nodes, entered⟩ |
    ⟨nodes, -, same⟩
  · exact .inl executed
  · exact .inr (.inl started)
  · exact .inr (.inr (enterHandler_spares entered))
  · rw [same]
    exact .inr (.inr ⟨⟨rfl, fun _ => rfl, fun _ => rfl⟩, fun _ => id⟩)

theorem programStep_registered {m m' : Program} {action : ProgramAction}
    (registered : m.s.Registered) (ran : programStep m action = some m') : m'.s.Registered := by
  rcases programStep_cases ran with ⟨world, command, executed⟩ | ⟨world, file, jobid, started⟩ | spares
  · exact execute_registered registered executed
  · exact (startJob_samePrinters started).registered registered
  · exact spares.printers.registered registered

theorem registered_of_reachable {m : Program}
    (reached : Runs.Reachable programStep Runs.Any .init m) : m.s.Registered := by
  apply Runs.Reachable.invariant (fun m : Program => m.s.Registered) _ _ reached
  · intro id enabled
    cases enabled
  · intro m action m' registered _ ran
    exact programStep_registered registered ran

/-- What a printer has to be for a job to be started on it. -/
structure MayRun (s : Spooler) (job : Job) (id : Nat) : Prop where
  enabled : (s.printer id).enabled = true
  eligible : job.eligiblePrinters.getLsbD id = true
  idle : (s.printer id).busy = false
  prints : (s.printer id).type = job.fileType ∨ ∃ path, path ≠ [] ∧
    getConversionPath s.typeArray job.fileType (s.printer id).type maxConversions = some path

/-- What the tests of all three loops have in common. -/
theorem prints_of_suits {pass choice : Nat} (suited : suits s jobid pass choice = some true) :
    usable s jobid choice = true ∧
      ((s.printer choice).type = (s.job jobid).fileType ∨ ∃ path, path ≠ [] ∧
        getConversionPath s.typeArray (s.job jobid).fileType (s.printer choice).type
          maxConversions = some path) := by
  unfold suits at suited
  split at suited
  · cases suited
  · rename_i allowed
    constructor
    · simpa using allowed
    · split at suited
      · left
        simp at suited
        exact suited.2
      · right
        obtain ⟨path, converted, nonempty⟩ := Option.map_eq_some_iff.mp suited
        exact ⟨path, by simpa using nonempty, converted⟩
      · left
        simpa using suited

/-- What `getEligiblePrinter` finds in any of its loops. -/
theorem getEligiblePrinter_suits {choice : Nat}
    (found : getEligiblePrinter jobid s = some (s, some choice)) :
    usable s jobid choice = true ∧
      ((s.printer choice).type = (s.job jobid).fileType ∨ ∃ path, path ≠ [] ∧
        getConversionPath s.typeArray (s.job jobid).fileType (s.printer choice).type
          maxConversions = some path) := by
  unfold getEligiblePrinter at found
  split at found
  · simp at found
  · obtain ⟨_, searched, same⟩ := Option.map_eq_some_iff.mp found
    cases same
    obtain ⟨pass, -, suited⟩ := searchPasses_suits searched
    exact prints_of_suits suited

/-- `runJob` finds the printer that has been chosen: it is the first of its name. -/
theorem startJob_mayRun {file : Text} (registered : s.Registered)
    (ran : startJob world file jobid s = some s') {other : Nat}
    (queued : (s.job other).status = .queued) (running : (s'.job other).status = .running) :
    ∃ id, (s'.job other).chosenPrinter = some id ∧ MayRun s (s'.job other) id := by
  rcases startJob_cases ran with ⟨messages, rfl⟩ | ⟨id, takes, -, rfl⟩
  · rw [queued] at running
    cases running
  · have same : other = jobid := by
      by_contra different
      simp [Spooler.started, different, queued] at running
    obtain ⟨choice, found, named, idle⟩ := takes
    obtain ⟨allowed, prints⟩ := getEligiblePrinter_suits found
    unfold usable at allowed
    rw [Bool.and_eq_true] at allowed
    have first : choice = id := by
      rw [registered choice allowed.1] at named
      exact Option.some.inj named
    rw [first] at allowed prints
    rw [same]
    refine ⟨id, by simp [Spooler.started], ?_⟩
    have set : ((s.started world file jobid id).job jobid).eligiblePrinters =
        (s.job jobid).eligiblePrinters := by simp [Spooler.started]
    have type : ((s.started world file jobid id).job jobid).fileType = (s.job jobid).fileType := by
      simp [Spooler.started]
    constructor
    · exact allowed.1
    · rw [set]
      exact allowed.2
    · exact idle
    · rw [type]
      exact prints

theorem MayRun.congr {job : Job} (printers : s'.printer = s.printer)
    (types : s'.typeArray = s.typeArray) (mayRun : MayRun s' job id) : MayRun s job id := by
  obtain ⟨enabled, eligible, idle, prints⟩ := mayRun
  rw [printers] at enabled idle prints
  rw [types] at prints
  exact ⟨enabled, eligible, idle, prints⟩

/-- A job that `print` starts has been created by it. -/
theorem print_mayRun {file printers : Option Text} (registered : s.Registered)
    (ran : print world file printers s = some s') {other : Nat}
    (queued : (s.job other).status = .queued) (running : (s'.job other).status = .running) :
    ∃ id, (s'.job other).chosenPrinter = some id ∧ MayRun s (s'.job other) id := by
  obtain ⟨file, after, job, made, ended⟩ := print_cases ran
  have same := newPrintJob_samePrinters made
  rcases newPrintJob_cases made with
    ⟨⟨messages, rfl⟩, rfl⟩ | ⟨before, name, type, set, ⟨messages, rfl⟩, rfl, rfl⟩
  · rcases ended with ⟨-, rfl⟩ | ⟨jobid, made, -⟩
    · rw [queued] at running
      cases running
    · cases made
  · rcases ended with ⟨made, -⟩ | ⟨jobid, made, started⟩
    · cases made
    · cases made
      have waiting : ((jobMessage s.jobCount
          (newJob world name type 0 set { s with
            events := s.events ++ messages.map .message })).job other).status = .queued := by
        by_cases new : other = s.jobCount
        · simp [jobMessage, newJob, addJob, Spooler.emit, new]
        · simpa [jobMessage, newJob, addJob, Spooler.emit, new] using queued
      have ready := (same.registered registered).talks (talks_jobMessage s.jobCount _)
      obtain ⟨id, chosen, mayRun⟩ := startJob_mayRun ready started waiting running
      exact ⟨id, chosen, MayRun.congr (by rfl) (by rfl) mayRun⟩

/-- Where the handler never runs inside of a command, a job is only started on a printer that it may
use. -/
theorem mayRun_of_started {m m' : Program}
    (reached : Runs.Reachable programStep Runs.Any .init m) {action : ProgramAction}
    (ran : programStep m action = some m') {jobid : Nat}
    (queued : (m.s.job jobid).status = .queued) (running : (m'.s.job jobid).status = .running) :
    ∃ id, (m'.s.job jobid).chosenPrinter = some id ∧ MayRun m.s (m'.s.job jobid) id := by
  have registered := registered_of_reachable reached
  rcases programStep_cases ran with ⟨world, command, executed⟩ | ⟨world, file, other, started⟩ | spares
  · by_cases printing : ∃ file printers, command = .print file printers
    · obtain ⟨file, printers, rfl⟩ := printing
      exact print_mayRun registered executed queued running
    · push Not at printing
      rw [(execute_quiet printing executed).jobs, queued] at running
      cases running
  · exact startJob_mayRun registered started queued running
  · rw [spares.queued jobid queued] at running
    cases running

def batchLine (input : String) : ProgramAction := .line quietWorld false input.toList

end Audible.Imprimer
