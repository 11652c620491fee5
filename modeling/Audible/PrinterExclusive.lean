import Audible.Holding
import Audible.PrinterSteps
import Audible.Runs

set_option autoImplicit false

/- Printers and the jobs that hold them, over runs in which every command and every run of the
handler is one step. -/
namespace Audible.Imprimer

def JobStatus.Active (status : JobStatus) : Prop := status = .running ∨ status = .paused

def Spooler.Busy (s : Spooler) (id : Nat) : Prop :=
  id < s.printerCount ∧ (s.printer id).busy = true

/-- An active job of the list and its printer. -/
def Spooler.Holds (s : Spooler) (jobid id : Nat) : Prop :=
  jobid ∈ s.nodes ∧ (s.job jobid).status.Active ∧ (s.job jobid).chosenPrinter = some id

/-- A printer is busy if and only if an active job has chosen it, and no two active jobs have
chosen the same one. -/
def Spooler.Exclusive (s : Spooler) : Prop := Holding.Agrees s.Busy s.Holds

/-- What exclusivity rests on: a job's printer is the first of its name, which is the one that
is freed, and ids in the list have been given out. -/
structure Spooler.Ordered (s : Spooler) : Prop where
  exclusive : s.Exclusive
  named : ∀ jobid id, (s.job jobid).chosenPrinter = some id →
    getPrinter s (s.printer id).name = some id
  listed : ∀ jobid ∈ s.nodes, jobid < s.jobCount

variable {s s' : Spooler} {world : World} {jobid id : Nat}

/-- The invariant reads names, flags, jobs and the list only. -/
theorem Spooler.Ordered.congr (ordered : s.Ordered) (count : s'.printerCount = s.printerCount)
    (names : ∀ id, (s'.printer id).name = (s.printer id).name)
    (flags : ∀ id, (s'.printer id).busy = (s.printer id).busy) (jobs : s'.job = s.job)
    (jobCount : s'.jobCount = s.jobCount) (nodes : s'.nodes = s.nodes) : s'.Ordered := by
  refine ⟨ordered.exclusive.congr (fun id => ?_) (fun jobid id => ?_), fun jobid id chosen => ?_, ?_⟩
  · unfold Spooler.Busy
    rw [count, flags]
  · unfold Spooler.Holds
    rw [jobs, nodes]
  · rw [jobs] at chosen
    rw [names, getPrinter_congr names count, ordered.named jobid id chosen]
  · rw [nodes, jobCount]
    exact ordered.listed

theorem Talks.ordered (talks : Talks s s') (ordered : s.Ordered) : s'.Ordered := by
  obtain ⟨messages, rfl⟩ := talks
  exact ordered.congr rfl (fun _ => rfl) (fun _ => rfl) rfl rfl rfl

theorem Spooler.Ordered.addJob {job : Job} (ordered : s.Ordered) (queued : ¬ job.status.Active)
    (unchosen : job.chosenPrinter = none) : (addJob job s).Ordered := by
  have fresh : s.jobCount ∉ s.nodes := fun member => Nat.lt_irrefl _ (ordered.listed _ member)
  refine ⟨ordered.exclusive.congr (fun _ => Iff.rfl) (fun jobid id => ?_), fun jobid id chosen => ?_,
    fun jobid member => ?_⟩
  · unfold Spooler.Holds Imprimer.addJob
    by_cases new : jobid = s.jobCount
    · subst new
      simp [fresh, queued]
    · simp [new]
  · unfold Imprimer.addJob at chosen
    by_cases new : jobid = s.jobCount
    · subst new
      simp [unchosen] at chosen
    · simp only [Function.update_of_ne new] at chosen
      exact (getPrinter_congr (fun _ => rfl) rfl _).trans (ordered.named jobid id chosen)
  · unfold Imprimer.addJob at member ⊢
    rcases List.mem_append.mp member with old | new
    · exact Nat.lt_succ_of_lt (ordered.listed jobid old)
    · rw [List.mem_singleton.mp new]
      exact Nat.lt_succ_self _

theorem Spooler.Ordered.started {file : Text} (ordered : s.Ordered) (member : jobid ∈ s.nodes)
    (inactive : ¬ (s.job jobid).status.Active)
    (named : getPrinter s (s.printer id).name = some id) (free : (s.printer id).busy = false) :
    (s.started world file jobid id).Ordered := by
  have inside := (getPrinter_eq_some.mp named).1
  have names : ∀ q, ((s.started world file jobid id).printer q).name = (s.printer q).name := by
    intro q
    by_cases same : q = id
    · subst same
      simp [Spooler.started]
    · simp [Spooler.started, same]
  refine ⟨ordered.exclusive.take jobid id (fun busy => ?_) (fun q => ?_) (fun a q => ?_)
    (fun q held => ?_), fun a q chosen => ?_, ordered.listed⟩
  · rw [busy.2] at free
    cases free
  · by_cases same : q = id
    · subst same
      simp [Spooler.Busy, Spooler.started, inside]
    · simp [Spooler.Busy, Spooler.started, same]
  · by_cases same : a = jobid
    · subst same
      simp [Spooler.Holds, Spooler.started, member, JobStatus.Active, eq_comm]
    · simp [Spooler.Holds, Spooler.started, same]
  · exact inactive held.2.1
  · rw [names]
    refine Eq.trans (getPrinter_congr names rfl _) ?_
    by_cases same : a = jobid
    · subst same
      simp only [Spooler.started, Function.update_self, Option.some.injEq] at chosen
      rw [← chosen, named]
    · simp only [Spooler.started, Function.update_of_ne same] at chosen
      exact ordered.named a q chosen

theorem startJob_ordered {file : Text} (ordered : s.Ordered) (member : jobid ∈ s.nodes)
    (queued : (s.job jobid).status = .queued) (ran : startJob world file jobid s = some s') :
    s'.Ordered := by
  have inactive : ¬ (s.job jobid).status.Active := by
    rw [queued]
    simp [JobStatus.Active]
  rcases startJob_cases ran with talks | ⟨id, takes, -, rfl⟩
  · exact talks.ordered ordered
  · exact ordered.started member inactive takes.named takes.free

theorem runJobs_ordered (ordered : s.Ordered) (ran : runJobs world s = some s') : s'.Ordered :=
  runJobs_invariant ordered (fun _ _ _ => startJob_ordered) ran

/-- Only jobs that are not active leave the list. -/
theorem removeJobs_ordered (ordered : s.Ordered) : (removeJobs world s).Ordered := by
  obtain ⟨left, inside, kept, removed⟩ := removeJobs_eq world s
  rw [removed]
  refine ⟨ordered.exclusive.congr (fun _ => Iff.rfl) (fun a id => and_congr_left fun holds => ?_),
    ordered.named, fun a member => ordered.listed a (inside member)⟩
  exact ⟨fun member => inside member, fun member => kept a member (not_expired_of_active holds.1)⟩

/-- A status that stays active, or that was not active and stays so. -/
theorem Spooler.Ordered.changeStatus {status : JobStatus} (ordered : s.Ordered)
    (same : status.Active ↔ (s.job jobid).status.Active) :
    (changeStatus world jobid status s).Ordered := by
  rw [changeStatus_eq]
  refine ⟨ordered.exclusive.congr (fun _ => Iff.rfl) (fun a q => ?_), fun a q chosen => ?_,
    ordered.listed⟩
  · by_cases changed : a = jobid
    · subst changed
      simp [Spooler.Holds, same]
    · simp [Spooler.Holds, changed]
  · refine (getPrinter_congr (fun _ => rfl) rfl _).trans ?_
    by_cases changed : a = jobid
    · subst changed
      simp only [Function.update_self] at chosen
      exact ordered.named a q chosen
    · simp only [Function.update_of_ne changed] at chosen
      exact ordered.named a q chosen

/-- An active job ends and its printer is freed. -/
theorem Spooler.Ordered.ended {status : JobStatus} (ordered : s.Ordered) (member : jobid ∈ s.nodes)
    (active : (s.job jobid).status.Active) (finished : ¬ status.Active)
    (chosen : (s.job jobid).chosenPrinter = some id) :
    (s.ended world jobid id status).Ordered := by
  have names : ∀ q, ((s.ended world jobid id status).printer q).name = (s.printer q).name := by
    intro q
    by_cases same : q = id
    · subst same
      simp [Spooler.ended]
    · simp [Spooler.ended, same]
  have held : s.Holds jobid id := ⟨member, active, chosen⟩
  refine ⟨ordered.exclusive.release held (fun q => ?_) (fun a q => ?_) (fun q other => ?_),
    fun a q other => ?_, ordered.listed⟩
  · by_cases same : q = id
    · subst same
      simp [Spooler.Busy, Spooler.ended]
    · simp [Spooler.Busy, Spooler.ended, same]
  · by_cases same : a = jobid
    · subst same
      simp [Spooler.Holds, Spooler.ended, finished]
    · simp [Spooler.Holds, Spooler.ended, same]
  · have both := other.2.2
    rw [chosen] at both
    exact (Option.some.inj both).symm
  · rw [names]
    refine Eq.trans (getPrinter_congr names rfl _) ?_
    by_cases same : a = jobid
    · subst same
      simp only [Spooler.ended, Function.update_self] at other
      exact ordered.named a q other
    · simp only [Spooler.ended, Function.update_of_ne same] at other
      exact ordered.named a q other

/-- The printer of a job that is not active is freed, though it is not busy. -/
theorem Spooler.Ordered.freeAgain (ordered : s.Ordered)
    (idle : ∀ id, (s.job jobid).chosenPrinter = some id → ¬ s.Busy id)
    (ran : releasePrinter jobid s = some s') : s'.Ordered := by
  obtain ⟨id, chosen, rfl⟩ := Option.map_eq_some_iff.mp ran
  have named := ordered.named jobid id chosen
  have inside := (getPrinter_eq_some.mp named).1
  have free : (s.printer id).busy = false := by
    rw [← Bool.not_eq_true]
    exact fun busy => idle id chosen ⟨inside, busy⟩
  rw [freePrinter_eq named]
  refine ordered.congr rfl (fun q => ?_) (fun q => ?_) rfl rfl rfl
  · by_cases same : q = id
    · subst same
      simp
    · simp [same]
  · by_cases same : q = id
    · subst same
      simp [free]
    · simp [same]

/-- The job of a child that has ended has a status that its end is accepted in, or it is over
already and nobody uses its printer. -/
def Spooler.Ends (s : Spooler) (pid : Int) (accepted : JobStatus → Prop) : Prop :=
  ∀ jobid, getJobByPID s pid = some jobid → accepted (s.job jobid).status ∨
    ¬ (s.job jobid).status.Active ∧ ∀ id, (s.job jobid).chosenPrinter = some id → ¬ s.Busy id

/-- When the handler changes the status of the job whose printer it frees: an exit with 0 is
reported for a running job, any other end for a running or paused one. -/
def Spooler.Settled (s : Spooler) : Option (Int × ChildStatus) → Prop
  | some (pid, .exited 0) => s.Ends pid (· = .running)
  | some (pid, .exited 1) => s.Ends pid JobStatus.Active
  | some (pid, .signaled) => s.Ends pid JobStatus.Active
  | _ => True

theorem endJob_ordered {finish : World → Nat → Spooler → Spooler} {accepted : JobStatus → Prop}
    {pid : Int} (status : JobStatus) (refusal : String) (ordered : s.Ordered)
    (settled : s.Ends pid accepted) (active : ∀ status, accepted status → status.Active)
    (finished : ¬ status.Active)
    (accepts : ∀ jobid, accepted (s.job jobid).status →
      finish world jobid s = changeStatus world jobid status s)
    (refuses : ∀ jobid, ¬ accepted (s.job jobid).status →
      finish world jobid s = errorMessage refusal s)
    (ran : endJob world finish pid s = some s') : s'.Ordered := by
  simp only [endJob, Option.bind_eq_bind, Option.bind_eq_some_iff] at ran
  obtain ⟨jobid, found, freed, release, rest⟩ := ran
  refine runJobs_ordered ?_ rest
  by_cases good : accepted (s.job jobid).status
  · rw [accepts jobid good] at release
    obtain ⟨id, chosen, -⟩ := Option.map_eq_some_iff.mp release
    rw [changeStatus_eq] at chosen
    simp only [Function.update_self] at chosen
    rw [releasePrinter_changeStatus chosen (ordered.named jobid id chosen)] at release
    cases release
    exact ordered.ended (mem_nodes_of_getJobByPID found).1 (active _ good) finished chosen
  · rw [refuses jobid good] at release
    rcases settled jobid found with yes | ⟨-, idle⟩
    · exact absurd yes good
    · exact ((talks_errorMessage refusal s).ordered ordered).freeAgain idle release

theorem completeJob_ordered {pid : Int} (ordered : s.Ordered) (settled : s.Ends pid (· = .running))
    (ran : endJob world completeJob pid s = some s') : s'.Ordered := by
  refine endJob_ordered .completed "This job is not running." ordered settled (fun _ => .inl)
    (by simp [JobStatus.Active]) (fun jobid good => ?_) (fun jobid bad => ?_) ran
  · exact if_pos good
  · exact if_neg bad

theorem abortJob_ordered {pid : Int} (ordered : s.Ordered) (settled : s.Ends pid JobStatus.Active)
    (ran : endJob world abortJob pid s = some s') : s'.Ordered := by
  refine endJob_ordered .aborted "This job is not running." ordered settled (fun _ => id)
    (by simp [JobStatus.Active]) (fun jobid good => ?_) (fun jobid bad => ?_) ran
  · exact if_pos good
  · exact if_neg bad

theorem pauseJob_ordered (ordered : s.Ordered) : (pauseJob world jobid s).Ordered := by
  unfold pauseJob
  split
  · rename_i running
    exact ordered.changeStatus (by simp [JobStatus.Active, running])
  · exact (talks_errorMessage _ _).ordered ordered

theorem resumeJob_ordered (ordered : s.Ordered) : (resumeJob world jobid s).Ordered := by
  unfold resumeJob
  split
  · rename_i paused
    exact ordered.changeStatus (by simp [JobStatus.Active, paused])
  · exact (talks_errorMessage _ _).ordered ordered

theorem printHandler_ordered {reported : Option (Int × ChildStatus)} (ordered : s.Ordered)
    (settled : s.Settled reported) (ran : printHandler world reported s = some s') : s'.Ordered := by
  unfold printHandler at ran
  split at ran
  · cases ran
    exact ordered
  · exact completeJob_ordered ordered settled ran
  · exact abortJob_ordered ordered settled ran
  · cases ran
    exact ordered
  · obtain ⟨_, -, rfl⟩ := Option.map_eq_some_iff.mp ran
    exact pauseJob_ordered ordered
  · obtain ⟨_, -, rfl⟩ := Option.map_eq_some_iff.mp ran
    exact resumeJob_ordered ordered
  · exact abortJob_ordered ordered settled ran

theorem ordered_init : Spooler.init.Ordered := by
  refine ⟨⟨fun id => ?_, fun a b id held _ => ?_⟩, fun a id chosen => ?_, fun a member => ?_⟩
  · simp [Spooler.Busy, Spooler.Holds, Spooler.init]
  · simp [Spooler.Holds, Spooler.init] at held
  · cases chosen
  · cases member

/-- A new printer is idle, and comes after those of the same name. -/
theorem Spooler.Ordered.quiet (ordered : s.Ordered) (quiet : s.Quiet s') : s'.Ordered := by
  refine ⟨ordered.exclusive.congr (fun id => ?_) (fun jobid id => ?_), fun a id chosen => ?_, ?_⟩
  · unfold Spooler.Busy
    by_cases old : id < s.printerCount
    · simp [old, Nat.lt_of_lt_of_le old quiet.count, quiet.flags id old]
    · have idle := quiet.fresh id (Nat.le_of_not_lt old)
      simp only [old, false_and, iff_false, not_and, Bool.not_eq_true]
      exact idle
  · unfold Spooler.Holds
    rw [quiet.jobs, quiet.nodes]
  · rw [quiet.jobs] at chosen
    obtain ⟨inside, -, first⟩ := getPrinter_eq_some.mp (ordered.named a id chosen)
    refine getPrinter_eq_some.mpr ⟨Nat.lt_of_lt_of_le inside quiet.count, rfl, fun j below => ?_⟩
    rw [quiet.names j (Nat.lt_trans below inside), quiet.names id inside]
    exact first j below
  · rw [quiet.nodes, quiet.jobCount]
    exact ordered.listed

theorem print_ordered {file printers : Option Text} (ordered : s.Ordered)
    (ran : print world file printers s = some s') : s'.Ordered := by
  obtain ⟨file, after, job, made, ended⟩ := print_cases ran
  rcases newPrintJob_cases made with ⟨talks, rfl⟩ | ⟨before, name, type, set, talks, rfl, rfl⟩
  · rcases ended with ⟨-, rfl⟩ | ⟨jobid, made, -⟩
    · exact talks.ordered ordered
    · cases made
  · rcases ended with ⟨made, -⟩ | ⟨jobid, made, started⟩
    · cases made
    · cases made
      have added : (newJob world name type 0 set before).Ordered :=
        (talks.ordered ordered).addJob (by simp [JobStatus.Active]) rfl
      refine startJob_ordered ((talks_jobMessage _ _).ordered added) ?_ ?_ started
      · exact List.mem_append_right _ (List.mem_singleton.mpr rfl)
      · exact congrArg Job.status (Function.update_self before.jobCount _ before.job)

theorem execute_ordered {command : Command} (ordered : s.Ordered)
    (ran : execute world command s = some s') : s'.Ordered := by
  by_cases printing : ∃ file printers, command = .print file printers
  · obtain ⟨file, printers, rfl⟩ := printing
    exact print_ordered ordered ran
  · push Not at printing
    exact ordered.quiet (execute_quiet printing ran)

/-- Every handler run finds the job of a child that has ended in a status that it accepts. -/
def Allowed (s : Spooler) : Action → Prop
  | .sigchld _ reported => s.Settled reported
  | _ => True

theorem step_ordered (action : Action) (ordered : s.Ordered) (allowed : Allowed s action)
    (ran : step s action = some s') : s'.Ordered := by
  cases action with
  | batch world input => exact execute_ordered ordered ran
  | prompt world input =>
      simp only [step, Option.bind_eq_bind, Option.bind_eq_some_iff] at ran
      obtain ⟨first, command, second, jobs, ran⟩ := ran
      cases ran
      exact removeJobs_ordered (runJobs_ordered (execute_ordered ordered command) jobs)
  | sigchld world reported => exact printHandler_ordered ordered allowed ran

/-- In every run whose handler runs are settled, printers are held exclusively. -/
theorem exclusive_of_settled (reached : Runs.Reachable step Allowed Spooler.init s) :
    s.Exclusive := by
  refine (reached.invariant Spooler.Ordered ordered_init ?_).exclusive
  intro s action next ordered allowed ran
  exact step_ordered action ordered allowed ran

def atPrompt (input : String) : Action := .prompt quietWorld input.toList

/-- A printer for text, and a file printed on it. -/
def oneJob : List Action :=
  [atPrompt "type txt", atPrompt "printer p txt", atPrompt "enable p", atPrompt "print a.txt"]

/-- The job is stopped, continues and is done, and the handler runs each time. -/
theorem exclusive_example : ∃ s, Runs.Reachable step Allowed Spooler.init s ∧ s.Exclusive ∧
    (s.job 0).status = .completed ∧ (s.printer 0).busy = false := by
  have passes : (Runs.run step Spooler.init (oneJob ++
      [.sigchld quietWorld (some (100, .stopped)), .sigchld quietWorld (some (100, .continued))])).any
        (fun s => s.nodes = [0] && (s.job 0).status = .running &&
          (step s (.sigchld quietWorld (some (100, .exited 0)))).any fun s =>
            (s.job 0).status = .completed && !(s.printer 0).busy) = true := by
    decide
  obtain ⟨running, taken, before⟩ := (Option.any_eq_true _ _).mp passes
  simp only [Bool.and_eq_true, decide_eq_true_eq] at before
  obtain ⟨⟨nodes, status⟩, last⟩ := before
  obtain ⟨final, ended, after⟩ := (Option.any_eq_true _ _).mp last
  simp only [Bool.and_eq_true, decide_eq_true_eq, Bool.not_eq_true'] at after
  have settled : running.Settled (some (100, .exited 0)) := by
    intro jobid found
    have member := (mem_nodes_of_getJobByPID found).1
    rw [nodes, List.mem_singleton] at member
    rw [member]
    exact .inl status
  have reached : Runs.Reachable step Allowed Spooler.init running :=
    Runs.reachable_run _ .refl
      (by simp [oneJob, Runs.Follows, Allowed, atPrompt, Spooler.Settled]) taken
  have finished := reached.tail (Action.sigchld quietWorld (some (100, .exited 0))) settled ended
  exact ⟨final, finished, exclusive_of_settled finished, after.1, after.2⟩

/-- A paused job that goes on and exits before the handler runs stays PAUSED for ever, and its
printer is free. -/
theorem not_exclusive : ¬ ∀ s, Runs.Reachable step Runs.Any Spooler.init s → s.Exclusive := by
  apply Runs.not_forall_reachable (oneJob ++ [atPrompt "pause 0",
    .sigchld quietWorld (some (100, .stopped)), atPrompt "resume 0",
    .sigchld quietWorld (some (100, .exited 0))]) (Runs.follows_any _)
    (fun s => s.nodes.contains 0 && (s.job 0).status = .paused && (s.job 0).chosenPrinter = some 0 &&
      !(s.printer 0).busy)
  · decide
  · intro s reached exclusive
    simp only [Bool.and_eq_true, List.contains_eq_mem, decide_eq_true_eq, Bool.not_eq_true'] at reached
    obtain ⟨⟨⟨member, paused⟩, chosen⟩, free⟩ := reached
    refine Holding.not_agrees_of_cleared ⟨member, .inr paused, chosen⟩ (fun busy => ?_) exclusive
    rw [busy.2] at free
    cases free

end Audible.Imprimer
