import Audible.PrinterChoice
import Audible.PrinterOnce

set_option autoImplicit false

/- Which printers jobs are run on when the handler runs between the statements of the main program.
The handler may take the printer that `runJob` has found idle. -/
namespace Audible.Imprimer

variable {s s' : Spooler} {m m' : Machine} {world : World} {jobid id : Nat}

/-- In the state `s` of a step a job goes from QUEUED to RUNNING: at the assignment in `runJob`, whose
next statement stores the printer, or in a round of the loop of the handler. -/
inductive Machine.Starts (m : Machine) : MachineAction → Spooler → Nat → Nat → Prop
  | main (world : World) (call : Call) (printername : Text) (id : Nat)
      (here : m.pc = .start call printername id .status)
      (queued : (m.s.job call.jobid).status = .queued) :
      Starts m (.main world) m.s call.jobid id
  | handler (world : World) (reported : Option (Int × ChildStatus)) (front rest : List Nat)
      (entered s next : Spooler) (jobid id : Nat)
      (enters : enterHandler world reported m.s = some (entered, some (front ++ jobid :: rest)))
      (comes : runJobsFrom world front entered = some s) (queued : (s.job jobid).status = .queued)
      (ran : runRound world jobid s = some next) (running : (next.job jobid).status = .running)
      (chosen : (next.job jobid).chosenPrinter = some id) :
      Starts m (.sigchld world reported) s jobid id

/-- Between the test of `busy` in `runJob` and `job->status = RUNNING`, a child is reported to have
ended only while no other QUEUED job of the list can be printed on that printer. -/
def Machine.Undisturbed (m : Machine) : MachineAction → Prop
  | .sigchld _ reported =>
      match m.pc with
      | .start call _ id .status => Ends reported → ∀ other ∈ m.s.nodes, other ≠ call.jobid →
          (m.s.job other).status = .queued → ¬ m.s.MayUse other id
      | _ => True
  | _ => True

/-- What `getEligiblePrinter` tests, but for `busy`. -/
structure Spooler.Fits (s : Spooler) (jobid id : Nat) : Prop where
  enabled : (s.printer id).enabled = true
  eligible : (s.job jobid).eligiblePrinters.getLsbD id = true
  prints : (s.printer id).type = (s.job jobid).fileType ∨ ∃ path, path ≠ [] ∧
    getConversionPath s.typeArray (s.job jobid).fileType (s.printer id).type maxConversions = some path

theorem Spooler.Fits.mayRun (fits : s.Fits jobid id) (idle : (s.printer id).busy = false) :
    MayRun s (s.job jobid) id :=
  ⟨fits.enabled, fits.eligible, idle, fits.prints⟩

theorem Spooler.SameSetup.fits (same : s.SameSetup s') (fits : s.Fits jobid id) :
    s'.Fits jobid id := by
  constructor
  · rw [same.enabled]
    exact fits.enabled
  · rw [same.eligible]
    exact fits.eligible
  · rw [same.prints, same.files, same.types]
    exact fits.prints

theorem fits_of_suits {pass : Nat} (suited : suits s jobid pass id = some true) : s.Fits jobid id := by
  obtain ⟨allowed, prints⟩ := prints_of_suits suited
  rw [usable, Bool.and_eq_true] at allowed
  exact ⟨allowed.1, allowed.2, prints⟩

-- What the handler does to the printer that `runJob` has found idle for a job.

/-- The setup stays, and jobs leave the queue only. -/
structure Spooler.Serves (s s' : Spooler) : Prop where
  setup : s.SameSetup s'
  nodes : s'.nodes = s.nodes
  queued : ∀ jobid, (s'.job jobid).status = .queued → (s.job jobid).status = .queued

theorem Spooler.SameSetup.samePrinters (same : s.SameSetup s') : s.SamePrinters s' :=
  ⟨same.count, same.names, same.enabled⟩

theorem Talks.serves (talks : Talks s s') : s.Serves s' := by
  have setup := talks.setup
  obtain ⟨messages, rfl⟩ := talks
  exact ⟨setup, rfl, fun _ => id⟩

theorem Spooler.Serves.trans {s'' : Spooler} (first : s.Serves s') (second : s'.Serves s'') :
    s.Serves s'' where
  setup := first.setup.trans second.setup
  nodes := second.nodes.trans first.nodes
  queued := fun jobid queued => first.queued jobid (second.queued jobid queued)

theorem InOrder.serves {change : World → Nat → Spooler → Spooler} (inOrder : InOrder change)
    (world : World) (jobid : Nat) (s : Spooler) :
    s.Serves (change world jobid s) ∧ (change world jobid s).printer = s.printer := by
  rcases inOrder world jobid s with talks | ⟨status, next, changed⟩
  · refine ⟨talks.serves, ?_⟩
    obtain ⟨messages, same⟩ := talks
    rw [same]
  · rw [changed, changeStatus_eq]
    refine ⟨⟨⟨rfl, rfl, fun _ => rfl, fun _ => rfl, fun _ => rfl, fun other => ?_, fun other => ?_⟩, rfl,
      fun other queued => ?_⟩, rfl⟩
    · by_cases same : other = jobid <;> simp [same]
    · by_cases same : other = jobid <;> simp [same]
    · by_cases same : other = jobid
      · simp [same, next.left] at queued
      · simpa [same] using queued

theorem freePrinter_serves (name : Text) (s : Spooler) :
    s.Serves (freePrinter name s) ∧
      ∀ id, (s.printer id).busy = false → ((freePrinter name s).printer id).busy = false := by
  cases found : getPrinter s name with
  | none =>
      simp only [freePrinter, found]
      exact ⟨(talks_errorMessage _ _).serves, fun _ => id⟩
  | some freed =>
      rw [freePrinter_eq found]
      refine ⟨⟨⟨rfl, rfl, fun q => ?_, fun q => ?_, fun q => ?_, fun _ => rfl, fun _ => rfl⟩, rfl,
        fun _ => id⟩, fun q idle => ?_⟩
      all_goals by_cases same : q = freed <;> simp [same]
      exact idle

theorem enterHandler_serves {reported : Option (Int × ChildStatus)} {nodes : Option (List Nat)}
    (ran : enterHandler world reported s = some (s', nodes)) :
    s.Serves s' ∧ ∀ id, (s.printer id).busy = false → (s'.printer id).busy = false := by
  refine enterHandler_related (R := fun s s' => s.Serves s' ∧
    ∀ id, (s.printer id).busy = false → (s'.printer id).busy = false)
    ⟨(Talks.refl s).serves, fun _ => id⟩ (fun change reporting jobid => ?_)
    (fun name next kept => ?_) ran
  · obtain ⟨serves, printers⟩ := reporting.inOrder.serves world jobid s
    exact ⟨serves, fun id idle => printers ▸ idle⟩
  · obtain ⟨frees, idle⟩ := freePrinter_serves name next
    exact ⟨kept.1.trans frees, fun id was => idle id (kept.2 id was)⟩

theorem startJob_serves {file : Text} (ran : startJob world file jobid s = some s') : s.Serves s' := by
  rcases startJob_cases ran with talks | ⟨id, -, -, rfl⟩
  · exact talks.serves
  · refine ⟨s.started_setup file jobid id, rfl, fun other queued => ?_⟩
    by_cases same : other = jobid
    · simp [Spooler.started, same] at queued
    · simpa [Spooler.started, same] using queued

theorem runRound_serves (ran : runRound world jobid s = some s') : s.Serves s' := by
  unfold runRound at ran
  split at ran
  · exact startJob_serves ran
  · cases ran
    exact (Talks.refl s).serves

theorem runJobsFrom_rounds (jobid : Nat) (nodes : List Nat) (s : Spooler) :
    runJobsFrom world (jobid :: nodes) s =
      (runRound world jobid s).bind (runJobsFrom world nodes) :=
  runJobsFrom_cons world jobid nodes s

theorem runJobsFrom_serves {nodes : List Nat} (ran : runJobsFrom world nodes s = some s') :
    s.Serves s' := by
  induction nodes generalizing s with
  | nil =>
      cases ran
      exact (Talks.refl _).serves
  | cons first nodes ih =>
      rw [runJobsFrom_rounds] at ran
      obtain ⟨next, round, rest⟩ := Option.bind_eq_some_iff.mp ran
      exact (runRound_serves round).trans (ih rest)

/-- No other QUEUED job of the list takes the printer, so it is idle as long as the job is QUEUED. -/
theorem runJobsFrom_idle {nodes : List Nat}
    (spared : ∀ other ∈ nodes, other ≠ jobid → (s.job other).status = .queued → ¬ s.MayUse other id)
    (idle : (s.job jobid).status = .queued → (s.printer id).busy = false)
    (ran : runJobsFrom world nodes s = some s') :
    (s'.job jobid).status = .queued → (s'.printer id).busy = false := by
  induction nodes generalizing s with
  | nil =>
      cases ran
      exact idle
  | cons first nodes ih =>
      rw [runJobsFrom_rounds] at ran
      obtain ⟨next, round, rest⟩ := Option.bind_eq_some_iff.mp ran
      have serves := runRound_serves round
      refine ih (fun other member different queued uses => ?_) ?_ rest
      · exact spared other (List.mem_cons_of_mem first member) different (serves.queued other queued)
          (serves.setup.mayUse uses)
      · intro queued
        have free := idle (serves.queued jobid queued)
        unfold runRound at round
        split at round
        · rename_i waiting
          rcases startJob_cases round with ⟨messages, rfl⟩ | ⟨taken, takes, -, rfl⟩
          · exact free
          · have other : first ≠ jobid := by
              rintro rfl
              simp [Spooler.started] at queued
            have apart : id ≠ taken := by
              rintro rfl
              exact spared first List.mem_cons_self other waiting takes.mayUse
            simpa [Spooler.started, apart] using free
        · cases round
          exact free

theorem printHandler_serves {reported : Option (Int × ChildStatus)}
    (ran : printHandler world reported s = some s') : s.Serves s' := by
  rw [printHandler_eq] at ran
  obtain ⟨⟨entered, nodes⟩, enters, leaves⟩ := Option.bind_eq_some_iff.mp ran
  exact (enterHandler_serves enters).1.trans (runJobsFrom_serves leaves)

theorem printHandler_idle {reported : Option (Int × ChildStatus)}
    (spared : Ends reported → ∀ other ∈ s.nodes, other ≠ jobid → (s.job other).status = .queued →
      ¬ s.MayUse other id)
    (idle : (s.job jobid).status = .queued → (s.printer id).busy = false)
    (ran : printHandler world reported s = some s') :
    (s'.job jobid).status = .queued → (s'.printer id).busy = false := by
  rw [printHandler_eq] at ran
  obtain ⟨⟨entered, nodes⟩, enters, leaves⟩ := Option.bind_eq_some_iff.mp ran
  obtain ⟨serves, frees⟩ := enterHandler_serves enters
  have now : (entered.job jobid).status = .queued → (entered.printer id).busy = false :=
    fun queued => frees id (idle (serves.queued jobid queued))
  rcases enterHandler_cases enters with ⟨rfl, -⟩ | ⟨rfl, -⟩ | ⟨ends, rfl, -⟩
  · cases leaves
    exact now
  · cases leaves
    exact now
  · refine runJobsFrom_idle (fun other member different queued uses => ?_) now leaves
    exact spared ends other (serves.nodes ▸ member) different (serves.queued other queued)
      (serves.setup.mayUse uses)

-- What the main program knows of the printer that it is about to use.

def Pc.Fitting (s : Spooler) : Pc → Prop
  | .find call printername =>
      ∃ choice, (s.printer choice).name = printername ∧ s.Fits call.jobid choice
  | .check call _ id => s.Fits call.jobid id
  | .start call _ id .status => s.Fits call.jobid id ∧
      ((s.job call.jobid).status = .queued → (s.printer id).busy = false)
  | _ => True

structure Machine.Fitting (m : Machine) : Prop where
  registered : m.s.Registered
  fits : m.pc.Fitting m.s

theorem Machine.Fitting.starts {s : Spooler} (fitting : m.Fitting) {action : MachineAction}
    (starts : m.Starts action s jobid id) : MayRun s (s.job jobid) id := by
  cases starts with
  | main world call printername id here queued =>
      have fits := fitting.fits
      rw [here] at fits
      exact fits.1.mayRun (fits.2 queued)
  | handler world reported front rest entered s next jobid id enters comes queued ran running chosen =>
      have setup := (enterHandler_serves enters).1.setup.trans (runJobsFrom_serves comes).setup
      have registered := setup.samePrinters.registered fitting.registered
      rw [runRound, if_pos queued] at ran
      obtain ⟨id', chosen', may⟩ := startJob_mayRun registered ran queued running
      rw [chosen] at chosen'
      cases chosen'
      have same := (startJob_serves ran).setup
      exact ⟨may.enabled, same.eligible jobid ▸ may.eligible, may.idle, same.files jobid ▸ may.prints⟩

theorem finish_fitting {call : Call} (registered : s.Registered) : (finish call s).Fitting := by
  unfold finish
  split
  · rename_i prompt _
    cases prompt
    · exact ⟨registered, trivial⟩
    · exact ⟨registered, trivial⟩
  · exact ⟨registered, trivial⟩

theorem readLine_fitting {prompt : Bool} {input : Text} (registered : s.Registered)
    (ran : readLine world prompt input s = some m) : m.Fitting := by
  have outside : ∀ {s : Spooler}, s.Registered → Machine.Fitting ⟨s, afterCommand prompt s⟩ := by
    intro s registered
    cases prompt
    · exact ⟨registered, trivial⟩
    · exact ⟨registered, trivial⟩
  rcases readLine_cases ran with
    ⟨file, printers, after, job, made, ended⟩ | ⟨command, after, -, executed, rfl⟩
  · have kept := (newPrintJob_samePrinters made).registered registered
    rcases ended with ⟨-, rfl⟩ | ⟨jobid, -, rfl⟩
    · exact outside kept
    · exact ⟨kept, trivial⟩
  · exact outside (execute_registered registered executed)

theorem startStep_fitting {call : Call} {name : Text} {stage : Stage} (registered : s.Registered)
    (ran : startStep world call name id s stage = some m) : m.Fitting := by
  cases stage with
  | status | chosen | time | message | marked =>
      cases ran
      exact ⟨registered, trivial⟩
  | mark =>
      unfold startStep at ran
      dsimp only at ran
      split at ran
      · cases ran
        exact ⟨registered, trivial⟩
      · rename_i marked _
        cases ran
        exact ⟨(setBusy_samePrinters marked true s).registered registered, trivial⟩
  | process =>
      obtain ⟨after, forked, rfl⟩ := Option.map_eq_some_iff.mp ran
      apply finish_fitting
      unfold runJobProcess at forked
      dsimp only at forked
      split at forked
      · cases forked
        exact registered
      · cases forked

theorem mainStep_fitting (fitting : m.Fitting) (ran : mainStep world m = some m') : m'.Fitting := by
  obtain ⟨s, pc⟩ := m
  obtain ⟨registered, fits⟩ := fitting
  unfold mainStep at ran
  cases pc with
  | idle => cases ran
  | announce call =>
      cases ran
      exact ⟨registered, trivial⟩
  | lookup call =>
      dsimp only at ran
      split at ran
      · cases ran
        exact finish_fitting (registered.talks (talks_errorMessage _ _))
      · cases ran
        exact ⟨registered, trivial⟩
  | search call pass remaining =>
      cases remaining with
      | zero =>
          dsimp only at ran
          split at ran
          · cases ran
            exact ⟨registered, trivial⟩
          · cases ran
            exact finish_fitting registered
      | succ remaining =>
          simp only [Option.bind_eq_bind, Option.bind_eq_some_iff] at ran
          obtain ⟨good, suited, ran⟩ := ran
          cases good with
          | true =>
              cases ran
              exact ⟨registered, _, rfl, fits_of_suits suited⟩
          | false =>
              cases ran
              exact ⟨registered, trivial⟩
  | find call name =>
      obtain ⟨choice, named, fits⟩ := fits
      dsimp only at ran named registered fits
      rw [← named, registered choice fits.enabled] at ran
      cases ran
      exact ⟨registered, fits⟩
  | check call name id =>
      dsimp only at ran
      split at ran
      · cases ran
        exact finish_fitting registered
      · rename_i idle
        cases ran
        exact ⟨registered, fits, fun _ => Bool.eq_false_iff.mpr idle⟩
  | start call name id stage => exact startStep_fitting registered ran
  | test nodes =>
      cases nodes with
      | nil =>
          cases ran
          exact ⟨registered, trivial⟩
      | cons jobid nodes =>
          dsimp only at ran
          split at ran
          · cases ran
            exact ⟨registered, trivial⟩
          · cases ran
            exact ⟨registered, trivial⟩
  | remove =>
      cases ran
      obtain ⟨left, -, -, removed⟩ := removeJobs_eq world s
      refine ⟨?_, trivial⟩
      change (removeJobs world s).Registered
      rw [removed]
      exact registered

/-- A run of the handler that leaves the printer alone. -/
theorem sigchld_fitting {reported : Option (Int × ChildStatus)} (fitting : m.Fitting)
    (undisturbed : m.Undisturbed (.sigchld world reported))
    (ran : printHandler world reported m.s = some s') : Machine.Fitting ⟨s', m.pc⟩ := by
  obtain ⟨s, pc⟩ := m
  obtain ⟨registered, fits⟩ := fitting
  have setup := (printHandler_serves ran).setup
  refine ⟨setup.samePrinters.registered registered, ?_⟩
  cases pc with
  | find call name =>
      obtain ⟨choice, named, fits⟩ := fits
      exact ⟨choice, (setup.names choice).trans named, setup.fits fits⟩
  | check call name id => exact setup.fits fits
  | start call name id stage =>
      cases stage with
      | status =>
          obtain ⟨fits, idle⟩ := fits
          exact ⟨setup.fits fits, printHandler_idle undisturbed idle ran⟩
      | _ => trivial
  | _ => trivial

theorem machineStep_fitting (action : MachineAction) (fitting : m.Fitting)
    (undisturbed : m.Undisturbed action) (ran : machineStep m action = some m') : m'.Fitting := by
  cases action with
  | line world prompt input =>
      unfold machineStep at ran
      dsimp only at ran
      split at ran
      · exact readLine_fitting fitting.registered ran
      · cases ran
  | main world => exact mainStep_fitting fitting ran
  | sigchld world reported =>
      unfold machineStep at ran
      dsimp only at ran
      split at ran
      · obtain ⟨s', handled, rfl⟩ := Option.map_eq_some_iff.mp ran
        exact sigchld_fitting fitting undisturbed handled
      · cases ran

-- Every job that leaves QUEUED has been started.

theorem newPrintJob_queued {file : Text} {printers : Option Text} {job : Option Nat}
    (made : newPrintJob world file printers s = (s', job)) (queued : (s.job jobid).status = .queued) :
    (s'.job jobid).status = .queued := by
  rcases newPrintJob_cases made with
    ⟨⟨messages, rfl⟩, -⟩ | ⟨before, name, type, set, ⟨messages, rfl⟩, rfl, -⟩
  · exact queued
  · by_cases new : jobid = s.jobCount
    · simp [newJob, addJob, new]
    · simpa [newJob, addJob, new] using queued

theorem readLine_queued {prompt : Bool} {input : Text} (ran : readLine world prompt input s = some m)
    (queued : (s.job jobid).status = .queued) : (m.s.job jobid).status = .queued := by
  rcases readLine_cases ran with
    ⟨file, printers, after, job, made, ended⟩ | ⟨command, after, other, executed, rfl⟩
  · have waits := newPrintJob_queued made queued
    rcases ended with ⟨-, rfl⟩ | ⟨jobid, -, rfl⟩
    · exact waits
    · exact waits
  · rw [(execute_quiet other executed).jobs]
    exact queued

theorem finish_job (call : Call) (s : Spooler) : (finish call s).s.job = s.job := by
  unfold finish
  split <;> rfl

theorem startStep_queued {call : Call} {name : Text} {stage : Stage}
    (ran : startStep world call name id s stage = some m) (other : stage ≠ .status ∨ jobid ≠ call.jobid)
    (queued : (s.job jobid).status = .queued) : (m.s.job jobid).status = .queued := by
  cases stage with
  | status =>
      have different := other.resolve_left (fun changes => changes rfl)
      cases ran
      simpa [setStatus, Spooler.setJob, Spooler.emit, different] using queued
  | chosen =>
      cases ran
      by_cases same : jobid = call.jobid
      · subst same
        simpa [setChosen, Spooler.setJob, Spooler.emit] using queued
      · simpa [setChosen, Spooler.setJob, Spooler.emit, same] using queued
  | time =>
      cases ran
      by_cases same : jobid = call.jobid
      · subst same
        simpa [setChangeTime, Spooler.setJob] using queued
      · simpa [setChangeTime, Spooler.setJob, same] using queued
  | message | marked =>
      cases ran
      exact queued
  | mark =>
      unfold startStep at ran
      dsimp only at ran
      split at ran <;> cases ran <;> exact queued
  | process =>
      obtain ⟨after, forked, rfl⟩ := Option.map_eq_some_iff.mp ran
      rw [finish_job]
      unfold runJobProcess at forked
      dsimp only at forked
      split at forked
      · cases forked
        by_cases same : jobid = call.jobid
        · subst same
          simpa [Spooler.setJob, Spooler.emit] using queued
        · simpa [Spooler.setJob, Spooler.emit, same] using queued
      · cases forked

theorem mainStep_queued (ran : mainStep world m = some m') (queued : (m.s.job jobid).status = .queued)
    (left : (m'.s.job jobid).status ≠ .queued) :
    ∃ call name id, m.pc = .start call name id .status ∧ jobid = call.jobid := by
  obtain ⟨s, pc⟩ := m
  by_contra none
  push Not at none
  apply left
  unfold mainStep at ran
  cases pc with
  | idle => cases ran
  | announce call =>
      cases ran
      exact queued
  | lookup call =>
      dsimp only at ran
      split at ran
      · cases ran
        rw [finish_job]
        exact queued
      · cases ran
        exact queued
  | search call pass remaining =>
      cases remaining with
      | zero =>
          dsimp only at ran
          split at ran
          · cases ran
            exact queued
          · cases ran
            rw [finish_job]
            exact queued
      | succ remaining =>
          simp only [Option.bind_eq_bind, Option.bind_eq_some_iff] at ran
          obtain ⟨good, -, ran⟩ := ran
          cases good <;> cases ran <;> exact queued
  | find call name =>
      dsimp only at ran
      split at ran
      · cases ran
        rw [finish_job]
        exact queued
      · cases ran
        exact queued
  | check call name id =>
      dsimp only at ran
      split at ran
      · cases ran
        rw [finish_job]
        exact queued
      · cases ran
        exact queued
  | start call name id stage =>
      apply startStep_queued ran _ queued
      by_cases first : stage = .status
      · subst first
        exact .inr (none call name id rfl)
      · exact .inl first
  | test nodes =>
      cases nodes with
      | nil =>
          cases ran
          exact queued
      | cons first nodes =>
          dsimp only at ran
          split at ran <;> cases ran <;> exact queued
  | remove =>
      cases ran
      obtain ⟨nodes, -, -, removed⟩ := removeJobs_eq world s
      change ((removeJobs world s).job jobid).status = .queued
      rw [removed]
      exact queued

theorem startJob_leaves {file : Text} {first : Nat} (ran : startJob world file first s = some s')
    (queued : (s.job jobid).status = .queued) (left : (s'.job jobid).status ≠ .queued) :
    first = jobid ∧ (s'.job jobid).status = .running ∧ ∃ id, (s'.job jobid).chosenPrinter = some id := by
  rcases startJob_cases ran with ⟨messages, rfl⟩ | ⟨id, -, -, rfl⟩
  · exact absurd queued left
  · by_cases same : jobid = first
    · subst same
      exact ⟨rfl, by simp [Spooler.started], id, by simp [Spooler.started]⟩
    · simp [Spooler.started, same, queued] at left

/-- The round of the loop in which a job is started. -/
theorem runJobsFrom_leaves {nodes : List Nat} (ran : runJobsFrom world nodes s = some s')
    (queued : (s.job jobid).status = .queued) (left : (s'.job jobid).status ≠ .queued) :
    ∃ front rest now next, nodes = front ++ jobid :: rest ∧ runJobsFrom world front s = some now ∧
      (now.job jobid).status = .queued ∧ runRound world jobid now = some next ∧
      (next.job jobid).status = .running ∧ ∃ id, (next.job jobid).chosenPrinter = some id := by
  induction nodes generalizing s with
  | nil =>
      cases ran
      exact absurd queued left
  | cons first nodes ih =>
      rw [runJobsFrom_rounds] at ran
      obtain ⟨next, round, rest⟩ := Option.bind_eq_some_iff.mp ran
      by_cases stays : (next.job jobid).status = .queued
      · obtain ⟨front, back, now, after, split, comes, found⟩ := ih rest stays
        refine ⟨first :: front, back, now, after, by rw [split]; rfl, ?_, found⟩
        rw [runJobsFrom_rounds, round]
        exact comes
      · have starts := round
        unfold runRound at starts
        split at starts
        · obtain ⟨rfl, running, chosen⟩ := startJob_leaves starts queued stays
          exact ⟨[], nodes, s, next, rfl, rfl, queued, round, running, chosen⟩
        · cases starts
          exact absurd queued stays

theorem machineStep_starts {action : MachineAction} (ran : machineStep m action = some m')
    (queued : (m.s.job jobid).status = .queued) (left : (m'.s.job jobid).status ≠ .queued) :
    ∃ s id, m.Starts action s jobid id := by
  cases action with
  | line world prompt input =>
      unfold machineStep at ran
      dsimp only at ran
      split at ran
      · exact absurd (readLine_queued ran queued) left
      · cases ran
  | main world =>
      obtain ⟨call, name, id, here, rfl⟩ := mainStep_queued ran queued left
      exact ⟨m.s, id, .main world call name id here queued⟩
  | sigchld world reported =>
      unfold machineStep at ran
      dsimp only at ran
      split at ran
      · obtain ⟨s', handled, rfl⟩ := Option.map_eq_some_iff.mp ran
        rw [printHandler_eq] at handled
        obtain ⟨⟨entered, nodes⟩, enters, leaves⟩ := Option.bind_eq_some_iff.mp handled
        have waits := (enterHandler_spares enters).queued jobid queued
        cases nodes with
        | none =>
            cases leaves
            exact absurd waits left
        | some nodes =>
            obtain ⟨front, rest, now, next, rfl, comes, queued', round, running, id, chosen⟩ :=
              runJobsFrom_leaves leaves waits left
            exact ⟨now, id, .handler world reported front rest entered now next jobid id enters comes
              queued' round running chosen⟩
      · cases ran

/-- In every run in which the handler leaves the printers of `runJob` alone, a job goes from QUEUED to
RUNNING only on a printer that it may be run on. -/
theorem mayRun_of_undisturbed (reached : Runs.Reachable machineStep Machine.Undisturbed Machine.init m)
    {action : MachineAction} (ran : machineStep m action = some m') (jobid : Nat) :
    (∀ s id, m.Starts action s jobid id → MayRun s (s.job jobid) id) ∧
      ((m.s.job jobid).status = .queued → (m'.s.job jobid).status ≠ .queued →
        ∃ s id, m.Starts action s jobid id) := by
  have start : Machine.init.Fitting := ⟨fun _ enabled => (by cases enabled), trivial⟩
  have fitting := reached.invariant Machine.Fitting start
    fun _ action _ fitting undisturbed ran => machineStep_fitting action fitting undisturbed ran
  exact ⟨fun s id starts => fitting.starts starts, machineStep_starts ran⟩

theorem Machine.undisturbed_of_calm (m : Machine) (action : MachineAction)
    (calm : m.calm action = true) : m.Undisturbed action := by
  obtain ⟨s, pc⟩ := m
  cases action with
  | line _ _ _ => trivial
  | main _ => trivial
  | sigchld _ _ =>
      cases pc with
      | idle => trivial
      | _ => cases calm

/-- The main program is about to set a QUEUED job RUNNING on a printer of which `holds` is true. -/
def Machine.about (m : Machine) (holds : Printer → Bool) : Bool :=
  match m.pc with
  | .start call _ id .status => (m.s.job call.jobid).status = .queued && holds (m.s.printer id)
  | _ => false

theorem Machine.starts_of_about {holds : Printer → Bool} (about : m.about holds = true) :
    ∃ jobid id, m.Starts (.main quietWorld) m.s jobid id ∧ holds (m.s.printer id) = true := by
  unfold Machine.about at about
  split at about
  · rename_i call name id here
    rw [Bool.and_eq_true, decide_eq_true_eq] at about
    exact ⟨call.jobid, id, .main quietWorld call name id here about.1, about.2⟩
  · cases about

/-- A job is printed, its child ends, and another job is set RUNNING. -/
theorem mayRun_undisturbed_example : ∃ m s jobid id,
    Runs.Reachable machineStep Machine.Undisturbed Machine.init m ∧
      m.Starts (.main quietWorld) s jobid id ∧ MayRun s (s.job jobid) id := by
  obtain ⟨m, -, reached, passed⟩ := @Runs.exists_reachable _ _ machineStep _ Machine.init
    (printedJob ++ batchOf ["print b.txt"] ++ mainSteps 5) _ Machine.undisturbed_of_calm
    (by decide +kernel) (fun m => m.about fun _ => (machineStep m (.main quietWorld)).isSome)
    (by decide +kernel)
  obtain ⟨jobid, id, starts, goes⟩ := Machine.starts_of_about passed
  obtain ⟨m', ran⟩ := Option.isSome_iff_exists.mp goes
  exact ⟨m, m.s, jobid, id, reached, starts, (mayRun_of_undisturbed reached ran jobid).1 m.s id starts⟩

/-- A job runs on `q`, one waits for `p`, which is enabled late, and a third one is about to be run
there: the child of the first ends, and the handler runs the second one on `p`. -/
def takenAway : List MachineAction :=
  batchOf ["type txt", "printer p txt", "printer q txt", "enable q", "print b.txt q"] ++
    mainSteps 13 ++ batchOf ["print a.txt p"] ++ mainSteps 11 ++
    batchOf ["enable p", "print c.txt p"] ++ mainSteps 5 ++
    [.sigchld quietWorld (some (100, .exited 0))]

/-- The third job is set RUNNING on a busy printer. -/
theorem not_always_mayRun : ¬ ∀ m, Runs.Reachable machineStep Runs.Any Machine.init m →
    ∀ action s jobid id, m.Starts action s jobid id → MayRun s (s.job jobid) id := by
  apply Runs.not_forall_reachable takenAway (Runs.follows_any _) (fun m => m.about Printer.busy)
    (by decide +kernel)
  intro m about always
  obtain ⟨jobid, id, starts, busy⟩ := Machine.starts_of_about about
  have idle := (always _ m.s jobid id starts).idle
  rw [busy] at idle
  cases idle

end Audible.Imprimer
