import Audible.PrinterOnce

set_option autoImplicit false

/- The process groups that `pause`, `resume` and `cancel` signal, over every interleaving of the main
program with the handler. -/
namespace Audible.Imprimer

variable {s s' : Spooler} {world : World} {jobid id : Nat} {waiting : Option Nat}

/-- A process has been forked, as the leader of a group, for a job. -/
def Led (events : List Event) (jobid : Nat) (pgid : Int) : Prop :=
  0 < pgid ∧ ∃ file id, Event.forked jobid file id pgid ∈ events

theorem Led.more {events added : List Event} {pgid : Int} (led : Led events jobid pgid) :
    Led (events ++ added) jobid pgid := by
  obtain ⟨positive, file, id, forked⟩ := led
  exact ⟨positive, file, id, List.mem_append_left _ forked⟩

/-- Every signal goes to the group of a job whose process has been forked before. -/
def Aimed (events : List Event) : Prop :=
  ∀ before after pgid signal, events = before ++ .killpg pgid signal :: after →
    ∃ jobid, Led before jobid pgid

theorem Aimed.append {events added : List Event} (aimed : Aimed events)
    (calm : ∀ event ∈ added, ∀ pgid signal, event ≠ .killpg pgid signal) : Aimed (events ++ added) := by
  intro before after pgid signal split
  rcases List.append_eq_append_iff.mp split with ⟨more, rfl, rest⟩ | ⟨more, rfl, rest⟩
  · exact absurd rfl (calm (.killpg pgid signal) (by rw [rest]; simp) pgid signal)
  · cases more with
    | nil =>
        rw [List.nil_append] at rest
        exact absurd rfl (calm (.killpg pgid signal) (by rw [← rest]; simp) pgid signal)
    | cons event more =>
        rw [List.cons_append] at rest
        cases rest
        exact aimed before more pgid signal rfl

theorem Aimed.signal {events : List Event} {pgid : Int} (aimed : Aimed events) (signal : Signal)
    (led : Led events jobid pgid) : Aimed (events ++ [.killpg pgid signal]) := by
  intro before after pgid' signal' split
  rcases List.eq_nil_or_concat after with rfl | ⟨more, last, rfl⟩
  · obtain ⟨rfl, same⟩ := List.append_inj' split rfl
    cases same
    exact ⟨jobid, led⟩
  · rw [List.concat_eq_append, ← List.cons_append, ← List.append_assoc] at split
    obtain ⟨rfl, -⟩ := List.append_inj' split rfl
    exact aimed before more pgid' signal' rfl

/-- A job that is not QUEUED has a process that has been forked for it, unless `runJob` is still
about to fork it. -/
structure Grouped (s : Spooler) (waiting : Option Nat) : Prop where
  fresh : ∀ jobid, (s.job jobid).status = .queued → (s.job jobid).pgid = 0
  led : ∀ jobid, (s.job jobid).status ≠ .queued → waiting ≠ some jobid →
    Led s.events jobid (s.job jobid).pgid
  forking : ∀ jobid, waiting = some jobid → (s.job jobid).status ≠ .queued
  aimed : Aimed s.events

theorem grouped_init : Grouped Spooler.init none := by
  refine ⟨fun _ _ => rfl, fun _ started _ => absurd rfl started, fun _ none => absurd none (by simp), ?_⟩
  intro before after pgid signal split
  cases before <;> cases split

/-- Statements that set other fields of a job, or none, and signal nobody. -/
structure Spooler.Plain (s s' : Spooler) : Prop where
  statuses : ∀ jobid, (s'.job jobid).status = (s.job jobid).status
  groups : ∀ jobid, (s'.job jobid).pgid = (s.job jobid).pgid
  events : ∃ added, s'.events = s.events ++ added ∧
    ∀ event ∈ added, ∀ pgid signal, event ≠ .killpg pgid signal

theorem Grouped.plain (grouped : Grouped s waiting) (plain : s.Plain s') : Grouped s' waiting := by
  obtain ⟨added, events, calm⟩ := plain.events
  refine ⟨fun jobid queued => ?_, fun jobid started free => ?_, fun jobid same => ?_, ?_⟩
  · rw [plain.groups]
    exact grouped.fresh jobid ((plain.statuses jobid).symm.trans queued)
  · rw [events, plain.groups]
    rw [plain.statuses] at started
    exact (grouped.led jobid started free).more
  · rw [plain.statuses]
    exact grouped.forking jobid same
  · rw [events]
    exact grouped.aimed.append calm

theorem Talks.plain (talks : Talks s s') : s.Plain s' := by
  obtain ⟨messages, rfl⟩ := talks
  refine ⟨fun _ => rfl, fun _ => rfl, _, rfl, fun event member pgid signal => ?_⟩
  obtain ⟨message, -, rfl⟩ := List.mem_map.mp member
  exact fun same => by cases same

/-- A job leaves QUEUED, or has left it. -/
theorem Grouped.move {added : List Event} {waiting' : Option Nat} (grouped : Grouped s waiting)
    (events : s'.events = s.events ++ added)
    (calm : ∀ event ∈ added, ∀ pgid signal, event ≠ .killpg pgid signal)
    (others : ∀ other, other ≠ jobid → s'.job other = s.job other)
    (left : (s'.job jobid).status ≠ .queued)
    (waits : ∀ other, other ≠ jobid → (waiting' = some other ↔ waiting = some other))
    (own : waiting' ≠ some jobid → Led s'.events jobid (s'.job jobid).pgid) : Grouped s' waiting' := by
  refine ⟨fun other queued => ?_, fun other started free => ?_, fun other forks => ?_, ?_⟩
  · by_cases same : other = jobid
    · exact absurd (same ▸ queued) left
    · rw [others other same] at queued ⊢
      exact grouped.fresh other queued
  · by_cases same : other = jobid
    · subst same
      exact own free
    · rw [others other same] at started ⊢
      rw [events]
      exact (grouped.led other started fun before => free ((waits other same).mpr before)).more
  · by_cases same : other = jobid
    · exact same ▸ left
    · rw [others other same]
      exact grouped.forking other ((waits other same).mp forks)
  · rw [events]
    exact grouped.aimed.append calm

theorem Grouped.setStatus (grouped : Grouped s none) :
    Grouped (setStatus jobid .running s) (some jobid) := by
  refine @Grouped.move _ _ jobid _ _ _ grouped rfl ?_ (fun other apart => ?_) ?_
    (fun other apart => by simp [Ne.symm apart]) (fun free => absurd rfl free)
  · intro event member
    rw [List.mem_singleton.mp member]
    exact fun _ _ same => by cases same
  · exact Function.update_of_ne apart ..
  · simp [Imprimer.setStatus, Spooler.setJob, Spooler.emit]

/-- A change of status that the handler makes. -/
theorem Grouped.changeStatus {status : JobStatus} (grouped : Grouped s waiting)
    (left : (s.job jobid).status ≠ .queued) (next : status ≠ .queued) :
    Grouped (changeStatus world jobid status s) waiting := by
  rw [changeStatus_eq]
  refine @Grouped.move _ _ jobid _ _ _ grouped rfl ?_ (fun other apart => ?_) ?_
    (fun _ _ => Iff.rfl) (fun free => ?_)
  · intro event member
    simp only [List.mem_cons, List.not_mem_nil, or_false] at member
    rcases member with rfl | rfl <;> exact fun _ _ same => by cases same
  · exact Function.update_of_ne apart ..
  · simpa using next
  · simp only [Function.update_self]
    exact (grouped.led jobid left free).more

theorem Grouped.started {file : Text} (grouped : Grouped s waiting)
    (positive : 0 < world.pid s.forks) : Grouped (s.started world file jobid id) waiting := by
  refine @Grouped.move _ _ jobid _ _ _ grouped rfl ?_ (fun other apart => ?_) ?_
    (fun _ _ => Iff.rfl) (fun _ => ?_)
  · intro event member
    simp only [List.mem_cons, List.not_mem_nil, or_false] at member
    rcases member with rfl | rfl | rfl | rfl | rfl | rfl <;> exact fun _ _ same => by cases same
  · exact Function.update_of_ne apart ..
  · simp [Spooler.started]
  · simp only [Spooler.started, Function.update_self]
    exact ⟨positive, file, id, by simp⟩

theorem Grouped.process {file : Text} (grouped : Grouped s (some jobid))
    (ran : runJobProcess world file jobid id s = some s') : Grouped s' none := by
  unfold runJobProcess at ran
  dsimp only at ran
  split at ran
  · rename_i positive
    cases ran
    refine @Grouped.move _ _ jobid _ _ _ grouped rfl ?_ (fun other apart => ?_) ?_
      (fun other apart => by simp [Ne.symm apart]) (fun _ => ?_)
    · intro event member
      rw [List.mem_singleton.mp member]
      exact fun _ _ same => by cases same
    · exact Function.update_of_ne apart ..
    · simpa [Spooler.setJob, Spooler.emit] using grouped.forking jobid rfl
    · simp only [Spooler.setJob, Spooler.emit, Function.update_self]
      exact ⟨positive, file, id, by simp⟩
  · cases ran

theorem Grouped.newJob (grouped : Grouped s none) (world : World) (name type : Text)
    (set : BitVec 32) : Grouped (newJob world name type 0 set s) none := by
  have jobs : ∀ jobid, (Imprimer.newJob world name type 0 set s).job jobid = s.job jobid ∨
      ((Imprimer.newJob world name type 0 set s).job jobid).status = .queued ∧
        ((Imprimer.newJob world name type 0 set s).job jobid).pgid = 0 := by
    intro jobid
    by_cases new : jobid = s.jobCount
    · right
      simp [Imprimer.newJob, addJob, new]
    · left
      exact Function.update_of_ne new ..
  refine ⟨fun jobid queued => ?_, fun jobid started free => ?_, fun _ none => absurd none (by simp),
    grouped.aimed⟩
  · rcases jobs jobid with same | ⟨-, group⟩
    · rw [same] at queued ⊢
      exact grouped.fresh jobid queued
    · exact group
  · rcases jobs jobid with same | ⟨queued, -⟩
    · rw [same] at started ⊢
      exact grouped.led jobid started free
    · exact absurd queued started

theorem plain_freePrinter (name : Text) (s : Spooler) : s.Plain (freePrinter name s) := by
  cases found : getPrinter s name with
  | none =>
      unfold freePrinter
      rw [found]
      exact (talks_errorMessage _ _).plain
  | some id =>
      rw [freePrinter_eq found]
      refine ⟨fun _ => rfl, fun _ => rfl, _, rfl, fun event member => ?_⟩
      rw [List.mem_singleton.mp member]
      exact fun _ _ same => by cases same

/-- The functions by which the handler changes the job that it has found. -/
theorem InOrder.grouped {change : World → Nat → Spooler → Spooler} {pid : Int} (inOrder : InOrder change)
    (positive : 0 < pid) (found : getJobByPID s pid = some jobid) (grouped : Grouped s waiting) :
    Grouped (change world jobid s) waiting := by
  have started : (s.job jobid).status ≠ .queued := by
    intro queued
    have zero := grouped.fresh jobid queued
    rw [(mem_nodes_of_getJobByPID found).2] at zero
    omega
  rcases inOrder world jobid s with talks | ⟨status, next, changed⟩
  · exact grouped.plain talks.plain
  · rw [changed]
    exact grouped.changeStatus started next.left

theorem endJob_grouped {finish : World → Nat → Spooler → Spooler} {pid : Int}
    (inOrder : InOrder finish) (positive : 0 < pid) (grouped : Grouped s waiting)
    (ran : endJob world finish pid s = some s') : Grouped s' waiting := by
  simp only [endJob, Option.bind_eq_bind, Option.bind_eq_some_iff] at ran
  obtain ⟨jobid, found, freed, released, ran⟩ := ran
  obtain ⟨id, -, rfl⟩ := Option.map_eq_some_iff.mp released
  refine @runJobs_invariant _ _ _ (fun s => Grouped s waiting)
    ((inOrder.grouped positive found grouped).plain (plain_freePrinter _ _)) ?_ ran
  intro s next jobid grouped _ _ started
  rcases startJob_cases started with talks | ⟨id, -, forked, rfl⟩
  · exact grouped.plain talks.plain
  · exact grouped.started forked

theorem printHandler_grouped {reported : Option (Int × ChildStatus)}
    (positive : ∀ child ∈ reported, 0 < child.1) (grouped : Grouped s waiting)
    (ran : printHandler world reported s = some s') : Grouped s' waiting := by
  unfold printHandler at ran
  split at ran
  · cases ran
    exact grouped
  · exact endJob_grouped inOrder_completeJob (positive _ rfl) grouped ran
  · exact endJob_grouped inOrder_abortJob (positive _ rfl) grouped ran
  · cases ran
    exact grouped
  · obtain ⟨jobid, found, rfl⟩ := Option.map_eq_some_iff.mp ran
    exact inOrder_pauseJob.grouped (positive _ rfl) found grouped
  · obtain ⟨jobid, found, rfl⟩ := Option.map_eq_some_iff.mp ran
    exact inOrder_resumeJob.grouped (positive _ rfl) found grouped
  · exact endJob_grouped inOrder_abortJob (positive _ rfl) grouped ran

def Spooler.Reports (s s' : Spooler) : Prop :=
  ∃ messages : List Message, s'.events = s.events ++ messages.map .message

theorem reports_none (same : s'.events = s.events) : s.Reports s' := ⟨[], by simp [same]⟩

theorem Talks.reports (talks : Talks s s') : s.Reports s' := by
  obtain ⟨messages, rfl⟩ := talks
  exact ⟨messages, rfl⟩

theorem Spooler.Reports.trans {s'' : Spooler} (first : s.Reports s') (second : s'.Reports s'') :
    s.Reports s'' := by
  obtain ⟨messages, events⟩ := first
  obtain ⟨more, events'⟩ := second
  exact ⟨messages ++ more, by rw [events', events, List.map_append, List.append_assoc]⟩

theorem Spooler.Reports.plain (reports : s.Reports s') (jobs : s'.job = s.job) : s.Plain s' := by
  obtain ⟨messages, events⟩ := reports
  refine ⟨fun _ => by rw [jobs], fun _ => by rw [jobs], _, events, fun event member pgid signal => ?_⟩
  obtain ⟨message, -, rfl⟩ := List.mem_map.mp member
  exact fun same => by cases same

theorem DeclaresTypes.reports (declares : DeclaresTypes s s') : s.Reports s' := by
  obtain ⟨types, talks⟩ := declares
  have same : s.Reports { s with typeArray := types } := reports_none rfl
  exact same.trans talks.reports

theorem newPrinterIn_reports (memory : Memory) (name type : Option Text) (s : Spooler) :
    s.Reports (newPrinterIn memory name type s) := by
  rcases newPrinterIn_cases memory name type s with talks | ⟨name, type, made⟩
  · exact talks.reports
  · rw [made]
    exact ⟨[_], rfl⟩

theorem disablePrinter_reports (name : Text) (s : Spooler) : s.Reports (disablePrinter name s) := by
  unfold disablePrinter
  split
  · exact (talks_errorMessage _ _).reports
  · split
    · exact (talks_errorMessage _ _).reports
    · exact ⟨[_], rfl⟩

theorem enablePrinter_reports (name : Text) (s : Spooler) : s.Reports (enablePrinter name s) := by
  unfold enablePrinter
  split
  · exact (talks_errorMessage _ _).reports
  · split
    · exact (talks_errorMessage _ _).reports
    · exact ⟨[_], rfl⟩

theorem withName_reports {name : Option Text} {command : Text → Spooler → Spooler}
    (reports : ∀ name s, Spooler.Reports s (command name s))
    (ran : withName name command s = some s') : s.Reports s' := by
  unfold withName at ran
  split at ran
  · split at ran
    · cases ran
      exact (talks_errorMessage _ _).reports
    · cases ran
  · cases ran
    exact reports _ s

theorem signalJob_grouped {wanted : JobStatus} {signal : Signal} {usage refusal : String}
    (started : wanted ≠ .queued) (jobID : Option Text) (grouped : Grouped s none) :
    Grouped (signalJob wanted signal usage refusal jobID s) none := by
  unfold signalJob
  split
  · exact grouped
  · dsimp only
    split
    · exact grouped.plain (talks_errorMessage _ _).plain
    · split
      · exact grouped.plain (talks_errorMessage _ _).plain
      · rename_i jobid _
        split
        · rename_i now
          have led := grouped.led jobid (now ▸ started) (by simp)
          exact ⟨grouped.fresh, fun other left free => (grouped.led other left free).more,
            grouped.forking, grouped.aimed.signal signal led⟩
        · exact grouped.plain (talks_errorMessage _ _).plain

theorem execute_grouped {command : Command} (other : ∀ file printers, command ≠ .print file printers)
    (grouped : Grouped s none) (ran : execute world command s = some s') : Grouped s' none := by
  have jobs := (execute_quiet other ran).jobs
  cases command with
  | help => cases ran; exact grouped
  | type name => cases ran; exact grouped.plain ((newExtensionIn_declares _ name s).reports.plain jobs)
  | printer name type => cases ran; exact grouped.plain ((newPrinterIn_reports _ name type s).plain jobs)
  | printers =>
      cases ran
      exact grouped.plain (talks_foldl _ (fun s id => talks_printerMessage id s) _ s).plain
  | jobs =>
      cases ran
      exact grouped.plain (talks_foldl _ (fun s jobid => talks_jobMessage jobid s) _ s).plain
  | pause jobID => cases ran; exact signalJob_grouped (by decide) jobID grouped
  | resume jobID => cases ran; exact signalJob_grouped (by decide) jobID grouped
  | cancel jobID => cases ran; exact signalJob_grouped (by decide) jobID grouped
  | conversion type1 type2 program args =>
      cases ran
      exact grouped.plain ((newConversionIn_declares _ type1 type2 program args s).reports.plain jobs)
  | print file printers => exact absurd rfl (other file printers)
  | disable name => exact grouped.plain ((withName_reports disablePrinter_reports ran).plain jobs)
  | enable name => exact grouped.plain ((withName_reports enablePrinter_reports ran).plain jobs)
  | quit => cases ran
  | unknown => cases ran; exact grouped

variable {m next : Machine}

def Machine.Grouped (m : Machine) : Prop := Imprimer.Grouped m.s m.pc.pending

theorem afterCommand_grouped {prompt : Bool} (grouped : Grouped s none) :
    Machine.Grouped ⟨s, afterCommand prompt s⟩ := by
  cases prompt <;> exact grouped

theorem finish_grouped {call : Call} (grouped : Grouped s none) : (finish call s).Grouped := by
  unfold finish
  split
  · exact afterCommand_grouped grouped
  · exact grouped

theorem readLine_grouped {prompt : Bool} {input : Text} (grouped : Grouped s none)
    (ran : readLine world prompt input s = some next) : next.Grouped := by
  rcases readLine_cases ran with
    ⟨file, printers, after, job, made, ended⟩ | ⟨command, after, other, executed, rfl⟩
  · have kept : Grouped after none := by
      rcases newPrintJob_cases made with ⟨talks, -⟩ | ⟨before, name, type, set, talks, rfl, -⟩
      · exact grouped.plain talks.plain
      · exact (grouped.plain talks.plain).newJob world name type set
    rcases ended with ⟨rfl, rfl⟩ | ⟨jobid, rfl, rfl⟩
    · exact afterCommand_grouped kept
    · exact kept
  · exact afterCommand_grouped (execute_grouped other grouped executed)

theorem startStep_grouped {call : Call} {name : Text} {stage : Stage}
    (grouped : Machine.Grouped ⟨s, .start call name id stage⟩)
    (ran : startStep world call name id s stage = some next) : next.Grouped := by
  cases stage with
  | status =>
      cases ran
      exact Grouped.setStatus grouped
  | chosen =>
      cases ran
      refine Grouped.plain grouped ⟨fun jobid => ?_, fun jobid => ?_, _, rfl, fun event member => ?_⟩
      · by_cases same : jobid = call.jobid <;> simp [setChosen, Spooler.setJob, Spooler.emit, same]
      · by_cases same : jobid = call.jobid <;> simp [setChosen, Spooler.setJob, Spooler.emit, same]
      · rw [List.mem_singleton.mp member]
        exact fun _ _ same => by cases same
  | time =>
      cases ran
      refine Grouped.plain grouped ⟨fun jobid => ?_, fun jobid => ?_, [], (List.append_nil _).symm,
        fun event none => by cases none⟩
      · by_cases same : jobid = call.jobid <;> simp [setChangeTime, Spooler.setJob, same]
      · by_cases same : jobid = call.jobid <;> simp [setChangeTime, Spooler.setJob, same]
  | message =>
      cases ran
      exact Grouped.plain grouped (talks_jobMessage _ _).plain
  | mark =>
      unfold startStep at ran
      dsimp only at ran
      split at ran
      · cases ran
        exact Grouped.plain grouped (talks_errorMessage _ _).plain
      · cases ran
        refine Grouped.plain grouped ⟨fun _ => rfl, fun _ => rfl, _, rfl, fun event member => ?_⟩
        rw [List.mem_singleton.mp member]
        exact fun _ _ same => by cases same
  | marked =>
      cases ran
      exact Grouped.plain grouped (talks_printerMessage _ _).plain
  | process =>
      obtain ⟨after, forked, rfl⟩ := Option.map_eq_some_iff.mp ran
      exact finish_grouped (Grouped.process grouped forked)

/-- Only `runJob` changes what is recorded. -/
theorem mainStep_grouped (grouped : m.Grouped) (ran : mainStep world m = some next) :
    next.Grouped := by
  obtain ⟨s, pc⟩ := m
  unfold mainStep at ran
  cases pc with
  | idle => cases ran
  | announce call =>
      cases ran
      exact Grouped.plain grouped (talks_jobMessage _ _).plain
  | lookup call =>
      dsimp only at ran
      split at ran
      · cases ran
        exact finish_grouped (Grouped.plain grouped (talks_errorMessage _ _).plain)
      · cases ran
        exact grouped
  | search call pass remaining =>
      cases remaining with
      | zero =>
          dsimp only at ran
          split at ran
          · cases ran
            exact grouped
          · cases ran
            exact finish_grouped grouped
      | succ remaining =>
          simp only [Option.bind_eq_bind, Option.bind_eq_some_iff] at ran
          obtain ⟨good, -, ran⟩ := ran
          cases good <;> cases ran <;> exact grouped
  | find call name =>
      dsimp only at ran
      split at ran
      · cases ran
        exact finish_grouped grouped
      · cases ran
        exact grouped
  | check call name id =>
      dsimp only at ran
      split at ran
      · cases ran
        exact finish_grouped grouped
      · cases ran
        exact grouped
  | start call name id stage => exact startStep_grouped grouped ran
  | test nodes =>
      cases nodes with
      | nil =>
          cases ran
          exact grouped
      | cons jobid nodes =>
          dsimp only at ran
          split at ran <;> cases ran <;> exact grouped
  | remove =>
      cases ran
      obtain ⟨left, -, -, removed⟩ := removeJobs_eq world s
      have kept : Grouped s none := grouped
      show Grouped (removeJobs world s) none
      rw [removed]
      exact ⟨kept.fresh, kept.led, kept.forking, kept.aimed⟩

theorem machineStep_grouped (action : MachineAction) (grouped : m.Grouped)
    (ran : machineStep m action = some next) : next.Grouped := by
  cases action with
  | line world prompt input =>
      unfold machineStep at ran
      dsimp only at ran
      split at ran
      · rename_i idle
        unfold Machine.Grouped at grouped
        rw [idle] at grouped
        exact readLine_grouped grouped ran
      · cases ran
  | main world => exact mainStep_grouped grouped ran
  | sigchld world reported =>
      unfold machineStep at ran
      dsimp only at ran
      split at ran
      · rename_i positive
        obtain ⟨after, handled, rfl⟩ := Option.map_eq_some_iff.mp ran
        exact printHandler_grouped positive grouped handled
      · cases ran

/-- In every run, whenever the handler comes in between, a signal goes to a positive process group,
that of a process which has been forked for a job before. -/
theorem signals_own_groups (reached : Runs.Reachable machineStep Runs.Any Machine.init m)
    (before after : List Event) (pgid : Int) (signal : Signal)
    (sent : m.s.events = before ++ .killpg pgid signal :: after) :
    0 < pgid ∧ ∃ jobid file id, Event.forked jobid file id pgid ∈ before := by
  have first : Machine.init.Grouped := grouped_init
  have grouped : m.Grouped := reached.invariant Machine.Grouped first
    fun _ action _ grouped _ ran => machineStep_grouped action grouped ran
  obtain ⟨jobid, positive, file, id, forked⟩ := grouped.aimed before after pgid signal sent
  exact ⟨positive, jobid, file, id, forked⟩

/-- A job is printed and paused. -/
theorem signals_own_groups_example : ∃ m before, Runs.Reachable machineStep Runs.Any Machine.init m ∧
    m.s.events = before ++ [.killpg 100 .tstp] ∧ (0 : Int) < 100 ∧
      ∃ jobid file id, Event.forked jobid file id 100 ∈ before := by
  obtain ⟨m, -, reached, passed⟩ := @Runs.exists_reachable _ _ machineStep Runs.Any Machine.init
    (batchOf ["type txt", "printer p txt", "enable p", "print a.txt"] ++ mainSteps 12 ++
      batchOf ["pause 0"])
    (fun _ _ => true) (fun _ _ _ => trivial) (by decide)
    (fun m => m.s.events.getLast? = some (.killpg 100 .tstp)) (by decide +kernel)
  obtain ⟨before, split⟩ := List.getLast?_eq_some_iff.mp (of_decide_eq_true passed)
  exact ⟨m, before, reached, split, signals_own_groups reached before [] 100 .tstp split⟩

end Audible.Imprimer
