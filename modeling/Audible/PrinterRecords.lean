import Audible.PrinterChoice
import Audible.PrinterConversions

set_option autoImplicit false

/- What every step of the program keeps of types and of the files that jobs were created for. -/
namespace Audible.Imprimer

variable {s s' : Spooler} {world : World} {jobid id : Nat}

/-- Types are added only, and jobs keep the files they were created for. The types of new jobs are
declared, and only new jobs are added to the list. -/
structure Spooler.Keeps (s s' : Spooler) : Prop where
  known : ∀ name, (getType s.typeArray name).isSome = true → (getType s'.typeArray name).isSome = true
  declared : Declared s.typeArray → Declared s'.typeArray
  count : s.jobCount ≤ s'.jobCount
  fileName : ∀ jobid < s.jobCount, (s'.job jobid).fileName = (s.job jobid).fileName
  fileType : ∀ jobid < s.jobCount, (s'.job jobid).fileType = (s.job jobid).fileType
  fresh : ∀ jobid < s'.jobCount, s.jobCount ≤ jobid →
    (getType s'.typeArray (s'.job jobid).fileType).isSome = true
  listed : ∀ jobid ∈ s'.nodes, jobid ∈ s.nodes ∨ s.jobCount ≤ jobid ∧ jobid < s'.jobCount

/-- Types and the number of jobs stay, as do the jobs' files. -/
theorem Spooler.keeps_same (types : s'.typeArray = s.typeArray) (count : s'.jobCount = s.jobCount)
    (fileName : ∀ jobid, (s'.job jobid).fileName = (s.job jobid).fileName)
    (fileType : ∀ jobid, (s'.job jobid).fileType = (s.job jobid).fileType)
    (nodes : s'.nodes ⊆ s.nodes) : s.Keeps s' where
  known := fun name known => by rwa [types]
  declared := fun declared => by rwa [types]
  count := count.ge
  fileName := fun jobid _ => fileName jobid
  fileType := fun jobid _ => fileType jobid
  fresh := fun jobid below above => by omega
  listed := fun jobid member => .inl (nodes member)

theorem Spooler.Keeps.trans {s'' : Spooler} (first : s.Keeps s') (second : s'.Keeps s'') :
    s.Keeps s'' where
  known := fun name known => second.known name (first.known name known)
  declared := fun declared => second.declared (first.declared declared)
  count := first.count.trans second.count
  fileName := fun jobid below =>
    (second.fileName jobid (below.trans_le first.count)).trans (first.fileName jobid below)
  fileType := fun jobid below =>
    (second.fileType jobid (below.trans_le first.count)).trans (first.fileType jobid below)
  fresh := by
    intro jobid below above
    by_cases old : jobid < s'.jobCount
    · rw [second.fileType jobid old]
      exact second.known _ (first.fresh jobid old above)
    · exact second.fresh jobid below (by omega)
  listed := by
    intro jobid member
    rcases second.listed jobid member with old | ⟨above, below⟩
    · rcases first.listed jobid old with older | ⟨above, below⟩
      · exact .inl older
      · exact .inr ⟨above, below.trans_le second.count⟩
    · exact .inr ⟨first.count.trans above, below⟩

theorem Talks.keeps (talks : Talks s s') : s.Keeps s' := by
  obtain ⟨messages, rfl⟩ := talks
  exact Spooler.keeps_same rfl rfl (fun _ => rfl) (fun _ => rfl) (List.Subset.refl _)

theorem changeStatus_keeps (world : World) (jobid : Nat) (status : JobStatus) (s : Spooler) :
    s.Keeps (changeStatus world jobid status s) := by
  rw [changeStatus_eq]
  refine Spooler.keeps_same rfl rfl (fun other => ?_) (fun other => ?_) (List.Subset.refl _)
  all_goals
    by_cases same : other = jobid
    · subst same
      simp
    · simp [same]

theorem started_keeps (file : Text) (jobid id : Nat) (s : Spooler) :
    s.Keeps (s.started world file jobid id) := by
  refine Spooler.keeps_same rfl rfl (fun other => ?_) (fun other => ?_) (List.Subset.refl _)
  all_goals
    by_cases same : other = jobid
    · subst same
      simp [Spooler.started]
    · simp [Spooler.started, same]

theorem startJob_keeps {file : Text} (ran : startJob world file jobid s = some s') : s.Keeps s' := by
  rcases startJob_cases ran with talks | ⟨id, -, -, rfl⟩
  · exact talks.keeps
  · exact started_keeps file jobid id s

theorem freePrinter_keeps (name : Text) (s : Spooler) : s.Keeps (freePrinter name s) := by
  unfold freePrinter
  split
  · exact (talks_errorMessage _ _).keeps
  · exact Spooler.keeps_same rfl rfl (fun _ => rfl) (fun _ => rfl) (List.Subset.refl _)

/-- The functions that report a change of a job's status. -/
theorem change_keeps (change : World → Nat → Spooler → Spooler) (inOrder : InOrder change)
    (world : World) (jobid : Nat) (s : Spooler) : s.Keeps (change world jobid s) := by
  rcases inOrder world jobid s with talks | ⟨status, -, changes⟩
  · exact talks.keeps
  · rw [changes]
    exact changeStatus_keeps world jobid status s

theorem enterHandler_keeps {reported : Option (Int × ChildStatus)} {nodes : Option (List Nat)}
    (ran : enterHandler world reported s = some (s', nodes)) : s.Keeps s' := by
  refine enterHandler_related (Talks.refl s).keeps (fun change reporting jobid => ?_)
    (fun name next keeps => ?_) ran
  · exact change_keeps change reporting.inOrder world jobid s
  · exact keeps.trans (freePrinter_keeps name next)

theorem Spooler.Quiet.keeps (quiet : s.Quiet s') (types : s'.typeArray = s.typeArray) : s.Keeps s' :=
  Spooler.keeps_same types quiet.jobCount (fun _ => by rw [quiet.jobs]) (fun _ => by rw [quiet.jobs])
    (fun _ member => quiet.nodes ▸ member)

theorem declare_keeps {declaration : Declaration} (quiet : s.Quiet s')
    (declares : declare s declaration = some s') : s.Keeps s' where
  known := fun _ => declare_known declares
  declared := fun declared => declared.declare declares
  count := quiet.jobCount.ge
  fileName := fun _ _ => by rw [quiet.jobs]
  fileType := fun _ _ => by rw [quiet.jobs]
  fresh := fun jobid below above => by
    rw [quiet.jobCount] at below
    omega
  listed := fun jobid member => .inl (quiet.nodes ▸ member)

theorem newPrinterIn_types (memory : Memory) (name type : Option Text) (s : Spooler) :
    (newPrinterIn memory name type s).typeArray = s.typeArray := by
  rcases newPrinterIn_cases memory name type s with ⟨messages, talks⟩ | ⟨name, type, made⟩
  · rw [talks]
  · rw [made]
    rfl

theorem signalJob_types (wanted : JobStatus) (signal : Signal) (usage refusal : String)
    (jobID : Option Text) (s : Spooler) :
    (signalJob wanted signal usage refusal jobID s).typeArray = s.typeArray := by
  unfold signalJob
  split
  · rfl
  · dsimp only
    split
    · rfl
    · split
      · rfl
      · split <;> rfl

theorem disablePrinter_types (name : Text) (s : Spooler) :
    (disablePrinter name s).typeArray = s.typeArray := by
  unfold disablePrinter
  split
  · rfl
  · split <;> rfl

theorem enablePrinter_types (name : Text) (s : Spooler) :
    (enablePrinter name s).typeArray = s.typeArray := by
  unfold enablePrinter
  split
  · rfl
  · split <;> rfl

theorem withName_types {name : Option Text} {command : Text → Spooler → Spooler}
    (types : ∀ name s, (command name s).typeArray = s.typeArray)
    (ran : withName name command s = some s') : s'.typeArray = s.typeArray := by
  unfold withName at ran
  split at ran
  · split at ran
    · cases ran
      rfl
    · cases ran
  · cases ran
    exact types _ s

/-- What `print` has stored when it starts the job: the name is the first token up to a dot, and the
type what follows on the line. -/
theorem newPrintJob_stored {file : Text} {printers : Option Text}
    (made : newPrintJob world file printers s = (s', some jobid)) :
    ∃ before name rest type left set, Talks s before ∧ strtok ['.'] file = some (name, rest) ∧
      strtok ['\n'] rest = some (type, left) ∧ (getType s.typeArray type).isSome = true ∧
      s' = newJob world name type 0 set before ∧ jobid = before.jobCount := by
  unfold newPrintJob at made
  split at made
  · cases made
  · rename_i name rest first
    split at made
    · cases made
    · rename_i type left second
      split at made
      · cases made
      · rename_i known
        have talks := @getPrinterSet_talks s printers
        dsimp only at made
        split at made
        · cases made
        · cases made
          rw [Option.isNone_iff_eq_none, ← ne_eq, ← Option.isSome_iff_ne_none] at known
          exact ⟨_, name, rest, type, left, _, talks, first, second, known, rfl, rfl⟩

theorem newJob_keeps {name type : Text} {set : BitVec 32}
    (known : (getType s.typeArray type).isSome = true) :
    s.Keeps (newJob world name type 0 set s) where
  known := fun _ => id
  declared := id
  count := Nat.le_succ _
  fileName := fun jobid below => by simp [newJob, addJob, below.ne]
  fileType := fun jobid below => by simp [newJob, addJob, below.ne]
  fresh := by
    intro jobid below above
    have new : jobid = s.jobCount := by
      change jobid < s.jobCount + 1 at below
      omega
    subst new
    simpa [newJob, addJob] using known
  listed := by
    intro jobid member
    rcases List.mem_append.mp member with old | new
    · exact .inl old
    · rw [List.mem_singleton.mp new]
      exact .inr ⟨le_refl _, Nat.lt_succ_self _⟩

theorem newPrintJob_keeps {file : Text} {printers : Option Text} {job : Option Nat}
    (made : newPrintJob world file printers s = (s', job)) : s.Keeps s' := by
  cases job with
  | none =>
      rcases newPrintJob_cases made with ⟨talks, -⟩ | ⟨before, name, type, set, talks, -, some_⟩
      · exact talks.keeps
      · cases some_
  | some jobid =>
      obtain ⟨before, name, rest, type, left, set, talks, -, -, known, rfl, -⟩ :=
        newPrintJob_stored made
      exact talks.keeps.trans (newJob_keeps (talks.keeps.known type known))

theorem print_keeps {file printers : Option Text} (ran : print world file printers s = some s') :
    s.Keeps s' := by
  obtain ⟨file, after, job, made, ended⟩ := print_cases ran
  have keeps := newPrintJob_keeps made
  rcases ended with ⟨-, rfl⟩ | ⟨jobid, -, started⟩
  · exact keeps
  · exact keeps.trans ((talks_jobMessage _ _).keeps.trans (startJob_keeps started))

theorem execute_keeps {command : Command} (ran : execute world command s = some s') : s.Keeps s' := by
  by_cases printing : ∃ file printers, command = .print file printers
  · obtain ⟨file, printers, rfl⟩ := printing
    exact print_keeps ran
  · push Not at printing
    have quiet := execute_quiet printing ran
    cases command with
    | type name =>
        exact @declare_keeps _ _ (.extension name) quiet ran
    | conversion type1 type2 program args =>
        exact @declare_keeps _ _ (.conversion type1 type2 program args) quiet ran
    | print file printers => exact absurd rfl (printing file printers)
    | quit => cases ran
    | disable name => exact quiet.keeps (withName_types disablePrinter_types ran)
    | enable name => exact quiet.keeps (withName_types enablePrinter_types ran)
    | printers =>
        cases ran
        exact Talks.keeps (talks_foldl _ (fun s id => talks_printerMessage id s) _ s)
    | jobs =>
        cases ran
        exact Talks.keeps (talks_foldl _ (fun s jobid => talks_jobMessage jobid s) _ s)
    | printer name type =>
        cases ran
        exact quiet.keeps (newPrinterIn_types _ name type s)
    | pause jobID =>
        cases ran
        exact quiet.keeps (signalJob_types _ _ _ _ jobID s)
    | resume jobID =>
        cases ran
        exact quiet.keeps (signalJob_types _ _ _ _ jobID s)
    | cancel jobID =>
        cases ran
        exact quiet.keeps (signalJob_types _ _ _ _ jobID s)
    | help =>
        cases ran
        exact quiet.keeps rfl
    | unknown =>
        cases ran
        exact quiet.keeps rfl

theorem programStep_keeps {m m' : Program} {action : ProgramAction}
    (ran : programStep m action = some m') : m.s.Keeps m'.s := by
  rcases programStep_parts ran with ⟨world, command, executed⟩ | ⟨world, file, jobid, started⟩ |
    ⟨world, reported, nodes, entered⟩ | ⟨nodes, inside, same⟩
  · exact execute_keeps executed
  · exact startJob_keeps started
  · exact enterHandler_keeps entered
  · rw [same]
    exact Spooler.keeps_same rfl rfl (fun _ => rfl) (fun _ => rfl) inside

theorem keeps_of_reachable {start m : Program} (reached : Runs.Reachable programStep Runs.Any start m) :
    start.s.Keeps m.s := by
  apply Runs.Reachable.invariant (fun m : Program => start.s.Keeps m.s) _ _ reached
  · exact (Talks.refl _).keeps
  · intro m action m' keeps _ ran
    exact keeps.trans (programStep_keeps ran)

/-- Conversions lead to declared types, jobs are of declared types, and listed jobs have been
created. -/
structure Spooler.Typed (s : Spooler) : Prop where
  declared : Declared s.typeArray
  jobs : ∀ jobid < s.jobCount, (getType s.typeArray (s.job jobid).fileType).isSome = true
  listed : ∀ jobid ∈ s.nodes, jobid < s.jobCount

theorem Spooler.Keeps.typed (keeps : s.Keeps s') (typed : s.Typed) : s'.Typed where
  declared := keeps.declared typed.declared
  jobs := by
    intro jobid below
    by_cases old : jobid < s.jobCount
    · rw [keeps.fileType jobid old]
      exact keeps.known _ (typed.jobs jobid old)
    · exact keeps.fresh jobid below (by omega)
  listed := by
    intro jobid member
    rcases keeps.listed jobid member with old | ⟨-, below⟩
    · exact (typed.listed jobid old).trans_le keeps.count
    · exact below

theorem typed_of_reachable {m : Program} (reached : Runs.Reachable programStep Runs.Any .init m) :
    m.s.Typed := by
  apply (keeps_of_reachable reached).typed
  constructor
  · intro type member
    cases member
  · intro jobid below
    cases below
  · intro jobid member
    cases member

end Audible.Imprimer
