import Audible.PrinterJobs
import Mathlib.Logic.Function.Basic

set_option autoImplicit false

/- What the functions of the spooler do to its globals. -/
namespace Audible.Imprimer

variable {s s' : Spooler} {world : World} {jobid id : Nat}

theorem getPrinter_eq_some {name : Text} : getPrinter s name = some id ↔
    id < s.printerCount ∧ (s.printer id).name = name ∧ ∀ j < id, (s.printer j).name ≠ name := by
  unfold getPrinter
  rw [List.find?_range_eq_some]
  simp only [decide_eq_true_eq, List.mem_range, Bool.not_eq_true', decide_eq_false_iff_not]
  tauto

theorem getPrinter_congr (names : ∀ id, (s'.printer id).name = (s.printer id).name)
    (count : s'.printerCount = s.printerCount) (name : Text) :
    getPrinter s' name = getPrinter s name := by
  unfold getPrinter
  simp only [count, names]

/-- `s'` is `s` with more output. -/
def Talks (s s' : Spooler) : Prop := ∃ messages : List Message,
  s' = { s with events := s.events ++ messages.map .message }

theorem Talks.refl (s : Spooler) : Talks s s := ⟨[], by simp⟩

theorem Talks.trans {s'' : Spooler} (first : Talks s s') (second : Talks s' s'') : Talks s s'' := by
  obtain ⟨a, rfl⟩ := first
  obtain ⟨b, rfl⟩ := second
  exact ⟨a ++ b, by simp⟩

theorem talks_errorMessage (message : String) (s : Spooler) : Talks s (errorMessage message s) :=
  ⟨[.error message], rfl⟩

theorem talks_jobMessage (jobid : Nat) (s : Spooler) : Talks s (jobMessage jobid s) :=
  ⟨[.job jobid (s.job jobid)], rfl⟩

theorem talks_printerMessage (id : Nat) (s : Spooler) : Talks s (printerMessage id s) :=
  ⟨[.printer id (s.printer id)], rfl⟩

theorem talks_foldl {α : Type} (f : Spooler → α → Spooler) (each : ∀ s a, Talks s (f s a))
    (items : List α) (s : Spooler) : Talks s (items.foldl f s) := by
  induction items generalizing s with
  | nil => exact Talks.refl s
  | cons item items ih => exact (each s item).trans (ih (f s item))

theorem getEligiblePrinter_cases {choice : Option Nat}
    (found : getEligiblePrinter jobid s = some (s', choice)) :
    Talks s s' ∧ choice = none ∨ s' = s := by
  unfold getEligiblePrinter at found
  split at found
  · cases found
    exact .inl ⟨talks_errorMessage _ _, rfl⟩
  · obtain ⟨_, -, same⟩ := Option.map_eq_some_iff.mp found
    cases same
    exact .inr rfl

theorem changeStatus_eq (world : World) (jobid : Nat) (status : JobStatus) (s : Spooler) :
    changeStatus world jobid status s =
      let job := { s.job jobid with status := status, changeTime := world.now }
      { s with
        job := Function.update s.job jobid job
        events := s.events ++ [.status jobid status, .message (.job jobid job)] } := by
  simp [changeStatus, setStatus, setChangeTime, jobMessage, Spooler.setJob, Spooler.emit]

theorem freePrinter_eq {name : Text} (found : getPrinter s name = some id) :
    freePrinter name s =
      let printer := { s.printer id with busy := false }
      { s with
        printer := Function.update s.printer id printer
        events := s.events ++ [.message (.printer id printer)] } := by
  simp [freePrinter, found, setBusy, printerMessage, Spooler.setPrinter, Spooler.emit]

def Spooler.started (s : Spooler) (world : World) (file : Text) (jobid id : Nat) : Spooler :=
  let running := { s.job jobid with
    status := .running, chosenPrinter := some id, changeTime := world.now }
  let busy := { s.printer id with busy := true }
  { s with
    job := Function.update s.job jobid { running with pgid := world.pid s.forks }
    printer := Function.update s.printer id busy
    forks := s.forks + 1
    events := s.events ++ [.status jobid .running, .given jobid id (s.printer id).busy,
      .message (.job jobid running), .marked id (s.printer id).busy, .message (.printer id busy),
      .forked jobid file id (world.pid s.forks)] }

/-- `runJob` does nothing, or starts the job on the first printer of the name it is given,
which is not busy. -/
theorem runJob_cases {file name : Text} (ran : runJob world file jobid name s = some s') :
    (s' = s ∧ ∀ id, getPrinter s name = some id → (s.printer id).busy = true) ∨
      ∃ id, getPrinter s name = some id ∧ (s.printer id).busy = false ∧
        0 < world.pid s.forks ∧ s' = s.started world file jobid id := by
  unfold runJob at ran
  split at ran
  · rename_i missing
    cases ran
    left
    simp [missing]
  · rename_i id found
    split at ran
    · rename_i busy
      cases ran
      left
      simp [found, busy]
    · rename_i free
      rw [Bool.not_eq_true] at free
      right
      have again : getPrinter (jobMessage jobid (setChangeTime world jobid
          (setChosen jobid id (setStatus jobid .running s)))) name = some id := by
        simp only [jobMessage, setChangeTime, setChosen, setStatus, Spooler.setJob, Spooler.emit]
        exact found
      simp only [busyPrinter, again, runJobProcess] at ran
      split at ran
      · rename_i forked
        refine ⟨id, found, free, ?_, ?_⟩
        · simpa only [markBusy, setBusy, printerMessage, jobMessage, setChangeTime, setChosen, setStatus,
            Spooler.setJob, Spooler.setPrinter, Spooler.emit] using forked
        · cases ran
          simp [Spooler.started, markBusy, setBusy, printerMessage, jobMessage, setChangeTime, setChosen,
            setStatus, Spooler.setJob, Spooler.setPrinter, Spooler.emit]
      · cases ran

/-- The state after a job's status has changed and its printer `id` has been freed. -/
def Spooler.ended (s : Spooler) (world : World) (jobid id : Nat) (status : JobStatus) : Spooler :=
  let job := { s.job jobid with status := status, changeTime := world.now }
  let printer := { s.printer id with busy := false }
  { s with
    job := Function.update s.job jobid job
    printer := Function.update s.printer id printer
    events := s.events ++ [.status jobid status, .message (.job jobid job),
      .message (.printer id printer)] }

theorem releasePrinter_changeStatus {status : JobStatus}
    (chosen : (s.job jobid).chosenPrinter = some id)
    (named : getPrinter s (s.printer id).name = some id) :
    releasePrinter jobid (changeStatus world jobid status s) =
      some (s.ended world jobid id status) := by
  have kept : ((changeStatus world jobid status s).job jobid).chosenPrinter = some id := by
    rw [changeStatus_eq]
    simpa using chosen
  have again : getPrinter (changeStatus world jobid status s)
      ((changeStatus world jobid status s).printer id).name = some id := by
    rw [changeStatus_eq]
    exact (@getPrinter_congr s _ (fun _ => rfl) rfl _).trans named
  rw [releasePrinter, kept, Option.map_some, freePrinter_eq again, changeStatus_eq]
  simp [Spooler.ended]

theorem mem_nodes_of_getJobByPID {pid : Int} (found : getJobByPID s pid = some jobid) :
    jobid ∈ s.nodes ∧ (s.job jobid).pgid = pid :=
  ⟨List.mem_of_find?_eq_some found, by simpa using List.find?_some found⟩

/-- The job would be run on printer `id`: the first of the name of the printer chosen for it,
which is not busy. -/
def Spooler.Takes (s : Spooler) (jobid id : Nat) : Prop :=
  ∃ choice, getEligiblePrinter jobid s = some (s, some choice) ∧
    getPrinter s (s.printer choice).name = some id ∧ (s.printer id).busy = false

theorem Spooler.Takes.named (takes : s.Takes jobid id) :
    getPrinter s (s.printer id).name = some id := by
  obtain ⟨choice, -, named, -⟩ := takes
  rw [(getPrinter_eq_some.mp named).2.1, named]

theorem Spooler.Takes.free (takes : s.Takes jobid id) : (s.printer id).busy = false := by
  obtain ⟨_, -, -, free⟩ := takes
  exact free

/-- A job is started where it takes a printer; otherwise only messages are written. -/
theorem startJob_cases {file : Text} (ran : startJob world file jobid s = some s') :
    Talks s s' ∨ ∃ id, s.Takes jobid id ∧ 0 < world.pid s.forks ∧
      s' = s.started world file jobid id := by
  unfold startJob at ran
  simp only [Option.bind_eq_bind, Option.bind_eq_some_iff] at ran
  obtain ⟨⟨s1, choice⟩, found, ran⟩ := ran
  cases choice with
  | none =>
      cases ran
      rcases getEligiblePrinter_cases found with ⟨talks, -⟩ | same
      · exact .inl talks
      · exact .inl (same ▸ Talks.refl s)
  | some choice =>
      rcases getEligiblePrinter_cases found with ⟨-, none⟩ | rfl
      · cases none
      · rcases runJob_cases ran with ⟨rfl, -⟩ | ⟨id, named, free, forked, started⟩
        · exact .inl (Talks.refl _)
        · exact .inr ⟨id, ⟨choice, found, named, free⟩, forked, started⟩

theorem startJob_nodes {file : Text} (ran : startJob world file jobid s = some s') :
    s'.nodes = s.nodes := by
  rcases startJob_cases ran with ⟨_, rfl⟩ | ⟨_, -, -, rfl⟩
  · rfl
  · rfl

theorem runJobsFrom_cons (world : World) (jobid : Nat) (nodes : List Nat) (s : Spooler) :
    runJobsFrom world (jobid :: nodes) s =
      (if (s.job jobid).status = .queued then startJob world (getFile (s.job jobid)) jobid s
        else some s).bind (runJobsFrom world nodes) := by
  rw [runJobsFrom]
  split <;> rfl

/-- What every start of a queued job of the list keeps, `runJobs` keeps. -/
theorem runJobs_invariant {holds : Spooler → Prop} (now : holds s)
    (kept : ∀ (s next : Spooler) (jobid : Nat), holds s → jobid ∈ s.nodes →
      (s.job jobid).status = .queued →
      startJob world (getFile (s.job jobid)) jobid s = some next → holds next)
    (ran : runJobs world s = some s') : holds s' := by
  have loop : ∀ (nodes : List Nat) (s : Spooler), holds s → (∀ jobid ∈ nodes, jobid ∈ s.nodes) →
      runJobsFrom world nodes s = some s' → holds s' := by
    intro nodes
    induction nodes with
    | nil =>
        intro s now _ ran
        cases ran
        exact now
    | cons jobid nodes ih =>
        intro s now members ran
        rw [runJobsFrom_cons] at ran
        obtain ⟨next, first, rest⟩ := Option.bind_eq_some_iff.mp ran
        split at first
        · rename_i queued
          refine ih next (kept s next jobid now (members jobid (by simp)) queued first) ?_ rest
          intro other member
          rw [startJob_nodes first]
          exact members other (by simp [member])
        · cases first
          exact ih s now (fun other member => members other (by simp [member])) rest
  exact loop s.nodes s now (fun _ => id) ran

theorem collectPrinters_talks (names : List Text) (set : BitVec 32) :
    Talks s (collectPrinters s set names).1 := by
  induction names generalizing set with
  | nil => exact Talks.refl s
  | cons name names ih =>
      unfold collectPrinters
      split
      · exact talks_errorMessage _ _
      · exact ih _

theorem getPrinterSet_talks (printers : Option Text) : Talks s (getPrinterSet printers s).1 := by
  cases printers with
  | none => exact Talks.refl s
  | some names => exact collectPrinters_talks _ _

/-- `print` reports an error or appends a queued job that no printer has been chosen for. -/
theorem newPrintJob_cases {file : Text} {printers : Option Text} {job : Option Nat}
    (made : newPrintJob world file printers s = (s', job)) :
    Talks s s' ∧ job = none ∨ ∃ before name type set, Talks s before ∧
      s' = newJob world name type 0 set before ∧ job = some before.jobCount := by
  unfold newPrintJob at made
  split at made
  · cases made
    exact .inl ⟨talks_errorMessage _ _, rfl⟩
  · split at made
    · cases made
      exact .inl ⟨talks_errorMessage _ _, rfl⟩
    · split at made
      · cases made
        exact .inl ⟨talks_errorMessage _ _, rfl⟩
      · have talks := @getPrinterSet_talks s printers
        dsimp only at made
        split at made
        · cases made
          exact .inl ⟨talks, rfl⟩
        · cases made
          exact .inr ⟨_, _, _, _, talks, rfl, rfl⟩

/-- `print` starts the job that it has made, if it has made one. -/
theorem print_cases {file printers : Option Text} (ran : print world file printers s = some s') :
    ∃ file after job, newPrintJob world file printers s = (after, job) ∧
      (job = none ∧ s' = after ∨
        ∃ jobid, job = some jobid ∧ startJob world file jobid (jobMessage jobid after) = some s') := by
  simp only [print, Option.bind_eq_bind, Option.bind_eq_some_iff] at ran
  obtain ⟨file, -, ran⟩ := ran
  cases made : newPrintJob world file printers s with
  | mk after job =>
      rw [made] at ran
      refine ⟨file, after, job, made, ?_⟩
      cases job with
      | none =>
          cases ran
          exact .inl ⟨rfl, rfl⟩
      | some jobid => exact .inr ⟨jobid, rfl, ran⟩

/-- `removeJobs` takes jobs out of the list, and only expired ones. -/
theorem removeJobs_eq (world : World) (s : Spooler) :
    ∃ left, left ⊆ s.nodes ∧
      (∀ jobid ∈ s.nodes, expired world (s.job jobid) = false → jobid ∈ left) ∧
      removeJobs world s = { s with nodes := left } := by
  have loop : ∀ nodes before : List Nat, ∃ left, left ⊆ before ∧
      (∀ jobid ∈ before, expired world (s.job jobid) = false → jobid ∈ left) ∧
      nodes.foldl (fun s' jobid => if expired world (s.job jobid) then removeJob jobid s' else s')
        { s with nodes := before } = { s with nodes := left } := by
    intro nodes
    induction nodes with
    | nil => exact fun before => ⟨before, List.Subset.refl before, fun _ member _ => member, rfl⟩
    | cons jobid nodes ih =>
        intro before
        rw [List.foldl_cons]
        split
        · rename_i old
          obtain ⟨left, inside, kept, removed⟩ := ih (before.erase jobid)
          refine ⟨left, List.Subset.trans inside List.erase_subset, fun other member recent => ?_,
            removed⟩
          have different : other ≠ jobid := by
            rintro rfl
            rw [old] at recent
            cases recent
          exact kept other ((List.mem_erase_of_ne different).mpr member) recent
        · exact ih before
  exact loop s.nodes s.nodes

theorem not_expired_of_active {job : Job} (running : job.status = .running ∨ job.status = .paused) :
    expired world job = false := by
  rcases running with running | paused
  · simp [expired, running]
  · simp [expired, paused]

/-- Output, or a signal that has been sent. -/
def Event.silent : Event → Bool
  | .message _ => true
  | .killpg _ _ => true
  | _ => false

/-- What every command but `print` does: jobs stay as they are, and so do the names and flags of
the printers there are; new printers are idle. -/
structure Spooler.Quiet (s s' : Spooler) : Prop where
  jobs : s'.job = s.job
  jobCount : s'.jobCount = s.jobCount
  nodes : s'.nodes = s.nodes
  count : s.printerCount ≤ s'.printerCount
  names : ∀ id < s.printerCount, (s'.printer id).name = (s.printer id).name
  flags : ∀ id < s.printerCount, (s'.printer id).busy = (s.printer id).busy
  fresh : ∀ id, s.printerCount ≤ id → id < s'.printerCount → (s'.printer id).busy = false
  silent : ∃ events, s'.events = s.events ++ events ∧ ∀ event ∈ events, event.silent = true

theorem Spooler.Quiet.trans {s'' : Spooler} (first : s.Quiet s') (second : s'.Quiet s'') :
    s.Quiet s'' := by
  obtain ⟨events, added, silent⟩ := first.silent
  obtain ⟨more, addedMore, silentMore⟩ := second.silent
  refine ⟨second.jobs.trans first.jobs, second.jobCount.trans first.jobCount,
    second.nodes.trans first.nodes, Nat.le_trans first.count second.count, fun id old => ?_,
    fun id old => ?_, fun id new inside => ?_, events ++ more, ?_, ?_⟩
  · rw [second.names id (Nat.lt_of_lt_of_le old first.count), first.names id old]
  · rw [second.flags id (Nat.lt_of_lt_of_le old first.count), first.flags id old]
  · by_cases middle : id < s'.printerCount
    · rw [second.flags id middle, first.fresh id new middle]
    · exact second.fresh id (Nat.le_of_not_lt middle) inside
  · rw [addedMore, added, List.append_assoc]
  · intro event member
    rcases List.mem_append.mp member with old | new
    · exact silent event old
    · exact silentMore event new

/-- Types and conversions change, or nothing does. -/
theorem Spooler.quiet_types (s : Spooler) (types : List FileType) :
    s.Quiet { s with typeArray := types } :=
  ⟨rfl, rfl, rfl, Nat.le_refl _, fun _ _ => rfl, fun _ _ => rfl,
    fun _ new inside => absurd inside (Nat.not_lt.mpr new), [], (List.append_nil _).symm, by simp⟩

theorem Talks.quiet (talks : Talks s s') : s.Quiet s' := by
  obtain ⟨messages, rfl⟩ := talks
  refine ⟨rfl, rfl, rfl, Nat.le_refl _, fun _ _ => rfl, fun _ _ => rfl,
    fun _ new inside => absurd inside (Nat.not_lt.mpr new), _, rfl, ?_⟩
  intro event member
  obtain ⟨message, -, rfl⟩ := List.mem_map.mp member
  rfl

theorem errorMessage_quiet (message : String) (s : Spooler) : s.Quiet (errorMessage message s) :=
  (talks_errorMessage message s).quiet

/-- A `type` or `conversion` command writes messages and sets the table of types. -/
def DeclaresTypes (s s' : Spooler) : Prop := ∃ types, Talks { s with typeArray := types } s'

theorem Talks.declaresTypes (talks : Talks s s') : DeclaresTypes s s' := ⟨s.typeArray, talks⟩

theorem DeclaresTypes.quiet (declares : DeclaresTypes s s') : s.Quiet s' := by
  obtain ⟨types, talks⟩ := declares
  exact (s.quiet_types types).trans talks.quiet

theorem addType_declares (type : FileType) (talks : Talks s s') :
    DeclaresTypes s (addType type s') := by
  unfold addType
  split
  · exact (talks.trans (talks_errorMessage _ _)).declaresTypes
  · obtain ⟨messages, rfl⟩ := talks
    exact ⟨_, messages, rfl⟩

theorem newExtensionIn_declares (memory : Memory) (name : Option Text) (s : Spooler) :
    DeclaresTypes s (newExtensionIn memory name s) := by
  cases name with
  | none => exact (Talks.refl s).declaresTypes
  | some name =>
      have known : Talks s
          (if (getType s.typeArray name).isSome then errorMessage "Type already defined." s else s) := by
        split
        · exact talks_errorMessage _ s
        · exact .refl s
      unfold newExtensionIn
      dsimp only
      split
      · exact (known.trans (talks_errorMessage _ _)).declaresTypes
      · exact addType_declares _ known

theorem addConversion_declares (type : Text) (conversion : Conversion) (s : Spooler) :
    DeclaresTypes s (addConversion type conversion s) := by
  unfold addConversion
  split
  · exact (Talks.refl s).declaresTypes
  · split
    · exact (talks_errorMessage _ s).declaresTypes
    · exact ⟨_, .refl _⟩

/-- A `conversion` command writes a message, or adds a conversion that there is not yet. -/
theorem newConversionIn_cases (memory : Memory) (type1 type2 program args : Option Text)
    (s : Spooler) : Talks s (newConversionIn memory type1 type2 program args s) ∨
      ∃ type conversion, (getConversion s.typeArray type conversion.type).isSome = false ∧
        newConversionIn memory type1 type2 program args s = addConversion type conversion s := by
  have error : ∀ message, Talks s (errorMessage message s) := fun message =>
    talks_errorMessage message s
  unfold newConversionIn
  split
  · split_ifs with unknown record known copies
    · exact .inl (error _)
    · exact .inl (error _)
    · exact .inl (error _)
    · exact .inl (error _)
    · exact .inr ⟨_, _, Bool.eq_false_iff.mpr known, rfl⟩
  · exact .inl (.refl s)

theorem newConversionIn_declares (memory : Memory) (type1 type2 program args : Option Text)
    (s : Spooler) : DeclaresTypes s (newConversionIn memory type1 type2 program args s) := by
  rcases newConversionIn_cases memory type1 type2 program args s with talks | ⟨type, conversion, -, made⟩
  · exact talks.declaresTypes
  · rw [made]
    exact addConversion_declares type conversion s

/-- A `printer` command writes messages, or adds a printer and announces it. -/
theorem newPrinterIn_cases (memory : Memory) (name type : Option Text) (s : Spooler) :
    Talks s (newPrinterIn memory name type s) ∨ ∃ name' type', newPrinterIn memory name type s =
      printerMessage s.printerCount
        (addPrinter { name := name', type := type', enabled := false, busy := false } s) := by
  have error : ∀ message, Talks s (errorMessage message s) := fun message =>
    talks_errorMessage message s
  unfold newPrinterIn
  split
  · split_ifs
    · exact .inl (error _)
    · exact .inl (error _)
    · exact .inl (error _)
    · exact .inl (error _)
    · exact .inr ⟨_, _, rfl⟩
  · exact .inl (.refl s)

theorem addPrinter_quiet (printer : Printer) (free : printer.busy = false) (s : Spooler) :
    s.Quiet (addPrinter printer s) := by
  refine ⟨rfl, rfl, rfl, Nat.le_succ _, fun id old => ?_, fun id old => ?_, fun id new inside => ?_, [],
    (List.append_nil _).symm, by simp⟩
  · simp [addPrinter, Nat.ne_of_lt old]
  · simp [addPrinter, Nat.ne_of_lt old]
  · have last : id = s.printerCount := Nat.le_antisymm (Nat.le_of_lt_succ inside) new
    simp [addPrinter, last, free]

theorem newPrinterIn_quiet (memory : Memory) (name type : Option Text) (s : Spooler) :
    s.Quiet (newPrinterIn memory name type s) := by
  rcases newPrinterIn_cases memory name type s with talks | ⟨name, type, made⟩
  · exact talks.quiet
  · rw [made]
    exact (addPrinter_quiet _ rfl s).trans (talks_printerMessage _ _).quiet

/-- Only `enabled` changes. -/
theorem setEnabled_quiet (id : Nat) (enabled : Bool) (s : Spooler) :
    s.Quiet (s.setPrinter id { s.printer id with enabled := enabled }) := by
  refine ⟨rfl, rfl, rfl, Nat.le_refl _, fun q _ => ?_, fun q _ => ?_,
    fun _ new inside => absurd inside (Nat.not_lt.mpr new), [], (List.append_nil _).symm, by simp⟩
  · by_cases same : q = id <;> simp [Spooler.setPrinter, same]
  · by_cases same : q = id <;> simp [Spooler.setPrinter, same]

theorem disablePrinter_quiet (name : Text) (s : Spooler) : s.Quiet (disablePrinter name s) := by
  unfold disablePrinter
  split
  · exact errorMessage_quiet _ _
  · split
    · exact errorMessage_quiet _ _
    · exact (setEnabled_quiet _ _ s).trans (talks_printerMessage _ _).quiet

theorem enablePrinter_quiet (name : Text) (s : Spooler) : s.Quiet (enablePrinter name s) := by
  unfold enablePrinter
  split
  · exact errorMessage_quiet _ _
  · split
    · exact errorMessage_quiet _ _
    · exact (setEnabled_quiet _ _ s).trans (talks_printerMessage _ _).quiet

theorem killpg_quiet (pgid : Int) (signal : Signal) (s : Spooler) :
    s.Quiet (s.emit (.killpg pgid signal)) :=
  ⟨rfl, rfl, rfl, Nat.le_refl _, fun _ _ => rfl, fun _ _ => rfl,
    fun _ new inside => absurd inside (Nat.not_lt.mpr new), _, rfl, by simp [Event.silent]⟩

theorem signalJob_quiet (wanted : JobStatus) (signal : Signal) (usage refusal : String)
    (jobID : Option Text) (s : Spooler) : s.Quiet (signalJob wanted signal usage refusal jobID s) := by
  unfold signalJob
  split
  · exact s.quiet_types _
  · dsimp only
    split
    · exact errorMessage_quiet _ _
    · split
      · exact errorMessage_quiet _ _
      · split
        · exact killpg_quiet _ _ s
        · exact errorMessage_quiet _ _

theorem withName_quiet {name : Option Text} {command : Text → Spooler → Spooler}
    (quiet : ∀ name s, Spooler.Quiet s (command name s)) (ran : withName name command s = some s') :
    s.Quiet s' := by
  unfold withName at ran
  split at ran
  · split at ran
    · cases ran
      exact errorMessage_quiet _ _
    · cases ran
  · cases ran
    exact quiet _ s

theorem execute_quiet {command : Command} (other : ∀ file printers, command ≠ .print file printers)
    (ran : execute world command s = some s') : s.Quiet s' := by
  cases command with
  | help => cases ran; exact s.quiet_types _
  | type name => cases ran; exact (newExtensionIn_declares _ name s).quiet
  | printer name type => cases ran; exact newPrinterIn_quiet _ name type s
  | printers =>
      cases ran
      exact (talks_foldl _ (fun s id => talks_printerMessage id s) _ s).quiet
  | jobs =>
      cases ran
      exact (talks_foldl _ (fun s jobid => talks_jobMessage jobid s) _ s).quiet
  | pause jobID => cases ran; exact signalJob_quiet _ _ _ _ jobID s
  | resume jobID => cases ran; exact signalJob_quiet _ _ _ _ jobID s
  | cancel jobID => cases ran; exact signalJob_quiet _ _ _ _ jobID s
  | conversion type1 type2 program args =>
      cases ran
      exact (newConversionIn_declares _ type1 type2 program args s).quiet
  | print file printers => exact absurd rfl (other file printers)
  | disable name => exact withName_quiet disablePrinter_quiet ran
  | enable name => exact withName_quiet enablePrinter_quiet ran
  | quit => cases ran
  | unknown => cases ran; exact s.quiet_types _

/-- `s'` differs from `s` in nothing that `getEligiblePrinter` reads but the flags `busy`. -/
structure Spooler.SameSetup (s s' : Spooler) : Prop where
  types : s'.typeArray = s.typeArray
  count : s'.printerCount = s.printerCount
  names : ∀ id, (s'.printer id).name = (s.printer id).name
  prints : ∀ id, (s'.printer id).type = (s.printer id).type
  enabled : ∀ id, (s'.printer id).enabled = (s.printer id).enabled
  files : ∀ jobid, (s'.job jobid).fileType = (s.job jobid).fileType
  eligible : ∀ jobid, (s'.job jobid).eligiblePrinters = (s.job jobid).eligiblePrinters

theorem Spooler.SameSetup.refl (s : Spooler) : s.SameSetup s :=
  ⟨rfl, rfl, fun _ => rfl, fun _ => rfl, fun _ => rfl, fun _ => rfl, fun _ => rfl⟩

theorem Spooler.SameSetup.trans {s'' : Spooler} (first : s.SameSetup s') (second : s'.SameSetup s'') :
    s.SameSetup s'' :=
  ⟨second.types.trans first.types, second.count.trans first.count,
    fun id => (second.names id).trans (first.names id),
    fun id => (second.prints id).trans (first.prints id),
    fun id => (second.enabled id).trans (first.enabled id),
    fun jobid => (second.files jobid).trans (first.files jobid),
    fun jobid => (second.eligible jobid).trans (first.eligible jobid)⟩

theorem Talks.setup (talks : Talks s s') : s.SameSetup s' := by
  obtain ⟨messages, rfl⟩ := talks
  exact ⟨rfl, rfl, fun _ => rfl, fun _ => rfl, fun _ => rfl, fun _ => rfl, fun _ => rfl⟩

theorem Spooler.started_setup (file : Text) (jobid id : Nat) (s : Spooler) :
    s.SameSetup (s.started world file jobid id) where
  types := rfl
  count := rfl
  names := fun q => by by_cases same : q = id <;> simp [Spooler.started, same]
  prints := fun q => by by_cases same : q = id <;> simp [Spooler.started, same]
  enabled := fun q => by by_cases same : q = id <;> simp [Spooler.started, same]
  files := fun a => by by_cases same : a = jobid <;> simp [Spooler.started, same]
  eligible := fun a => by by_cases same : a = jobid <;> simp [Spooler.started, same]

theorem Spooler.SameSetup.lookup (same : s.SameSetup s') (name : Text) :
    getPrinter s' name = getPrinter s name :=
  getPrinter_congr same.names same.count name

theorem Spooler.SameSetup.suits (same : s.SameSetup s') {pass : Nat}
    (busy : pass = 0 → (s'.printer id).busy = (s.printer id).busy) :
    suits s' jobid pass id = suits s jobid pass id := by
  unfold Imprimer.suits usable
  rw [same.types, same.prints, same.enabled, same.files, same.eligible]
  split
  · rfl
  · split
    · rw [busy rfl]
    · rfl
    · rfl

theorem searchPrinters_suits {pass remaining : Nat}
    (found : searchPrinters s jobid pass remaining = some (some id)) :
    suits s jobid pass id = some true := by
  induction remaining with
  | zero => cases found
  | succ remaining ih =>
      simp only [searchPrinters, Option.bind_eq_bind, Option.bind_eq_some_iff] at found
      obtain ⟨good, suited, found⟩ := found
      cases good with
      | true =>
          cases found
          exact suited
      | false => exact ih found

theorem searchPasses_suits {passes : List Nat}
    (found : searchPasses s jobid passes = some (some id)) :
    ∃ pass ∈ passes, suits s jobid pass id = some true := by
  induction passes with
  | nil => cases found
  | cons pass passes ih =>
      simp only [searchPasses, Option.bind_eq_bind, Option.bind_eq_some_iff] at found
      obtain ⟨choice, searched, found⟩ := found
      cases choice with
      | some choice =>
          cases found
          exact ⟨pass, by simp, searchPrinters_suits searched⟩
      | none =>
          obtain ⟨later, member, suited⟩ := ih found
          exact ⟨later, by simp [member], suited⟩

/-- The job can be printed on `id`, busy or not: on a printer of that name that is enabled, in
the job's set, and of the file's type or of one that it can be converted to. -/
def Spooler.MayUse (s : Spooler) (jobid id : Nat) : Prop :=
  ∃ choice, getPrinter s (s.printer choice).name = some id ∧
    (suits s jobid 1 choice = some true ∨ suits s jobid 2 choice = some true)

theorem Spooler.Takes.mayUse (takes : s.Takes jobid id) : s.MayUse jobid id := by
  obtain ⟨choice, found, named, -⟩ := takes
  refine ⟨choice, named, ?_⟩
  unfold getEligiblePrinter at found
  split at found
  · simp at found
  · obtain ⟨_, searched, same⟩ := Option.map_eq_some_iff.mp found
    cases same
    obtain ⟨pass, member, suited⟩ := searchPasses_suits searched
    simp only [List.mem_cons, List.not_mem_nil, or_false] at member
    rcases member with rfl | rfl | rfl
    · -- the first loop asks for more than the last one
      right
      unfold suits at suited ⊢
      split at suited
      · cases suited
      · simp_all
    · exact .inl suited
    · exact .inr suited

theorem Spooler.SameSetup.mayUse (same : s.SameSetup s') (uses : s'.MayUse jobid id) :
    s.MayUse jobid id := by
  obtain ⟨choice, named, suited⟩ := uses
  rw [same.lookup, same.names] at named
  rw [same.suits (fun first => by cases first), same.suits (fun first => by cases first)] at suited
  exact ⟨choice, named, suited⟩

end Audible.Imprimer
