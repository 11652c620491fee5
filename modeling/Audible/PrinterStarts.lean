import Audible.PrinterRace
import Mathlib.Data.List.Chain

set_option autoImplicit false

/- What has been done to each job so far, over the interleavings of the main program with the
handler. -/
namespace Audible.Imprimer

variable {s s' : Spooler} {world : World} {jobid id : Nat}

theorem history_append (before after : List Event) (jobid : Nat) :
    history (before ++ after) jobid = history before jobid ++ after.filterMap (Event.statusOf jobid) := by
  simp [history]

theorem pipelines_append (before after : List Event) (jobid : Nat) :
    pipelines (before ++ after) jobid = pipelines before jobid + after.countP (Event.forks jobid) := by
  simp [pipelines]

/-- What the events say of a job. `pending` is a job that is RUNNING but has no pipeline yet, which
only the main program can have; the handler does not find it, its process group being 0. -/
structure RecordedAt (s : Spooler) (pending : Prop) (jobid : Nat) : Prop where
  path : (history s.events jobid).IsChain JobStatus.Next
  current : (history s.events jobid).getLast? = some (s.job jobid).status
  unforked : (s.job jobid).status = .queued ∨ pending → pipelines s.events jobid = 0
  forked : (s.job jobid).status ≠ .queued → ¬ pending → pipelines s.events jobid = 1
  grouped : (s.job jobid).status = .queued ∨ pending → (s.job jobid).pgid = 0
  running : pending → (s.job jobid).status = .running

variable {pending pending' : Prop}

/-- The record reads the events of the job, its status and its process group. -/
theorem RecordedAt.congr (recorded : RecordedAt s pending jobid)
    (same : history s'.events jobid = history s.events jobid)
    (forks : pipelines s'.events jobid = pipelines s.events jobid)
    (status : (s'.job jobid).status = (s.job jobid).status)
    (pgid : (s'.job jobid).pgid = (s.job jobid).pgid) : RecordedAt s' pending jobid := by
  obtain ⟨path, current, unforked, forked, grouped, running⟩ := recorded
  constructor
  · rwa [same]
  · rwa [same, status]
  · rwa [forks, status]
  · rwa [forks, status]
  · rwa [pgid, status]
  · rwa [status]

theorem JobStatus.Next.left {before after : JobStatus} (next : before.Next after) :
    after ≠ .queued := by
  rintro rfl
  cases before <;> exact next

/-- A change of status that a job may make, with the pipeline it needs. -/
theorem RecordedAt.advance {status : JobStatus} (recorded : RecordedAt s pending jobid)
    (next : (s.job jobid).status.Next status)
    (longer : history s'.events jobid = history s.events jobid ++ [status])
    (now : (s'.job jobid).status = status)
    (unforked : pending' → pipelines s'.events jobid = 0)
    (forked : ¬ pending' → pipelines s'.events jobid = 1)
    (grouped : pending' → (s'.job jobid).pgid = 0)
    (running : pending' → status = .running) : RecordedAt s' pending' jobid := by
  have left := next.left
  constructor
  · rw [longer, List.isChain_append]
    refine ⟨recorded.path, List.isChain_singleton _, ?_⟩
    intro last lastly first firstly
    rw [recorded.current] at lastly
    cases lastly
    cases firstly
    exact next
  · rw [longer, now]
    simp
  · rw [now]
    rintro (queued | held)
    · exact absurd queued left
    · exact unforked held
  · exact fun _ => forked
  · rw [now]
    rintro (queued | held)
    · exact absurd queued left
    · exact grouped held
  · rw [now]
    exact running

/-- The records of all jobs: at most one of them is pending. -/
structure Recorded (s : Spooler) (pending : Option Nat) : Prop where
  jobs : ∀ jobid, RecordedAt s (pending = some jobid) jobid
  apart : ∀ event ∈ s.events, event.overlaps = false
  newer : ∀ jobid, s.jobCount ≤ jobid → (s.job jobid).status = .queued
  listed : ∀ jobid ∈ s.nodes, jobid < s.jobCount

theorem recorded_init : Recorded Spooler.init none := by
  constructor
  · intro jobid
    constructor <;> simp [Spooler.init, history, pipelines, default]
  · simp [Spooler.init]
  · intro jobid _
    rfl
  · simp [Spooler.init]

variable {waiting : Option Nat}

/-- Events that neither change a status nor fork nor give a busy printer away. -/
theorem Recorded.quiet {events : List Event} (recorded : Recorded s waiting)
    (added : s'.events = s.events ++ events)
    (silent : ∀ event ∈ events, ∀ jobid, event.statusOf jobid = none ∧ event.forks jobid = false ∧
      event.overlaps = false)
    (statuses : ∀ jobid, (s'.job jobid).status = (s.job jobid).status)
    (groups : ∀ jobid, (s'.job jobid).pgid = (s.job jobid).pgid)
    (count : s'.jobCount = s.jobCount) (nodes : ∀ jobid ∈ s'.nodes, jobid ∈ s.nodes) :
    Recorded s' waiting := by
  constructor
  · intro jobid
    refine (recorded.jobs jobid).congr ?_ ?_ (statuses jobid) (groups jobid)
    · rw [added, history_append, List.filterMap_eq_nil_iff.mpr, List.append_nil]
      exact fun event member => (silent event member jobid).1
    · rw [added, pipelines_append, List.countP_eq_zero.mpr, Nat.add_zero]
      intro event member
      simp [(silent event member jobid).2.1]
  · intro event member
    rw [added] at member
    rcases List.mem_append.mp member with old | new
    · exact recorded.apart event old
    · exact (silent event new 0).2.2
  · intro jobid new
    rw [statuses]
    exact recorded.newer jobid (count ▸ new)
  · intro jobid member
    rw [count]
    exact recorded.listed jobid (nodes jobid member)

theorem Spooler.Quiet.recorded (quiet : s.Quiet s') (recorded : Recorded s waiting) :
    Recorded s' waiting := by
  obtain ⟨events, added, silent⟩ := quiet.silent
  refine recorded.quiet added ?_ (fun _ => by rw [quiet.jobs]) (fun _ => by rw [quiet.jobs])
    quiet.jobCount (fun _ member => quiet.nodes ▸ member)
  intro event member jobid
  have unheard := silent event member
  cases event with
  | message _ => exact ⟨rfl, rfl, rfl⟩
  | killpg _ _ => exact ⟨rfl, rfl, rfl⟩
  | _ => cases unheard

theorem Talks.recorded (talks : Talks s s') (recorded : Recorded s waiting) :
    Recorded s' waiting :=
  talks.quiet.recorded recorded

/-- A job moves on; nothing is said of the others. -/
theorem Recorded.move {events : List Event} {waiting' : Option Nat} (recorded : Recorded s waiting)
    (inside : jobid < s.jobCount) (added : s'.events = s.events ++ events)
    (about : ∀ event ∈ events, ∀ other ≠ jobid,
      event.statusOf other = none ∧ event.forks other = false)
    (apart : ∀ event ∈ events, event.overlaps = false)
    (others : ∀ other ≠ jobid, s'.job other = s.job other)
    (waits : ∀ other ≠ jobid, waiting' = some other ↔ waiting = some other)
    (own : RecordedAt s' (waiting' = some jobid) jobid) (count : s'.jobCount = s.jobCount)
    (nodes : s'.nodes = s.nodes) : Recorded s' waiting' := by
  constructor
  · intro other
    by_cases same : other = jobid
    · rw [same]
      exact own
    · rw [waits other same]
      refine (recorded.jobs other).congr ?_ ?_ (by rw [others other same]) (by rw [others other same])
      · rw [added, history_append, List.filterMap_eq_nil_iff.mpr, List.append_nil]
        exact fun event member => (about event member other same).1
      · rw [added, pipelines_append, List.countP_eq_zero.mpr, Nat.add_zero]
        intro event member
        simp [(about event member other same).2]
  · intro event member
    rw [added] at member
    rcases List.mem_append.mp member with old | new
    · exact recorded.apart event old
    · exact apart event new
  · intro other new
    have different : other ≠ jobid := by omega
    rw [others other different]
    exact recorded.newer other (count ▸ new)
  · rw [nodes, count]
    exact recorded.listed

/-- The first statement of `runJob` on a QUEUED job. -/
theorem Recorded.setStatus (recorded : Recorded s none) (inside : jobid < s.jobCount)
    (queued : (s.job jobid).status = .queued) :
    Recorded (setStatus jobid .running s) (some jobid) := by
  have record := recorded.jobs jobid
  have next : (s.job jobid).status.Next .running := by
    rw [queued]
    trivial
  refine @Recorded.move _ _ jobid none [.status jobid .running] _ recorded inside rfl ?_ ?_ ?_ ?_ ?_
    rfl rfl
  · intro event member other different
    rw [List.mem_singleton.mp member]
    simp [Event.statusOf, Event.forks, different.symm]
  · intro event member
    rw [List.mem_singleton.mp member]
    rfl
  · intro other different
    simp [Imprimer.setStatus, Spooler.setJob, Spooler.emit, different]
  · intro other different
    simp [different.symm]
  · refine record.advance next ?_ ?_ ?_ ?_ ?_ (fun _ => rfl)
    · simp [Imprimer.setStatus, Spooler.setJob, Spooler.emit, history_append, Event.statusOf]
    · simp [Imprimer.setStatus, Spooler.setJob, Spooler.emit]
    · intro _
      simp [Imprimer.setStatus, Spooler.setJob, Spooler.emit, pipelines_append, Event.forks,
        record.unforked (.inl queued)]
    · simp
    · intro _
      simp [Imprimer.setStatus, Spooler.setJob, Spooler.emit, record.grouped (.inl queued)]

/-- A change of status that the handler makes. -/
theorem Recorded.changeStatus {status : JobStatus} (recorded : Recorded s waiting)
    (inside : jobid < s.jobCount) (left : (s.job jobid).status ≠ .queued)
    (free : waiting ≠ some jobid) (next : (s.job jobid).status.Next status) :
    Recorded (changeStatus world jobid status s) waiting := by
  have record := recorded.jobs jobid
  rw [changeStatus_eq]
  refine recorded.move inside rfl ?_ ?_ ?_ (fun _ _ => Iff.rfl) ?_ rfl rfl
  · intro event member other different
    simp only [List.mem_cons, List.not_mem_nil, or_false] at member
    rcases member with rfl | rfl
    · simp [Event.statusOf, Event.forks, different.symm]
    · exact ⟨rfl, rfl⟩
  · intro event member
    simp only [List.mem_cons, List.not_mem_nil, or_false] at member
    rcases member with rfl | rfl <;> rfl
  · intro other different
    simp [different]
  · refine record.advance next ?_ ?_ (fun held => absurd held free) ?_ (fun held => absurd held free)
      (fun held => absurd held free)
    · simp [history_append, Event.statusOf]
    · simp
    · intro _
      simp [pipelines_append, Event.forks, record.forked left free]

theorem Recorded.started {file : Text} (recorded : Recorded s waiting) (inside : jobid < s.jobCount)
    (queued : (s.job jobid).status = .queued) (idle : (s.printer id).busy = false) :
    Recorded (s.started world file jobid id) waiting := by
  have record := recorded.jobs jobid
  have next : (s.job jobid).status.Next .running := by
    rw [queued]
    trivial
  have free : waiting ≠ some jobid := by
    intro held
    have running := record.running held
    rw [queued] at running
    cases running
  refine recorded.move inside rfl ?_ ?_ ?_ (fun _ _ => Iff.rfl) ?_ rfl rfl
  · intro event member other different
    simp only [List.mem_cons, List.not_mem_nil, or_false] at member
    rcases member with rfl | rfl | rfl | rfl | rfl | rfl <;>
      simp [Event.statusOf, Event.forks, different.symm]
  · intro event member
    simp only [List.mem_cons, List.not_mem_nil, or_false] at member
    rcases member with rfl | rfl | rfl | rfl | rfl | rfl <;> simp [Event.overlaps, idle]
  · intro other different
    simp [Spooler.started, different]
  · refine record.advance next ?_ ?_
      (fun held => absurd held free) ?_ (fun held => absurd held free) (fun held => absurd held free)
    · simp [Spooler.started, history_append, Event.statusOf]
    · simp [Spooler.started]
    · intro _
      simp [Spooler.started, pipelines_append, Event.forks, record.unforked (.inl queued)]

theorem Recorded.process {file : Text} (recorded : Recorded s (some jobid))
    (inside : jobid < s.jobCount) (ran : runJobProcess world file jobid id s = some s') :
    Recorded s' none := by
  have record := recorded.jobs jobid
  unfold runJobProcess at ran
  dsimp only at ran
  split at ran
  · cases ran
    refine @Recorded.move _ _ jobid _ [.forked jobid file id (world.pid s.forks)] _ recorded inside rfl
      ?_ ?_ ?_ ?_ ?_ rfl rfl
    · intro event member other different
      rw [List.mem_singleton.mp member]
      simp [Event.statusOf, Event.forks, different.symm]
    · intro event member
      rw [List.mem_singleton.mp member]
      rfl
    · intro other different
      simp [Spooler.setJob, Spooler.emit, different]
    · intro other different
      simp [different.symm]
    · have running := record.running rfl
      constructor
      · simpa [Spooler.setJob, Spooler.emit, history, Event.statusOf, List.filterMap_cons]
          using record.path
      · simpa [Spooler.setJob, Spooler.emit, history, Event.statusOf, List.filterMap_cons]
          using record.current
      · simp [Spooler.setJob, Spooler.emit, running]
      · simp [Spooler.setJob, Spooler.emit, pipelines_append, Event.forks, record.unforked (.inr rfl)]
      · simp [Spooler.setJob, Spooler.emit, running]
      · simp
  · cases ran

theorem Recorded.addJob {job : Job} (recorded : Recorded s none) (queued : job.status = .queued)
    (group : job.pgid = 0) : Recorded (Imprimer.addJob job s) none := by
  have statuses : ∀ other, ((Imprimer.addJob job s).job other).status = (s.job other).status := by
    intro other
    by_cases same : other = s.jobCount
    · rw [same, recorded.newer s.jobCount (Nat.le_refl _)]
      simp [Imprimer.addJob, queued]
    · simp [Imprimer.addJob, same]
  constructor
  · intro other
    have record := recorded.jobs other
    by_cases same : other = s.jobCount
    · have before := record.grouped (.inl (same ▸ recorded.newer s.jobCount (Nat.le_refl _)))
      refine record.congr rfl rfl (statuses other) ?_
      rw [before, same]
      simp [Imprimer.addJob, group]
    · refine record.congr rfl rfl (statuses other) ?_
      simp [Imprimer.addJob, same]
  · exact recorded.apart
  · intro other new
    rw [statuses]
    exact recorded.newer other (Nat.le_of_succ_le new)
  · intro other member
    rcases List.mem_append.mp member with old | new
    · exact Nat.lt_succ_of_lt (recorded.listed other old)
    · rw [List.mem_singleton.mp new]
      exact Nat.lt_succ_self _

/-- The handler has taken `s` to `s'` while a job is pending and a printer is reserved. -/
structure Spooler.Handles (s s' : Spooler) (waiting reserved : Option Nat) : Prop where
  recorded : Recorded s' waiting
  setup : s.SameSetup s'
  jobCount : s'.jobCount = s.jobCount
  nodes : s'.nodes = s.nodes
  queued : ∀ jobid, (s'.job jobid).status = .queued → (s.job jobid).status = .queued
  idle : ∀ id, reserved = some id → (s'.printer id).busy = false

variable {reserved : Option Nat}

theorem Spooler.Handles.refl (recorded : Recorded s waiting)
    (idle : ∀ id, reserved = some id → (s.printer id).busy = false) :
    s.Handles s waiting reserved :=
  ⟨recorded, .refl s, rfl, rfl, fun _ => id, idle⟩

theorem Spooler.Handles.talks {s'' : Spooler} (handles : s.Handles s' waiting reserved)
    (talks : Talks s' s'') : s.Handles s'' waiting reserved := by
  have recorded := talks.recorded handles.recorded
  have setup := handles.setup.trans talks.setup
  obtain ⟨messages, rfl⟩ := talks
  exact { handles with
    recorded := recorded
    setup := setup }

theorem Spooler.Handles.changeStatus {status : JobStatus} (handles : s.Handles s' waiting reserved)
    (inside : jobid < s'.jobCount) (left : (s'.job jobid).status ≠ .queued)
    (free : waiting ≠ some jobid) (next : (s'.job jobid).status.Next status) :
    s.Handles (changeStatus world jobid status s') waiting reserved := by
  have recorded := @Recorded.changeStatus s' world jobid _ _ handles.recorded inside left free next
  have leaves := next.left
  rw [changeStatus_eq] at recorded ⊢
  refine ⟨recorded, handles.setup.trans ⟨rfl, rfl, fun _ => rfl, fun _ => rfl, fun _ => rfl,
    fun other => ?_, fun other => ?_⟩, handles.jobCount, handles.nodes, fun other queued => ?_,
    handles.idle⟩
  · by_cases same : other = jobid
    · simp [same]
    · simp [same]
  · by_cases same : other = jobid
    · simp [same]
    · simp [same]
  · by_cases same : other = jobid
    · simp [same, leaves] at queued
    · simp only [Function.update_of_ne same] at queued
      exact handles.queued other queued

theorem Spooler.Handles.freePrinter {name : Text} (handles : s.Handles s' waiting reserved) :
    s.Handles (freePrinter name s') waiting reserved := by
  cases found : getPrinter s' name with
  | none =>
      simp only [Imprimer.freePrinter, found]
      exact handles.talks (talks_errorMessage _ _)
  | some id =>
      rw [freePrinter_eq found]
      refine ⟨?_, handles.setup.trans ⟨rfl, rfl, fun q => ?_, fun q => ?_, fun q => ?_, fun _ => rfl,
        fun _ => rfl⟩, handles.jobCount, handles.nodes, handles.queued, fun q held => ?_⟩
      · refine handles.recorded.quiet rfl ?_ (fun _ => rfl) (fun _ => rfl) rfl
          (fun _ member => member)
        intro event member jobid
        rw [List.mem_singleton.mp member]
        exact ⟨rfl, rfl, rfl⟩
      · by_cases same : q = id <;> simp [same]
      · by_cases same : q = id <;> simp [same]
      · by_cases same : q = id <;> simp [same]
      · by_cases same : q = id
        · simp [same]
        · simp only [Function.update_of_ne same]
          exact handles.idle q held

theorem Spooler.Handles.started {file : Text} (handles : s.Handles s' waiting reserved)
    (inside : jobid < s'.jobCount) (queued : (s'.job jobid).status = .queued)
    (idle : (s'.printer id).busy = false) (other : reserved ≠ some id) :
    s.Handles (s'.started world file jobid id) waiting reserved := by
  refine ⟨handles.recorded.started inside queued idle,
    handles.setup.trans (s'.started_setup file jobid id), handles.jobCount, handles.nodes,
    fun a stays => ?_, fun q held => ?_⟩
  · by_cases same : a = jobid
    · simp [Spooler.started, same] at stays
    · simp only [Spooler.started, Function.update_of_ne same] at stays
      exact handles.queued a stays
  · have different : q ≠ id := by
      rintro rfl
      exact other held
    simp only [Spooler.started, Function.update_of_ne different]
    exact handles.idle q held

theorem Spooler.Handles.runJobs {s'' : Spooler} (handles : s.Handles s' waiting reserved)
    (spared : ∀ id, reserved = some id →
      ∀ jobid ∈ s.nodes, (s.job jobid).status = .queued → ¬ s.MayUse jobid id)
    (ran : runJobs world s' = some s'') : s.Handles s'' waiting reserved := by
  refine @runJobs_invariant s' s'' world (fun later => s.Handles later waiting reserved) handles ?_ ran
  intro s' next jobid handles member queued ran
  rcases startJob_cases ran with talks | ⟨id, takes, -, rfl⟩
  · exact handles.talks talks
  · refine handles.started (handles.recorded.listed jobid member) queued takes.free ?_
    intro held
    exact spared id held jobid (handles.nodes ▸ member) (handles.queued jobid queued)
      (handles.setup.mayUse takes.mayUse)

/-- The functions that change a job's status report an error or make a change that is in order. -/
def InOrder (change : World → Nat → Spooler → Spooler) : Prop :=
  ∀ world jobid s, Talks s (change world jobid s) ∨ ∃ status, (s.job jobid).status.Next status ∧
    change world jobid s = changeStatus world jobid status s

theorem inOrder_pauseJob : InOrder pauseJob := by
  intro world jobid s
  unfold pauseJob
  split
  · rename_i running
    exact .inr ⟨.paused, by rw [running]; trivial, rfl⟩
  · exact .inl (talks_errorMessage _ _)

theorem inOrder_resumeJob : InOrder resumeJob := by
  intro world jobid s
  unfold resumeJob
  split
  · rename_i paused
    exact .inr ⟨.running, by rw [paused]; trivial, rfl⟩
  · exact .inl (talks_errorMessage _ _)

theorem inOrder_completeJob : InOrder completeJob := by
  intro world jobid s
  unfold completeJob
  split
  · rename_i running
    exact .inr ⟨.completed, by rw [running]; trivial, rfl⟩
  · exact .inl (talks_errorMessage _ _)

theorem inOrder_abortJob : InOrder abortJob := by
  intro world jobid s
  unfold abortJob
  split
  · rename_i active
    refine .inr ⟨.aborted, ?_, rfl⟩
    rcases active with running | paused
    · rw [running]
      trivial
    · rw [paused]
      trivial
  · exact .inl (talks_errorMessage _ _)

/-- The handler only finds jobs that have a pipeline. -/
theorem Recorded.found {pid : Int} (recorded : Recorded s waiting) (positive : 0 < pid)
    (found : getJobByPID s pid = some jobid) :
    jobid < s.jobCount ∧ (s.job jobid).status ≠ .queued ∧ waiting ≠ some jobid := by
  obtain ⟨member, group⟩ := mem_nodes_of_getJobByPID found
  have record := recorded.jobs jobid
  refine ⟨recorded.listed jobid member, ?_, ?_⟩
  · intro queued
    have zero := record.grouped (.inl queued)
    omega
  · intro held
    have zero := record.grouped (.inr held)
    omega

/-- The first thing the handler does with a job it has found. -/
theorem Spooler.Handles.change {change : World → Nat → Spooler → Spooler} {pid : Int}
    (inOrder : InOrder change) (positive : 0 < pid) (found : getJobByPID s pid = some jobid)
    (handles : s.Handles s waiting reserved) :
    s.Handles (change world jobid s) waiting reserved ∧
      ∀ other, (s.job other).status = .queued → ((change world jobid s).job other).status = .queued := by
  obtain ⟨inside, left, free⟩ := handles.recorded.found positive found
  rcases inOrder world jobid s with talks | ⟨status, next, changed⟩
  · refine ⟨handles.talks talks, fun other queued => ?_⟩
    obtain ⟨messages, same⟩ := talks
    rw [same]
    exact queued
  · rw [changed]
    refine ⟨handles.changeStatus inside left free next, fun other queued => ?_⟩
    have different : other ≠ jobid := by
      rintro rfl
      exact left queued
    rw [changeStatus_eq]
    simp only [Function.update_of_ne different]
    exact queued

theorem endJob_handles {finish : World → Nat → Spooler → Spooler} {pid : Int}
    (inOrder : InOrder finish) (positive : 0 < pid) (handles : s.Handles s waiting reserved)
    (spared : ∀ id, reserved = some id →
      ∀ jobid ∈ s.nodes, (s.job jobid).status = .queued → ¬ s.MayUse jobid id)
    (ran : endJob world finish pid s = some s') : s.Handles s' waiting reserved := by
  simp only [endJob, Option.bind_eq_bind, Option.bind_eq_some_iff] at ran
  obtain ⟨jobid, found, freed, release, rest⟩ := ran
  obtain ⟨id, -, rfl⟩ := Option.map_eq_some_iff.mp release
  exact ((handles.change inOrder positive found).1.freePrinter).runJobs spared rest

theorem printHandler_handles {reported : Option (Int × ChildStatus)}
    (positive : ∀ child ∈ reported, 0 < child.1) (handles : s.Handles s waiting reserved)
    (spared : Ends reported → ∀ id, reserved = some id →
      ∀ jobid ∈ s.nodes, (s.job jobid).status = .queued → ¬ s.MayUse jobid id)
    (ran : printHandler world reported s = some s') :
    s.Handles s' waiting reserved ∧ (¬ Ends reported →
      ∀ jobid, (s.job jobid).status = .queued → (s'.job jobid).status = .queued) := by
  unfold printHandler at ran
  split at ran
  · cases ran
    exact ⟨handles, fun _ _ => id⟩
  · exact ⟨endJob_handles inOrder_completeJob (positive _ rfl) handles (spared trivial) ran,
      fun running => absurd trivial running⟩
  · exact ⟨endJob_handles inOrder_abortJob (positive _ rfl) handles (spared trivial) ran,
      fun running => absurd trivial running⟩
  · cases ran
    exact ⟨handles, fun _ _ => id⟩
  · obtain ⟨jobid, found, rfl⟩ := Option.map_eq_some_iff.mp ran
    obtain ⟨kept, queued⟩ := handles.change inOrder_pauseJob (positive _ rfl) found
    exact ⟨kept, fun _ => queued⟩
  · obtain ⟨jobid, found, rfl⟩ := Option.map_eq_some_iff.mp ran
    obtain ⟨kept, queued⟩ := handles.change inOrder_resumeJob (positive _ rfl) found
    exact ⟨kept, fun _ => queued⟩
  · exact ⟨endJob_handles inOrder_abortJob (positive _ rfl) handles (spared trivial) ran,
      fun running => absurd trivial running⟩

end Audible.Imprimer
