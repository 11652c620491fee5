import Audible.PrinterRecords

set_option autoImplicit false

/- When a QUEUED job is left without a printer that it could have (`printers.c` and `jobs.c`). -/
namespace Audible.Imprimer

variable {s s' : Spooler} {world : World} {jobid id : Nat}

/-- The first printer of the table that passes the test of a loop. -/
def firstSuited (s : Spooler) (jobid pass : Nat) : Option Nat :=
  (List.range s.printerCount).find? fun id => suits s jobid pass id = some true

theorem firstSuited_eq_some {pass : Nat} : firstSuited s jobid pass = some id ↔
    id < s.printerCount ∧ suits s jobid pass id = some true ∧
      ∀ earlier < id, suits s jobid pass earlier ≠ some true := by
  unfold firstSuited
  rw [List.find?_range_eq_some]
  simp only [decide_eq_true_eq, List.mem_range, Bool.not_eq_true', decide_eq_false_iff_not]
  tauto

theorem firstSuited_eq_none {pass : Nat} : firstSuited s jobid pass = none ↔
    ∀ id < s.printerCount, suits s jobid pass id ≠ some true := by
  simp [firstSuited]

/-- A loop finds the first printer that passes its test. -/
theorem searchPrinters_eq {pass : Nat} (returns : ∀ id, (suits s jobid pass id).isSome = true) :
    searchPrinters s jobid pass s.printerCount = some (firstSuited s jobid pass) := by
  have loop : ∀ remaining ≤ s.printerCount, searchPrinters s jobid pass remaining =
      some ((List.range' (s.printerCount - remaining) remaining).find?
        fun id => suits s jobid pass id = some true) := by
    intro remaining inside
    induction remaining with
    | zero => rfl
    | succ remaining ih =>
        have next : s.printerCount - (remaining + 1) + 1 = s.printerCount - remaining := by omega
        rw [searchPrinters, List.range'_succ, next, List.find?_cons]
        obtain ⟨passes, test⟩ :=
          Option.isSome_iff_exists.mp (returns (s.printerCount - (remaining + 1)))
        simp only [test, Option.bind_eq_bind, Option.bind_some, Option.some.injEq]
        cases passes with
        | true => rfl
        | false => simpa using ih (by omega)
  rw [loop _ (le_refl _), Nat.sub_self, firstSuited, List.range_eq_range']

/-- The three loops one after the other. -/
theorem getEligiblePrinter_eq (typed : s.Typed) (inside : jobid < s.jobCount) :
    getEligiblePrinter jobid s = some (s, (firstSuited s jobid 0).or
      ((firstSuited s jobid 1).or (firstSuited s jobid 2))) := by
  have known := typed.jobs jobid inside
  have returns : ∀ pass id, (suits s jobid pass id).isSome = true := by
    intro pass id
    unfold suits
    split
    · rfl
    · split
      · rfl
      · rw [Option.isSome_map]
        exact getConversionPath_isSome typed.declared known _ _
      · rfl
  have search : ∀ pass, searchPrinters s jobid pass s.printerCount = some (firstSuited s jobid pass) :=
    fun pass => searchPrinters_eq (returns pass)
  unfold getEligiblePrinter
  rw [if_neg (by simp [Option.isSome_iff_ne_none.mp known])]
  simp only [searchPasses, search, Option.bind_eq_bind, Option.bind_some]
  cases firstSuited s jobid 0 with
  | some id => rfl
  | none =>
      cases firstSuited s jobid 1 with
      | some id => rfl
      | none => cases firstSuited s jobid 2 <;> rfl

/-- A printer that the job may use and that its type can be converted for, busy or not. -/
def Spooler.Converts (s : Spooler) (jobid id : Nat) : Prop :=
  usable s jobid id = true ∧ ∃ path, path ≠ [] ∧
    getConversionPath s.typeArray (s.job jobid).fileType (s.printer id).type maxConversions = some path

/-- The test of the first loop. -/
theorem suits_own : suits s jobid 0 id = some true ↔
    MayRun s (s.job jobid) id ∧ (s.printer id).type = (s.job jobid).fileType := by
  unfold suits
  split
  · rename_i unusable
    simp only [Option.some.injEq, Bool.false_eq_true, false_iff]
    rintro ⟨may, -⟩
    simp [usable, may.enabled, may.eligible] at unusable
  · rename_i allowed
    simp only [usable, Bool.not_eq_true', Bool.not_eq_false, Bool.and_eq_true] at allowed
    simp only [Option.some.injEq, Bool.and_eq_true, Bool.not_eq_true', decide_eq_true_eq]
    constructor
    · rintro ⟨idle, own⟩
      exact ⟨⟨allowed.1, allowed.2, idle, .inl own⟩, own⟩
    · rintro ⟨may, own⟩
      exact ⟨may.idle, own⟩

/-- The test of the second loop, which does not ask whether the printer is busy. -/
theorem suits_converts : suits s jobid 1 id = some true ↔ s.Converts jobid id := by
  unfold suits Spooler.Converts
  split
  · rename_i unusable
    simp only [Bool.not_eq_true'] at unusable
    simp [unusable]
  · rename_i allowed
    simp only [Bool.not_eq_true', Bool.not_eq_false] at allowed
    simp only [Option.map_eq_some_iff, decide_eq_true_eq, allowed, true_and]
    constructor
    · rintro ⟨path, found, nonempty⟩
      exact ⟨path, nonempty, found⟩
    · rintro ⟨path, nonempty, found⟩
      exact ⟨path, found, nonempty⟩

theorem MayRun.converts (may : MayRun s (s.job jobid) id)
    (other : (s.printer id).type ≠ (s.job jobid).fileType) : s.Converts jobid id :=
  ⟨by simp [usable, may.enabled, may.eligible], may.prints.resolve_left other⟩

theorem Spooler.Converts.mayRun (converts : s.Converts jobid id)
    (idle : (s.printer id).busy = false) : MayRun s (s.job jobid) id := by
  obtain ⟨allowed, found⟩ := converts
  rw [usable, Bool.and_eq_true] at allowed
  exact ⟨allowed.1, allowed.2, idle, .inr found⟩

/-- An enabled printer is in the table. -/
theorem Spooler.Registered.inside (registered : s.Registered) (allowed : usable s jobid id = true) :
    id < s.printerCount := by
  rw [usable, Bool.and_eq_true] at allowed
  exact (getPrinter_eq_some.mp (registered id allowed.1)).1

/-- There are printers that the job may be run on, but none of its own type, and a busy printer that
its type can be converted for stands before all of them in the table. -/
def Spooler.Blocked (s : Spooler) (jobid : Nat) : Prop :=
  (∃ id, MayRun s (s.job jobid) id) ∧
    ∃ blocker, (s.printer blocker).busy = true ∧ s.Converts jobid blocker ∧
      ∀ id, MayRun s (s.job jobid) id →
        (s.printer id).type ≠ (s.job jobid).fileType ∧ blocker < id

/-- `getEligiblePrinter` returns a printer that is not busy. -/
def Spooler.FindsIdle (s : Spooler) (jobid : Nat) : Prop :=
  ∃ id, getEligiblePrinter jobid s = some (s, some id) ∧ (s.printer id).busy = false

theorem Spooler.Blocked.not_findsIdle (blocked : s.Blocked jobid) (typed : s.Typed)
    (registered : s.Registered) (inside : jobid < s.jobCount) : ¬ s.FindsIdle jobid := by
  obtain ⟨-, blocker, busy, converts, before⟩ := blocked
  have none_ : firstSuited s jobid 0 = none := by
    rw [firstSuited_eq_none]
    intro id _ own
    rw [suits_own] at own
    exact (before id own.1).1 own.2
  rintro ⟨choice, found, idle⟩
  rw [getEligiblePrinter_eq typed inside, none_] at found
  cases first : firstSuited s jobid 1 with
  | none =>
      rw [firstSuited_eq_none] at first
      exact first blocker (registered.inside converts.1) (suits_converts.mpr converts)
  | some id =>
      rw [first] at found
      cases found
      obtain ⟨-, suited, earlier⟩ := firstSuited_eq_some.mp first
      have later := (before choice ((suits_converts.mp suited).mayRun idle)).2
      exact earlier blocker later (suits_converts.mpr converts)

theorem findsIdle_of_not_blocked (free : ¬ s.Blocked jobid) (may : MayRun s (s.job jobid) id)
    (typed : s.Typed) (registered : s.Registered) (inside : jobid < s.jobCount) :
    s.FindsIdle jobid := by
  have allowed : ∀ {id}, MayRun s (s.job jobid) id → id < s.printerCount := fun may =>
    registered.inside (by simp [usable, may.enabled, may.eligible] : usable s jobid _ = true)
  rw [Spooler.FindsIdle, getEligiblePrinter_eq typed inside]
  cases own : firstSuited s jobid 0 with
  | some choice =>
      obtain ⟨-, suited, -⟩ := firstSuited_eq_some.mp own
      exact ⟨choice, rfl, (suits_own.mp suited).1.idle⟩
  | none =>
      rw [firstSuited_eq_none] at own
      have other : ∀ id, MayRun s (s.job jobid) id →
          (s.printer id).type ≠ (s.job jobid).fileType := fun id may same =>
        own id (allowed may) (suits_own.mpr ⟨may, same⟩)
      cases first : firstSuited s jobid 1 with
      | none =>
          rw [firstSuited_eq_none] at first
          exact absurd (suits_converts.mpr (may.converts (other id may))) (first id (allowed may))
      | some choice =>
          refine ⟨choice, rfl, ?_⟩
          obtain ⟨-, suited, earlier⟩ := firstSuited_eq_some.mp first
          by_contra busy
          rw [Bool.not_eq_false] at busy
          refine free ⟨⟨id, may⟩, choice, busy, suits_converts.mp suited,
            fun id may => ⟨other id may, ?_⟩⟩
          by_contra later
          rcases Nat.lt_or_eq_of_le (Nat.le_of_not_lt later) with before | same
          · exact earlier id before (suits_converts.mpr (may.converts (other id may)))
          · rw [← same, may.idle] at busy
            cases busy

/-- The job is not QUEUED, or there is no printer that it may be run on. -/
def Spooler.Served (s : Spooler) (jobid : Nat) : Prop :=
  (s.job jobid).status = .queued → ∀ id, ¬ MayRun s (s.job jobid) id

/-- While the loop runs jobs are started only, and printers become busy only. -/
structure Spooler.Fills (s s' : Spooler) : Prop where
  setup : s.SameSetup s'
  idle : ∀ id, (s'.printer id).busy = false → (s.printer id).busy = false
  queued : ∀ jobid, (s'.job jobid).status = .queued → (s.job jobid).status = .queued

theorem startJob_fills {file : Text} (ran : startJob world file jobid s = some s') : s.Fills s' := by
  rcases startJob_cases ran with talks | ⟨id, -, -, rfl⟩
  · have setup := talks.setup
    obtain ⟨messages, rfl⟩ := talks
    exact ⟨setup, fun _ idle => idle, fun _ queued => queued⟩
  · refine ⟨s.started_setup file jobid id, fun other idle => ?_, fun other queued => ?_⟩
    · by_cases same : other = id
      · simp [Spooler.started, same] at idle
      · simpa [Spooler.started, same] using idle
    · by_cases same : other = jobid
      · simp [Spooler.started, same] at queued
      · simpa [Spooler.started, same] using queued

theorem Spooler.Fills.mayRun (fills : s.Fills s') (may : MayRun s' (s'.job jobid) id) :
    MayRun s (s.job jobid) id where
  enabled := (fills.setup.enabled id).symm.trans may.enabled
  eligible := fills.setup.eligible jobid ▸ may.eligible
  idle := fills.idle id may.idle
  prints := by
    have prints := may.prints
    rwa [fills.setup.prints, fills.setup.files, fills.setup.types] at prints

theorem Spooler.Fills.served (fills : s.Fills s') (served : s.Served jobid) : s'.Served jobid :=
  fun queued id may => served (fills.queued jobid queued) id (fills.mayRun may)

/-- A job that is not blocked is started if there is a printer that it may be run on. -/
theorem startJob_served {file : Text} (free : ¬ s.Blocked jobid) (typed : s.Typed)
    (registered : s.Registered) (inside : jobid < s.jobCount)
    (ran : startJob world file jobid s = some s') : s'.Served jobid := by
  intro queued id may
  obtain ⟨choice, found, idle⟩ := findsIdle_of_not_blocked free ((startJob_fills ran).mayRun may)
    typed registered inside
  have enabled := (getEligiblePrinter_suits found).1
  rw [usable, Bool.and_eq_true] at enabled
  have ran' := ran
  rw [startJob, found] at ran'
  simp only [Option.bind_eq_bind, Option.bind_some] at ran'
  rcases runJob_cases ran' with ⟨-, busy⟩ | ⟨id', -, -, -, rfl⟩
  · rw [busy choice (registered choice enabled.1)] at idle
    cases idle
  · simp [Spooler.started] at queued

/-- Whenever the loop of `runJobs` comes to a QUEUED job, the job is not blocked. -/
def NeverBlocked (world : World) (nodes : List Nat) (s : Spooler) : Prop :=
  ∀ (front : List Nat) (jobid : Nat) (rest : List Nat) (s₁ : Spooler),
    nodes = front ++ jobid :: rest → runJobsFrom world front s = some s₁ →
      (s₁.job jobid).status = .queued → ¬ s₁.Blocked jobid

theorem runRound_keeps (ran : runRound world jobid s = some s') :
    s.Keeps s' ∧ s.SamePrinters s' ∧ s.Fills s' := by
  unfold runRound at ran
  split at ran
  · exact ⟨startJob_keeps ran, startJob_samePrinters ran, startJob_fills ran⟩
  · cases ran
    exact ⟨(Talks.refl s).keeps, .refl s, .refl s, fun _ idle => idle, fun _ queued => queued⟩

theorem runRound_served (free : (s.job jobid).status = .queued → ¬ s.Blocked jobid) (typed : s.Typed)
    (registered : s.Registered) (inside : jobid < s.jobCount)
    (ran : runRound world jobid s = some s') : s'.Served jobid := by
  unfold runRound at ran
  split at ran
  · rename_i queued
    exact startJob_served (free queued) typed registered inside ran
  · rename_i other
    cases ran
    exact fun queued => absurd queued other

theorem runJobsFrom_served {nodes done : List Nat} (typed : s.Typed) (registered : s.Registered)
    (inside : ∀ jobid ∈ nodes, jobid < s.jobCount) (served : ∀ jobid ∈ done, s.Served jobid)
    (never : NeverBlocked world nodes s) (ran : runJobsFrom world nodes s = some s') :
    ∀ jobid ∈ done ++ nodes, s'.Served jobid := by
  induction nodes generalizing s done with
  | nil =>
      cases ran
      simpa using served
  | cons jobid nodes ih =>
      rw [runJobsFrom_cons] at ran
      obtain ⟨next, first, rest⟩ := Option.bind_eq_some_iff.mp ran
      obtain ⟨keeps, same, fills⟩ := runRound_keeps first
      have now : next.Served jobid :=
        runRound_served (never [] jobid nodes s rfl rfl) typed registered (inside jobid (by simp)) first
      have later : NeverBlocked world nodes next := by
        intro front other back s₁ split reached
        refine never (jobid :: front) other back s₁ (by rw [split]; rfl) ?_
        rw [runJobsFrom_cons, first]
        exact reached
      have result := @ih next (done ++ [jobid]) (keeps.typed typed) (same.registered registered)
        (fun other member => (inside other (by simp [member])).trans_le keeps.count)
        (fun other member => by
          rcases List.mem_append.mp member with earlier | this
          · exact fills.served (served other earlier)
          · rw [List.mem_singleton.mp this]
            exact now)
        later rest
      rwa [List.append_assoc] at result

theorem NeverBlocked.front {front rest : List Nat} (never : NeverBlocked world (front ++ rest) s) :
    NeverBlocked world front s := by
  intro before jobid after s₁ split reached
  exact never before jobid (after ++ rest) s₁ (by rw [split, List.append_assoc]; rfl) reached

/-- A blocked job is given a busy printer, which `runJob` refuses. -/
theorem Spooler.Blocked.startJob {file : Text} (blocked : s.Blocked jobid) (typed : s.Typed)
    (registered : s.Registered) (inside : jobid < s.jobCount) :
    Imprimer.startJob world file jobid s = some s := by
  have found := getEligiblePrinter_eq typed inside
  cases choice : (firstSuited s jobid 0).or ((firstSuited s jobid 1).or (firstSuited s jobid 2)) with
  | none =>
      rw [choice] at found
      simp [Imprimer.startJob, found]
  | some id =>
      rw [choice] at found
      have busy : (s.printer id).busy = true := by
        by_contra idle
        exact blocked.not_findsIdle typed registered inside ⟨id, found, by simpa using idle⟩
      have enabled := (getEligiblePrinter_suits found).1
      rw [usable, Bool.and_eq_true] at enabled
      simp [Imprimer.startJob, found, runJob, registered id enabled.1, busy]

theorem runJobsFrom_snoc (front : List Nat) (jobid : Nat) (s : Spooler) :
    runJobsFrom world (front ++ [jobid]) s =
      (runJobsFrom world front s).bind (runRound world jobid) := by
  induction front generalizing s with
  | nil =>
      rw [List.nil_append, runJobsFrom_cons]
      change (runRound world jobid s).bind _ = runRound world jobid s
      cases runRound world jobid s <;> rfl
  | cons other front ih =>
      rw [List.cons_append, runJobsFrom_cons, runJobsFrom_cons, Option.bind_assoc]
      exact congrArg _ (funext ih)

/-- After any number of rounds, the jobs that the loop of `runJobs` has come to are served. -/
def AlwaysServed (world : World) (nodes : List Nat) (s : Spooler) : Prop :=
  ∀ (front rest : List Nat) (s₁ : Spooler), nodes = front ++ rest →
    runJobsFrom world front s = some s₁ → ∀ jobid ∈ front, s₁.Served jobid

theorem runJobsFrom_keeps {nodes : List Nat} (ran : runJobsFrom world nodes s = some s') :
    s.Keeps s' ∧ s.SamePrinters s' := by
  induction nodes generalizing s with
  | nil =>
      cases ran
      exact ⟨(Talks.refl _).keeps, .refl _⟩
  | cons jobid nodes ih =>
      rw [runJobsFrom_cons] at ran
      obtain ⟨next, first, rest⟩ := Option.bind_eq_some_iff.mp ran
      obtain ⟨keeps, same, -⟩ := runRound_keeps first
      obtain ⟨keeps', same'⟩ := ih rest
      exact ⟨keeps.trans keeps', same.trans same'⟩

theorem alwaysServed_iff {nodes : List Nat} (typed : s.Typed) (registered : s.Registered)
    (inside : ∀ jobid ∈ nodes, jobid < s.jobCount) :
    AlwaysServed world nodes s ↔ NeverBlocked world nodes s := by
  constructor
  · intro always front jobid rest s₁ split reached queued blocked
    obtain ⟨keeps, same⟩ := runJobsFrom_keeps reached
    have stays : runRound world jobid s₁ = some s₁ := by
      rw [runRound, if_pos queued]
      exact blocked.startJob (keeps.typed typed) (same.registered registered)
        ((inside jobid (by simp [split])).trans_le keeps.count)
    have ran : runJobsFrom world (front ++ [jobid]) s = some s₁ := by
      rw [runJobsFrom_snoc, reached]
      exact stays
    obtain ⟨id, may⟩ := blocked.1
    exact always (front ++ [jobid]) rest s₁ (by rw [split, List.append_assoc]; rfl) ran jobid (by simp)
      queued id may
  · rintro never front rest s₁ rfl reached
    exact @runJobsFrom_served s s₁ world front [] typed registered
      (fun jobid member => inside jobid (by simp [member])) (by simp) never.front reached

/-- A job finds a printer that is not busy, where there is one that it may be run on, if and only if it
is not blocked. If and only if no job is blocked when the loop of `runJobs` comes to it, the loop
leaves no printer idle that a QUEUED job may be run on. -/
theorem findsIdle_iff {m : Program} (reached : Runs.Reachable programStep Runs.Any .init m) :
    (∀ jobid < m.s.jobCount, (m.s.job jobid).status = .queued →
      (((∃ id, MayRun m.s (m.s.job jobid) id) → m.s.FindsIdle jobid) ↔ ¬ m.s.Blocked jobid)) ∧
    ∀ world : World, (AlwaysServed world m.s.nodes m.s ↔ NeverBlocked world m.s.nodes m.s) ∧
      ∀ s', runJobs world m.s = some s' → NeverBlocked world m.s.nodes m.s →
        ∀ jobid ∈ s'.nodes, s'.Served jobid := by
  have typed := typed_of_reachable reached
  have registered := registered_of_reachable reached
  refine ⟨fun jobid inside _ => ⟨fun finds blocked => ?_, ?_⟩, fun world => ?_⟩
  · exact blocked.not_findsIdle typed registered inside (finds blocked.1)
  · rintro free ⟨id, may⟩
    exact findsIdle_of_not_blocked free may typed registered inside
  · have always := @alwaysServed_iff _ world _ typed registered typed.listed
    refine ⟨always, fun s' ran never jobid member => ?_⟩
    have nodes : s'.nodes = m.s.nodes :=
      runJobs_invariant (@rfl _ m.s.nodes) (fun s next jobid same _ _ started =>
        (startJob_nodes started).trans same) ran
    exact always.mpr never m.s.nodes [] s' (by simp) ran jobid (nodes ▸ member)

/-- A job that was printed before its printer was enabled. -/
theorem findsIdle_late : ∃ m : Program,
    Runs.run programStep .init
        [batchLine "type txt", batchLine "printer p txt", batchLine "print a.txt",
          batchLine "enable p"] = some m ∧
    (∀ jobid < m.s.jobCount, (m.s.job jobid).status = .queued →
      (((∃ id, MayRun m.s (m.s.job jobid) id) → m.s.FindsIdle jobid) ↔ ¬ m.s.Blocked jobid)) ∧
    ∀ world : World, (AlwaysServed world m.s.nodes m.s ↔ NeverBlocked world m.s.nodes m.s) ∧
      ∀ s', runJobs world m.s = some s' → NeverBlocked world m.s.nodes m.s →
        ∀ jobid ∈ s'.nodes, s'.Served jobid := by
  obtain ⟨m, ran, -⟩ := (Option.any_eq_true _ _).mp (by decide +kernel :
    (Runs.run programStep .init [batchLine "type txt", batchLine "printer p txt",
      batchLine "print a.txt", batchLine "enable p"]).any (fun _ => true) = true)
  exact ⟨m, ran, findsIdle_iff (Runs.reachable_run _ .refl (Runs.follows_any _) ran)⟩

/-- Two printers of a type that the jobs' type can be converted to, with a job on the first. -/
def firstBusy : List ProgramAction :=
  [batchLine "type txt", batchLine "type pdf", batchLine "conversion txt pdf convert",
    batchLine "printer p pdf", batchLine "printer q pdf", batchLine "enable p", batchLine "enable q",
    batchLine "print a.txt", batchLine "print b.txt"]

/-- The second job is QUEUED, and could be run on the second printer. -/
def leftIdle (s : Spooler) : Bool :=
  (s.job 1).status = .queued && suits s 1 1 1 = some true && !(s.printer 1).busy

theorem mayRun_of_leftIdle (left : leftIdle s = true) :
    (s.job 1).status = .queued ∧ MayRun s (s.job 1) 1 := by
  simp only [leftIdle, Bool.and_eq_true, decide_eq_true_eq, Bool.not_eq_true'] at left
  obtain ⟨⟨queued, suited⟩, idle⟩ := left
  exact ⟨queued, (suits_converts.mp suited).mayRun idle⟩

/-- The second job waits for the printer of the first, and the other printer is left idle. -/
theorem not_always_findsIdle :
    (¬ ∀ m, Runs.Reachable programStep Runs.Any .init m → ∀ jobid < m.s.jobCount,
      (m.s.job jobid).status = .queued →
        (∃ id, MayRun m.s (m.s.job jobid) id) → m.s.FindsIdle jobid) ∧
    ¬ ∀ m, Runs.Reachable programStep Runs.Any .init m → ∀ (world : World) (s' : Spooler),
      runJobs world m.s = some s' → ∀ jobid ∈ s'.nodes, s'.Served jobid := by
  obtain ⟨m, ran, passed⟩ := (Option.any_eq_true _ _).mp (by decide +kernel :
    (Runs.run programStep .init firstBusy).any (fun m =>
      decide (1 < m.s.jobCount) && leftIdle m.s && (m.s.printer 0).busy &&
        decide ((getEligiblePrinter 1 m.s).map Prod.snd = some (some 0)) &&
        (runJobs quietWorld m.s).any fun s' => decide (1 ∈ s'.nodes) && leftIdle s') = true)
  simp only [Bool.and_eq_true, decide_eq_true_eq] at passed
  obtain ⟨⟨⟨⟨inside, left⟩, busy⟩, chosen⟩, after⟩ := passed
  have reached := Runs.reachable_run firstBusy .refl (Runs.follows_any _) ran
  constructor
  · intro always
    obtain ⟨queued, may⟩ := mayRun_of_leftIdle left
    obtain ⟨id, found, idle⟩ := always m reached 1 inside queued ⟨1, may⟩
    rw [found] at chosen
    cases chosen
    rw [busy] at idle
    cases idle
  · intro always
    obtain ⟨s', ran', passed⟩ := (Option.any_eq_true _ _).mp after
    rw [Bool.and_eq_true, decide_eq_true_eq] at passed
    obtain ⟨queued, may⟩ := mayRun_of_leftIdle passed.2
    exact always m reached quietWorld s' ran' 1 passed.1 queued 1 may

end Audible.Imprimer
