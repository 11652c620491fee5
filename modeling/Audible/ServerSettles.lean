import Audible.ServerThreads
import Audible.TransactionReturns
import Audible.TransactionWaits

set_option autoImplicit false

/- What the clients of the server leave behind when they go. -/
namespace Audible.Threads

open Xacto (TransStatus Activity Pending Rooted)

variable {τ : Type} {m m' : Xacto.Server τ} {c : τ} {phase : Phase}

/-- The thread is in no call, and its transaction is pending no more. -/
def Done (m : Xacto.Server τ) (c : τ) : Prop := m.activity c = .idle ∧ ¬ Pending m.trans c

/-- The thread has not read that its client's transaction is committed. -/
def Unread (m : Xacto.Server τ) (c : τ) : Prop :=
  ∀ callers, m.activity c ≠ .aborting c (.firstUnlock .committed) callers

def Aborting (m : Xacto.Server τ) (c : τ) : Prop :=
  ∃ tp pc callers, m.activity c = .aborting tp pc callers

/-- The phase of a client's thread fits what the thread has done with its transaction. -/
def Fits (m : Xacto.Server τ) (c : τ) : Phase → Prop
  | .away | .accepted | .registering | .receiving => m.activity c = .idle ∧ m.attempted c = false
  | .storing => (m.activity c = .idle ∨ (∃ dtp pc, m.activity c = .adding dtp pc) ∨ Aborting m c) ∧
      Unread m c ∧ m.attempted c = false
  | .committing => (∃ pc, m.activity c = .committing pc) ∨ Done m c
  | .hangingUp | .aborting => (m.trans c).status ≠ .committed ∧ Unread m c ∧
      Rooted m.trans c (m.activity c) ∧ (Aborting m c ∨ Done m c)
  | .leaving abort | .unregistering abort => m.activity c = .idle ∧
      if abort then (m.trans c).status ≠ .committed else ¬ Pending m.trans c
  | .ended => Done m c

theorem Done.mono (done : Done m c) (activity : m'.activity c = m.activity c)
    (pending : ∀ x, Pending m'.trans x → Pending m.trans x) : Done m' c :=
  ⟨activity.trans done.1, fun still => done.2 (pending c still)⟩

/-- Other threads leave it so. -/
theorem Fits.mono (fits : Fits m c phase) (activity : m'.activity c = m.activity c)
    (attempted : m'.attempted c = m.attempted c)
    (pending : ∀ x, Pending m'.trans x → Pending m.trans x)
    (committed : (m'.trans c).status = .committed → (m.trans c).status = .committed) :
    Fits m' c phase := by
  cases phase with
  | away | accepted | registering | receiving =>
      unfold Fits
      rw [activity, attempted]
      exact fits
  | storing =>
      unfold Fits Aborting Unread
      rw [activity, attempted]
      exact fits
  | committing =>
      unfold Fits
      rw [activity]
      exact fits.imp id fun done => done.mono activity pending
  | hangingUp | aborting =>
      unfold Fits Aborting Unread
      rw [activity]
      obtain ⟨uncommitted, unread, rooted, calls⟩ := fits
      exact ⟨fun now => uncommitted (committed now), unread, rooted.mono pending,
        calls.imp id fun done => done.mono activity pending⟩
  | leaving abort | unregistering abort =>
      refine ⟨activity.trans fits.1, ?_⟩
      have known := fits.2
      cases abort with
      | false => exact fun still => known (pending c still)
      | true => exact fun now => known (committed now)
  | ended => exact fits.mono activity pending

/-- The reply to a request is sent. -/
theorem fits_replied {type : Byte} {status : TransStatus} (idle : m.activity c = .idle)
    (fresh : type ≠ Protocol.commitPkt → m.attempted c = false)
    (uncommitted : status = .aborted → (m.trans c).status ≠ .committed)
    (finished : type = Protocol.commitPkt → status ≠ .aborted → ¬ Pending m.trans c) :
    Fits m c (if type = Protocol.commitPkt ∨ status = TransStatus.aborted then
      .leaving (decide (status = TransStatus.aborted)) else .receiving) := by
  split
  · rename_i last
    refine ⟨idle, ?_⟩
    by_cases aborted : status = .aborted
    · rw [if_pos (decide_eq_true aborted)]
      exact uncommitted aborted
    · rw [if_neg (by simpa using aborted)]
      exact finished (last.resolve_right aborted) aborted
  · rename_i more
    exact ⟨idle, fresh fun commit => more (.inl commit)⟩

/-- The thread calls `trans_abort` for its client's transaction. -/
theorem fits_aborts (uncommitted : (m.trans c).status ≠ .committed)
    (now : m.activity c = .aborting c .firstLock []) :
    (m.trans c).status ≠ .committed ∧ Unread m c ∧ Rooted m.trans c (m.activity c) ∧
      (Aborting m c ∨ Done m c) := by
  refine ⟨uncommitted, fun _ read => ?_, ?_, .inl ⟨_, _, _, now⟩⟩
  · cases now.symm.trans read
  · rw [now]
    exact Xacto.rooted_start m.trans c

theorem Aborting.not_idle (aborting : Aborting m c) : m.activity c ≠ .idle := by
  obtain ⟨tp, pc, callers, now⟩ := aborting
  simp [now]

/-- A thread that aborts is in the store, hangs up, or leaves with a request that was refused; in
the last two it aborts its client's transaction. -/
theorem Fits.aborting (fits : Fits m c phase) (now : Aborting m c) : Unread m c ∧
    (phase = .storing ∨
      (phase = .hangingUp ∨ phase = .aborting) ∧ Rooted m.trans c (m.activity c)) := by
  obtain ⟨tp, pc, callers, now⟩ := now
  cases phase with
  | hangingUp => exact ⟨fits.2.1, .inr ⟨.inl rfl, fits.2.2.1⟩⟩
  | aborting => exact ⟨fits.2.1, .inr ⟨.inr rfl, fits.2.2.1⟩⟩
  | storing => exact ⟨fits.2.1, .inl rfl⟩
  | away | accepted | registering | receiving | leaving | unregistering | ended =>
      exact absurd fits.1 (by simp [now])
  | committing =>
      rcases fits with ⟨pc', other⟩ | done
      · simp [now] at other
      · exact absurd done.1 (by simp [now])

variable [DecidableEq τ]

/-- A step of a thread in a function of `transaction.c`. -/
theorem Fits.advance (fits : Fits m c phase) (sound : m.Sound) (ran : Xacto.advance c m = some m') :
    Fits m' c phase := by
  have attempted := congrFun (Xacto.advance_advances ran).attempted c
  have busy (idle : m.activity c = .idle) : False := by
    simp [Xacto.advance, idle] at ran
  have stays := fun rooted => @Xacto.advance_stays τ c _ m m' sound rooted ran
  generalize after : m'.activity c = activity at stays
  cases phase with
  | away | accepted | registering | receiving | leaving | unregistering | ended =>
      exact (busy fits.1).elim
  | storing =>
      obtain ⟨calls, unread, fresh⟩ := fits
      rcases calls.resolve_left fun idle => busy idle with ⟨dtp, pc, now⟩ | ⟨tp, pc, callers, now⟩
      · rw [now] at stays
        refine ⟨?_, fun _ read => ?_, attempted.trans fresh⟩
        · cases stays trivial with
          | adding dtp _ pc' => exact .inr (.inl ⟨dtp, pc', after⟩)
          | added => exact .inl after
        · cases stays trivial with
          | adding | added => cases after.symm.trans read
      · refine ⟨?_, Xacto.advance_unread ran now (sound.unattempted c fresh).1, attempted.trans fresh⟩
        exact (Xacto.advance_aborting ran now).imp_right .inr
  | committing =>
      obtain ⟨pc, now⟩ := fits.resolve_right fun done => busy done.1
      rw [now] at stays
      cases stays trivial with
      | committing _ pc' => exact .inl ⟨pc', after⟩
      | committed _ finished => exact .inr ⟨after, finished⟩
  | hangingUp | aborting =>
      obtain ⟨uncommitted, -, rooted, calls⟩ := fits
      obtain ⟨tp, pc, callers, now⟩ := calls.resolve_right fun done => busy done.1
      have stays := stays rooted
      rw [now] at stays
      refine ⟨Xacto.advance_uncommitted sound ran now uncommitted,
        Xacto.advance_unread ran now uncommitted, Xacto.advance_rooted sound ran rooted, ?_⟩
      cases stays with
      | aborting _ tp' _ pc' _ callers' => exact .inl ⟨tp', pc', callers', after⟩
      | aborted _ _ _ finished => exact .inr ⟨after, finished⟩

structure Service.Settled (s : Service τ) : Prop where
  sound : s.manager.Sound
  tracked : s.manager.Tracked
  fits : ∀ c, Fits s.manager c (s.phase c)

variable {s s' : Service τ}

omit [DecidableEq τ] in
theorem settled_init : (Service.init : Service τ).Settled :=
  ⟨Xacto.sound_init, Xacto.tracked_init, fun _ => ⟨rfl, rfl⟩⟩

/-- Only the phase of one thread changes. -/
theorem Service.Settled.goto (settled : s.Settled) (manager : s'.manager = s.manager)
    (phases : s'.phase = Function.update s.phase c phase) (fits : Fits s.manager c phase) :
    s'.Settled := by
  refine ⟨manager ▸ settled.sound, manager ▸ settled.tracked, fun other => ?_⟩
  rw [manager, phases]
  by_cases own : other = c
  · rw [own, Function.update_self]
    exact fits
  · rw [Function.update_of_ne own]
    exact settled.fits other

/-- A thread takes a step in the transaction manager. -/
theorem Service.Settled.manages (settled : s.Settled) {action : Xacto.Action τ} (own : action.client = c)
    (ran : Xacto.step s.manager action = some s'.manager)
    (phases : s'.phase = Function.update s.phase c phase) (fits : Fits s'.manager c phase) :
    s'.Settled := by
  refine ⟨Xacto.step_sound settled.sound ran, Xacto.step_tracked settled.tracked ran,
    fun other => ?_⟩
  rw [phases]
  by_cases same : other = c
  · rw [same, Function.update_self]
    exact fits
  · obtain ⟨activity, attempted, pending, committed⟩ :=
      Xacto.step_others settled.sound ran (own ▸ same)
    rw [Function.update_of_ne same]
    exact (settled.fits other).mono activity attempted pending committed

/-- The store calls `trans_abort`. -/
theorem Service.Settled.revokes (settled : s.Settled) (tp : τ) (storing : s.phase c = .storing)
    (idle : s.manager.activity c = .idle) :
    Service.Settled { s with manager := s.manager.goto c (.aborting tp .firstLock []) } := by
  have now : (s.manager.goto c (.aborting tp .firstLock [])).activity c =
      .aborting tp .firstLock [] := Xacto.activity_goto _ _
  refine ⟨?_, settled.tracked.calls rfl rfl trivial, fun other => ?_⟩
  · exact settled.sound.calls idle rfl rfl (fun _ _ => rfl) (fun _ => id) ⟨by simp, by simp⟩
      fun never => ⟨never, by simp⟩
  have fits := settled.fits other
  by_cases own : other = c
  · subst own
    rw [storing] at fits ⊢
    exact ⟨.inr (.inr ⟨_, _, _, now⟩), fun _ read => (by cases now.symm.trans read), fits.2.2⟩
  · exact fits.mono (Function.update_of_ne own _ _) rfl (fun _ => id) id

theorem Turn.settled (turn : Turn s c s') (settled : s.Settled) : s'.Settled := by
  have fits := settled.fits c
  have sound := settled.sound
  cases turn with
  | stores receiving =>
      rw [receiving] at fits
      exact settled.goto rfl rfl ⟨.inl fits.1, fun _ read => (by cases fits.1.symm.trans read), fits.2⟩
  | commits manager receiving ran =>
      obtain ⟨-, -, now⟩ := Xacto.step_commit ran
      exact settled.manages rfl ran rfl (.inl ⟨_, now⟩)
  | ignores type receiving other =>
      rw [receiving] at fits
      exact settled.goto rfl rfl (fits_replied fits.1 (fun _ => fits.2)
        (fun _ => (sound.unattempted c fits.2).1) fun commit => absurd commit other)
  | hangsUp manager receiving ran =>
      rw [receiving] at fits
      obtain ⟨-, trans, -, now⟩ := Xacto.step_abort ran
      have uncommitted : (manager.trans c).status ≠ .committed :=
        trans ▸ (sound.unattempted c fits.2).1
      exact settled.manages rfl ran rfl (fits_aborts uncommitted now)
  | depends dtp manager storing ran =>
      rw [storing] at fits
      obtain ⟨-, attempted, now⟩ := Xacto.step_add ran
      refine settled.manages rfl ran (Function.update_eq_self c s.phase).symm ?_
      rw [storing]
      exact ⟨.inr (.inl ⟨_, _, now⟩), fun _ read => (by cases now.symm.trans read), attempted ▸ fits.2.2⟩
  | revokes tp storing idle => exact settled.revokes tp storing idle
  | stored status storing idle =>
      rw [storing] at fits
      exact settled.goto rfl rfl (fits_replied idle (fun _ => fits.2.2)
        (fun _ => (sound.unattempted c fits.2.2).1) fun commit => absurd commit (by decide))
  | manages manager ran =>
      have went : Xacto.step s.manager (.go c) = some manager := ran
      exact settled.manages rfl went (Function.update_eq_self c s.phase).symm
        (fits.advance sound ran)
  | enters sem accepted free =>
      rw [accepted] at fits
      exact settled.goto rfl rfl fits
  | registers registering =>
      rw [registering] at fits
      exact settled.goto rfl rfl fits
  | committed committing idle =>
      rw [committing] at fits
      have done : Done s.manager c := fits.resolve_left fun busy => by simp [idle] at busy
      exact settled.goto rfl rfl (fits_replied idle (fun other => absurd rfl other)
        (fun aborted => by simp [aborted]) fun _ _ => done.2)
  | hungUp hangingUp idle =>
      rw [hangingUp] at fits
      have done := fits.2.2.2.resolve_left fun busy => busy.not_idle idle
      exact settled.goto rfl rfl done
  | leaves abort sem leaving free =>
      rw [leaving] at fits
      exact settled.goto rfl rfl fits
  | ends unregistering =>
      rw [unregistering] at fits
      exact settled.goto rfl rfl fits
  | aborts manager unregistering ran =>
      rw [unregistering] at fits
      obtain ⟨-, trans, -, now⟩ := Xacto.step_abort ran
      have uncommitted : (manager.trans c).status ≠ .committed := trans ▸ fits.2
      exact settled.manages rfl ran rfl (fits_aborts uncommitted now)
  | aborted aborting idle =>
      rw [aborting] at fits
      have done := fits.2.2.2.resolve_left fun busy => busy.not_idle idle
      exact settled.goto rfl rfl done

theorem settled_of_reachable (reached : Runs.Reachable step Runs.Any Service.init s) : s.Settled := by
  refine reached.invariant Service.Settled settled_init ?_
  intro s action s' settled _ ran
  cases step_steps ran with
  | client c _ _ turn => exact turn.settled settled
  | accept c fd away _ _ =>
      have fits := settled.fits c
      rw [away] at fits
      exact settled.goto rfl rfl fits
  | signal | takes | shuts | counts | finishes =>
      exact ⟨settled.sound, settled.tracked, settled.fits⟩

/-- The transaction of a client whose thread has ended is pending no more. -/
theorem gone_clients_settled (reached : Runs.Reachable step Runs.Any Service.init s)
    (ended : s.phase c = .ended) : (s.manager.trans c).status ≠ .pending := by
  have fits := (settled_of_reachable reached).fits c
  rw [ended] at fits
  exact fits.2

def connects (c : Nat) (fd : Int) : List (Action Nat) := [.accept c fd, .go c, .go c]

def commitsAlone (c : Nat) (fd : Int) : List (Action Nat) :=
  connects c fd ++ .packet c Protocol.commitPkt :: List.replicate 9 (.go c)

theorem gone_clients_settled_example : ∃ s : Service Nat, Runs.Reachable step Runs.Any Service.init s ∧
    s.phase 0 = .ended ∧ (s.manager.trans 0).status ≠ .pending := by
  obtain ⟨s, -, reached, passed⟩ := @Runs.exists_reachable _ _ step Runs.Any Service.init
    (commitsAlone 0 4) (fun _ _ => true) (fun _ _ _ => trivial) (by decide +kernel)
    (fun s => s.phase 0 = .ended) (by decide +kernel)
  exact ⟨s, reached, of_decide_eq_true passed, gone_clients_settled reached (of_decide_eq_true passed)⟩

/-- A thread comes to the fatal error at another transaction than its client's, which has been
committed, and only where the store aborts or where it aborts its client's transaction, which then
depends on that one. -/
theorem fatal_only_of_dependency (reached : Runs.Reachable step Runs.Any Service.init s)
    (fatal : (s.manager.activity c).Fatal) :
    ∃ tp callers, s.manager.activity c = .aborting tp (.firstUnlock .committed) callers ∧ tp ≠ c ∧
      (s.phase c = .storing ∨ (s.phase c = .hangingUp ∨ s.phase c = .aborting) ∧
        Relation.TransGen s.manager.Depends c tp) := by
  obtain ⟨tp, callers, now⟩ := fatal
  have settled := settled_of_reachable reached
  obtain ⟨unread, phase⟩ := (settled.fits c).aborting ⟨tp, _, callers, now⟩
  have other : tp ≠ c := by
    rintro rfl
    exact unread callers now
  refine ⟨tp, callers, now, other, phase.imp_right fun ⟨phase, rooted⟩ => ⟨phase, ?_⟩⟩
  have follows := settled.tracked.follows c
  rw [now] at rooted follows
  have own : Xacto.root tp callers = c := rooted.1
  have recursive : callers ≠ [] := by
    rintro rfl
    exact other own
  exact own ▸ follows.leads (Xacto.root_mem recursive)

/-- Client 1 depends on client 0, which has committed, and hangs up. -/
def hangsUpLast : List (Action Nat) :=
  commitsAlone 0 4 ++ connects 1 5 ++
    [.packet 1 Protocol.putPkt, .depend 1 0, .go 1, .go 1, .go 1, .go 1, .stored 1 .pending, .hangUp 1] ++
      List.replicate 6 (.go 1)

/-- The fatal error, as a test. -/
def atFatal : Activity τ → Bool
  | .aborting _ (.firstUnlock .committed) _ => true
  | _ => false

omit [DecidableEq τ] in
theorem fatal_of_atFatal {activity : Activity τ} (fatal : atFatal activity = true) : activity.Fatal := by
  unfold atFatal at fatal
  split at fatal
  · exact ⟨_, _, rfl⟩
  · cases fatal

theorem fatal_only_of_dependency_example : ∃ s : Service Nat,
    Runs.Reachable step Runs.Any Service.init s ∧
      ∃ tp callers, s.manager.activity 1 = .aborting tp (.firstUnlock .committed) callers ∧ tp ≠ 1 ∧
        (s.phase 1 = .storing ∨ (s.phase 1 = .hangingUp ∨ s.phase 1 = .aborting) ∧
          Relation.TransGen s.manager.Depends 1 tp) := by
  obtain ⟨s, -, reached, passed⟩ := @Runs.exists_reachable _ _ step Runs.Any Service.init
    hangsUpLast (fun _ _ => true) (fun _ _ _ => trivial) (by decide +kernel)
    (fun s => atFatal (s.manager.activity 1)) (by decide +kernel)
  exact ⟨s, reached, fatal_only_of_dependency reached (fatal_of_atFatal passed)⟩

end Audible.Threads
