import Audible.Holding
import Audible.ServerSettles

set_option autoImplicit false

/- The shutdown of the server by a SIGHUP that any thread may take. -/
namespace Audible.Threads

open Xacto (Pending)

variable {τ : Type} [DecidableEq τ] {s s' : Service τ} {c w : τ} {phase : Phase} {seats : List Int}

/-- The thread has unregistered its client. -/
def Phase.past : Phase → Bool
  | .aborting | .ended => true
  | _ => false

/-- What a thread does with the registry and its semaphore on the way to a phase. -/
inductive Uses (s s' : Service τ) (c : τ) (phase : Phase) : Prop
  | leaves (sem : s'.sem = s.sem) (registry : s'.registry = s.registry)
      (refused : s'.refused = s.refused) (inside : phase.inside = (s.phase c).inside)
      (holds : phase.holds = (s.phase c).holds)
  | takes (sem : s.sem = s'.sem + 1) (registry : s'.registry = s.registry)
      (refused : s'.refused = s.refused) (inside : phase.inside = (s.phase c).inside)
      (outside : (s.phase c).holds = false) (holds : phase.holds = true)
  | registers (sem : s'.sem = s.sem + 1)
      (registry : s'.registry = Registry.cregRegister s.registry (s.fd c))
      (refused : s'.refused = Function.update s.refused c (decide (-1 ∉ s.registry.clientList)))
      (registering : s.phase c = .registering) (receiving : phase = .receiving)
  | unregisters (sem : s'.sem = s.sem + 1)
      (registry : s'.registry = Registry.cregUnregister s.registry (s.fd c))
      (refused : s'.refused = s.refused) (unregistering : ∃ abort, s.phase c = .unregistering abort)
      (outside : phase.inside = false) (holds : phase.holds = false) (past : phase.past = true)

structure Turn.Frame (s s' : Service τ) (c : τ) (phase : Phase) : Prop where
  phases : s'.phase = Function.update s.phase c phase
  away : s.phase c = .away → phase = .away
  past : (s.phase c).past = true → phase.past = true
  fds : s'.fd = s.fd
  descriptors : s'.descriptors = s.descriptors
  closing : s'.closing = s.closing
  uses : Uses s s' c phase

theorem Turn.frame_replied {type : Byte} {status : Xacto.TransStatus}
    (inside : (s.phase c).inside = true) (outside : (s.phase c).holds = false) :
    ∃ phase, Turn.Frame s (replied c type status s) c phase := by
  refine ⟨_, rfl, ?_, ?_, rfl, rfl, rfl, .leaves rfl rfl rfl ?_ ?_⟩
  · intro away
    rw [away] at inside
    cases inside
  · intro past
    cases now : s.phase c <;> simp [now, Phase.inside, Phase.past] at inside past
  · rw [inside]
    split <;> rfl
  · rw [outside]
    split <;> rfl

theorem Turn.frame (turn : Turn s c s') : ∃ phase, Turn.Frame s s' c phase := by
  cases turn with
  | stores receiving | commits _ receiving _ | hangsUp _ receiving _ =>
      exact ⟨_, rfl, by simp [receiving], by simp [receiving, Phase.past], rfl, rfl, rfl,
        .leaves rfl rfl rfl (by rw [receiving]; rfl) (by rw [receiving]; rfl)⟩
  | ignores type receiving other => exact frame_replied (by rw [receiving]; rfl) (by rw [receiving]; rfl)
  | stored status storing idle => exact frame_replied (by rw [storing]; rfl) (by rw [storing]; rfl)
  | committed committing idle => exact frame_replied (by rw [committing]; rfl) (by rw [committing]; rfl)
  | depends | revokes | manages =>
      exact ⟨s.phase c, (Function.update_eq_self c s.phase).symm, id, id, rfl, rfl, rfl,
        .leaves rfl rfl rfl rfl rfl⟩
  | enters sem accepted free =>
      exact ⟨_, rfl, by simp [accepted], by simp [accepted, Phase.past], rfl, rfl, rfl,
        .takes free rfl rfl (by rw [accepted]; rfl) (by rw [accepted]; rfl) rfl⟩
  | registers registering =>
      exact ⟨_, rfl, by simp [registering], by simp [registering, Phase.past], rfl, rfl, rfl,
        .registers rfl rfl rfl registering rfl⟩
  | hungUp hangingUp idle =>
      exact ⟨_, rfl, by simp [hangingUp], by simp [hangingUp, Phase.past], rfl, rfl, rfl,
        .leaves rfl rfl rfl (by rw [hangingUp]; rfl) (by rw [hangingUp]; rfl)⟩
  | leaves abort sem leaving free =>
      exact ⟨_, rfl, by simp [leaving], by simp [leaving, Phase.past], rfl, rfl, rfl,
        .takes free rfl rfl (by rw [leaving]; rfl) (by rw [leaving]; rfl) rfl⟩
  | ends unregistering | aborts _ unregistering _ =>
      exact ⟨_, rfl, by simp [unregistering], by simp [unregistering, Phase.past], rfl, rfl, rfl,
        .unregisters rfl rfl rfl ⟨_, unregistering⟩ rfl rfl rfl⟩
  | aborted aborting idle =>
      exact ⟨_, rfl, by simp [aborting], by simp [aborting, Phase.past], rfl, rfl, rfl,
        .leaves rfl rfl rfl (by rw [aborting]; rfl) (by rw [aborting]; rfl)⟩

structure Service.Connected (s : Service τ) : Prop where
  known : ∀ c, s.phase c ≠ .away → s.fd c ∈ s.descriptors
  positive : ∀ fd ∈ s.descriptors, 0 ≤ fd
  distinct : ∀ c c', s.phase c ≠ .away → s.phase c' ≠ .away → s.fd c = s.fd c' → c = c'

theorem Turn.Frame.others (frame : Turn.Frame s s' c phase) {other : τ} (different : other ≠ c) :
    s'.phase other = s.phase other := by
  rw [frame.phases, Function.update_of_ne different]

theorem Turn.Frame.own (frame : Turn.Frame s s' c phase) : s'.phase c = phase := by
  rw [frame.phases, Function.update_self]

theorem Turn.Frame.present (frame : Turn.Frame s s' c phase) {other : τ}
    (present : s'.phase other ≠ .away) : s.phase other ≠ .away := by
  rw [frame.phases] at present
  by_cases own : other = c
  · rw [own, Function.update_self] at present
    rw [own]
    exact fun away => present (frame.away away)
  · rwa [Function.update_of_ne own] at present

theorem Turn.Frame.connected (frame : Turn.Frame s s' c phase) (connected : s.Connected) :
    s'.Connected := by
  constructor
  · intro other present
    rw [frame.fds, frame.descriptors]
    exact connected.known other (frame.present present)
  · rw [frame.descriptors]
    exact connected.positive
  · intro a b first second
    rw [frame.fds]
    exact connected.distinct a b (frame.present first) (frame.present second)

theorem connected_accept {fd : Int} (connected : s.Connected) (positive : 0 ≤ fd)
    (fresh : fd ∉ s.descriptors) :
    ({ s with
      fd := Function.update s.fd c fd
      descriptors := fd :: s.descriptors }.goto c .accepted).Connected := by
  have others {other : τ} (different : other ≠ c)
      (present : Function.update s.phase c .accepted other ≠ .away) : s.fd other ∈ s.descriptors := by
    rw [Function.update_of_ne different] at present
    exact connected.known other present
  refine ⟨fun other present => ?_, fun other member => ?_, fun a b first second same => ?_⟩
  · by_cases own : other = c
    · rw [own]
      exact List.mem_cons.mpr (.inl (Function.update_self ..))
    · refine List.mem_cons_of_mem _ ?_
      show Function.update s.fd c fd other ∈ s.descriptors
      rw [Function.update_of_ne own]
      exact others own present
  · exact (List.mem_cons.mp member).elim (fun same => same ▸ positive) (connected.positive other)
  · have same : Function.update s.fd c fd a = Function.update s.fd c fd b := same
    by_cases left : a = c <;> by_cases right : b = c
    · rw [left, right]
    · rw [left, Function.update_self, Function.update_of_ne right] at same
      exact absurd (same ▸ others right second) fresh
    · rw [right, Function.update_self, Function.update_of_ne left] at same
      exact absurd (same ▸ others left first) fresh
    · rw [Function.update_of_ne left, Function.update_of_ne right] at same
      have first : Function.update s.phase c .accepted a ≠ .away := first
      have second : Function.update s.phase c .accepted b ≠ .away := second
      rw [Function.update_of_ne left] at first
      rw [Function.update_of_ne right] at second
      exact connected.distinct a b first second same

/-- The registry has a seat for every client in its session that it has not refused. -/
structure Service.Seated (s : Service τ) (seats : List Int) : Prop where
  inv : Registry.Inv ⟨s.registry, seats⟩
  owner : ∀ fd ∈ seats, ∃ c, s.fd c = fd ∧ (s.phase c).inside = true
  seated : ∀ c, (s.phase c).inside = true → s.refused c = false → s.fd c ∈ seats

theorem room_of_vacant {cr : Registry.ClientRegistry} (inv : Registry.Inv ⟨cr, seats⟩)
    (vacant : -1 ∈ cr.clientList) : seats.length < Registry.maxClients := by
  have table := inv.table.length_eq
  have slots := inv.slots
  dsimp only at table slots
  rw [← table, ← slots]
  exact List.length_filter_lt_length_iff_exists.mpr ⟨-1, vacant, by simp⟩

theorem ne_away_of_inside (inside : phase.inside = true) : phase ≠ .away := by
  rintro rfl
  cases inside

/-- A thread keeps out of the table of the registry. -/
theorem Service.Seated.frame (seated : s.Seated seats) (frame : Turn.Frame s s' c phase)
    (registry : s'.registry = s.registry) (refused : s'.refused = s.refused)
    (inside : phase.inside = (s.phase c).inside) : s'.Seated seats := by
  have same : ∀ other, (s'.phase other).inside = (s.phase other).inside := by
    intro other
    rw [frame.phases]
    by_cases own : other = c
    · rw [own, Function.update_self, inside]
    · rw [Function.update_of_ne own]
  refine ⟨registry ▸ seated.inv, fun fd member => ?_, fun other within => ?_⟩
  · obtain ⟨owner, owns, within⟩ := seated.owner fd member
    exact ⟨owner, by rw [frame.fds, owns], by rw [same, within]⟩
  · rw [same] at within
    rw [refused, frame.fds]
    exact seated.seated other within

/-- A seat is taken, or the client is refused. -/
theorem Service.Seated.registers (seated : s.Seated seats) (connected : s.Connected)
    (frame : Turn.Frame s s' c phase)
    (registry : s'.registry = Registry.cregRegister s.registry (s.fd c))
    (refused : s'.refused = Function.update s.refused c (decide (-1 ∉ s.registry.clientList)))
    (registering : s.phase c = .registering) (receiving : phase = .receiving) :
    ∃ seats', s'.Seated seats' := by
  have present : s.phase c ≠ .away := by simp [registering]
  have positive := connected.positive _ (connected.known c present)
  have owners : ∀ fd ∈ seats, ∃ owner, owner ≠ c ∧ s.fd owner = fd ∧
      (s.phase owner).inside = true := by
    intro fd member
    obtain ⟨owner, owns, within⟩ := seated.owner fd member
    refine ⟨owner, ?_, owns, within⟩
    rintro rfl
    rw [registering] at within
    cases within
  have fresh : s.fd c ∉ seats := by
    intro member
    obtain ⟨owner, other, owns, within⟩ := owners _ member
    exact other (connected.distinct owner c (ne_away_of_inside within) present owns)
  have kept : ∀ fd ∈ seats, ∃ owner, s'.fd owner = fd ∧ (s'.phase owner).inside = true := by
    intro fd member
    obtain ⟨owner, other, owns, within⟩ := owners fd member
    exact ⟨owner, by rw [frame.fds, owns], by rw [frame.others other, within]⟩
  have others : ∀ other ≠ c, (s'.phase other).inside = true → s'.refused other = false →
      s'.fd other ∈ seats := by
    intro other different within accepted
    rw [frame.others different] at within
    rw [refused, Function.update_of_ne different] at accepted
    rw [frame.fds]
    exact seated.seated other within accepted
  by_cases vacant : -1 ∈ s.registry.clientList
  · refine ⟨s.fd c :: seats, ?_, fun fd member => ?_, fun other within accepted => ?_⟩
    · rw [registry]
      exact seated.inv.register positive fresh (room_of_vacant seated.inv vacant)
    · rcases List.mem_cons.mp member with rfl | member
      · exact ⟨c, by rw [frame.fds], by rw [frame.own, receiving]; rfl⟩
      · exact kept fd member
    · by_cases own : other = c
      · rw [own, frame.fds]
        exact List.mem_cons_self
      · exact List.mem_cons_of_mem _ (others other own within accepted)
  · refine ⟨seats, ?_, kept, fun other within accepted => ?_⟩
    · have full : s'.registry = s.registry := by
        rw [registry, Registry.cregRegister, Registry.replaceFirst_none.mpr vacant]
      exact full ▸ seated.inv
    · by_cases own : other = c
      · rw [refused, own, Function.update_self, decide_eq_true vacant] at accepted
        cases accepted
      · exact others other own within accepted

theorem Service.Seated.unregisters (seated : s.Seated seats) (connected : s.Connected)
    (frame : Turn.Frame s s' c phase)
    (registry : s'.registry = Registry.cregUnregister s.registry (s.fd c))
    (refused : s'.refused = s.refused) (inside : (s.phase c).inside = true)
    (outside : phase.inside = false) : s'.Seated (seats.erase (s.fd c)) := by
  have present := ne_away_of_inside inside
  refine ⟨?_, fun fd member => ?_, fun other within accepted => ?_⟩
  · rw [registry]
    exact seated.inv.unregister (connected.positive _ (connected.known c present))
  · obtain ⟨different, member⟩ := seated.inv.once.mem_erase_iff.mp member
    obtain ⟨owner, owns, within⟩ := seated.owner fd member
    have other : owner ≠ c := by
      rintro rfl
      exact different owns.symm
    exact ⟨owner, by rw [frame.fds, owns], by rw [frame.others other, within]⟩
  · have different : other ≠ c := by
      rintro rfl
      rw [frame.own, outside] at within
      cases within
    rw [frame.others different] at within
    rw [refused] at accepted
    rw [frame.fds]
    refine (List.mem_erase_of_ne fun same => different ?_).mpr (seated.seated other within accepted)
    exact connected.distinct other c (ne_away_of_inside within) present same

/-- A thread, or `terminate`, has taken the semaphore. -/
def Service.Holds (s : Service τ) : Option τ → Prop
  | some c => (s.phase c).holds = true
  | none => ∃ interrupted terminating, s.closing = some (interrupted, terminating) ∧
      terminating.holds = true

/-- The semaphore is 1, or it is 0 and has been taken once. -/
structure Service.Guarded (s : Service τ) : Prop where
  agrees : Holding.Agrees (fun _ : Unit => s.sem = 0) (fun holder _ => s.Holds holder)
  single : s.sem ≤ 1

section Semaphores

omit [DecidableEq τ]

theorem Service.Guarded.keeps (guarded : s.Guarded) (sem : s'.sem = s.sem)
    (holders : ∀ holder, s'.Holds holder ↔ s.Holds holder) : s'.Guarded :=
  ⟨guarded.agrees.congr (fun _ => by rw [sem]) (fun holder _ => holders holder), sem ▸ guarded.single⟩

theorem Service.Guarded.takes (guarded : s.Guarded) (holder : Option τ) (sem : s.sem = s'.sem + 1)
    (holders : ∀ other, s'.Holds other ↔ other = holder ∨ s.Holds other) : s'.Guarded := by
  have single := guarded.single
  refine ⟨guarded.agrees.acquire holder () (by omega) (fun _ => ?_) (fun other _ => ?_), by omega⟩
  · exact ⟨fun _ => .inl rfl, fun _ => by omega⟩
  · simpa using holders other

theorem Service.Guarded.gives (guarded : s.Guarded) {holder : Option τ} (held : s.Holds holder)
    (sem : s'.sem = s.sem + 1) (holders : ∀ other, s'.Holds other ↔ other ≠ holder ∧ s.Holds other) :
    s'.Guarded := by
  have taken : s.sem = 0 := (guarded.agrees.flagged ()).mpr ⟨holder, held⟩
  refine ⟨guarded.agrees.drop held (r := ()) (fun _ => ?_) (fun other _ => ?_), by omega⟩
  · exact iff_of_false (by omega) fun both => both.1 rfl
  · simpa using holders other

end Semaphores

theorem Turn.Frame.holds (frame : Turn.Frame s s' c phase) (holder : Option τ) :
    s'.Holds holder ↔ (holder = some c ∧ phase.holds = true) ∨ (holder ≠ some c ∧ s.Holds holder) := by
  cases holder with
  | none => simp [Service.Holds, frame.closing]
  | some other =>
      by_cases own : other = c
      · simp [Service.Holds, own, frame.own]
      · simp [Service.Holds, own, frame.others own]

theorem Turn.Frame.guarded (frame : Turn.Frame s s' c phase) (guarded : s.Guarded) : s'.Guarded := by
  have own : s.Holds (some c) ↔ (s.phase c).holds = true := Iff.rfl
  cases frame.uses with
  | leaves sem _ _ _ holds =>
      refine guarded.keeps sem fun holder => ?_
      rw [frame.holds]
      by_cases mine : holder = some c
      · simp [mine, holds, own]
      · simp [mine]
  | takes sem _ _ _ outside holds =>
      refine guarded.takes (some c) sem fun holder => ?_
      rw [frame.holds]
      by_cases mine : holder = some c <;> simp [mine, holds]
  | registers sem _ _ registering receiving =>
      have held : s.Holds (some c) := by
        rw [own, registering]
        rfl
      refine guarded.gives held sem fun holder => ?_
      rw [frame.holds, receiving]
      simp [Phase.holds]
  | unregisters sem _ _ unregistering _ holds _ =>
      obtain ⟨abort, unregistering⟩ := unregistering
      have held : s.Holds (some c) := by
        rw [own, unregistering]
        rfl
      refine guarded.gives held sem fun holder => ?_
      rw [frame.holds, holds]
      simp

structure Service.Kept (s : Service τ) : Prop where
  connected : s.Connected
  seated : ∃ seats, s.Seated seats
  guarded : s.Guarded

theorem Turn.kept (turn : Turn s c s') (kept : s.Kept) : s'.Kept := by
  obtain ⟨phase, frame⟩ := turn.frame
  obtain ⟨seats, seated⟩ := kept.seated
  refine ⟨frame.connected kept.connected, ?_, frame.guarded kept.guarded⟩
  cases frame.uses with
  | leaves _ registry refused inside _ | takes _ registry refused inside _ _ =>
      exact ⟨seats, seated.frame frame registry refused inside⟩
  | registers _ registry refused registering receiving =>
      exact seated.registers kept.connected frame registry refused registering receiving
  | unregisters _ registry refused unregistering outside _ _ =>
      obtain ⟨abort, unregistering⟩ := unregistering
      exact ⟨_, seated.unregisters kept.connected frame registry refused
        (by rw [unregistering]; rfl) outside⟩

omit [DecidableEq τ] in
theorem kept_init : (Service.init : Service τ).Kept := by
  have idle : ∀ holder, ¬ (Service.init : Service τ).Holds holder := by
    intro holder held
    cases holder with
    | none =>
        obtain ⟨_, _, closing, -⟩ := held
        cases closing
    | some c => cases held
  refine ⟨⟨fun c present => absurd rfl present, fun fd member => absurd member List.not_mem_nil,
    fun c _ present => absurd rfl present⟩,
    ⟨[], Registry.inv_start, fun fd member => ?_, fun c within => ?_⟩,
    ⟨⟨fun _ => ?_, fun holder _ _ held => absurd held (idle holder)⟩, le_refl 1⟩⟩
  · exact absurd member List.not_mem_nil
  · cases within
  · exact iff_of_false Nat.one_ne_zero (not_exists.2 idle)

theorem Service.Kept.accepts {fd : Int} (kept : s.Kept) (away : s.phase c = .away) (positive : 0 ≤ fd)
    (fresh : fd ∉ s.descriptors) :
    ({ s with
      fd := Function.update s.fd c fd
      descriptors := fd :: s.descriptors }.goto c .accepted).Kept := by
  obtain ⟨seats, inv, owner, seated⟩ := kept.seated
  have outside : ∀ other, (s.phase other).inside = true → other ≠ c := by
    rintro other within rfl
    rw [away] at within
    cases within
  refine ⟨connected_accept kept.connected positive fresh, ⟨seats, inv, fun fd member => ?_, ?_⟩,
    kept.guarded.keeps rfl fun holder => ?_⟩
  · obtain ⟨client, owns, within⟩ := owner fd member
    refine ⟨client, ?_, ?_⟩
    · exact (Function.update_of_ne (outside client within) _ _).trans owns
    · exact (congrArg Phase.inside (Function.update_of_ne (outside client within) _ _)).trans within
  · intro client within accepted
    have other : client ≠ c := by
      rintro rfl
      have within : (Function.update s.phase client .accepted client).inside = true := within
      rw [Function.update_self] at within
      cases within
    have within : (Function.update s.phase c .accepted client).inside = true := within
    rw [Function.update_of_ne other] at within
    show Function.update s.fd c _ client ∈ seats
    rw [Function.update_of_ne other]
    exact seated client within accepted
  · cases holder with
    | none => exact Iff.rfl
    | some client =>
        show (Function.update s.phase c .accepted client).holds = true ↔ _
        by_cases own : client = c
        · rw [own, Function.update_self]
          simp [Service.Holds, away, Phase.holds]
        · rw [Function.update_of_ne own]
          exact Iff.rfl

section Closing

omit [DecidableEq τ]

variable {interrupted : Option τ} {terminating : Terminating}

/-- The holders after a step of `terminate`. -/
theorem holds_closing (phases : s'.phase = s.phase)
    (closing : s'.closing = some (interrupted, terminating)) (holder : Option τ) :
    s'.Holds holder ↔
      (holder = none ∧ terminating.holds = true) ∨ (holder ≠ none ∧ s.Holds holder) := by
  cases holder with
  | none => simp [Service.Holds, closing]
  | some c => simp [Service.Holds, phases]

theorem holds_none (closing : s.closing = some (interrupted, terminating)) :
    s.Holds none ↔ terminating.holds = true := by
  simp [Service.Holds, closing]

/-- `terminate` leaves the table of the registry as it is. -/
theorem Service.Kept.closes (kept : s.Kept) (registry : s'.registry = s.registry)
    (phases : s'.phase = s.phase) (fds : s'.fd = s.fd) (refused : s'.refused = s.refused)
    (descriptors : s'.descriptors = s.descriptors) (guarded : s'.Guarded) : s'.Kept := by
  obtain ⟨seats, inv, owner, seated⟩ := kept.seated
  have connected := kept.connected
  refine ⟨⟨?_, ?_, ?_⟩, ⟨seats, registry ▸ inv, ?_, ?_⟩, guarded⟩
  · rw [phases, fds, descriptors]
    exact connected.known
  · rw [descriptors]
    exact connected.positive
  · rw [phases, fds]
    exact connected.distinct
  · rw [fds, phases]
    exact owner
  · rw [fds, phases, refused]
    exact seated

/-- `terminate` gives the semaphore back. -/
theorem Service.Guarded.closes (guarded : s.Guarded) {before : Terminating}
    (closing : s.closing = some (interrupted, before)) (held : before.holds = true)
    (sem : s'.sem = s.sem + 1) (phases : s'.phase = s.phase)
    (closed : s'.closing = some (interrupted, terminating)) (free : terminating.holds = false) :
    s'.Guarded := by
  refine guarded.gives ((holds_none closing).mpr held) sem fun holder => ?_
  rw [holds_closing phases closed]
  simp [free]

end Closing

theorem kept_of_reachable (reached : Runs.Reachable step Runs.Any Service.init s) : s.Kept := by
  refine reached.invariant Service.Kept kept_init ?_
  intro s action s' kept _ ran
  cases step_steps ran with
  | client c _ _ turn => exact turn.kept kept
  | accept c fd away positive fresh => exact kept.accepts away positive fresh
  | signal interrupted first =>
      refine kept.closes rfl rfl rfl rfl rfl (kept.guarded.keeps rfl fun holder => ?_)
      refine (@holds_closing τ s (s.closeAt interrupted .shutdown) _ _ rfl rfl holder).trans ?_
      cases holder with
      | none => simp [Service.Holds, first, Terminating.holds]
      | some c => simp
  | takes interrupted before after sem closing free next =>
      refine kept.closes rfl rfl rfl rfl rfl (kept.guarded.takes none free fun holder => ?_)
      have holds : after.holds = true := by
        rcases next with ⟨-, rfl⟩ | ⟨-, rfl⟩ <;> rfl
      refine (@holds_closing τ s ({ s with sem }.closeAt interrupted after) _ _ rfl rfl holder).trans ?_
      rw [holds]
      cases holder <;> simp
  | shuts interrupted closing =>
      exact kept.closes rfl rfl rfl rfl rfl (kept.guarded.closes closing rfl rfl rfl rfl rfl)
  | counts interrupted closing clients =>
      exact kept.closes rfl rfl rfl rfl rfl (kept.guarded.closes closing rfl rfl rfl rfl rfl)
  | finishes interrupted closing empty =>
      exact kept.closes rfl rfl rfl rfl rfl (kept.guarded.closes closing rfl rfl rfl rfl rfl)

/-- While `creg_wait_for_empty` finds no client, every client in its session has been refused. -/
theorem refused_of_empty (reached : Runs.Reachable step Runs.Any Service.init s)
    (empty : Registry.cregWaitForEmpty s.registry = true) (inside : (s.phase c).inside = true) :
    s.refused c = true := by
  obtain ⟨seats, seated⟩ := (kept_of_reachable reached).seated
  have none := seated.inv.tracks.waits.mp empty
  by_contra accepted
  have member := seated.seated c inside (Bool.eq_false_iff.mpr accepted)
  dsimp only at none
  rw [none] at member
  cases member

/-- The only step to the end of `terminate`. -/
theorem finish_of_step {action : Action τ} {interrupted : Option τ} (ran : step s action = some s')
    (running : s.closing ≠ some (interrupted, .finished))
    (finished : s'.closing = some (interrupted, .finished)) :
    s.closing = some (interrupted, .counting) ∧
      Registry.cregWaitForEmpty s.registry = true ∧
        s' = s.give.closeAt interrupted .finished := by
  cases step_steps ran with
  | client c _ _ turn =>
      obtain ⟨phase, frame⟩ := turn.frame
      exact absurd (frame.closing.symm.trans finished) running
  | accept => exact absurd finished running
  | finishes _ closing empty =>
      cases finished
      exact ⟨closing, empty, rfl⟩
  | takes _ _ after _ _ _ next =>
      have here : after = .finished := congrArg Prod.snd (Option.some.inj finished)
      rcases next with ⟨-, rfl⟩ | ⟨-, rfl⟩ <;> cases here
  | signal | shuts | counts => cases finished

/-- Where `terminate` comes to `trans_fini`, no client has a seat in the registry any more, and a
transaction that is pending is that of a client that the registry has refused, or of one whose thread
has unregistered it and still aborts it. -/
theorem pending_at_finish {action : Action τ} {interrupted : Option τ}
    (reached : Runs.Reachable step Runs.Any Service.init s)
    (running : s.closing ≠ some (interrupted, .finished)) (ran : step s action = some s')
    (finished : s'.closing = some (interrupted, .finished)) :
    (∀ c, (s'.phase c).inside = true → s'.refused c = true) ∧
      ∀ c, (s'.phase c).created = true → (s'.manager.trans c).status = .pending →
        s'.refused c = true ∨ s'.phase c = .aborting := by
  obtain ⟨-, empty, rfl⟩ := finish_of_step ran running finished
  have refused : ∀ c, (s.phase c).inside = true → s.refused c = true :=
    fun c inside => refused_of_empty reached empty inside
  refine ⟨refused, fun c created pending => ?_⟩
  have created : (s.phase c).created = true := created
  have fits := (settled_of_reachable reached).fits c
  show s.refused c = true ∨ s.phase c = .aborting
  cases now : s.phase c with
  | away | accepted | registering =>
      rw [now] at created
      cases created
  | aborting => exact .inr rfl
  | ended =>
      rw [now] at fits
      exact absurd pending fits.2
  | receiving | storing | committing | hangingUp | leaving | unregistering =>
      exact .inl (refused c (by rw [now]; rfl))

/-- The store has refused a request of client 0, and SIGHUP comes before its thread has aborted. -/
def stopsWhileAborting : List (Action Nat) :=
  connects 0 4 ++ [.packet 0 Protocol.putPkt, .stored 0 .aborted, .go 0, .go 0, .signal none] ++
    List.replicate 3 .terminate

theorem pending_at_finish_example : ∃ s : Service Nat, (s.manager.trans 0).status = .pending ∧
    (∀ c, (s.phase c).inside = true → s.refused c = true) ∧
      ∀ c, (s.phase c).created = true → (s.manager.trans c).status = .pending →
        s.refused c = true ∨ s.phase c = .aborting := by
  obtain ⟨s, -, reached, passed⟩ := @Runs.exists_reachable _ _ step Runs.Any Service.init
    stopsWhileAborting (fun _ _ => true) (fun _ _ _ => trivial) (by decide +kernel)
    (fun s => s.closing ≠ some (none, .finished) && (step s .terminate).any fun s' =>
      s'.closing = some (none, .finished) && (s'.manager.trans 0).status = .pending)
    (by decide +kernel)
  simp only [Bool.and_eq_true, decide_eq_true_eq, Option.any_eq_true] at passed
  obtain ⟨running, s', ran, finished, pending⟩ := passed
  exact ⟨s', pending, pending_at_finish reached running ran finished⟩

/-- The client has a seat, or its session is over. -/
def Service.Served (s : Service τ) (c : τ) : Prop :=
  (s.phase c).inside = true ∧ s.refused c = false ∨ (s.phase c).past = true

theorem Turn.past {other : τ} (turn : Turn s other s') (past : (s.phase c).past = true) :
    (s'.phase c).past = true := by
  obtain ⟨phase, frame⟩ := turn.frame
  by_cases own : c = other
  · subst own
    rw [frame.own, frame.past past]
  · rw [frame.others own, past]

theorem Turn.served {other : τ} (turn : Turn s other s') (served : s.Served c) : s'.Served c := by
  rcases served with ⟨inside, accepted⟩ | past
  · obtain ⟨phase, frame⟩ := turn.frame
    by_cases own : c = other
    · subst own
      cases frame.uses with
      | leaves _ _ refused same _ | takes _ _ refused same _ _ =>
          exact .inl ⟨by rw [frame.own, same, inside], by rw [refused, accepted]⟩
      | registers _ _ _ registering _ =>
          rw [registering] at inside
          cases inside
      | unregisters _ _ _ _ _ _ past => exact .inr (by rw [frame.own, past])
    · have refused : s'.refused c = s.refused c := by
        cases frame.uses with
        | registers _ _ refused _ _ => rw [refused, Function.update_of_ne own]
        | leaves _ _ refused | takes _ _ refused | unregisters _ _ refused => rw [refused]
      exact .inl ⟨by rw [frame.others own, inside], by rw [refused, accepted]⟩
  · exact .inr (turn.past past)

theorem phase_accept {other : τ} (away : s.phase other = .away) (known : s.phase c ≠ .away) :
    Function.update s.phase other .accepted c = s.phase c := by
  refine Function.update_of_ne ?_ _ _
  rintro rfl
  exact known away

theorem step_past {action : Action τ} (past : (s.phase c).past = true)
    (ran : step s action = some s') : (s'.phase c).past = true := by
  cases step_steps ran with
  | client other _ _ turn => exact turn.past past
  | accept other fd away _ _ =>
      have known : s.phase c ≠ .away := fun none => by simp [none, Phase.past] at past
      exact (congrArg Phase.past (phase_accept away known)).trans past
  | signal | takes | shuts | counts | finishes => exact past

theorem step_served {action : Action τ} (served : s.Served c) (ran : step s action = some s') :
    s'.Served c := by
  rcases served with ⟨inside, accepted⟩ | past
  · cases step_steps ran with
    | client other _ _ turn => exact turn.served (.inl ⟨inside, accepted⟩)
    | accept other fd away _ _ =>
        have same := phase_accept away (ne_away_of_inside inside)
        exact .inl ⟨(congrArg Phase.inside same).trans inside, accepted⟩
    | signal | takes | shuts | counts | finishes => exact .inl ⟨inside, accepted⟩
  · exact .inr (step_past past ran)

/-- Past `creg_shutdown_all`. -/
def Terminating.late : Terminating → Bool
  | .shutdown | .shuttingDown => false
  | _ => true

/-- `terminate` goes on in the thread that the signal has interrupted. -/
theorem step_closing {action : Action τ} {interrupted : Option τ} {terminating : Terminating}
    (closing : s.closing = some (interrupted, terminating)) (ran : step s action = some s') :
    ∃ terminating', s'.closing = some (interrupted, terminating') ∧
      (terminating.late = true → terminating'.late = true ∧ s'.shut = s.shut) := by
  cases step_steps ran with
  | client c _ _ turn =>
      obtain ⟨phase, frame⟩ := turn.frame
      refine ⟨terminating, frame.closing.trans closing, fun late => ⟨late, ?_⟩⟩
      cases turn <;> rfl
  | accept => exact ⟨terminating, closing, fun late => ⟨late, rfl⟩⟩
  | signal _ first =>
      rw [first] at closing
      cases closing
  | takes _ before after _ here _ next =>
      cases here.symm.trans closing
      refine ⟨after, rfl, fun late => ?_⟩
      rcases next with ⟨rfl, rfl⟩ | ⟨rfl, rfl⟩
      · cases late
      · exact ⟨rfl, rfl⟩
  | shuts _ here =>
      cases here.symm.trans closing
      exact ⟨.waiting, rfl, fun late => by cases late⟩
  | counts _ here | finishes _ here =>
      cases here.symm.trans closing
      exact ⟨_, rfl, fun _ => ⟨rfl, rfl⟩⟩

/-- What holds of a client that `creg_shutdown_all` has found. -/
structure Service.Ending (s : Service τ) (c : τ) (interrupted : Option τ) (shut : List Int) : Prop where
  closing : ∃ terminating, s.closing = some (interrupted, terminating) ∧ terminating.late = true
  shut : s.shut = shut
  served : s.Served c
  past : s.closing = some (interrupted, .finished) → (s.phase c).past = true

theorem step_ending {action : Action τ} {interrupted : Option τ} {shut : List Int}
    (reached : Runs.Reachable step Runs.Any Service.init s)
    (ending : s.Ending c interrupted shut) (ran : step s action = some s') :
    s'.Ending c interrupted shut := by
  obtain ⟨terminating, closing, late⟩ := ending.closing
  obtain ⟨terminating', closing', kept⟩ := step_closing closing ran
  obtain ⟨late', same⟩ := kept late
  refine ⟨⟨terminating', closing', late'⟩, same.trans ending.shut, step_served ending.served ran,
    fun finished => ?_⟩
  by_cases before : s.closing = some (interrupted, .finished)
  · exact step_past (ending.past before) ran
  · obtain ⟨-, empty, rfl⟩ := finish_of_step ran before finished
    rcases ending.served with ⟨inside, accepted⟩ | past
    · rw [refused_of_empty reached empty inside] at accepted
      cases accepted
    · exact past

/-- A client that has a seat when `creg_shutdown_all` runs is shut down, and its session is over
where `terminate` comes to `trans_fini`. -/
theorem shutdown_ends_sessions {action : Action τ} {interrupted : Option τ} {s₀ : Service τ}
    (reached : Runs.Reachable step Runs.Any Service.init s₀)
    (shutting : s₀.closing = some (interrupted, .shuttingDown)) (ran : step s₀ action = some s)
    (shut : s.closing = some (interrupted, .waiting)) (later : Runs.Reachable step Runs.Any s s')
    (finished : s'.closing = some (interrupted, .finished)) (inside : (s₀.phase c).inside = true)
    (accepted : s₀.refused c = false) : s₀.fd c ∈ s'.shut ∧ (s'.phase c).past = true := by
  have all : s.shut = Registry.cregShutdownAll s₀.registry := by
    cases step_steps ran with
    | client other _ _ turn =>
        obtain ⟨phase, frame⟩ := turn.frame
        cases (frame.closing.trans shutting).symm.trans shut
    | accept => cases shutting.symm.trans shut
    | signal | finishes => cases shut
    | takes _ _ after _ _ _ next =>
        have here : after = .waiting := congrArg Prod.snd (Option.some.inj shut)
        rcases next with ⟨-, rfl⟩ | ⟨-, rfl⟩ <;> cases here
    | shuts => rfl
    | counts _ here => cases here.symm.trans shutting
  have found : s₀.fd c ∈ s.shut := by
    obtain ⟨seats, seated⟩ := (kept_of_reachable reached).seated
    rw [all]
    exact seated.inv.tracks.reaches.mem_iff.mpr (seated.seated c inside accepted)
  have start : s.Ending c interrupted s.shut := by
    refine ⟨⟨.waiting, shut, rfl⟩, rfl, step_served (.inl ⟨inside, accepted⟩) ran, fun last => ?_⟩
    cases shut.symm.trans last
  have kept : Runs.Reachable step Runs.Any Service.init s' ∧ s'.Ending c interrupted s.shut := by
    refine later.invariant
      (fun s' => Runs.Reachable step Runs.Any Service.init s' ∧ s'.Ending c interrupted s.shut)
      ⟨reached.tail action trivial ran, start⟩ ?_
    intro t action' t' holds _ ran'
    exact ⟨holds.1.tail action' trivial ran', step_ending holds.1 holds.2 ran'⟩
  exact ⟨kept.2.shut ▸ found, kept.2.past finished⟩

/-- SIGHUP comes while client 0 is connected. -/
def stopsWhileConnected : List (Action Nat) := connects 0 4 ++ [.signal none, .terminate]

def hangsUpAlone : List (Action Nat) :=
  .hangUp 0 :: List.replicate 13 (.go 0) ++ [.terminate, .terminate]

theorem shutdown_ends_sessions_example : ∃ s s' : Service Nat, (s.phase 0).inside = true ∧
    s'.closing = some (none, .finished) ∧ s.fd 0 ∈ s'.shut ∧ (s'.phase 0).past = true := by
  obtain ⟨s₀, -, reached, passed⟩ := @Runs.exists_reachable _ _ step Runs.Any Service.init
    stopsWhileConnected (fun _ _ => true) (fun _ _ _ => trivial) (by decide +kernel)
    (fun s₀ => s₀.closing = some (none, .shuttingDown) && ((s₀.phase 0).inside && !s₀.refused 0) &&
      (step s₀ .terminate).any fun s => s.closing = some (none, .waiting) &&
        (Runs.run step s hangsUpAlone).any fun s' => s'.closing = some (none, .finished))
    (by decide +kernel)
  simp only [Bool.and_eq_true, decide_eq_true_eq, Option.any_eq_true, Bool.not_eq_true'] at passed
  obtain ⟨⟨shutting, inside, accepted⟩, s, ran, shut, s', went, finished⟩ := passed
  have later := Runs.reachable_run hangsUpAlone .refl (Runs.follows_any hangsUpAlone) went
  exact ⟨s₀, s', inside, finished,
    shutdown_ends_sessions reached shutting ran shut later finished inside accepted⟩

/-- A seat that the client of `w` has, or the semaphore that its thread has taken, keeps `terminate`
waiting. -/
def Service.Blocks (s : Service τ) (w : τ) : Prop :=
  (s.phase w).inside = true ∧ s.refused w = false ∨ (s.phase w).holds = true

/-- The thread that the signal has interrupted does nothing. -/
theorem Turn.suspended {other : τ} {terminating : Terminating} (turn : Turn s other s')
    (goes : s.suspended (some other) = false) (closing : s.closing = some (some w, terminating)) :
    s'.phase w = s.phase w ∧ s'.refused w = s.refused w := by
  have different : w ≠ other := by
    rintro rfl
    simp [Service.suspended, closing] at goes
  obtain ⟨phase, frame⟩ := turn.frame
  refine ⟨frame.others different, ?_⟩
  cases frame.uses with
  | registers _ _ refused _ _ => rw [refused, Function.update_of_ne different]
  | leaves _ _ refused | takes _ _ refused | unregisters _ _ refused => rw [refused]

theorem step_blocks {action : Action τ} {terminating : Terminating} (blocks : s.Blocks w)
    (closing : s.closing = some (some w, terminating)) (ran : step s action = some s') :
    s'.Blocks w := by
  cases step_steps ran with
  | client other _ goes turn =>
      obtain ⟨phase, refused⟩ := turn.suspended goes closing
      unfold Service.Blocks
      rw [phase, refused]
      exact blocks
  | accept other fd away _ _ =>
      have known : s.phase w ≠ .away := fun none => by
        simp [Service.Blocks, none, Phase.inside, Phase.holds] at blocks
      have same : Function.update s.phase other .accepted w = s.phase w := phase_accept away known
      show (Function.update s.phase other .accepted w).inside = true ∧ s.refused w = false ∨
        (Function.update s.phase other .accepted w).holds = true
      rw [same]
      exact blocks
  | signal | takes | shuts | counts | finishes => exact blocks

/-- A SIGHUP that a thread takes while its client has a seat in the registry, or while it has taken
the semaphore of the registry, never brings the server down. -/
theorem terminate_waits_forever (reached : Runs.Reachable step Runs.Any Service.init s)
    {terminating : Terminating} (closing : s.closing = some (some w, terminating))
    (running : terminating ≠ .finished) (blocks : s.Blocks w)
    (later : Runs.Reachable step Runs.Any s s') :
    ∃ terminating', s'.closing = some (some w, terminating') ∧ terminating' ≠ .finished := by
  have kept : Runs.Reachable step Runs.Any Service.init s' ∧ s'.Blocks w ∧
      ∃ terminating', s'.closing = some (some w, terminating') ∧ terminating' ≠ .finished := by
    refine later.invariant (fun s' => Runs.Reachable step Runs.Any Service.init s' ∧ s'.Blocks w ∧
      ∃ terminating', s'.closing = some (some w, terminating') ∧ terminating' ≠ .finished)
      ⟨reached, blocks, terminating, closing, running⟩ ?_
    rintro t action t' ⟨reached, blocks, before, closing, running⟩ - ran
    obtain ⟨after, closing', -⟩ := step_closing closing ran
    refine ⟨reached.tail action trivial ran, step_blocks blocks closing ran, after, closing', ?_⟩
    rintro rfl
    have unfinished : t.closing ≠ some (some w, .finished) := by
      rw [closing]
      simpa using running
    obtain ⟨counting, empty, -⟩ := finish_of_step ran unfinished closing'
    rcases blocks with ⟨inside, accepted⟩ | holds
    · rw [refused_of_empty reached empty inside] at accepted
      cases accepted
    · -- `terminate` and the thread would both have the semaphore
      have first : t.Holds none := (holds_none counting).mpr rfl
      have second : t.Holds (some w) := holds
      cases (kept_of_reachable reached).guarded.agrees.unique none (some w) () first second
  exact kept.2.2

/-- The thread of a client that is connected takes SIGHUP. -/
theorem terminate_waits_forever_example : ∃ s : Service Nat,
    Runs.Reachable step Runs.Any Service.init s ∧ s.closing = some (some 0, .shutdown) ∧
      ∀ s', Runs.Reachable step Runs.Any s s' →
        ∃ terminating', s'.closing = some (some 0, terminating') ∧ terminating' ≠ .finished := by
  obtain ⟨s, -, reached, passed⟩ := @Runs.exists_reachable _ _ step Runs.Any Service.init
    (connects 0 4 ++ [.signal (some 0)]) (fun _ _ => true) (fun _ _ _ => trivial) (by decide +kernel)
    (fun s => s.closing = some (some 0, .shutdown) && ((s.phase 0).inside && !s.refused 0))
    (by decide +kernel)
  simp only [Bool.and_eq_true, decide_eq_true_eq, Bool.not_eq_true'] at passed
  obtain ⟨closing, inside, accepted⟩ := passed
  exact ⟨s, reached, closing, fun _ later =>
    terminate_waits_forever reached closing (by decide) (.inl ⟨inside, accepted⟩) later⟩

end Audible.Threads
