import Audible.Runs
import Mathlib.Data.List.Perm.Basic
import Mathlib.Data.List.Range
import Mathlib.Data.Int.Basic

set_option autoImplicit false

/- The registry of connected clients, `client_registry.c`. Each function holds the semaphore
while it uses the registry. -/
namespace Audible.Registry

/-- `MAX_CLIENTS` -/
def maxClients : Nat := 1024

/-- `CLIENT_REGISTRY`; a slot of the list is a descriptor, or -1. -/
structure ClientRegistry where
  clients : Int
  clientList : List Int

def cregInit : ClientRegistry where
  clients := 0
  clientList := List.replicate maxClients (-1)

/-- The loop of `creg_register` and of `creg_unregister`: the first slot that holds a value gets
another one. -/
def replaceFirst (old new : Int) : List Int → Option (List Int)
  | [] => none
  | slot :: slots =>
      if slot = old then some (new :: slots) else (replaceFirst old new slots).map (slot :: ·)

def cregRegister (cr : ClientRegistry) (fd : Int) : ClientRegistry :=
  match replaceFirst (-1) fd cr.clientList with
  | some clientList => { clients := cr.clients + 1, clientList := clientList }
  | none => cr

def cregUnregister (cr : ClientRegistry) (fd : Int) : ClientRegistry :=
  match replaceFirst fd (-1) cr.clientList with
  | some clientList => { clients := cr.clients - 1, clientList := clientList }
  | none => cr

/-- A round of the loop of `creg_wait_for_empty`: whether it is the last. -/
def cregWaitForEmpty (cr : ClientRegistry) : Bool := !decide (0 < cr.clients)

/-- The descriptors that `creg_shutdown_all` shuts down. -/
def cregShutdownAll (cr : ClientRegistry) : List Int := cr.clientList.filter (-1 < ·)

section Slots

variable {old new fd : Int} {slots slots' : List Int}

theorem replaceFirst_some (replaced : replaceFirst old new slots = some slots') :
    ∃ before after, slots = before ++ old :: after ∧ slots' = before ++ new :: after := by
  induction slots generalizing slots' with
  | nil => cases replaced
  | cons slot slots ih =>
      unfold replaceFirst at replaced
      split at replaced
      · rename_i here
        obtain rfl := Option.some.inj replaced
        exact ⟨[], slots, by rw [here]; rfl, rfl⟩
      · obtain ⟨rest, found, whole⟩ := Option.map_eq_some_iff.mp replaced
        obtain ⟨before, after, same, changed⟩ := ih found
        refine ⟨slot :: before, after, ?_, ?_⟩
        · rw [same]
          rfl
        · rw [← whole, changed]
          rfl

theorem replaceFirst_none : replaceFirst old new slots = none ↔ old ∉ slots := by
  induction slots with
  | nil => simp [replaceFirst]
  | cons slot slots ih =>
      unfold replaceFirst
      split
      · rename_i here
        simp [here]
      · rename_i other
        rw [Option.map_eq_none_iff, ih, List.mem_cons]
        exact ⟨fun off mem => mem.elim (fun same => other same.symm) off, fun off mem => off (.inr mem)⟩

theorem length_replaceFirst (replaced : replaceFirst old new slots = some slots') :
    slots'.length = slots.length := by
  obtain ⟨before, after, rfl, rfl⟩ := replaceFirst_some replaced
  simp

end Slots

/-- The registry, and the descriptors that are registered and not yet unregistered. -/
structure State where
  registry : ClientRegistry
  connected : List Int

inductive Action
  | register (fd : Int)
  | unregister (fd : Int)

def start : State where
  registry := cregInit
  connected := []

def step (state : State) : Action → Option State
  | .register fd =>
      some { registry := cregRegister state.registry fd, connected := fd :: state.connected }
  | .unregister fd =>
      some { registry := cregUnregister state.registry fd, connected := state.connected.erase fd }

/-- Descriptors are not negative, and none is registered again before it is unregistered. -/
def Legal (state : State) : Action → Prop
  | .register fd => 0 ≤ fd ∧ fd ∉ state.connected
  | .unregister fd => 0 ≤ fd

instance (state : State) : (action : Action) → Decidable (Legal state action)
  | .register fd => inferInstanceAs (Decidable (0 ≤ fd ∧ fd ∉ state.connected))
  | .unregister fd => inferInstanceAs (Decidable (0 ≤ fd))

/-- A descriptor is registered only while there are fewer than `MAX_CLIENTS`. -/
def Allowed (state : State) : Action → Prop
  | .register fd => Legal state (.register fd) ∧ state.connected.length < maxClients
  | .unregister fd => Legal state (.unregister fd)

instance (state : State) : (action : Action) → Decidable (Allowed state action)
  | .register fd =>
      inferInstanceAs (Decidable (Legal state (.register fd) ∧ state.connected.length < maxClients))
  | .unregister fd => inferInstanceAs (Decidable (Legal state (.unregister fd)))

/-- The registry says what is true of the clients. -/
structure Tracks (state : State) : Prop where
  once : state.connected.Nodup
  table : (state.registry.clientList.filter (· ≠ -1)).Perm state.connected
  counter : state.registry.clients = state.connected.length
  waits : cregWaitForEmpty state.registry = true ↔ state.connected = []
  reaches : (cregShutdownAll state.registry).Perm state.connected

structure Inv (state : State) : Prop where
  slots : state.registry.clientList.length = maxClients
  once : state.connected.Nodup
  descriptors : ∀ fd ∈ state.connected, 0 ≤ fd
  table : (state.registry.clientList.filter (· ≠ -1)).Perm state.connected
  counter : state.registry.clients = state.connected.length

variable {state next : State} {action : Action} {fd : Int}

theorem filter_taken (before after : List Int) (nonnegative : 0 ≤ fd) :
    (before ++ fd :: after).filter (· ≠ -1) =
      before.filter (· ≠ -1) ++ fd :: after.filter (· ≠ -1) := by
  have taken : fd ≠ -1 := by omega
  simp [taken]

theorem filter_vacant (before after : List Int) :
    (before ++ -1 :: after).filter (· ≠ -1) = before.filter (· ≠ -1) ++ after.filter (· ≠ -1) := by
  simp

/-- While fewer than all slots are used one is vacant. -/
theorem Inv.vacant (inv : Inv state) (room : state.connected.length < maxClients) :
    -1 ∈ state.registry.clientList := by
  by_contra full
  have used : state.registry.clientList.filter (· ≠ -1) = state.registry.clientList := by
    rw [List.filter_eq_self]
    intro slot member
    simp only [ne_eq, decide_eq_true_eq]
    rintro rfl
    exact full member
  have same := inv.table.length_eq
  rw [used, inv.slots] at same
  omega

theorem Inv.register (inv : Inv state) (nonnegative : 0 ≤ fd) (fresh : fd ∉ state.connected)
    (room : state.connected.length < maxClients) :
    Inv ⟨cregRegister state.registry fd, fd :: state.connected⟩ := by
  have vacant := inv.vacant room
  unfold cregRegister
  split
  · rename_i clientList replaced
    have length := length_replaceFirst replaced
    obtain ⟨before, after, was, is⟩ := replaceFirst_some replaced
    have table := inv.table
    rw [was, filter_vacant] at table
    constructor
    · exact length.trans inv.slots
    · exact List.nodup_cons.mpr ⟨fresh, inv.once⟩
    · exact fun other member =>
        (List.mem_cons.mp member).elim (fun same => same ▸ nonnegative) (inv.descriptors other)
    · rw [is, filter_taken before after nonnegative]
      exact List.perm_middle.trans (table.cons fd)
    · simp only [inv.counter, List.length_cons]
      omega
  · rename_i none
    exact absurd vacant (replaceFirst_none.mp none)

theorem Inv.mem_iff (inv : Inv state) (nonnegative : 0 ≤ fd) :
    fd ∈ state.registry.clientList ↔ fd ∈ state.connected := by
  rw [← inv.table.mem_iff, List.mem_filter]
  have taken : fd ≠ -1 := by omega
  simp [taken]

theorem Inv.unregister (inv : Inv state) (nonnegative : 0 ≤ fd) :
    Inv ⟨cregUnregister state.registry fd, state.connected.erase fd⟩ := by
  unfold cregUnregister
  split
  · rename_i clientList replaced
    have length := length_replaceFirst replaced
    obtain ⟨before, after, was, is⟩ := replaceFirst_some replaced
    have listed : fd ∈ state.connected := by
      rw [← inv.mem_iff nonnegative, was]
      simp
    have table := inv.table
    rw [was, filter_taken before after nonnegative] at table
    constructor
    · exact length.trans inv.slots
    · exact inv.once.erase fd
    · exact fun other member => inv.descriptors other (List.mem_of_mem_erase member)
    · rw [is, filter_vacant]
      have rest := (List.perm_middle.symm.trans table).erase fd
      rw [List.erase_cons_head] at rest
      exact rest
    · have some_ : 0 < state.connected.length := List.length_pos_of_mem listed
      simp only [inv.counter, List.length_erase_of_mem listed]
      omega
  · rename_i none
    have off : fd ∉ state.connected := by
      rw [← inv.mem_iff nonnegative]
      exact replaceFirst_none.mp none
    rw [List.erase_of_not_mem off]
    exact inv

theorem inv_start : Inv start := by
  constructor
  · exact List.length_replicate
  · exact List.nodup_nil
  · exact fun fd member => absurd member List.not_mem_nil
  · have vacant : start.registry.clientList.filter (· ≠ -1) = [] := by
      rw [List.filter_eq_nil_iff]
      intro slot member
      simp [List.eq_of_mem_replicate member]
    rw [vacant]
    exact .nil
  · rfl

theorem Inv.step (inv : Inv state) (allowed : Allowed state action)
    (taken : step state action = some next) : Inv next := by
  cases action with
  | register fd =>
      obtain rfl := Option.some.inj taken
      exact inv.register allowed.1.1 allowed.1.2 allowed.2
  | unregister fd =>
      obtain rfl := Option.some.inj taken
      exact inv.unregister allowed

/-- Every slot that is not -1 holds a descriptor. -/
theorem Inv.shutdown (inv : Inv state) :
    cregShutdownAll state.registry = state.registry.clientList.filter (· ≠ -1) := by
  apply List.filter_congr
  intro slot member
  by_cases vacant : slot = -1
  · simp [vacant]
  · have used : slot ∈ state.registry.clientList.filter (· ≠ -1) := by
      simp [List.mem_filter, member, vacant]
    have descriptor := inv.descriptors slot (inv.table.mem_iff.mp used)
    simp only [ne_eq, vacant, not_false_eq_true, decide_true, decide_eq_true_eq]
    omega

theorem Inv.tracks (inv : Inv state) : Tracks state where
  once := inv.once
  table := inv.table
  counter := inv.counter
  waits := by
    rw [cregWaitForEmpty, inv.counter, ← List.length_eq_zero_iff]
    simp only [Bool.not_eq_true', decide_eq_false_iff_not]
    omega
  reaches := by
    rw [inv.shutdown]
    exact inv.table

theorem length_cregRegister (cr : ClientRegistry) (fd : Int) :
    (cregRegister cr fd).clientList.length = cr.clientList.length := by
  unfold cregRegister
  split
  · rename_i clientList replaced
    exact length_replaceFirst replaced
  · rfl

/-- The table has no room for more than `MAX_CLIENTS`. -/
theorem Tracks.room (tracks : Tracks state)
    (slots : state.registry.clientList.length = maxClients) :
    state.connected.length ≤ maxClients := by
  rw [← tracks.table.length_eq, ← slots]
  exact List.length_filter_le _ _

theorem tracks_of_follows {actions : List Action} (inv : Inv state)
    (follows : Runs.Follows step Allowed state actions) (n : Nat)
    (taken : Runs.run step state (actions.take n) = some next) : Tracks next := by
  induction actions generalizing state n with
  | nil =>
      rw [List.take_nil] at taken
      obtain rfl := Option.some.inj taken
      exact inv.tracks
  | cons action actions ih =>
      cases n with
      | zero =>
          obtain rfl := Option.some.inj taken
          exact inv.tracks
      | succ n =>
          obtain ⟨state', first, rest⟩ := Option.bind_eq_some_iff.mp taken
          exact ih (inv.step follows.1 first) (follows.2 state' first) n rest

/-- A descriptor that is registered when all slots are used is dropped. -/
theorem allowed_of_tracks (inv : Inv state) (legal : Legal state action)
    (tracks : ∀ next, step state action = some next → Tracks next) : Allowed state action := by
  cases action with
  | register fd =>
      have slots := (length_cregRegister state.registry fd).trans inv.slots
      exact ⟨legal, (tracks _ rfl).room slots⟩
  | unregister fd => exact legal

theorem follows_of_tracks {actions : List Action} (inv : Inv state)
    (legal : Runs.Follows step Legal state actions)
    (tracks : ∀ n next, Runs.run step state (actions.take n) = some next → Tracks next) :
    Runs.Follows step Allowed state actions := by
  induction actions generalizing state with
  | nil => trivial
  | cons action actions ih =>
      have allowed : Allowed state action := by
        refine allowed_of_tracks inv legal.1 fun next taken => tracks 1 next ?_
        simp [Runs.run, taken]
      refine ⟨allowed, fun next taken => ?_⟩
      refine ih (inv.step allowed taken) (legal.2 next taken) fun n last later => tracks (n + 1) last ?_
      simpa [Runs.run, taken] using later

/-- The registry tracks all clients throughout a run exactly when there are never more than
`MAX_CLIENTS` of them. -/
theorem tracks_iff (actions : List Action) (legal : Runs.Follows step Legal start actions) :
    (∀ n state, Runs.run step start (actions.take n) = some state → Tracks state) ↔
      Runs.Follows step Allowed start actions :=
  ⟨follows_of_tracks inv_start legal, fun follows n _ taken => tracks_of_follows inv_start follows n taken⟩

theorem tracks_two :
    Runs.Follows step Allowed start [.register 5, .register 7, .unregister 5] ∧
      ∀ n state, Runs.run step start ([.register 5, .register 7, .unregister 5].take n) = some state →
        Tracks state := by
  have allowed : Runs.Follows step Allowed start [.register 5, .register 7, .unregister 5] :=
    Runs.follows_of_check (fun _ _ => of_decide_eq_true) _ (by decide)
  have legal : Runs.Follows step Legal start [.register 5, .register 7, .unregister 5] :=
    Runs.follows_of_check (fun _ _ => of_decide_eq_true) _ (by decide)
  exact ⟨allowed, (tracks_iff _ legal).mpr allowed⟩

/-- Descriptors are registered one after the other, whether there is room or not. -/
theorem run_registers {fds : List Int} (nonnegative : ∀ fd ∈ fds, 0 ≤ fd) (once : fds.Nodup)
    (fresh : ∀ fd ∈ fds, fd ∉ state.connected) :
    Runs.Follows step Legal state (fds.map .register) ∧
      ∃ next, Runs.run step state (fds.map .register) = some next ∧
        next.connected.length = state.connected.length + fds.length ∧
        next.registry.clientList.length = state.registry.clientList.length := by
  induction fds generalizing state with
  | nil => exact ⟨trivial, state, rfl, rfl, rfl⟩
  | cons fd fds ih =>
      rw [List.forall_mem_cons] at nonnegative fresh
      rw [List.nodup_cons] at once
      have others : ∀ other ∈ fds, other ∉ fd :: state.connected := by
        intro other member
        rw [List.mem_cons, not_or]
        refine ⟨?_, fresh.2 other member⟩
        rintro rfl
        exact once.1 member
      obtain ⟨follows, next, runs, connected, slots⟩ :=
        @ih ⟨cregRegister state.registry fd, fd :: state.connected⟩ nonnegative.2 once.2 others
      refine ⟨⟨⟨nonnegative.1, fresh.1⟩, fun state' taken => ?_⟩, next, runs, ?_, ?_⟩
      · obtain rfl := Option.some.inj taken
        exact follows
      · rw [connected, List.length_cons, List.length_cons]
        omega
      · rw [slots, length_cregRegister]

/-- Of more clients than there are slots some are dropped. -/
theorem not_tracks_of_many {fds : List Int} (nonnegative : ∀ fd ∈ fds, 0 ≤ fd) (once : fds.Nodup)
    (many : maxClients < fds.length) :
    Runs.Follows step Legal start (fds.map .register) ∧
      ∃ state, Runs.run step start (fds.map .register) = some state ∧ ¬ Tracks state := by
  obtain ⟨follows, state, runs, connected, slots⟩ :=
    @run_registers start fds nonnegative once fun fd _ => List.not_mem_nil
  refine ⟨follows, state, runs, fun tracks => ?_⟩
  have room := tracks.room (slots.trans inv_start.slots)
  rw [connected] at room
  exact absurd (Nat.le_trans (Nat.le_add_left _ _) room) (Nat.not_le.mpr many)

/-- The descriptors of one client more than there are slots. -/
def crowd : List Int := (List.range (maxClients + 1)).map Int.ofNat

theorem not_tracks_crowd :
    Runs.Follows step Legal start (crowd.map .register) ∧
      ∃ state, Runs.run step start (crowd.map .register) = some state ∧ ¬ Tracks state := by
  refine not_tracks_of_many ?_ ?_ ?_
  · intro fd member
    obtain ⟨n, -, rfl⟩ := List.mem_map.mp member
    exact Int.natCast_nonneg n
  · refine List.Pairwise.map Int.ofNat (fun a b other same => ?_) List.nodup_range
    exact other (Int.ofNat.inj same)
  · rw [crowd, List.length_map, List.length_range]
    exact Nat.lt_succ_self _

end Audible.Registry
