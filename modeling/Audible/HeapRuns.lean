import Audible.HeapCalls
import Audible.Runs

set_option autoImplicit false

/- Runs of a program that uses the allocator. -/
namespace Audible.Sfmm

open Cells Returning

/-- What the program does: it calls the allocator, or writes a word of a payload. -/
inductive Call
  | malloc (size : Nat)
  | free (pp : Nat)
  | realloc (pp rsize : Nat)
  | assign (pp i word : Nat)

variable (util : Sfutil)

def Call.run : Call → HeapM (Option Nat)
  | .malloc size => sfMalloc util size
  | .free pp => do
      sfFree util pp
      return none
  | .realloc pp rsize => sfRealloc util pp rsize
  | .assign pp i word => do
      store (pp + i) word
      return none

def Call.argument : Call → Option Nat
  | .malloc _ => none
  | .free pp => some pp
  | .realloc pp _ => some pp
  | .assign pp _ _ => some pp

/-- The payloads the program has once a call returns. -/
def Call.pointers : Call → Option Nat → List Nat → List Nat
  | .malloc _, some p, pointers => p :: pointers
  | .free pp, _, pointers => pointers.erase pp
  | .realloc pp 0, _, pointers => pointers.erase pp
  | .realloc pp (_ + 1), some q, pointers => q :: pointers.erase pp
  | _, _, pointers => pointers

structure State where
  memory : Memory
  pointers : List Nat

def State.after (state : State) (call : Call) (result : Option Nat) (memory : Memory) : State where
  memory := memory
  pointers := call.pointers result state.pointers

def start : State where
  memory := sfMemInit util
  pointers := []

def step (state : State) (call : Call) : Option State :=
  match call.run util state.memory with
  | .ok (result, memory) => some (state.after call result memory)
  | .error _ => none

/-- Sizes are 64 bits wide, pointers are payloads the program has, and words are written inside
of payloads. -/
def Legal (state : State) : Call → Prop
  | .malloc size => size < 2 ^ 64
  | .free pp => pp ∈ state.pointers
  | .realloc pp rsize => pp ∈ state.pointers ∧ rsize < 2 ^ 64
  | .assign pp i word => pp ∈ state.pointers ∧
      i + 1 < 2 * (infoAt state.memory pp).blockSize.toNat ∧ word < 2 ^ 64

/-- The size that `sf_malloc` looks for a block for, if it does. -/
def Call.request (memory : Memory) : Call → Option Nat
  | .malloc size => if size = 0 then none else some size
  | .realloc pp rsize =>
      if (infoAt memory pp).requestedSize.toNat < rsize then some rsize else none
  | _ => none

def Admitted (memory : Memory) (call : Call) : Prop :=
  ∀ size ∈ call.request memory, AdmitsSize util memory size

def Allowed (state : State) (call : Call) : Prop :=
  Legal state call ∧ Admitted util state.memory call

instance (state : State) : (call : Call) → Decidable (Legal state call)
  | .malloc size => inferInstanceAs (Decidable (size < 2 ^ 64))
  | .free pp => inferInstanceAs (Decidable (pp ∈ state.pointers))
  | .realloc pp rsize => inferInstanceAs (Decidable (pp ∈ state.pointers ∧ rsize < 2 ^ 64))
  | .assign pp i word => inferInstanceAs (Decidable (pp ∈ state.pointers ∧
      i + 1 < 2 * (infoAt state.memory pp).blockSize.toNat ∧ word < 2 ^ 64))

instance (memory : Memory) (call : Call) : Decidable (Admitted util memory call) :=
  inferInstanceAs (Decidable (∀ size ∈ call.request memory, _))

instance (state : State) (call : Call) : Decidable (Allowed util state call) :=
  inferInstanceAs (Decidable (_ ∧ _))

variable {util}

/-- The shape of the memory, whose live blocks are those of the program's payloads. -/
structure Stands (util : Sfutil) (state : State) (shape : Shape) : Prop where
  valid : shape.Valid util
  described : Describes util (shape.picture util) state.memory
  pointers : state.pointers.Perm ((shape.lives util).map Live.pointer)

/-- The live blocks that a call takes, makes and keeps. -/
def Effect (argument result : Option Nat) (lives lives' : List Live) : Prop :=
  ∃ gone added kept, lives.Perm (gone ++ kept) ∧ lives'.Perm (added ++ kept) ∧
    (∀ live ∈ gone, argument = some live.pointer) ∧
    ∀ q, result = some q → ∃ live ∈ added, live.pointer = q

/-- All blocks have room for what was requested, where the requests are small. -/
def KeepsRoom (request : Option Nat) (lives lives' : List Live) : Prop :=
  (∀ live ∈ lives, live.Roomy) → (∀ size ∈ request, size < 2 ^ 31 - 32) → ∀ live ∈ lives', live.Roomy

variable {state : State} {shape shape' : Shape} {heap : Heap} {live : Live} {memory : Memory}
variable {call : Call} {result : Option Nat} {size needed pp n : Nat}

theorem stands_start : Stands util (start util) (.empty false) where
  valid := trivial
  described := describes_init
  pointers := .nil

/-- A payload that the program has. -/
theorem Stands.owns (stands : Stands util state shape) (member : pp ∈ state.pointers) :
    ∃ heap live, shape = .used heap ∧ live ∈ heap.lives util ∧ live.pointer = pp := by
  obtain ⟨live, listed, is⟩ := List.mem_map.mp (stands.pointers.mem_iff.mp member)
  cases shape with
  | empty enomem => cases listed
  | used heap => exact ⟨heap, live, rfl, listed, is⟩

/-- `sf_abort` refuses a block without room. -/
def Refused (util : Sfutil) (shape : Shape) (call : Call) : Prop :=
  ∃ live ∈ shape.lives util, call.argument = some live.pointer ∧ ¬ live.Roomy

/-- A call that returns leaves a heap, and says what became of its blocks. -/
def Returned (util : Sfutil) (state : State) (shape : Shape) (call : Call) : Prop :=
  ∃ result memory shape', call.run util state.memory = .ok (result, memory) ∧
    Stands util (state.after call result memory) shape' ∧
    Effect call.argument result (shape.lives util) (shape'.lives util) ∧
    KeepsRoom (call.request state.memory) (shape.lives util) (shape'.lives util)

def Outcome (util : Sfutil) (state : State) (shape : Shape) (call : Call) : Prop :=
  (Refused util shape call ∧ ∃ stop, call.run util state.memory = .error stop) ∨
    Returned util state shape call

theorem Effect.same {argument : Option Nat} {lives : List Live} : Effect argument none lives lives :=
  ⟨[], [], lives, .refl _, .refl _, by simp, fun q is => by cases is⟩

theorem Effect.added {argument : Option Nat} {lives lives' : List Live}
    (perm : lives'.Perm (live :: lives)) : Effect argument (some live.pointer) lives lives' :=
  ⟨[], [live], lives, .refl _, perm, by simp, fun q is => ⟨live, by simp, Option.some.inj is⟩⟩

theorem Effect.removed {lives lives' : List Live} (perm : lives.Perm (live :: lives')) :
    Effect (some live.pointer) none lives lives' :=
  ⟨[live], [], lives', perm, .refl _, by simp, fun q is => by cases is⟩

theorem Effect.replaced {new : Live} {lives lives' kept : List Live}
    (old : lives.Perm (live :: kept)) (perm : lives'.Perm (new :: kept)) :
    Effect (some live.pointer) (some new.pointer) lives lives' :=
  ⟨[live], [new], kept, old, perm, by simp, fun q is => ⟨new, by simp, Option.some.inj is⟩⟩

theorem KeepsRoom.same {request : Option Nat} {lives lives' : List Live}
    (fewer : ∀ live ∈ lives', live ∈ lives) : KeepsRoom request lives lives' :=
  fun roomy _ live member => roomy live (fewer live member)

/-- Of a request below `2 ^ 31 - 32` there is room in its block. -/
theorem roomy_of_request (small : size < 2 ^ 31 - 32)
    (isNeeded : ∀ units, unitsFor size = some units → units = needed)
    (enough : needed ≤ live.units) (requested : live.requested = size % 2 ^ 32) : live.Roomy := by
  obtain rfl := isNeeded _ (unitsFor_small small)
  rw [Nat.mod_eq_of_lt (by omega)] at requested
  unfold Live.Roomy
  omega

theorem KeepsRoom.added {lives lives' kept : List Live} {new : Live}
    (isNeeded : ∀ units, unitsFor size = some units → units = needed) (enough : needed ≤ new.units)
    (requested : new.requested = size % 2 ^ 32) (fewer : ∀ live ∈ kept, live ∈ lives)
    (perm : lives'.Perm (new :: kept)) : KeepsRoom (some size) lives lives' := by
  intro roomy small live member
  rcases List.mem_cons.mp (perm.mem_iff.mp member) with rfl | old
  · exact roomy_of_request (small size rfl) isNeeded enough requested
  · exact roomy live (fewer live old)

theorem malloc_outcome (stands : Stands util state shape)
    (admitted : Admitted util state.memory (.malloc size)) :
    Outcome util state shape (.malloc size) := by
  by_cases zero : size = 0
  · have runs : sfMalloc util size state.memory = .ok (none, state.memory) := by
      rw [sfMalloc, sfMallocWith, if_pos zero]
      rfl
    exact .inr ⟨none, state.memory, shape, runs, ⟨stands.valid, stands.described, stands.pointers⟩,
      .same, .same fun _ member => member⟩
  · have request : (Call.malloc size).request state.memory = some size := if_neg zero
    obtain ⟨needed, result, shape', memory, isNeeded, runs, valid, described, served⟩ :=
      sfMalloc_called zero stands.valid stands.described (admitted size request)
    cases served with
    | block enough requested added _ =>
        refine .inr ⟨_, memory, shape', runs, ⟨valid, described, ?_⟩, .added added, ?_⟩
        · exact (stands.pointers.cons _).trans (added.map Live.pointer).symm
        · rw [request]
          exact .added isNeeded enough requested (fun _ member => member) added
    | enomem same full flag =>
        have lives : shape'.lives util = shape.lives util := same.shape
        refine .inr ⟨none, memory, shape', runs, ⟨valid, described, ?_⟩, ?_, ?_⟩
        · rw [lives]
          exact stands.pointers
        · rw [lives]
          exact .same
        · rw [lives]
          exact .same fun _ member => member

/-- The pointers that are left once a live block is freed. -/
theorem Stands.erased {heap' : Heap} (stands : Stands util state (.used heap))
    (perm : (heap.lives util).Perm (live :: heap'.lives util)) :
    (state.pointers.erase live.pointer).Perm ((heap'.lives util).map Live.pointer) := by
  have pointers : state.pointers.Perm (live.pointer :: (heap'.lives util).map Live.pointer) :=
    stands.pointers.trans (perm.map Live.pointer)
  have erased := pointers.erase live.pointer
  rw [List.erase_cons_head] at erased
  exact erased

/-- The pointers once a live block is replaced. -/
theorem Stands.replaced {kept : List Live} {q : Nat} (stands : Stands util state (.used heap))
    (perm : (heap.lives util).Perm (live :: kept)) :
    (q :: state.pointers.erase live.pointer).Perm (q :: kept.map Live.pointer) := by
  have pointers : state.pointers.Perm (live.pointer :: kept.map Live.pointer) :=
    stands.pointers.trans (perm.map Live.pointer)
  have erased := pointers.erase live.pointer
  rw [List.erase_cons_head] at erased
  exact erased.cons q

theorem free_outcome (stands : Stands util state shape) (member : pp ∈ state.pointers) :
    Outcome util state shape (.free pp) := by
  obtain ⟨heap, live, rfl, listed, rfl⟩ := stands.owns member
  by_cases roomy : live.Roomy
  · obtain ⟨heap', memory, runs, valid, described, perm, -⟩ :=
      sfFree_served stands.valid stands.described listed roomy
    refine .inr ⟨none, memory, .used heap', run_bind runs, ⟨valid, described, stands.erased perm⟩,
      .removed perm, .same fun other kept => ?_⟩
    exact perm.mem_iff.mpr (List.mem_cons_of_mem _ kept)
  · have aborts := sfFree_small (sfAbort_small stands.valid stands.described listed roomy)
    exact .inl ⟨⟨live, listed, rfl, roomy⟩, .aborted, stop_bind aborts⟩

theorem realloc_outcome (stands : Stands util state shape) (member : pp ∈ state.pointers)
    (admitted : Admitted util state.memory (.realloc pp n)) :
    Outcome util state shape (.realloc pp n) := by
  obtain ⟨heap, live, rfl, listed, rfl⟩ := stands.owns member
  have valid : heap.Valid util := stands.valid
  have described : Describes util (heap.picture util) state.memory := stands.described
  by_cases roomy : live.Roomy
  · rcases Nat.eq_zero_or_pos n with rfl | positive
    · obtain ⟨heap', memory, runs, valid', described', perm⟩ :=
        sfRealloc_zero valid described listed roomy
      refine .inr ⟨none, memory, .used heap', runs, ⟨valid', described', stands.erased perm⟩,
        .removed perm, .same fun other kept => ?_⟩
      exact perm.mem_iff.mpr (List.mem_cons_of_mem _ kept)
    · obtain ⟨k, rfl⟩ := Nat.exists_eq_add_one_of_ne_zero (Nat.ne_of_gt positive)
      have requested := (described.inMemory listed).requested
      rcases Nat.lt_or_ge live.requested (k + 1) with more | less
      · have request : (Call.realloc live.pointer (k + 1)).request state.memory = some (k + 1) := by
          rw [Call.request, requested]
          exact if_pos more
        obtain ⟨admits, wraps⟩ := admitted (k + 1) request
        obtain ⟨needed, isNeeded⟩ : ∃ needed, unitsFor (k + 1) = some needed :=
          Option.ne_none_iff_exists'.mp fun none => pages_ne_zero valid described (wraps none)
        obtain ⟨result, heap', memory, runs, valid', described', moved⟩ :=
          sfRealloc_moved valid described listed roomy more isNeeded (admits needed isNeeded)
        cases moved with
        | @moved _ new kept enough requested old added _ =>
            refine .inr ⟨_, memory, .used heap', runs, ⟨valid', described', ?_⟩,
              .replaced old added, ?_⟩
            · exact (stands.replaced old).trans (added.map Live.pointer).symm
            · have same : ∀ units, unitsFor (k + 1) = some units → units = needed :=
                fun _ is => Option.some.inj (is.symm.trans isNeeded)
              rw [request]
              exact .added same enough requested
                (fun other member => old.mem_iff.mpr (List.mem_cons_of_mem _ member)) added
        | enomem same full flag =>
            have lives : (Shape.used heap').lives util = heap.lives util := same.lives util.first
            refine .inr ⟨none, memory, .used heap', runs, ⟨valid', described', ?_⟩, ?_, ?_⟩
            · rw [lives]
              exact stands.pointers
            · rw [lives]
              exact .same
            · rw [lives]
              exact .same fun _ member => member
      · obtain ⟨heap', memory, units, kept, runs, valid', described', old, added, room⟩ :=
          sfRealloc_kept valid described listed roomy positive less
        refine .inr ⟨_, memory, .used heap', runs, ⟨valid', described', ?_⟩,
          @Effect.replaced live ⟨live.header, units, k + 1, _⟩ _ _ kept old added, ?_⟩
        · exact (stands.replaced old).trans (added.map Live.pointer).symm
        · intro roomy _ other member
          rcases List.mem_cons.mp (added.mem_iff.mp member) with rfl | kept
          · exact room
          · exact roomy other (old.mem_iff.mpr (List.mem_cons_of_mem _ kept))
  · have aborts := sfRealloc_small (sfAbort_small valid described listed roomy) n
    exact .inl ⟨⟨live, listed, rfl, roomy⟩, .aborted, aborts⟩

theorem assign_outcome {i word : Nat} (stands : Stands util state shape)
    (member : pp ∈ state.pointers)
    (inside : i + 1 < 2 * (infoAt state.memory pp).blockSize.toNat) :
    Outcome util state shape (.assign pp i word) := by
  obtain ⟨heap, live, rfl, listed, rfl⟩ := stands.owns member
  have valid : heap.Valid util := stands.valid
  have described : Describes util (heap.picture util) state.memory := stands.described
  have length := (lives_bounds valid.fits listed).2.2.2
  rw [(described.inMemory listed).size] at inside
  obtain ⟨heap', memory, kept, runs, valid', described', old, added⟩ :=
    @store_served _ _ _ live i word valid described listed (by omega)
  refine .inr ⟨none, memory, .used heap', run_bind runs, ⟨valid', described', ?_⟩, ?_, ?_⟩
  · exact stands.pointers.trans ((old.map Live.pointer).trans (added.map Live.pointer).symm)
  · exact ⟨[live], [{ live with payload := live.payload.set i word }], kept, old, added,
      by simp [Call.argument], fun q is => by cases is⟩
  · intro roomy _ other member
    rcases List.mem_cons.mp (added.mem_iff.mp member) with rfl | kept
    · exact roomy live listed
    · exact roomy other (old.mem_iff.mpr (List.mem_cons_of_mem _ kept))

/-- What every call does. -/
theorem call_outcome (stands : Stands util state shape) (allowed : Allowed util state call) :
    Outcome util state shape call := by
  obtain ⟨legal, admitted⟩ := allowed
  cases call with
  | malloc size => exact malloc_outcome stands admitted
  | free pp => exact free_outcome stands legal
  | realloc pp n => exact realloc_outcome stands legal.1 admitted
  | assign pp i word => exact assign_outcome stands legal.1 legal.2.1

theorem step_some {next : State} (taken : step util state call = some next) :
    ∃ result memory, call.run util state.memory = .ok (result, memory) ∧
      next = state.after call result memory := by
  unfold step at taken
  split at taken
  · rename_i result memory runs
    exact ⟨result, memory, runs, (Option.some.inj taken).symm⟩
  · cases taken

theorem returned_of_runs (stands : Stands util state shape) (allowed : Allowed util state call)
    (runs : call.run util state.memory = .ok (result, memory)) :
    ∃ shape', Stands util (state.after call result memory) shape' ∧
      Effect call.argument result (shape.lives util) (shape'.lives util) ∧
      KeepsRoom (call.request state.memory) (shape.lives util) (shape'.lives util) := by
  rcases call_outcome stands allowed with ⟨-, stop, fails⟩ | ⟨result', memory', shape', runs', kept⟩
  · rw [fails] at runs
    cases runs
  · rw [runs'] at runs
    cases runs
    exact ⟨shape', kept⟩

theorem stands_of_reachable (reached : Runs.Reachable (step util) (Allowed util) (start util) state) :
    ∃ shape, Stands util state shape := by
  refine reached.invariant (fun state => ∃ shape, Stands util state shape)
    ⟨_, stands_start⟩ ?_
  rintro state call next ⟨shape, stands⟩ allowed taken
  obtain ⟨result, memory, runs, rfl⟩ := step_some taken
  obtain ⟨shape', stands', -⟩ := returned_of_runs stands allowed runs
  exact ⟨shape', stands'⟩

/-- A state that some allowed calls lead to. -/
theorem exists_allowed (util : Sfutil) (calls : List Call)
    (follows : Runs.followsBy (step util) (fun state call => decide (Allowed util state call))
      (start util) calls = true)
    (test : State → Bool) (passes : (Runs.run (step util) (start util) calls).any test = true) :
    ∃ state, Runs.run (step util) (start util) calls = some state ∧
      Runs.Reachable (step util) (Allowed util) (start util) state ∧ test state = true :=
  Runs.exists_reachable calls (fun _ _ => of_decide_eq_true) follows test passes

/-- There is no heap yet, or memory holds blocks and lists as they should be. -/
def WellFormed (util : Sfutil) (memory : Memory) : Prop :=
  ∃ shape : Shape, shape.Valid util ∧ Describes util (shape.picture util) memory

/-- Sizes below `2 ^ 31 - 32`. -/
def Call.Small : Call → Prop
  | .malloc size => size < 2 ^ 31 - 32
  | .realloc _ rsize => rsize < 2 ^ 31 - 32
  | _ => True

theorem Call.Small.request (small : call.Small) : ∀ size ∈ call.request memory, size < 2 ^ 31 - 32 := by
  intro size is
  cases call with
  | malloc other =>
      rw [Call.request, Option.mem_def, Option.ite_none_left_eq_some] at is
      rw [← Option.some.inj is.2]
      exact small
  | realloc pp rsize =>
      rw [Call.request, Option.mem_def, Option.ite_none_right_eq_some] at is
      rw [← Option.some.inj is.2]
      exact small
  | free pp => cases is
  | assign pp i word => cases is

instance : (call : Call) → Decidable call.Small
  | .malloc size => inferInstanceAs (Decidable (size < 2 ^ 31 - 32))
  | .realloc _ rsize => inferInstanceAs (Decidable (rsize < 2 ^ 31 - 32))
  | .free _ => .isTrue trivial
  | .assign _ _ _ => .isTrue trivial

/-- The heap is well formed after every call, and every call returns. -/
theorem wellFormed_of_allowed (reached : Runs.Reachable (step util)
      (fun state call => Allowed util state call ∧ call.Small) (start util) state) :
    WellFormed util state.memory ∧
      ∀ call, Allowed util state call → call.Small → ∃ next, step util state call = some next := by
  obtain ⟨shape, stands, roomy⟩ := reached.invariant
    (fun state => ∃ shape, Stands util state shape ∧ ∀ live ∈ shape.lives util, live.Roomy)
    ⟨_, stands_start, by simp [Shape.lives]⟩ (by
      rintro state call next ⟨shape, stands, roomy⟩ ⟨allowed, small⟩ taken
      obtain ⟨result, memory, runs, rfl⟩ := step_some taken
      obtain ⟨shape', stands', -, keeps⟩ := returned_of_runs stands allowed runs
      exact ⟨shape', stands', keeps roomy small.request⟩)
  refine ⟨⟨shape, stands.valid, stands.described⟩, fun call allowed small => ?_⟩
  rcases call_outcome stands allowed with ⟨⟨live, member, -, cramped⟩, -⟩ |
    ⟨result, memory, shape', runs, -⟩
  · exact absurd (roomy live member) cramped
  · exact ⟨state.after call result memory, by rw [step, runs]⟩

theorem fourPages_small : 1000 % 2 = 0 ∧ 4 * 4096 < 2 ^ 31 := by decide

theorem fourPages_apart : (100 + nodeWords ≤ 1000 ∨ 1000 + 4 * pageWords ≤ 100) ∧
    (∀ k, 4000 + 6 * k + nodeWords ≤ 1000 ∨ 1000 + 4 * pageWords ≤ 4000 + 6 * k) ∧
    (∀ k, 4000 + 6 * k + nodeWords ≤ 100 ∨ 100 + nodeWords ≤ 4000 + 6 * k) ∧
    ∀ j k, j ≠ k → 4000 + 6 * j + nodeWords ≤ 4000 + 6 * k ∨ 4000 + 6 * k + nodeWords ≤ 4000 + 6 * j := by
  simp only [pageWords, nodeWords]
  refine ⟨?_, ?_, ?_, ?_⟩
  all_goals omega

/-- A heap of at most four pages, and nodes after it. -/
def fourPages : Sfutil where
  start := 1000
  limit := 4
  head := 100
  node := fun k => 4000 + 6 * k
  contents := fun _ => 0
  aligned := fourPages_small.1
  small := fourPages_small.2
  headApart := fourPages_apart.1
  nodeApart := fourPages_apart.2.1
  nodeOffHead := fourPages_apart.2.2.1
  nodesApart := fourPages_apart.2.2.2

/-- A run that grows the heap three times and then frees, shrinks and moves blocks. -/
theorem wellFormed_run : ∃ state, Runs.run (step fourPages) (start fourPages)
      [.malloc 10000, .malloc 50, .assign 2258 0 7, .free 1006, .realloc 2258 8, .realloc 2258 9000] =
        some state ∧ WellFormed fourPages state.memory := by
  obtain ⟨state, runs, reached, -⟩ := @Runs.exists_reachable _ _ (step fourPages)
    (fun state call => Allowed fourPages state call ∧ call.Small) (start fourPages)
    [.malloc 10000, .malloc 50, .assign 2258 0 7, .free 1006, .realloc 2258 8, .realloc 2258 9000] _
    (fun _ _ => of_decide_eq_true) (by decide +kernel) (fun _ => true) (by decide +kernel)
  exact ⟨state, runs, (wellFormed_of_allowed reached).1⟩

/-- A block that is linked to itself is on no list exactly once. -/
theorem not_wellFormed_of_links {node h : Nat} (first : memory.word (util.head + 4) = some node)
    (other : node ≠ util.head) (member : memory.word (node + 2) = some h) (listed : h ≠ node + 1)
    (again : memory.word (h + 1) = some h) : ¬ WellFormed util memory := by
  rintro ⟨shape, valid, described⟩
  cases shape with
  | empty enomem =>
      have place : emptyPicture util enomem = (emptyPicture util enomem).at
          (listCells util.head [] + 0) := by
        rw [add_zero]
        rfl
      change Describes util (emptyPicture util enomem) memory at described
      rw [place] at described
      have isHead := described.word first_mem
      rw [first] at isHead
      exact other (Option.some.inj isHead)
  | used heap =>
      have once := Heap.Valid.once valid
      change Describes util (heap.picture util) memory at described
      rw [Heap.picture_lists] at described
      have isFirst := described.word first_mem
      rw [first] at isFirst
      cases lists : heap.lists with
      | nil =>
          rw [lists] at isFirst
          exact other (Option.some.inj isFirst)
      | cons list others =>
          rw [lists] at isFirst described once
          obtain rfl := Option.some.inj isFirst
          have isMember := described.word (first_member_mem List.mem_cons_self)
          simp only [List.map_cons, List.headD_cons] at member listed isMember
          rw [member, Option.some.injEq] at isMember
          cases members : list.members with
          | nil =>
              rw [members] at isMember
              exact listed isMember
          | cons header rest =>
              rw [members, List.headD_cons] at isMember
              have split : list.members = [] ++ header :: rest := members
              have isNext := described.word (member_next_mem List.mem_cons_self split)
              rw [← isMember, again, Option.some.injEq] at isNext
              cases rest with
              | nil => exact listed isNext
              | cons second rest =>
                  rw [List.headD_cons] at isNext
                  rw [entries_cons, members, ← isMember, ← isNext] at once
                  simp at once

/-- A request that no block fits, while a list of its size is empty and no page is left, puts the
last free block on its list a second time. -/
theorem not_always_wellFormed : ¬ ∀ state, Runs.Reachable (step fourPages)
    (fun state call => Legal state call ∧ call.Small) (start fourPages) state →
      WellFormed fourPages state.memory := by
  refine Runs.not_forall_reachable [.malloc 16000, .malloc 100, .malloc 250] ?_ (fun state =>
    state.memory.word 104 == some 4006 && state.memory.word 4008 == some 3021 &&
      state.memory.word 3022 == some 3021) (by decide +kernel) ?_
  · exact Runs.follows_of_check (fun _ _ => of_decide_eq_true) _ (by decide +kernel)
  · intro state passes
    simp only [Bool.and_eq_true, beq_iff_eq] at passes
    obtain ⟨⟨first, member⟩, again⟩ := passes
    exact not_wellFormed_of_links first (by decide) member (by decide) again

end Audible.Sfmm
