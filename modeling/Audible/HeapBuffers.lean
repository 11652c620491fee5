import Audible.HeapFrame

set_option autoImplicit false

/- The allocator as a store of buffers: what a program knows of its payloads, and that every run
of calls keeps it true of memory. -/
namespace Audible.Sfmm

open Cells Returning

/-- A payload as the program knows it: what it asked for, and the words it has written there. -/
structure Buffer where
  pointer : Nat
  requested : Nat
  words : Nat → Option Nat

def Buffer.fresh (pointer requested : Nat) : Buffer where
  pointer := pointer
  requested := requested
  words := fun _ => none

def Buffer.write (b : Buffer) (i word : Nat) : Buffer :=
  { b with words := fun j => if j = i then some word else b.words j }

/-- What is left of a payload once only its first `n` bytes are asked for. -/
def Buffer.cut (b : Buffer) (n : Nat) : Buffer :=
  { b with
    requested := n
    words := fun i => if 8 * (i + 1) ≤ n then b.words i else none }

def New (p : Nat) (buffers : List Buffer) : Prop := ∀ b ∈ buffers, b.pointer ≠ p

/-- What a store of buffers may make of a call. A larger request gets a buffer of which nothing
is known. -/
inductive Serves : List Buffer → Call → Option Nat → List Buffer → Prop
  | allotted {buffers : List Buffer} {p n : Nat} (positive : 0 < n) (new : New p buffers) :
      Serves buffers (.malloc n) (some p) (.fresh p n :: buffers)
  | refused {buffers : List Buffer} {n : Nat} : Serves buffers (.malloc n) none buffers
  | freed {front back : List Buffer} {b : Buffer} :
      Serves (front ++ b :: back) (.free b.pointer) none (front ++ back)
  | emptied {front back : List Buffer} {b : Buffer} :
      Serves (front ++ b :: back) (.realloc b.pointer 0) none (front ++ back)
  | cut {front back : List Buffer} {b : Buffer} {n : Nat} (positive : 0 < n)
      (less : n ≤ b.requested) :
      Serves (front ++ b :: back) (.realloc b.pointer n) (some b.pointer)
        (front ++ b.cut n :: back)
  | moved {front back : List Buffer} {b : Buffer} {q n : Nat} (more : b.requested < n)
      (new : New q (front ++ back)) :
      Serves (front ++ b :: back) (.realloc b.pointer n) (some q)
        (.fresh q n :: (front ++ back))
  | full {front back : List Buffer} {b : Buffer} {n : Nat} (more : b.requested < n) :
      Serves (front ++ b :: back) (.realloc b.pointer n) none (front ++ b :: back)
  | written {front back : List Buffer} {b : Buffer} {i word : Nat} :
      Serves (front ++ b :: back) (.assign b.pointer i word) none
        (front ++ b.write i word :: back)

inductive ServesAll : List Buffer → List Call → List Buffer → Prop
  | nil {buffers : List Buffer} : ServesAll buffers [] buffers
  | cons {buffers buffers' buffers'' : List Buffer} {call : Call} {calls : List Call}
      {result : Option Nat} (first : Serves buffers call result buffers')
      (rest : ServesAll buffers' calls buffers'') : ServesAll buffers (call :: calls) buffers''

variable {util : Sfutil} {state : State} {shape shape' : Shape} {heap : Heap} {live : Live}
variable {memory : Memory} {call : Call} {result : Option Nat} {size pp n : Nat}
variable {lives kept : List Live} {buffers front back : List Buffer} {b : Buffer}

structure Knows (live : Live) (b : Buffer) : Prop where
  pointer : live.pointer = b.pointer
  requested : live.requested = b.requested
  words : ∀ i word, b.words i = some word → live.payload[i]? = some word

/-- The live blocks are the buffers, in some order. -/
def Tracks (lives : List Live) (buffers : List Buffer) : Prop :=
  ∃ ordered, lives.Perm ordered ∧ List.Forall₂ Knows ordered buffers

theorem Tracks.nil : Tracks [] [] := ⟨[], .refl _, .nil⟩

theorem Tracks.perm (tracks : Tracks kept buffers) (perm : lives.Perm kept) :
    Tracks lives buffers := by
  obtain ⟨ordered, order, knows⟩ := tracks
  exact ⟨ordered, perm.trans order, knows⟩

theorem Tracks.cons (knows : Knows live b) (tracks : Tracks kept buffers) :
    Tracks (live :: kept) (b :: buffers) := by
  obtain ⟨ordered, order, others⟩ := tracks
  exact ⟨live :: ordered, order.cons live, .cons knows others⟩

/-- A live block among others is a buffer among others. -/
theorem split_knows {before after : List Live} (knows : List.Forall₂ Knows (before ++ live :: after)
    buffers) : ∃ front b back, buffers = front ++ b :: back ∧ Knows live b ∧
      List.Forall₂ Knows before front ∧ List.Forall₂ Knows after back := by
  induction before generalizing buffers with
  | nil =>
      cases knows with
      | cons here others => exact ⟨[], _, _, rfl, here, .nil, others⟩
  | cons first before ih =>
      cases knows with
      | cons here others =>
          obtain ⟨front, b, back, rfl, found, left, right⟩ := ih others
          exact ⟨_ :: front, b, back, rfl, found, .cons here left, right⟩

theorem Tracks.find (tracks : Tracks lives buffers) (member : live ∈ lives) :
    ∃ front b back kept, buffers = front ++ b :: back ∧ Knows live b ∧
      lives.Perm (live :: kept) ∧ Tracks kept (front ++ back) := by
  obtain ⟨ordered, order, knows⟩ := tracks
  obtain ⟨before, after, rfl⟩ := List.append_of_mem (order.mem_iff.mp member)
  obtain ⟨front, b, back, rfl, found, left, right⟩ := split_knows knows
  exact ⟨front, b, back, before ++ after, rfl, found, order.trans List.perm_middle,
    before ++ after, .refl _, List.rel_append left right⟩

theorem Tracks.insert (knows : Knows live b) (tracks : Tracks kept (front ++ back)) :
    Tracks (live :: kept) (front ++ b :: back) := by
  obtain ⟨ordered, order, others⟩ := tracks
  have left := List.forall₂_take_append ordered front back others
  have right := List.forall₂_drop_append ordered front back others
  have split := List.take_append_drop front.length ordered
  generalize List.take front.length ordered = before at left split
  generalize List.drop front.length ordered = after at right split
  subst split
  exact ⟨before ++ live :: after, (order.cons live).trans List.perm_middle.symm,
    List.rel_append left (.cons knows right)⟩

theorem Tracks.mem (tracks : Tracks lives buffers) (member : b ∈ buffers) :
    ∃ live ∈ lives, Knows live b := by
  obtain ⟨ordered, order, knows⟩ := tracks
  have found : ∃ live ∈ ordered, Knows live b := by
    clear order
    induction knows with
    | nil => cases member
    | @cons first other _ _ here others ih =>
        rcases List.mem_cons.mp member with rfl | later
        · exact ⟨first, List.mem_cons_self, here⟩
        · obtain ⟨live, listed, knows⟩ := ih later
          exact ⟨live, List.mem_cons_of_mem first listed, knows⟩
  obtain ⟨live, listed, here⟩ := found
  exact ⟨live, order.mem_iff.mpr listed, here⟩

/-- The memory of the program with a heap whose live blocks are the buffers. -/
structure Stocks (util : Sfutil) (state : State) (shape : Shape) (buffers : List Buffer) : Prop
    extends Stands util state shape where
  roomy : ∀ live ∈ shape.lives util, live.Roomy
  tracks : Tracks (shape.lives util) buffers

/-- A call that returns does what a store of buffers may do. -/
def Advances (util : Sfutil) (state : State) (buffers : List Buffer) (call : Call) : Prop :=
  ∃ result memory shape' buffers', call.run util state.memory = .ok (result, memory) ∧
    Stocks util (state.after call result memory) shape' buffers' ∧
    Serves buffers call result buffers'

/-- The payload of a block that was not there before is none of the buffers. -/
theorem Shape.Valid.new (valid : shape'.Valid util)
    (added : (shape'.lives util).Perm (live :: lives)) (tracks : Tracks lives buffers) :
    New live.pointer buffers := by
  intro b member same
  obtain ⟨other, listed, knows⟩ := tracks.mem member
  have apart := (List.pairwise_cons.mp ((added.pairwise_iff Live.Apart.symm).mp valid.apart)).1
    other listed
  have length := valid.length (added.mem_iff.mpr (List.mem_cons_self))
  have length' := valid.length (added.mem_iff.mpr (List.mem_cons_of_mem live listed))
  have pointers := knows.pointer.trans same
  unfold Live.Apart at apart
  unfold Live.pointer at pointers
  omega

theorem Stocks.malloc (stocks : Stocks util state shape buffers) (small : size < 2 ^ 31 - 32)
    (admitted : Admitted util state.memory (.malloc size)) :
    Advances util state buffers (.malloc size) := by
  by_cases zero : size = 0
  · have runs : sfMalloc util size state.memory = .ok (none, state.memory) := by
      rw [sfMalloc, sfMallocWith, if_pos zero]
      rfl
    exact ⟨none, state.memory, shape, buffers, runs,
      ⟨⟨stocks.valid, stocks.described, stocks.pointers⟩, stocks.roomy, stocks.tracks⟩, .refused⟩
  · have request : (Call.malloc size).request state.memory = some size := if_neg zero
    have isNeeded := unitsFor_small small
    obtain ⟨result, shape', memory, runs, valid, described, served⟩ :=
      sfMalloc_served zero isNeeded stocks.valid stocks.described ((admitted size request).1 _ isNeeded)
    cases served with
    | @block _ live enough requested added _ =>
        have knows : Knows live (.fresh live.pointer size) :=
          ⟨rfl, requested.trans (Nat.mod_eq_of_lt (by omega)), fun i word never => by cases never⟩
        refine ⟨_, memory, shape', _, runs, ⟨⟨valid, described, ?_⟩, ?_, ?_⟩,
          .allotted (Nat.pos_of_ne_zero zero) (valid.new added stocks.tracks)⟩
        · exact (stocks.pointers.cons _).trans (added.map Live.pointer).symm
        · intro other member
          rcases List.mem_cons.mp (added.mem_iff.mp member) with rfl | old
          · exact roomy_of_request small (fun _ is => Option.some.inj (is.symm.trans isNeeded)) enough
              requested
          · exact stocks.roomy other old
        · exact (Tracks.cons knows stocks.tracks).perm added
    | enomem same full flag =>
        have lives : shape'.lives util = shape.lives util := same.shape
        refine ⟨none, memory, shape', buffers, runs, ⟨⟨valid, described, ?_⟩, ?_, ?_⟩, .refused⟩
        · rw [lives]
          exact stocks.pointers
        · rw [lives]
          exact stocks.roomy
        · rw [lives]
          exact stocks.tracks

theorem Stocks.free (stocks : Stocks util state shape buffers) (owned : pp ∈ state.pointers) :
    Advances util state buffers (.free pp) := by
  obtain ⟨heap, live, rfl, listed, rfl⟩ := stocks.owns owned
  obtain ⟨front, b, back, kept, rfl, knows, old, tracks⟩ := stocks.tracks.find listed
  obtain ⟨heap', memory, runs, valid, described, perm, -⟩ :=
    sfFree_served stocks.valid stocks.described listed (stocks.roomy live listed)
  have left : ((Shape.used heap').lives util).Perm kept := (perm.symm.trans old).cons_inv
  refine ⟨none, memory, .used heap', front ++ back, run_bind runs,
    ⟨⟨valid, described, stocks.erased perm⟩, ?_, tracks.perm left⟩, ?_⟩
  · exact fun other member => stocks.roomy other (perm.mem_iff.mpr (List.mem_cons_of_mem _ member))
  · rw [knows.pointer]
    exact .freed

theorem Stocks.assign {i word : Nat} (stocks : Stocks util state shape buffers)
    (owned : pp ∈ state.pointers) (inside : i + 1 < 2 * (infoAt state.memory pp).blockSize.toNat) :
    Advances util state buffers (.assign pp i word) := by
  obtain ⟨heap, live, rfl, listed, rfl⟩ := stocks.owns owned
  obtain ⟨front, b, back, kept, rfl, knows, old, tracks⟩ := stocks.tracks.find listed
  have valid : heap.Valid util := stocks.valid
  have described : Describes util (heap.picture util) state.memory := stocks.described
  have length := (lives_bounds valid.fits listed).2.2.2
  rw [(described.inMemory listed).size] at inside
  have within : i < live.payload.length := by omega
  obtain ⟨heap', memory, others, runs, valid', described', before, added⟩ :=
    @store_served _ _ _ live i word valid described listed within
  have same : others.Perm kept := (before.symm.trans old).cons_inv
  have written : Knows { live with payload := live.payload.set i word } (b.write i word) := by
    refine ⟨knows.pointer, knows.requested, fun j w known => ?_⟩
    change (if j = i then some word else b.words j) = some w at known
    change (live.payload.set i word)[j]? = some w
    by_cases here : j = i
    · rw [if_pos here] at known
      rw [here, List.getElem?_set_self within, known]
    · rw [if_neg here] at known
      rw [List.getElem?_set_ne (Ne.symm here), knows.words j w known]
  refine ⟨none, memory, .used heap', front ++ b.write i word :: back, run_bind runs,
    ⟨⟨valid', described', ?_⟩, ?_, (Tracks.insert written tracks).perm (added.trans (same.cons _))⟩,
    ?_⟩
  · exact stocks.pointers.trans ((before.map Live.pointer).trans (added.map Live.pointer).symm)
  · intro other member
    rcases List.mem_cons.mp (added.mem_iff.mp member) with rfl | stays
    · exact stocks.roomy live listed
    · exact stocks.roomy other (before.mem_iff.mpr (List.mem_cons_of_mem _ stays))
  · rw [knows.pointer]
    exact .written

/-- A block that is cut down keeps the words of the bytes that are still asked for. -/
theorem Knows.cut {k : Nat} (knows : Knows live b) (room : n + 8 ≤ 16 * k) :
    Knows ⟨live.header, k, n, live.payload.take (2 * k - 1)⟩ (b.cut n) := by
  refine ⟨knows.pointer, rfl, fun i word known => ?_⟩
  change (if 8 * (i + 1) ≤ n then b.words i else none) = some word at known
  change (live.payload.take (2 * k - 1))[i]? = some word
  split at known
  · rename_i asked
    rw [List.getElem?_take_of_lt (by omega), knows.words i word known]
  · cases known

theorem Stocks.realloc_zero (stocks : Stocks util state (.used heap) buffers)
    (listed : live ∈ heap.lives util) : Advances util state buffers (.realloc live.pointer 0) := by
  obtain ⟨front, b, back, kept, rfl, knows, old, tracks⟩ := stocks.tracks.find listed
  obtain ⟨heap', memory, runs, valid, described, perm⟩ :=
    sfRealloc_zero stocks.valid stocks.described listed (stocks.roomy live listed)
  have left : ((Shape.used heap').lives util).Perm kept := (perm.symm.trans old).cons_inv
  refine ⟨none, memory, .used heap', front ++ back, runs,
    ⟨⟨valid, described, stocks.erased perm⟩, ?_, tracks.perm left⟩, ?_⟩
  · exact fun other member => stocks.roomy other (perm.mem_iff.mpr (List.mem_cons_of_mem _ member))
  · rw [knows.pointer]
    exact .emptied

theorem Stocks.realloc_less (stocks : Stocks util state (.used heap) buffers)
    (listed : live ∈ heap.lives util) (less : n + 1 ≤ live.requested) :
    Advances util state buffers (.realloc live.pointer (n + 1)) := by
  obtain ⟨front, b, back, kept, rfl, knows, old, tracks⟩ := stocks.tracks.find listed
  obtain ⟨heap', memory, k, others, runs, valid, described, before, added, room⟩ :=
    sfRealloc_kept stocks.valid stocks.described listed (stocks.roomy live listed)
      (Nat.succ_pos n) less
  have same : others.Perm kept := (before.symm.trans old).cons_inv
  refine ⟨_, memory, .used heap', front ++ b.cut (n + 1) :: back, runs,
    ⟨⟨valid, described, ?_⟩, ?_,
      (Tracks.insert (knows.cut room) tracks).perm (added.trans (same.cons _))⟩, ?_⟩
  · exact (stocks.replaced before).trans (added.map Live.pointer).symm
  · intro other member
    rcases List.mem_cons.mp (added.mem_iff.mp member) with rfl | stays
    · exact room
    · exact stocks.roomy other (before.mem_iff.mpr (List.mem_cons_of_mem _ stays))
  · rw [knows.pointer]
    exact .cut (Nat.succ_pos n) (knows.requested ▸ less)

theorem Stocks.realloc_more (stocks : Stocks util state (.used heap) buffers)
    (listed : live ∈ heap.lives util) (more : live.requested < n + 1)
    (small : n + 1 < 2 ^ 31 - 32)
    (admitted : Admitted util state.memory (.realloc live.pointer (n + 1))) :
    Advances util state buffers (.realloc live.pointer (n + 1)) := by
  obtain ⟨front, b, back, kept, rfl, knows, old, tracks⟩ := stocks.tracks.find listed
  have described : Describes util (heap.picture util) state.memory := stocks.described
  have request : (Call.realloc live.pointer (n + 1)).request state.memory = some (n + 1) := by
    rw [Call.request, (described.inMemory listed).requested]
    exact if_pos more
  have isNeeded := unitsFor_small small
  obtain ⟨result, heap', memory, runs, valid', described', moved⟩ :=
    sfRealloc_moved stocks.valid described listed (stocks.roomy live listed) more isNeeded
      ((admitted (n + 1) request).1 _ isNeeded)
  cases moved with
  | @moved _ new others enough requested before added _ =>
      have same : others.Perm kept := (before.symm.trans old).cons_inv
      have fresh : Knows new (.fresh new.pointer (n + 1)) :=
        ⟨rfl, requested.trans (Nat.mod_eq_of_lt (by omega)), fun i word never => by cases never⟩
      refine ⟨_, memory, .used heap', _, runs, ⟨⟨valid', described', ?_⟩, ?_,
        (Tracks.cons fresh tracks).perm (added.trans (same.cons _))⟩, ?_⟩
      · exact (stocks.replaced before).trans (added.map Live.pointer).symm
      · intro other member
        rcases List.mem_cons.mp (added.mem_iff.mp member) with rfl | stays
        · exact roomy_of_request small (fun _ is => Option.some.inj (is.symm.trans isNeeded)) enough
            requested
        · exact stocks.roomy other (before.mem_iff.mpr (List.mem_cons_of_mem _ stays))
      · rw [knows.pointer]
        exact .moved (knows.requested ▸ more)
          (@Shape.Valid.new util (.used heap') _ _ _ valid' (added.trans (same.cons _)) tracks)
  | enomem same full flag =>
      have lives : heap'.lives util = heap.lives util := same.lives util.first
      have lives' : (Shape.used heap').lives util = (Shape.used heap).lives util := lives
      refine ⟨none, memory, .used heap', front ++ b :: back, runs, ⟨⟨valid', described', ?_⟩, ?_, ?_⟩,
        ?_⟩
      · rw [lives']
        exact stocks.pointers
      · rw [lives']
        exact stocks.roomy
      · rw [lives']
        exact stocks.tracks
      · rw [knows.pointer]
        exact .full (knows.requested ▸ more)

theorem Stocks.advances (stocks : Stocks util state shape buffers) (allowed : Allowed util state call)
    (small : call.Small) : Advances util state buffers call := by
  obtain ⟨legal, admitted⟩ := allowed
  cases call with
  | malloc size => exact stocks.malloc small admitted
  | free pp => exact stocks.free legal
  | assign pp i word => exact stocks.assign legal.1 legal.2.1
  | realloc pp n =>
      obtain ⟨heap, live, rfl, listed, rfl⟩ := stocks.owns legal.1
      cases n with
      | zero => exact stocks.realloc_zero listed
      | succ n =>
          rcases Nat.lt_or_ge live.requested (n + 1) with more | less
          · exact stocks.realloc_more listed more small admitted
          · exact stocks.realloc_less listed less

/-- What is known of the buffers is true of memory, and no two of them share a word. -/
structure Agrees (state : State) (buffers : List Buffer) : Prop where
  pointers : state.pointers.Perm (buffers.map Buffer.pointer)
  sized : ∀ b ∈ buffers, (infoAt state.memory b.pointer).requestedSize.toNat = b.requested
  room : ∀ b ∈ buffers, b.requested ≤ 8 * (payloadEnd state.memory b.pointer - b.pointer)
  apart : buffers.Pairwise fun a b => payloadEnd state.memory a.pointer ≤ b.pointer ∨
    payloadEnd state.memory b.pointer ≤ a.pointer
  known : ∀ b ∈ buffers, ∀ i word, b.words i = some word →
    b.pointer + i < payloadEnd state.memory b.pointer ∧
      state.memory.word (b.pointer + i) = some word

theorem stocks_start : Stocks util (start util) (.empty false) [] :=
  ⟨stands_start, fun _ member => absurd member List.not_mem_nil, .nil⟩

theorem pointers_of_knows (knows : List.Forall₂ Knows lives buffers) :
    lives.map Live.pointer = buffers.map Buffer.pointer := by
  induction knows with
  | nil => rfl
  | cons first others ih => rw [List.map_cons, List.map_cons, first.pointer, ih]

theorem apart_of_knows (knows : List.Forall₂ Knows lives buffers)
    (apart : lives.Pairwise Live.Apart) (here : ∀ live ∈ lives, live.InMemory memory) :
    buffers.Pairwise fun a b => payloadEnd memory a.pointer ≤ b.pointer ∨
      payloadEnd memory b.pointer ≤ a.pointer := by
  have separate : lives.Pairwise fun a b => payloadEnd memory a.pointer ≤ b.pointer ∨
      payloadEnd memory b.pointer ≤ a.pointer := by
    refine apart.imp_of_mem fun first second distinct => ?_
    rw [(here _ first).payloadEnd, (here _ second).payloadEnd]
    unfold Live.Apart at distinct
    unfold Live.pointer
    omega
  have pointers := pointers_of_knows knows
  rw [← List.pairwise_map (f := Live.pointer) (R := fun p q => payloadEnd memory p ≤ q ∨
    payloadEnd memory q ≤ p), pointers, List.pairwise_map] at separate
  exact separate

theorem Stocks.agrees (stocks : Stocks util state shape buffers) : Agrees state buffers := by
  have here : ∀ live ∈ shape.lives util, live.InMemory state.memory :=
    fun live listed => Shape.inMemory stocks.described listed
  constructor
  · obtain ⟨ordered, order, knows⟩ := stocks.tracks
    have same := pointers_of_knows knows
    exact stocks.pointers.trans ((order.map Live.pointer).trans (same ▸ .refl _))
  · intro b member
    obtain ⟨live, listed, knows⟩ := stocks.tracks.mem member
    rw [← knows.pointer, (here live listed).requested, knows.requested]
  · intro b member
    obtain ⟨live, listed, knows⟩ := stocks.tracks.mem member
    have roomy := stocks.roomy live listed
    rw [← knows.pointer, ← knows.requested, (here live listed).payloadEnd]
    unfold Live.Roomy at roomy
    unfold Live.pointer
    omega
  · obtain ⟨ordered, order, knows⟩ := stocks.tracks
    have apart : ordered.Pairwise Live.Apart :=
      (order.pairwise_iff Live.Apart.symm).mp stocks.valid.apart
    exact apart_of_knows knows apart fun live member => here live (order.mem_iff.mpr member)
  · intro b member i word is
    obtain ⟨live, listed, knows⟩ := stocks.tracks.mem member
    have length := stocks.valid.length listed
    have found := knows.words i word is
    obtain ⟨inside, -⟩ := List.getElem?_eq_some_iff.mp found
    rw [← knows.pointer, (here live listed).payloadEnd, (here live listed).payload i inside]
    refine ⟨?_, found⟩
    unfold Live.pointer
    omega

theorem servesAll_of_follows (calls : List Call) (stocks : Stocks util state shape buffers)
    (follows : Runs.Follows (step util) (fun state call => Allowed util state call ∧ call.Small)
      state calls) :
    ∃ final shape' buffers', Runs.run (step util) state calls = some final ∧
      ServesAll buffers calls buffers' ∧ Stocks util final shape' buffers' := by
  induction calls generalizing state shape buffers with
  | nil => exact ⟨state, shape, buffers, rfl, .nil, stocks⟩
  | cons call calls ih =>
      obtain ⟨⟨allowed, small⟩, later⟩ := follows
      obtain ⟨result, memory, shape', buffers', runs, stocks', serves⟩ :=
        stocks.advances allowed small
      have taken : step util state call = some (state.after call result memory) := by
        rw [step, runs]
      obtain ⟨final, shape'', buffers'', goes, rest, ends⟩ := ih stocks' (later _ taken)
      refine ⟨final, shape'', buffers'', ?_, .cons serves rest, ends⟩
      rw [Runs.run, taken, Option.bind_some, goes]

/-- The allocator is a store of buffers: every sequence of calls that grow the heap as it can be
grown returns call by call, does what a store of buffers may do, and leaves memory as the program
knows it. -/
theorem stores_buffers (util : Sfutil) (calls : List Call)
    (follows : Runs.Follows (step util) (fun state call => Allowed util state call ∧ call.Small)
      (start util) calls) :
    ∃ state buffers, Runs.run (step util) (start util) calls = some state ∧
      ServesAll [] calls buffers ∧ Agrees state buffers := by
  obtain ⟨state, shape, buffers, goes, serves, stocks⟩ :=
    servesAll_of_follows calls stocks_start follows
  exact ⟨state, buffers, goes, serves, stocks.agrees⟩

/-- A payload is written and cut down, with another one behind it. -/
theorem stores_buffers_cut : ∃ state buffers,
    Runs.run (step fourPages) (start fourPages)
        [.malloc 100, .malloc 50, .assign 1006 0 7, .realloc 1006 20] = some state ∧
      ServesAll [] [.malloc 100, .malloc 50, .assign 1006 0 7, .realloc 1006 20] buffers ∧
      Agrees state buffers :=
  stores_buffers fourPages _ (@Runs.follows_of_check _ _ _ _ _
    (fun state call => decide (Allowed fourPages state call ∧ call.Small))
    (fun _ _ => of_decide_eq_true) _ (by decide +kernel))

end Audible.Sfmm
