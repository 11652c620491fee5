import Audible.HeapRuns

set_option autoImplicit false

/- What calls leave alone, and what they promise of the blocks they return. -/
namespace Audible.Sfmm

open Cells Returning

variable {util : Sfutil} {state : State} {shape shape' : Shape} {heap : Heap} {live : Live}
variable {memory memory' : Memory} {call : Call} {result : Option Nat} {size needed pp q n : Nat}

def payloadEnd (memory : Memory) (pp : Nat) : Nat :=
  pp - 1 + 2 * (infoAt memory pp).blockSize.toNat

theorem Live.InMemory.payloadEnd (here : live.InMemory memory) :
    payloadEnd memory live.pointer = live.header + 2 * live.units := by
  rw [Sfmm.payloadEnd, here.size, Live.pointer, Nat.add_sub_cancel]

/-- A block has its size, its requested size and the words of its payload as before. -/
structure Unchanged (memory memory' : Memory) (pp : Nat) : Prop where
  size : (infoAt memory' pp).blockSize = (infoAt memory pp).blockSize
  requested : (infoAt memory' pp).requestedSize = (infoAt memory pp).requestedSize
  payload : ∀ a, pp ≤ a → a < payloadEnd memory pp → memory'.word a = memory.word a

theorem Live.InMemory.unchanged (before : live.InMemory memory) (after : live.InMemory memory')
    (length : live.payload.length + 1 = 2 * live.units) : Unchanged memory memory' live.pointer where
  size := BitVec.eq_of_toNat_eq (after.size.trans before.size.symm)
  requested := BitVec.eq_of_toNat_eq (after.requested.trans before.requested.symm)
  payload := by
    intro a lower upper
    rw [before.payloadEnd] at upper
    obtain ⟨i, rfl⟩ := Nat.exists_eq_add_of_le lower
    have inside : i < live.payload.length := by
      unfold Live.pointer at upper
      omega
    rw [before.payload i inside, after.payload i inside]

theorem Shape.Valid.length (valid : shape.Valid util) (member : live ∈ shape.lives util) :
    live.payload.length + 1 = 2 * live.units := by
  cases shape with
  | empty enomem => cases member
  | used heap => exact (lives_bounds (Heap.Valid.fits valid) member).2.2.2

theorem Shape.Valid.apart (valid : shape.Valid util) :
    (shape.lives util).Pairwise Live.Apart := by
  cases shape with
  | empty enomem => exact .nil
  | used heap => exact lives_apart (Heap.Valid.fits valid)

theorem Shape.inMemory (described : Describes util (shape.picture util) memory)
    (member : live ∈ shape.lives util) : live.InMemory memory := by
  cases shape with
  | empty enomem => cases member
  | used heap => exact described.inMemory member

/-- A call leaves the other blocks alone, and a block it returns has its payload to itself. -/
structure Isolated (util : Sfutil) (state : State) (call : Call) (result : Option Nat)
    (memory : Memory) : Prop where
  kept : ∀ pp ∈ state.pointers, call.argument ≠ some pp → Unchanged state.memory memory pp
  apart : ∀ q, result = some q → ∀ pp ∈ state.pointers, call.argument ≠ some pp →
    payloadEnd memory q ≤ pp ∨ payloadEnd memory pp ≤ q
  unused : ∀ q, result = some q → ∃ heap : Heap, heap.Valid util ∧
    Describes util (heap.picture util) memory ∧
    ∀ x ∈ heap.inUse util, x < q ∨ payloadEnd memory q ≤ x

/-- A block that a call is not about is kept. -/
theorem kept_of_effect {lives gone kept : List Live} {argument : Option Nat}
    (old : lives.Perm (gone ++ kept)) (taken : ∀ live ∈ gone, argument = some live.pointer)
    (member : live ∈ lives) (other : argument ≠ some live.pointer) : live ∈ kept := by
  rcases List.mem_append.mp (old.mem_iff.mp member) with left | stays
  · exact absurd (taken live left) other
  · exact stays

theorem isolated_of_allowed
    (reached : Runs.Reachable (step util) (Allowed util) (start util) state)
    (allowed : Allowed util state call)
    (runs : call.run util state.memory = .ok (result, memory)) :
    Isolated util state call result memory := by
  obtain ⟨shape, stands⟩ := stands_of_reachable reached
  obtain ⟨shape', stands', ⟨gone, added, kept, old, new, taken, made⟩, -⟩ :=
    returned_of_runs stands allowed runs
  have described : Describes util (shape'.picture util) memory := stands'.described
  have owned : ∀ pp ∈ state.pointers, call.argument ≠ some pp →
      ∃ live ∈ kept, live ∈ shape.lives util ∧ live ∈ shape'.lives util ∧ live.pointer = pp := by
    intro pp member other
    obtain ⟨live, listed, rfl⟩ := List.mem_map.mp (stands.pointers.mem_iff.mp member)
    have stays := kept_of_effect old taken listed other
    exact ⟨live, stays, listed, new.mem_iff.mpr (List.mem_append_right _ stays), rfl⟩
  constructor
  · intro pp member other
    obtain ⟨live, -, listed, stays, rfl⟩ := owned pp member other
    exact (Shape.inMemory stands.described listed).unchanged
      (Shape.inMemory described stays) (stands.valid.length listed)
  · intro q is pp member other
    obtain ⟨live, stays, -, listed, rfl⟩ := owned pp member other
    obtain ⟨block, isAdded, rfl⟩ := made q is
    have present := new.mem_iff.mpr (List.mem_append_left kept isAdded)
    have apart : block.Apart live := by
      have pairs := (new.pairwise_iff Live.Apart.symm).mp (stands'.valid.apart)
      exact (List.pairwise_append.mp pairs).2.2 block isAdded live stays
    rw [(Shape.inMemory described present).payloadEnd, (Shape.inMemory described listed).payloadEnd]
    unfold Live.Apart at apart
    unfold Live.pointer
    omega
  · intro q is
    obtain ⟨block, isAdded, rfl⟩ := made q is
    have present := new.mem_iff.mpr (List.mem_append_left kept isAdded)
    rw [(Shape.inMemory described present).payloadEnd]
    cases shape' with
    | empty enomem => cases present
    | used heap =>
        exact ⟨heap, stands'.valid, described,
          fun x used => Heap.Valid.payload_apart stands'.valid described present used⟩

/-- A block is moved past another one. -/
theorem isolated_move : ∃ state result memory,
    Runs.run (step fourPages) (start fourPages) [.malloc 100, .malloc 50] = some state ∧
      (Call.realloc 1006 500).run fourPages state.memory = .ok (result, memory) ∧
        Isolated fourPages state (.realloc 1006 500) result memory := by
  obtain ⟨state, taken, reached, passed⟩ := exists_allowed fourPages [.malloc 100, .malloc 50]
    (by decide +kernel) (fun state => decide (Allowed fourPages state (.realloc 1006 500)) &&
      (step fourPages state (.realloc 1006 500)).isSome) (by decide +kernel)
  rw [Bool.and_eq_true] at passed
  obtain ⟨next, moves⟩ := Option.isSome_iff_exists.mp passed.2
  obtain ⟨result, memory, runs, -⟩ := step_some moves
  exact ⟨state, result, memory, taken, runs,
    isolated_of_allowed reached (of_decide_eq_true passed.1) runs⟩

/-- A block that is on its list twice is returned twice. -/
theorem not_always_isolated : ¬ ∀ state, Runs.Reachable (step fourPages) Legal (start fourPages) state →
    ∀ call result memory, Legal state call → call.run fourPages state.memory = .ok (result, memory) →
      Isolated fourPages state call result memory := by
  refine Runs.not_forall_reachable [.malloc 16000, .malloc 100, .malloc 250, .malloc 192] ?_
    (fun state => returnsWith (sfMalloc fourPages 192 state.memory) fun result memory =>
      result.any fun q => decide (q ∈ state.pointers ∧ q < payloadEnd memory q))
    (by decide +kernel) ?_
  · exact Runs.follows_of_check (fun _ _ => of_decide_eq_true) _ (by decide +kernel)
  · intro state passes always
    obtain ⟨result, memory, runs, returned⟩ := of_returnsWith passes
    obtain ⟨q, rfl, inside⟩ := (Option.any_eq_true _ _).mp returned
    obtain ⟨member, some_⟩ := of_decide_eq_true inside
    have isolated := always (.malloc 192) (some q) memory (show 192 < 2 ^ 64 by decide) runs
    have other : (Call.malloc 192).argument ≠ some q := by simp [Call.argument]
    have apart := isolated.apart q rfl q member other
    omega

/-- The block is aligned, large enough, and says what was requested. -/
structure BigEnough (memory : Memory) (size p : Nat) : Prop where
  aligned : p % 2 = 0
  multiple : (infoAt memory p).bytes % 16 = 0
  room : (size : Int) ≤ (infoAt memory p).bytes - 8
  requested : (infoAt memory p).requestedSize.toNat = size

/-- A size up to the last one that is rounded up to less than `2 ^ 31`. -/
theorem unitsFor_enough (fits : size ≤ 2147483624) :
    ∃ needed, unitsFor size = some needed ∧ size + 8 ≤ 16 * needed := by
  have exact_ : ((8 + size : Nat) : Int).bmod (2 ^ 32) = 8 + size := by
    rw [Int.bmod_eq_of_le] <;> omega
  unfold unitsFor
  rw [exact_]
  dsimp only
  split
  · exact ⟨_, rfl, by omega⟩
  · rw [if_pos (by omega)]
    exact ⟨_, rfl, by omega⟩

theorem lives_small {heap : Heap} (valid : heap.Valid util)
    (described : Describes util (heap.picture util) memory) (member : live ∈ heap.lives util) :
    live.units < 2 ^ 27 := by
  have pages : heap.pages ≤ util.limit := described.room
  have small := valid.smaller pages
  obtain ⟨lower, upper, -⟩ := lives_bounds valid.fits member
  omega

/-- A payload follows the header of a block, which starts at an odd word. -/
theorem pointer_aligned {heap : Heap} (member : live ∈ heap.lives util) : live.pointer % 2 = 0 := by
  obtain ⟨before, -, -, place⟩ := lives_split member
  have aligned := util.aligned
  rw [Live.pointer, place, Sfutil.first]
  omega

theorem bigEnough_iff (reached : Runs.Reachable (step util) (Allowed util) (start util) state)
    (allowed : Allowed util state (.malloc size))
    (runs : sfMalloc util size state.memory = .ok (some q, memory)) :
    BigEnough memory size q ↔ size ≤ 2147483624 := by
  obtain ⟨shape, stands⟩ := stands_of_reachable reached
  have nonzero : size ≠ 0 := by
    rintro rfl
    rw [sfMalloc, sfMallocWith, if_pos rfl] at runs
    cases runs
  obtain ⟨needed, result, shape', memory', isNeeded, allocates, valid, described, served⟩ :=
    sfMalloc_called nonzero stands.valid stands.described (allowed.2 size (if_neg nonzero))
  rw [allocates] at runs
  cases runs
  cases served with
  | @block _ live enough requested added _ =>
      have member : live ∈ shape'.lives util := added.mem_iff.mpr List.mem_cons_self
      have here := Shape.inMemory described member
      cases shape' with
      | empty enomem => cases member
      | used heap =>
          have small := lives_small valid described member
          have bytes := Info.bytes_eq here.size small
          constructor
          · intro big
            have room := big.room
            rw [bytes] at room
            omega
          · intro fits
            obtain ⟨units, isUnits, large⟩ := unitsFor_enough fits
            obtain rfl := isNeeded units isUnits
            refine ⟨pointer_aligned member, ?_, ?_, ?_⟩
            · rw [bytes]
              omega
            · rw [bytes]
              omega
            · rw [here.requested, requested]
              omega

theorem bigEnough_second : ∃ state q memory,
    Runs.run (step fourPages) (start fourPages) [.malloc 100] = some state ∧
      sfMalloc fourPages 300 state.memory = .ok (some q, memory) ∧
        (BigEnough memory 300 q ↔ 300 ≤ 2147483624) := by
  obtain ⟨state, taken, reached, passed⟩ := exists_allowed fourPages [.malloc 100]
    (by decide +kernel) (fun state => decide (Allowed fourPages state (.malloc 300)) &&
      returnsWith (sfMalloc fourPages 300 state.memory) fun result _ => result.isSome)
    (by decide +kernel)
  rw [Bool.and_eq_true] at passed
  obtain ⟨result, memory, runs, returned⟩ := of_returnsWith passed.2
  obtain ⟨q, rfl⟩ := Option.isSome_iff_exists.mp returned
  exact ⟨state, q, memory, taken, runs, bigEnough_iff reached (of_decide_eq_true passed.1) runs⟩

/-- A request for `2 ^ 31` bytes gets a block of 32. -/
theorem not_always_bigEnough :
    ¬ ∀ state, Runs.Reachable (step fourPages) Legal (start fourPages) state →
      ∀ size q memory, size < 2 ^ 64 →
        sfMalloc fourPages size state.memory = .ok (some q, memory) → BigEnough memory size q := by
  refine Runs.not_forall_reachable [] trivial (fun state =>
    returnsWith (sfMalloc fourPages (2 ^ 31) state.memory) fun result memory =>
      result.any fun q => (infoAt memory q).bytes == 32) (by decide +kernel) ?_
  intro state passes always
  obtain ⟨result, memory, runs, returned⟩ := of_returnsWith passes
  obtain ⟨q, rfl, small⟩ := (Option.any_eq_true _ _).mp returned
  have room := (always (2 ^ 31) q memory (by decide) runs).room
  rw [eq_of_beq small] at room
  omega

def byteAt (memory : Memory) (pp i : Nat) : Nat :=
  (memory.word (pp + i / 8)).getD 0 / 256 ^ (i % 8) % 256

/-- The bytes at the start of a payload that is cut down. -/
theorem Live.InMemory.bytes_of_take {k : Nat} (before : live.InMemory memory)
    (after : (⟨live.header, k, n, live.payload.take (2 * k - 1)⟩ : Live).InMemory memory')
    (length : (live.payload.take (2 * k - 1)).length + 1 = 2 * k) (room : n + 8 ≤ 16 * k) :
    ∀ i < n, byteAt memory' live.pointer i = byteAt memory live.pointer i := by
  intro i inside
  have small : i / 8 < 2 * k - 1 := by omega
  have within : i / 8 < (live.payload.take (2 * k - 1)).length := by omega
  have now := after.payload (i / 8) within
  change memory'.word (live.pointer + i / 8) = (live.payload.take (2 * k - 1))[i / 8]? at now
  rw [List.getElem?_take_of_lt small] at now
  rw [byteAt, byteAt, now,
    before.payload (i / 8) (Nat.lt_of_lt_of_le within (List.length_take_le' _ _))]

/-- A request that is not larger leaves the bytes where they are. -/
theorem bytes_kept (reached : Runs.Reachable (step util) (Allowed util) (start util) state)
    (owned : pp ∈ state.pointers) (positive : 0 < n)
    (less : n ≤ (infoAt state.memory pp).requestedSize.toNat ∨
      (infoAt state.memory pp).requestedSize.toNat = 0)
    (runs : sfRealloc util pp n state.memory = .ok (some q, memory)) :
    ∀ i < min (infoAt state.memory pp).requestedSize.toNat n,
      byteAt memory q i = byteAt state.memory pp i := by
  rcases less with less | none
  · obtain ⟨shape, stands⟩ := stands_of_reachable reached
    obtain ⟨heap, live, rfl, listed, rfl⟩ := stands.owns owned
    have valid : heap.Valid util := stands.valid
    have described : Describes util (heap.picture util) state.memory := stands.described
    have here := described.inMemory listed
    rw [here.requested] at less ⊢
    by_cases roomy : live.Roomy
    · obtain ⟨heap', memory', k, kept, runs', valid', described', -, added, room⟩ :=
        sfRealloc_kept valid described listed roomy positive less
      rw [runs'] at runs
      cases runs
      have present : (⟨live.header, k, n, live.payload.take (2 * k - 1)⟩ : Live) ∈ heap'.lives util :=
        added.mem_iff.mpr List.mem_cons_self
      rw [min_eq_right less]
      have bounds := lives_bounds valid'.fits present
      exact here.bytes_of_take (described'.inMemory present) bounds.2.2.2 room
    · rw [sfRealloc_small (sfAbort_small valid described listed roomy)] at runs
      cases runs
  · rw [none]
    intro i inside
    omega

theorem bytes_kept_shrink : ∃ state q memory,
    Runs.run (step fourPages) (start fourPages) [.malloc 100, .assign 1006 0 7] = some state ∧
      sfRealloc fourPages 1006 20 state.memory = .ok (some q, memory) ∧
        ∀ i < min (infoAt state.memory 1006).requestedSize.toNat 20,
          byteAt memory q i = byteAt state.memory 1006 i := by
  obtain ⟨state, taken, reached, passed⟩ := exists_allowed fourPages [.malloc 100, .assign 1006 0 7]
    (by decide +kernel) (fun state =>
      decide (1006 ∈ state.pointers ∧ 20 ≤ (infoAt state.memory 1006).requestedSize.toNat) &&
        returnsWith (sfRealloc fourPages 1006 20 state.memory) fun result _ => result.isSome)
    (by decide +kernel)
  rw [Bool.and_eq_true] at passed
  obtain ⟨shrinks, returns⟩ := passed
  obtain ⟨owned, less⟩ := of_decide_eq_true shrinks
  obtain ⟨result, memory, runs, returned⟩ := of_returnsWith returns
  obtain ⟨q, rfl⟩ := Option.isSome_iff_exists.mp returned
  exact ⟨state, q, memory, taken, runs, bytes_kept reached owned (by decide) (.inl less) runs⟩

/-- A larger request gets a block to which nothing is copied. -/
theorem not_always_bytes_kept :
    ¬ ∀ state, Runs.Reachable (step fourPages) Legal (start fourPages) state →
      ∀ pp n q memory, pp ∈ state.pointers → 0 < n →
        sfRealloc fourPages pp n state.memory = .ok (some q, memory) →
          ∀ i < min (infoAt state.memory pp).requestedSize.toNat n,
            byteAt memory q i = byteAt state.memory pp i := by
  refine Runs.not_forall_reachable [.malloc 8, .assign 1006 0 5] ?_ (fun state =>
    decide (1006 ∈ state.pointers ∧ 0 < (infoAt state.memory 1006).requestedSize.toNat) &&
      returnsWith (sfRealloc fourPages 1006 100 state.memory) fun result memory =>
        result.any fun q => byteAt memory q 0 != byteAt state.memory 1006 0) (by decide +kernel) ?_
  · exact Runs.follows_of_check (fun _ _ => of_decide_eq_true) _ (by decide +kernel)
  · intro state passes always
    rw [Bool.and_eq_true] at passes
    obtain ⟨owned, differs⟩ := passes
    obtain ⟨owned, some_⟩ := of_decide_eq_true owned
    obtain ⟨result, memory, runs, returned⟩ := of_returnsWith differs
    obtain ⟨q, rfl, other⟩ := (Option.any_eq_true _ _).mp returned
    have same := always 1006 100 q memory owned (by decide) runs 0 (by omega)
    rw [same, bne_self_eq_false] at other
    cases other

/-- A live block has its header and payload as before. -/
structure Untouched (memory memory' : Memory) (pp : Nat) : Prop extends Unchanged memory memory' pp where
  allocated : (infoAt memory' pp).allocated = (infoAt memory pp).allocated
  prevAllocated : (infoAt memory' pp).prevAllocated = (infoAt memory pp).prevAllocated

/-- The bytes of the prologue and the epilogue, if the first page is among the new ones. -/
def sentinelBytes (pages pages' : Nat) : Nat := if pages = 0 ∧ pages' ≠ 0 then 48 else 0

/-- What a failed call leaves: the live blocks, all free blocks on their lists, and more free bytes
by those of the new pages, but for the prologue and epilogue of a new heap. -/
structure Intact (util : Sfutil) (state : State) (memory : Memory) : Prop where
  errno : memory.enomem = true
  blocks : ∀ pp ∈ state.pointers, Untouched state.memory memory pp
  lists : ∃ shape shape' : Shape, Stands util state shape ∧
    Stands util { state with memory := memory } shape' ∧
    shape'.freeBytes util + 4096 * state.memory.pages +
        sentinelBytes state.memory.pages memory.pages =
      shape.freeBytes util + 4096 * memory.pages

theorem Describes.header {before after : List Block} {units requested : Nat} {payload : List Nat}
    (described : Describes util (heap.picture util) memory)
    (split : heap.blocks = before ++ .live units requested payload :: after) :
    (infoAt memory (util.place before + 1)).prevAllocated = lastAllocated true before := by
  have holds := described.holds
  rw [Heap.picture_live split] at holds
  obtain ⟨w, here, tag⟩ := holds.read
  rw [infoAt, Nat.add_sub_cancel, Sfutil.place, here]
  exact tag.prevAllocated

/-- The header of a live block, where only free blocks at the end differ. -/
theorem Extends.untouched {heap heap' : Heap} (same : Extends heap.blocks heap'.blocks)
    (valid : heap.Valid util) (described : Describes util (heap.picture util) memory)
    (described' : Describes util (heap'.picture util) memory') (member : live ∈ heap.lives util) :
    Untouched memory memory' live.pointer := by
  have member' : live ∈ heap'.lives util := by
    rw [Heap.lives, same.lives]
    exact member
  have here := described.inMemory member
  have there := described'.inMemory member'
  refine ⟨here.unchanged there (lives_bounds valid.fits member).2.2.2,
    there.allocated.trans here.allocated.symm, ?_⟩
  obtain ⟨before, tail, tail', was, is, free⟩ := same
  rw [List.forall_mem_append] at free
  have inside : live ∈ Sfmm.lives util.first before := by
    have whole := member
    rw [Heap.lives, was, lives_append, lives_free free.1, List.append_nil] at whole
    exact whole
  obtain ⟨first, last, split, place⟩ := lives_split inside
  have pointer : live.pointer = util.place first + 1 := by rw [Live.pointer, place, Sfutil.place]
  rw [split, List.append_assoc, List.cons_append] at was is
  rw [pointer, described.header was, described'.header is]

/-- A failed call. -/
theorem Stands.intact (stands : Stands util state shape) (valid : shape'.Valid util)
    (described : Describes util (shape'.picture util) memory)
    (same : Extends shape.blocks shape'.blocks) (full : (shape'.picture util).pages = util.limit)
    (flag : (shape'.picture util).enomem = true) : Intact util state memory where
  errno := described.enomem.trans flag
  blocks := by
    intro pp member
    obtain ⟨heap, live, rfl, listed, rfl⟩ := stands.owns member
    cases shape' with
    | empty enomem =>
        have none : heap.lives util = [] := (same.lives util.first).symm
        exact absurd listed (by rw [none]; exact List.not_mem_nil)
    | used heap' => exact same.untouched stands.valid stands.described described listed
  lists := by
    refine ⟨shape, shape', stands, ⟨valid, described, ?_⟩, ?_⟩
    · rw [same.shape]
      exact stands.pointers
    · have pages := stands.described.pages
      have pages' := described.pages
      rw [pages, pages']
      have lives : shape'.lives util = shape.lives util := same.shape
      cases shape with
      | empty enomem =>
          cases shape' with
          | empty enomem' => rfl
          | used heap' =>
              have total := Heap.Valid.freeBytes valid
              have none : heap'.lives util = [] := lives
              rw [none] at total
              have made : heap'.pages ≠ 0 := by omega
              have own : sentinelBytes 0 heap'.pages = 48 := if_pos ⟨rfl, made⟩
              show heap'.freeBytes util + 4096 * 0 + sentinelBytes 0 heap'.pages =
                0 + 4096 * heap'.pages
              simp only [List.map_nil, List.sum_nil] at total
              omega
      | used heap =>
          have total := Heap.Valid.freeBytes stands.valid
          have used : heap.pages ≠ 0 := by omega
          cases shape' with
          | empty enomem =>
              have room : heap.pages ≤ util.limit := stands.described.room
              have zero : 0 = util.limit := full
              omega
          | used heap' =>
              have total' := Heap.Valid.freeBytes valid
              rw [show heap'.lives util = heap.lives util from lives] at total'
              have own : sentinelBytes heap.pages heap'.pages = 0 := if_neg fun both => used both.1
              show heap'.freeBytes util + 4096 * heap.pages + sentinelBytes heap.pages heap'.pages =
                heap.freeBytes util + 4096 * heap'.pages
              omega

/-- Where `sf_malloc` has no page left it is NULL that is returned, and the heap is intact. -/
theorem failed_intact (reached : Runs.Reachable (step util) (Allowed util) (start util) state)
    (allowed : Allowed util state call) (request : call.request state.memory = some size)
    (runs : call.run util state.memory = .ok (result, memory))
    (fails : result = none ∨ memory.enomem ≠ state.memory.enomem) :
    result = none ∧ Intact util state memory := by
  obtain ⟨shape, stands⟩ := stands_of_reachable reached
  cases call with
  | malloc other =>
      rw [Call.request, Option.ite_none_left_eq_some, Option.some.injEq] at request
      obtain ⟨nonzero, rfl⟩ := request
      obtain ⟨needed, result', shape', memory', -, runs', valid, described, served⟩ :=
        sfMalloc_called nonzero stands.valid stands.described (allowed.2 other (if_neg nonzero))
      rw [Call.run, runs'] at runs
      cases runs
      cases served with
      | block enough requested added errno =>
          have same : memory.enomem = state.memory.enomem :=
            described.enomem.trans (errno.trans stands.described.enomem.symm)
          exact absurd same (fails.resolve_left (Option.some_ne_none _))
      | enomem same full flag => exact ⟨rfl, stands.intact valid described same full flag⟩
  | realloc pp rsize =>
      rw [Call.request, Option.ite_none_right_eq_some, Option.some.injEq] at request
      obtain ⟨more, rfl⟩ := request
      obtain ⟨heap, live, rfl, listed, rfl⟩ := stands.owns allowed.1.1
      have valid : heap.Valid util := stands.valid
      have described : Describes util (heap.picture util) state.memory := stands.described
      have requested := (described.inMemory listed).requested
      by_cases roomy : live.Roomy
      · obtain ⟨admits, wraps⟩ := allowed.2 rsize (if_pos more)
        obtain ⟨needed, isNeeded⟩ : ∃ needed, unitsFor rsize = some needed :=
          Option.ne_none_iff_exists'.mp fun none => pages_ne_zero valid described (wraps none)
        obtain ⟨result', heap', memory', runs', valid', described', moved⟩ :=
          sfRealloc_moved valid described listed roomy (requested ▸ more) isNeeded
            (admits needed isNeeded)
        rw [Call.run, runs'] at runs
        cases runs
        cases moved with
        | moved enough requested old added errno =>
            have same : memory.enomem = state.memory.enomem :=
              described'.enomem.trans (errno.trans described.enomem.symm)
            exact absurd same (fails.resolve_left (Option.some_ne_none _))
        | enomem same full flag =>
            exact ⟨rfl, @Stands.intact util state (.used heap) (.used heap') memory stands valid'
              described' same full flag⟩
      · rw [Call.run, sfRealloc_small (sfAbort_small valid described listed roomy)] at runs
        cases runs
  | free pp => cases request
  | assign pp i word => cases request

/-- The heap grows by its last page before the call fails. -/
theorem failed_intact_grown : ∃ state memory,
    Runs.run (step fourPages) (start fourPages) [.malloc 10000, .free 1006, .malloc 10000] =
        some state ∧
      (Call.malloc 9000).run fourPages state.memory = .ok (none, memory) ∧
        (none : Option Nat) = none ∧ Intact fourPages state memory := by
  obtain ⟨state, taken, reached, passed⟩ := exists_allowed fourPages
    [.malloc 10000, .free 1006, .malloc 10000] (by decide +kernel)
    (fun state => decide (Allowed fourPages state (.malloc 9000)) &&
      returnsWith ((Call.malloc 9000).run fourPages state.memory) fun result _ => result.isNone)
    (by decide +kernel)
  rw [Bool.and_eq_true] at passed
  obtain ⟨result, memory, runs, returned⟩ := of_returnsWith passed.2
  obtain rfl := Option.isNone_iff_eq_none.mp returned
  exact ⟨state, memory, taken, runs,
    failed_intact reached (of_decide_eq_true passed.1) rfl runs (.inl rfl)⟩

theorem Shape.Valid.freeBytes_le (valid : shape.Valid util) :
    shape.freeBytes util + sentinelBytes 0 (shape.picture util).pages ≤
      4096 * (shape.picture util).pages := by
  cases shape with
  | empty enomem => exact Nat.le_refl _
  | used heap =>
      have total := Heap.Valid.freeBytes valid
      have made : heap.pages ≠ 0 := by omega
      have own : sentinelBytes 0 heap.pages = 48 := if_pos ⟨rfl, made⟩
      show heap.freeBytes util + sentinelBytes 0 heap.pages ≤ 4096 * heap.pages
      omega

/-- A first call that fails leaves fewer free bytes than there are in its pages. -/
theorem failed_first : ∃ memory,
    (Call.malloc 20000).run fourPages (start fourPages).memory = .ok (none, memory) ∧
      ¬ ∃ shape shape' : Shape, Stands fourPages (start fourPages) shape ∧
        Stands fourPages { start fourPages with memory := memory } shape' ∧
        shape'.freeBytes fourPages + 4096 * (start fourPages).memory.pages =
          shape.freeBytes fourPages + 4096 * memory.pages := by
  have passes : returnsWith ((Call.malloc 20000).run fourPages (start fourPages).memory)
      (fun result memory => result.isNone && memory.pages == 4) = true := by decide +kernel
  obtain ⟨result, memory, runs, returned⟩ := of_returnsWith passes
  rw [Bool.and_eq_true] at returned
  obtain rfl := Option.isNone_iff_eq_none.mp returned.1
  have four : memory.pages = 4 := eq_of_beq returned.2
  refine ⟨memory, runs, ?_⟩
  rintro ⟨shape, shape', stands, stands', total⟩
  have pages : (shape'.picture fourPages).pages = 4 := stands'.described.pages.symm.trans four
  have most := stands'.valid.freeBytes_le
  have own : sentinelBytes 0 4 = 48 := rfl
  rw [pages, own] at most
  have none : (start fourPages).memory.pages = 0 := rfl
  rw [four, none] at total
  omega

end Audible.Sfmm
