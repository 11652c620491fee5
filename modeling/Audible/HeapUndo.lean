import Audible.HeapOrders

set_option autoImplicit false

/- What `sf_malloc` takes, `sf_free` gives back. -/
namespace Audible.Sfmm

open Cells Returning

variable {util : Sfutil} {heap : Heap} {m : Memory} {before after : List Block}
variable {payload : List Nat} {size units requested needed : Nat}

def writeWords (pp : Nat) : List (Nat × Nat) → HeapM Unit
  | [] => return
  | (i, word) :: writes => do
      store (pp + i) word
      writeWords pp writes

/-- Writes into a payload change its words alone. -/
theorem writeWords_payload (writes : List (Nat × Nat)) (valid : heap.Valid util)
    (described : Describes util (heap.picture util) m)
    (split : heap.blocks = before ++ .live units requested payload :: after)
    (inside : ∀ write ∈ writes, write.1 < payload.length) :
    ∃ (heap' : Heap) (m' : Memory) (payload' : List Nat),
      writeWords (util.place before + 1) writes m = .ok ((), m') ∧ heap'.Valid util ∧
      Describes util (heap'.picture util) m' ∧
      heap'.blocks = before ++ .live units requested payload' :: after := by
  induction writes generalizing heap m payload with
  | nil => exact ⟨heap, m, payload, rfl, valid, described, split⟩
  | cons write writes ih =>
      obtain ⟨heap₁, m₁, is, stores, valid₁, described₁⟩ := @store_payload _ _ _ _ _ _ _ _ write.2 _
        valid described split (inside write (by simp))
      have split₁ : heap₁.blocks =
          before ++ .live units requested (payload.set write.1 write.2) :: after := by rw [is]
      obtain ⟨heap₂, m₂, payload', writes_, rest⟩ := ih valid₁ described₁ split₁
        (fun other member => by
          rw [List.length_set]
          exact inside other (by simp [member]))
      refine ⟨heap₂, m₂, payload', ?_, rest⟩
      rw [writeWords, run_bind stores, writes_]

/-- `sf_malloc` returns a payload, and whatever is written there, `sf_free` leaves the blocks and
the members of the lists as they were. -/
def Undone (util : Sfutil) (heap : Heap) (size : Nat) (m : Memory) : Prop :=
  ∃ pp m₁, sfMalloc util size m = .ok (some pp, m₁) ∧
    ∀ writes : List (Nat × Nat),
      (∀ write ∈ writes, write.1 + 1 < 2 * (infoAt m₁ pp).blockSize.toNat) →
        ∃ (heap' : Heap) (m₂ m₃ : Memory), writeWords pp writes m₁ = .ok ((), m₂) ∧
          sfFree util pp m₂ = .ok ((), m₃) ∧ heap'.Valid util ∧
          Describes util (heap'.picture util) m₃ ∧ SameBlocks heap' heap

/-- A free block large enough for the request, whose size `getNewSize` makes no larger than it. -/
theorem enough_units {entry : Nat × Nat} (valid : heap.Valid util) (room : heap.pages ≤ util.limit)
    (listed : entry ∈ entries heap.lists) (large : size + 8 ≤ entry.2) :
    ∃ needed, unitsFor size = some needed ∧ size + 8 ≤ 16 * needed ∧ 16 * needed ≤ entry.2 ∧
      size % 2 ^ 32 = size := by
  obtain ⟨before, units, after, split, -, is⟩ := frees_split (valid.listed.mem_iff.mp listed)
  have smaller := valid.smaller room
  have fits : 2 ≤ units := valid.fits (.free units) (by simp [split])
  rw [split, unitsOf_append, unitsOf_cons, Block.units] at smaller
  refine ⟨_, @unitsFor_small size (by omega), ?_, ?_, Nat.mod_eq_of_lt (by omega)⟩
  · omega
  · omega

theorem solidPart_of_allocated (last : lastAllocated true before = true) :
    freeEnd before = 0 ∧ solidPart before = before := by
  rcases solidPart_cases before with ⟨none_, same, -⟩ | ⟨units, -, split⟩
  · exact ⟨none_, same⟩
  · rw [split, lastAllocated_concat] at last
    cases last

theorem solidRest_of_solid (solid : Solid after) : freeStart after = 0 ∧ solidRest after = after := by
  rcases solidRest_cases after with ⟨none_, same, -⟩ | ⟨units, -, split⟩
  · exact ⟨none_, same⟩
  · have allocated := solid (.free units) (by rw [split]; rfl)
    cases allocated

/-- Merging what was taken with what was left of the block gives the block back. -/
theorem Taken.merges_back {heap' : Heap} (taken : Taken util heap heap' before units after needed size)
    (split : heap.blocks = before ++ .free units :: after) (apart : NoneAdjacent heap.blocks)
    (enough : needed ≤ units) :
    ∃ large payload rest, heap'.blocks = before ++ .live large (size % 2 ^ 32) payload :: rest ∧
      needed ≤ large ∧
      solidPart before ++ .free (freeEnd before + large + freeStart rest) :: solidRest rest =
        heap.blocks := by
  obtain ⟨payload, blocks⟩ := taken.blocks
  rw [split] at apart
  obtain ⟨noneBefore, sameBefore⟩ := solidPart_of_allocated apart.left
  rw [split, noneBefore, sameBefore]
  simp only [Nat.zero_add]
  split_ifs at blocks with close
  · -- The whole block was taken, and what follows it is allocated.
    obtain ⟨noneAfter, sameAfter⟩ := solidRest_of_solid apart.right
    exact ⟨units, payload, after, blocks, enough, by rw [noneAfter, sameAfter, Nat.add_zero]⟩
  · -- What was left follows the block, and is free.
    refine ⟨needed, payload, _, blocks, le_refl needed, ?_⟩
    have whole : needed + freeStart (.free (units - needed) :: after) = units := by
      rw [freeStart]
      omega
    rw [whole, solidRest]

/-- `sf_free` undoes `sf_malloc`. -/
theorem undone (valid : heap.Valid util) (described : Describes util (heap.picture util) m)
    (nonzero : size ≠ 0) (enough : ∃ entry ∈ entries heap.lists, size + 8 ≤ entry.2) :
    Undone util heap size m := by
  obtain ⟨entry, listed, large⟩ := enough
  obtain ⟨needed, isNeeded, room, fits, same⟩ :=
    enough_units valid described.room listed large
  obtain ⟨before, units, after, heap₁, m₁, split, enough, -, -, runs, valid₁, described₁, taken⟩ :=
    takesBest_of_listed valid described nonzero isNeeded listed fits
  obtain ⟨wide, payload, rest, split₁, covers, back⟩ := taken.merges_back split valid.apart enough
  rw [same] at split₁
  refine ⟨util.place before + 1, m₁, runs, fun writes inside => ?_⟩
  have live := @live_of_split util _ _ _ _ _ _ split₁
  have size_ : (infoAt m₁ (util.place before + 1)).blockSize.toNat = wide :=
    (described₁.inMemory live).size
  have words : payload.length + 1 = 2 * wide :=
    (valid₁.fits (.live wide size payload) (by simp [split₁])).2
  obtain ⟨heap₂, m₂, payload', writes_, valid₂, described₂, split₂⟩ :=
    writeWords_payload writes valid₁ described₁ split₁ fun write member => by
      have := inside write member
      omega
  obtain ⟨heap₃, m₃, frees, valid₃, described₃, merged⟩ :=
    frees_of_room valid₂ described₂ split₂ (by omega)
  exact ⟨heap₃, m₂, m₃, writes_, frees, valid₃, described₃,
    valid₃.sameBlocks valid (merged.blocks.trans back)⟩

/-- A block of 112 bytes is split for 50 bytes, and is whole again. -/
theorem undone_split : ∃ (state : State) (heap : Heap),
    Runs.run (step fourPages) (start fourPages)
        [.malloc 100, .malloc 20, .malloc 100, .malloc 20, .free 1006, .free 1024] = some state ∧
      heap.Valid fourPages ∧ Describes fourPages (heap.picture fourPages) state.memory ∧
      Undone fourPages heap 50 state.memory := by
  obtain ⟨state, heap, header, taken, -, valid, described, entry⟩ := @exists_listed fourPages 112
    [.malloc 100, .malloc 20, .malloc 100, .malloc 20, .free 1006, .free 1024] 1020
    (by decide +kernel) (by decide +kernel)
  exact ⟨state, heap, taken, valid, described,
    undone valid described (by decide) ⟨_, entry, by simp⟩⟩

/-- For no bytes there is nothing to give back. -/
theorem not_always_undone :
    ¬ ∀ state, Runs.Reachable (step fourPages) (Allowed fourPages) (start fourPages) state →
      ∀ (heap : Heap) (size : Nat), heap.Valid fourPages →
        Describes fourPages (heap.picture fourPages) state.memory →
        (∃ entry ∈ entries heap.lists, size + 8 ≤ entry.2) →
          Undone fourPages heap size state.memory := by
  intro always
  obtain ⟨state, heap, header, -, reached, valid, described, entry⟩ := @exists_listed fourPages 112
    [.malloc 100, .malloc 20, .free 1006] 1020 (by decide +kernel) (by decide +kernel)
  obtain ⟨pp, m₁, runs, -⟩ :=
    always state reached heap 0 valid described ⟨_, entry, by simp⟩
  have none_ : sfMalloc fourPages 0 state.memory = .ok (none, state.memory) := rfl
  rw [none_] at runs
  cases runs

end Audible.Sfmm
