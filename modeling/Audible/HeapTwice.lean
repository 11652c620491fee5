import Audible.HeapLaws

set_option autoImplicit false

/- Payloads that are freed a second time. -/
namespace Audible.Sfmm

open Cells Returning

variable {util : Sfutil} {heap : Heap} {m m' : Memory} {live : Live}
variable {before after : List Block} {payload : List Nat} {units more requested q : Nat}
variable {p : Picture} {rest : Multiset (Nat × (Nat → Prop))}

/-- The words of a block that has been merged with the free one of `more` units before it, behind its
header: what was the header of the block and the footer before it are among them. -/
def staleCells (q more units requested : Nat) : Multiset (Nat × (Nat → Prop)) :=
  raw Nat (q + 1) + raw Nat (q + 2) + (raws Nat (q + 3) (2 * more - 4) +
    (tagged (q + 2 * more - 1) (Tag false true more) +
      wholeCells (q + 2 * more) units (LiveTag false units requested)))

/-- The old header still says where the block after it is. -/
theorem reads_stale : Does util
    (p.at (tagged q (Tag false true (more + units)) + staleCells q more units requested + rest))
    (getNextHeaderPointer (q + 2 * more)) (q + 2 * (more + units))
    (p.at (tagged q (Tag false true (more + units)) + staleCells q more units requested + rest)) := by
  have next : q + 2 * (more + units) = q + 2 * more + 2 * units := by omega
  have place : tagged q (Tag false true (more + units)) + staleCells q more units requested + rest =
      tagged (q + 2 * more) (LiveTag false units requested) +
        (tagged q (Tag false true (more + units)) + (raw Nat (q + 1) + raw Nat (q + 2) +
          (raws Nat (q + 3) (2 * more - 4) + (tagged (q + 2 * more - 1) (Tag false true more) +
            (raws Nat (q + 2 * more + 1) (2 * units - 1) + rest))))) := by
    rw [staleCells, wholeCells]
    abel
  rw [place, next]
  exact does_getNextHeaderPointer LiveTag.size_eq

/-- The last word of the merged block is its own, or that of the free block after it. -/
theorem staleCells_last (k : Nat) (some : 0 < units) :
    staleCells q more units requested + raws Nat (q + 2 * (more + units)) (2 * k) =
      raw Nat (q + 1) + raw Nat (q + 2) + (raw Nat (q + 2 * (more + units + k) - 1) +
        (raws Nat (q + 3) (2 * more - 4) + raws Nat (q + 2 * more + 1) (2 * (units + k) - 2) +
          (tagged (q + 2 * more) (LiveTag false units requested) +
            tagged (q + 2 * more - 1) (Tag false true more)))) := by
  have ends : raws Nat (q + 2 * more + 1) (2 * units - 1) +
        raws Nat (q + 2 * (more + units)) (2 * k) =
      raws Nat (q + 2 * more + 1) (2 * (units + k) - 2) +
        raw Nat (q + 2 * (more + units + k) - 1) := by
    have first : q + 2 * (more + units) = q + 2 * more + 1 + (2 * units - 1) := by omega
    have count : 2 * units - 1 + 2 * k = 2 * (units + k) - 2 + 1 := by omega
    have last : q + 2 * (more + units + k) - 1 =
        q + 2 * more + 1 + (2 * (units + k) - 2) := by omega
    rw [first, ← raws_add, count, raws_add, raws_one, last]
  obtain ⟨others, isOthers⟩ : ∃ others, others = raw Nat (q + 1) + raw Nat (q + 2) +
      raws Nat (q + 3) (2 * more - 4) + tagged (q + 2 * more - 1) (Tag false true more) +
        tagged (q + 2 * more) (LiveTag false units requested) := ⟨_, rfl⟩
  calc
    _ = others + (raws Nat (q + 2 * more + 1) (2 * units - 1) +
        raws Nat (q + 2 * (more + units)) (2 * k)) := by
      rw [isOthers, staleCells, wholeCells]
      abel
    _ = others + (raws Nat (q + 2 * more + 1) (2 * (units + k) - 2) +
        raw Nat (q + 2 * (more + units + k) - 1)) := by rw [ends]
    _ = _ := by
      rw [isOthers]
      abel

/-- The same among other cells: `next` is the header of the block that follows, with the `words` after
it. -/
theorem staleCells_joined {held start next words rest : Multiset (Nat × (Nat → Prop))} (k : Nat)
    (some : 0 < units) :
    held + (start + staleCells q more units requested +
        (raws Nat (q + 2 * (more + units)) (2 * k) + (next + words + rest))) =
      start + (raw Nat (q + 2 * (more + units + k) - 1) + (held +
        (raw Nat (q + 1) + raw Nat (q + 2) + (next +
          (raws Nat (q + 3) (2 * more - 4) + raws Nat (q + 2 * more + 1) (2 * (units + k) - 2) + words +
            rest + (tagged (q + 2 * more) (LiveTag false units requested) +
              tagged (q + 2 * more - 1) (Tag false true more))))))) := by
  obtain ⟨others, isOthers⟩ : ∃ others, others = held + start + (next + words) + rest := ⟨_, rfl⟩
  calc
    _ = others + (staleCells q more units requested +
        raws Nat (q + 2 * (more + units)) (2 * k)) := by
      rw [isOthers]
      abel
    _ = others + _ := congrArg _ (staleCells_last k some)
    _ = _ := by
      rw [isOthers]
      abel

/-- The block is merged with the free one before it. -/
theorem does_mergeStale (valid : heap.Valid util)
    (split : heap.blocks = before ++ .free more :: .live units requested payload :: after)
    (small : more + units < 2 ^ 27) :
    Does util (heap.picture util) (mergePrevious (util.place before + 2 * more)) (util.place before)
      ((heap.picture util).at (listCells util.head (dropFree (util.place before) heap.lists) +
        (tagged (util.place before) (Tag false true (more + units)) +
          staleCells (util.place before) more units requested +
            (blocksCells (util.place before + 2 * (more + units)) true after +
              (spanCells util.first true before + prologueCells util))))) := by
  have fits := valid.fits
  have apart := valid.apart
  have listed := valid.listed
  rw [split] at fits apart listed
  have live : (Block.live units requested payload).Fits := fits _ (by simp)
  have last : lastAllocated true before = true := apart.left
  obtain ⟨q, isQ⟩ : ∃ q, q = util.place before := ⟨_, rfl⟩
  obtain ⟨rest, isRest⟩ : ∃ rest, rest = blocksCells (q + 2 * (more + units)) true after +
      (spanCells util.first true before + prologueCells util) := ⟨_, rfl⟩
  have entry : (q, 16 * more) ∈ entries heap.lists := by
    rw [listed.mem_iff, isQ, frees_append]
    exact List.mem_append_right _ List.mem_cons_self
  have next : util.first + 2 * unitsOf before + 2 * more + 2 * units = q + 2 * (more + units) := by
    rw [isQ, Sfutil.place]
    omega
  have whole : (heap.picture util).cells = (Block.live units requested payload).cells
      (q + 2 * more) false + (listCells util.head heap.lists +
        ((Block.free more).cells q true + rest)) := by
    rw [Heap.picture, split, isRest, blocksCells_append, blocksCells, blocksCells, last]
    simp only [Block.units, Block.allocated]
    rw [next, isQ, Sfutil.place]
    abel
  have start : heap.picture util = (heap.picture util).at
      ((Block.live units requested payload).cells (q + 2 * more) false +
        (listCells util.head heap.lists + ((Block.free more).cells q true + rest))) := by
    rw [← whole]
    rfl
  have first : wholeCells (q + 2 * more) units (LiveTag false units requested) +
        (listCells util.head heap.lists + ((Block.free more).cells q true + rest)) =
      listCells util.head heap.lists + ((Block.free more).cells q true +
        (wholeCells (q + 2 * more) units (LiveTag false units requested) + rest)) := by
    abel
  have second : tagged q (Tag false true (more + units)) + staleCells q more units requested + rest =
      tagged q (Tag false true (more + units)) + (raw Nat (q + 1) + raw Nat (q + 2) +
        (raws Nat (q + 3) (2 * more - 4) + (tagged (q + 2 * more - 1) (Tag false true more) +
          (wholeCells (q + 2 * more) units (LiveTag false units requested) + rest)))) := by
    rw [staleCells]
    abel
  rw [← isQ, ← isRest, start]
  apply does_weakened ((weakens_live live).add (.refl _))
  rw [first, second]
  have large : 2 ≤ more := fits (.free more) (by simp)
  have some : 0 < units := by
    have := live.1
    omega
  exact does_mergePrevious_stale entry large some small

/-- `sf_free` where the block before is free: the header of the block that is freed stays in the
middle of the free block, and the footer before it does too. -/
theorem does_sfFree_stale (valid : heap.Valid util) (pages : heap.pages ≤ util.limit)
    (split : heap.blocks = before ++ .free more :: .live units requested payload :: after)
    (room : requested + 8 ≤ 16 * units) :
    ∃ (p : Picture) (others : Multiset (Nat × (Nat → Prop))), p.pages = heap.pages ∧
      Does util (heap.picture util) (sfFree util (util.place before + 2 * more + 1)) ()
        (p.at (tagged (util.place before + 2 * more) (LiveTag false units requested) +
          (tagged (util.place before + 2 * more - 1) (Tag false true more) + others))) := by
  have small := valid.small pages
  have fits := valid.fits
  have apart := valid.apart
  rw [split] at small fits apart
  have large : 2 ≤ more := fits (.free more) (by simp)
  have own := (fits (.live units requested payload) (by simp)).1
  have total := unitsOf_solidRest after
  simp only [unitsOf_append, unitsOf_cons, Block.units] at small
  have solid := (solidRest_apart (List.isChain_cons.mp (List.isChain_cons.mp
    (List.isChain_append.mp apart).2.1).2).2).2
  have merges := does_mergeStale valid split (by omega)
  have split' : heap.blocks = (before ++ [.free more]) ++ .live units requested payload :: after := by
    rw [split, List.append_assoc]
    rfl
  have aborts := does_sfAbort_live valid split' room
  have left := valid.mergedLeft split'
  obtain ⟨q, isQ⟩ : ∃ q, q = util.place before := ⟨_, rfl⟩
  obtain ⟨count, isCount⟩ : ∃ count, count = more + units + freeStart after := ⟨_, rfl⟩
  obtain ⟨rest, isRest⟩ : ∃ rest, rest = spanCells util.first true before + prologueCells util :=
    ⟨_, rfl⟩
  have place : util.first + 2 * unitsOf (before ++ [.free more]) = q + 2 * more := by
    rw [isQ, Sfutil.place, unitsOf_append]
    simp only [unitsOf_cons, unitsOf_nil, Block.units]
    omega
  rw [freeEnd_concat, solidPart_concat, dropIf, if_neg (by omega)] at left
  change (entries (dropFree (util.place before) heap.lists)).Perm (frees util.first before ++
    frees (util.place before + 2 * (more + units)) after) at left
  rw [place] at aborts
  rw [← isQ, ← isRest] at merges
  rw [← isQ] at left ⊢
  obtain ⟨is', bit, sized, joins⟩ := @does_right_kept util (heap.picture util) q (q + 2 * more)
    (more + units) util.head (Tag false true (more + units)) (dropFree q heap.lists) after
    (staleCells q more units requested) Tag.size_eq (fun _ => reads_stale)
    (fun block member => fits block (by simp [member])) (by omega)
    (fun entry member => left.mem_iff.mpr (List.mem_append_right _ member))
  obtain ⟨lists, isLists⟩ : ∃ lists, lists = dropIf (freeStart after) (q + 2 * (more + units))
      (dropFree q heap.lists) := ⟨_, rfl⟩
  rw [← isLists, ← isCount] at joins
  obtain ⟨head', words, cells, -, set⟩ := blocksCells_solid (q + 2 * count) solid
  obtain ⟨inner, isInner⟩ : ∃ inner, inner = raws Nat (q + 3) (2 * more - 4) +
      raws Nat (q + 2 * more + 1) (2 * (units + freeStart after) - 2) + words + rest := ⟨_, rfl⟩
  have finished := @does_finishFree_links util (heap.picture util)
    (inner + (tagged (q + 2 * more) (LiveTag false units requested) +
      tagged (q + 2 * more - 1) (Tag false true more))) q count is' (head' bit) (head' false) lists
    (by rw [isCount]; exact sized) (set bit false) (by omega) (by omega)
    (by rw [isLists]; exact increasing_dropIf _ _ (increasing_dropFree _ valid.increasing))
    (by rw [isLists, length_dropIf, length_dropFree]; exact Nat.le_refl _)
  have joined : listCells util.head lists + (tagged q is' + staleCells q more units requested +
        (raws Nat (q + 2 * (more + units)) (2 * freeStart after) +
          (blocksCells (q + 2 * count) bit (solidRest after) + rest))) =
      tagged q is' + (raw Nat (q + 2 * count - 1) + (listCells util.head lists +
        (raw Nat (q + 1) + raw Nat (q + 2) + (tagged (q + 2 * count) (head' bit) +
          (inner + (tagged (q + 2 * more) (LiveTag false units requested) +
            tagged (q + 2 * more - 1) (Tag false true more))))))) := by
    rw [cells bit, isInner, isCount]
    exact staleCells_joined _ (by omega)
  have goesOn := joins rest
  rw [joined] at goesOn
  obtain ⟨others, isOthers⟩ : ∃ others, others = tagged q (Tag false true count) +
      (listCells util.head (pushFree (util.node heap.lists.length) (16 * count) q lists) +
        (tagged (q + 2 * count - 1) (Tag false true count) +
          (tagged (q + 2 * count) (head' false) + inner))) := ⟨_, rfl⟩
  have final : tagged (q + 2 * more) (LiveTag false units requested) +
        (tagged (q + 2 * more - 1) (Tag false true more) + others) =
      tagged q (Tag false true count) +
        (listCells util.head (pushFree (util.node heap.lists.length) (16 * count) q lists) +
          (tagged (q + 2 * count - 1) (Tag false true count) + (tagged (q + 2 * count) (head' false) +
            (inner + (tagged (q + 2 * more) (LiveTag false units requested) +
              tagged (q + 2 * more - 1) (Tag false true more)))))) := by
    rw [isOthers]
    abel
  refine ⟨{ heap.picture util with nodes := nodesWith (16 * count) heap.lists.length lists }, others,
    rfl, ?_⟩
  rw [final]
  unfold sfFree
  apply aborts.bind
  simp only [getPayloadHeader, Nat.add_sub_cancel]
  apply Returns.bind merges
  apply Returns.bind goesOn
  exact finished

/-- A payload is refused, and nothing is written: `sf_abort`, which comes first, only reads. -/
structure Refuses (util : Sfutil) (pp : Nat) (m : Memory) : Prop where
  aborts : sfAbort util pp m = .error .aborted
  free : sfFree util pp m = .error .aborted
  realloc : ∀ n, sfRealloc util pp n m = .error .aborted

/-- The block is the start of a free one once it is freed. -/
theorem refuses_of_allocated (valid : heap.Valid util)
    (described : Describes util (heap.picture util) m)
    (split : heap.blocks = before ++ .live units requested payload :: after)
    (allocated : lastAllocated true before = true) (room : requested + 8 ≤ 16 * units)
    (runs : sfFree util (util.place before + 1) m = .ok ((), m')) :
    Refuses util (util.place before + 1) m' := by
  obtain ⟨m₁, runs₁, left⟩ := does_sfFree valid split room m described
  change sfFree util (util.place before + 1) m = _ at runs₁
  obtain rfl : m₁ = m' := by
    rw [runs₁] at runs
    cases runs
    rfl
  have own : solidPart before = before := by
    rcases solidPart_cases before with ⟨-, same, -⟩ | ⟨more, -, last⟩
    · exact same
    · rw [last, lastAllocated_concat] at allocated
      cases allocated
  have valid' := afterFree_valid valid split
  obtain ⟨size, rest, split'⟩ : ∃ size rest,
      (heap.afterFree util before units after).blocks = before ++ .free size :: rest := by
    refine ⟨freeEnd before + units + freeStart after, solidRest after, ?_⟩
    change solidPart before ++ _ = _
    rw [own]
  have cells := @Heap.picture_free util before rest size _ split' valid'.apart
  obtain ⟨others, isOthers⟩ : ∃ others, ((heap.afterFree util before units after).picture util).cells =
      tagged (util.place before) (Tag false true size) + others := by
    rw [cells, Block.cells, add_assoc, add_assoc, add_left_comm]
    exact ⟨_, rfl⟩
  have described' : Describes util (((heap.afterFree util before units after).picture util).at
      (tagged (util.place before) (Tag false true size) + others)) m₁ := by
    rw [← isOthers]
    exact left
  have aborts := sfAbort_refuses described' fun info tag => .inl tag.allocated
  exact ⟨aborts, sfFree_small aborts, sfRealloc_small aborts⟩

/-- The stale words pass for a live block. -/
theorem passes_of_free (valid : heap.Valid util) (described : Describes util (heap.picture util) m)
    (split : heap.blocks = before ++ .free more :: .live units requested payload :: after)
    (room : requested + 8 ≤ 16 * units)
    (runs : sfFree util (util.place before + 2 * more + 1) m = .ok ((), m')) :
    ∃ m₁, sfAbort util (util.place before + 2 * more + 1) m' = .ok ((), m₁) := by
  have pages : heap.pages ≤ util.limit := described.room
  obtain ⟨p, others, same, frees⟩ := does_sfFree_stale valid pages split room
  obtain ⟨m₁, runs₁, left⟩ := frees m described
  obtain rfl : m₁ = m' := by
    rw [runs₁] at runs
    cases runs
    rfl
  have small := valid.small pages
  have fills := valid.fills
  have fits := valid.fits
  rw [split] at small fills fits
  have large := (fits (.live units requested payload) (by simp)).1
  simp only [unitsOf_append, unitsOf_cons, Block.units] at small fills
  have place : util.place before = util.start + 5 + 2 * unitsOf before := rfl
  have passes := @does_sfAbort util p _ (util.place before + 2 * more) units requested false
    (.inr ⟨more, others, rfl⟩) (by omega) (by rw [same]; omega) large (by omega) room
  obtain ⟨m₂, runs₂, -⟩ := passes m₁ left
  exact ⟨m₂, runs₂⟩

/-- A payload is refused once it is freed if the block before it was allocated, and only then. -/
theorem refuses_iff (valid : heap.Valid util) (described : Describes util (heap.picture util) m)
    (member : live ∈ heap.lives util) (runs : sfFree util live.pointer m = .ok ((), m')) :
    Refuses util live.pointer m' ↔ (infoAt m live.pointer).prevAllocated = true := by
  obtain ⟨before, after, split, place⟩ := lives_split member
  have room : live.requested + 8 ≤ 16 * live.units := by
    by_contra small
    rw [sfFree_small (sfAbort_small valid described member small)] at runs
    cases runs
  have pointer : live.pointer = util.place before + 1 := by rw [Live.pointer, place, Sfutil.place]
  rw [pointer] at runs ⊢
  rw [described.header split]
  refine ⟨fun refuses => ?_, fun allocated =>
    refuses_of_allocated valid described split allocated room runs⟩
  rcases solidPart_cases before with ⟨-, -, last⟩ | ⟨more, -, isBefore⟩
  · exact last
  · rw [isBefore, List.append_assoc] at split
    have here : util.place before = util.place (solidPart before) + 2 * more := by
      conv_lhs => rw [isBefore]
      rw [Sfutil.place, Sfutil.place, unitsOf_append]
      simp only [unitsOf_cons, unitsOf_nil, Block.units]
      omega
    rw [here] at runs refuses
    obtain ⟨m₁, passes⟩ := passes_of_free valid described split room runs
    have aborts := refuses.aborts
    rw [passes] at aborts
    cases aborts

/-- A block that is merged with the one after it. -/
theorem refuses_next : ∃ (state : State) (heap : Heap) (live : Live) (m' : Memory),
    Runs.run (step fourPages) (start fourPages) [.malloc 100, .malloc 50, .malloc 60, .free 1020] =
        some state ∧
      heap.Valid fourPages ∧ Describes fourPages (heap.picture fourPages) state.memory ∧
      live ∈ heap.lives fourPages ∧ sfFree fourPages live.pointer state.memory = .ok ((), m') ∧
      (Refuses fourPages live.pointer m' ↔
        (infoAt state.memory live.pointer).prevAllocated = true) := by
  obtain ⟨state, taken, reached, passed⟩ := exists_allowed fourPages
    [.malloc 100, .malloc 50, .malloc 60, .free 1020] (by decide +kernel)
    (fun state => decide (1006 ∈ state.pointers) &&
      returnsWith (sfFree fourPages 1006 state.memory) fun _ _ => true) (by decide +kernel)
  rw [Bool.and_eq_true] at passed
  obtain ⟨owned, returns⟩ := passed
  obtain ⟨shape, stands⟩ := stands_of_reachable reached
  obtain ⟨heap, live, rfl, listed, pointer⟩ := stands.owns (of_decide_eq_true owned)
  obtain ⟨_, m', runs, -⟩ := of_returnsWith returns
  rw [← pointer] at runs
  exact ⟨state, heap, live, m', taken, stands.valid, stands.described, listed, runs,
    refuses_iff stands.valid stands.described listed runs⟩

/-- A block that is merged with the one before it is freed a second time. -/
theorem not_always_refuses :
    ¬ ∀ state, Runs.Reachable (step fourPages) (Allowed fourPages) (start fourPages) state →
      ∀ pp m', pp ∈ state.pointers → sfFree fourPages pp state.memory = .ok ((), m') →
        Refuses fourPages pp m' := by
  intro always
  obtain ⟨state, -, reached, passed⟩ := exists_allowed fourPages
    [.malloc 100, .malloc 50, .malloc 60, .free 1006] (by decide +kernel)
    (fun state => decide (1020 ∈ state.pointers) &&
      returnsWith (sfFree fourPages 1020 state.memory) fun _ m' =>
        returnsWith (sfFree fourPages 1020 m') fun _ _ => true) (by decide +kernel)
  rw [Bool.and_eq_true] at passed
  obtain ⟨owned, returns⟩ := passed
  obtain ⟨_, m', runs, twice⟩ := of_returnsWith returns
  have refused := (always state reached 1020 m' (of_decide_eq_true owned) runs).free
  rw [refused] at twice
  cases twice

end Audible.Sfmm
