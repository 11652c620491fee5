import Audible.HeapFrame

set_option autoImplicit false

/- What one call makes of a well-formed heap: its blocks in their order, and the members of its
lists in theirs. -/
namespace Audible.Sfmm

open Cells Returning

variable {util : Sfutil} {heap heap' : Heap} {m : Memory} {lists : List FreeList} {list : FreeList}
variable {before after : List Block} {payload : List Nat}
variable {h node s size units requested needed n : Nat}

/-- The blocks on the list of a size, the last one that was put on it first. -/
def onList (size : Nat) (lists : List FreeList) : List Nat :=
  ((entries lists).filter (·.2 = size)).map Prod.fst

theorem filter_members (size : Nat) (list : FreeList) :
    ((list.members.map (·, list.size)).filter (·.2 = size)).map Prod.fst =
      if list.size = size then list.members else [] := by
  rw [List.filter_map, List.map_map]
  split_ifs with same
  · rw [List.filter_eq_self.mpr fun header _ => by simpa using same]
    exact List.map_id _
  · rw [List.filter_eq_nil_iff.mpr fun header _ => by simpa using same]
    rfl

theorem onList_cons (size : Nat) (list : FreeList) (lists : List FreeList) :
    onList size (list :: lists) =
      (if list.size = size then list.members else []) ++ onList size lists := by
  rw [onList, entries_cons, List.filter_append, List.map_append, filter_members]
  rfl

theorem onList_pushFree (s node size h : Nat) (lists : List FreeList) :
    onList s (pushFree node size h lists) =
      if s = size then h :: onList s lists else onList s lists := by
  induction lists with
  | nil =>
      rw [pushFree, onList_cons]
      simp only [onList, entries, eq_comm]
      split_ifs <;> rfl
  | cons list lists ih =>
      unfold pushFree
      rw [onList_cons s list]
      by_cases less : list.size < size
      · rw [if_pos less, onList_cons, ih]
        by_cases own : list.size = s
        · have other : s ≠ size := by omega
          rw [if_neg other, if_neg other]
        · rw [if_neg own]
          rfl
      · rw [if_neg less]
        by_cases same : list.size = size
        · rw [if_pos same, onList_cons]
          simp only [same, eq_comm]
          split_ifs <;> rfl
        · rw [if_neg same, onList_cons, onList_cons]
          simp only [eq_comm]
          split_ifs <;> rfl

theorem entries_drop (once : ((entries lists).map Prod.fst).Nodup) :
    entries (dropFree h lists) = (entries lists).filter (·.1 ≠ h) := by
  induction lists with
  | nil => rfl
  | cons list lists ih =>
      rw [entries_cons, List.map_append, List.nodup_append] at once
      obtain ⟨own, rest, apart⟩ := once
      have members : (list.members.map (·, list.size)).map Prod.fst = list.members := by
        rw [List.map_map]
        exact List.map_id _
      rw [members] at own apart
      rw [dropFree, entries_cons, List.filter_append]
      split_ifs with here
      · have others : (entries lists).filter (·.1 ≠ h) = entries lists := by
          rw [List.filter_eq_self]
          intro entry member
          have other := apart h here entry.1 (List.mem_map_of_mem member)
          simpa using other.symm
        rw [entries_cons, others, own.erase_eq_filter, List.filter_map]
        congr 2
        apply List.filter_congr
        intro header _
        by_cases same : header = h <;> simp [same]
      · have others : (list.members.map (·, list.size)).filter (·.1 ≠ h) =
            list.members.map (·, list.size) := by
          rw [List.filter_eq_self]
          intro entry member
          obtain ⟨header, listed, rfl⟩ := List.mem_map.mp member
          rw [decide_eq_true_eq]
          rintro rfl
          exact here listed
        rw [entries_cons, others, ih rest]

theorem onList_dropFree (once : ((entries lists).map Prod.fst).Nodup) (s : Nat) :
    onList s (dropFree h lists) = (onList s lists).filter (· ≠ h) := by
  rw [onList, entries_drop once, onList, List.filter_map, List.filter_filter, List.filter_filter]
  congr 2
  funext entry
  exact Bool.and_comm _ _

theorem onList_dropIf (once : ((entries lists).map Prod.fst).Nodup) (s units : Nat) :
    onList s (dropIf units h lists) = (onList s lists).filter (fun x => units = 0 ∨ x ≠ h) := by
  unfold dropIf
  split_ifs with none
  · rw [List.filter_eq_self.mpr fun x _ => by simp [none]]
  · rw [onList_dropFree once]
    apply List.filter_congr
    intro x _
    simp [none]

-- `sf_free`

/-- The block between `before` and `after` and the free ones at its sides are one free block, the
first on the list of its size. -/
structure Merged (util : Sfutil) (heap heap' : Heap) (before : List Block) (units : Nat)
    (after : List Block) : Prop where
  blocks : heap'.blocks = solidPart before ++
    .free (freeEnd before + units + freeStart after) :: solidRest after
  lists : ∀ s, onList s heap'.lists =
    (if s = 16 * (freeEnd before + units + freeStart after) then [util.place (solidPart before)]
      else []) ++
    (onList s heap.lists).filter (fun x => (freeEnd before = 0 ∨ x ≠ util.place (solidPart before)) ∧
      (freeStart after = 0 ∨ x ≠ util.place before + 2 * units))
  pages : heap'.pages = heap.pages

theorem afterFree_merged (valid : heap.Valid util) (before after : List Block) (units : Nat) :
    Merged util heap (heap.afterFree util before units after) before units after where
  blocks := rfl
  lists := by
    intro s
    have place : util.place (solidPart before) + 2 * (freeEnd before + units) =
        util.place before + 2 * units := by
      have := unitsOf_solidPart before
      unfold Sfutil.place
      omega
    have once := valid.once
    have once' := @once_dropIf heap.lists (freeEnd before) (util.place (solidPart before)) once
    show onList s (pushFree _ _ (util.place (solidPart before)) (dropIf (freeStart after)
      (util.place (solidPart before) + 2 * (freeEnd before + units))
      (dropIf (freeEnd before) (util.place (solidPart before)) heap.lists))) = _
    rw [onList_pushFree, place, onList_dropIf once', onList_dropIf once, List.filter_filter]
    simp only [Bool.decide_and, Bool.and_comm]
    split_ifs <;> rfl
  pages := rfl

/-- `sf_free` returns, and merges the free neighbourhood. -/
def Frees (util : Sfutil) (heap : Heap) (before : List Block) (units : Nat) (after : List Block)
    (m : Memory) : Prop :=
  ∃ (heap' : Heap) (m' : Memory), sfFree util (util.place before + 1) m = .ok ((), m') ∧
    heap'.Valid util ∧ Describes util (heap'.picture util) m' ∧
    Merged util heap heap' before units after

theorem live_of_split (split : heap.blocks = before ++ .live units requested payload :: after) :
    ⟨util.place before, units, requested, payload⟩ ∈ heap.lives util := by
  rw [lives_of_split split]
  simp

/-- A block without room for what was requested is refused. -/
theorem Frees.room (frees : Frees util heap before units after m) (valid : heap.Valid util)
    (described : Describes util (heap.picture util) m)
    (split : heap.blocks = before ++ .live units requested payload :: after) :
    requested + 8 ≤ 16 * units := by
  obtain ⟨heap', m', runs, -⟩ := frees
  by_contra small
  have aborts := sfFree_small (sfAbort_small valid described (live_of_split split) small)
  change sfFree util (util.place before + 1) m = _ at aborts
  rw [aborts] at runs
  cases runs

theorem frees_of_room (valid : heap.Valid util) (described : Describes util (heap.picture util) m)
    (split : heap.blocks = before ++ .live units requested payload :: after)
    (room : requested + 8 ≤ 16 * units) : Frees util heap before units after m := by
  obtain ⟨m', runs, left⟩ := does_sfFree valid split room m described
  exact ⟨_, m', runs, afterFree_valid valid split, left, afterFree_merged valid before after units⟩

theorem frees_iff (valid : heap.Valid util) (described : Describes util (heap.picture util) m)
    (split : heap.blocks = before ++ .live units requested payload :: after) :
    Frees util heap before units after m ↔ requested + 8 ≤ 16 * units :=
  ⟨fun frees => frees.room valid described split, frees_of_room valid described split⟩

/-- Where a payload of the program lies in the heap. -/
theorem Stands.block {state : State} {shape : Shape} {pp : Nat} (stands : Stands util state shape)
    (member : pp ∈ state.pointers) :
    ∃ (heap : Heap) (before : List Block) (units requested : Nat) (payload : List Nat)
        (after : List Block), heap.Valid util ∧
      Describes util (heap.picture util) state.memory ∧
      heap.blocks = before ++ .live units requested payload :: after ∧
      util.place before + 1 = pp ∧ (infoAt state.memory pp).blockSize.toNat = units ∧
      (infoAt state.memory pp).requestedSize.toNat = requested := by
  obtain ⟨heap, live, rfl, listed, rfl⟩ := stands.owns member
  have described : Describes util (heap.picture util) state.memory := stands.described
  have here := described.inMemory listed
  obtain ⟨before, after, split, header⟩ := lives_split listed
  exact ⟨heap, before, live.units, live.requested, live.payload, after, stands.valid, described, split,
    by rw [Sfutil.place, ← header, Live.pointer], here.size, here.requested⟩

/-- A block between two free ones. -/
theorem frees_between : ∃ (state : State) (heap : Heap) (before : List Block)
    (units requested : Nat) (payload : List Nat) (after : List Block),
    Runs.run (step fourPages) (start fourPages)
        [.malloc 100, .malloc 50, .malloc 60, .free 1006, .free 1028] = some state ∧
      heap.Valid fourPages ∧ Describes fourPages (heap.picture fourPages) state.memory ∧
      heap.blocks = before ++ .live units requested payload :: after ∧
      fourPages.place before + 1 = 1020 ∧
      (Frees fourPages heap before units after state.memory ↔ requested + 8 ≤ 16 * units) := by
  obtain ⟨state, taken, reached, owned⟩ := exists_allowed fourPages
    [.malloc 100, .malloc 50, .malloc 60, .free 1006, .free 1028] (by decide +kernel)
    (fun state => decide (1020 ∈ state.pointers)) (by decide +kernel)
  obtain ⟨shape, stands⟩ := stands_of_reachable reached
  obtain ⟨heap, before, units, requested, payload, after, valid, described, split, place, -⟩ :=
    stands.block (of_decide_eq_true owned)
  exact ⟨state, heap, before, units, requested, payload, after, taken, valid, described, split, place,
    frees_iff valid described split⟩

/-- A block of 32 bytes for a request of `2 ^ 31` is not freed. -/
theorem not_always_frees :
    ¬ ∀ state, Runs.Reachable (step fourPages) (Allowed fourPages) (start fourPages) state →
      ∀ (heap : Heap) (before : List Block) (units requested : Nat) (payload : List Nat)
          (after : List Block), heap.Valid fourPages →
        Describes fourPages (heap.picture fourPages) state.memory →
        heap.blocks = before ++ .live units requested payload :: after →
          Frees fourPages heap before units after state.memory := by
  intro always
  obtain ⟨state, -, reached, passed⟩ := exists_allowed fourPages [.malloc (2 ^ 31)] (by decide +kernel)
    (fun state => decide (1006 ∈ state.pointers ∧ 16 * (infoAt state.memory 1006).blockSize.toNat <
      (infoAt state.memory 1006).requestedSize.toNat + 8)) (by decide +kernel)
  obtain ⟨owned, small⟩ := of_decide_eq_true passed
  obtain ⟨shape, stands⟩ := stands_of_reachable reached
  obtain ⟨heap, before, units, requested, payload, after, valid, described, split, place, size,
    request⟩ := stands.block owned
  have room := (always state reached heap before units requested payload after valid described
    split).room valid described split
  omega

-- `sf_malloc`, where a free block is large enough.

theorem entries_sorted (increasing : Increasing lists) :
    (entries lists).Pairwise (·.2 ≤ ·.2) := by
  induction lists with
  | nil => exact List.Pairwise.nil
  | cons list lists ih =>
      obtain ⟨least, rest⟩ := List.pairwise_cons.mp increasing
      rw [entries_cons, List.pairwise_append]
      refine ⟨?_, ih rest, ?_⟩
      · rw [List.pairwise_map]
        exact List.pairwise_of_forall fun _ _ => le_refl list.size
      · intro left own right other
        obtain ⟨header, -, rfl⟩ := List.mem_map.mp own
        obtain ⟨next, member, listed⟩ := List.mem_flatMap.mp other
        obtain ⟨header', -, rfl⟩ := List.mem_map.mp listed
        exact (least next member).le

/-- The block that fits best is of the smallest size that is enough, and first on its list. -/
theorem bestFit_least {header fit : Nat} (increasing : Increasing lists)
    (found : bestFit size lists = some (header, fit)) :
    size ≤ fit ∧ (∀ entry ∈ entries lists, size ≤ entry.2 → fit ≤ entry.2) ∧
      (onList fit lists).head? = some header := by
  have sorted := entries_sorted increasing
  obtain ⟨enough, before, after, split, smaller⟩ := List.find?_eq_some_iff_append.mp found
  rw [decide_eq_true_eq] at enough
  have less : ∀ entry ∈ before, entry.2 < size := fun entry member => by
    simpa using smaller entry member
  refine ⟨enough, ?_, ?_⟩
  · intro entry member large
    rw [split] at member sorted
    rcases List.mem_append.mp member with earlier | later
    · exact absurd (less entry earlier) (not_lt_of_ge large)
    · rcases List.mem_cons.mp later with rfl | later
      · rfl
      · exact (List.pairwise_cons.mp (List.pairwise_append.mp sorted).2.1).1 entry later
  · have others : before.filter (·.2 = fit) = [] := by
      rw [List.filter_eq_nil_iff]
      intro entry member
      have := less entry member
      simp only [decide_eq_true_eq]
      omega
    rw [onList, split, List.filter_append, others, List.filter_cons_of_pos (by simp)]
    rfl

/-- The free block between `before` and `after` is given to the program: all of it, or as much as
is needed where the rest is large enough for a block. The rest is the first on the list of its size. -/
structure Taken (util : Sfutil) (heap heap' : Heap) (before : List Block) (units : Nat)
    (after : List Block) (needed size : Nat) : Prop where
  blocks : ∃ payload, heap'.blocks = before ++
    if units < needed + 2 then .live units (size % 2 ^ 32) payload :: after
    else .live needed (size % 2 ^ 32) payload :: .free (units - needed) :: after
  lists : ∀ s, onList s heap'.lists =
    (if needed + 2 ≤ units ∧ s = 16 * (units - needed) then [util.place before + 2 * needed] else []) ++
      (onList s heap.lists).filter (· ≠ util.place before)
  pages : heap'.pages = heap.pages

theorem filled_taken (valid : heap.Valid util) (before after : List Block)
    (units needed size : Nat) (payload : List Nat) :
    Taken util heap ((heap.gap util before units after).filled util needed size payload)
      before units after needed size := by
  have gone : ∀ s, onList s (dropFree (util.place before) heap.lists) =
      (onList s heap.lists).filter (· ≠ util.place before) := fun s => onList_dropFree valid.once s
  unfold Gap.filled
  change Taken util heap (if units < needed + 2 then _ else _) before units after needed size
  by_cases close : units < needed + 2
  · rw [if_pos close]
    refine ⟨⟨payload, by rw [if_pos close]; rfl⟩, fun s => ?_, rfl⟩
    rw [if_neg fun far => absurd close (not_lt_of_ge far.1)]
    exact gone s
  · rw [if_neg close]
    refine ⟨⟨payload, by rw [if_neg close]; rfl⟩, fun s => ?_, rfl⟩
    change onList s (pushFree _ (16 * (units - needed)) (util.place before + 2 * needed)
      (dropFree (util.place before) heap.lists)) = _
    rw [onList_pushFree, gone]
    simp only [not_lt.mp close, true_and]
    split_ifs <;> rfl

/-- `sf_malloc` takes the block of the smallest size that is enough which was put on its list last. -/
def TakesBest (util : Sfutil) (heap : Heap) (needed size : Nat) (m : Memory) : Prop :=
  ∃ (before : List Block) (units : Nat) (after : List Block) (heap' : Heap) (m' : Memory),
    heap.blocks = before ++ .free units :: after ∧ needed ≤ units ∧
    (∀ entry ∈ entries heap.lists, 16 * needed ≤ entry.2 → 16 * units ≤ entry.2) ∧
    (onList (16 * units) heap.lists).head? = some (util.place before) ∧
    sfMalloc util size m = .ok (some (util.place before + 1), m') ∧
    heap'.Valid util ∧ Describes util (heap'.picture util) m' ∧
    Taken util heap heap' before units after needed size

/-- What `getNewSize` returns is the size of a number of units. -/
theorem unitsFor_of_getNewSize (computed : getNewSize size = 16 * (needed : Int)) :
    unitsFor size = some needed := by
  cases isNeeded : unitsFor size with
  | none =>
      rw [getNewSize_none isNeeded] at computed
      omega
  | some units =>
      rw [getNewSize_some isNeeded] at computed
      have same : units = needed := by omega
      rw [same]

theorem takesBest_of_listed {entry : Nat × Nat} (valid : heap.Valid util)
    (described : Describes util (heap.picture util) m) (nonzero : size ≠ 0)
    (isNeeded : unitsFor size = some needed) (listed : entry ∈ entries heap.lists)
    (large : 16 * needed ≤ entry.2) : TakesBest util heap needed size m := by
  have some_ : (bestFit (16 * needed) heap.lists).isSome := by
    rw [bestFit, List.find?_isSome]
    exact ⟨entry, listed, decide_eq_true large⟩
  obtain ⟨⟨header, fit⟩, found⟩ := Option.isSome_iff_exists.mp some_
  obtain ⟨-, least, first⟩ := bestFit_least valid.increasing found
  obtain ⟨before, units, after, result, heap', m', split, rfl, rfl, fits, runs, serves, left⟩ :=
    sfMalloc_fit nonzero isNeeded valid described found
  have gap := valid.gap split
  have valid' := gap.serves (unitsFor_bounds isNeeded).1 serves
  cases serves with
  | block payload =>
      exact ⟨before, units, after, _, m', split, fits, least, first, runs, valid', left,
        filled_taken valid before after units needed size payload⟩
  | enomem full short => exact absurd fits (not_le_of_gt short)

theorem takesBest {B : Int} (valid : heap.Valid util)
    (described : Describes util (heap.picture util) m) (nonzero : size ≠ 0)
    (small : (size + 8 + 15) / 16 * 16 < 2 ^ 31) (computed : getNewSize size = B)
    (enough : ∃ entry ∈ entries heap.lists, B ≤ (entry.2 : Int)) :
    ∃ needed : Nat, B = 16 * (needed : Int) ∧ TakesBest util heap needed size m := by
  obtain ⟨needed, isNeeded, -⟩ := @unitsFor_enough size (by omega)
  obtain ⟨entry, listed, large⟩ := enough
  rw [getNewSize_some isNeeded] at computed
  exact ⟨needed, computed.symm,
    takesBest_of_listed valid described nonzero isNeeded listed (by omega)⟩

/-- A list that memory says a block is on. -/
theorem listed_entry (described : Describes util (heap.picture util) m)
    (listed : (size, true) ∈ freeLists util m) : ∃ header, (header, size) ∈ entries heap.lists := by
  rw [described.freeLists] at listed
  obtain ⟨list, member, is⟩ := List.mem_map.mp listed
  obtain ⟨rfl, some_⟩ := Prod.mk.inj is
  cases members : list.members with
  | nil => simp [members] at some_
  | cons header others =>
      exact ⟨header, List.mem_flatMap.mpr ⟨list, member, by simp [members]⟩⟩

/-- Calls that leave a block of that size on a list. -/
theorem exists_listed (calls : List Call) {pp : Nat}
    (follows : Runs.followsBy (step util) (fun state call => decide (Allowed util state call))
      (start util) calls = true)
    (passes : (Runs.run (step util) (start util) calls).any
      (fun state => decide (pp ∈ state.pointers ∧ (size, true) ∈ freeLists util state.memory)) = true) :
    ∃ (state : State) (heap : Heap) (header : Nat),
      Runs.run (step util) (start util) calls = some state ∧
      Runs.Reachable (step util) (Allowed util) (start util) state ∧ heap.Valid util ∧
      Describes util (heap.picture util) state.memory ∧ (header, size) ∈ entries heap.lists := by
  obtain ⟨state, taken, reached, passed⟩ := exists_allowed util calls follows _ passes
  obtain ⟨owned, listed⟩ := of_decide_eq_true passed
  obtain ⟨shape, stands⟩ := stands_of_reachable reached
  obtain ⟨heap, -, -, -, -, -, valid, described, -⟩ := stands.block owned
  obtain ⟨header, entry⟩ := listed_entry described listed
  exact ⟨state, heap, header, taken, reached, valid, described, entry⟩

/-- Of two free blocks of one size the one freed last is taken, and split. -/
theorem takesBest_split : ∃ (state : State) (heap : Heap),
    Runs.run (step fourPages) (start fourPages)
        [.malloc 100, .malloc 20, .malloc 100, .malloc 20, .free 1006, .free 1024] = some state ∧
      heap.Valid fourPages ∧ Describes fourPages (heap.picture fourPages) state.memory ∧
      ∃ needed : Nat, (64 : Int) = 16 * (needed : Int) ∧
        TakesBest fourPages heap needed 50 state.memory := by
  obtain ⟨state, heap, header, taken, -, valid, described, entry⟩ := @exists_listed fourPages 112
    [.malloc 100, .malloc 20, .malloc 100, .malloc 20, .free 1006, .free 1024] 1020
    (by decide +kernel) (by decide +kernel)
  exact ⟨state, heap, taken, valid, described, takesBest valid described (by decide)
    (by decide) (by decide : getNewSize 50 = 64) ⟨_, entry, by simp⟩⟩

/-- A request for no bytes gets no block. -/
theorem not_always_takesBest :
    ¬ ∀ state, Runs.Reachable (step fourPages) (Allowed fourPages) (start fourPages) state →
      ∀ (heap : Heap) (size : Nat) (B : Int), heap.Valid fourPages →
        Describes fourPages (heap.picture fourPages) state.memory →
        (size + 8 + 15) / 16 * 16 < 2 ^ 31 → getNewSize size = B →
        (∃ entry ∈ entries heap.lists, B ≤ (entry.2 : Int)) →
          ∃ needed : Nat, B = 16 * (needed : Int) ∧ TakesBest fourPages heap needed size state.memory := by
  intro always
  obtain ⟨state, heap, header, -, reached, valid, described, entry⟩ := @exists_listed fourPages 112
    [.malloc 100, .malloc 20, .free 1006] 1020 (by decide +kernel) (by decide +kernel)
  obtain ⟨needed, -, before, units, after, heap', m', -, -, -, -, runs, -⟩ :=
    always state reached heap 0 32 valid described (by decide) rfl ⟨_, entry, by simp⟩
  have none_ : sfMalloc fourPages 0 state.memory = .ok (none, state.memory) := rfl
  rw [none_] at runs
  cases runs

-- `sf_realloc`, where the request is not larger.

/-- The live block between `before` and `after` is cut down where the tail is large enough for a
block. The tail is merged with a free block after it, and the first on the list of its size. -/
structure Cut (util : Sfutil) (heap heap' : Heap) (before : List Block) (units requested : Nat)
    (payload : List Nat) (after : List Block) (n needed : Nat) : Prop where
  blocks : heap'.blocks = before ++
    if n < requested ∧ needed + 2 ≤ units then
      .live needed n (payload.take (2 * needed - 1)) ::
        .free (units - needed + freeStart after) :: solidRest after
    else .live units n payload :: after
  lists : ∀ s, onList s heap'.lists =
    if n < requested ∧ needed + 2 ≤ units then
      (if s = 16 * (units - needed + freeStart after) then [util.place before + 2 * needed] else []) ++
        (onList s heap.lists).filter (fun x => freeStart after = 0 ∨ x ≠ util.place before + 2 * units)
    else onList s heap.lists
  pages : heap'.pages = heap.pages

theorem afterShrink_cut (valid : heap.Valid util) (less : n < requested) :
    Cut util heap (heap.afterShrink util before units n needed payload after) before units requested
      payload after n needed := by
  unfold Heap.afterShrink
  by_cases close : units < needed + 2
  · have kept : ¬ (n < requested ∧ needed + 2 ≤ units) := by omega
    rw [if_pos close]
    exact ⟨by rw [if_neg kept], fun s => by rw [if_neg kept], rfl⟩
  · have cut : n < requested ∧ needed + 2 ≤ units := by omega
    rw [if_neg close]
    refine ⟨by rw [if_pos cut], fun s => ?_, rfl⟩
    change onList s (pushFree _ (16 * (units - needed + freeStart after))
      (util.place before + 2 * needed) (dropIf (freeStart after) _ heap.lists)) = _
    rw [if_pos cut, onList_pushFree, onList_dropIf valid.once]
    split_ifs <;> rfl

theorem same_cut (split : heap.blocks = before ++ .live units n payload :: after) :
    Cut util heap heap before units n payload after n needed := by
  have kept : ¬ (n < n ∧ needed + 2 ≤ units) := by omega
  exact ⟨by rw [if_neg kept, split], fun s => by rw [if_neg kept], rfl⟩

/-- `sf_realloc` returns the block it is given, cut down to the request. -/
def Shrinks (util : Sfutil) (heap : Heap) (before : List Block) (units requested : Nat)
    (payload : List Nat) (after : List Block) (n : Nat) (m : Memory) : Prop :=
  ∃ (needed : Nat) (heap' : Heap) (m' : Memory),
    getNewSize n = 16 * (needed : Int) ∧
    sfRealloc util (util.place before + 1) n m = .ok (some (util.place before + 1), m') ∧
    heap'.Valid util ∧ Describes util (heap'.picture util) m' ∧
    Cut util heap heap' before units requested payload after n needed ∧
    ∀ i < n, byteAt m' (util.place before + 1) i = byteAt m (util.place before + 1) i

/-- A block without room for what was requested is refused. -/
theorem Shrinks.room (shrinks : Shrinks util heap before units requested payload after n m)
    (valid : heap.Valid util) (described : Describes util (heap.picture util) m)
    (split : heap.blocks = before ++ .live units requested payload :: after) :
    requested + 8 ≤ 16 * units := by
  obtain ⟨needed, heap', m', -, runs, -⟩ := shrinks
  by_contra small
  have aborts := sfRealloc_small (sfAbort_small valid described (live_of_split split) small) n
  change sfRealloc util (util.place before + 1) n m = _ at aborts
  rw [aborts] at runs
  cases runs

theorem shrinks_iff (valid : heap.Valid util) (described : Describes util (heap.picture util) m)
    (split : heap.blocks = before ++ .live units requested payload :: after)
    (positive : 0 < n) (less : n ≤ requested) :
    Shrinks util heap before units requested payload after n m ↔ requested + 8 ≤ 16 * units := by
  refine ⟨fun shrinks => shrinks.room valid described split, fun room => ?_⟩
  obtain ⟨needed, isNeeded, large, fewer, enough⟩ := valid.unitsFor_le described.room split room less
  have own : (Block.live units requested payload).Fits := valid.fits _ (by rw [split]; simp)
  have here := described.inMemory (live_of_split split)
  rcases Nat.lt_or_eq_of_le less with less | rfl
  · obtain ⟨m', runs, left⟩ :=
      does_sfRealloc_shrink valid split room positive less isNeeded fewer m described
    have valid' : (heap.afterShrink util before units n needed payload after).Valid util :=
      afterShrink_valid valid split large
    refine ⟨needed, _, m', getNewSize_some isNeeded, runs, valid', left,
      afterShrink_cut valid less, ?_⟩
    obtain ⟨k, isTaken⟩ : ∃ k, k = if units < needed + 2 then units else needed := ⟨_, rfl⟩
    have present : (⟨util.place before, k, n, payload.take (2 * k - 1)⟩ : Live) ∈
        (heap.afterShrink util before units n needed payload after).lives util := by
      rw [lives_afterShrink own isTaken]
      simp
    refine here.bytes_of_take (left.inMemory present) (lives_bounds valid'.fits present).2.2.2 ?_
    split_ifs at isTaken <;> omega
  · obtain ⟨m', runs, left⟩ := does_sfRealloc_same valid split room (Nat.ne_of_gt positive) m described
    have there := left.inMemory (live_of_split split)
    have whole : payload.take (2 * units - 1) = payload := List.take_of_length_le (by
      have := own.2
      omega)
    have kept : (⟨util.place before, units, n, payload.take (2 * units - 1)⟩ : Live).InMemory m' := by
      rw [whole]
      exact there
    refine ⟨needed, heap, m', getNewSize_some isNeeded, runs, valid, left, same_cut split,
      here.bytes_of_take kept ?_ room⟩
    rw [whole]
    exact own.2

/-- The tail is merged with a free block after it. -/
theorem shrinks_merged : ∃ (state : State) (heap : Heap) (before : List Block)
    (units requested : Nat) (payload : List Nat) (after : List Block),
    Runs.run (step fourPages) (start fourPages) [.malloc 100, .malloc 200, .malloc 20, .free 1020] =
        some state ∧
      heap.Valid fourPages ∧ Describes fourPages (heap.picture fourPages) state.memory ∧
      heap.blocks = before ++ .live units requested payload :: after ∧
      fourPages.place before + 1 = 1006 ∧ requested = 100 ∧
      (Shrinks fourPages heap before units requested payload after 8 state.memory ↔
        requested + 8 ≤ 16 * units) := by
  obtain ⟨state, taken, reached, passed⟩ := exists_allowed fourPages
    [.malloc 100, .malloc 200, .malloc 20, .free 1020] (by decide +kernel)
    (fun state => decide (1006 ∈ state.pointers ∧
      (infoAt state.memory 1006).requestedSize.toNat = 100)) (by decide +kernel)
  obtain ⟨owned, request⟩ := of_decide_eq_true passed
  obtain ⟨shape, stands⟩ := stands_of_reachable reached
  obtain ⟨heap, before, units, requested, payload, after, valid, described, split, place, -, is⟩ :=
    stands.block owned
  exact ⟨state, heap, before, units, requested, payload, after, taken, valid, described, split, place,
    is.symm.trans request, shrinks_iff valid described split (by decide) (by omega)⟩

/-- A block of 32 bytes for a request of `2 ^ 31` is not cut down. -/
theorem not_always_shrinks :
    ¬ ∀ state, Runs.Reachable (step fourPages) (Allowed fourPages) (start fourPages) state →
      ∀ (heap : Heap) (before : List Block) (units requested : Nat) (payload : List Nat)
          (after : List Block) (n : Nat), heap.Valid fourPages →
        Describes fourPages (heap.picture fourPages) state.memory →
        heap.blocks = before ++ .live units requested payload :: after → 0 < n → n ≤ requested →
          Shrinks fourPages heap before units requested payload after n state.memory := by
  intro always
  obtain ⟨state, -, reached, passed⟩ := exists_allowed fourPages [.malloc (2 ^ 31)] (by decide +kernel)
    (fun state => decide (1006 ∈ state.pointers ∧ 16 * (infoAt state.memory 1006).blockSize.toNat <
      (infoAt state.memory 1006).requestedSize.toNat + 8 ∧
        1 ≤ (infoAt state.memory 1006).requestedSize.toNat)) (by decide +kernel)
  obtain ⟨owned, small, some_⟩ := of_decide_eq_true passed
  obtain ⟨shape, stands⟩ := stands_of_reachable reached
  obtain ⟨heap, before, units, requested, payload, after, valid, described, split, place, size,
    request⟩ := stands.block owned
  have room := (always state reached heap before units requested payload after 1 valid described split
    (by decide) (by omega)).room valid described split
  omega

end Audible.Sfmm
