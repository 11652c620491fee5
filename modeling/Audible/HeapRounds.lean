import Audible.HeapOrders

set_option autoImplicit false

/- Calls of `sf_malloc` for which the heap grows. -/
namespace Audible.Sfmm

open Cells Returning

variable {util : Sfutil} {p : Picture} {rest : Multiset (Nat × (Nat → Prop))}
variable {heap : Heap} {hole : Gap} {m : Memory} {lists before after : List FreeList}
variable {list : FreeList} {h a size needed rounds : Nat} {blocks : List Block}
variable {unlink : Nat → HeapM Nat}

theorem reads_nodesFrom (enough : after.length ≤ rounds)
    (described : Describes util (p.at (listCells util.head (before ++ after) + rest)) m) :
    nodesFrom util m rounds ((after.map FreeList.node).headD util.head) =
      after.map FreeList.node := by
  induction after generalizing before rounds with
  | nil =>
      cases rounds with
      | zero => rfl
      | succ rounds => exact if_pos rfl
  | cons list after ih =>
      obtain ⟨rounds, rfl⟩ := Nat.exists_eq_add_one_of_ne_zero (Nat.ne_zero_of_lt enough)
      have member : list ∈ before ++ list :: after := by simp
      have next := described.word next_mem
      have other := node_ne_head described member
      rw [List.append_cons] at described
      unfold nodesFrom
      rw [List.map_cons, List.headD_cons, if_neg other, next]
      exact congrArg _ (ih (Nat.le_of_succ_le_succ enough) described)

theorem reads_membersFrom {front back : List Nat}
    (described : Describes util (p.at (listCells util.head lists + rest)) m)
    (member : list ∈ lists) (members : list.members = front ++ back) (rounds : Nat) :
    membersFrom m (list.node + 1) rounds (back.headD (list.node + 1)) = back.take rounds := by
  induction rounds generalizing front back with
  | zero => rfl
  | succ rounds ih =>
      cases back with
      | nil => exact if_pos rfl
      | cons h back =>
          have next := described.word (member_next_mem member members)
          have listed : h ∈ list.members := by
            rw [members]
            exact List.mem_append_right _ List.mem_cons_self
          have other := member_ne_node described member listed
          unfold membersFrom
          rw [List.headD_cons, if_neg other, next, List.take_succ_cons]
          rw [List.append_cons] at members
          exact congrArg _ (ih members)

theorem reads_listedBlocks (described : Describes util (p.at (listCells util.head lists + rest)) m)
    (few : lists.length ≤ p.nodes) :
    listedBlocks util m = lists.flatMap fun list => list.members.take (p.pages * pageWords) := by
  have nodes : m.nodes = p.nodes := described.nodes
  have pages : m.pages = p.pages := described.pages
  have first := described.word (@first_mem util.head lists)
  have walk := @reads_nodesFrom util p rest m [] lists p.nodes few described
  rw [listedBlocks, first, Option.getD_some, nodes, pages, walk, List.flatMap_map]
  apply List.flatMap_congr
  intro list member
  rw [described.word (first_member_mem member), Option.getD_some]
  exact reads_membersFrom described member (List.nil_append _).symm _

theorem mem_entries {header : Nat} :
    header ∈ (entries lists).map Prod.fst ↔ ∃ list ∈ lists, header ∈ list.members := by
  simp [entries]

theorem unlisted_block (described : Describes util (p.at (listCells util.head lists + rest)) m)
    (few : lists.length ≤ p.nodes) (unlisted : h ∉ (entries lists).map Prod.fst) :
    h ∉ listedBlocks util m := by
  rw [reads_listedBlocks described few]
  intro member
  obtain ⟨list, inLists, taken⟩ := List.mem_flatMap.mp member
  exact unlisted (mem_entries.mpr ⟨list, inLists, List.mem_of_mem_take taken⟩)

theorem listed_block (described : Describes util (p.at (listCells util.head lists + rest)) m)
    (few : lists.length ≤ p.nodes) (room : (entries lists).length ≤ p.pages * pageWords)
    (listed : h ∈ (entries lists).map Prod.fst) : h ∈ listedBlocks util m := by
  obtain ⟨list, inLists, member⟩ := mem_entries.mp listed
  obtain ⟨front, back, rfl⟩ := List.append_of_mem inLists
  have short : list.members.length ≤ p.pages * pageWords := by
    rw [entries_append, entries_cons] at room
    simp only [List.length_append, List.length_map] at room
    omega
  rw [reads_listedBlocks described few]
  refine List.mem_flatMap.mpr ⟨list, inLists, ?_⟩
  rw [List.take_of_length_le short]
  exact member

theorem length_frees (fits : ∀ block ∈ blocks, block.Fits) :
    (frees a blocks).length ≤ unitsOf blocks := by
  induction blocks generalizing a with
  | nil => exact Nat.le_refl _
  | cons block blocks ih =>
      have rest := fun a => @ih a fun block member => fits block (List.mem_cons_of_mem _ member)
      have own := fits block List.mem_cons_self
      cases block with
      | live units requested payload =>
          rw [frees, unitsOf_cons]
          exact Nat.le_trans (rest _) (Nat.le_add_left _ _)
      | free units =>
          have large : 2 ≤ units := own
          rw [frees, unitsOf_cons, List.length_cons, Block.units]
          have := rest (a + 2 * units)
          omega

theorem Heap.Valid.length_entries (valid : heap.Valid util) :
    (entries heap.lists).length ≤ heap.pages * pageWords := by
  have fills := valid.fills
  have short := @length_frees util.first heap.blocks valid.fits
  rw [valid.listed.length_eq]
  omega

theorem Gap.Valid.unlisted (valid : hole.Valid util) :
    hole.header util ∉ (entries hole.lists).map Prod.fst := by
  intro member
  obtain ⟨⟨header, size⟩, listed, rfl⟩ := List.mem_map.mp member
  have large := valid.large
  have fits := valid.fits
  rcases List.mem_append.mp (valid.listed.mem_iff.mp listed) with earlier | later
  · have bounds := frees_bounds (fun block member => fits block (List.mem_append_left _ member)) earlier
    have place : hole.header util = util.first + 2 * unitsOf hole.before := rfl
    omega
  · have bounds := frees_bounds
      (fun block member => fits block (List.mem_append_right _ (List.mem_cons_of_mem _ member))) later
    omega

/-- A block at the end of the heap with one page more, which no list has. -/
structure Opened (util : Sfutil) (heap : Heap) (hole : Gap)
    (links : Multiset (Nat × (Nat → Prop))) : Prop where
  valid : hole.Valid util
  atEnd : hole.after = []
  before : hole.before = solidPart heap.blocks
  units : hole.units = freeEnd heap.blocks + 256
  pages : hole.pages = heap.pages + 1
  lists : hole.lists.length = heap.lists.length
  weakens : Weakens links (raw Nat (hole.header util + 1) + raw Nat (hole.header util + 2))

/-- In the first round a block that leaves its list is on it. -/
theorem does_firstRound (valid : heap.Valid util) (page : heap.pages < util.limit) :
    ∃ hole links, Opened util heap hole links ∧ Does util (heap.picture util)
      (memGrowWith util (unlinkListed util)) (some (hole.header util)) (hole.picture util links) := by
  rcases solidPart_cases heap.blocks with ⟨none, same, last⟩ | ⟨units, one, split⟩
  · exact ⟨heap.page, _, ⟨valid.page last, rfl, same.symm, by rw [none]; rfl, rfl, rfl, .refl _⟩,
      does_memGrowWith_page valid last page⟩
  · obtain ⟨front, isFront⟩ : ∃ front, front = solidPart heap.blocks := ⟨_, rfl⟩
    rw [← isFront] at split
    have listed : (util.place front, 16 * units) ∈ entries heap.lists := by
      rw [valid.listed.mem_iff, split, frees_append]
      exact List.mem_append_right _ List.mem_cons_self
    have removes : ∀ rest m, Describes util ({ heap.picture util with pages := heap.pages + 1 }.at
        (listCells util.head heap.lists + rest)) m →
          unlinkListed util (util.place front) m = removeHeader (util.place front) m := by
      intro rest m described
      have room : (entries heap.lists).length ≤ (heap.pages + 1) * pageWords :=
        Nat.le_trans valid.length_entries (Nat.mul_le_mul_right _ (Nat.le_succ _))
      exact if_pos (listed_block described (Nat.le_refl _) room (List.mem_map_of_mem listed))
    obtain ⟨links, weakens, -, grows⟩ := does_memGrowWith_gap valid split page removes
    exact ⟨_, links, ⟨(valid.gap split).grown rfl 1, rfl, isFront, by rw [one]; rfl, rfl,
      length_dropFree _ _, weakens⟩, grows⟩

/-- In another round it is not. -/
theorem stops_secondRound {links : Multiset (Nat × (Nat → Prop))} (valid : hole.Valid util)
    (atEnd : hole.after = []) (page : hole.pages < util.limit) (some_ : hole.lists ≠ []) :
    Stops (Describes util) (hole.picture util links) (memGrowWith util (unlinkListed util))
      Stop.undefined := by
  obtain ⟨list, others, lists⟩ := List.exists_cons_of_ne_nil some_
  obtain ⟨q, isQ⟩ : ∃ q, q = hole.header util := ⟨_, rfl⟩
  have large := valid.large
  have ends := valid.ends atEnd
  have unlisted := valid.unlisted
  rw [← isQ] at ends unlisted
  obtain ⟨p, isP⟩ : ∃ p : Picture, p = { hole.picture util links with pages := hole.pages + 1 } :=
    ⟨_, rfl⟩
  obtain ⟨new, isNew⟩ : ∃ new, new = raws Nat (q + 2 * hole.units + 1) pageWords := ⟨_, rfl⟩
  obtain ⟨words, isWords⟩ : ∃ words, words = links + tagged q (Tag false true hole.units) +
      raws Nat (q + 3) (2 * hole.units - 4) +
        (spanCells util.first true hole.before + prologueCells util) + new := ⟨_, rfl⟩
  have grown : new + (hole.picture util links).cells =
      tagged (q + 2 * hole.units) (Tag true false 0) +
        (tagged (q + 2 * hole.units - 1) (Tag false true hole.units) +
          (listCells util.head hole.lists + words)) := by
    rw [Gap.picture_end atEnd, Block.cells, ← isQ, isWords]
    abel
  have first : (util.head + 4, fun w => w = list.node) ∈ listCells util.head hole.lists := by
    rw [lists]
    exact first_mem
  have whole : hole.picture util links =
      (hole.picture util links).at (hole.picture util links).cells := rfl
  rw [whole]
  unfold memGrowWith
  apply does_getEnd.stops
  apply (does_sfMemGrow page).stops
  change Stops (Describes util) (Picture.at { hole.picture util links with pages := hole.pages + 1 }
    (raws Nat (util.start + hole.pages * pageWords) pageWords + _)) (lastFree util _
      (util.start + hole.pages * pageWords - 1) >>= _) _
  rw [← ends, ← isNew, ← isP, grown, Nat.add_sub_cancel]
  apply Stops.bind
  apply Stops.look fun _ => reads_info
  intro info tag
  rw [tag.prevAllocated]
  apply (does_second fun _ => does_getHeaderPointer Tag.size_eq (by omega)).stops
  have place : tagged (q + 2 * hole.units) (Tag true false 0) +
        (tagged (q + 2 * hole.units - 1) (Tag false true hole.units) +
          (listCells util.head hole.lists + words)) =
      listCells util.head hole.lists + (tagged (q + 2 * hole.units) (Tag true false 0) +
        (tagged (q + 2 * hole.units - 1) (Tag false true hole.units) + words)) := by
    abel
  rw [place]
  apply Returns.stops (does_load_mem (Multiset.mem_add.mpr (.inl first)))
  intro m described
  have member : list ∈ hole.lists := by
    rw [lists]
    exact List.mem_cons_self
  have other : list.node ≠ util.head := node_ne_head described member
  have few : hole.lists.length ≤ p.nodes := by
    rw [isP]
    exact Nat.le_refl _
  rw [if_pos other]
  exact if_neg (unlisted_block described few unlisted)

/-- No list is for a size that is enough: `header` stays unset. -/
theorem stops_findBlock {unlink : Nat → HeapM Nat} {newSize : Int} (few : lists.length ≤ p.nodes)
    (small : ∀ list ∈ lists, list.size < toSize newSize) :
    Stops (Describes util) (p.at (listCells util.head lists + rest))
      (findBlock util unlink newSize) Stop.undefined := by
  have none : bestFit (toSize newSize) lists = none := by
    rw [← Option.not_isSome_iff_eq_none, bestFit_isSome]
    rintro ⟨list, member, enough, -⟩
    exact Nat.not_le_of_lt (small list member) enough
  have ends : searchFrom util.head (toSize newSize) lists Option.none = (Option.none, util.head) := by
    rcases @searchFrom_empty lists (toSize newSize) util.head Option.none none with
      ⟨list, member, enough, -⟩ | ⟨-, ends⟩
    · exact absurd enough (Nat.not_le_of_lt (small list member))
    · exact ends
  unfold findBlock
  apply Returns.stops (does_load_mem (Multiset.mem_add.mpr (.inl first_mem)))
  have looks : ∀ m, Describes util (p.at (listCells util.head lists + rest)) m →
      ∃ m', (get : HeapM Memory) m = .ok (m', m) ∧ m'.nodes = p.nodes :=
    fun m described => ⟨m, rfl, described.nodes⟩
  apply Stops.look looks
  intro m nodes
  rw [nodes]
  apply (@does_findFrom util p rest [] lists newSize (p.nodes + 1) Option.none
    (Nat.lt_succ_of_le few)).stops
  rw [ends]
  exact fun _ _ => rfl

/-- `header` is used before it is set. -/
theorem sfMallocWith_unset (nonzero : size ≠ 0) (is : unitsFor size = some needed)
    (valid : heap.Valid util) (described : Describes util (heap.picture util) m)
    (small : ∀ list ∈ heap.lists, list.size < 16 * needed) :
    sfMallocWith util unlink size m = .error .undefined := by
  have some_ := pages_ne_zero valid described
  rw [Heap.picture_lists] at described
  rw [← toSize_units (unitsFor_bounds is).2] at small
  rw [sfMallocWith_used nonzero some_, getNewSize_some is]
  exact (stops_findBlock (Nat.le_refl _) small).bind m described

theorem sfMallocWith_opens (nonzero : size ≠ 0) (is : unitsFor size = some needed)
    (valid : heap.Valid util) (described : Describes util (heap.picture util) m)
    (none : bestFit (16 * needed) heap.lists = none)
    (large : ∃ list ∈ heap.lists, 16 * needed ≤ list.size) (page : heap.pages < util.limit) :
    ∃ hole links m', Opened util heap hole links ∧ Describes util (hole.picture util links) m' ∧
      sfMallocWith util (unlinkListed util) size m = growAndAllocate util (unlinkListed util) size
        (16 * needed) (util.limit - heap.pages) (hole.header util) m' := by
  obtain ⟨hole, links, opened, grows⟩ := does_firstRound valid page
  obtain ⟨m', described', runs⟩ := sfMallocWith_grows nonzero is valid described none large page grows
  exact ⟨hole, links, m', opened, described', runs⟩

/-- The block is not large enough, and there is another page: it would have to leave a list again. -/
theorem growAndAllocate_short {links : Multiset (Nat × (Nat → Prop))} (valid : hole.Valid util)
    (atEnd : hole.after = []) (page : hole.pages < util.limit) (some_ : hole.lists ≠ [])
    (short : hole.units < needed) (described : Describes util (hole.picture util links) m) :
    growAndAllocate util (unlinkListed util) size (16 * needed) (rounds + 1) (hole.header util) m =
      .error .undefined := by
  obtain ⟨info, reads, bytes⟩ := valid.header_read described
  have fails := stops_secondRound valid atEnd page some_ m described
  have stops : growTo util (unlinkListed util) (16 * needed) (rounds + 1) (hole.header util) m =
      .error .undefined := by
    rw [growTo, run_bind reads, if_pos (by omega)]
    exact stop_bind fails
  unfold growAndAllocate
  exact stop_bind stops

/-- A call for which the heap grows takes only listed blocks off their lists. It returns the block at
the end of the heap, which starts at the free block there or at the old epilogue, with as few pages
as make it large enough. -/
def GrowsRight (util : Sfutil) (heap : Heap) (needed size : Nat) (m : Memory) : Prop :=
  ∃ (k total : Nat) (payload : List Nat) (heap' : Heap) (m' : Memory),
    total = freeEnd heap.blocks + 256 * k ∧ needed ≤ total ∧
    (∀ j < k, freeEnd heap.blocks + 256 * j < needed) ∧
    sfMallocWith util (unlinkListed util) size m =
      .ok (some (util.place (solidPart heap.blocks) + 1), m') ∧
    sfMalloc util size m = .ok (some (util.place (solidPart heap.blocks) + 1), m') ∧
    heap'.Valid util ∧ Describes util (heap'.picture util) m' ∧
    heap'.pages = heap.pages + k ∧
    heap'.blocks = solidPart heap.blocks ++
      if total < needed + 2 then [.live total (size % 2 ^ 32) payload]
      else [.live needed (size % 2 ^ 32) payload, .free (total - needed)]

theorem short_end (valid : heap.Valid util) (positive : 0 < needed)
    (short : ∀ entry ∈ entries heap.lists, entry.2 < 16 * needed) :
    freeEnd heap.blocks < needed := by
  rcases solidPart_cases heap.blocks with ⟨none, -⟩ | ⟨units, one, split⟩
  · omega
  · have listed : (util.place (solidPart heap.blocks), 16 * units) ∈ entries heap.lists := by
      obtain ⟨front, isFront⟩ : ∃ front, front = solidPart heap.blocks := ⟨_, rfl⟩
      rw [← isFront] at split ⊢
      rw [valid.listed.mem_iff, split, frees_append]
      exact List.mem_append_right _ List.mem_cons_self
    have := short _ listed
    dsimp only at this
    omega

section

variable (nonzero : size ≠ 0) (isNeeded : unitsFor size = some needed) (valid : heap.Valid util)
variable (described : Describes util (heap.picture util) m)
variable (none : bestFit (16 * needed) heap.lists = none)
variable (large : ∃ list ∈ heap.lists, 16 * needed ≤ list.size) (page : heap.pages < util.limit)
include nonzero isNeeded valid described none large page

/-- The first page is enough. -/
theorem growsRight_of_fits (less : freeEnd heap.blocks < needed)
    (fits : needed ≤ freeEnd heap.blocks + 256) : GrowsRight util heap needed size m := by
  have positive := (unitsFor_bounds isNeeded).1
  obtain ⟨hole, links, m₁, opened, described', opens⟩ :=
    sfMallocWith_opens nonzero isNeeded valid described none large page
  obtain ⟨rounds, isRounds⟩ : ∃ rounds, util.limit - heap.pages = rounds + 1 :=
    ⟨util.limit - heap.pages - 1, by omega⟩
  have enough : needed ≤ hole.units := by
    rw [opened.units]
    exact fits
  obtain ⟨payload, m', length, runs, left⟩ := @growAndAllocate_fits util hole links m₁ needed
    size rounds (unlinkListed util) opened.valid positive enough opened.weakens described'
  have header : hole.header util = util.place (solidPart heap.blocks) := by
    rw [Gap.header, opened.before]
  rw [isRounds, runs, header] at opens
  refine ⟨1, hole.units, payload, _, m', opened.units, enough, ?_, opens,
    sfMallocWith_below below_unlinkListed size m _ opens, opened.valid.filled positive length size,
    left, ?_, ?_⟩
  · intro j first
    obtain rfl : j = 0 := by omega
    exact less
  · unfold Gap.filled
    split_ifs <;> exact opened.pages
  · unfold Gap.filled
    rw [opened.before, opened.atEnd]
    split_ifs <;> rfl

/-- The first page is not enough, and there is another one. -/
theorem not_growsRight_of_short (short : freeEnd heap.blocks + 256 < needed)
    (more : heap.pages + 1 < util.limit) : ¬ GrowsRight util heap needed size m := by
  rintro ⟨k, total, payload, heap', m', -, -, -, runs, -⟩
  obtain ⟨hole, links, m₁, opened, described', opens⟩ :=
    sfMallocWith_opens nonzero isNeeded valid described none large page
  have another : hole.pages < util.limit := by
    rw [opened.pages]
    exact more
  have some_ : hole.lists ≠ [] := by
    obtain ⟨list, member, -⟩ := large
    rw [← List.length_pos_iff, opened.lists, List.length_pos_iff]
    exact List.ne_nil_of_mem member
  have less : hole.units < needed := by
    rw [opened.units]
    exact short
  obtain ⟨rounds, isRounds⟩ : ∃ rounds, util.limit - heap.pages = rounds + 1 :=
    ⟨util.limit - heap.pages - 1, by omega⟩
  rw [opens, isRounds, growAndAllocate_short opened.valid opened.atEnd another some_ less
    described'] at runs
  cases runs

end

theorem growsRight_iff (valid : heap.Valid util) (described : Describes util (heap.picture util) m)
    (computed : getNewSize size = 16 * (needed : Int))
    (short : ∀ entry ∈ entries heap.lists, entry.2 < 16 * needed)
    (pages : ∃ k, heap.pages + k ≤ util.limit ∧ needed ≤ freeEnd heap.blocks + 256 * k) :
    GrowsRight util heap needed size m ↔ size ≠ 0 ∧
      (∃ list ∈ heap.lists, 16 * needed ≤ list.size) ∧ needed ≤ freeEnd heap.blocks + 256 := by
  have isNeeded := unitsFor_of_getNewSize computed
  have positive := (unitsFor_bounds isNeeded).1
  have less := short_end valid (by omega) short
  obtain ⟨k, room, enough⟩ := pages
  have some_ : k ≠ 0 := by
    rintro rfl
    omega
  have page : heap.pages < util.limit := by omega
  have none : bestFit (16 * needed) heap.lists = none := by
    rw [bestFit, List.find?_eq_none]
    intro entry member
    simpa using short entry member
  constructor
  · intro grows
    have runs : ∃ q m', sfMallocWith util (unlinkListed util) size m = .ok (some q, m') := by
      obtain ⟨-, -, -, -, m', -, -, -, runs, -⟩ := grows
      exact ⟨_, m', runs⟩
    obtain ⟨q, m', runs⟩ := runs
    have nonzero : size ≠ 0 := by
      rintro rfl
      cases runs
    have large : ∃ list ∈ heap.lists, 16 * needed ≤ list.size := by
      by_contra small
      rw [sfMallocWith_unset nonzero isNeeded valid described fun list member =>
        Nat.lt_of_not_le fun enough => small ⟨list, member, enough⟩] at runs
      cases runs
    refine ⟨nonzero, large, Nat.le_of_not_lt fun more => ?_⟩
    exact not_growsRight_of_short nonzero isNeeded valid described none large page more (by omega)
      grows
  · rintro ⟨nonzero, large, fits⟩
    exact growsRight_of_fits nonzero isNeeded valid described none large page less fits

theorem entry_listed {header : Nat} (described : Describes util (heap.picture util) m)
    (listed : (header, size) ∈ entries heap.lists) : (size, true) ∈ freeLists util m := by
  obtain ⟨list, member, isMember⟩ := List.mem_flatMap.mp listed
  obtain ⟨other, inList, is⟩ := List.mem_map.mp isMember
  obtain ⟨rfl, rfl⟩ := Prod.mk.inj is
  rw [described.freeLists]
  refine List.mem_map.mpr ⟨list, member, ?_⟩
  cases members : list.members with
  | nil =>
      rw [members] at inList
      cases inList
  | cons _ _ => rfl

/-- The last block is allocated, and an empty list is for a size that is enough. -/
theorem growsRight_page : ∃ (state : State) (heap : Heap),
    Runs.run (step fourPages) (start fourPages) [.malloc 100, .malloc 3900] = some state ∧
      heap.Valid fourPages ∧ Describes fourPages (heap.picture fourPages) state.memory ∧
      (GrowsRight fourPages heap 13 200 state.memory ↔ 200 ≠ 0 ∧
        (∃ list ∈ heap.lists, 16 * 13 ≤ list.size) ∧ 13 ≤ freeEnd heap.blocks + 256) := by
  obtain ⟨state, taken, reached, passed⟩ := exists_allowed fourPages [.malloc 100, .malloc 3900]
    (by decide +kernel) (fun state => decide (1006 ∈ state.pointers ∧ state.memory.pages = 1 ∧
      ∀ list ∈ freeLists fourPages state.memory, list.2 = true → list.1 < 208)) (by decide +kernel)
  obtain ⟨owned, one, small⟩ := of_decide_eq_true passed
  obtain ⟨shape, stands⟩ := stands_of_reachable reached
  obtain ⟨heap, -, rfl, -⟩ := stands.owns owned
  have described : Describes fourPages (heap.picture fourPages) state.memory := stands.described
  have pages : state.memory.pages = heap.pages := described.pages
  refine ⟨state, heap, taken, stands.valid, described, growsRight_iff stands.valid described rfl
    (fun entry listed => small _ (entry_listed described listed) rfl) ⟨1, ?_, by omega⟩⟩
  rw [← pages, one]
  decide

/-- A list is for no size that is enough: `header` is used before it is set. -/
theorem not_always_growsRight :
    ¬ ∀ state, Runs.Reachable (step fourPages) (Allowed fourPages) (start fourPages) state →
      ∀ (heap : Heap) (needed size : Nat), heap.Valid fourPages →
        Describes fourPages (heap.picture fourPages) state.memory →
        getNewSize size = 16 * (needed : Int) → size ≠ 0 →
        (∀ entry ∈ entries heap.lists, entry.2 < 16 * needed) →
        (∃ k, heap.pages + k ≤ fourPages.limit ∧ needed ≤ freeEnd heap.blocks + 256 * k) →
          GrowsRight fourPages heap needed size state.memory := by
  intro always
  obtain ⟨state, -, reached, passed⟩ := exists_allowed fourPages [.malloc 100] (by decide +kernel)
    (fun state => decide (1006 ∈ state.pointers ∧ state.memory.pages = 1 ∧
      ∀ list ∈ freeLists fourPages state.memory, list.2 = true → list.1 < 4016) &&
        match sfMalloc fourPages 4000 state.memory with
        | .ok _ => false
        | .error _ => true) (by decide +kernel)
  rw [Bool.and_eq_true] at passed
  obtain ⟨holds, fails⟩ := passed
  obtain ⟨owned, one, small⟩ := of_decide_eq_true holds
  obtain ⟨shape, stands⟩ := stands_of_reachable reached
  obtain ⟨heap, -, rfl, -⟩ := stands.owns owned
  have described : Describes fourPages (heap.picture fourPages) state.memory := stands.described
  have pages : state.memory.pages = heap.pages := described.pages
  have room : heap.pages + 1 ≤ fourPages.limit := by
    rw [← pages, one]
    decide
  obtain ⟨k, total, payload, heap', m', -, -, -, -, runs, -⟩ := always state reached heap 251 4000
    stands.valid described rfl (by decide)
    (fun entry listed => small _ (entry_listed described listed) rfl) ⟨1, room, by omega⟩
  rw [runs] at fails
  cases fails

end Audible.Sfmm
