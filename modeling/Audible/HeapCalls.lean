import Audible.HeapLives

set_option autoImplicit false

/- What the calls of the program do to live blocks, and when `sf_malloc` may be called. -/
namespace Audible.Sfmm

open Cells Returning

variable {util : Sfutil} {p : Picture} {rest : Multiset (Nat × (Nat → Prop))}
variable {heap heap' : Heap} {hole : Gap} {m : Memory} {lists before after : List FreeList}
variable {list : FreeList} {needed size n : Nat} {result : Option Nat}

/-- The lists from a node on: their sizes, and whether a block is on them. -/
def listsFrom (util : Sfutil) (m : Memory) : Nat → Nat → List (Nat × Bool)
  | 0, _ => []
  | rounds + 1, node =>
      if node = util.head then []
      else ((m.word node).getD 0, m.word (node + 2) != some (node + 1)) ::
        listsFrom util m rounds ((m.word (node + 4)).getD util.head)

def freeLists (util : Sfutil) (m : Memory) : List (Nat × Bool) :=
  listsFrom util m m.nodes ((m.word (util.head + 4)).getD util.head)

/-- The bit of the epilogue that says that the block before it is free. -/
def endsFree (util : Sfutil) (m : Memory) : Bool :=
  !(Info.decode ((m.word (memEnd util m - 1)).getD 0)).prevAllocated

/-- When `sf_malloc` may be called for a block of some units. Before the first call it may.
After that a listed block is enough, or there is an empty list that the search remembers, a page
to be had, and no round of the loop but the first has to take a block off a list it is not on. -/
def Admits (util : Sfutil) (m : Memory) (needed : Nat) : Prop :=
  m.pages = 0 ∨
  (∃ list ∈ freeLists util m, 16 * needed ≤ list.1 ∧ list.2 = true) ∨
  (∃ list ∈ freeLists util m, 16 * needed ≤ list.1) ∧ m.pages < util.limit ∧
    (endsFree util m = true ∨ needed ≤ 256 ∨ m.pages + 1 = util.limit)

instance (util : Sfutil) (m : Memory) (needed : Nat) : Decidable (Admits util m needed) :=
  inferInstanceAs (Decidable (_ ∨ _))

/-- The same for a size. One that is rounded up to `INT_MIN` is more than that of any list, as a
`size_t`: the call for it can only be the first. -/
def AdmitsSize (util : Sfutil) (m : Memory) (size : Nat) : Prop :=
  (∀ needed ∈ unitsFor size, Admits util m needed) ∧ (unitsFor size = none → m.pages = 0)

instance (util : Sfutil) (m : Memory) (size : Nat) : Decidable (AdmitsSize util m size) :=
  inferInstanceAs (Decidable (_ ∧ _))

theorem Describes.word {a v : Nat} {cells : Multiset (Nat × (Nat → Prop))}
    (described : Describes util (p.at (cells + rest)) m) (member : (a, fun w => w = v) ∈ cells) :
    m.word a = some v := by
  obtain ⟨w, here, is⟩ := described.holds.left.agrees _ member
  rw [here]
  exact congrArg some is

theorem reads_listsFrom {rounds : Nat} (enough : after.length ≤ rounds)
    (described : Describes util (p.at (listCells util.head (before ++ after) + rest)) m) :
    listsFrom util m rounds ((after.map FreeList.node).headD util.head) =
      after.map fun list => (list.size, !list.members.isEmpty) := by
  induction after generalizing before rounds with
  | nil =>
      cases rounds with
      | zero => rfl
      | succ rounds => exact if_pos rfl
  | cons list after ih =>
      obtain ⟨rounds, rfl⟩ := Nat.exists_eq_add_one_of_ne_zero (Nat.ne_zero_of_lt enough)
      have member : list ∈ before ++ list :: after := by simp
      have size := described.word (size_mem member)
      have first := described.word (first_member_mem member)
      have next := described.word next_mem
      have members : (m.word (list.node + 2) != some (list.node + 1)) = !list.members.isEmpty := by
        rw [first]
        cases is : list.members with
        | nil => simp
        | cons header others => simpa using member_ne_node described member (is ▸ List.mem_cons_self)
      have other := node_ne_head described member
      rw [List.append_cons] at described
      unfold listsFrom
      rw [List.map_cons, List.headD_cons, if_neg other, size, members, next, List.map_cons]
      exact congrArg _ (ih (Nat.le_of_succ_le_succ enough) described)

theorem Describes.freeLists (described : Describes util (heap.picture util) m) :
    freeLists util m = heap.lists.map fun list => (list.size, !list.members.isEmpty) := by
  have nodes : m.nodes = heap.lists.length := described.nodes
  rw [Heap.picture_lists] at described
  rw [Sfmm.freeLists, described.word first_mem, nodes]
  exact @reads_listsFrom _ _ _ _ [] _ _ (Nat.le_refl _) described

theorem Describes.endsFree (valid : heap.Valid util) (described : Describes util (heap.picture util) m) :
    endsFree util m = !lastAllocated true heap.blocks := by
  have pages : m.pages = heap.pages := described.pages
  have ends := valid.ends
  have place : heap.picture util = (heap.picture util).at (tagged (util.place heap.blocks)
      (Tag true (lastAllocated true heap.blocks) 0) + (spanCells util.first true heap.blocks +
        (prologueCells util + listCells util.head heap.lists))) := by
    have blocks := blocksCells_append util.first true heap.blocks []
    rw [List.append_nil] at blocks
    rw [Heap.picture, blocks, Picture.at]
    congr 1
    rw [Sfutil.place, blocksCells]
    abel
  rw [place] at described
  obtain ⟨w, here, tag⟩ := described.holds.read
  have last : memEnd util m - 1 = util.place heap.blocks := by
    rw [memEnd, pages, ← ends, Nat.add_sub_cancel]
  rw [Sfmm.endsFree, last, here]
  exact congrArg (!·) tag.prevAllocated

/-- A list that a block of a size is on. -/
theorem bestFit_isSome : (bestFit size lists).isSome ↔
    ∃ list ∈ lists, size ≤ list.size ∧ list.members ≠ [] := by
  rw [bestFit, List.find?_isSome]
  constructor
  · rintro ⟨entry, member, enough⟩
    obtain ⟨list, isList, inside⟩ := List.mem_flatMap.mp member
    obtain ⟨header, isMember, rfl⟩ := List.mem_map.mp inside
    exact ⟨list, isList, of_decide_eq_true enough, List.ne_nil_of_mem isMember⟩
  · rintro ⟨list, isList, enough, some_⟩
    obtain ⟨header, others, members⟩ := List.exists_cons_of_ne_nil some_
    refine ⟨(header, list.size), List.mem_flatMap.mpr ⟨list, isList, ?_⟩, decide_eq_true enough⟩
    exact List.mem_map.mpr ⟨header, by rw [members]; exact List.mem_cons_self, rfl⟩

def Heap.Admits (util : Sfutil) (heap : Heap) (needed : Nat) : Prop :=
  (bestFit (16 * needed) heap.lists).isSome ∨
  (∃ list ∈ heap.lists, 16 * needed ≤ list.size) ∧ heap.pages < util.limit ∧
    (lastAllocated true heap.blocks = false ∨ needed ≤ 256 ∨ heap.pages + 1 = util.limit)

theorem Describes.admits (valid : heap.Valid util) (described : Describes util (heap.picture util) m) :
    Admits util m needed ↔ heap.Admits util needed := by
  have pages : m.pages = heap.pages := described.pages
  have used := pages_ne_zero valid described
  rw [Sfmm.Admits, Heap.Admits, bestFit_isSome, described.freeLists, described.endsFree valid, pages]
  simp only [← pages, used, false_or, List.mem_map, exists_exists_and_eq_and, Bool.not_eq_true',
    List.isEmpty_eq_false_iff]

inductive Shape
  | empty (enomem : Bool)
  | used (heap : Heap)

def Shape.picture (util : Sfutil) : Shape → Picture
  | .empty enomem => emptyPicture util enomem
  | .used heap => heap.picture util

def Shape.Valid (util : Sfutil) : Shape → Prop
  | .empty _ => True
  | .used heap => heap.Valid util

def Shape.lives (util : Sfutil) : Shape → List Live
  | .empty _ => []
  | .used heap => heap.lives util

def Shape.freeBytes (util : Sfutil) : Shape → Nat
  | .empty _ => 0
  | .used heap => heap.freeBytes util

-- `sf_malloc`

def Shape.blocks : Shape → List Block
  | .empty _ => []
  | .used heap => heap.blocks

theorem Shape.lives_eq (shape : Shape) :
    shape.lives util = Sfmm.lives util.first shape.blocks := by
  cases shape <;> rfl

/-- The blocks are the same up to free ones at the end. -/
def Extends (blocks blocks' : List Block) : Prop :=
  ∃ before tail tail', blocks = before ++ tail ∧ blocks' = before ++ tail' ∧
    ∀ block ∈ tail ++ tail', block.allocated = false

theorem lives_free {a : Nat} {blocks : List Block} (free : ∀ block ∈ blocks, block.allocated = false) :
    Sfmm.lives a blocks = [] := by
  induction blocks generalizing a with
  | nil => rfl
  | cons block blocks ih =>
      rw [List.forall_mem_cons] at free
      cases block with
      | live units requested payload => exact absurd free.1 (by simp [Block.allocated])
      | free units => exact ih free.2

theorem Extends.lives {blocks blocks' : List Block} (extends_ : Extends blocks blocks') (a : Nat) :
    Sfmm.lives a blocks' = Sfmm.lives a blocks := by
  obtain ⟨before, tail, tail', rfl, rfl, free⟩ := extends_
  rw [List.forall_mem_append] at free
  rw [lives_append, lives_append, lives_free free.1, lives_free free.2]

theorem Extends.shape {shape shape' : Shape} (extends_ : Extends shape.blocks shape'.blocks) :
    shape'.lives util = shape.lives util := by
  rw [shape.lives_eq, shape'.lives_eq, extends_.lives]

/-- A block more, or no page left. -/
inductive Served (util : Sfutil) (needed size : Nat) (shape : Shape) : Option Nat → Shape → Prop
  | block {shape' : Shape} {live : Live} (enough : needed ≤ live.units)
      (requested : live.requested = size % 2 ^ 32)
      (added : (shape'.lives util).Perm (live :: shape.lives util))
      (errno : (shape'.picture util).enomem = (shape.picture util).enomem) :
      Served util needed size shape (some live.pointer) shape'
  | enomem {shape' : Shape} (same : Extends shape.blocks shape'.blocks)
      (full : (shape'.picture util).pages = util.limit)
      (flag : (shape'.picture util).enomem = true) : Served util needed size shape none shape'

/-- A gap in place of a heap. -/
theorem Gap.Valid.served {shape : Shape} (valid : hole.Valid util) (positive : 2 ≤ needed)
    (serves : hole.Serves util needed size result heap) (same : hole.lives util = shape.lives util)
    (errno : hole.enomem = (shape.picture util).enomem)
    (atEnd : hole.units < needed → Extends shape.blocks hole.blocks) :
    (Shape.used heap).Valid util ∧ Served util needed size shape result (.used heap) := by
  refine ⟨valid.serves positive serves, ?_⟩
  cases serves with
  | block payload enough length =>
      have taken : needed ≤ hole.taken needed := by
        unfold Gap.taken
        split
        · exact enough
        · exact Nat.le_refl _
      refine @Served.block util needed size shape (.used _) ⟨hole.header util, _, _, payload⟩ taken
        rfl ?_ ?_
      · rw [← same]
        exact lives_filled
      · rw [← errno, Gap.filled]
        split <;> rfl
  | enomem full short => exact .enomem (atEnd short) full rfl

theorem sfMalloc_served {shape : Shape} (nonzero : size ≠ 0) (is : unitsFor size = some needed)
    (valid : shape.Valid util) (described : Describes util (shape.picture util) m)
    (admits : Admits util m needed) :
    ∃ result shape' m', sfMalloc util size m = .ok (result, m') ∧ shape'.Valid util ∧
      Describes util (shape'.picture util) m' ∧ Served util needed size shape result shape' := by
  have large := (unitsFor_bounds is).1
  cases shape with
  | empty enomem =>
      rcases Nat.eq_zero_or_pos util.limit with zero | page
      · obtain ⟨m', runs, left⟩ := sfMalloc_unavailable nonzero zero described
        exact ⟨none, .empty true, m', runs, trivial, left,
          .enomem ⟨[], [], [], rfl, rfl, by simp⟩ zero.symm rfl⟩
      · obtain ⟨k, result, heap, m', -, -, runs, serves, left⟩ :=
          sfMalloc_first nonzero is page described
        obtain ⟨valid', served⟩ := @Gap.Valid.served util heap _ needed size result (.empty enomem)
          ((firstGap_valid enomem).grown rfl k) large serves rfl rfl
          fun _ => ⟨[], [], _, rfl, rfl, by simp [Gap.grown, Block.allocated, firstGap]⟩
        exact ⟨result, .used heap, m', runs, valid', left, served⟩
  | used heap =>
      have valid : heap.Valid util := valid
      have admits := (described.admits valid).mp admits
      cases found : bestFit (16 * needed) heap.lists with
      | some fit =>
          obtain ⟨before, units, after, result, heap', m', split, -, -, enough, runs, serves, left⟩ :=
            sfMalloc_fit nonzero is valid described found
          obtain ⟨valid', served⟩ := @Gap.Valid.served util heap' _ needed size result (.used heap)
            (valid.gap split) large serves (lives_gap split) rfl
            fun short => absurd enough (Nat.not_le.mpr short)
          exact ⟨result, .used heap', m', runs, valid', left, served⟩
      | none =>
          rw [Heap.Admits, found] at admits
          obtain ⟨list, page, shallow⟩ := admits.resolve_left (by simp)
          rcases solidPart_cases heap.blocks with ⟨-, -, last⟩ | ⟨units, -, split⟩
          · have once := shallow.resolve_left (by rw [last]; simp)
            obtain ⟨k, result, heap', m', -, -, runs, serves, left⟩ :=
              sfMalloc_grow_live nonzero is valid described found list page last once
            obtain ⟨valid', served⟩ := @Gap.Valid.served util heap' _ needed size result (.used heap)
              ((valid.page last).grown rfl k) large serves ((lives_grown rfl).trans (lives_page heap))
              rfl
              fun _ => ⟨heap.blocks, [], [_], (List.append_nil _).symm, rfl, by simp [Block.allocated]⟩
            exact ⟨result, .used heap', m', runs, valid', left, served⟩
          · obtain ⟨k, result, heap', m', -, -, -, runs, serves, left⟩ :=
              sfMalloc_grow_free nonzero is valid described found list page split
            obtain ⟨valid', served⟩ := @Gap.Valid.served util heap' _ needed size result (.used heap)
              ((valid.gap split).grown rfl k) large serves ((lives_grown rfl).trans (lives_gap split))
              rfl
              fun _ => ⟨solidPart heap.blocks, [_], [_], split, rfl, by simp [Block.allocated]⟩
            exact ⟨result, .used heap', m', runs, valid', left, served⟩

/-- The first call, for a size that is rounded up to `INT_MIN`. -/
theorem sfMalloc_wrapped {enomem : Bool} (nonzero : size ≠ 0) (wraps : unitsFor size = none)
    (described : Describes util (emptyPicture util enomem) m) :
    ∃ result shape' m', sfMalloc util size m = .ok (result, m') ∧ shape'.Valid util ∧
      Describes util (shape'.picture util) m' ∧
      Served util 253 size (.empty enomem) result shape' := by
  rcases Nat.eq_zero_or_pos util.limit with zero | page
  · obtain ⟨m', runs, left⟩ := sfMalloc_unavailable nonzero zero described
    exact ⟨none, .empty true, m', runs, trivial, left,
      .enomem ⟨[], [], [], rfl, rfl, by simp⟩ zero.symm rfl⟩
  · obtain ⟨result, heap, m', runs, serves, left⟩ :=
      sfMalloc_first_wrapped nonzero wraps page described
    obtain ⟨valid', served⟩ := @Gap.Valid.served util heap _ 253 size result (.empty enomem)
      (firstGap_valid enomem) (Nat.le_of_ble_eq_true rfl) serves rfl rfl
      fun _ => ⟨[], [], _, rfl, rfl, by simp [Block.allocated, firstGap]⟩
    exact ⟨result, .used heap, m', runs, valid', left, served⟩

theorem sfMalloc_called {shape : Shape} (nonzero : size ≠ 0) (valid : shape.Valid util)
    (described : Describes util (shape.picture util) m)
    (admits : AdmitsSize util m size) :
    ∃ needed result shape' m', (∀ units, unitsFor size = some units → units = needed) ∧
      sfMalloc util size m = .ok (result, m') ∧ shape'.Valid util ∧
      Describes util (shape'.picture util) m' ∧ Served util needed size shape result shape' := by
  cases isNeeded : unitsFor size with
  | some needed =>
      obtain ⟨result, shape', m', runs, valid', left, served⟩ :=
        sfMalloc_served nonzero isNeeded valid described (admits.1 needed isNeeded)
      exact ⟨needed, result, shape', m', fun units same => (Option.some.inj same).symm, runs, valid',
        left, served⟩
  | none =>
      cases shape with
      | used heap => exact absurd (admits.2 isNeeded) (pages_ne_zero valid described)
      | empty enomem =>
          obtain ⟨result, shape', m', runs, valid', left, served⟩ :=
            sfMalloc_wrapped nonzero isNeeded described
          exact ⟨_, result, shape', m', (fun _ other => nomatch other), runs, valid', left, served⟩

-- `sf_free` and `sf_realloc`

variable {live : Live}

/-- The block has room for what was requested, which `sf_abort` looks at. -/
def Live.Roomy (live : Live) : Prop := live.requested + 8 ≤ 16 * live.units

theorem sfFree_served (valid : heap.Valid util) (described : Describes util (heap.picture util) m)
    (member : live ∈ heap.lives util) (roomy : live.Roomy) :
    ∃ (heap' : Heap) (m' : Memory), sfFree util live.pointer m = .ok ((), m') ∧ heap'.Valid util ∧
      Describes util (heap'.picture util) m' ∧
      (heap.lives util).Perm (live :: heap'.lives util) ∧ heap'.enomem = heap.enomem := by
  obtain ⟨before, after, split, place⟩ := lives_split member
  obtain ⟨m', runs, left⟩ := does_sfFree valid split roomy m described
  refine ⟨_, m', ?_, afterFree_valid valid split, left, ?_, rfl⟩
  · rw [Live.pointer, place]
    exact runs
  · have same : live = ⟨util.place before, live.units, live.requested, live.payload⟩ := by
      rw [Sfutil.place, ← place]
    rw [lives_of_split split, lives_afterFree, ← same]
    exact List.perm_middle

/-- A block without that room is refused. -/
theorem sfAbort_small (valid : heap.Valid util) (described : Describes util (heap.picture util) m)
    (member : live ∈ heap.lives util) (small : ¬ live.Roomy) :
    sfAbort util live.pointer m = .error .aborted := by
  obtain ⟨before, after, split, place⟩ := lives_split member
  have pages : heap.pages ≤ util.limit := described.room
  have fits := valid.smaller pages
  rw [split, unitsOf_append, unitsOf_cons, Block.units] at fits
  change Describes util ((heap.picture util).at (heap.picture util).cells) m at described
  rw [Heap.picture_live split, ← place] at described
  refine sfAbort_refuses described fun info tag => .inr ?_
  rw [Info.bytes_eq tag.size (by omega), toSize_units (by omega), tag.requested]
  exact Nat.lt_of_not_le small

theorem sfFree_small {pp : Nat} (aborts : sfAbort util pp m = .error .aborted) :
    sfFree util pp m = .error .aborted := by
  unfold sfFree
  exact stop_bind aborts

theorem sfRealloc_small {pp : Nat} (aborts : sfAbort util pp m = .error .aborted) (n : Nat) :
    sfRealloc util pp n m = .error .aborted := by
  unfold sfRealloc
  exact stop_bind aborts

/-- A smaller request, or the same. -/
theorem sfRealloc_kept (valid : heap.Valid util) (described : Describes util (heap.picture util) m)
    (member : live ∈ heap.lives util) (roomy : live.Roomy) (positive : 0 < n)
    (less : n ≤ live.requested) :
    ∃ (heap' : Heap) (m' : Memory) (k : Nat) (kept : List Live),
      sfRealloc util live.pointer n m = .ok (some live.pointer, m') ∧
      heap'.Valid util ∧ Describes util (heap'.picture util) m' ∧
      (heap.lives util).Perm (live :: kept) ∧
      (heap'.lives util).Perm (⟨live.header, k, n, live.payload.take (2 * k - 1)⟩ :: kept) ∧
      n + 8 ≤ 16 * k := by
  obtain ⟨before, after, split, place⟩ := lives_split member
  have pages : heap.pages ≤ util.limit := described.room
  have own : (Block.live live.units live.requested live.payload).Fits := by
    have fits := valid.fits
    rw [split] at fits
    exact fits _ (by simp)
  have length := own.2
  obtain ⟨kept, isKept⟩ : ∃ kept, kept = lives util.first before ++
      lives (util.place before + 2 * live.units) after := ⟨_, rfl⟩
  have same : live = ⟨util.place before, live.units, live.requested, live.payload⟩ := by
    rw [Sfutil.place, ← place]
  have old : (heap.lives util).Perm (live :: kept) := by
    rw [lives_of_split split, isKept, ← same]
    exact List.perm_middle
  rw [Live.pointer, place]
  rcases Nat.lt_or_eq_of_le less with less | rfl
  · obtain ⟨needed, isNeeded, large, fewer, enough⟩ :=
      valid.unitsFor_le pages split roomy (Nat.le_of_lt less)
    obtain ⟨m', runs, left⟩ :=
      does_sfRealloc_shrink valid split roomy positive less isNeeded fewer m described
    refine ⟨_, m', if live.units < needed + 2 then live.units else needed, kept, runs,
      afterShrink_valid valid split large, left, old, ?_, ?_⟩
    · rw [lives_afterShrink own rfl, isKept]
      exact List.perm_middle
    · split_ifs
      · have := roomy
        unfold Live.Roomy at this
        omega
      · exact enough
  · obtain ⟨m', runs, left⟩ :=
      does_sfRealloc_same valid split roomy (Nat.ne_of_gt positive) m described
    refine ⟨heap, m', live.units, kept, runs, valid, left, old, ?_, roomy⟩
    rw [List.take_of_length_le (by omega), show (⟨util.first + 2 * unitsOf before, live.units,
      live.requested, live.payload⟩ : Live) = live from same.symm]
    exact old

theorem sfRealloc_zero (valid : heap.Valid util) (described : Describes util (heap.picture util) m)
    (member : live ∈ heap.lives util) (roomy : live.Roomy) :
    ∃ (heap' : Heap) (m' : Memory), sfRealloc util live.pointer 0 m = .ok (none, m') ∧
      heap'.Valid util ∧ Describes util (heap'.picture util) m' ∧
      (heap.lives util).Perm (live :: heap'.lives util) := by
  obtain ⟨before, after, split, place⟩ := lives_split member
  obtain ⟨m', runs, left⟩ := does_sfRealloc_zero valid split roomy m described
  have same : live = ⟨util.place before, live.units, live.requested, live.payload⟩ := by
    rw [Sfutil.place, ← place]
  refine ⟨_, m', ?_, afterFree_valid valid split, left, ?_⟩
  · rw [Live.pointer, place]
    exact runs
  · rw [lives_of_split split, lives_afterFree, ← same]
    exact List.perm_middle

/-- What a larger request does to the block it is for. -/
inductive Moved (util : Sfutil) (needed n : Nat) (live : Live) (heap : Heap) :
    Option Nat → Heap → Prop
  | moved {heap' : Heap} {new : Live} {kept : List Live} (enough : needed ≤ new.units)
      (requested : new.requested = n % 2 ^ 32) (old : (heap.lives util).Perm (live :: kept))
      (added : (heap'.lives util).Perm (new :: kept)) (errno : heap'.enomem = heap.enomem) :
      Moved util needed n live heap (some new.pointer) heap'
  | enomem {heap' : Heap} (same : Extends heap.blocks heap'.blocks)
      (full : heap'.pages = util.limit) (flag : heap'.enomem = true) :
      Moved util needed n live heap none heap'

/-- A larger request gets another block, and the block it had is freed. -/
theorem sfRealloc_moved (valid : heap.Valid util) (described : Describes util (heap.picture util) m)
    (member : live ∈ heap.lives util) (roomy : live.Roomy) (more : live.requested < n)
    (isNeeded : unitsFor n = some needed) (admits : Admits util m needed) :
    ∃ (result : Option Nat) (heap' : Heap) (m' : Memory),
      sfRealloc util live.pointer n m = .ok (result, m') ∧ heap'.Valid util ∧
      Describes util (heap'.picture util) m' ∧
      Moved util needed n live heap result heap' := by
  obtain ⟨before, after, split, place⟩ := lives_split member
  have nonzero : n ≠ 0 := Nat.ne_zero_of_lt more
  obtain ⟨m₁, described₁, runs⟩ :=
    sfRealloc_looks valid split roomy nonzero (Nat.le_of_lt more) described
  have admits₁ : Admits util m₁ needed :=
    (described₁.admits valid).mpr ((described.admits valid).mp admits)
  have pointer : util.place before + 1 = live.pointer := by rw [Live.pointer, place, Sfutil.place]
  obtain ⟨result, shape, m₂, allocates, valid₂, described₂, served⟩ :=
    @sfMalloc_served util m₁ needed n (.used heap) nonzero isNeeded valid described₁ admits₁
  rw [pointer, if_pos more, run_bind allocates] at runs
  cases served with
  | @block _ new enough requested added errno =>
      cases shape with
      | empty enomem => exact absurd added.length_eq (by simp [Shape.lives])
      | used heap₂ =>
          have member₂ : live ∈ heap₂.lives util :=
            added.mem_iff.mpr (List.mem_cons_of_mem _ member)
          obtain ⟨heap', m', frees, valid', described', freed, same⟩ :=
            sfFree_served valid₂ described₂ member₂ roomy
          obtain ⟨first, last, isLives⟩ := List.append_of_mem member
          have old : (heap.lives util).Perm (live :: (first ++ last)) := by
            rw [isLives]
            exact List.perm_middle
          have both : (live :: heap'.lives util).Perm (live :: new :: (first ++ last)) :=
            freed.symm.trans (added.trans ((old.cons new).trans (.swap live new _)))
          refine ⟨_, heap', m', runs.trans ?_, valid', described',
            .moved enough requested old both.cons_inv (same.trans errno)⟩
          simp only
          rw [run_bind frees]
          rfl
  | enomem same full flag =>
      cases shape with
      | empty enomem =>
          have none : heap.lives util = [] := (same.lives util.first).symm
          exact absurd member (by rw [none]; exact List.not_mem_nil)
      | used heap₂ => exact ⟨none, heap₂, m₂, runs, valid₂, described₂, .enomem same full flag⟩

theorem values_set {a i w : Nat} {vs : List Nat} (inside : i < vs.length) :
    ∃ rest, values a vs = value (a + i) vs[i] + rest ∧
      values a (vs.set i w) = value (a + i) w + rest := by
  induction vs generalizing a i with
  | nil => cases inside
  | cons v vs ih =>
      cases i with
      | zero => exact ⟨values (a + 1) vs, rfl, rfl⟩
      | succ i =>
          obtain ⟨rest, was, is⟩ := @ih (a + 1) i (Nat.lt_of_succ_lt_succ inside)
          rw [Nat.add_assoc, Nat.add_comm 1 i] at was is
          refine ⟨value a v + rest, ?_, ?_⟩
          · rw [add_left_comm, List.getElem_cons_succ, ← was]
            rfl
          · rw [add_left_comm, ← is]
            rfl

/-- A word of a payload is written, and nothing else changes. -/
theorem store_payload {before after : List Block} {units requested i w : Nat} {payload : List Nat}
    (valid : heap.Valid util) (described : Describes util (heap.picture util) m)
    (split : heap.blocks = before ++ .live units requested payload :: after)
    (inside : i < payload.length) :
    ∃ (heap' : Heap) (m' : Memory), heap' = { heap with
        blocks := before ++ .live units requested (payload.set i w) :: after } ∧
      store (util.place before + 1 + i) w m = .ok ((), m') ∧ heap'.Valid util ∧
      Describes util (heap'.picture util) m' := by
  have place : util.place before = util.first + 2 * unitsOf before := rfl
  obtain ⟨words, was, is⟩ := @values_set (util.place before + 1) i w payload inside
  obtain ⟨heap', isHeap'⟩ : ∃ heap' : Heap, heap' = { heap with
      blocks := before ++ .live units requested (payload.set i w) :: after } := ⟨_, rfl⟩
  have split' : heap'.blocks = before ++ .live units requested (payload.set i w) :: after := by
    rw [isHeap']
  obtain ⟨others, isOthers⟩ : ∃ others, others = tagged (util.place before)
      (LiveTag (lastAllocated true before) units requested) + (spanCells util.first true before +
        (words + (blocksCells (util.place before + 2 * units) true after +
          (prologueCells util + listCells util.head heap.lists)))) := ⟨_, rfl⟩
  have before_ : (heap.picture util).cells = value (util.place before + 1 + i) payload[i] + others := by
    rw [@Heap.picture_live util _ _ _ _ _ heap split, ← place, isOthers, was]
    abel
  have after_ : (heap'.picture util).cells = value (util.place before + 1 + i) w + others := by
    rw [@Heap.picture_live util _ _ _ _ _ heap' split', ← place, isOthers, is, isHeap']
    abel
  have start : Describes util ((heap.picture util).at (heap.picture util).cells) m := described
  rw [before_] at start
  obtain ⟨m', stores, left⟩ := does_store_value m start
  rw [← after_] at left
  refine ⟨heap', m', isHeap', stores, ?_, ?_⟩
  · rw [isHeap']
    exact valid.replace split List.length_set
  · rw [isHeap'] at left ⊢
    exact left

/-- The program writes a word of a payload. -/
theorem store_served {i w : Nat} (valid : heap.Valid util)
    (described : Describes util (heap.picture util) m) (member : live ∈ heap.lives util)
    (inside : i < live.payload.length) :
    ∃ (heap' : Heap) (m' : Memory) (kept : List Live), store (live.pointer + i) w m = .ok ((), m') ∧
      heap'.Valid util ∧ Describes util (heap'.picture util) m' ∧
      (heap.lives util).Perm (live :: kept) ∧
      (heap'.lives util).Perm ({ live with payload := live.payload.set i w } :: kept) := by
  obtain ⟨before, after, split, place⟩ := lives_split member
  have same : live = ⟨util.place before, live.units, live.requested, live.payload⟩ := by
    rw [Sfutil.place, ← place]
  obtain ⟨heap', m', isHeap', stores, valid', left⟩ := @store_payload _ _ _ _ _ _ _ _ w _ valid
    described split inside
  have split' : heap'.blocks =
      before ++ .live live.units live.requested (live.payload.set i w) :: after := by rw [isHeap']
  refine ⟨heap', m', lives util.first before ++ lives (util.place before + 2 * live.units) after,
    ?_, valid', left, ?_, ?_⟩
  · rw [Live.pointer, place]
    exact stores
  · rw [lives_of_split split, ← same]
    exact List.perm_middle
  · rw [lives_of_split split', show util.place before = live.header from place.symm]
    exact List.perm_middle

end Audible.Sfmm
