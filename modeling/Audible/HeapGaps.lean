import Audible.HeapSplit

set_option autoImplicit false

/- Heaps with a gap, which is a free block that is on no list: `sf_malloc` takes it from its list
or grows it, and gives it to the program or puts it on a list. -/
namespace Audible.Sfmm

open Cells Returning

structure Gap where
  before : List Block
  units : Nat
  after : List Block
  lists : List FreeList
  pages : Nat
  enomem : Bool

variable (util : Sfutil)

/-- The header of a block that comes after some blocks. -/
def Sfutil.place (before : List Block) : Nat := util.first + 2 * unitsOf before

def Gap.header (gap : Gap) : Nat := util.place gap.before

def Gap.blocks (gap : Gap) : List Block := gap.before ++ .free gap.units :: gap.after

/-- The words of the links hold what they held before, if anything is known of them. -/
def Gap.picture (gap : Gap) (links : Multiset (Nat × (Nat → Prop))) : Picture where
  cells := listCells util.head gap.lists + links + ((Block.free gap.units).cells (gap.header util) true +
    (blocksCells (gap.header util + 2 * gap.units) false gap.after +
      (spanCells util.first true gap.before + prologueCells util)))
  pages := gap.pages
  nodes := gap.lists.length
  enomem := gap.enomem

structure Gap.Valid (gap : Gap) : Prop where
  fits : ∀ block ∈ gap.blocks, block.Fits
  apart : NoneAdjacent gap.blocks
  fills : 2 * unitsOf gap.blocks + 6 = gap.pages * pageWords
  increasing : Increasing gap.lists
  listed : (entries gap.lists).Perm
    (frees util.first gap.before ++ frees (gap.header util + 2 * gap.units) gap.after)

variable {util} {heap : Heap} {hole : Gap} {links : Multiset (Nat × (Nat → Prop))}
variable {before after : List Block} {units needed size : Nat} {payload : List Nat}

theorem Gap.Valid.large (valid : hole.Valid util) : 2 ≤ hole.units :=
  valid.fits (.free hole.units) (by simp [Gap.blocks])

theorem Gap.Valid.last (valid : hole.Valid util) : lastAllocated true hole.before = true :=
  NoneAdjacent.left valid.apart

theorem Gap.Valid.solid (valid : hole.Valid util) : Solid hole.after :=
  NoneAdjacent.right valid.apart

theorem Gap.Valid.small (valid : hole.Valid util) (room : hole.pages ≤ util.limit) :
    unitsOf hole.before + hole.units + unitsOf hole.after < 2 ^ 27 := by
  have fills := valid.fills
  have small := util.small
  have bounded : hole.pages * pageWords ≤ util.limit * pageWords := Nat.mul_le_mul_right _ room
  simp only [Gap.blocks, unitsOf_append, unitsOf_cons, Block.units] at fills
  unfold pageWords at fills bounded
  omega

/-- The heap without the free block between `before` and `after`. -/
def Heap.gap (util : Sfutil) (heap : Heap) (before : List Block) (units : Nat)
    (after : List Block) : Gap where
  before := before
  units := units
  after := after
  lists := dropFree (util.place before) heap.lists
  pages := heap.pages
  enomem := heap.enomem

theorem Heap.picture_free (heap : Heap) (split : heap.blocks = before ++ .free units :: after)
    (apart : NoneAdjacent heap.blocks) :
    (heap.picture util).cells = listCells util.head heap.lists +
      ((Block.free units).cells (util.place before) true +
        (blocksCells (util.place before + 2 * units) false after +
          (spanCells util.first true before + prologueCells util))) := by
  rw [split] at apart
  rw [Heap.picture, split, blocksCells_append, blocksCells, apart.left]
  simp only [Block.units, Block.allocated, Sfutil.place]
  abel

theorem Heap.Valid.gap (valid : heap.Valid util)
    (split : heap.blocks = before ++ .free units :: after) :
    (heap.gap util before units after).Valid util := by
  have fits := valid.fits
  have apart := valid.apart
  have fills := valid.fills
  have listed := valid.listed
  rw [split] at fits apart fills listed
  rw [frees_append, frees] at listed
  refine ⟨fits, apart, fills, increasing_dropFree _ valid.increasing, ?_⟩
  have member : (util.place before, 16 * units) ∈ entries heap.lists :=
    listed.mem_iff.mpr (by simp [Sfutil.place])
  exact ((entries_dropFree member valid.once).symm.trans
    (listed.trans List.perm_middle)).cons_inv

/-- `removeHeader` makes a gap of a free block. -/
theorem does_gap (valid : heap.Valid util)
    (split : heap.blocks = before ++ .free units :: after) :
    ∃ links, Weakens links (raw Nat (util.place before + 1) + raw Nat (util.place before + 2)) ∧
      Relinks util.head (util.place before) (dropFree (util.place before) heap.lists) links ∧
      Does util (heap.picture util) (removeHeader (util.place before)) (util.place before)
        ((heap.gap util before units after).picture util links) := by
  have listed := valid.listed
  have fits := valid.fits
  rw [split] at listed
  rw [frees_append, frees] at listed
  have member : (util.place before, 16 * units) ∈ entries heap.lists :=
    listed.mem_iff.mpr (by simp [Sfutil.place])
  obtain ⟨last, next, others, joined, unlinks⟩ :=
    @does_dropFree util (heap.picture util) (util.place before) util.head heap.lists _ member
  refine ⟨value (util.place before + 1) next + value (util.place before + 2) last,
    weakens_raw.add weakens_raw, .inr ⟨last, next, others, joined, rfl⟩, ?_⟩
  have cells := @Heap.picture_free util before after units heap split valid.apart
  have runs := unlinks ((Block.free units).cells (util.place before) true +
    (blocksCells (util.place before + 2 * units) false after +
      (spanCells util.first true before + prologueCells util)))
  rw [← cells] at runs
  have many := length_dropFree (util.place before) heap.lists
  simp only [Gap.picture, Heap.gap, Gap.header, many]
  exact runs

def Gap.grown (gap : Gap) (k : Nat) : Gap :=
  { gap with units := gap.units + 256 * k, pages := gap.pages + k }

def Heap.page (heap : Heap) : Gap where
  before := heap.blocks
  units := 256
  after := []
  lists := heap.lists
  pages := heap.pages + 1
  enomem := heap.enomem

variable {k rounds : Nat} {unlink : Nat → HeapM Nat}

theorem Gap.picture_end (atEnd : hole.after = []) :
    (hole.picture util links).cells = listCells util.head hole.lists + links +
      ((Block.free hole.units).cells (hole.header util) true +
        (tagged (hole.header util + 2 * hole.units) (Tag true false 0) +
          (spanCells util.first true hole.before + prologueCells util))) := by
  rw [Gap.picture, atEnd]
  rfl

theorem Gap.Valid.ends (valid : hole.Valid util) (atEnd : hole.after = []) :
    hole.header util + 2 * hole.units + 1 = util.start + hole.pages * pageWords := by
  have fills := valid.fills
  simp only [Gap.blocks, atEnd, unitsOf_append, unitsOf_cons, unitsOf_nil, Block.units] at fills
  unfold Gap.header Sfutil.place Sfutil.first
  omega

theorem Gap.Valid.grown (valid : hole.Valid util) (atEnd : hole.after = []) (k : Nat) :
    (hole.grown k).Valid util := by
  have large := valid.large
  have fits := valid.fits
  have apart := valid.apart
  have fills := valid.fills
  have listed := valid.listed
  have last := valid.last
  unfold Gap.blocks at fits apart fills
  rw [atEnd] at fits apart fills listed
  simp only [unitsOf_append, unitsOf_cons, unitsOf_nil, Block.units] at fills
  constructor
  · intro block member
    simp only [Gap.blocks, Gap.grown, atEnd, List.mem_append, List.mem_singleton] at member
    rcases member with inside | rfl
    · exact fits block (by simp [inside])
    · exact Nat.le_trans large (Nat.le_add_right _ _)
  · rw [Gap.blocks, Gap.grown, atEnd]
    exact noneAdjacent_free (List.isChain_append.mp apart).1 List.isChain_nil last (by simp [Solid])
  · simp only [Gap.blocks, Gap.grown, atEnd, unitsOf_append, unitsOf_cons, unitsOf_nil, Block.units]
    rw [Nat.add_mul, ← fills]
    unfold pageWords
    omega
  · exact valid.increasing
  · simp only [Gap.grown, atEnd]
    exact listed

theorem does_grown (valid : hole.Valid util) (atEnd : hole.after = [])
    (enough : needed ≤ hole.units + 256 * k) (fewer : ∀ j < k, hole.units + 256 * j < needed)
    (room : hole.pages + k ≤ util.limit) (lasts : k < rounds)
    (relinks : 0 < k → Relinks util.head (hole.header util) hole.lists links) :
    Does util (hole.picture util links) (growTo util removeHeader (16 * needed) rounds (hole.header util))
      (some (hole.header util)) ((hole.grown k).picture util links) := by
  have small := (valid.grown atEnd k).small room
  have fits : hole.units + 256 * k < 2 ^ 27 :=
    Nat.lt_of_le_of_lt (Nat.le_trans (Nat.le_add_left _ _) (Nat.le_add_right _ _)) small
  have grows := @does_growTo_enough util (hole.picture util links)
    (spanCells util.first true hole.before + prologueCells util) links (hole.header util) hole.units
    needed hole.lists k rounds valid.large fits enough fewer room lasts (valid.ends atEnd) relinks
  rw [← Gap.picture_end atEnd] at grows
  have cells := @Gap.picture_end util (hole.grown k) links atEnd
  have final : (hole.grown k).picture util links =
      { hole.picture util links with pages := hole.pages + k }.at
        ((hole.grown k).picture util links).cells := rfl
  rw [final, cells]
  exact grows

def Gap.closed (util : Sfutil) (gap : Gap) : Heap where
  blocks := gap.blocks
  lists := pushFree (util.node gap.lists.length) (16 * gap.units) (gap.header util) gap.lists
  pages := gap.pages
  enomem := true

theorem Gap.Valid.closed (valid : hole.Valid util) : (hole.closed util).Valid util := by
  refine ⟨valid.fits, valid.apart, valid.fills, increasing_pushFree _ _ _ valid.increasing, ?_⟩
  refine (entries_pushFree _ _ _ valid.increasing).trans ?_
  simp only [Gap.closed, Gap.blocks]
  rw [frees_append, frees]
  exact (valid.listed.cons _).trans List.perm_middle.symm

theorem does_closed (valid : hole.Valid util) (atEnd : hole.after = [])
    (short : hole.units + 256 * k < needed) (full : hole.pages + k = util.limit) (lasts : k < rounds)
    (relinks : 0 < k → Relinks util.head (hole.header util) hole.lists links)
    (weakens : Weakens links (raw Nat (hole.header util + 1) + raw Nat (hole.header util + 2))) :
    Does util (hole.picture util links)
      (growTo util removeHeader (16 * needed) rounds (hole.header util)) none (((hole.grown k).closed util).picture util) := by
  have small := (valid.grown atEnd k).small (Nat.le_of_eq full)
  have fits : hole.units + 256 * k < 2 ^ 27 :=
    Nat.lt_of_le_of_lt (Nat.le_trans (Nat.le_add_left _ _) (Nat.le_add_right _ _)) small
  have grows := @does_growTo_short util (hole.picture util links)
    (spanCells util.first true hole.before + prologueCells util) links (hole.header util) hole.units
    needed hole.lists k rounds valid.large fits short full lasts (valid.ends atEnd) relinks weakens
    valid.increasing (Nat.le_refl _)
  rw [← Gap.picture_end atEnd] at grows
  have blocks : ((hole.grown k).closed util).blocks =
      hole.before ++ .free (hole.units + 256 * k) :: [] := by
    rw [Gap.closed, Gap.blocks, Gap.grown, atEnd]
  have cells := @Heap.picture_free util _ _ _ ((hole.grown k).closed util) blocks
    (valid.grown atEnd k).closed.apart
  have many := length_pushFree (util.node hole.lists.length) (16 * (hole.units + 256 * k))
    (hole.header util) valid.increasing
  have final : ((hole.grown k).closed util).picture util =
      { hole.picture util links with
          pages := util.limit
          nodes := nodesWith (16 * (hole.units + 256 * k)) hole.lists.length hole.lists
          enomem := true }.at (((hole.grown k).closed util).picture util).cells := by
    rw [← full, ← many]
    rfl
  rw [final, cells]
  exact grows

theorem Heap.Valid.ends (valid : heap.Valid util) :
    util.place heap.blocks + 1 = util.start + heap.pages * pageWords := by
  have fills := valid.fills
  unfold Sfutil.place Sfutil.first
  omega

/-- The last block is free: it leaves its list and grows. -/
theorem does_memGrowWith_gap (valid : heap.Valid util) (split : heap.blocks = before ++ [.free units])
    (page : heap.pages < util.limit)
    (removes : ∀ rest m, Describes util
      ({ heap.picture util with pages := heap.pages + 1 }.at (listCells util.head heap.lists + rest)) m →
        unlink (util.place before) m = removeHeader (util.place before) m) :
    ∃ links, Weakens links (raw Nat (util.place before + 1) + raw Nat (util.place before + 2)) ∧
      Relinks util.head (util.place before) (dropFree (util.place before) heap.lists) links ∧
      Does util (heap.picture util) (memGrowWith util unlink) (some (util.place before))
        (((heap.gap util before units []).grown 1).picture util links) := by
  have opened := valid.gap split
  have small := (opened.grown rfl 1).small page
  have listed := valid.listed
  rw [split, frees_append, frees] at listed
  have member : (util.place before, 16 * units) ∈ entries heap.lists :=
    listed.mem_iff.mpr (by simp [Sfutil.place])
  obtain ⟨last, next, others, joined, unlinks⟩ :=
    @does_dropFree util { heap.picture util with pages := heap.pages + 1 } (util.place before)
      util.head heap.lists _ member
  refine ⟨value (util.place before + 1) next + value (util.place before + 2) last,
    weakens_raw.add weakens_raw, .inr ⟨last, next, others, joined, rfl⟩, ?_⟩
  have fits : units + 256 < 2 ^ 27 :=
    Nat.lt_of_le_of_lt (Nat.le_trans (Nat.le_add_left _ _) (Nat.le_add_right _ _)) small
  have none : heap.lists = [] → dropFree (util.place before) heap.lists = heap.lists ∧
      value (util.place before + 1) next + value (util.place before + 2) last = 0 := by
    intro empty
    rw [empty] at member
    cases member
  have unlinked : heap.lists ≠ [] → ∀ rest, Does util
      ({ heap.picture util with pages := heap.pages + 1 }.at (listCells util.head heap.lists + 0 + rest))
      (unlink (util.place before)) (util.place before)
      ({ heap.picture util with pages := heap.pages + 1 }.at
        (listCells util.head (dropFree (util.place before) heap.lists) +
          (value (util.place before + 1) next + value (util.place before + 2) last) + rest)) := by
    intro _ rest
    rw [add_zero]
    intro m described
    rw [removes rest m described]
    exact unlinks rest m described
  have grows := @does_memGrowWith_free util (heap.picture util)
    (spanCells util.first true before + prologueCells util) 0 _ (util.place before) units heap.lists _
    unlink opened.large fits page (opened.ends rfl) unlinked none
  have cells := @Heap.picture_free util before [] units heap split valid.apart
  rw [blocksCells] at cells
  rw [add_zero, ← cells] at grows
  have many := length_dropFree (util.place before) heap.lists
  have after := @Gap.picture_end util ((heap.gap util before units []).grown 1)
    (value (util.place before + 1) next + value (util.place before + 2) last) rfl
  have final : ((heap.gap util before units []).grown 1).picture util
        (value (util.place before + 1) next + value (util.place before + 2) last) =
      { heap.picture util with pages := heap.pages + 1 }.at
        (((heap.gap util before units []).grown 1).picture util
          (value (util.place before + 1) next + value (util.place before + 2) last)).cells := by
    unfold Picture.at Gap.picture
    simp only [Heap.picture, Gap.grown, Heap.gap, many]
  rw [final, after]
  exact grows

theorem does_memGrow_gap (valid : heap.Valid util) (split : heap.blocks = before ++ [.free units])
    (page : heap.pages < util.limit) :
    ∃ links, Weakens links (raw Nat (util.place before + 1) + raw Nat (util.place before + 2)) ∧
      Relinks util.head (util.place before) (dropFree (util.place before) heap.lists) links ∧
      Does util (heap.picture util) (memGrow util) (some (util.place before))
        (((heap.gap util before units []).grown 1).picture util links) :=
  does_memGrowWith_gap valid split page fun _ _ _ => rfl

theorem Heap.Valid.page (valid : heap.Valid util) (last : lastAllocated true heap.blocks = true) :
    heap.page.Valid util := by
  have fills := valid.fills
  constructor
  · intro block member
    rcases List.mem_append.mp member with inside | new
    · exact valid.fits block inside
    · rw [List.mem_singleton.mp new]
      exact Nat.le_of_ble_eq_true rfl
  · exact noneAdjacent_free valid.apart List.isChain_nil last (by simp [Solid, Heap.page])
  · simp only [Gap.blocks, Heap.page, unitsOf_append, unitsOf_cons, unitsOf_nil, Block.units]
    rw [Nat.add_mul, ← fills]
    unfold pageWords
    omega
  · exact valid.increasing
  · simp only [Heap.page, frees, List.append_nil]
    exact valid.listed

/-- The last block is allocated: the page is a free block of its own. -/
theorem does_memGrowWith_page (valid : heap.Valid util) (last : lastAllocated true heap.blocks = true)
    (page : heap.pages < util.limit) :
    Does util (heap.picture util) (memGrowWith util unlink) (some (util.place heap.blocks))
      (heap.page.picture util
        (raw Nat (util.place heap.blocks + 1) + raw Nat (util.place heap.blocks + 2))) := by
  have grows := @does_memGrowWith_epilogue util (heap.picture util)
    (listCells util.head heap.lists + (spanCells util.first true heap.blocks + prologueCells util))
    (util.place heap.blocks) unlink page valid.ends
  have start : (heap.picture util).cells = tagged (util.place heap.blocks) (Tag true true 0) +
      (listCells util.head heap.lists +
        (spanCells util.first true heap.blocks + prologueCells util)) := by
    have whole := blocksCells_append util.first true heap.blocks []
    rw [List.append_nil, last, blocksCells] at whole
    rw [Heap.picture, whole, Sfutil.place]
    dsimp only
    abel
  rw [← start] at grows
  have after := @Gap.picture_end util heap.page
    (raw Nat (util.place heap.blocks + 1) + raw Nat (util.place heap.blocks + 2)) rfl
  have finish : (heap.page.picture util
        (raw Nat (util.place heap.blocks + 1) + raw Nat (util.place heap.blocks + 2))).cells =
      (Block.free 256).cells (util.place heap.blocks) true +
        (raw Nat (util.place heap.blocks + 1) + raw Nat (util.place heap.blocks + 2)) +
        (tagged (util.place heap.blocks + 2 * 256) (Tag true false 0) +
          (listCells util.head heap.lists +
            (spanCells util.first true heap.blocks + prologueCells util))) := by
    rw [after]
    simp only [Heap.page, Gap.header]
    abel
  have final : heap.page.picture util
        (raw Nat (util.place heap.blocks + 1) + raw Nat (util.place heap.blocks + 2)) =
      { heap.picture util with pages := heap.pages + 1 }.at (heap.page.picture util
        (raw Nat (util.place heap.blocks + 1) + raw Nat (util.place heap.blocks + 2))).cells := rfl
  rw [final, finish]
  exact grows

theorem does_memGrow_page (valid : heap.Valid util) (last : lastAllocated true heap.blocks = true)
    (page : heap.pages < util.limit) :
    Does util (heap.picture util) (memGrow util) (some (util.place heap.blocks))
      (heap.page.picture util
        (raw Nat (util.place heap.blocks + 1) + raw Nat (util.place heap.blocks + 2))) :=
  does_memGrowWith_page valid last page

/-- The units of the block that is made of a gap: what is left over is too small for a block, or
stays free. -/
def Gap.taken (gap : Gap) (needed : Nat) : Nat :=
  if gap.units < needed + 2 then gap.units else needed

/-- The gap is given to the program, and what is left of it put on the list of its size. -/
def Gap.filled (util : Sfutil) (gap : Gap) (needed size : Nat) (payload : List Nat) : Heap :=
  if gap.units < needed + 2 then
    { blocks := gap.before ++ .live gap.units (size % 2 ^ 32) payload :: gap.after
      lists := gap.lists
      pages := gap.pages
      enomem := gap.enomem }
  else
    { blocks := gap.before ++ .live needed (size % 2 ^ 32) payload ::
        .free (gap.units - needed) :: gap.after
      lists := pushFree (util.node gap.lists.length) (16 * (gap.units - needed))
        (gap.header util + 2 * needed) gap.lists
      pages := gap.pages
      enomem := gap.enomem }

/-- A live block may stand anywhere. -/
theorem noneAdjacent_live {requested : Nat} (left : NoneAdjacent before) (right : NoneAdjacent after) :
    NoneAdjacent (before ++ .live units requested payload :: after) := by
  refine List.isChain_append.mpr ⟨left, ?_, ?_⟩
  · exact List.isChain_cons.mpr ⟨fun _ _ => .inl rfl, right⟩
  · intro last _ next first
    cases first
    exact .inr rfl

theorem Gap.Valid.filled (valid : hole.Valid util) (positive : 2 ≤ needed)
    (length : payload.length + 1 = 2 * hole.taken needed) (size : Nat) :
    (hole.filled util needed size payload).Valid util := by
  have fits := valid.fits
  have fills := valid.fills
  have chain := List.isChain_append.mp valid.apart
  have right : NoneAdjacent hole.after := (List.isChain_cons.mp chain.2.1).2
  unfold Gap.blocks at fits
  simp only [Gap.blocks, unitsOf_append, unitsOf_cons, Block.units] at fills
  unfold Gap.taken at length
  unfold Gap.filled
  split at length
  · rename_i close
    rw [if_pos close]
    refine ⟨?_, noneAdjacent_live chain.1 right, ?_, valid.increasing, ?_⟩
    · intro block member
      rcases List.mem_append.mp member with inside | here
      · exact fits block (List.mem_append_left _ inside)
      · rcases List.mem_cons.mp here with rfl | later
        · exact ⟨valid.large, length⟩
        · exact fits block (List.mem_append_right _ (List.mem_cons_of_mem _ later))
    · simp only [unitsOf_append, unitsOf_cons, Block.units]
      exact fills
    · rw [frees_append, frees]
      exact valid.listed
  · rename_i far
    rw [if_neg far]
    have rest : NoneAdjacent (.free (hole.units - needed) :: hole.after) :=
      @noneAdjacent_free (hole.units - needed) [] hole.after List.isChain_nil right rfl valid.solid
    refine ⟨?_, noneAdjacent_live chain.1 rest, ?_, increasing_pushFree _ _ _ valid.increasing, ?_⟩
    · intro block member
      rcases List.mem_append.mp member with inside | here
      · exact fits block (List.mem_append_left _ inside)
      · rcases List.mem_cons.mp here with rfl | later
        · exact ⟨positive, length⟩
        · rcases List.mem_cons.mp later with rfl | last
          · simp only [Block.Fits]
            omega
          · exact fits block (List.mem_append_right _ (List.mem_cons_of_mem _ last))
    · simp only [unitsOf_append, unitsOf_cons, Block.units]
      omega
    · refine (entries_pushFree _ _ _ valid.increasing).trans ?_
      have next : hole.header util + 2 * needed + 2 * (hole.units - needed) =
          hole.header util + 2 * hole.units := by omega
      rw [frees_append, frees, frees]
      have listed := (valid.listed.cons (hole.header util + 2 * needed, 16 * (hole.units - needed))).trans
        List.perm_middle.symm
      rw [← next] at listed
      exact listed

theorem Describes.exists_payload {p : Picture} {m : Memory} {a count : Nat}
    {rest : Multiset (Nat × (Nat → Prop))}
    (described : Describes util (p.at (raws Nat a count + rest)) m) :
    ∃ payload : List Nat, payload.length = count ∧
      Describes util (p.at (values a payload + rest)) m := by
  obtain ⟨holds, mapped, room, pages, nodes, enomem⟩ := described
  obtain ⟨payload, length, known⟩ := holds.exists_values
  refine ⟨payload, length, known, ?_, room, pages, nodes, enomem⟩
  have weakens := @weakens_raws Nat a (payload.map fun v w => w = v)
  rw [List.length_map, length] at weakens
  intro c member
  have same : c.1 ∈ (values a payload + rest).map Prod.fst := Multiset.mem_map_of_mem _ member
  rw [Multiset.map_add, values, ← weakens.addresses, ← Multiset.map_add] at same
  obtain ⟨d, there, address⟩ := Multiset.mem_map.mp same
  rw [← address]
  exact mapped d there

/-- The links of a gap are not needed any more. -/
theorem Gap.Valid.unlinked (valid : hole.Valid util)
    (weakens : Weakens links (raw Nat (hole.header util + 1) + raw Nat (hole.header util + 2)))
    {m : Memory} (described : Describes util (hole.picture util links) m) :
    Describes util ((hole.picture util links).at
      (wholeCells (hole.header util) hole.units (Tag false true hole.units) +
        (blocksCells (hole.header util + 2 * hole.units) false hole.after +
          (listCells util.head hole.lists +
            (spanCells util.first true hole.before + prologueCells util))))) m := by
  have start : (hole.picture util links).cells =
      (Block.free hole.units).cells (hole.header util) true + links +
        (blocksCells (hole.header util + 2 * hole.units) false hole.after +
          (listCells util.head hole.lists +
            (spanCells util.first true hole.before + prologueCells util))) := by
    rw [Gap.picture]
    dsimp only
    abel
  have whole : Describes util ((hole.picture util links).at (hole.picture util links).cells) m :=
    described
  rw [start] at whole
  exact whole.weakens ((weakens_free valid.large weakens).add (.refl _))

theorem Gap.Valid.allocates_whole {newSize : Int} (unlink : Nat → HeapM Nat)
    (valid : hole.Valid util)
    (whole : (16 * (hole.units : Int) - newSize).bmod (2 ^ 32) < 32) (close : hole.units < needed + 2)
    (weakens : Weakens links (raw Nat (hole.header util + 1) + raw Nat (hole.header util + 2)))
    (size : Nat) {m : Memory} (described : Describes util (hole.picture util links) m) :
    ∃ payload m', payload.length = 2 * hole.units - 1 ∧
      allocate util unlink size newSize (hole.header util) m = .ok (hole.header util + 1, m') ∧
      Describes util ((hole.filled util needed size payload).picture util) m' := by
  have small := valid.small described.room
  have known := valid.unlinked weakens described
  obtain ⟨q, isQ⟩ : ∃ q, q = hole.header util := ⟨_, rfl⟩
  obtain ⟨is, words, cells, allocated, set⟩ := blocksCells_solid (q + 2 * hole.units) valid.solid
  obtain ⟨others, isOthers⟩ : ∃ others, others = words + (listCells util.head hole.lists +
      (spanCells util.first true hole.before + prologueCells util)) := ⟨_, rfl⟩
  have start : wholeCells q hole.units (Tag false true hole.units) +
        (blocksCells (q + 2 * hole.units) false hole.after + (listCells util.head hole.lists +
          (spanCells util.first true hole.before + prologueCells util))) =
      tagged q (Tag false true hole.units) + (tagged (q + 2 * hole.units) (is false) +
        (raws Nat (q + 1) (2 * hole.units - 1) + others)) := by
    rw [wholeCells, cells false, isOthers]
    abel
  have payloads : tagged q (LiveTag true hole.units (size % 2 ^ 32)) +
        (tagged (q + 2 * hole.units) (is true) + (raws Nat (q + 1) (2 * hole.units - 1) + others)) =
      raws Nat (q + 1) (2 * hole.units - 1) + (tagged q (LiveTag true hole.units (size % 2 ^ 32)) +
        (tagged (q + 2 * hole.units) (is true) + others)) := by
    abel
  rw [← isQ] at known ⊢
  rw [start] at known
  obtain ⟨m', taken, left⟩ :=
    does_allocate_whole (by omega) whole (set false true) m known
  rw [payloads] at left
  obtain ⟨payload, length, left⟩ := left.exists_payload
  refine ⟨payload, m', length, taken, ?_⟩
  have sum : prologueCells util + blocksCells util.first true
        (hole.before ++ .live hole.units (size % 2 ^ 32) payload :: hole.after) +
        listCells util.head hole.lists =
      values (q + 1) payload + (tagged q (LiveTag true hole.units (size % 2 ^ 32)) +
        (tagged (q + 2 * hole.units) (is true) + others)) := by
    rw [blocksCells_append, blocksCells, valid.last, isOthers]
    simp only [Block.units, Block.allocated, Block.cells]
    rw [← Sfutil.place, ← Gap.header, ← isQ, cells true]
    abel
  rw [Gap.filled, if_pos close, Heap.picture]
  dsimp only
  rw [sum]
  exact left

theorem Gap.Valid.allocates_split (valid : hole.Valid util) (positive : 2 ≤ needed)
    (far : needed + 2 ≤ hole.units)
    (weakens : Weakens links (raw Nat (hole.header util + 1) + raw Nat (hole.header util + 2)))
    (size : Nat) {m : Memory} (described : Describes util (hole.picture util links) m) :
    ∃ payload m', payload.length = 2 * needed - 1 ∧
      allocate util unlink size (16 * needed) (hole.header util) m = .ok (hole.header util + 1, m') ∧
      Describes util ((hole.filled util needed size payload).picture util) m' := by
  have small := valid.small described.room
  have known := valid.unlinked weakens described
  obtain ⟨q, isQ⟩ : ∃ q, q = hole.header util := ⟨_, rfl⟩
  obtain ⟨more, isMore⟩ : ∃ more, more = hole.units - needed := ⟨_, rfl⟩
  have total : hole.units = needed + more := by omega
  have next : q + 2 * (needed + more) = q + 2 * needed + 2 * more := by omega
  have count : 2 * (needed + more) - 1 = 2 * needed - 1 + 2 * more := by omega
  have tail : q + 1 + (2 * needed - 1) = q + 2 * needed := by omega
  obtain ⟨is, words, cells, allocated, set⟩ :=
    blocksCells_solid (q + 2 * needed + 2 * more) valid.solid
  obtain ⟨others, isOthers⟩ : ∃ others, others = words +
      (spanCells util.first true hole.before + prologueCells util) := ⟨_, rfl⟩
  have start : wholeCells q (needed + more) (Tag false true (needed + more)) +
        (blocksCells (q + 2 * needed + 2 * more) false hole.after + (listCells util.head hole.lists +
          (spanCells util.first true hole.before + prologueCells util))) =
      tagged q (Tag false true (needed + more)) + (listCells util.head hole.lists +
        (raws Nat (q + 2 * needed) (2 * more) + (tagged (q + 2 * needed + 2 * more) (is false) +
          (raws Nat (q + 1) (2 * needed - 1) + others)))) := by
    rw [wholeCells, count, raws_add, tail, cells false, isOthers]
    abel
  have payloads : ∀ lists', tagged q (LiveTag true needed (size % 2 ^ 32)) +
        (listCells util.head lists' + ((Block.free more).cells (q + 2 * needed) true +
          (tagged (q + 2 * needed + 2 * more) (is false) +
            (raws Nat (q + 1) (2 * needed - 1) + others)))) =
      raws Nat (q + 1) (2 * needed - 1) + (tagged q (LiveTag true needed (size % 2 ^ 32)) +
        (listCells util.head lists' + ((Block.free more).cells (q + 2 * needed) true +
          (tagged (q + 2 * needed + 2 * more) (is false) + others)))) := by
    intro lists'
    abel
  rw [← isQ] at known ⊢
  rw [total, next, start] at known
  obtain ⟨m', taken, left⟩ := does_allocate_split (by omega) (by omega) (by omega) (allocated false)
    valid.increasing (Nat.le_refl _) m known
  rw [payloads] at left
  obtain ⟨payload, length, left⟩ := left.exists_payload
  refine ⟨payload, m', length, taken, ?_⟩
  have sum : ∀ lists', prologueCells util + blocksCells util.first true
        (hole.before ++ .live needed (size % 2 ^ 32) payload :: .free more :: hole.after) +
        listCells util.head lists' =
      values (q + 1) payload + (tagged q (LiveTag true needed (size % 2 ^ 32)) +
        (listCells util.head lists' + ((Block.free more).cells (q + 2 * needed) true +
          (tagged (q + 2 * needed + 2 * more) (is false) + others)))) := by
    intro lists'
    rw [blocksCells_append, blocksCells, blocksCells, valid.last, isOthers]
    simp only [Block.units, Block.allocated]
    rw [← Sfutil.place, ← Gap.header, ← isQ, cells false]
    have live : (Block.live needed (size % 2 ^ 32) payload).cells q true =
        tagged q (LiveTag true needed (size % 2 ^ 32)) + values (q + 1) payload := rfl
    rw [live]
    abel
  have many := length_pushFree (util.node hole.lists.length) (16 * more) (q + 2 * needed)
    valid.increasing
  rw [Gap.filled, if_neg (by omega), Heap.picture]
  dsimp only
  rw [← isMore, ← isQ, sum, many]
  exact left

/-- What `sf_malloc` does with a gap that is large enough. -/
theorem Gap.Valid.allocates (unlink : Nat → HeapM Nat) (valid : hole.Valid util)
    (positive : 2 ≤ needed) (enough : needed ≤ hole.units)
    (weakens : Weakens links (raw Nat (hole.header util + 1) + raw Nat (hole.header util + 2)))
    (size : Nat) {m : Memory} (described : Describes util (hole.picture util links) m) :
    ∃ payload m', payload.length + 1 = 2 * hole.taken needed ∧
      allocate util unlink size (16 * needed) (hole.header util) m = .ok (hole.header util + 1, m') ∧
      Describes util ((hole.filled util needed size payload).picture util) m' := by
  by_cases close : hole.units < needed + 2
  · have rest : 16 * (hole.units : Int) - 16 * needed = 16 * ((hole.units - needed : Nat) : Int) := by
      omega
    have whole : (16 * (hole.units : Int) - 16 * needed).bmod (2 ^ 32) < 32 := by
      rw [rest, bmod_bytes (by omega)]
      omega
    obtain ⟨payload, m', length, taken, left⟩ :=
      valid.allocates_whole unlink whole close weakens size described
    refine ⟨payload, m', ?_, taken, left⟩
    rw [Gap.taken, if_pos close]
    have := valid.large
    omega
  · obtain ⟨payload, m', length, taken, left⟩ :=
      valid.allocates_split positive (Nat.le_of_not_lt close) weakens size described
    refine ⟨payload, m', ?_, taken, left⟩
    rw [Gap.taken, if_neg close]
    omega

end Audible.Sfmm
