import Audible.HeapLists

set_option autoImplicit false

/- The blocks between the prologue and the epilogue, and when a heap is well formed. -/
namespace Audible.Sfmm

open Cells Returning

/-- A block of `units` times 16 bytes; a live one with the words of its payload. -/
inductive Block
  | live (units requested : Nat) (payload : List Nat)
  | free (units : Nat)

def Block.units : Block → Nat
  | .live units _ _ => units
  | .free units => units

def Block.allocated : Block → Bool
  | .live _ _ _ => true
  | .free _ => false

/-- A block has room for the links and tags it may have to hold. -/
def Block.Fits : Block → Prop
  | .live units _ payload => 2 ≤ units ∧ payload.length + 1 = 2 * units
  | .free units => 2 ≤ units

structure LiveTag (prevAllocated : Bool) (units requested : Nat) (info : Info) : Prop extends
    Tag true prevAllocated units info where
  requested : info.requestedSize.toNat = requested

/-- The words of a block, but for the links of a free one. -/
def Block.cells (a : Nat) (prevAllocated : Bool) : Block → Multiset (Nat × (Nat → Prop))
  | .live units requested payload =>
      tagged a (LiveTag prevAllocated units requested) + values (a + 1) payload
  | .free units =>
      tagged a (Tag false prevAllocated units) + raws Nat (a + 3) (2 * units - 4) +
        tagged (a + 2 * units - 1) (Tag false true units)

/-- Blocks one after the other from `a` on. -/
def spanCells (a : Nat) (prevAllocated : Bool) : List Block → Multiset (Nat × (Nat → Prop))
  | [] => 0
  | block :: blocks =>
      block.cells a prevAllocated + spanCells (a + 2 * block.units) block.allocated blocks

/-- Blocks from `a` on, and the epilogue after them. -/
def blocksCells (a : Nat) (prevAllocated : Bool) : List Block → Multiset (Nat × (Nat → Prop))
  | [] => tagged a (Tag true prevAllocated 0)
  | block :: blocks =>
      block.cells a prevAllocated + blocksCells (a + 2 * block.units) block.allocated blocks

def unitsOf (blocks : List Block) : Nat := (blocks.map Block.units).sum

def lastAllocated (prevAllocated : Bool) (blocks : List Block) : Bool :=
  (blocks.map Block.allocated).getLastD prevAllocated

/-- The free blocks, with their sizes in bytes. -/
def frees (a : Nat) : List Block → List (Nat × Nat)
  | [] => []
  | .live units _ _ :: blocks => frees (a + 2 * units) blocks
  | .free units :: blocks => (a, 16 * units) :: frees (a + 2 * units) blocks

/-- What a live block holds, and where. -/
structure Live where
  header : Nat
  units : Nat
  requested : Nat
  payload : List Nat

def lives (a : Nat) : List Block → List Live
  | [] => []
  | .live units requested payload :: blocks =>
      ⟨a, units, requested, payload⟩ :: lives (a + 2 * units) blocks
  | .free units :: blocks => lives (a + 2 * units) blocks

structure Heap where
  blocks : List Block
  lists : List FreeList
  pages : Nat
  enomem : Bool

variable (util : Sfutil)

/-- The first block follows the prologue. -/
def Sfutil.first : Nat := util.start + 5

/-- The prologue, whose header and footer say that it is allocated. -/
def prologueCells : Multiset (Nat × (Nat → Prop)) :=
  raw Nat util.start + tagged (util.start + 1) (Tag true false 3) + raws Nat (util.start + 2) 2 +
    tagged (util.start + 4) (Tag true false 3)

def Heap.picture (heap : Heap) : Picture where
  cells := prologueCells util + blocksCells util.first true heap.blocks +
    listCells util.head heap.lists
  pages := heap.pages
  nodes := heap.lists.length
  enomem := heap.enomem

theorem Heap.picture_lists {util : Sfutil} (heap : Heap) :
    heap.picture util = (heap.picture util).at (listCells util.head heap.lists +
      (prologueCells util + blocksCells util.first true heap.blocks)) := by
  rw [add_comm]
  rfl

def NoneAdjacent (blocks : List Block) : Prop :=
  blocks.IsChain fun left right => left.allocated = true ∨ right.allocated = true

/-- The blocks fill the heap; free blocks are apart, and each is on the list of its size. -/
structure Heap.Valid (heap : Heap) : Prop where
  fits : ∀ block ∈ heap.blocks, block.Fits
  apart : NoneAdjacent heap.blocks
  fills : 2 * unitsOf heap.blocks + 6 = heap.pages * pageWords
  increasing : Increasing heap.lists
  listed : (entries heap.lists).Perm (frees util.first heap.blocks)

variable {util} {a units : Nat} {prevAllocated : Bool} {block : Block}
variable {before after blocks : List Block}

@[simp] theorem unitsOf_nil : unitsOf [] = 0 := rfl

@[simp] theorem unitsOf_cons : unitsOf (block :: blocks) = block.units + unitsOf blocks :=
  List.sum_cons

@[simp] theorem unitsOf_append : unitsOf (before ++ after) = unitsOf before + unitsOf after := by
  rw [unitsOf, List.map_append, List.sum_append]
  rfl

theorem blocksCells_append (a : Nat) (prevAllocated : Bool) (before after : List Block) :
    blocksCells a prevAllocated (before ++ after) = spanCells a prevAllocated before +
      blocksCells (a + 2 * unitsOf before) (lastAllocated prevAllocated before) after := by
  induction before generalizing a prevAllocated with
  | nil => simp [spanCells, lastAllocated]
  | cons block before ih =>
      have place : a + 2 * (block.units + unitsOf before) =
          a + 2 * block.units + 2 * unitsOf before := by omega
      rw [List.cons_append, blocksCells, spanCells, ih, unitsOf_cons, place,
        add_assoc (block.cells _ _)]
      simp only [lastAllocated, List.map_cons, List.getLastD_cons]

theorem spanCells_append (a : Nat) (prevAllocated : Bool) (before after : List Block) :
    spanCells a prevAllocated (before ++ after) = spanCells a prevAllocated before +
      spanCells (a + 2 * unitsOf before) (lastAllocated prevAllocated before) after := by
  induction before generalizing a prevAllocated with
  | nil => simp [spanCells, lastAllocated]
  | cons block before ih =>
      have place : a + 2 * (block.units + unitsOf before) =
          a + 2 * block.units + 2 * unitsOf before := by omega
      rw [List.cons_append, spanCells, spanCells, ih, unitsOf_cons, place,
        add_assoc (block.cells _ _)]
      simp only [lastAllocated, List.map_cons, List.getLastD_cons]

theorem frees_append (a : Nat) (before after : List Block) :
    frees a (before ++ after) = frees a before ++ frees (a + 2 * unitsOf before) after := by
  induction before generalizing a with
  | nil => simp [frees]
  | cons block before ih =>
      cases block with
      | live units requested payload =>
          simp only [List.cons_append, frees, ih, unitsOf_cons, Block.units, Nat.mul_add, Nat.add_assoc]
      | free units =>
          simp only [List.cons_append, frees, ih, unitsOf_cons, Block.units, Nat.mul_add, Nat.add_assoc]

theorem lives_append (a : Nat) (before after : List Block) :
    lives a (before ++ after) = lives a before ++ lives (a + 2 * unitsOf before) after := by
  induction before generalizing a with
  | nil => simp [lives]
  | cons block before ih =>
      cases block with
      | live units requested payload =>
          simp only [List.cons_append, lives, ih, unitsOf_cons, Block.units, Nat.mul_add, Nat.add_assoc]
      | free units =>
          simp only [List.cons_append, lives, ih, unitsOf_cons, Block.units, Nat.mul_add, Nat.add_assoc]

/-- Free blocks lie in the part of the heap that the blocks fill. -/
theorem frees_bounds {header size : Nat} (fits : ∀ block ∈ blocks, block.Fits)
    (member : (header, size) ∈ frees a blocks) :
    a ≤ header ∧ header < a + 2 * unitsOf blocks := by
  induction blocks generalizing a with
  | nil => simp [frees] at member
  | cons block blocks ih =>
      have here := fits block (List.mem_cons_self ..)
      have rest := fun b listed => fits b (List.mem_cons_of_mem _ listed)
      cases block with
      | live units requested payload =>
          have := ih rest member
          simp only [unitsOf_cons, Block.units]
          omega
      | free units =>
          simp only [Block.Fits] at here
          simp only [unitsOf_cons, Block.units]
          rcases List.mem_cons.mp member with same | later
          · cases same
            omega
          · have := ih rest later
            omega

/-- Free blocks have different addresses. -/
theorem frees_nodup (fits : ∀ block ∈ blocks, block.Fits) :
    ((frees a blocks).map Prod.fst).Nodup := by
  induction blocks generalizing a with
  | nil => simp [frees]
  | cons block blocks ih =>
      have here := fits block (List.mem_cons_self ..)
      have rest := fun b listed => fits b (List.mem_cons_of_mem _ listed)
      cases block with
      | live units requested payload => exact ih rest
      | free units =>
          simp only [Block.Fits] at here
          rw [frees, List.map_cons, List.nodup_cons]
          refine ⟨?_, ih rest⟩
          intro again
          obtain ⟨⟨header, size⟩, member, same⟩ := List.mem_map.mp again
          have := frees_bounds rest member
          dsimp only at same
          omega

/-- A header, and the other words of the block. -/
def wholeCells (a units : Nat) (is : Info → Prop) : Multiset (Nat × (Nat → Prop)) :=
  tagged a is + raws Nat (a + 1) (2 * units - 1)

theorem raws_block (a : Nat) (large : 2 ≤ units) :
    raws Nat (a + 1) (2 * units - 1) = raw Nat (a + 1) + raw Nat (a + 2) +
      raws Nat (a + 3) (2 * units - 4) + raw Nat (a + 2 * units - 1) := by
  have count : 2 * units - 1 = 1 + (1 + (2 * units - 4 + 1)) := by omega
  have last : a + 3 + (2 * units - 4) = a + 2 * units - 1 := by omega
  rw [count, raws_add, raws_add, raws_add, raws_one, raws_one, raws_one, Nat.add_assoc a,
    Nat.add_assoc a, last]
  abel

theorem weakens_payload {requested : Nat} {payload : List Nat}
    (fits : (Block.live units requested payload).Fits) :
    Weakens (values (a + 1) payload) (raws Nat (a + 1) (2 * units - 1)) := by
  have count : 2 * units - 1 = (payload.map fun v w => w = v).length := by
    rw [List.length_map]
    have := fits.2
    omega
  rw [count]
  exact weakens_raws _

theorem weakens_live {requested : Nat} {payload : List Nat}
    (fits : (Block.live units requested payload).Fits) :
    Weakens ((Block.live units requested payload).cells a prevAllocated)
      (wholeCells a units (LiveTag prevAllocated units requested)) :=
  (Weakens.refl _).add (weakens_payload fits)

theorem weakens_free {links : Multiset (Nat × (Nat → Prop))} (large : 2 ≤ units)
    (weakens : Weakens links (raw Nat (a + 1) + raw Nat (a + 2))) :
    Weakens ((Block.free units).cells a prevAllocated + links)
      (wholeCells a units (Tag false prevAllocated units)) := by
  have split : wholeCells a units (Tag false prevAllocated units) =
      tagged a (Tag false prevAllocated units) + raws Nat (a + 3) (2 * units - 4) +
        raw Nat (a + 2 * units - 1) + (raw Nat (a + 1) + raw Nat (a + 2)) := by
    rw [wholeCells, raws_block a large]
    abel
  rw [split]
  exact (((Weakens.refl _).add (Weakens.refl _)).add weakens_raw).add weakens

/-- Two blocks side by side are one. -/
theorem wholeCells_join (a more : Nat) {is : Info → Prop} (large : 0 < units) (some : 0 < more) :
    wholeCells a units is + raws Nat (a + 2 * units) (2 * more) = wholeCells a (units + more) is := by
  have count : 2 * (units + more) - 1 = 2 * units - 1 + 2 * more := by omega
  have place : a + 1 + (2 * units - 1) = a + 2 * units := by omega
  rw [wholeCells, wholeCells, count, raws_add, place, add_assoc]

theorem raws_first (a : Nat) (large : 0 < units) :
    raws Nat a (2 * units) = raw Nat a + raws Nat (a + 1) (2 * units - 1) := by
  have count : 2 * units = 1 + (2 * units - 1) := by omega
  rw [← raws_one, ← raws_add, ← count]

theorem weakens_whole (large : 0 < units) (is : Info → Prop) :
    Weakens (wholeCells a units is) (raws Nat a (2 * units)) := by
  rw [raws_first a large]
  exact weakens_raw.add (.refl _)

/-- What follows is allocated: a live block or the epilogue. -/
def Solid (after : List Block) : Prop := ∀ block ∈ after.head?, block.allocated = true

def freeEnd (before : List Block) : Nat :=
  match before.getLast? with
  | some (.free units) => units
  | _ => 0

def solidPart (before : List Block) : List Block :=
  match before.getLast? with
  | some (.free _) => before.dropLast
  | _ => before

def freeStart : List Block → Nat
  | .free units :: _ => units
  | _ => 0

def solidRest : List Block → List Block
  | .free _ :: after => after
  | after => after

theorem lastAllocated_concat (prevAllocated : Bool) (before : List Block) (block : Block) :
    lastAllocated prevAllocated (before ++ [block]) = block.allocated := by
  simp [lastAllocated]

theorem freeEnd_concat (before : List Block) (units : Nat) :
    freeEnd (before ++ [.free units]) = units := by
  simp [freeEnd]

theorem solidPart_concat (before : List Block) (units : Nat) :
    solidPart (before ++ [.free units]) = before := by
  simp [solidPart]

theorem solidPart_cases (before : List Block) :
    (freeEnd before = 0 ∧ solidPart before = before ∧ lastAllocated true before = true) ∨
    ∃ units, freeEnd before = units ∧ before = solidPart before ++ [.free units] := by
  rcases List.eq_nil_or_concat before with rfl | ⟨front, block, rfl⟩
  · exact .inl ⟨rfl, rfl, rfl⟩
  · cases block with
    | live units requested payload =>
        refine .inl ⟨?_, ?_, ?_⟩
        · simp [freeEnd]
        · simp [solidPart]
        · rw [List.concat_eq_append, lastAllocated_concat]
          rfl
    | free units =>
        refine .inr ⟨units, ?_, ?_⟩
        · rw [List.concat_eq_append, freeEnd_concat]
        · rw [List.concat_eq_append, solidPart_concat]

theorem solidRest_cases (after : List Block) :
    (freeStart after = 0 ∧ solidRest after = after ∧ Solid after) ∨
    ∃ units, freeStart after = units ∧ after = .free units :: solidRest after := by
  match after with
  | [] => exact .inl ⟨rfl, rfl, by simp [Solid]⟩
  | .live units requested payload :: after =>
      exact .inl ⟨rfl, rfl, by simp [Solid, Block.allocated]⟩
  | .free units :: after => exact .inr ⟨units, rfl, rfl⟩

theorem NoneAdjacent.left (apart : NoneAdjacent (before ++ .free units :: after)) :
    lastAllocated true before = true := by
  rcases List.eq_nil_or_concat before with rfl | ⟨front, block, rfl⟩
  · rfl
  · rw [List.concat_eq_append] at apart ⊢
    rw [lastAllocated_concat]
    have chain := List.isChain_append.mp apart
    have next := chain.2.2 block (by simp) (.free units) (by simp)
    exact next.resolve_right (by simp [Block.allocated])

theorem NoneAdjacent.right (apart : NoneAdjacent (before ++ .free units :: after)) :
    Solid after := by
  intro block first
  have chain := (List.isChain_append.mp apart).2.1
  match after, first with
  | next :: after, first =>
      simp only [List.head?_cons, Option.mem_def, Option.some.injEq] at first
      subst first
      rcases (List.isChain_cons_cons.mp chain).1 with left | right
      · cases left
      · exact right

/-- A free block between allocated ones. -/
theorem noneAdjacent_free (left : NoneAdjacent before) (right : NoneAdjacent after)
    (last : lastAllocated true before = true) (next : Solid after) :
    NoneAdjacent (before ++ .free units :: after) := by
  refine List.isChain_append.mpr ⟨left, ?_, ?_⟩
  · refine List.isChain_cons.mpr ⟨?_, right⟩
    intro block first
    exact .inr (next block first)
  · intro block final head first
    rcases List.eq_nil_or_concat before with rfl | ⟨front, other, rfl⟩
    · simp at final
    · rw [List.concat_eq_append, lastAllocated_concat] at last
      rw [List.concat_eq_append, List.getLast?_append] at final
      simp only [List.getLast?_singleton, Option.some_or, Option.mem_def, Option.some.injEq] at final
      subst final
      exact .inl last

/-- The header of what follows, in which the bit of the block before can be set. -/
theorem blocksCells_solid (a : Nat) (solid : Solid after) :
    ∃ (is : Bool → Info → Prop) (rest : Multiset (Nat × (Nat → Prop))),
      (∀ prevAllocated, blocksCells a prevAllocated after = tagged a (is prevAllocated) + rest) ∧
      (∀ prevAllocated info, is prevAllocated info → info.allocated = true) ∧
      ∀ prevAllocated prevAllocated' info, is prevAllocated info →
        is prevAllocated' { info with prevAllocated := prevAllocated' } := by
  match after, solid with
  | [], _ =>
      refine ⟨fun prevAllocated => Tag true prevAllocated 0, 0, ?_, ?_, ?_⟩
      · exact fun _ => (add_zero _).symm
      · exact fun _ _ tag => tag.allocated
      · exact fun _ _ _ tag => ⟨tag.allocated, rfl, tag.size⟩
  | .live units requested payload :: after, _ =>
      refine ⟨fun prevAllocated => LiveTag prevAllocated units requested,
        values (a + 1) payload + blocksCells (a + 2 * units) true after, ?_, ?_, ?_⟩
      · exact fun _ => add_assoc _ _ _
      · exact fun _ _ tag => tag.allocated
      · exact fun _ _ _ tag => ⟨⟨tag.allocated, rfl, tag.size⟩, tag.requested⟩
  | .free units :: after, solid => exact absurd (solid (.free units) rfl) (by simp [Block.allocated])

end Audible.Sfmm
