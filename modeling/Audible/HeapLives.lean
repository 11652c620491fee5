import Audible.HeapRealloc

set_option autoImplicit false

/- The live blocks of a heap: what becomes of them, and where they lie. -/
namespace Audible.Sfmm

open Cells Returning

variable {util : Sfutil} {heap heap' : Heap} {hole : Gap} {m : Memory}
variable {before after blocks : List Block} {payload : List Nat} {live : Live} {list : FreeList}
variable {a units requested needed size n k : Nat} {result : Option Nat}

/-- The live blocks, and the payload that the program knows each of them by. -/
def Heap.lives (util : Sfutil) (heap : Heap) : List Live := Sfmm.lives util.first heap.blocks

def Live.pointer (live : Live) : Nat := live.header + 1

def Gap.lives (util : Sfutil) (hole : Gap) : List Live :=
  Sfmm.lives util.first hole.before ++ Sfmm.lives (hole.header util + 2 * hole.units) hole.after

theorem lives_split (member : live ∈ lives a blocks) :
    ∃ before after, blocks = before ++ .live live.units live.requested live.payload :: after ∧
      live.header = a + 2 * unitsOf before := by
  induction blocks generalizing a with
  | nil => cases member
  | cons block blocks ih =>
      cases block with
      | live units requested payload =>
          rw [lives, List.mem_cons] at member
          rcases member with rfl | later
          · exact ⟨[], blocks, rfl, rfl⟩
          · obtain ⟨before, after, split, place⟩ := ih later
            refine ⟨.live units requested payload :: before, after, by rw [split]; rfl, ?_⟩
            rw [place, unitsOf_cons, Block.units]
            omega
      | free units =>
          obtain ⟨before, after, split, place⟩ := ih member
          refine ⟨.free units :: before, after, by rw [split]; rfl, ?_⟩
          rw [place, unitsOf_cons, Block.units]
          omega

theorem lives_of_split (split : heap.blocks = before ++ .live units requested payload :: after) :
    heap.lives util = lives util.first before ++
      ⟨util.place before, units, requested, payload⟩ ::
        lives (util.place before + 2 * units) after := by
  rw [Heap.lives, split, lives_append]
  rfl

theorem lives_solidPart (a : Nat) (before : List Block) :
    lives a (solidPart before) = lives a before := by
  rcases solidPart_cases before with ⟨-, same, -⟩ | ⟨units, -, split⟩
  · rw [same]
  · conv_rhs => rw [split, lives_append]
    simp [lives]

theorem lives_solidRest (a : Nat) (after : List Block) :
    lives (a + 2 * freeStart after) (solidRest after) = lives a after := by
  rcases solidRest_cases after with ⟨none, same, -⟩ | ⟨units, one, split⟩
  · rw [none, same, Nat.mul_zero, Nat.add_zero]
  · conv_rhs => rw [split]
    rw [one, lives]

theorem lives_afterFree (before after : List Block) (units : Nat) :
    (heap.afterFree util before units after).lives util =
      lives util.first before ++ lives (util.place before + 2 * units) after := by
  have place : util.first + 2 * unitsOf (solidPart before) +
      2 * (freeEnd before + units + freeStart after) =
        util.place before + 2 * units + 2 * freeStart after := by
    have := unitsOf_solidPart before
    rw [Sfutil.place]
    omega
  simp only [Heap.lives, Heap.afterFree]
  rw [lives_append, lives, lives_solidPart, place, lives_solidRest]

theorem lives_afterShrink (fits : (Block.live units requested payload).Fits)
    (isTaken : k = if units < needed + 2 then units else needed) :
    (heap.afterShrink util before units n needed payload after).lives util =
      lives util.first before ++ ⟨util.place before, k, n, payload.take (2 * k - 1)⟩ ::
        lives (util.place before + 2 * units) after := by
  have length := fits.2
  unfold Heap.afterShrink
  by_cases close : units < needed + 2
  · have all : payload.take (2 * units - 1) = payload := List.take_of_length_le (by omega)
    rw [if_pos close] at isTaken ⊢
    rw [isTaken, all]
    exact lives_of_split rfl
  · have place : util.place before + 2 * needed + 2 * (units - needed + freeStart after) =
        util.place before + 2 * units + 2 * freeStart after := by omega
    rw [if_neg close] at isTaken ⊢
    rw [isTaken, lives_of_split rfl, lives, place, lives_solidRest]

theorem lives_gap (split : heap.blocks = before ++ .free units :: after) :
    (heap.gap util before units after).lives util = heap.lives util := by
  rw [Heap.lives, split, lives_append]
  rfl

theorem lives_page (heap : Heap) : (heap.page).lives util = heap.lives util :=
  List.append_nil _

theorem lives_grown (atEnd : hole.after = []) : (hole.grown k).lives util = hole.lives util := by
  simp only [Gap.lives, Gap.grown, atEnd, lives]

theorem lives_filled :
    ((hole.filled util needed size payload).lives util).Perm
      (⟨hole.header util, hole.taken needed, size % 2 ^ 32, payload⟩ :: hole.lives util) := by
  unfold Gap.filled Gap.taken
  split_ifs
  · rw [lives_of_split rfl]
    exact List.perm_middle
  · have place : util.place hole.before + 2 * needed + 2 * (hole.units - needed) =
        hole.header util + 2 * hole.units := by
      rw [Gap.header]
      omega
    rw [lives_of_split rfl, lives, place]
    exact List.perm_middle

def Live.Apart (left right : Live) : Prop :=
  left.header + 2 * left.units ≤ right.header ∨ right.header + 2 * right.units ≤ left.header

theorem Live.Apart.symm {left right : Live} (apart : left.Apart right) : right.Apart left :=
  Or.symm apart

theorem lives_bounds (fits : ∀ block ∈ blocks, block.Fits) (member : live ∈ lives a blocks) :
    a ≤ live.header ∧ live.header + 2 * live.units ≤ a + 2 * unitsOf blocks ∧ 2 ≤ live.units ∧
      live.payload.length + 1 = 2 * live.units := by
  obtain ⟨before, after, split, place⟩ := lives_split member
  rw [split] at fits
  have own := fits (.live live.units live.requested live.payload) (by simp)
  rw [split, unitsOf_append, unitsOf_cons, Block.units]
  exact ⟨by omega, by omega, own.1, own.2⟩

theorem lives_apart (fits : ∀ block ∈ blocks, block.Fits) :
    (lives a blocks).Pairwise Live.Apart := by
  induction blocks generalizing a with
  | nil => exact .nil
  | cons block blocks ih =>
      rw [List.forall_mem_cons] at fits
      cases block with
      | live units requested payload =>
          rw [lives, List.pairwise_cons]
          exact ⟨fun other member => .inl (lives_bounds fits.2 member).1, ih fits.2⟩
      | free units => exact ih fits.2

/-- The words of the headers, links and footers of blocks, and the epilogue. -/
def tags (a : Nat) : List Block → List Nat
  | [] => [a]
  | .live units _ _ :: blocks => a :: tags (a + 2 * units) blocks
  | .free units :: blocks => a :: (a + 1) :: (a + 2) :: (a + 2 * units - 1) :: tags (a + 2 * units) blocks

theorem le_of_mem_tags (fits : ∀ block ∈ blocks, block.Fits) {x : Nat} (member : x ∈ tags a blocks) :
    a ≤ x := by
  induction blocks generalizing a with
  | nil => exact Nat.le_of_eq (List.mem_singleton.mp member).symm
  | cons block blocks ih =>
      rw [List.forall_mem_cons] at fits
      cases block with
      | live units requested payload =>
          rcases List.mem_cons.mp member with rfl | later
          · exact Nat.le_refl _
          · exact Nat.le_trans (Nat.le_add_right _ _) (ih fits.2 later)
      | free units =>
          have large : 2 ≤ units := fits.1
          simp only [tags, List.mem_cons] at member
          rcases member with rfl | rfl | rfl | rfl | later
          · exact Nat.le_refl _
          · omega
          · omega
          · omega
          · exact Nat.le_trans (Nat.le_add_right _ _) (ih fits.2 later)

/-- No payload has a word of a header, link or footer. -/
theorem lives_off_tags (fits : ∀ block ∈ blocks, block.Fits) (member : live ∈ lives a blocks)
    {x : Nat} (tag : x ∈ tags a blocks) :
    x < live.pointer ∨ live.header + 2 * live.units ≤ x := by
  induction blocks generalizing a with
  | nil => cases member
  | cons block blocks ih =>
      rw [List.forall_mem_cons] at fits
      cases block with
      | live units requested payload =>
          rw [lives, List.mem_cons] at member
          rw [tags, List.mem_cons] at tag
          rcases member with rfl | later <;> rcases tag with rfl | tag
          · exact .inl (Nat.lt_succ_self _)
          · exact .inr (le_of_mem_tags fits.2 tag)
          · have := (lives_bounds fits.2 later).1
            unfold Live.pointer
            omega
          · exact ih fits.2 later tag
      | free units =>
          have large : 2 ≤ units := fits.1
          have := (lives_bounds fits.2 member).1
          simp only [tags, List.mem_cons] at tag
          unfold Live.pointer
          rcases tag with rfl | rfl | rfl | rfl | tag
          · omega
          · omega
          · omega
          · omega
          · exact ih fits.2 member tag

def infoAt (m : Memory) (pp : Nat) : Info := Info.decode ((m.word (pp - 1)).getD 0)

theorem reads_values {vs : List Nat} {rest : Multiset (Nat × (Nat → Prop))} {i : Nat}
    (holds : Holds m.word (values a vs + rest)) (inside : i < vs.length) :
    m.word (a + i) = vs[i]? := by
  have member : (a + i, fun w => w = vs[i]) ∈ values a vs := by
    refine mem_words.mpr ⟨Nat.le_add_right _ _, ?_⟩
    rw [Nat.add_sub_cancel_left, List.getElem?_map, List.getElem?_eq_getElem inside]
    rfl
  obtain ⟨v, here, is⟩ := holds.left.agrees _ member
  rw [here, is, List.getElem?_eq_getElem inside]

structure Live.InMemory (live : Live) (m : Memory) : Prop where
  allocated : (infoAt m live.pointer).allocated = true
  size : (infoAt m live.pointer).blockSize.toNat = live.units
  requested : (infoAt m live.pointer).requestedSize.toNat = live.requested
  payload : ∀ i < live.payload.length, m.word (live.pointer + i) = live.payload[i]?

theorem Describes.inMemory (described : Describes util (heap.picture util) m)
    (member : live ∈ heap.lives util) : live.InMemory m := by
  obtain ⟨before, after, split, place⟩ := lives_split member
  have holds := described.holds
  rw [Heap.picture_live split, ← place] at holds
  obtain ⟨w, here, tag⟩ := holds.read
  have header : infoAt m live.pointer = Info.decode w := by
    rw [infoAt, Live.pointer, Nat.add_sub_cancel, here]
    rfl
  constructor
  · rw [header]
    exact tag.allocated
  · rw [header]
    exact tag.size
  · rw [header]
    exact tag.requested
  · intro i inside
    have words := holds.right.right
    exact reads_values words inside

theorem mem_ring {n p head b : Nat} {members : List Nat} (member : b ∈ members) :
    (∃ c ∈ ring n p head members, c.1 = b + n) ∧ ∃ c ∈ ring n p head members, c.1 = b + p := by
  obtain ⟨last, next, rest, whole, -⟩ := @ring_member n p head b members member
  rw [whole, edge, edge]
  refine ⟨⟨(b + n, fun w => w = next), ?_, rfl⟩, ⟨(b + p, fun w => w = last), ?_, rfl⟩⟩
  · simp [value]
  · simp [value]

theorem mem_ring_head (n p head : Nat) (members : List Nat) :
    (∃ c ∈ ring n p head members, c.1 = head + n) ∧
      ∃ c ∈ ring n p head members, c.1 = head + p := by
  obtain ⟨first, front⟩ := @ring_first n p head members
  obtain ⟨back, ends⟩ := @path_end n p members head
  refine ⟨⟨_, by rw [front]; exact Multiset.mem_add.mpr (.inl (mem_cell.mpr rfl)), rfl⟩,
    ⟨(head + p, fun w => w = members.getLastD head), ?_, rfl⟩⟩
  rw [ring, ends head, edge]
  simp [value]

/-- The words of the list head and of the nodes of the lists. -/
def nodeAddresses (head : Nat) (lists : List FreeList) : List Nat :=
  (head :: lists.map FreeList.node).flatMap fun node => (List.range nodeWords).map (node + ·)

theorem mem_listCells {head x : Nat} {lists : List FreeList} (member : x ∈ nodeAddresses head lists) :
    ∃ c ∈ listCells head lists, c.1 = x := by
  obtain ⟨node, isNode, inside⟩ := List.mem_flatMap.mp member
  obtain ⟨i, isWord, rfl⟩ := List.mem_map.mp inside
  have bound : i < 6 := List.mem_range.mp isWord
  have words : i = 0 ∨ i = 1 ∨ i = 2 ∨ i = 3 ∨ i = 4 ∨ i = 5 := by omega
  have ring_ : ∀ b : Nat, (∃ c ∈ ring 4 5 head (lists.map FreeList.node), c.1 = b) →
      ∃ c ∈ listCells head lists, c.1 = b := by
    rintro b ⟨c, here, is⟩
    exact ⟨c, Multiset.mem_add.mpr (.inl (Multiset.mem_add.mpr (.inr here))), is⟩
  rcases List.mem_cons.mp isNode with rfl | listed
  · obtain ⟨next, prev⟩ := mem_ring_head 4 5 node (lists.map FreeList.node)
    have own : ∀ c ∈ value node 0 + raws Nat (node + 1) 3, c ∈ listCells node lists := by
      intro c here
      exact Multiset.mem_add.mpr (.inl (Multiset.mem_add.mpr (.inl here)))
    rcases words with rfl | rfl | rfl | rfl | rfl | rfl
    · exact ⟨_, own _ (Multiset.mem_add.mpr (.inl mem_value)), rfl⟩
    · exact ⟨(node + 1, fun _ => True), own _ (by simp [raws]), rfl⟩
    · exact ⟨(node + 2, fun _ => True), own _ (by simp [raws]), rfl⟩
    · exact ⟨(node + 3, fun _ => True), own _ (by simp [raws]), rfl⟩
    · exact ring_ _ next
    · exact ring_ _ prev
  · obtain ⟨next, prev⟩ := @mem_ring 4 5 head node _ listed
    obtain ⟨list, isList, rfl⟩ := List.mem_map.mp listed
    obtain ⟨rest, split⟩ := @lists_split head lists list isList
    obtain ⟨first, last⟩ := mem_ring_head 1 2 (list.node + 1) list.members
    have own : ∀ c ∈ list.cells, c ∈ listCells head lists := by
      intro c here
      rw [split]
      exact Multiset.mem_add.mpr (.inr (Multiset.mem_add.mpr (.inl here)))
    have members : ∀ b : Nat, (∃ c ∈ ring 1 2 (list.node + 1) list.members, c.1 = b) →
        ∃ c ∈ listCells head lists, c.1 = b := by
      rintro b ⟨c, here, is⟩
      exact ⟨c, own c (Multiset.mem_add.mpr (.inr here)), is⟩
    rcases words with rfl | rfl | rfl | rfl | rfl | rfl
    · exact ⟨_, size_mem isList, rfl⟩
    · exact ⟨(list.node + 1, fun _ => True), own _ (by simp [FreeList.cells, raw]), rfl⟩
    · exact members _ first
    · exact members _ last
    · exact ring_ _ next
    · exact ring_ _ prev

/-- The words that the allocator uses for itself. -/
def Heap.inUse (util : Sfutil) (heap : Heap) : List Nat :=
  (List.range 5).map (util.start + ·) ++ tags util.first heap.blocks ++
    nodeAddresses util.head heap.lists

/-- A payload is apart from all of them. -/
theorem Heap.Valid.payload_apart (valid : heap.Valid util)
    (described : Describes util (heap.picture util) m) (member : live ∈ heap.lives util) {x : Nat}
    (used : x ∈ heap.inUse util) : x < live.pointer ∨ live.header + 2 * live.units ≤ x := by
  obtain ⟨lower, -, large, length⟩ := lives_bounds valid.fits member
  rcases List.mem_append.mp used with used | node
  · rcases List.mem_append.mp used with prologue | tag
    · obtain ⟨i, isWord, rfl⟩ := List.mem_map.mp prologue
      have bound := List.mem_range.mp isWord
      rw [Sfutil.first] at lower
      unfold Live.pointer
      omega
    · exact lives_off_tags valid.fits member tag
  · obtain ⟨c, isCell, rfl⟩ := mem_listCells node
    by_contra inside
    rw [not_or, Nat.not_lt, Nat.not_le] at inside
    obtain ⟨before, after, split, place⟩ := lives_split member
    have holds := described.holds
    rw [Heap.picture_live split, ← place] at holds
    have words := holds.right.right
    have within : c.1 - live.pointer < live.payload.length := by
      unfold Live.pointer at inside ⊢
      omega
    have payload : (c.1, fun w => w = live.payload[c.1 - live.pointer]) ∈
        values live.pointer live.payload := by
      refine mem_words.mpr ⟨inside.1, ?_⟩
      rw [List.getElem?_map, List.getElem?_eq_getElem]
      rfl
    exact words.ne payload (Multiset.mem_add.mpr (.inr (Multiset.mem_add.mpr (.inr isCell)))) rfl

def Heap.freeBytes (util : Sfutil) (heap : Heap) : Nat :=
  ((frees util.first heap.blocks).map Prod.snd).sum

theorem sizes_add (a : Nat) (blocks : List Block) :
    ((frees a blocks).map Prod.snd).sum + 16 * ((lives a blocks).map Live.units).sum =
      16 * unitsOf blocks := by
  induction blocks generalizing a with
  | nil => rfl
  | cons block blocks ih =>
      cases block with
      | live units requested payload =>
          have rest := ih (a + 2 * units)
          simp only [frees, lives, List.map_cons, List.sum_cons, unitsOf_cons, Block.units]
          omega
      | free units =>
          have rest := ih (a + 2 * units)
          simp only [frees, lives, List.map_cons, List.sum_cons, unitsOf_cons, Block.units]
          omega

/-- What is not live is free, but for the 48 bytes of the prologue and the epilogue. -/
theorem Heap.Valid.freeBytes (valid : heap.Valid util) :
    heap.freeBytes util + 16 * ((heap.lives util).map Live.units).sum + 48 = 4096 * heap.pages := by
  have sizes := sizes_add util.first heap.blocks
  have fills := valid.fills
  unfold pageWords at fills
  rw [Heap.freeBytes, Heap.lives]
  omega

end Audible.Sfmm
