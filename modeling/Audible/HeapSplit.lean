import Audible.HeapGrow

set_option autoImplicit false

/- Blocks that are split, and the block that `sf_malloc` makes of a free one. -/
namespace Audible.Sfmm

open Cells Returning

variable {util : Sfutil} {p : Picture} {rest : Multiset (Nat × (Nat → Prop))}
variable {h q n units more next needed size : Nat} {is is' is₂ : Info → Prop} {lists : List FreeList}
variable {prevAllocated : Bool} {unlink : Nat → HeapM Nat}

-- splitBlock: no block leaves its list in the first case, so `unlink` may be any function

/-- The words of a block that is split off: its header is written first. -/
theorem raws_tail (n : Nat) (large : 2 ≤ more) :
    raws Nat n (2 * more) = raw Nat n + (raw Nat (n + 1) + raw Nat (n + 2) +
      (raws Nat (n + 3) (2 * more - 4) + raw Nat (n + 2 * more - 1))) := by
  rw [raws_first n (by omega), raws_block n large]
  abel

theorem does_splitBlock_allocated (sized : ∀ info, is info → info.blockSize.toNat = units)
    (allocated : ∀ info, is' info → info.allocated = true) (large : 2 ≤ more)
    (fits : more < 2 ^ 27) (increasing : Increasing lists) (few : lists.length ≤ p.nodes) :
    Does util (p.at (tagged h is + (listCells util.head lists + (raws Nat (h + 2 * units) (2 * more) +
        (tagged (h + 2 * units + 2 * more) is' + rest)))))
      (splitBlockWith util unlink h (16 * more)) (some (h + 2 * units))
      ({ p with nodes := nodesWith (16 * more) p.nodes lists }.at (tagged h is +
        (listCells util.head (pushFree (util.node p.nodes) (16 * more) (h + 2 * units) lists) +
          ((Block.free more).cells (h + 2 * units) true +
            (tagged (h + 2 * units + 2 * more) is' + rest))))) := by
  obtain ⟨n, isN⟩ : ∃ n, n = h + 2 * units := ⟨_, rfl⟩
  rw [← isN]
  obtain ⟨others, isOthers⟩ : ∃ others, others = raws Nat (n + 3) (2 * more - 4) + rest := ⟨_, rfl⟩
  obtain ⟨after, isAfter⟩ : ∃ after, after = tagged (n + 2 * more) is' := ⟨_, rfl⟩
  obtain ⟨own, isOwn⟩ : ∃ own, own = tagged h is := ⟨_, rfl⟩
  have start : tagged h is + (listCells util.head lists + (raws Nat n (2 * more) +
        (tagged (n + 2 * more) is' + rest))) =
      own + (tagged n (fun _ => True) + (listCells util.head lists + (raw Nat (n + 1) +
        raw Nat (n + 2) + (raw Nat (n + 2 * more - 1) + (after + others))))) := by
    rw [raws_tail n large, isOthers, isAfter, isOwn, tagged_raw]
    abel
  have middle : own + (tagged n (Tag false true more) + (listCells util.head lists +
        (raw Nat (n + 1) + raw Nat (n + 2) + (raw Nat (n + 2 * more - 1) + (after + others))))) =
      tagged n (Tag false true more) + (after + (own + (listCells util.head lists +
        (raw Nat (n + 1) + raw Nat (n + 2) + (raw Nat (n + 2 * more - 1) + others))))) := by
    abel
  have listing : after + (tagged n (Tag false true more) + (own + (listCells util.head lists +
        (raw Nat (n + 1) + raw Nat (n + 2) + (raw Nat (n + 2 * more - 1) + others))))) =
      listCells util.head lists + (raw Nat (n + 1) + raw Nat (n + 2) +
        (tagged n (Tag false true more) + (tagged (n + 2 * more - 1) (fun _ => True) +
          (after + (own + others))))) := by
    rw [← tagged_raw]
    abel
  have listed : ∀ lists', listCells util.head lists' + (tagged n (Tag false true more) +
        (tagged (n + 2 * more - 1) (fun _ => True) + (after + (own + others)))) =
      tagged n (Tag false true more) + (tagged (n + 2 * more - 1) (fun _ => True) +
        (listCells util.head lists' + (after + (own + others)))) := by
    intro lists'
    abel
  have finish : ∀ lists', own + (listCells util.head lists' + ((Block.free more).cells n true +
        (after + rest))) =
      tagged n (Tag false true more) + (tagged (n + 2 * more - 1) (Tag false true more) +
        (listCells util.head lists' + (after + (own + others)))) := by
    intro lists'
    rw [Block.cells, isOthers]
    abel
  unfold splitBlockWith
  rw [toSize_units fits, if_neg (by omega), start, isOwn]
  apply (does_getNextHeaderPointer sized).bind
  rw [← isN, ← isOwn]
  apply (does_second fun _ => does_setFreeHeader (by omega)).bind
  rw [middle, isAfter]
  apply (does_getNextHeaderPointer Tag.size_eq).bind
  rw [add_left_comm]
  apply does_loadInfo
  intro info tag
  rw [allocated info tag, ← isAfter, listing, finish]
  apply Returns.assoc
  apply (does_pushFree increasing few (by omega)).bind
  rw [listed]
  apply (does_getFooterPointer Tag.size_eq).bind
  apply (does_second fun _ => does_setFooter (by omega)).bind
  exact .pure _

/-- The block after is free: it leaves its list, and what is split off is merged with it. -/
theorem does_splitBlock_free (sized : ∀ info, is info → info.blockSize.toNat = units)
    (large : 2 ≤ more) (large' : 2 ≤ next) (fits : more + next < 2 ^ 27)
    (listed : (h + 2 * units + 2 * more, 16 * next) ∈ entries lists)
    (increasing : Increasing lists) (few : lists.length ≤ p.nodes) :
    Does util (p.at (tagged h is + (listCells util.head lists + (raws Nat (h + 2 * units) (2 * more) +
        ((Block.free next).cells (h + 2 * units + 2 * more) prevAllocated + rest)))))
      (splitBlock util h (16 * more)) (some (h + 2 * units))
      ({ p with
          nodes := nodesWith (16 * (more + next)) p.nodes
            (dropFree (h + 2 * units + 2 * more) lists) }.at (tagged h is +
        (listCells util.head (pushFree (util.node p.nodes) (16 * (more + next)) (h + 2 * units)
            (dropFree (h + 2 * units + 2 * more) lists)) +
          ((Block.free (more + next)).cells (h + 2 * units) true + rest)))) := by
  obtain ⟨n, isN⟩ : ∃ n, n = h + 2 * units := ⟨_, rfl⟩
  obtain ⟨own, isOwn⟩ : ∃ own, own = tagged h is := ⟨_, rfl⟩
  rw [← isN] at listed ⊢
  obtain ⟨last, follows, -, -, unlinks⟩ := @does_dropFree util p (n + 2 * more) util.head lists _ listed
  obtain ⟨tail, isTail⟩ : ∃ tail, tail = raws Nat (n + 2 * more + 3) (2 * next - 4) +
      tagged (n + 2 * more + 2 * next - 1) (Tag false true next) := ⟨_, rfl⟩
  obtain ⟨inside, isInside⟩ : ∃ inside, inside = raws Nat (n + 1) (2 * more - 1) := ⟨_, rfl⟩
  have start : tagged h is + (listCells util.head lists + (raws Nat n (2 * more) +
        ((Block.free next).cells (n + 2 * more) prevAllocated + rest))) =
      own + (tagged n (fun _ => True) + (tagged (n + 2 * more) (Tag false prevAllocated next) +
        (listCells util.head lists + (inside + tail + rest)))) := by
    rw [raws_first n (by omega), Block.cells, isTail, isInside, isOwn, tagged_raw]
    abel
  have middle : ∀ cells, own + (tagged n (Tag false true more) +
        (tagged (n + 2 * more) (Tag false prevAllocated next) + cells)) =
      tagged n (Tag false true more) +
        (tagged (n + 2 * more) (Tag false prevAllocated next) + (own + cells)) := by
    intro cells
    abel
  have merged : tagged (n + 2 * more) (Tag false prevAllocated next) + (tagged n (Tag false true more) +
        (own + (listCells util.head (dropFree (n + 2 * more) lists) +
          (value (n + 2 * more + 1) follows + value (n + 2 * more + 2) last) +
            (inside + tail + rest)))) =
      tagged n (Tag false true more) + inside + ((Block.free next).cells (n + 2 * more) prevAllocated +
        (value (n + 2 * more + 1) follows + value (n + 2 * more + 2) last)) +
        (own + (listCells util.head (dropFree (n + 2 * more) lists) + rest)) := by
    rw [Block.cells, isTail]
    abel
  have joined : wholeCells n (more + next) (Tag false true more) =
      tagged n (Tag false true more) + inside + raws Nat (n + 2 * more) (2 * next) := by
    rw [← wholeCells_join n next (by omega) (by omega), wholeCells, isInside]
  have finish : ∀ lists', own + (listCells util.head lists' +
        ((Block.free (more + next)).cells n true + rest)) =
      tagged n (Tag false true (more + next)) + (listCells util.head lists' +
        (tagged (n + 2 * (more + next) - 1) (Tag false true (more + next)) +
          (raws Nat (n + 3) (2 * (more + next) - 4) + (own + rest)))) := by
    intro lists'
    rw [Block.cells]
    abel
  have listing : tagged n (Tag false true (more + next)) +
        (tagged (n + 2 * (more + next) - 1) (Tag false true (more + next)) +
          (raw Nat (n + 1) + raw Nat (n + 2) + raws Nat (n + 3) (2 * (more + next) - 4) +
            (own + (listCells util.head (dropFree (n + 2 * more) lists) + rest)))) =
      tagged n (Tag false true (more + next)) +
        (listCells util.head (dropFree (n + 2 * more) lists) + (raw Nat (n + 1) + raw Nat (n + 2) +
          (tagged (n + 2 * (more + next) - 1) (Tag false true (more + next)) +
            (raws Nat (n + 3) (2 * (more + next) - 4) + (own + rest))))) := by
    abel
  unfold splitBlock splitBlockWith
  rw [toSize_units (by omega), if_neg (by omega), start, isOwn]
  apply (does_getNextHeaderPointer sized).bind
  rw [← isN, ← isOwn]
  apply (does_second fun _ => does_setFreeHeader (by omega)).bind
  rw [middle]
  apply (does_getNextHeaderPointer Tag.size_eq).bind
  rw [add_left_comm]
  apply does_loadInfo
  intro info tag
  rw [tag.allocated, Info.bytes_eq tag.size (by omega)]
  apply (does_fourth unlinks).bind
  rw [merged]
  apply does_weakened (((Weakens.refl _).add ((weakens_free large'
    (weakens_raw.add weakens_raw)).trans (weakens_whole (by omega) _))).add (.refl _))
  rw [← joined]
  apply (does_coalesce_whole Tag.size_eq fits (by omega)).bind
  apply does_loadInfo
  intro again tag
  rw [Info.bytes_eq tag.size fits]
  apply (does_getFooterPointer Tag.size_eq).bind
  apply (does_second fun _ => does_setFooter (by omega)).bind
  rw [listing, finish]
  apply (does_addToList Tag.size_eq fits (by omega) (increasing_dropFree _ increasing)
    (by rw [length_dropFree]; exact few)).bind
  exact .pure _

/-- What `sf_malloc` writes into a header. -/
def Info.setLive (newSize : Int) (size : Nat) (info : Info) : Info :=
  { info with
    blockSize := toField newSize
    requestedSize := BitVec.ofNat 32 size
    allocated := true
    prevAllocated := true }

theorem Info.setLive_tag (info : Info) (size : Nat) (fits : units < 2 ^ 28) :
    LiveTag true units (size % 2 ^ 32) (info.setLive (16 * units) size) :=
  ⟨⟨rfl, rfl, toField_units fits⟩, BitVec.toNat_ofNat _ _⟩

/-- The block is not split: it keeps its size. -/
theorem does_allocate_whole {size : Nat} {newSize : Int} (fits : units < 2 ^ 27)
    (close : (16 * (units : Int) - newSize).bmod (2 ^ 32) < 32)
    (set : ∀ info, is info → is' { info with prevAllocated := true }) :
    Does util (p.at (tagged q (Tag false true units) + (tagged (q + 2 * units) is + rest)))
      (allocate util unlink size newSize q) (q + 1)
      (p.at (tagged q (LiveTag true units (size % 2 ^ 32)) + (tagged (q + 2 * units) is' + rest))) := by
  have live : ∀ info : Info, Tag false true units info →
      (info.setLive newSize size).allocated = true ∧ (info.setLive newSize size).prevAllocated = true ∧
        (info.setLive newSize size).requestedSize.toNat = size % 2 ^ 32 :=
    fun info _ => ⟨rfl, rfl, BitVec.toNat_ofNat _ _⟩
  apply does_loadInfo
  intro info tag
  rw [Info.bytes_eq tag.size fits]
  dsimp only
  rw [if_pos close]
  apply Returns.bind
  · exact @does_modifyInfo util p _ q _ (fun info => info.allocated = true ∧
      info.prevAllocated = true ∧ info.requestedSize.toNat = size % 2 ^ 32) _ live
  apply Returns.bind
  · exact @does_modifyInfo util p _ q _ (LiveTag true units (size % 2 ^ 32)) _
      fun info tag => ⟨⟨tag.1, tag.2.1, toField_units (by omega)⟩, tag.2.2⟩
  · apply (does_getNextHeaderPointer LiveTag.size_eq).bind
    apply (does_second fun _ => does_setPrevAllocated set).bind
    exact .pure _

/-- The block is split, and what is left of it put on a list. -/
theorem does_allocate_split {size : Nat} (fits : needed + more < 2 ^ 27) (large : 2 ≤ more)
    (some : 0 < needed) (allocated : ∀ info, is info → info.allocated = true)
    (increasing : Increasing lists) (few : lists.length ≤ p.nodes) :
    Does util (p.at (tagged q (Tag false true (needed + more)) + (listCells util.head lists +
        (raws Nat (q + 2 * needed) (2 * more) + (tagged (q + 2 * needed + 2 * more) is + rest)))))
      (allocate util unlink size (16 * needed) q) (q + 1)
      ({ p with nodes := nodesWith (16 * more) p.nodes lists }.at
        (tagged q (LiveTag true needed (size % 2 ^ 32)) +
          (listCells util.head (pushFree (util.node p.nodes) (16 * more) (q + 2 * needed) lists) +
            ((Block.free more).cells (q + 2 * needed) true +
              (tagged (q + 2 * needed + 2 * more) is + rest))))) := by
  apply does_loadInfo
  intro info tag
  have split : 16 * ((needed + more : Nat) : Int) - 16 * needed = 16 * more := by omega
  rw [Info.bytes_eq tag.size fits]
  simp only [split]
  rw [bmod_bytes (by omega), if_neg (by omega)]
  apply (does_modifyInfo fun info _ => @Info.setLive_tag needed info size (by omega)).bind
  apply (does_splitBlock_allocated LiveTag.size_eq allocated large (by omega) increasing few).bind
  apply (does_getNextHeaderPointer LiveTag.size_eq).bind
  rw [Block.cells, add_assoc (tagged _ _) (raws _ _ _), add_assoc (tagged _ _)]
  have same : ∀ info, Tag false true more info →
      Tag false true more { info with prevAllocated := true } :=
    fun _ tag => ⟨tag.allocated, rfl, tag.size⟩
  apply (does_third fun _ => does_setPrevAllocated same).bind
  exact .pure _

end Audible.Sfmm
