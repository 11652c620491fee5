import Audible.HeapFree
import Audible.HeapUnlinks

set_option autoImplicit false

/- Pages that are added to the heap. -/
namespace Audible.Sfmm

open Cells Returning

variable {util : Sfutil} {p : Picture} {whole rest links links' : Multiset (Nat × (Nat → Prop))}
variable {q a units needed : Nat} {lists lists' : List FreeList} {unlink : Nat → HeapM Nat}

-- `sf_mem_grow`

theorem Sfutil.Mapped.off_page {pages nodes : Nat} (mapped : util.Mapped pages nodes a)
    (page : pages < util.limit) :
    a < util.start + pages * pageWords ∨ util.start + (pages + 1) * pageWords ≤ a := by
  have heap : (pages + 1) * pageWords ≤ util.limit * pageWords := Nat.mul_le_mul_right _ page
  rw [Nat.succ_mul] at heap ⊢
  rcases mapped with inHeap | inHead | ⟨k, before, inNode⟩
  · omega
  · have apart := util.headApart
    omega
  · have apart := util.nodeApart k
    omega

theorem does_sfMemGrow (page : p.pages < util.limit) :
    Does util (p.at whole) (sfMemGrow util) (some (util.start + p.pages * pageWords))
      ({ p with pages := p.pages + 1 }.at
        (raws Nat (util.start + p.pages * pageWords) pageWords + whole)) := by
  intro m described
  obtain ⟨holds, mapped, room, pages, nodes, enomem⟩ := described
  rw [Picture.at_pages] at pages mapped
  obtain ⟨last, isLast⟩ : ∃ last, last = util.start + p.pages * pageWords := ⟨_, rfl⟩
  have off : ∀ c ∈ whole, c.1 < last ∨ last + pageWords ≤ c.1 := by
    intro c member
    have apart := (mapped c member).off_page page
    rw [Nat.succ_mul] at apart
    omega
  obtain ⟨new, isNew⟩ : ∃ new, new = raws Nat last pageWords := ⟨_, rfl⟩
  have inside : ∀ c ∈ new, last ≤ c.1 ∧ c.1 < last + pageWords := by
    have bounds : ∀ count, ∀ c ∈ raws Nat last count, last ≤ c.1 ∧ c.1 < last + count :=
      fun _ _ => raws_bounds
    rw [isNew]
    exact bounds pageWords
  have written : Holds
      (fun a => if last ≤ a ∧ a < last + pageWords then some (util.contents a) else m.word a) new := by
    rw [isNew]
    apply holds_raws
    intro i before
    refine ⟨util.contents (last + i), ?_⟩
    rw [if_pos (by omega)]
  unfold sfMemGrow memEnd
  rw [pages, if_pos page, ← isLast, ← isNew]
  refine ⟨_, rfl, ?_, ?_, page, rfl, nodes, enomem⟩
  · apply holds.extend written
    · intro c added d old
      have here := inside c added
      have there := off d old
      omega
    · intro c old
      have there := off c old
      rw [if_neg (by omega)]
  · intro c member
    rcases Multiset.mem_add.mp member with added | old
    · have here := inside c added
      refine .inl ⟨by omega, ?_⟩
      rw [Picture.at_pages, Nat.succ_mul]
      omega
    · rcases mapped c old with inHeap | inHead | inNode
      · refine .inl ⟨inHeap.1, ?_⟩
        rw [Picture.at_pages, Nat.succ_mul]
        omega
      · exact .inr (.inl inHead)
      · exact .inr (.inr inNode)

theorem does_sfMemGrow_none (full : p.pages = util.limit) :
    Does util (p.at whole) (sfMemGrow util) none ({ p with enomem := true }.at whole) := by
  intro m described
  obtain ⟨holds, mapped, room, pages, nodes, enomem⟩ := described
  refine ⟨{ m with enomem := true }, ?_, holds, mapped, room, pages, nodes, rfl⟩
  unfold sfMemGrow
  rw [if_neg (by rw [pages]; exact Nat.not_lt_of_le (Nat.le_of_eq full.symm))]

-- `mem_grow`

theorem does_createEpilogue (is : Info → Prop)
    (ends : a + 1 = util.start + p.pages * pageWords) :
    Does util (p.at (tagged a is + rest)) (createEpilogue util) a
      (p.at (tagged a (Tag true false 0) + rest)) := by
  unfold createEpilogue
  apply does_getEnd.bind
  rw [← ends, Nat.add_sub_cancel]
  exact (does_modifyInfo fun info _ => ⟨rfl, rfl, rfl⟩).bind (.pure a)

/-- The free block at the end leaves its list, if there is a list. -/
theorem does_lastFree (large : 2 ≤ units)
    (unlinks : lists ≠ [] → ∀ rest, Does util (p.at (listCells util.head lists + links + rest))
      (unlink q) q (p.at (listCells util.head lists' + links' + rest)))
    (unlisted : lists = [] → lists' = lists ∧ links' = links) :
    Does util (p.at (listCells util.head lists + links + ((Block.free units).cells q true +
        (tagged (q + 2 * units) (Tag true false 0) + rest)))) (lastFree util unlink (q + 2 * units)) q
      (p.at (listCells util.head lists' + links' + ((Block.free units).cells q true +
        (tagged (q + 2 * units) (Tag true false 0) + rest)))) := by
  obtain ⟨footer, isFooter⟩ :
      ∃ footer, footer = tagged (q + 2 * units - 1) (Tag false true units) := ⟨_, rfl⟩
  obtain ⟨others, isOthers⟩ : ∃ others, others = tagged q (Tag false true units) +
      raws Nat (q + 3) (2 * units - 4) + rest := ⟨_, rfl⟩
  have place : ∀ cells, cells + ((Block.free units).cells q true +
        (tagged (q + 2 * units) (Tag true false 0) + rest)) =
      tagged (q + 2 * units) (Tag true false 0) + (footer + (cells + others)) := by
    intro cells
    rw [Block.cells, isFooter, isOthers]
    abel
  rw [place, place]
  apply does_loadInfo
  intro info tag
  rw [tag.prevAllocated, isFooter]
  apply (does_second fun _ => does_getHeaderPointer Tag.size_eq (by omega)).bind
  cases lists with
  | nil =>
      obtain ⟨rfl, rfl⟩ := unlisted rfl
      have first : (util.head + 4, fun w => w = util.head) ∈ listCells util.head [] := first_mem
      apply Returns.bind (a := util.head)
      · apply does_load_mem
        simp only [Multiset.mem_add]
        exact .inr (.inr (.inl (.inl first)))
      · rw [if_neg (by simp)]
        exact .pure q
  | cons list lists =>
      have first : (util.head + 4, fun w => w = list.node) ∈ listCells util.head (list :: lists) :=
        first_mem
      apply Returns.bind (a := list.node)
      · apply does_load_mem
        simp only [Multiset.mem_add]
        exact .inr (.inr (.inl (.inl first)))
      · have other : ∀ m, Describes util (p.at (tagged (q + 2 * units) (Tag true false 0) +
            (tagged (q + 2 * units - 1) (Tag false true units) +
              (listCells util.head (list :: lists) + links + others)))) m →
            list.node ≠ util.head := by
          intro m described
          have same : tagged (q + 2 * units) (Tag true false 0) +
                (tagged (q + 2 * units - 1) (Tag false true units) +
                  (listCells util.head (list :: lists) + links + others)) =
              listCells util.head (list :: lists) + (links + others +
                (tagged (q + 2 * units) (Tag true false 0) +
                  tagged (q + 2 * units - 1) (Tag false true units))) := by
            abel
          rw [same] at described
          exact node_ne_head described (List.mem_cons_self ..)
        apply does_knowing other
        intro different
        rw [if_pos different]
        exact does_third (unlinks (by simp))

/-- The words of a block that has grown by a page. -/
theorem raws_page (q : Nat) (large : 2 ≤ units) :
    raws Nat (q + 3) (2 * (units + 256) - 4) = raws Nat (q + 3) (2 * units - 4) +
      raw Nat (q + 2 * units - 1) + raw Nat (q + 2 * units) + raws Nat (q + 2 * units + 1) 510 := by
  have count : 2 * (units + 256) - 4 = 2 * units - 4 + (1 + (1 + 510)) := by omega
  have footer : q + 3 + (2 * units - 4) = q + 2 * units - 1 := by omega
  have epilogue : q + 2 * units - 1 + 1 = q + 2 * units := by omega
  rw [count, raws_add, raws_add, raws_add, raws_one, raws_one, footer, epilogue]
  abel

/-- A page: its last words are a footer and the epilogue. -/
theorem raws_ends (a : Nat) :
    raws Nat a pageWords = raws Nat a 510 + raw Nat (a + 510) + raw Nat (a + 511) := by
  have count : pageWords = 510 + (1 + 1) := rfl
  have last : a + 510 + 1 = a + 511 := rfl
  rw [count, raws_add, raws_add, raws_one, raws_one, last, add_assoc]

theorem next_end {start pages : Nat} (ends : q + 2 * units + 1 = start + pages * pageWords) :
    q + 2 * (units + 256) + 1 = start + (pages + 1) * pageWords := by
  have words : (pages + 1) * pageWords = pages * pageWords + 512 := Nat.succ_mul _ _
  omega

theorem does_memGrowWith_free (large : 2 ≤ units) (fits : units + 256 < 2 ^ 27)
    (page : p.pages < util.limit) (ends : q + 2 * units + 1 = util.start + p.pages * pageWords)
    (unlinks : lists ≠ [] → ∀ rest, Does util
      ({ p with pages := p.pages + 1 }.at (listCells util.head lists + links + rest))
      (unlink q) q
      ({ p with pages := p.pages + 1 }.at (listCells util.head lists' + links' + rest)))
    (unlisted : lists = [] → lists' = lists ∧ links' = links) :
    Does util (p.at (listCells util.head lists + links + ((Block.free units).cells q true +
        (tagged (q + 2 * units) (Tag true false 0) + rest)))) (memGrowWith util unlink) (some q)
      ({ p with pages := p.pages + 1 }.at (listCells util.head lists' + links' +
        ((Block.free (units + 256)).cells q true +
          (tagged (q + 2 * (units + 256)) (Tag true false 0) + rest)))) := by
  have footer : q + 2 * units + 1 + 510 = q + 2 * (units + 256) - 1 := by omega
  have epilogue : q + 2 * units + 1 + 511 = q + 2 * (units + 256) := by omega
  have start : ∀ new, new + (listCells util.head lists + links +
        ((Block.free units).cells q true + (tagged (q + 2 * units) (Tag true false 0) + rest))) =
      listCells util.head lists + links + ((Block.free units).cells q true +
        (tagged (q + 2 * units) (Tag true false 0) + (new + rest))) := by
    intro new
    abel
  unfold memGrowWith
  apply does_getEnd.bind
  apply (does_sfMemGrow page).bind
  rw [← ends, Nat.add_sub_cancel]
  obtain ⟨p', isP'⟩ : ∃ p' : Picture, p' = { p with pages := p.pages + 1 } := ⟨_, rfl⟩
  have last : q + 2 * (units + 256) + 1 = util.start + p'.pages * pageWords := by
    rw [isP']
    exact next_end ends
  rw [← isP'] at unlinks ⊢
  obtain ⟨new, isNew⟩ : ∃ new, new = raws Nat (q + 2 * units + 1) pageWords := ⟨_, rfl⟩
  rw [← isNew, start new]
  apply (does_lastFree large unlinks unlisted).bind
  obtain ⟨others, isOthers⟩ : ∃ others, others = listCells util.head lists' + links' +
      raws Nat (q + 3) (2 * units - 4) + raws Nat (q + 2 * units + 1) 510 + rest := ⟨_, rfl⟩
  have middle : listCells util.head lists' + links' + ((Block.free units).cells q true +
        (tagged (q + 2 * units) (Tag true false 0) + (new + rest))) =
      tagged (q + 2 * (units + 256)) (fun _ => True) + (tagged q (Tag false true units) +
        (tagged (q + 2 * (units + 256) - 1) (fun _ => True) +
          (tagged (q + 2 * units - 1) (Tag false true units) +
            tagged (q + 2 * units) (Tag true false 0) + others))) := by
    rw [Block.cells, isNew, raws_ends, footer, epilogue, isOthers, ← tagged_raw, ← tagged_raw]
    abel
  rw [middle]
  apply (does_createEpilogue _ last).bind
  have sum : tagged (q + 2 * (units + 256)) (Tag true false 0) + (tagged q (Tag false true units) +
        (tagged (q + 2 * (units + 256) - 1) (fun _ => True) +
          (tagged (q + 2 * units - 1) (Tag false true units) +
            tagged (q + 2 * units) (Tag true false 0) + others))) =
      tagged q (Tag false true units) + (tagged (q + 2 * (units + 256) - 1) (fun _ => True) +
        (tagged (q + 2 * units - 1) (Tag false true units) +
          tagged (q + 2 * units) (Tag true false 0) +
            (tagged (q + 2 * (units + 256)) (Tag true false 0) + others))) := by
    abel
  have finish : listCells util.head lists' + links' + ((Block.free (units + 256)).cells q true +
        (tagged (q + 2 * (units + 256)) (Tag true false 0) + rest)) =
      tagged q (Tag false true (units + 256)) +
        (tagged (q + 2 * (units + 256) - 1) (Tag false true (units + 256)) +
          (raw Nat (q + 2 * units - 1) + raw Nat (q + 2 * units) +
            (tagged (q + 2 * (units + 256)) (Tag true false 0) + others))) := by
    rw [Block.cells, raws_page q large, isOthers]
    abel
  rw [sum, finish]
  apply Returns.bind (does_coalesce Tag.size_eq fits)
  apply (Returns.pure (some q)).weaken
  intro m
  apply Describes.weakens
  exact (Weakens.refl _).add ((Weakens.refl _).add ((weakens_raw.add weakens_raw).add (.refl _)))

theorem does_memGrow_free (large : 2 ≤ units) (fits : units + 256 < 2 ^ 27)
    (page : p.pages < util.limit) (ends : q + 2 * units + 1 = util.start + p.pages * pageWords)
    (unlinks : lists ≠ [] → ∀ rest, Does util
      ({ p with pages := p.pages + 1 }.at (listCells util.head lists + links + rest))
      (removeHeader q) q
      ({ p with pages := p.pages + 1 }.at (listCells util.head lists' + links' + rest)))
    (unlisted : lists = [] → lists' = lists ∧ links' = links) :
    Does util (p.at (listCells util.head lists + links + ((Block.free units).cells q true +
        (tagged (q + 2 * units) (Tag true false 0) + rest)))) (memGrow util) (some q)
      ({ p with pages := p.pages + 1 }.at (listCells util.head lists' + links' +
        ((Block.free (units + 256)).cells q true +
          (tagged (q + 2 * (units + 256)) (Tag true false 0) + rest)))) :=
  does_memGrowWith_free large fits page ends unlinks unlisted

/-- The last block is allocated: the new page is a free block that starts at the epilogue. -/
theorem does_memGrowWith_epilogue (page : p.pages < util.limit)
    (ends : a + 1 = util.start + p.pages * pageWords) :
    Does util (p.at (tagged a (Tag true true 0) + rest)) (memGrowWith util unlink) (some a)
      ({ p with pages := p.pages + 1 }.at ((Block.free 256).cells a true +
        (raw Nat (a + 1) + raw Nat (a + 2)) + (tagged (a + 2 * 256) (Tag true false 0) + rest))) := by
  have last : a + 2 * 256 + 1 = util.start + (p.pages + 1) * pageWords := by
    have next := @next_end a 0 util.start p.pages ends
    rw [Nat.zero_add] at next
    exact next
  obtain ⟨e, isE⟩ : ∃ e, e = a + 2 * 256 := ⟨_, rfl⟩
  rw [← isE] at last ⊢
  have start : ∀ new, new + (tagged a (Tag true true 0) + rest) =
      tagged a (Tag true true 0) + (new + rest) := by
    intro new
    abel
  have fits : 0 + 256 < 2 ^ 27 := by omega
  have footer : a + 1 + 510 = a + 2 * (0 + 256) - 1 := by omega
  have epilogue : a + 1 + 511 = e := by omega
  have words : raws Nat (a + 1) 510 =
      raw Nat (a + 1) + raw Nat (a + 2) + raws Nat (a + 3) (2 * 256 - 4) := by
    have count : 510 = 1 + (1 + (2 * 256 - 4)) := rfl
    have second : a + 1 + 1 = a + 2 := rfl
    have third : a + 2 + 1 = a + 3 := rfl
    rw [count, raws_add, raws_add, raws_one, raws_one, second, third, ← add_assoc]
  have middle : tagged a (Tag true true 0) + (raws Nat (a + 1) pageWords + rest) =
      tagged e (fun _ => True) + (tagged a (Tag true true 0) +
        (tagged (a + 2 * (0 + 256) - 1) (fun _ => True) +
          (raw Nat (a + 1) + raw Nat (a + 2) + raws Nat (a + 3) (2 * 256 - 4) + rest))) := by
    rw [raws_ends, footer, epilogue, words, ← tagged_raw, ← tagged_raw]
    abel
  have sum : tagged e (Tag true false 0) + (tagged a (Tag true true 0) +
        (tagged (a + 2 * (0 + 256) - 1) (fun _ => True) +
          (raw Nat (a + 1) + raw Nat (a + 2) + raws Nat (a + 3) (2 * 256 - 4) + rest))) =
      tagged a (Tag true true 0) + (tagged (a + 2 * (0 + 256) - 1) (fun _ => True) +
        (tagged e (Tag true false 0) +
          (raw Nat (a + 1) + raw Nat (a + 2) + raws Nat (a + 3) (2 * 256 - 4) + rest))) := by
    abel
  have finish : (Block.free 256).cells a true + (raw Nat (a + 1) + raw Nat (a + 2)) +
        (tagged e (Tag true false 0) + rest) =
      tagged a (Tag false true (0 + 256)) + (tagged (a + 2 * (0 + 256) - 1) (Tag false true (0 + 256)) +
        (tagged e (Tag true false 0) +
          (raw Nat (a + 1) + raw Nat (a + 2) + raws Nat (a + 3) (2 * 256 - 4) + rest))) := by
    rw [Block.cells, Nat.zero_add]
    abel
  unfold memGrowWith
  apply does_getEnd.bind
  apply (does_sfMemGrow page).bind
  rw [← ends, Nat.add_sub_cancel, start]
  apply Returns.bind (a := a)
  · apply does_loadInfo
    intro info tag
    rw [tag.prevAllocated]
    exact .pure a
  · rw [middle]
    apply (@does_createEpilogue util { p with pages := p.pages + 1 } _ e _ last).bind
    rw [sum, finish]
    apply Returns.bind (does_coalesce Tag.size_eq fits)
    exact .pure (some a)

/-- No page is left: the free block at the end is put on the list of its size. -/
theorem does_memGrow_none (large : 2 ≤ units) (fits : units < 2 ^ 27)
    (full : p.pages = util.limit) (ends : q + 2 * units + 1 = util.start + p.pages * pageWords)
    (weakens : Weakens links (raw Nat (q + 1) + raw Nat (q + 2)))
    (increasing : Increasing lists) (few : lists.length ≤ p.nodes) :
    Does util (p.at (listCells util.head lists + links + ((Block.free units).cells q true + rest)))
      (memGrow util) none
      ({ p with nodes := nodesWith (16 * units) p.nodes lists, enomem := true }.at
        (listCells util.head (pushFree (util.node p.nodes) (16 * units) q lists) +
          ((Block.free units).cells q true + rest))) := by
  have footer : q + 2 * units - 1 + 1 = q + 2 * units := by omega
  obtain ⟨others, isOthers⟩ : ∃ others, others = raws Nat (q + 3) (2 * units - 4) + rest := ⟨_, rfl⟩
  have start : listCells util.head lists + (raw Nat (q + 1) + raw Nat (q + 2)) +
        ((Block.free units).cells q true + rest) =
      tagged (q + 2 * units - 1) (Tag false true units) + (tagged q (Tag false true units) +
        (listCells util.head lists + (raw Nat (q + 1) + raw Nat (q + 2) + others))) := by
    rw [Block.cells, isOthers]
    abel
  have middle : tagged (q + 2 * units - 1) (Tag false true units) + (tagged q (Tag false true units) +
        (listCells util.head lists + (raw Nat (q + 1) + raw Nat (q + 2) + others))) =
      tagged q (Tag false true units) + (listCells util.head lists +
        (raw Nat (q + 1) + raw Nat (q + 2) +
          (tagged (q + 2 * units - 1) (Tag false true units) + others))) := by
    abel
  have finish : ∀ lists', listCells util.head lists' + ((Block.free units).cells q true + rest) =
      tagged q (Tag false true units) + (listCells util.head lists' +
        (tagged (q + 2 * units - 1) (Tag false true units) + others)) := by
    intro lists'
    rw [Block.cells, isOthers]
    abel
  apply does_weakened (((Weakens.refl _).add weakens).add (.refl _))
  unfold memGrow
  apply does_getEnd.bind
  apply (does_sfMemGrow_none full).bind
  rw [← ends, Nat.add_sub_cancel, start]
  apply (does_getHeaderPointer Tag.size_eq (by omega)).bind
  rw [middle, finish]
  apply (@does_addToList util { p with enomem := true } _ q lists _ units Tag.size_eq fits (by omega)
    increasing few).bind
  exact .pure none

-- The loop of `sf_malloc` that grows the heap.

/-- Taking the block off its list once more changes nothing: there is no list, or the links it
had left are still there. -/
def Relinks (head q : Nat) (lists : List FreeList) (links : Multiset (Nat × (Nat → Prop))) : Prop :=
  lists = [] ∨ ∃ last next others, listCells head lists = edge 1 2 last next + others ∧
    links = value (q + 1) next + value (q + 2) last

theorem Relinks.unlinks (relinks : Relinks util.head q lists links) (listed : lists ≠ []) :
    Does util (p.at (listCells util.head lists + links + rest)) (removeHeader q) q
      (p.at (listCells util.head lists + links + rest)) := by
  rcases relinks with rfl | ⟨last, next, others, split, rfl⟩
  · exact absurd rfl listed
  · have place : listCells util.head lists + (value (q + 1) next + value (q + 2) last) + rest =
        value (q + 1) next + (value (q + 2) last + (value (last + 1) next +
          (value (next + 2) last + (others + rest)))) := by
      rw [split, edge]
      abel
    rw [place]
    apply (does_second fun _ => does_load).bind
    apply does_load.bind
    apply (does_third fun _ => does_store_value).bind
    apply does_load.bind
    apply (does_second fun _ => does_load).bind
    apply (does_fourth fun _ => does_store_value).bind
    exact .pure q

theorem does_growTo_stop {rounds : Nat} (fits : units < 2 ^ 27) (enough : needed ≤ units)
    {is : Info → Prop} (sized : ∀ info, is info → info.blockSize.toNat = units) :
    Does util (p.at (tagged q is + rest)) (growTo util removeHeader (16 * needed) (rounds + 1) q) (some q)
      (p.at (tagged q is + rest)) := by
  apply does_loadInfo
  intro info tag
  rw [Info.bytes_eq (sized info tag) fits, if_neg (by omega)]
  exact .pure _

theorem does_growTo_more {rounds : Nat} {is : Info → Prop} {after : Picture} {result : Option Nat}
    (fits : units < 2 ^ 27) (less : units < needed)
    (sized : ∀ info, is info → info.blockSize.toNat = units)
    (grows : Does util (p.at (tagged q is + rest)) (do
      match ← memGrow util with
      | none =>
          modify fun m => { m with enomem := true }
          return none
      | some header => growTo util removeHeader (16 * needed) rounds header) result after) :
    Does util (p.at (tagged q is + rest)) (growTo util removeHeader (16 * needed) (rounds + 1) q)
      result after := by
  apply does_loadInfo
  intro info tag
  rw [Info.bytes_eq (sized info tag) fits, if_pos (by omega)]
  exact grows

/-- The cells of a heap whose last block is free and on no list. -/
theorem place_header (first : Multiset (Nat × (Nat → Prop))) :
    first + ((Block.free units).cells q true + rest) =
      tagged q (Tag false true units) + (first + (raws Nat (q + 3) (2 * units - 4) +
        tagged (q + 2 * units - 1) (Tag false true units) + rest)) := by
  rw [Block.cells]
  abel

/-- A round that grows the heap adds a page to the block. -/
theorem does_growTo_page {rounds : Nat} {final : Picture} {result : Option Nat} (large : 2 ≤ units)
    (fits : units + 256 < 2 ^ 27) (less : units < needed) (page : p.pages < util.limit)
    (ends : q + 2 * units + 1 = util.start + p.pages * pageWords)
    (again : Relinks util.head q lists links)
    (goesOn : Does util ({ p with pages := p.pages + 1 }.at (listCells util.head lists + links +
        ((Block.free (units + 256)).cells q true +
          (tagged (q + 2 * (units + 256)) (Tag true false 0) + rest))))
      (growTo util removeHeader (16 * needed) rounds q) result final) :
    Does util (p.at (listCells util.head lists + links + ((Block.free units).cells q true +
        (tagged (q + 2 * units) (Tag true false 0) + rest))))
      (growTo util removeHeader (16 * needed) (rounds + 1) q) result final := by
  have small : units < 2 ^ 27 := by omega
  rw [place_header]
  apply does_growTo_more small less Tag.size_eq
  rw [← place_header]
  exact (does_memGrow_free large fits page ends (fun listed rest => again.unlinks listed)
    (fun _ => ⟨rfl, rfl⟩)).bind goesOn

/-- Each round that grows the heap adds a page to the block, until it is large enough. -/
theorem does_growTo_enough {k rounds : Nat} (large : 2 ≤ units) (fits : units + 256 * k < 2 ^ 27)
    (enough : needed ≤ units + 256 * k) (fewer : ∀ j < k, units + 256 * j < needed)
    (room : p.pages + k ≤ util.limit) (lasts : k < rounds)
    (ends : q + 2 * units + 1 = util.start + p.pages * pageWords)
    (relinks : 0 < k → Relinks util.head q lists links) :
    Does util (p.at (listCells util.head lists + links + ((Block.free units).cells q true +
        (tagged (q + 2 * units) (Tag true false 0) + rest))))
      (growTo util removeHeader (16 * needed) rounds q) (some q)
      ({ p with pages := p.pages + k }.at (listCells util.head lists + links +
        ((Block.free (units + 256 * k)).cells q true +
          (tagged (q + 2 * (units + 256 * k)) (Tag true false 0) + rest)))) := by
  induction k generalizing p units rounds with
  | zero =>
      obtain ⟨rounds, rfl⟩ := Nat.exists_eq_add_one_of_ne_zero (Nat.ne_zero_of_lt lasts)
      simp only [Nat.mul_zero, Nat.add_zero] at enough fits ⊢
      rw [place_header]
      exact does_growTo_stop fits enough Tag.size_eq
  | succ k ih =>
      obtain ⟨rounds, rfl⟩ := Nat.exists_eq_add_one_of_ne_zero (Nat.ne_zero_of_lt lasts)
      have sum : units + 256 * (k + 1) = units + 256 + 256 * k := by omega
      have pages : p.pages + (k + 1) = p.pages + 1 + k := by omega
      have less : units < needed := fewer 0 (Nat.succ_pos k)
      have grown : units + 256 < 2 ^ 27 := Nat.lt_of_le_of_lt
        (Nat.add_le_add_left (Nat.le_mul_of_pos_right 256 (Nat.succ_pos k)) units) fits
      have larger : 2 ≤ units + 256 := by omega
      have page : p.pages < util.limit := by omega
      have again := relinks (Nat.succ_pos k)
      rw [sum] at fits enough ⊢
      rw [pages] at room ⊢
      have fewer' : ∀ j < k, units + 256 + 256 * j < needed := by
        intro j before
        have := fewer (j + 1) (Nat.succ_lt_succ before)
        omega
      apply does_growTo_page large grown less page ends again
      exact ih larger fits enough fewer' room (Nat.lt_of_succ_lt_succ lasts) (next_end ends)
        (fun _ => again)

theorem does_setEnomem : Does util (p.at whole)
    (modify fun m => { m with enomem := true }) () ({ p with enomem := true }.at whole) :=
  fun m described => ⟨{ m with enomem := true }, rfl, described.holds, described.mapped,
    described.room, described.pages, described.nodes, rfl⟩

/-- When no page is left the block, as large as it has become, is put on the list of its size. -/
theorem does_growTo_short {k rounds : Nat} (large : 2 ≤ units) (fits : units + 256 * k < 2 ^ 27)
    (short : units + 256 * k < needed) (full : p.pages + k = util.limit) (lasts : k < rounds)
    (ends : q + 2 * units + 1 = util.start + p.pages * pageWords)
    (relinks : 0 < k → Relinks util.head q lists links)
    (weakens : Weakens links (raw Nat (q + 1) + raw Nat (q + 2)))
    (increasing : Increasing lists) (few : lists.length ≤ p.nodes) :
    Does util (p.at (listCells util.head lists + links + ((Block.free units).cells q true +
        (tagged (q + 2 * units) (Tag true false 0) + rest))))
      (growTo util removeHeader (16 * needed) rounds q) none
      ({ p with
          pages := util.limit
          nodes := nodesWith (16 * (units + 256 * k)) p.nodes lists
          enomem := true }.at
        (listCells util.head (pushFree (util.node p.nodes) (16 * (units + 256 * k)) q lists) +
          ((Block.free (units + 256 * k)).cells q true +
            (tagged (q + 2 * (units + 256 * k)) (Tag true false 0) + rest)))) := by
  induction k generalizing p units rounds with
  | zero =>
      obtain ⟨rounds, rfl⟩ := Nat.exists_eq_add_one_of_ne_zero (Nat.ne_zero_of_lt lasts)
      simp only [Nat.mul_zero, Nat.add_zero] at short fits full ⊢
      rw [place_header]
      apply does_growTo_more fits short Tag.size_eq
      rw [← place_header, ← full]
      apply (does_memGrow_none large fits full ends weakens increasing few).bind
      exact does_setEnomem.bind (.pure none)
  | succ k ih =>
      obtain ⟨rounds, rfl⟩ := Nat.exists_eq_add_one_of_ne_zero (Nat.ne_zero_of_lt lasts)
      have sum : units + 256 * (k + 1) = units + 256 + 256 * k := by omega
      have pages : p.pages + (k + 1) = p.pages + 1 + k := by omega
      have less : units < needed := by omega
      have grown : units + 256 < 2 ^ 27 := Nat.lt_of_le_of_lt
        (Nat.add_le_add_left (Nat.le_mul_of_pos_right 256 (Nat.succ_pos k)) units) fits
      have larger : 2 ≤ units + 256 := by omega
      have page : p.pages < util.limit := by omega
      have again := relinks (Nat.succ_pos k)
      rw [sum] at fits short ⊢
      rw [pages] at full
      apply does_growTo_page large grown less page ends again
      exact ih larger fits short full (Nat.lt_of_succ_lt_succ lasts) (next_end ends) (fun _ => again)
        few

end Audible.Sfmm
