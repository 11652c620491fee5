import Audible.HeapBlocks

set_option autoImplicit false

/- `sf_free`: a block is merged with the free blocks at its sides. -/
namespace Audible.Sfmm

open Cells Returning

variable {util : Sfutil} {p : Picture} {whole rest : Multiset (Nat × (Nat → Prop))}
variable {q h n units more head requested : Nat} {is is' is₂ : Info → Prop} {lists : List FreeList}
variable {prevAllocated : Bool}

theorem LiveTag.size_eq (info : Info) (tag : LiveTag prevAllocated units requested info) :
    info.blockSize.toNat = units := tag.size

theorem Tag.size_eq {allocated : Bool} (info : Info) (tag : Tag allocated prevAllocated units info) :
    info.blockSize.toNat = units := tag.size

/-- `coalesce` with a block of `more` units that follows, of which no word is needed any more. -/
theorem does_coalesce_whole (sized : ∀ info, is info → info.blockSize.toNat = units)
    (fits : units + more < 2 ^ 27) (large : 2 ≤ units + more) :
    Does util (p.at (wholeCells q (units + more) is + rest)) (coalesce q (16 * more)) q
      (p.at (tagged q (Tag false true (units + more)) +
        (tagged (q + 2 * (units + more) - 1) (Tag false true (units + more)) +
          (raw Nat (q + 1) + raw Nat (q + 2) + raws Nat (q + 3) (2 * (units + more) - 4) + rest)))) := by
  have start : wholeCells q (units + more) is + rest =
      tagged q is + (tagged (q + 2 * (units + more) - 1) (fun _ => True) +
        (raw Nat (q + 1) + raw Nat (q + 2) + raws Nat (q + 3) (2 * (units + more) - 4) + rest)) := by
    rw [wholeCells, raws_block q large, ← tagged_raw]
    abel
  rw [start]
  exact does_coalesce sized fits

theorem wholeCells_last (a : Nat) (large : 0 < units) (is : Info → Prop) :
    wholeCells a units is =
      tagged a is + (raw Nat (a + 2 * units - 1) + raws Nat (a + 1) (2 * units - 2)) := by
  have count : 2 * units - 1 = 2 * units - 2 + 1 := by omega
  have last : a + 1 + (2 * units - 2) = a + 2 * units - 1 := by omega
  rw [wholeCells, count, raws_add, raws_one, last]
  abel

theorem does_mergePrevious_allocated :
    Does util (p.at (tagged h (LiveTag true units requested) + rest)) (mergePrevious h) h
      (p.at (tagged h (LiveTag true units requested) + rest)) := by
  apply does_loadInfo
  intro info tag
  rw [tag.prevAllocated]
  exact .pure h

/-- The block before is free: it leaves its list and takes the words of the block that is freed,
whose header stays as it is, as does the footer before that. -/
theorem does_mergePrevious_stale (listed : (q, 16 * more) ∈ entries lists) (large : 2 ≤ more)
    (some : 0 < units) (fits : more + units < 2 ^ 27) :
    Does util (p.at (listCells head lists + ((Block.free more).cells q true +
        (wholeCells (q + 2 * more) units (LiveTag false units requested) + rest))))
      (mergePrevious (q + 2 * more)) q
      (p.at (listCells head (dropFree q lists) + (tagged q (Tag false true (more + units)) +
        (raw Nat (q + 1) + raw Nat (q + 2) + (raws Nat (q + 3) (2 * more - 4) +
          (tagged (q + 2 * more - 1) (Tag false true more) +
            (wholeCells (q + 2 * more) units (LiveTag false units requested) + rest))))))) := by
  obtain ⟨last, next, -, -, unlinks⟩ := @does_dropFree util p q head lists _ listed
  have place : q + 2 * more + 2 * units - 1 = q + 2 * (more + units) - 1 := by omega
  obtain ⟨own, isOwn⟩ : ∃ own, own = tagged (q + 2 * more) (LiveTag false units requested) :=
    ⟨_, rfl⟩
  obtain ⟨footer, isFooter⟩ :
      ∃ footer, footer = tagged (q + 2 * more - 1) (Tag false true more) := ⟨_, rfl⟩
  obtain ⟨others, isOthers⟩ : ∃ others, others = tagged q (Tag false true more) +
      (raw Nat (q + 2 * (more + units) - 1) + (raws Nat (q + 3) (2 * more - 4) +
        (raws Nat (q + 2 * more + 1) (2 * units - 2) + rest))) := ⟨_, rfl⟩
  have start : listCells head lists + ((Block.free more).cells q true +
        (wholeCells (q + 2 * more) units (LiveTag false units requested) + rest)) =
      own + (footer + (listCells head lists + others)) := by
    rw [wholeCells_last _ some, place, Block.cells, isOwn, isFooter, isOthers]
    abel
  rw [start, isOwn]
  apply does_loadInfo
  intro info tag
  rw [tag.prevAllocated, Info.bytes_eq tag.size (by omega), isFooter]
  apply (does_second fun _ => does_getHeaderPointer Tag.size_eq (by omega)).bind
  apply (does_third unlinks).bind
  apply (does_second fun _ => does_getHeaderPointer Tag.size_eq (by omega)).bind
  obtain ⟨kept, isKept⟩ : ∃ kept, kept = listCells head (dropFree q lists) +
      (raws Nat (q + 3) (2 * more - 4) + own + raws Nat (q + 2 * more + 1) (2 * units - 2) + rest) :=
    ⟨_, rfl⟩
  have rearranged : tagged (q + 2 * more) (LiveTag false units requested) +
        (tagged (q + 2 * more - 1) (Tag false true more) +
          (listCells head (dropFree q lists) + (value (q + 1) next + value (q + 2) last) + others)) =
      tagged q (Tag false true more) + (tagged (q + 2 * (more + units) - 1) (fun _ => True) +
        (tagged (q + 2 * more - 1) (Tag false true more) +
          (value (q + 1) next + value (q + 2) last) + kept)) := by
    rw [isOthers, isKept, isOwn, tagged_raw]
    abel
  have finish : listCells head (dropFree q lists) + (tagged q (Tag false true (more + units)) +
        (raw Nat (q + 1) + raw Nat (q + 2) + (raws Nat (q + 3) (2 * more - 4) +
          (tagged (q + 2 * more - 1) (Tag false true more) +
            (wholeCells (q + 2 * more) units (LiveTag false units requested) + rest))))) =
      tagged q (Tag false true (more + units)) + (raw Nat (q + 2 * (more + units) - 1) +
        (tagged (q + 2 * more - 1) (Tag false true more) + (raw Nat (q + 1) + raw Nat (q + 2)) +
          kept)) := by
    rw [wholeCells_last _ some, place, isKept, isOwn]
    abel
  rw [rearranged, finish]
  apply (does_coalesce Tag.size_eq fits).weaken
  intro m
  apply Describes.weakens
  exact (Weakens.refl _).add
    (weakens_raw.add (((Weakens.refl _).add (weakens_raw.add weakens_raw)).add (.refl _)))

/-- The same, when the footer is not needed. -/
theorem does_mergePrevious_free (listed : (q, 16 * more) ∈ entries lists) (large : 2 ≤ more)
    (some : 0 < units) (fits : more + units < 2 ^ 27) :
    Does util (p.at (listCells head lists + ((Block.free more).cells q true +
        (wholeCells (q + 2 * more) units (LiveTag false units requested) + rest))))
      (mergePrevious (q + 2 * more)) q
      (p.at (listCells head (dropFree q lists) + (tagged q (Tag false true (more + units)) +
        (raws Nat (q + 1) (2 * more - 1) +
          (wholeCells (q + 2 * more) units (LiveTag false units requested) + rest))))) := by
  apply (does_mergePrevious_stale listed large some fits).weaken
  intro m
  apply Describes.weakens
  have words : raws Nat (q + 1) (2 * more - 1) +
        (wholeCells (q + 2 * more) units (LiveTag false units requested) + rest) =
      raw Nat (q + 1) + raw Nat (q + 2) + (raws Nat (q + 3) (2 * more - 4) +
        (raw Nat (q + 2 * more - 1) +
          (wholeCells (q + 2 * more) units (LiveTag false units requested) + rest))) := by
    rw [raws_block q large]
    abel
  rw [words]
  exact (Weakens.refl _).add ((Weakens.refl _).add ((Weakens.refl _).add ((Weakens.refl _).add
    (weakens_raw.add (.refl _)))))

theorem does_mergeNext_allocated {heads : Multiset (Nat × (Nat → Prop))}
    (reads : ∀ rest, Does util (p.at (heads + rest)) (getNextHeaderPointer h) n (p.at (heads + rest)))
    (allocated : ∀ info, is info → info.allocated = true) :
    Does util (p.at (heads + (tagged n is + rest))) (mergeNext h q) ()
      (p.at (heads + (tagged n is + rest))) := by
  apply (reads _).bind
  rw [add_left_comm]
  apply does_loadInfo
  intro info tag
  rw [allocated info tag]
  exact .pure ()

/-- The block after is free: it leaves its list, and its words go to the block at `q` that ends
there. The header of the block that is freed may be among other words of that block. -/
theorem does_mergeNext_free {other : Multiset (Nat × (Nat → Prop))}
    (reads : ∀ rest, Does util (p.at (tagged q is + other + rest)) (getNextHeaderPointer h)
      (q + 2 * units) (p.at (tagged q is + other + rest)))
    (sized : ∀ info, is info → info.blockSize.toNat = units)
    (listed : (q + 2 * units, 16 * more) ∈ entries lists) (large : 2 ≤ more)
    (fits : units + more < 2 ^ 27) :
    Does util (p.at (listCells head lists + ((Block.free more).cells (q + 2 * units) true +
        (tagged q is + other + rest)))) (mergeNext h q) ()
      (p.at (listCells head (dropFree (q + 2 * units) lists) + (raws Nat (q + 2 * units) (2 * more) +
        (tagged q (Tag false true (units + more)) + other + rest)))) := by
  obtain ⟨last, next, -, -, unlinks⟩ := @does_dropFree util p (q + 2 * units) head lists _ listed
  have place : q + 2 * units + 2 * more - 1 = q + 2 * (units + more) - 1 := by omega
  obtain ⟨n, isN⟩ : ∃ n, n = q + 2 * units := ⟨_, rfl⟩
  rw [← isN] at unlinks reads place ⊢
  obtain ⟨footer, isFooter⟩ : ∃ footer, footer =
      tagged (q + 2 * (units + more) - 1) (Tag false true more) + raws Nat (n + 3) (2 * more - 4) :=
    ⟨_, rfl⟩
  have start : listCells head lists + ((Block.free more).cells n true +
        (tagged q is + other + rest)) =
      tagged q is + other + (tagged n (Tag false true more) + (listCells head lists +
        (footer + rest))) := by
    rw [Block.cells, place, isFooter]
    abel
  rw [start]
  apply (reads _).bind
  rw [add_left_comm (tagged q is + other)]
  apply does_loadInfo
  intro info tag
  rw [tag.allocated]
  apply (does_third unlinks).bind
  apply does_loadInfo
  intro again tag
  rw [Info.bytes_eq tag.size (by omega)]
  have rearranged : tagged n (Tag false true more) + (tagged q is + other +
        (listCells head (dropFree n lists) + (value (n + 1) next + value (n + 2) last) +
          (footer + rest))) =
      tagged q is + (tagged (q + 2 * (units + more) - 1) (Tag false true more) +
        (tagged n (Tag false true more) + (other + (listCells head (dropFree n lists) +
          (value (n + 1) next + value (n + 2) last + (raws Nat (n + 3) (2 * more - 4) +
            rest)))))) := by
    rw [isFooter]
    abel
  rw [rearranged]
  apply (does_coalesce sized fits).bind
  apply (Returns.pure _).weaken
  intro m
  apply Describes.weakens
  have finish : listCells head (dropFree n lists) + (raws Nat n (2 * more) +
        (tagged q (Tag false true (units + more)) + other + rest)) =
      tagged q (Tag false true (units + more)) + (raw Nat (q + 2 * (units + more) - 1) +
        (raw Nat n + (other + (listCells head (dropFree n lists) +
          (raw Nat (n + 1) + raw Nat (n + 2) + (raws Nat (n + 3) (2 * more - 4) + rest)))))) := by
    rw [raws_first n (by omega), raws_block n large, place]
    abel
  rw [finish]
  exact (Weakens.refl _).add (weakens_raw.add (weakens_raw.add ((Weakens.refl _).add
    ((Weakens.refl _).add ((weakens_raw.add weakens_raw).add (.refl _))))))

theorem does_getEnd : Does util (p.at whole) (getEnd util) (util.start + p.pages * pageWords)
    (p.at whole) := by
  intro m described
  refine ⟨m, ?_, described⟩
  rw [getEnd, memEnd, described.pages]
  rfl

/-- The header of a live block passes the tests, as does the footer before it. -/
theorem does_sfAbort (known : prevAllocated = true ∨ ∃ more others,
      rest = tagged (h - 1) (Tag false true more) + others)
    (above : util.start + 5 ≤ h) (below : h + 2 < util.start + p.pages * pageWords)
    (large : 2 ≤ units) (fits : units < 2 ^ 27) (room : requested + 8 ≤ 16 * units) :
    Does util (p.at (tagged h (LiveTag prevAllocated units requested) + rest)) (sfAbort util (h + 1))
      () (p.at (tagged h (LiveTag prevAllocated units requested) + rest)) := by
  unfold sfAbort
  apply does_getEnd.bind
  rw [if_neg (by omega)]
  apply does_loadInfo
  intro info tag
  have passes : ¬ ((!true) = true ∨ (16 * (units : Int)) < 32 ∨ (16 * (units : Int)) % 16 ≠ 0 ∨
      16 * units < requested + 8) := by
    simp only [Bool.not_true, Bool.false_eq_true, false_or]
    omega
  rw [tag.allocated, tag.prevAllocated, tag.requested, Info.bytes_eq tag.size fits,
    toSize_units fits, if_neg passes]
  cases prevAllocated with
  | true => exact .pure ()
  | false =>
      obtain same | ⟨more, others, rfl⟩ := known
      · cases same
      · rw [add_left_comm]
        apply does_loadInfo
        intro previous tag
        rw [tag.allocated]
        exact .pure ()

/-- A header that is not that of a live block of its size ends the program. -/
theorem sfAbort_refuses {m : Memory} (described : Describes util (p.at (tagged h is + rest)) m)
    (bad : ∀ info, is info → info.allocated = false ∨
      toSize info.bytes < info.requestedSize.toNat + 8) :
    sfAbort util (h + 1) m = .error .aborted := by
  obtain ⟨last, ends⟩ : ∃ last, getEnd util m = .ok (last, m) := ⟨_, rfl⟩
  obtain ⟨info, reads, known⟩ := reads_info described
  unfold sfAbort
  rw [run_bind ends]
  split
  · rfl
  · rw [Nat.add_sub_cancel, run_bind reads]
    rw [if_pos]
    · rfl
    · rcases bad info known with free | large
      · exact .inl (by rw [free]; rfl)
      · exact .inr (.inr (.inr large))

/-- What `sf_free` does with the merged block. Of the words inside only the links are written. -/
theorem does_finishFree_links (sized : ∀ info, is info → info.blockSize.toNat = units)
    (set : ∀ info, is' info → is₂ { info with prevAllocated := false })
    (large : 2 ≤ units) (fits : units < 2 ^ 27) (increasing : Increasing lists)
    (few : lists.length ≤ p.nodes) :
    Does util (p.at (tagged q is + (raw Nat (q + 2 * units - 1) + (listCells util.head lists +
        (raw Nat (q + 1) + raw Nat (q + 2) + (tagged (q + 2 * units) is' + rest))))))
      (do
        let _ ← coalesce q 0
        let _ ← addToList util q
        setPrevAllocated (← getNextHeaderPointer q) false) ()
      ({ p with nodes := nodesWith (16 * units) p.nodes lists }.at
        (tagged q (Tag false true units) +
          (listCells util.head (pushFree (util.node p.nodes) (16 * units) q lists) +
            (tagged (q + 2 * units - 1) (Tag false true units) +
              (tagged (q + 2 * units) is₂ + rest))))) := by
  rw [@tagged_raw (q + 2 * units - 1)]
  apply (@does_coalesce util p _ is _ units 0 q sized fits).bind
  have listing : tagged q (Tag false true (units + 0)) +
        (tagged (q + 2 * (units + 0) - 1) (Tag false true (units + 0)) + (listCells util.head lists +
          (raw Nat (q + 1) + raw Nat (q + 2) + (tagged (q + 2 * units) is' + rest)))) =
      tagged q (Tag false true units) + (listCells util.head lists +
        (raw Nat (q + 1) + raw Nat (q + 2) + (tagged (q + 2 * units - 1) (Tag false true units) +
          (tagged (q + 2 * units) is' + rest)))) := by
    rw [Nat.add_zero]
    abel
  rw [listing]
  apply (does_addToList Tag.size_eq fits (by omega) increasing few).bind
  apply (does_getNextHeaderPointer Tag.size_eq).bind
  exact does_fourth fun _ => does_setPrevAllocated set

/-- The same for a whole block. -/
theorem does_finishFree (sized : ∀ info, is info → info.blockSize.toNat = units)
    (set : ∀ info, is' info → is₂ { info with prevAllocated := false })
    (large : 2 ≤ units) (fits : units < 2 ^ 27) (increasing : Increasing lists)
    (few : lists.length ≤ p.nodes) :
    Does util (p.at (listCells util.head lists + (wholeCells q units is +
        (tagged (q + 2 * units) is' + rest))))
      (do
        let _ ← coalesce q 0
        let _ ← addToList util q
        setPrevAllocated (← getNextHeaderPointer q) false) ()
      ({ p with nodes := nodesWith (16 * units) p.nodes lists }.at
        (listCells util.head (pushFree (util.node p.nodes) (16 * units) q lists) +
          ((Block.free units).cells q true + (tagged (q + 2 * units) is₂ + rest)))) := by
  have start : listCells util.head lists + (wholeCells q units is +
        (tagged (q + 2 * units) is' + rest)) =
      tagged q is + (raw Nat (q + 2 * units - 1) + (listCells util.head lists +
        (raw Nat (q + 1) + raw Nat (q + 2) + (tagged (q + 2 * units) is' +
          (raws Nat (q + 3) (2 * units - 4) + rest))))) := by
    rw [wholeCells, raws_block q large]
    abel
  have finish : listCells util.head (pushFree (util.node p.nodes) (16 * units) q lists) +
        ((Block.free units).cells q true + (tagged (q + 2 * units) is₂ + rest)) =
      tagged q (Tag false true units) +
        (listCells util.head (pushFree (util.node p.nodes) (16 * units) q lists) +
          (tagged (q + 2 * units - 1) (Tag false true units) +
            (tagged (q + 2 * units) is₂ + (raws Nat (q + 3) (2 * units - 4) + rest)))) := by
    rw [Block.cells]
    abel
  rw [start, finish]
  exact does_finishFree_links sized set large fits increasing few

/-- A neighbour that is merged, if there is one, leaves its list. -/
def dropIf (units header : Nat) (lists : List FreeList) : List FreeList :=
  if units = 0 then lists else dropFree header lists

variable {before after : List Block} {payload : List Nat} {a : Nat}

/-- The block before is allocated, or there is none. -/
theorem does_mergePrevious_solid {h : Nat} :
    Does util (p.at (listCells head lists + (spanCells a true before +
        ((Block.live units requested payload).cells h true + rest))))
      (mergePrevious h) h
      (p.at (listCells head lists + (tagged h (LiveTag true units requested) +
        values (h + 1) payload + (spanCells a true before + rest)))) := by
  have start : listCells head lists + (spanCells a true before +
        ((Block.live units requested payload).cells h true + rest)) =
      tagged h (LiveTag true units requested) + (listCells head lists +
        (values (h + 1) payload + (spanCells a true before + rest))) := by
    rw [Block.cells]
    abel
  have finish : listCells head lists + (tagged h (LiveTag true units requested) +
        values (h + 1) payload + (spanCells a true before + rest)) =
      tagged h (LiveTag true units requested) + (listCells head lists +
        (values (h + 1) payload + (spanCells a true before + rest))) := by
    abel
  rw [start, finish]
  exact does_mergePrevious_allocated

/-- The block before is free, the last of `before`. -/
theorem does_mergePrevious_last {front : List Block} {more : Nat}
    (live : (Block.live units requested payload).Fits)
    (spans : spanCells a true before = spanCells a true front + (Block.free more).cells q true)
    (listed : (q, 16 * more) ∈ entries lists) (large : 2 ≤ more) (some : 0 < units)
    (fits : more + units < 2 ^ 27) :
    Does util (p.at (listCells head lists + (spanCells a true before +
        ((Block.live units requested payload).cells (q + 2 * more) false + rest))))
      (mergePrevious (q + 2 * more)) q
      (p.at (listCells head (dropFree q lists) + (tagged q (Tag false true (more + units)) +
        (raws Nat (q + 1) (2 * more - 1) +
          wholeCells (q + 2 * more) units (LiveTag false units requested)) +
        (spanCells a true front + rest)))) := by
  have start : listCells head lists + (spanCells a true before +
        ((Block.live units requested payload).cells (q + 2 * more) false + rest)) =
      (Block.live units requested payload).cells (q + 2 * more) false +
        (listCells head lists + ((Block.free more).cells q true +
          (spanCells a true front + rest))) := by
    rw [spans]
    abel
  have middle : wholeCells (q + 2 * more) units (LiveTag false units requested) +
        (listCells head lists + ((Block.free more).cells q true +
          (spanCells a true front + rest))) =
      listCells head lists + ((Block.free more).cells q true +
        (wholeCells (q + 2 * more) units (LiveTag false units requested) +
          (spanCells a true front + rest))) := by
    abel
  have finish : listCells head (dropFree q lists) +
        (tagged q (Tag false true (more + units)) + (raws Nat (q + 1) (2 * more - 1) +
          wholeCells (q + 2 * more) units (LiveTag false units requested)) +
          (spanCells a true front + rest)) =
      listCells head (dropFree q lists) + (tagged q (Tag false true (more + units)) +
        (raws Nat (q + 1) (2 * more - 1) +
          (wholeCells (q + 2 * more) units (LiveTag false units requested) +
            (spanCells a true front + rest)))) := by
    abel
  rw [start, finish]
  apply does_weakened ((weakens_live live).add (.refl _))
  rw [middle]
  exact does_mergePrevious_free listed large some fits

theorem does_left (fits : ∀ block ∈ before, block.Fits)
    (live : (Block.live units requested payload).Fits)
    (apart : NoneAdjacent (before ++ .live units requested payload :: after))
    (small : unitsOf before + units < 2 ^ 27)
    (listed : ∀ entry ∈ frees a before, entry ∈ entries lists) :
    ∃ is other, (∀ info, is info → info.blockSize.toNat = freeEnd before + units) ∧
      Weakens other (raws Nat (a + 2 * unitsOf (solidPart before) + 1)
        (2 * (freeEnd before + units) - 1)) ∧
      (∀ rest, Does util (p.at (tagged (a + 2 * unitsOf (solidPart before)) is + other + rest))
        (getNextHeaderPointer (a + 2 * unitsOf before))
        (a + 2 * unitsOf (solidPart before) + 2 * (freeEnd before + units))
        (p.at (tagged (a + 2 * unitsOf (solidPart before)) is + other + rest))) ∧
      ∀ rest, Does util (p.at (listCells head lists + (spanCells a true before +
          ((Block.live units requested payload).cells (a + 2 * unitsOf before)
            (lastAllocated true before) + rest))))
        (mergePrevious (a + 2 * unitsOf before)) (a + 2 * unitsOf (solidPart before))
        (p.at (listCells head
            (dropIf (freeEnd before) (a + 2 * unitsOf (solidPart before)) lists) +
          (tagged (a + 2 * unitsOf (solidPart before)) is + other +
            (spanCells a true (solidPart before) + rest)))) := by
  rcases solidPart_cases before with ⟨none, same, last⟩ | ⟨more, one, split⟩
  · rw [none, same, last, dropIf, if_pos rfl, Nat.zero_add]
    refine ⟨LiveTag true units requested, values (a + 2 * unitsOf before + 1) payload,
      LiveTag.size_eq, weakens_payload live, ?_, ?_⟩
    · intro rest
      rw [add_assoc]
      exact does_getNextHeaderPointer LiveTag.size_eq
    · exact fun rest => does_mergePrevious_solid
  · obtain ⟨front, isFront⟩ : ∃ front, front = solidPart before := ⟨_, rfl⟩
    obtain ⟨q, isQ⟩ : ∃ q, q = a + 2 * unitsOf front := ⟨_, rfl⟩
    rw [← isFront] at split ⊢
    rw [one, ← isQ]
    have large : 2 ≤ more := fits (.free more) (by rw [split]; simp)
    have total : unitsOf before = unitsOf front + more := by
      rw [split, unitsOf_append]
      simp [Block.units]
    have place : a + 2 * unitsOf before = q + 2 * more := by omega
    have some : 0 < units := by
      have := live.1
      omega
    have entry : (q, 16 * more) ∈ entries lists := by
      apply listed
      rw [split, frees_append, isQ]
      simp [frees]
    have last : lastAllocated true front = true := by
      rw [split, List.append_assoc] at apart
      exact apart.left
    have ended : lastAllocated true before = false := by
      rw [split, lastAllocated_concat]
      rfl
    have spans : spanCells a true before =
        spanCells a true front + (Block.free more).cells q true := by
      rw [split, spanCells_append, last, ← isQ]
      simp [spanCells]
    rw [place, ended, dropIf, if_neg (by omega)]
    refine ⟨Tag false true (more + units), raws Nat (q + 1) (2 * more - 1) +
      wholeCells (q + 2 * more) units (LiveTag false units requested), Tag.size_eq, ?_, ?_, ?_⟩
    · have count : 2 * (more + units) - 1 = 2 * more - 1 + 2 * units := by omega
      have next : q + 1 + (2 * more - 1) = q + 2 * more := by omega
      rw [count, raws_add, next]
      exact (Weakens.refl _).add (weakens_whole some _)
    · intro rest
      have rearranged : tagged q (Tag false true (more + units)) + (raws Nat (q + 1) (2 * more - 1) +
            wholeCells (q + 2 * more) units (LiveTag false units requested)) + rest =
          tagged (q + 2 * more) (LiveTag false units requested) +
            (raws Nat (q + 2 * more + 1) (2 * units - 1) + (tagged q (Tag false true (more + units)) +
              raws Nat (q + 1) (2 * more - 1) + rest)) := by
        rw [wholeCells]
        abel
      have next : q + 2 * (more + units) = q + 2 * more + 2 * units := by omega
      rw [rearranged, next]
      exact does_getNextHeaderPointer LiveTag.size_eq
    · exact fun rest => does_mergePrevious_last live spans entry large some (by omega)

theorem does_right_kept {other : Multiset (Nat × (Nat → Prop))}
    (sized : ∀ info, is info → info.blockSize.toNat = units)
    (reads : ∀ rest, Does util (p.at (tagged q is + other + rest)) (getNextHeaderPointer h)
      (q + 2 * units) (p.at (tagged q is + other + rest)))
    (fits : ∀ block ∈ after, block.Fits)
    (small : units + unitsOf after < 2 ^ 27)
    (listed : ∀ entry ∈ frees (q + 2 * units) after, entry ∈ entries lists) :
    ∃ is' bit, (∀ info, is' info → info.blockSize.toNat = units + freeStart after) ∧
      ∀ rest, Does util (p.at (listCells head lists + (tagged q is + other +
          (blocksCells (q + 2 * units) true after + rest)))) (mergeNext h q) ()
        (p.at (listCells head (dropIf (freeStart after) (q + 2 * units) lists) +
          (tagged q is' + other + (raws Nat (q + 2 * units) (2 * freeStart after) +
            (blocksCells (q + 2 * (units + freeStart after)) bit (solidRest after) + rest))))) := by
  rcases solidRest_cases after with ⟨none, same, solid⟩ | ⟨more, one, split⟩
  · rw [none, same, dropIf, if_pos rfl, Nat.add_zero]
    obtain ⟨head', more, cells, allocated, -⟩ := blocksCells_solid (q + 2 * units) solid
    refine ⟨is, true, sized, ?_⟩
    intro rest
    have start : listCells head lists + (tagged q is + other +
          (blocksCells (q + 2 * units) true after + rest)) =
        tagged q is + other + (tagged (q + 2 * units) (head' true) +
          (listCells head lists + (more + rest))) := by
      rw [cells true]
      abel
    have finish : listCells head lists + (tagged q is + other + (raws Nat (q + 2 * units) (2 * 0) +
          (blocksCells (q + 2 * units) true after + rest))) =
        tagged q is + other + (tagged (q + 2 * units) (head' true) +
          (listCells head lists + (more + rest))) := by
      rw [cells true, show raws Nat (q + 2 * units) (2 * 0) = 0 from rfl]
      abel
    rw [start, finish]
    exact does_mergeNext_allocated reads (allocated true)
  · have large' : 2 ≤ more := fits (.free more) (by rw [split]; simp)
    have entry : (q + 2 * units, 16 * more) ∈ entries lists := by
      apply listed
      rw [split]
      simp [frees]
    have total : unitsOf after = more + unitsOf (solidRest after) := by
      conv_lhs => rw [split]
      rw [unitsOf_cons]
      rfl
    have merges := fun rest => @does_mergeNext_free util p rest q h units more head is lists other
      reads sized entry large' (by omega)
    have place : q + 2 * (units + more) = q + 2 * units + 2 * more := by omega
    rw [one, dropIf, if_neg (by omega), place]
    refine ⟨Tag false true (units + more), false, Tag.size_eq, ?_⟩
    intro rest
    have start : listCells head lists + (tagged q is + other +
          (blocksCells (q + 2 * units) true after + rest)) =
        listCells head lists + ((Block.free more).cells (q + 2 * units) true +
          (tagged q is + other +
            (blocksCells (q + 2 * units + 2 * more) false (solidRest after) + rest))) := by
      conv_lhs => rw [split]
      simp only [blocksCells, Block.units, Block.allocated]
      abel
    have finish : listCells head (dropFree (q + 2 * units) lists) +
          (tagged q (Tag false true (units + more)) + other + (raws Nat (q + 2 * units) (2 * more) +
            (blocksCells (q + 2 * units + 2 * more) false (solidRest after) + rest))) =
        listCells head (dropFree (q + 2 * units) lists) + (raws Nat (q + 2 * units) (2 * more) +
          (tagged q (Tag false true (units + more)) + other +
            (blocksCells (q + 2 * units + 2 * more) false (solidRest after) + rest))) := by
      abel
    rw [start, finish]
    exact merges _

/-- The same, when no word of the block but its header is needed. -/
theorem does_right {other : Multiset (Nat × (Nat → Prop))}
    (sized : ∀ info, is info → info.blockSize.toNat = units)
    (weakens : Weakens other (raws Nat (q + 1) (2 * units - 1)))
    (reads : ∀ rest, Does util (p.at (tagged q is + other + rest)) (getNextHeaderPointer h)
      (q + 2 * units) (p.at (tagged q is + other + rest)))
    (fits : ∀ block ∈ after, block.Fits) (large : 2 ≤ units)
    (small : units + unitsOf after < 2 ^ 27)
    (listed : ∀ entry ∈ frees (q + 2 * units) after, entry ∈ entries lists) :
    ∃ is' bit, (∀ info, is' info → info.blockSize.toNat = units + freeStart after) ∧
      ∀ rest, Does util (p.at (listCells head lists + (tagged q is + other +
          (blocksCells (q + 2 * units) true after + rest)))) (mergeNext h q) ()
        (p.at (listCells head (dropIf (freeStart after) (q + 2 * units) lists) +
          (wholeCells q (units + freeStart after) is' +
            (blocksCells (q + 2 * (units + freeStart after)) bit (solidRest after) + rest)))) := by
  obtain ⟨is', bit, sized', joins⟩ := @does_right_kept util p q h units head is lists after other
    sized reads fits small listed
  refine ⟨is', bit, sized', fun rest => (joins rest).weaken fun m => Describes.weakens ?_⟩
  have count : 2 * (units + freeStart after) - 1 = 2 * units - 1 + 2 * freeStart after := by omega
  have next : q + 1 + (2 * units - 1) = q + 2 * units := by omega
  have joined : wholeCells q (units + freeStart after) is' =
      tagged q is' + raws Nat (q + 1) (2 * units - 1) +
        raws Nat (q + 2 * units) (2 * freeStart after) := by
    rw [wholeCells, count, raws_add, next, add_assoc]
  rw [joined, add_assoc (tagged q is' + raws Nat (q + 1) (2 * units - 1))]
  exact (Weakens.refl _).add (((Weakens.refl _).add weakens).add (.refl _))

theorem unitsOf_solidPart (before : List Block) :
    unitsOf before = unitsOf (solidPart before) + freeEnd before := by
  rcases solidPart_cases before with ⟨none, same, -⟩ | ⟨units, one, split⟩
  · rw [none, same, Nat.add_zero]
  · conv_lhs => rw [split]
    rw [one, unitsOf_append]
    rfl

theorem unitsOf_solidRest (after : List Block) :
    unitsOf after = freeStart after + unitsOf (solidRest after) := by
  rcases solidRest_cases after with ⟨none, same, -⟩ | ⟨units, one, split⟩
  · rw [none, same, Nat.zero_add]
  · conv_lhs => rw [split]
    rw [one, unitsOf_cons]
    rfl

/-- What the lists hold once the block before is merged. -/
theorem entries_dropLeft {others : List (Nat × Nat)} (fits : ∀ block ∈ before, block.Fits)
    (once : ((entries lists).map Prod.fst).Nodup)
    (listed : (entries lists).Perm (frees a before ++ others)) :
    (entries (dropIf (freeEnd before) (a + 2 * unitsOf (solidPart before)) lists)).Perm
      (frees a (solidPart before) ++ others) := by
  rcases solidPart_cases before with ⟨none, same, -⟩ | ⟨units, one, split⟩
  · rw [none, same, dropIf, if_pos rfl]
    exact listed
  · have large : 2 ≤ units := fits (.free units) (by rw [split]; simp)
    have entry : frees a before =
        frees a (solidPart before) ++ [(a + 2 * unitsOf (solidPart before), 16 * units)] := by
      conv_lhs => rw [split]
      rw [frees_append]
      rfl
    rw [entry, List.append_assoc] at listed
    have member : (a + 2 * unitsOf (solidPart before), 16 * units) ∈ entries lists :=
      listed.mem_iff.mpr (by simp)
    rw [one, dropIf, if_neg (by omega)]
    exact ((entries_dropFree member once).symm.trans
      (listed.trans List.perm_middle)).cons_inv

/-- What the lists hold once the block after is merged. -/
theorem entries_dropRight {others : List (Nat × Nat)} (fits : ∀ block ∈ after, block.Fits)
    (once : ((entries lists).map Prod.fst).Nodup)
    (listed : (entries lists).Perm (others ++ frees n after)) :
    (entries (dropIf (freeStart after) n lists)).Perm
      (others ++ frees (n + 2 * freeStart after) (solidRest after)) := by
  rcases solidRest_cases after with ⟨none, same, -⟩ | ⟨units, one, split⟩
  · rw [none, same, dropIf, if_pos rfl]
    exact listed
  · have large : 2 ≤ units := fits (.free units) (by rw [split]; simp)
    have entry : frees n after = (n, 16 * units) :: frees (n + 2 * units) (solidRest after) := by
      conv_lhs => rw [split]
      rfl
    rw [entry] at listed
    have member : (n, 16 * units) ∈ entries lists := listed.mem_iff.mpr (by simp)
    rw [one, dropIf, if_neg (by omega)]
    exact ((entries_dropFree member once).symm.trans
      (listed.trans List.perm_middle)).cons_inv

theorem entries_dropFree_sublist (header : Nat) (lists : List FreeList) :
    (entries (dropFree header lists)).Sublist (entries lists) := by
  induction lists with
  | nil => exact .refl _
  | cons list lists ih =>
      unfold dropFree
      split
      · rw [entries_cons, entries_cons]
        exact (List.erase_sublist.map _).append (.refl _)
      · rw [entries_cons, entries_cons]
        exact (List.Sublist.refl _).append ih

theorem once_dropIf (units header : Nat) (once : ((entries lists).map Prod.fst).Nodup) :
    ((entries (dropIf units header lists)).map Prod.fst).Nodup := by
  unfold dropIf
  split
  · exact once
  · exact once.sublist ((entries_dropFree_sublist header lists).map Prod.fst)

theorem length_dropIf (units header : Nat) (lists : List FreeList) :
    (dropIf units header lists).length = lists.length := by
  unfold dropIf
  split
  · rfl
  · exact length_dropFree header lists

theorem increasing_dropIf (units header : Nat) (increasing : Increasing lists) :
    Increasing (dropIf units header lists) := by
  unfold dropIf
  split
  · exact increasing
  · exact increasing_dropFree header increasing

/-- The heap after a block between `before` and `after` is freed. -/
def Heap.afterFree (util : Sfutil) (heap : Heap) (before : List Block) (units : Nat)
    (after : List Block) : Heap :=
  let size := freeEnd before + units + freeStart after
  let header := util.first + 2 * unitsOf (solidPart before)
  { heap with
    blocks := solidPart before ++ .free size :: solidRest after
    lists := pushFree (util.node heap.lists.length) (16 * size) header
      (dropIf (freeStart after) (header + 2 * (freeEnd before + units))
        (dropIf (freeEnd before) header heap.lists)) }

variable {heap : Heap}

theorem Heap.Valid.once (valid : heap.Valid util) : ((entries heap.lists).map Prod.fst).Nodup :=
  (valid.listed.map Prod.fst).nodup_iff.mpr (frees_nodup valid.fits)

/-- The entries once the free block before is gone. -/
theorem Heap.Valid.mergedLeft (valid : heap.Valid util)
    (split : heap.blocks = before ++ .live units requested payload :: after) :
    (entries (dropIf (freeEnd before) (util.first + 2 * unitsOf (solidPart before)) heap.lists)).Perm
      (frees util.first (solidPart before) ++
        frees (util.first + 2 * unitsOf (solidPart before) + 2 * (freeEnd before + units)) after) := by
  have fits := valid.fits
  have listed := valid.listed
  rw [split] at fits listed
  have place : util.first + 2 * unitsOf before + 2 * units =
      util.first + 2 * unitsOf (solidPart before) + 2 * (freeEnd before + units) := by
    have := unitsOf_solidPart before
    omega
  rw [frees_append, frees, place] at listed
  exact entries_dropLeft (fun block member => fits block (by simp [member])) valid.once listed

/-- The entries once the free blocks at the sides are gone. -/
theorem Heap.Valid.merged (valid : heap.Valid util)
    (split : heap.blocks = before ++ .live units requested payload :: after) :
    (entries (dropIf (freeStart after)
        (util.first + 2 * unitsOf (solidPart before) + 2 * (freeEnd before + units))
        (dropIf (freeEnd before) (util.first + 2 * unitsOf (solidPart before)) heap.lists))).Perm
      (frees util.first (solidPart before) ++
        frees (util.first + 2 * unitsOf (solidPart before) +
          2 * (freeEnd before + units + freeStart after)) (solidRest after)) := by
  have fits := valid.fits
  rw [split] at fits
  rw [Nat.mul_add 2 (freeEnd before + units), ← Nat.add_assoc]
  exact entries_dropRight (fun block member => fits block (by simp [member]))
    (once_dropIf _ _ valid.once) (valid.mergedLeft split)

theorem fits_solidPart (fits : ∀ block ∈ before, block.Fits) :
    ∀ block ∈ solidPart before, block.Fits := by
  intro block member
  rcases solidPart_cases before with ⟨-, same, -⟩ | ⟨units, -, split⟩
  · rw [same] at member
    exact fits block member
  · apply fits block
    rw [split]
    exact List.mem_append_left _ member

theorem fits_solidRest (fits : ∀ block ∈ after, block.Fits) :
    ∀ block ∈ solidRest after, block.Fits := by
  intro block member
  rcases solidRest_cases after with ⟨-, same, -⟩ | ⟨units, -, split⟩
  · rw [same] at member
    exact fits block member
  · apply fits block
    rw [split]
    exact List.mem_cons_of_mem _ member

/-- The allocated block before the free ones that are merged. -/
theorem solidPart_apart (apart : NoneAdjacent before) :
    NoneAdjacent (solidPart before) ∧ lastAllocated true (solidPart before) = true := by
  rcases solidPart_cases before with ⟨-, same, last⟩ | ⟨units, -, split⟩
  · rw [same]
    exact ⟨apart, last⟩
  · rw [split] at apart
    exact ⟨(List.isChain_append.mp apart).1, apart.left⟩

theorem solidRest_apart (apart : NoneAdjacent after) :
    NoneAdjacent (solidRest after) ∧ Solid (solidRest after) := by
  rcases solidRest_cases after with ⟨-, same, solid⟩ | ⟨units, -, split⟩
  · rw [same]
    exact ⟨apart, solid⟩
  · rw [split, ← List.nil_append (Block.free units :: solidRest after)] at apart
    exact ⟨(List.isChain_cons.mp apart).2, apart.right⟩

theorem afterFree_valid (valid : heap.Valid util)
    (split : heap.blocks = before ++ .live units requested payload :: after) :
    (heap.afterFree util before units after).Valid util := by
  have fits := valid.fits
  have apart := valid.apart
  have fills := valid.fills
  have increasing := increasing_dropIf (freeStart after)
    (util.first + 2 * unitsOf (solidPart before) + 2 * (freeEnd before + units))
    (increasing_dropIf (freeEnd before) (util.first + 2 * unitsOf (solidPart before))
      valid.increasing)
  rw [split] at fits apart fills
  have live : (Block.live units requested payload).Fits := fits _ (by simp)
  have large := live.1
  obtain ⟨leftApart, rest, -⟩ := List.isChain_append.mp apart
  obtain ⟨left, last⟩ := solidPart_apart leftApart
  obtain ⟨right, solid⟩ := solidRest_apart (List.isChain_cons.mp rest).2
  constructor
  · intro block member
    simp only [Heap.afterFree, List.mem_append, List.mem_cons] at member
    rcases member with inLeft | rfl | inRight
    · exact fits_solidPart (fun b listed => fits b (by simp [listed])) block inLeft
    · simp only [Block.Fits]
      omega
    · exact fits_solidRest (fun b listed => fits b (by simp [listed])) block inRight
  · exact noneAdjacent_free left right last solid
  · simp only [Heap.afterFree, unitsOf_append, unitsOf_cons, Block.units] at fills ⊢
    have := unitsOf_solidPart before
    have := unitsOf_solidRest after
    omega
  · exact increasing_pushFree _ _ _ increasing
  · simp only [Heap.afterFree]
    refine (entries_pushFree _ _ _ increasing).trans ?_
    rw [frees_append, frees]
    exact ((valid.merged split).cons _).trans List.perm_middle.symm

/-- The blocks of a heap are smaller than 2 ^ 31 bytes in all. -/
theorem Heap.Valid.small (valid : heap.Valid util) (room : heap.pages ≤ util.limit) :
    unitsOf heap.blocks < 2 ^ 27 := by
  have fills := valid.fills
  have small := util.small
  have bounded : heap.pages * pageWords ≤ util.limit * pageWords := Nat.mul_le_mul_right _ room
  unfold pageWords at fills bounded
  omega

/-- The footer that `sf_abort` may look at. -/
theorem spanCells_footer (a : Nat) (before : List Block) :
    lastAllocated true before = true ∨ ∃ more others, spanCells a true before =
      tagged (a + 2 * unitsOf before - 1) (Tag false true more) + others := by
  rcases solidPart_cases before with ⟨-, -, last⟩ | ⟨units, -, split⟩
  · exact .inl last
  · have place : a + 2 * unitsOf before - 1 =
        a + 2 * unitsOf (solidPart before) + 2 * units - 1 := by
      conv_lhs => rw [split]
      rw [unitsOf_append, unitsOf_cons, unitsOf_nil, Block.units]
      omega
    refine .inr ⟨units, spanCells a true (solidPart before) +
      (tagged (a + 2 * unitsOf (solidPart before))
        (Tag false (lastAllocated true (solidPart before)) units) +
        raws Nat (a + 2 * unitsOf (solidPart before) + 3) (2 * units - 4)), ?_⟩
    rw [place]
    conv_lhs => rw [split]
    rw [spanCells_append, spanCells, spanCells, Block.cells]
    abel

theorem Heap.picture_live (split : heap.blocks = before ++ .live units requested payload :: after) :
    (heap.picture util).cells = tagged (util.first + 2 * unitsOf before)
        (LiveTag (lastAllocated true before) units requested) +
      (spanCells util.first true before + (values (util.first + 2 * unitsOf before + 1) payload +
        (blocksCells (util.first + 2 * unitsOf before + 2 * units) true after +
          (prologueCells util + listCells util.head heap.lists)))) := by
  rw [Heap.picture, split, blocksCells_append, blocksCells, Block.cells]
  simp only [Block.units, Block.allocated]
  abel

/-- A live block with room for what was requested passes the tests. -/
theorem does_sfAbort_live (valid : heap.Valid util)
    (split : heap.blocks = before ++ .live units requested payload :: after)
    (room : requested + 8 ≤ 16 * units) :
    Does util (heap.picture util) (sfAbort util (util.first + 2 * unitsOf before + 1)) ()
      (heap.picture util) := by
  apply does_knowing (fun m described => described.room)
  intro pages
  have small := valid.small pages
  have fits := valid.fits
  have fills := valid.fills
  rw [split] at small fits fills
  have large := (fits (.live units requested payload) (by simp)).1
  simp only [unitsOf_append, unitsOf_cons, Block.units] at small fills
  have cells := @Heap.picture_live util units requested before after payload heap split
  obtain ⟨h, isH⟩ : ∃ h, h = util.first + 2 * unitsOf before := ⟨_, rfl⟩
  rw [← isH] at cells ⊢
  have known : lastAllocated true before = true ∨ ∃ more others, spanCells util.first true before +
      (values (h + 1) payload + (blocksCells (h + 2 * units) true after +
        (prologueCells util + listCells util.head heap.lists))) =
      tagged (h - 1) (Tag false true more) + others := by
    rw [isH]
    rcases spanCells_footer util.first before with allocated | ⟨more, others, footer⟩
    · exact .inl allocated
    · exact .inr ⟨more, _, by rw [footer, add_assoc]⟩
  have passes := @does_sfAbort util (heap.picture util) _ h units requested _ known
    (by rw [isH, Sfutil.first]; omega)
    (by rw [isH, Sfutil.first]; show _ < util.start + heap.pages * pageWords; omega)
    large (by omega) room
  rw [← cells] at passes
  exact passes

theorem Heap.picture_afterFree {size q : Nat} {others : List FreeList} (valid : heap.Valid util)
    (split : heap.blocks = before ++ .live units requested payload :: after)
    (isSize : size = freeEnd before + units + freeStart after)
    (isQ : q = util.first + 2 * unitsOf (solidPart before))
    (isOthers : others = dropIf (freeStart after) (q + 2 * (freeEnd before + units))
      (dropIf (freeEnd before) q heap.lists)) :
    (heap.afterFree util before units after).picture util =
      ({ heap.picture util with nodes := nodesWith (16 * size) heap.lists.length others } : Picture).at
        (listCells util.head (pushFree (util.node heap.lists.length) (16 * size) q others) +
          ((Block.free size).cells q true + (blocksCells (q + 2 * size) false (solidRest after) +
            (spanCells util.first true (solidPart before) + prologueCells util)))) := by
  have apart := valid.apart
  rw [split] at apart
  have lastSolid := (solidPart_apart (List.isChain_append.mp apart).1).2
  have ordered : Increasing others := by
    rw [isOthers]
    exact increasing_dropIf _ _ (increasing_dropIf _ _ valid.increasing)
  have few : others.length = heap.lists.length := by
    rw [isOthers, length_dropIf, length_dropIf]
  have blocks : (heap.afterFree util before units after).blocks =
      solidPart before ++ .free size :: solidRest after := by
    rw [isSize]
    rfl
  have lists : (heap.afterFree util before units after).lists =
      pushFree (util.node heap.lists.length) (16 * size) q others := by
    rw [isSize, isOthers, isQ]
    rfl
  have sum : prologueCells util + blocksCells util.first true
        (solidPart before ++ .free size :: solidRest after) +
        listCells util.head (pushFree (util.node heap.lists.length) (16 * size) q others) =
      listCells util.head (pushFree (util.node heap.lists.length) (16 * size) q others) +
        ((Block.free size).cells q true + (blocksCells (q + 2 * size) false (solidRest after) +
          (spanCells util.first true (solidPart before) + prologueCells util))) := by
    rw [blocksCells_append, blocksCells, lastSolid, ← isQ]
    simp only [Block.units, Block.allocated]
    abel
  have many : (pushFree (util.node heap.lists.length) (16 * size) q others).length =
      nodesWith (16 * size) heap.lists.length others := by
    rw [← few]
    exact length_pushFree _ _ _ ordered
  simp only [Heap.picture, Picture.at, blocks, lists, sum, many]
  rfl

theorem does_sfFree (valid : heap.Valid util)
    (split : heap.blocks = before ++ .live units requested payload :: after)
    (room : requested + 8 ≤ 16 * units) :
    Does util (heap.picture util) (sfFree util (util.first + 2 * unitsOf before + 1)) ()
      ((heap.afterFree util before units after).picture util) := by
  apply does_knowing (fun m described => described.room)
  intro pages
  have small := valid.small pages
  have fits := valid.fits
  have apart := valid.apart
  have listed := valid.listed
  rw [split] at small fits apart listed
  have live : (Block.live units requested payload).Fits := fits _ (by simp)
  have large := live.1
  simp only [unitsOf_append, unitsOf_cons, Block.units] at small
  rw [frees_append, frees] at listed
  have leftUnits := unitsOf_solidPart before
  have rightUnits := unitsOf_solidRest after
  have aborts := does_sfAbort_live valid split room
  have left := valid.mergedLeft split
  obtain ⟨h, isH⟩ : ∃ h, h = util.first + 2 * unitsOf before := ⟨_, rfl⟩
  obtain ⟨q, isQ⟩ : ∃ q, q = util.first + 2 * unitsOf (solidPart before) := ⟨_, rfl⟩
  obtain ⟨size, isSize⟩ : ∃ size, size = freeEnd before + units + freeStart after := ⟨_, rfl⟩
  obtain ⟨others, isOthers⟩ : ∃ others, others = dropIf (freeStart after)
      (q + 2 * (freeEnd before + units)) (dropIf (freeEnd before) q heap.lists) := ⟨_, rfl⟩
  obtain ⟨rest, isRest⟩ : ∃ rest, rest = spanCells util.first true (solidPart before) +
      prologueCells util := ⟨_, rfl⟩
  have final := Heap.picture_afterFree valid split isSize isQ isOthers
  have next : h + 2 * units = q + 2 * (freeEnd before + units) := by omega
  -- the block before, the block after, and the list of the new size
  obtain ⟨is, other, sized, weakens, reads, merges⟩ := @does_left util (heap.picture util) units
    util.head requested heap.lists before after payload util.first
    (fun block member => fits block (by simp [member])) live apart (by omega)
    (fun entry member => listed.mem_iff.mpr (List.mem_append_left _ member))
  rw [← isQ] at weakens left
  rw [← isH, ← isQ] at reads merges
  obtain ⟨is', bit, sized', joins⟩ := @does_right util (heap.picture util) q h
    (freeEnd before + units) util.head is (dropIf (freeEnd before) q heap.lists) after other sized
    weakens reads (fun block member => fits block (by simp [member])) (by omega) (by omega)
    (fun entry member => left.mem_iff.mpr (List.mem_append_right _ member))
  rw [← isSize, ← isOthers] at joins
  rw [← isSize] at sized'
  have solid := (solidRest_apart (List.isChain_cons.mp (List.isChain_append.mp apart).2.1).2).2
  obtain ⟨head', words, cells, -, set⟩ := blocksCells_solid (q + 2 * size) solid
  have finished := @does_finishFree util (heap.picture util) (words + rest) q size is' (head' bit)
    (head' false) others sized' (set bit false) (by omega) (by omega)
    (by rw [isOthers]; exact increasing_dropIf _ _ (increasing_dropIf _ _ valid.increasing))
    (by rw [isOthers, length_dropIf, length_dropIf]; exact Nat.le_refl _)
  have first : (heap.picture util).cells = listCells util.head heap.lists +
      (spanCells util.first true before +
        ((Block.live units requested payload).cells h (lastAllocated true before) +
          (blocksCells (q + 2 * (freeEnd before + units)) true after + prologueCells util))) := by
    rw [Heap.picture, split, blocksCells_append, blocksCells, ← isH, ← next]
    simp only [Block.units, Block.allocated]
    abel
  have second : listCells util.head (dropIf (freeEnd before) q heap.lists) + (tagged q is + other +
        (spanCells util.first true (solidPart before) +
          (blocksCells (q + 2 * (freeEnd before + units)) true after + prologueCells util))) =
      listCells util.head (dropIf (freeEnd before) q heap.lists) + (tagged q is + other +
        (blocksCells (q + 2 * (freeEnd before + units)) true after + rest)) := by
    rw [isRest]
    abel
  have merged := merges (blocksCells (q + 2 * (freeEnd before + units)) true after +
    prologueCells util)
  rw [← first, second] at merged
  have joined := joins rest
  rw [cells bit, add_assoc (tagged _ (head' bit))] at joined
  rw [final, cells false, add_assoc (tagged _ (head' false)), ← isRest, ← isH]
  rw [← isH] at aborts
  unfold sfFree
  apply aborts.bind
  simp only [getPayloadHeader, Nat.add_sub_cancel]
  apply Returns.bind merged
  apply Returns.bind joined
  exact finished

end Audible.Sfmm
