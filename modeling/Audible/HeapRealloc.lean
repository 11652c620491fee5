import Audible.HeapMalloc

set_option autoImplicit false

/- `sf_realloc` -/
namespace Audible.Sfmm

open Cells Returning

variable {util : Sfutil} {p : Picture} {heap : Heap} {rest : Multiset (Nat × (Nat → Prop))}
variable {lists : List FreeList} {before after : List Block} {payload : List Nat}
variable {h units more requested needed n : Nat} {is : Info → Prop}

/-- What is split off is merged with what follows, if that is free. -/
theorem does_splitBlock (sized : ∀ info, is info → info.blockSize.toNat = units)
    (large : 2 ≤ more) (fits : ∀ block ∈ after, block.Fits) (small : more + unitsOf after < 2 ^ 27)
    (listed : ∀ entry ∈ frees (h + 2 * units + 2 * more) after, entry ∈ entries lists)
    (increasing : Increasing lists) (few : lists.length ≤ p.nodes) :
    ∃ bit, ∀ rest, Does util (p.at (tagged h is + (listCells util.head lists +
        (raws Nat (h + 2 * units) (2 * more) +
          (blocksCells (h + 2 * units + 2 * more) true after + rest)))))
      (splitBlock util h (16 * more)) (some (h + 2 * units))
      ({ p with
          nodes := nodesWith (16 * (more + freeStart after)) p.nodes
            (dropIf (freeStart after) (h + 2 * units + 2 * more) lists) }.at
        (tagged h is + (listCells util.head (pushFree (util.node p.nodes)
            (16 * (more + freeStart after)) (h + 2 * units)
            (dropIf (freeStart after) (h + 2 * units + 2 * more) lists)) +
          ((Block.free (more + freeStart after)).cells (h + 2 * units) true +
            (blocksCells (h + 2 * units + 2 * (more + freeStart after)) bit (solidRest after) +
              rest))))) := by
  rcases solidRest_cases after with ⟨none, same, solid⟩ | ⟨next, is_, split⟩
  · obtain ⟨head, words, cells, allocated, -⟩ :=
      blocksCells_solid (h + 2 * units + 2 * more) solid
    refine ⟨true, fun rest => ?_⟩
    rw [same, none, Nat.add_zero, dropIf, if_pos rfl, cells true, add_assoc (tagged _ (head true))]
    exact does_splitBlock_allocated sized (allocated true) large
      (Nat.lt_of_le_of_lt (Nat.le_add_right _ _) small) increasing few
  · have place : h + 2 * units + 2 * (more + next) = h + 2 * units + 2 * more + 2 * next := by omega
    have large' : 2 ≤ next := fits (.free next) (by rw [split]; exact List.mem_cons_self)
    have units_ := unitsOf_solidRest after
    rw [split, frees] at listed
    have head := listed _ List.mem_cons_self
    have cells : blocksCells (h + 2 * units + 2 * more) true after =
        (Block.free next).cells (h + 2 * units + 2 * more) true +
          blocksCells (h + 2 * units + 2 * more + 2 * next) false (solidRest after) := by
      conv_lhs => rw [split]
      rfl
    refine ⟨false, fun rest => ?_⟩
    rw [is_] at units_ ⊢
    rw [dropIf, if_neg (by omega), place, cells, add_assoc ((Block.free next).cells _ _)]
    exact does_splitBlock_free sized large large' (by omega) head increasing few

/-- The last words of a payload are not needed any more. -/
theorem weakens_tail (h : Nat) (fits : (Block.live units requested payload).Fits)
    (positive : 0 < needed) (less : needed ≤ units) :
    Weakens (values (h + 1) payload)
      (values (h + 1) (payload.take (2 * needed - 1)) +
        raws Nat (h + 2 * needed) (2 * (units - needed))) := by
  have length := fits.2
  have first : (payload.take (2 * needed - 1)).length = 2 * needed - 1 := by
    rw [List.length_take]
    omega
  have last : ((payload.drop (2 * needed - 1)).map fun v w => w = v).length =
      2 * (units - needed) := by
    rw [List.length_map, List.length_drop]
    omega
  have start : h + 1 + (2 * needed - 1) = h + 2 * needed := by omega
  have whole : values (h + 1) payload = values (h + 1) (payload.take (2 * needed - 1)) +
      values (h + 2 * needed) (payload.drop (2 * needed - 1)) := by
    conv_lhs => rw [← List.take_append_drop (2 * needed - 1) payload]
    rw [values, List.map_append, words_append, List.length_map, first, start]
    rfl
  rw [whole, ← last]
  exact (Weakens.refl _).add (weakens_raws _)

/-- The heap after the live block between `before` and `after` is cut down to a smaller request. -/
def Heap.afterShrink (util : Sfutil) (heap : Heap) (before : List Block) (units n needed : Nat)
    (payload : List Nat) (after : List Block) : Heap :=
  if units < needed + 2 then { heap with blocks := before ++ .live units n payload :: after }
  else
    let size := units - needed + freeStart after
    { heap with
      blocks := before ++ .live needed n (payload.take (2 * needed - 1)) ::
        .free size :: solidRest after
      lists := pushFree (util.node heap.lists.length) (16 * size) (util.place before + 2 * needed)
        (dropIf (freeStart after) (util.place before + 2 * units) heap.lists) }

/-- The blocks of a heap, the prologue and the epilogue are smaller than 2 ^ 31 bytes in all. -/
theorem Heap.Valid.smaller (valid : heap.Valid util) (room : heap.pages ≤ util.limit) :
    unitsOf heap.blocks + 3 < 2 ^ 27 := by
  have fills := valid.fills
  have small := util.small
  have bounded : heap.pages * pageWords ≤ util.limit * pageWords := Nat.mul_le_mul_right _ room
  unfold pageWords at fills bounded
  omega

/-- A request that is not larger than that of a block does not need more units. -/
theorem Heap.Valid.unitsFor_le (valid : heap.Valid util) (pages : heap.pages ≤ util.limit)
    (split : heap.blocks = before ++ .live units requested payload :: after)
    (room : requested + 8 ≤ 16 * units) (less : n ≤ requested) :
    ∃ needed, unitsFor n = some needed ∧ 2 ≤ needed ∧ needed ≤ units ∧ n + 8 ≤ 16 * needed := by
  have small := valid.smaller pages
  have fits := valid.fits
  rw [split] at small fits
  have large := (fits (.live units requested payload) (by simp)).1
  simp only [unitsOf_append, unitsOf_cons, Block.units] at small
  exact ⟨max 2 ((n + 23) / 16), unitsFor_small (by omega), by omega, by omega, by omega⟩

/-- Another request and payload in the same place. -/
theorem Heap.Valid.replace {requested' : Nat} {payload' : List Nat} (valid : heap.Valid util)
    (split : heap.blocks = before ++ .live units requested payload :: after)
    (length : payload'.length = payload.length) :
    ({ heap with blocks := before ++ .live units requested' payload' :: after } : Heap).Valid util := by
  have fits := valid.fits
  have apart := valid.apart
  have fills := valid.fills
  have listed := valid.listed
  rw [split] at fits apart fills listed
  have live : (Block.live units requested payload).Fits := fits _ (by simp)
  obtain ⟨left, rest, -⟩ := List.isChain_append.mp apart
  rw [frees_append, frees] at listed
  simp only [unitsOf_append, unitsOf_cons, Block.units] at fills
  constructor
  · intro block member
    rw [List.mem_append, List.mem_cons] at member
    rcases member with first | rfl | last
    · exact fits block (by simp [first])
    · exact ⟨live.1, by rw [length]; exact live.2⟩
    · exact fits block (by simp [last])
  · exact noneAdjacent_live left (List.isChain_cons.mp rest).2
  · simp only [unitsOf_append, unitsOf_cons, Block.units]
    exact fills
  · exact valid.increasing
  · rw [frees_append, frees]
    exact listed

theorem afterShrink_valid (valid : heap.Valid util)
    (split : heap.blocks = before ++ .live units requested payload :: after)
    (positive : 2 ≤ needed) :
    (heap.afterShrink util before units n needed payload after).Valid util := by
  have fits := valid.fits
  have apart := valid.apart
  have fills := valid.fills
  have listed := valid.listed
  rw [split] at fits apart fills listed
  have length := (fits (.live units requested payload) (by simp)).2
  have fitsBefore : ∀ block ∈ before, block.Fits := fun block member => fits block (by simp [member])
  have fitsAfter : ∀ block ∈ after, block.Fits := fun block member => fits block (by simp [member])
  obtain ⟨left, rest, -⟩ := List.isChain_append.mp apart
  have right := (List.isChain_cons.mp rest).2
  have rightUnits := unitsOf_solidRest after
  rw [frees_append, frees] at listed
  simp only [unitsOf_append, unitsOf_cons, Block.units] at fills
  unfold Heap.afterShrink
  by_cases close : units < needed + 2
  · rw [if_pos close]
    exact valid.replace split rfl
  · rw [if_neg close]
    obtain ⟨right, solid⟩ := solidRest_apart right
    have increasing := increasing_dropIf (freeStart after) (util.place before + 2 * units)
      valid.increasing
    have place : util.place before + 2 * needed + 2 * (units - needed + freeStart after) =
        util.place before + 2 * units + 2 * freeStart after := by omega
    have dropped : (entries (dropIf (freeStart after) (util.place before + 2 * units)
        heap.lists)).Perm (frees util.first before ++ frees (util.place before + 2 * needed +
          2 * (units - needed + freeStart after)) (solidRest after)) := by
      rw [place]
      exact entries_dropRight fitsAfter valid.once listed
    constructor
    · intro block member
      simp only [List.mem_append, List.mem_cons] at member
      rcases member with first | rfl | rfl | last
      · exact fitsBefore block first
      · refine ⟨positive, ?_⟩
        rw [List.length_take]
        omega
      · simp only [Block.Fits]
        omega
      · exact fits_solidRest fitsAfter block last
    · have tail : NoneAdjacent ([] ++ .free (units - needed + freeStart after) :: solidRest after) :=
        noneAdjacent_free List.isChain_nil right rfl solid
      exact noneAdjacent_live left tail
    · simp only [unitsOf_append, unitsOf_cons, Block.units]
      omega
    · exact increasing_pushFree _ _ _ increasing
    · refine (entries_pushFree _ _ _ increasing).trans ?_
      rw [frees_append, frees, frees]
      exact (dropped.cons _).trans List.perm_middle.symm

theorem LiveTag.shrink {bit : Bool} (small : n < 2 ^ 32) (info : Info)
    (tag : LiveTag bit units requested info) :
    LiveTag bit units n { info with requestedSize := BitVec.ofNat 32 n } := by
  refine ⟨⟨tag.allocated, tag.prevAllocated, tag.size⟩, ?_⟩
  rw [BitVec.toNat_ofNat, Nat.mod_eq_of_lt small]

theorem LiveTag.resize {bit : Bool} (fits : needed < 2 ^ 28) (info : Info)
    (tag : LiveTag bit units n info) :
    LiveTag bit needed n { info with blockSize := toField (16 * (needed : Int)) } :=
  ⟨⟨tag.allocated, tag.prevAllocated, toField_units fits⟩, tag.requested⟩

/-- The block before the tail, with what the tail becomes. -/
theorem does_cutTail {own : Info → Prop}
    (sized : ∀ info, own info → info.blockSize.toNat = needed)
    (live : (Block.live units requested payload).Fits) (fits : ∀ block ∈ after, block.Fits)
    (apart : NoneAdjacent after) (positive : 2 ≤ needed) (large : needed + 2 ≤ units)
    (small : units + unitsOf after < 2 ^ 27)
    (listed : ∀ entry ∈ frees (h + 2 * units) after, entry ∈ entries lists)
    (increasing : Increasing lists) (few : lists.length ≤ p.nodes) {β : Type} (result : β) :
    Does util (p.at (tagged h own + (values (h + 1) payload + (blocksCells (h + 2 * units) true after +
        (listCells util.head lists + rest))))) (do
        match ← splitBlock util h (16 * ((units - needed : Nat) : Int)) with
        | none =>
            undefined
            return result
        | some freeHeader =>
            setPrevAllocated (← getNextHeaderPointer freeHeader) false
            return result) result
      ({ p with
          nodes := nodesWith (16 * (units - needed + freeStart after)) p.nodes
            (dropIf (freeStart after) (h + 2 * units) lists) }.at
        (tagged h own + (values (h + 1) (payload.take (2 * needed - 1)) +
          (blocksCells (h + 2 * needed) true
              (.free (units - needed + freeStart after) :: solidRest after) +
            (listCells util.head (pushFree (util.node p.nodes)
                (16 * (units - needed + freeStart after)) (h + 2 * needed)
                (dropIf (freeStart after) (h + 2 * units) lists)) + rest))))) := by
  obtain ⟨more, isMore⟩ : ∃ more, more = units - needed := ⟨_, rfl⟩
  obtain ⟨size, isSize⟩ : ∃ size, size = more + freeStart after := ⟨_, rfl⟩
  obtain ⟨q, isQ⟩ : ∃ q, q = h + 2 * needed := ⟨_, rfl⟩
  have next : h + 2 * units = q + 2 * more := by omega
  have solid := (solidRest_apart apart).2
  obtain ⟨head, words, cells, -, set⟩ := blocksCells_solid (q + 2 * size) solid
  obtain ⟨kept, isKept⟩ : ∃ kept, kept = values (h + 1) (payload.take (2 * needed - 1)) := ⟨_, rfl⟩
  obtain ⟨lists', isLists'⟩ : ∃ lists', lists' = pushFree (util.node p.nodes) (16 * size) q
      (dropIf (freeStart after) (q + 2 * more) lists) := ⟨_, rfl⟩
  have cut := weakens_tail h live (by omega) (Nat.le_of_add_right_le large)
  rw [← isKept, ← isMore, ← isQ] at cut
  rw [next] at listed
  obtain ⟨bit, splits⟩ := @does_splitBlock util p lists after h needed more own sized (by omega) fits
    (by omega) (by rw [← isQ]; exact listed) increasing few
  have start : tagged h own + (kept + raws Nat q (2 * more) + (blocksCells (q + 2 * more) true after +
        (listCells util.head lists + rest))) =
      tagged h own + (listCells util.head lists + (raws Nat q (2 * more) +
        (blocksCells (q + 2 * more) true after + (kept + rest)))) := by
    abel
  have middle : tagged h own + (listCells util.head lists' + ((Block.free size).cells q true +
        (blocksCells (q + 2 * size) bit (solidRest after) + (kept + rest)))) =
      tagged q (Tag false true size) + (tagged (q + 2 * size) (head bit) + (tagged h own +
        (listCells util.head lists' + (raws Nat (q + 3) (2 * size - 4) +
          (tagged (q + 2 * size - 1) (Tag false true size) + (words + (kept + rest))))))) := by
    rw [cells bit, Block.cells]
    abel
  have finish : tagged h own + (kept + (blocksCells q true (.free size :: solidRest after) +
        (listCells util.head lists' + rest))) =
      tagged q (Tag false true size) + (tagged (q + 2 * size) (head false) + (tagged h own +
        (listCells util.head lists' + (raws Nat (q + 3) (2 * size - 4) +
          (tagged (q + 2 * size - 1) (Tag false true size) + (words + (kept + rest))))))) := by
    rw [blocksCells]
    simp only [Block.units, Block.allocated]
    rw [cells false, Block.cells]
    abel
  have splits := splits (kept + rest)
  rw [← isQ, ← isSize, ← isLists', middle] at splits
  rw [next, ← isQ, ← isMore, ← isSize, ← isKept, ← isLists', finish]
  refine does_weakened ((Weakens.refl (tagged h own)).add (cut.add (.refl _))) ?_
  rw [start]
  apply splits.bind
  apply (does_getNextHeaderPointer Tag.size_eq).bind
  apply (does_second fun _ => does_setPrevAllocated (set bit false)).bind
  exact .pure _

/-- The block keeps its size, but for the request nothing changes. -/
theorem Heap.picture_afterShrink_whole (close : units < needed + 2) :
    (heap.afterShrink util before units n needed payload after).picture util =
      (heap.picture util).at (tagged (util.place before) (LiveTag (lastAllocated true before) units n) +
        (spanCells util.first true before + (values (util.place before + 1) payload +
          (blocksCells (util.place before + 2 * units) true after +
            (prologueCells util + listCells util.head heap.lists))))) := by
  have cells := @Heap.picture_live util units n before after payload
    { heap with blocks := before ++ .live units n payload :: after } rfl
  rw [Heap.afterShrink, if_pos close]
  exact congrArg (heap.picture util).at cells

/-- The tail of the block is a free block. -/
theorem Heap.picture_afterShrink_cut (increasing : Increasing heap.lists) (far : needed + 2 ≤ units) :
    (heap.afterShrink util before units n needed payload after).picture util =
      ({ heap.picture util with
          nodes := nodesWith (16 * (units - needed + freeStart after)) heap.lists.length
            (dropIf (freeStart after) (util.place before + 2 * units) heap.lists) } : Picture).at
        (tagged (util.place before) (LiveTag (lastAllocated true before) needed n) +
          (values (util.place before + 1) (payload.take (2 * needed - 1)) +
            (blocksCells (util.place before + 2 * needed) true
                (.free (units - needed + freeStart after) :: solidRest after) +
              (listCells util.head (pushFree (util.node heap.lists.length)
                  (16 * (units - needed + freeStart after)) (util.place before + 2 * needed)
                  (dropIf (freeStart after) (util.place before + 2 * units) heap.lists)) +
                (spanCells util.first true before + prologueCells util))))) := by
  obtain ⟨size, isSize⟩ : ∃ size, size = units - needed + freeStart after := ⟨_, rfl⟩
  obtain ⟨dropped, isDropped⟩ : ∃ dropped, dropped =
      dropIf (freeStart after) (util.place before + 2 * units) heap.lists := ⟨_, rfl⟩
  obtain ⟨lists', isLists'⟩ : ∃ lists', lists' =
      pushFree (util.node heap.lists.length) (16 * size) (util.place before + 2 * needed) dropped :=
    ⟨_, rfl⟩
  have many : lists'.length = nodesWith (16 * size) heap.lists.length dropped := by
    rw [isLists', length_pushFree _ _ _ (by rw [isDropped]; exact increasing_dropIf _ _ increasing),
      isDropped, length_dropIf]
  have cells := @Heap.picture_live util needed n before (.free size :: solidRest after)
    (payload.take (2 * needed - 1))
    { heap with
      blocks := before ++ .live needed n (payload.take (2 * needed - 1)) ::
        .free size :: solidRest after
      lists := lists' } rfl
  have place : ∀ own kept after lists : Multiset (Nat × (Nat → Prop)),
      own + (spanCells util.first true before + (kept + (after + (prologueCells util + lists)))) =
        own + (kept + (after + (lists + (spanCells util.first true before + prologueCells util)))) := by
    intro own kept after lists
    abel
  rw [Heap.afterShrink, if_neg (Nat.not_lt_of_le far)]
  dsimp only
  rw [← isSize, ← isDropped, ← isLists', ← many]
  refine (congrArg ({ heap.picture util with nodes := lists'.length } : Picture).at cells).trans ?_
  rw [place]
  rfl

/-- A smaller request leaves the block where it is. -/
theorem does_sfRealloc_shrink (valid : heap.Valid util)
    (split : heap.blocks = before ++ .live units requested payload :: after)
    (room : requested + 8 ≤ 16 * units) (positive : 0 < n) (less : n < requested)
    (isNeeded : unitsFor n = some needed) (fewer : needed ≤ units) :
    Does util (heap.picture util) (sfRealloc util (util.place before + 1) n)
      (some (util.place before + 1))
      ((heap.afterShrink util before units n needed payload after).picture util) := by
  apply does_knowing (fun m described => described.room)
  intro pages
  have small := valid.smaller pages
  have fits := valid.fits
  have apart := valid.apart
  have listed := valid.listed
  rw [split] at small fits apart listed
  have live : (Block.live units requested payload).Fits := fits _ (by simp)
  simp only [unitsOf_append, unitsOf_cons, Block.units] at small
  rw [frees_append, frees] at listed
  have large := (unitsFor_bounds isNeeded).1
  have cells := @Heap.picture_live util units requested before after payload heap split
  have aborts := does_sfAbort_live valid split room
  have smallN : n < 2 ^ 32 := by omega
  have right := (List.isChain_cons.mp (List.isChain_append.mp apart).2.1).2
  rw [← Sfutil.place] at cells aborts listed
  unfold sfRealloc
  apply aborts.bind
  rw [if_neg (by omega)]
  simp only [getPayloadHeader, getNewSize_some isNeeded, Nat.add_sub_cancel]
  suffices rest : Does util ((heap.picture util).at (tagged (util.place before)
      (LiveTag (lastAllocated true before) units requested) +
      (spanCells util.first true before + (values (util.place before + 1) payload +
        (blocksCells (util.place before + 2 * units) true after +
          (prologueCells util + listCells util.head heap.lists)))))) _ _ _ by
    rw [← cells] at rest
    exact rest
  apply does_loadInfo
  intro info tag
  have tail : 16 * (units : Int) - 16 * (needed : Int) = 16 * ((units - needed : Nat) : Int) := by
    omega
  rw [tag.requested, if_neg (by omega), if_pos less, Info.bytes_eq tag.size (by omega), tail,
    bmod_bytes (by omega)]
  apply (does_modifyInfo (LiveTag.shrink smallN)).bind
  by_cases close : units < needed + 2
  · rw [if_neg (by omega), Heap.picture_afterShrink_whole close]
    exact .pure _
  · have far := Nat.le_of_not_lt close
    have start : tagged (util.place before) (LiveTag (lastAllocated true before) units n) +
          (spanCells util.first true before + (values (util.place before + 1) payload +
            (blocksCells (util.place before + 2 * units) true after +
              (prologueCells util + listCells util.head heap.lists)))) =
        tagged (util.place before) (LiveTag (lastAllocated true before) units n) +
          (values (util.place before + 1) payload +
            (blocksCells (util.place before + 2 * units) true after +
              (listCells util.head heap.lists +
                (spanCells util.first true before + prologueCells util)))) := by
      abel
    rw [if_pos (by omega), start, Heap.picture_afterShrink_cut valid.increasing far]
    apply (does_modifyInfo (LiveTag.resize (by omega))).bind
    exact does_cutTail LiveTag.size_eq live (fun block member => fits block (by simp [member])) right
      large far (by omega)
      (fun entry member => listed.mem_iff.mpr (List.mem_append_right _ member)) valid.increasing
      (Nat.le_refl _) _

/-- A request for no bytes frees the block. -/
theorem does_sfRealloc_zero (valid : heap.Valid util)
    (split : heap.blocks = before ++ .live units requested payload :: after)
    (room : requested + 8 ≤ 16 * units) :
    Does util (heap.picture util) (sfRealloc util (util.place before + 1) 0) none
      ((heap.afterFree util before units after).picture util) := by
  unfold sfRealloc
  apply (does_sfAbort_live valid split room).bind
  rw [if_pos rfl]
  exact (does_sfFree valid split room).bind (.pure _)

/-- From the tests on, for a request that is not for no bytes. -/
theorem sfRealloc_looks (valid : heap.Valid util)
    (split : heap.blocks = before ++ .live units requested payload :: after)
    (room : requested + 8 ≤ 16 * units) (nonzero : n ≠ 0) (enough : requested ≤ n) {m : Memory}
    (described : Describes util (heap.picture util) m) :
    ∃ m₁, Describes util (heap.picture util) m₁ ∧ sfRealloc util (util.place before + 1) n m =
      (if requested < n then do
        match ← sfMalloc util n with
        | none => return none
        | some newPayload =>
            sfFree util (util.place before + 1)
            return some newPayload
      else return some (util.place before + 1) : HeapM (Option Nat)) m₁ := by
  obtain ⟨m₁, passes, described₁⟩ := does_sfAbort_live valid split room m described
  have seen := described₁
  have cells := @Heap.picture_live util units requested before after payload heap split
  change Describes util ((heap.picture util).at (heap.picture util).cells) m₁ at seen
  rw [cells] at seen
  obtain ⟨info, reads, tag⟩ := reads_info seen
  refine ⟨m₁, described₁, ?_⟩
  unfold sfRealloc
  rw [Sfutil.place, run_bind passes, if_neg nonzero]
  simp only [getPayloadHeader, Nat.add_sub_cancel]
  rw [run_bind reads, tag.requested]
  exact congrArg (fun last : HeapM (Option Nat) => (if requested < n then _ else last) m₁)
    (if_neg (Nat.not_lt_of_le enough))

/-- A request for as many bytes as before changes nothing. -/
theorem does_sfRealloc_same (valid : heap.Valid util)
    (split : heap.blocks = before ++ .live units requested payload :: after)
    (room : requested + 8 ≤ 16 * units) (nonzero : requested ≠ 0) :
    Does util (heap.picture util) (sfRealloc util (util.place before + 1) requested)
      (some (util.place before + 1)) (heap.picture util) := by
  intro m described
  obtain ⟨m₁, described₁, runs⟩ :=
    sfRealloc_looks valid split room nonzero (Nat.le_refl requested) described
  rw [if_neg (Nat.lt_irrefl _)] at runs
  exact ⟨m₁, runs, described₁⟩

end Audible.Sfmm
