import Audible.HeapSearch

set_option autoImplicit false

/- `sf_malloc` -/
namespace Audible.Sfmm

open Cells Returning

variable {util : Sfutil} {p : Picture} {heap : Heap} {hole : Gap}
variable {links : Multiset (Nat × (Nat → Prop))} {m : Memory}
variable {before after : List Block} {units needed size k rounds : Nat} {unlink : Nat → HeapM Nat}

def emptyPicture (util : Sfutil) (enomem : Bool) : Picture where
  cells := listCells util.head []
  pages := 0
  nodes := 0
  enomem := enomem

theorem describes_init : Describes util (emptyPicture util false) (sfMemInit util) := by
  have cells : (emptyPicture util false).cells = words util.head
      [fun w => w = 0, fun _ => True, fun _ => True, fun _ => True, fun w => w = util.head,
        fun w => w = util.head] := by
    simp only [emptyPicture, listCells, ring, path, edge, List.map_nil, List.sum_nil, words_cons,
      words_nil, raws, List.replicate, value]
    abel
  refine ⟨?_, ?_, Nat.zero_le _, rfl, rfl, rfl⟩
  · rw [cells]
    apply holds_words
    intro i known found
    by_cases inside : i < 6
    · have words : i = 0 ∨ i = 1 ∨ i = 2 ∨ i = 3 ∨ i = 4 ∨ i = 5 := by omega
      rcases words with rfl | rfl | rfl | rfl | rfl | rfl
      all_goals
        simp only [List.getElem?_cons_zero, List.getElem?_cons_succ, Option.some.injEq] at found
        subst found
        simp [sfMemInit, nodeWords]
    · rw [List.getElem?_eq_none (Nat.le_of_not_lt inside)] at found
      cases found
  · intro c member
    rw [cells] at member
    exact .inr (.inl (words_bounds member))

/-- The gap that `mem_init` makes of the first page. -/
def firstGap (enomem : Bool) : Gap where
  before := []
  units := 253
  after := []
  lists := []
  pages := 1
  enomem := enomem

theorem firstGap_valid (enomem : Bool) : (firstGap enomem).Valid util := by
  refine ⟨?_, List.isChain_singleton _, ?_, List.Pairwise.nil, .refl _⟩
  · intro block member
    rw [List.mem_singleton.mp member]
    exact Nat.le_of_ble_eq_true rfl
  · simp [Gap.blocks, firstGap, pageWords, Block.units]

theorem does_createPrologue {rest : Multiset (Nat × (Nat → Prop))} :
    Does util (p.at (raws Nat util.start 5 + rest)) (createPrologue util) util.start
      (p.at (prologueCells util + rest)) := by
  have split : raws Nat util.start 5 = raw Nat util.start + raw Nat (util.start + 1) +
      raws Nat (util.start + 2) 2 + raw Nat (util.start + 4) := by
    have count : 5 = 1 + (1 + (2 + 1)) := rfl
    rw [count, raws_add, raws_add, raws_add, raws_one, raws_one, raws_one]
    abel
  have start : raws Nat util.start 5 + rest = tagged (util.start + 1) (fun _ => True) +
      (tagged (util.start + 4) (fun _ => True) +
        (raw Nat util.start + raws Nat (util.start + 2) 2 + rest)) := by
    rw [split, ← tagged_raw, ← tagged_raw]
    abel
  have finish : prologueCells util + rest = tagged (util.start + 1) (Tag true false 3) +
      (tagged (util.start + 4) (Tag true false 3) +
        (raw Nat util.start + raws Nat (util.start + 2) 2 + rest)) := by
    rw [prologueCells]
    abel
  have set : ∀ info : Info, True → Tag true false 3 (info.setSentinel 48) :=
    fun _ _ => ⟨rfl, rfl, rfl⟩
  rw [start, finish]
  apply (does_modifyInfo set).bind
  apply (does_second fun _ => does_modifyInfo set).bind
  exact .pure _

/-- The first free block, with its tags. -/
theorem does_firstBlock {rest : Multiset (Nat × (Nat → Prop))} {q : Nat} (large : 2 ≤ units)
    (fits : units < 2 ^ 28) :
    Does util (p.at (raws Nat q (2 * units) + rest)) (do
        let freeHeader ← setFreeHeader q (16 * units)
        let _ ← setFooter (← getFooterPointer freeHeader) (16 * units)
        return some freeHeader) (some q)
      (p.at ((Block.free units).cells q true + (raw Nat (q + 1) + raw Nat (q + 2)) + rest)) := by
  have start : raws Nat q (2 * units) + rest = tagged q (fun _ => True) +
      (tagged (q + 2 * units - 1) (fun _ => True) +
        (raw Nat (q + 1) + raw Nat (q + 2) + raws Nat (q + 3) (2 * units - 4) + rest)) := by
    rw [raws_tail q large, ← tagged_raw, ← tagged_raw]
    abel
  have finish : (Block.free units).cells q true + (raw Nat (q + 1) + raw Nat (q + 2)) + rest =
      tagged q (Tag false true units) + (tagged (q + 2 * units - 1) (Tag false true units) +
        (raw Nat (q + 1) + raw Nat (q + 2) + raws Nat (q + 3) (2 * units - 4) + rest)) := by
    rw [Block.cells]
    abel
  rw [start, finish]
  apply (does_setFreeHeader fits).bind
  apply (does_getFooterPointer Tag.size_eq).bind
  apply (does_second fun _ => does_setFooter fits).bind
  exact .pure _

theorem does_memInit (enomem : Bool) (page : 0 < util.limit) :
    Does util (emptyPicture util enomem) (memInit util) (some util.first)
      ((firstGap enomem).picture util (raw Nat (util.first + 1) + raw Nat (util.first + 2))) := by
  obtain ⟨q, isQ⟩ : ∃ q, q = util.start + 5 := ⟨_, rfl⟩
  obtain ⟨e, isE⟩ : ∃ e, e = q + 2 * 253 := ⟨_, rfl⟩
  obtain ⟨head, isHead⟩ : ∃ head, head = listCells util.head [] := ⟨_, rfl⟩
  obtain ⟨p, isP⟩ : ∃ p : Picture, p = { emptyPicture util enomem with pages := 1 } := ⟨_, rfl⟩
  have words : raws Nat util.start pageWords + head =
      raws Nat util.start 5 + (tagged e (fun _ => True) + (raws Nat q (2 * 253) + head)) := by
    have count : pageWords = 5 + (2 * 253 + 1) := rfl
    rw [count, raws_add, raws_add, raws_one, isE, isQ, ← tagged_raw]
    abel
  have middle : prologueCells util + (tagged e (fun _ => True) + (raws Nat q (2 * 253) + head)) =
      tagged e (fun _ => True) + (prologueCells util + (raws Nat q (2 * 253) + head)) := by
    abel
  have last : tagged e (Tag true false 0) + (prologueCells util + (raws Nat q (2 * 253) + head)) =
      raws Nat q (2 * 253) + (tagged e (Tag true false 0) + prologueCells util + head) := by
    abel
  have finish : ((firstGap enomem).picture util (raw Nat (q + 1) + raw Nat (q + 2))).cells =
      (Block.free 253).cells q true + (raw Nat (q + 1) + raw Nat (q + 2)) +
        (tagged e (Tag true false 0) + prologueCells util + head) := by
    have place : (firstGap enomem).header util = q := isQ.symm
    rw [Gap.picture_end rfl, place, isHead, isE]
    simp only [firstGap, spanCells]
    abel
  have ends : e + 1 = util.start + p.pages * pageWords := by
    rw [isE, isQ, isP]
    simp only [pageWords]
  have size : ((util.start + p.pages * pageWords : Nat) : Int) - util.start = 512 := by
    rw [isP]
    simp only [pageWords]
    omega
  have final : (firstGap enomem).picture util (raw Nat (q + 1) + raw Nat (q + 2)) =
      p.at ((firstGap enomem).picture util (raw Nat (q + 1) + raw Nat (q + 2))).cells := by
    rw [isP]
    rfl
  have grows := @does_sfMemGrow util (emptyPicture util enomem) head page
  have initial : emptyPicture util enomem = (emptyPicture util enomem).at head := by
    rw [isHead]
    rfl
  have place : util.first = q := isQ.symm
  rw [place, final, finish, initial]
  unfold memInit
  apply does_get
  intro m pages _
  rw [pages, if_neg (by simp [emptyPicture])]
  apply grows.bind
  have grown : ({ emptyPicture util enomem with pages := (emptyPicture util enomem).pages + 1 } :
      Picture) = p := isP.symm
  rw [grown]
  have none : util.start + (emptyPicture util enomem).pages * pageWords = util.start := by
    simp [emptyPicture]
  rw [none, words]
  dsimp only
  apply does_createPrologue.bind
  rw [middle]
  apply (does_createEpilogue _ ends).bind
  rw [last]
  apply does_getEnd.bind
  rw [size, ← isQ]
  exact does_firstBlock (Nat.le_of_ble_eq_true rfl) (by omega)

theorem does_memInit_none {enomem : Bool} (none : util.limit = 0) :
    Does util (emptyPicture util enomem) (memInit util) Option.none (emptyPicture util true) := by
  have grows := @does_sfMemGrow_none util (emptyPicture util enomem) (listCells util.head []) none.symm
  unfold memInit
  apply does_get
  intro m pages _
  rw [pages, if_neg (by simp [emptyPicture])]
  exact grows.bind (.pure _)

/-- What `sf_malloc` makes of a gap: a live block of it where it is large enough, or a free one on
the list of its size when no page is left. -/
inductive Gap.Serves (util : Sfutil) (needed size : Nat) (hole : Gap) : Option Nat → Heap → Prop
  | block (payload : List Nat) (enough : needed ≤ hole.units)
      (length : payload.length + 1 = 2 * hole.taken needed) :
      Serves util needed size hole (some (hole.header util + 1))
        (hole.filled util needed size payload)
  | enomem (full : hole.pages = util.limit) (short : hole.units < needed) :
      Serves util needed size hole none (hole.closed util)

theorem Gap.Valid.serves {result : Option Nat} (valid : hole.Valid util) (positive : 2 ≤ needed)
    (serves : hole.Serves util needed size result heap) : heap.Valid util := by
  cases serves with
  | block payload enough length => exact valid.filled positive length size
  | enomem full short => exact valid.closed

theorem Gap.Valid.header_read (valid : hole.Valid util)
    (described : Describes util (hole.picture util links) m) :
    ∃ info, loadInfo (hole.header util) m = .ok (info, m) ∧ info.bytes = 16 * hole.units := by
  have small := valid.small described.room
  have place := @place_header (blocksCells (hole.header util + 2 * hole.units) false hole.after +
    (spanCells util.first true hole.before + prologueCells util)) (hole.header util) hole.units
    (listCells util.head hole.lists + links)
  have whole : hole.picture util links = (hole.picture util links).at _ :=
    congrArg (hole.picture util links).at place
  rw [whole] at described
  obtain ⟨info, reads, tag⟩ := reads_info described
  exact ⟨info, reads, Info.bytes_eq tag.size (by omega)⟩

theorem growAndAllocate_now {newSize : Int} {m' : Memory} {q : Nat} (valid : hole.Valid util)
    (described : Describes util (hole.picture util links) m) (enough : newSize ≤ 16 * hole.units)
    (taken : allocate util unlink size newSize (hole.header util) m = .ok (q, m')) :
    growAndAllocate util unlink size newSize (rounds + 1) (hole.header util) m = .ok (some q, m') := by
  obtain ⟨info, reads, bytes⟩ := valid.header_read described
  have stops : growTo util unlink newSize (rounds + 1) (hole.header util) m =
      .ok (some (hole.header util), m) := by
    rw [growTo, run_bind reads, if_neg (by omega)]
    rfl
  unfold growAndAllocate
  rw [run_bind stops]
  dsimp only
  simp only [Functor.map, StateT.map, taken]
  rfl

/-- A gap that is large enough is used as it is. -/
theorem growAndAllocate_fits (valid : hole.Valid util) (positive : 2 ≤ needed)
    (enough : needed ≤ hole.units)
    (weakens : Weakens links (raw Nat (hole.header util + 1) + raw Nat (hole.header util + 2)))
    (described : Describes util (hole.picture util links) m) :
    ∃ payload m', payload.length + 1 = 2 * hole.taken needed ∧
      growAndAllocate util unlink size (16 * needed) (rounds + 1) (hole.header util) m =
        .ok (some (hole.header util + 1), m') ∧
      Describes util ((hole.filled util needed size payload).picture util) m' := by
  obtain ⟨payload, m', length, taken, left⟩ :=
    valid.allocates unlink positive enough weakens size described
  exact ⟨payload, m', length, growAndAllocate_now valid described (by omega) taken, left⟩

theorem Gap.Valid.fits_now (valid : hole.Valid util) (positive : 2 ≤ needed)
    (enough : needed ≤ hole.units)
    (weakens : Weakens links (raw Nat (hole.header util + 1) + raw Nat (hole.header util + 2)))
    (size : Nat) (described : Describes util (hole.picture util links) m) :
    ∃ result heap m',
      growAndAllocate util removeHeader size (16 * needed) (rounds + 1) (hole.header util) m =
        .ok (result, m') ∧
      hole.Serves util needed size result heap ∧ Describes util (heap.picture util) m' := by
  obtain ⟨payload, m', length, runs, left⟩ :=
    @growAndAllocate_fits _ _ _ _ _ size rounds removeHeader valid positive enough weakens described
  exact ⟨_, _, m', runs, .block payload enough length, left⟩

/-- A gap at the end grows until it is large enough, or no page is left. -/
theorem Gap.Valid.grows (valid : hole.Valid util) (positive : 2 ≤ needed) (atEnd : hole.after = [])
    (room : hole.pages ≤ util.limit) (lasts : util.limit - hole.pages < rounds)
    (relinks : hole.units < needed → hole.pages < util.limit →
      Relinks util.head (hole.header util) hole.lists links)
    (weakens : Weakens links (raw Nat (hole.header util + 1) + raw Nat (hole.header util + 2)))
    (size : Nat) (described : Describes util (hole.picture util links) m) :
    ∃ k result heap m', (∀ j < k, hole.units + 256 * j < needed) ∧ hole.pages + k ≤ util.limit ∧
      growAndAllocate util removeHeader size (16 * needed) rounds (hole.header util) m = .ok (result, m') ∧
      (hole.grown k).Serves util needed size result heap ∧
      Describes util (heap.picture util) m' := by
  obtain ⟨k, isK⟩ : ∃ k, k = (needed - hole.units + 255) / 256 := ⟨_, rfl⟩
  have fewer : ∀ j < k, hole.units + 256 * j < needed := by
    intro j before
    omega
  by_cases enough : hole.pages + k ≤ util.limit
  · have links_ : 0 < k → Relinks util.head (hole.header util) hole.lists links := by
      intro some
      exact relinks (by omega) (by omega)
    have ends : k < rounds := by omega
    obtain ⟨m₁, grown, described⟩ :=
      does_grown valid atEnd (by omega) fewer enough ends links_ m described
    have larger : needed ≤ (hole.grown k).units := by
      simp only [Gap.grown]
      omega
    obtain ⟨payload, m', length, taken, left⟩ :=
      (valid.grown atEnd k).allocates removeHeader positive larger weakens size described
    refine ⟨k, _, _, m', fewer, enough, ?_, .block payload larger length, left⟩
    have same : (hole.grown k).header util = hole.header util := rfl
    rw [same] at taken
    unfold growAndAllocate
    rw [run_bind grown]
    dsimp only
    simp only [Functor.map, StateT.map, taken]
    rfl
  · obtain ⟨j, isJ⟩ : ∃ j, j = util.limit - hole.pages := ⟨_, rfl⟩
    have full : hole.pages + j = util.limit := by omega
    have short := fewer j (by omega)
    have links_ : 0 < j → Relinks util.head (hole.header util) hole.lists links := by
      intro some
      exact relinks (by omega) (by omega)
    have ends : j < rounds := by omega
    obtain ⟨m', grown, left⟩ := does_closed valid atEnd short full ends links_ weakens m described
    refine ⟨j, _, _, m', ?_, by omega, ?_, .enomem full short, left⟩
    · intro i before
      exact fewer i (by omega)
    · unfold growAndAllocate
      rw [run_bind grown]
      rfl

-- the whole of `sf_malloc`

theorem sfMalloc_empty (nonzero : size ≠ 0) {m₁ : Memory} {found : Option Nat} (none : m.pages = 0)
    (found_ : memInit util m = .ok (found, m₁)) :
    sfMalloc util size m = match found with
      | Option.none => .ok (Option.none, m₁)
      | some header =>
          growAndAllocate util removeHeader size (getNewSize size) (util.limit + 1) header m₁ := by
  unfold sfMalloc sfMallocWith
  rw [if_neg nonzero]
  have pages : (get : HeapM Memory) m = .ok (m, m) := rfl
  rw [run_bind pages]
  dsimp only
  rw [none, if_pos rfl, run_bind found_]
  cases found
  · rfl
  · rfl

theorem sfMallocWith_used (nonzero : size ≠ 0) (some_ : m.pages ≠ 0) :
    sfMallocWith util unlink size m =
      (findBlock util unlink (getNewSize size) >>= fun header =>
        growAndAllocate util unlink size (getNewSize size) (util.limit + 1 - m.pages) header) m := by
  unfold sfMallocWith
  rw [if_neg nonzero]
  have pages : (get : HeapM Memory) m = .ok (m, m) := rfl
  rw [run_bind pages]
  dsimp only
  rw [if_neg some_, map_eq_pure_bind, bind_assoc]
  simp only [pure_bind]

/-- There can be no heap. -/
theorem sfMalloc_unavailable {enomem : Bool} (nonzero : size ≠ 0)
    (none : util.limit = 0) (described : Describes util (emptyPicture util enomem) m) :
    ∃ m', sfMalloc util size m = .ok (Option.none, m') ∧
      Describes util (emptyPicture util true) m' := by
  obtain ⟨m', runs, left⟩ := @does_memInit_none util enomem none m described
  exact ⟨m', sfMalloc_empty nonzero described.pages runs, left⟩

/-- The first call makes a heap. -/
theorem sfMalloc_first {enomem : Bool} (nonzero : size ≠ 0) (is : unitsFor size = some needed)
    (page : 0 < util.limit) (described : Describes util (emptyPicture util enomem) m) :
    ∃ k result heap m', (∀ j < k, 253 + 256 * j < needed) ∧ 1 + k ≤ util.limit ∧
      sfMalloc util size m = .ok (result, m') ∧
      ((firstGap enomem).grown k).Serves util needed size result heap ∧
      Describes util (heap.picture util) m' := by
  obtain ⟨m₁, runs, left⟩ := does_memInit enomem page m described
  rw [sfMalloc_empty nonzero described.pages runs, getNewSize_some is]
  exact (firstGap_valid enomem).grows (unitsFor_bounds is).1 rfl page (by
    simp only [firstGap]
    omega) (fun _ _ => .inl rfl) (.refl _) size left

/-- The size has been rounded up to `INT_MIN`: the block of the first page is not split. -/
theorem sfMalloc_first_wrapped {enomem : Bool} (nonzero : size ≠ 0) (wraps : unitsFor size = none)
    (page : 0 < util.limit) (described : Describes util (emptyPicture util enomem) m) :
    ∃ result heap m', sfMalloc util size m = .ok (result, m') ∧
      (firstGap enomem).Serves util 253 size result heap ∧
      Describes util (heap.picture util) m' := by
  obtain ⟨m₁, runs, left⟩ := does_memInit enomem page m described
  have valid := @firstGap_valid util enomem
  have units : (firstGap enomem).units = 253 := rfl
  have whole : (16 * ((firstGap enomem).units : Int) - -2 ^ 31).bmod (2 ^ 32) < 32 := by
    rw [units]
    decide
  have close : (firstGap enomem).units < 253 + 2 := by omega
  obtain ⟨payload, m', length, taken, left'⟩ :=
    valid.allocates_whole removeHeader whole close (.refl _) size left
  refine ⟨_, _, m', ?_, .block payload (Nat.le_refl _) ?_, left'⟩
  · rw [sfMalloc_empty nonzero described.pages runs, getNewSize_none wraps]
    exact growAndAllocate_now valid left (by omega) taken
  · rw [length]
    rfl

theorem pages_ne_zero (valid : heap.Valid util) (described : Describes util (heap.picture util) m) :
    m.pages ≠ 0 := by
  intro none
  have fills := valid.fills
  have same : heap.pages = 0 := described.pages.symm.trans none
  rw [same, Nat.zero_mul] at fills
  omega

theorem frees_split {a header fit : Nat} {blocks : List Block} (member : (header, fit) ∈ frees a blocks) :
    ∃ before units after, blocks = before ++ .free units :: after ∧
      header = a + 2 * unitsOf before ∧ fit = 16 * units := by
  induction blocks generalizing a with
  | nil => cases member
  | cons block blocks ih =>
      cases block with
      | live units requested payload =>
          obtain ⟨before, found, after, rfl, place, size⟩ := ih member
          refine ⟨.live units requested payload :: before, found, after, rfl, ?_, size⟩
          simp only [unitsOf_cons, Block.units]
          omega
      | free units =>
          rcases List.mem_cons.mp member with same | later
          · cases same
            exact ⟨[], units, blocks, rfl, rfl, rfl⟩
          · obtain ⟨before, found, after, rfl, place, size⟩ := ih later
            refine ⟨.free units :: before, found, after, rfl, ?_, size⟩
            simp only [unitsOf_cons, Block.units]
            omega

/-- A free block fits. -/
theorem sfMalloc_fit {header fit : Nat} (nonzero : size ≠ 0) (is : unitsFor size = some needed)
    (valid : heap.Valid util) (described : Describes util (heap.picture util) m)
    (found : bestFit (16 * needed) heap.lists = some (header, fit)) :
    ∃ before units after result heap' m', heap.blocks = before ++ .free units :: after ∧
      header = util.place before ∧ fit = 16 * units ∧ needed ≤ units ∧
      sfMalloc util size m = .ok (result, m') ∧
      (heap.gap util before units after).Serves util needed size result heap' ∧
      Describes util (heap'.picture util) m' := by
  have listed := valid.listed.mem_iff.mp (List.mem_of_find?_eq_some found)
  have enough := List.find?_some found
  obtain ⟨before, units, after, split, place, size_⟩ := frees_split listed
  have place : header = util.place before := place
  have enough : needed ≤ units := by
    have := of_decide_eq_true enough
    omega
  obtain ⟨links, weakens, -, removes⟩ := does_gap valid split
  rw [place] at found
  have bounds := unitsFor_bounds is
  rw [← toSize_units bounds.2] at found
  have finds : Does util (heap.picture util) (findBlock util removeHeader (16 * needed))
      (util.place before) ((heap.gap util before units after).picture util links) := by
    rw [Heap.picture_lists] at removes ⊢
    exact does_findBlock_fit (Nat.le_refl _) found removes
  obtain ⟨m₁, finds, left⟩ := finds m described
  have room : heap.pages ≤ util.limit := described.room
  obtain ⟨rounds, isRounds⟩ := Nat.exists_eq_add_one_of_ne_zero
    (show util.limit + 1 - heap.pages ≠ 0 by omega)
  obtain ⟨result, heap', m', runs, serves, left⟩ :=
    (valid.gap split).fits_now bounds.1 enough weakens size left
  refine ⟨before, units, after, result, heap', m', split, place, size_, enough, ?_, serves, left⟩
  have pages : m.pages = heap.pages := described.pages
  rw [sfMalloc, sfMallocWith_used nonzero (pages_ne_zero valid described), getNewSize_some is,
    run_bind finds, pages, isRounds]
  exact runs

/-- The head of an empty list has been taken for a block, with size 0: the heap grows. -/
theorem growAndAllocate_sentinel {others : Multiset (Nat × (Nat → Prop))} {h q : Nat}
    {m₁ : Memory} (positive : 0 < needed)
    (described : Describes util (p.at (tagged h (fun info => info.blockSize.toNat = 0) + others)) m)
    (grown : memGrowWith util unlink m = .ok (some q, m₁)) :
    growAndAllocate util unlink size (16 * needed) (rounds + 1) h m =
      growAndAllocate util unlink size (16 * needed) rounds q m₁ := by
  obtain ⟨info, reads, zero⟩ := reads_info described
  have less : info.bytes < 16 * (needed : Int) := by
    rw [Info.bytes_eq zero (Nat.two_pow_pos 27)]
    omega
  have grows : growTo util unlink (16 * needed) (rounds + 1) h m =
      growTo util unlink (16 * needed) rounds q m₁ := by
    rw [growTo, run_bind reads, if_pos less, run_bind grown]
  unfold growAndAllocate
  simp only [Bind.bind, StateT.bind, grows]

theorem sfMallocWith_grows {q : Nat} {final : Picture} (nonzero : size ≠ 0)
    (is : unitsFor size = some needed) (valid : heap.Valid util)
    (described : Describes util (heap.picture util) m)
    (none : bestFit (16 * needed) heap.lists = none)
    (large : ∃ list ∈ heap.lists, 16 * needed ≤ list.size) (page : heap.pages < util.limit)
    (grows : Does util (heap.picture util) (memGrowWith util unlink) (some q) final) :
    ∃ m', Describes util final m' ∧
      sfMallocWith util unlink size m =
        growAndAllocate util unlink size (16 * needed) (util.limit - heap.pages) q m' := by
  have bounds := unitsFor_bounds is
  rw [← toSize_units bounds.2] at none large
  obtain ⟨h, others, weakens, finds⟩ := @does_findBlock_none util (heap.picture util)
    (prologueCells util + blocksCells util.first true heap.blocks) heap.lists unlink (16 * needed)
    (Nat.le_refl _) none large
  rw [← Heap.picture_lists] at finds
  obtain ⟨m₁, finds, left⟩ := finds m described
  have known : Describes util (heap.picture util) m₁ := by
    rw [Heap.picture_lists]
    exact left.weakens weakens
  obtain ⟨m', grown, described'⟩ := grows m₁ known
  have pages : m.pages = heap.pages := described.pages
  have rounds : util.limit + 1 - heap.pages = util.limit - heap.pages + 1 := by omega
  refine ⟨m', described', ?_⟩
  rw [sfMallocWith_used nonzero (pages_ne_zero valid described), getNewSize_some is, run_bind finds,
    pages, rounds]
  exact growAndAllocate_sentinel (by omega) left grown

theorem Gap.grown_grown (j k : Nat) : (hole.grown j).grown k = hole.grown (j + k) := by
  have units : hole.units + 256 * j + 256 * k = hole.units + 256 * (j + k) := by omega
  have pages : hole.pages + j + k = hole.pages + (j + k) := by omega
  simp only [Gap.grown, units, pages]

/-- Nothing fits and the last block is free: it grows. -/
theorem sfMalloc_grow_free (nonzero : size ≠ 0) (is : unitsFor size = some needed)
    (valid : heap.Valid util) (described : Describes util (heap.picture util) m)
    (none : bestFit (16 * needed) heap.lists = none)
    (large : ∃ list ∈ heap.lists, 16 * needed ≤ list.size) (page : heap.pages < util.limit)
    (split : heap.blocks = before ++ [.free units]) :
    ∃ k result heap' m', 0 < k ∧ (∀ j < k, units + 256 * j < needed) ∧ heap.pages + k ≤ util.limit ∧
      sfMalloc util size m = .ok (result, m') ∧
      ((heap.gap util before units []).grown k).Serves util needed size result heap' ∧
      Describes util (heap'.picture util) m' := by
  obtain ⟨links, weakens, relinks, grows⟩ := does_memGrow_gap valid split page
  obtain ⟨m₁, left, runs⟩ := sfMallocWith_grows nonzero is valid described none large page grows
  have opened := valid.gap split
  have member : (util.place before, 16 * units) ∈ entries heap.lists := by
    apply valid.listed.mem_iff.mpr
    rw [split, frees_append, frees]
    simp [Sfutil.place]
  have small : units < needed := by
    have misses := List.find?_eq_none.mp none _ member
    simp only [decide_eq_true_eq] at misses
    omega
  have lasts : util.limit - (heap.pages + 1) < util.limit - heap.pages := by omega
  obtain ⟨k, result, heap', m', fewer, room, taken, serves, described'⟩ :=
    (opened.grown rfl 1).grows (unitsFor_bounds is).1 rfl page lasts (fun _ _ => relinks) weakens
      size left
  rw [Gap.grown_grown] at serves
  have total : heap.pages + (1 + k) ≤ util.limit := by
    have pages : heap.pages + 1 + k ≤ util.limit := room
    omega
  refine ⟨1 + k, result, heap', m', by omega, ?_, total, runs.trans taken, serves, described'⟩
  intro j before
  cases j with
  | zero => exact small
  | succ j =>
      have less : units + 256 * 1 + 256 * j < needed := fewer j (by omega)
      omega

/-- Nothing fits and the last block is allocated: a block of whole pages follows it. -/
theorem sfMalloc_grow_live (nonzero : size ≠ 0) (is : unitsFor size = some needed)
    (valid : heap.Valid util) (described : Describes util (heap.picture util) m)
    (none : bestFit (16 * needed) heap.lists = none)
    (large : ∃ list ∈ heap.lists, 16 * needed ≤ list.size) (page : heap.pages < util.limit)
    (last : lastAllocated true heap.blocks = true)
    (once : needed ≤ 256 ∨ heap.pages + 1 = util.limit) :
    ∃ k result heap' m', (∀ j < k, 256 + 256 * j < needed) ∧ heap.pages + 1 + k ≤ util.limit ∧
      sfMalloc util size m = .ok (result, m') ∧
      (heap.page.grown k).Serves util needed size result heap' ∧
      Describes util (heap'.picture util) m' := by
  obtain ⟨m₁, left, runs⟩ := sfMallocWith_grows nonzero is valid described none large page
    (does_memGrow_page valid last page)
  have lasts : util.limit - (heap.pages + 1) < util.limit - heap.pages := by omega
  obtain ⟨k, result, heap', m', fewer, room, taken, serves, described'⟩ :=
    (valid.page last).grows (unitsFor_bounds is).1 rfl page lasts (fun short more => by
      have short : 256 < needed := short
      have more : heap.pages + 1 < util.limit := more
      omega) (.refl _) size left
  exact ⟨k, result, heap', m', fewer, room, runs.trans taken, serves, described'⟩

end Audible.Sfmm
