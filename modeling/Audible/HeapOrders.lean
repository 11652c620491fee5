import Audible.HeapTwice

set_option autoImplicit false

/- Blocks that are freed one after the other, in any order. -/
namespace Audible.Sfmm

open Cells Returning

variable {util : Sfutil} {heap heap' : Heap} {m : Memory} {live : Live}
variable {before after blocks : List Block} {payload pps qqs : List Nat}
variable {a pp units requested : Nat}

/-- A block before others: a free one is merged with a free one after it. -/
def attach : Block → List Block → List Block
  | .free units, .free more :: blocks => .free (units + more) :: blocks
  | block, blocks => block :: blocks

def mergeRuns (blocks : List Block) : List Block := blocks.foldr attach []

@[simp] theorem mergeRuns_nil : mergeRuns [] = [] := rfl

@[simp] theorem mergeRuns_cons (block : Block) (blocks : List Block) :
    mergeRuns (block :: blocks) = attach block (mergeRuns blocks) := rfl

theorem attach_free (units : Nat) (blocks : List Block) :
    attach (.free units) blocks = .free (units + freeStart blocks) :: solidRest blocks := by
  rcases blocks with _ | ⟨_ | _, blocks⟩ <;> rfl

theorem attach_live (units requested : Nat) (payload : List Nat) (blocks : List Block) :
    attach (.live units requested payload) blocks = .live units requested payload :: blocks := by
  cases blocks <;> rfl

/-- Of three free blocks it does not matter which two are merged first. -/
theorem attach_attach (units more : Nat) (blocks : List Block) :
    attach (.free units) (attach (.free more) blocks) = attach (.free (units + more)) blocks := by
  rw [attach_free more, attach_free (units + more), attach, Nat.add_assoc]

/-- Where no two neighbours are free there is nothing to merge. -/
theorem foldr_attach (apart : NoneAdjacent before)
    (last : lastAllocated true before = true ∨ Solid after) :
    before.foldr attach after = before ++ after := by
  induction before with
  | nil => rfl
  | cons block before ih =>
      obtain ⟨first, rest⟩ := List.isChain_cons.mp apart
      have last' : lastAllocated true before = true ∨ Solid after := by
        rcases last with last | solid
        · cases before with
          | nil => exact .inl rfl
          | cons _ _ => exact .inl last
        · exact .inr solid
      rw [List.foldr_cons, ih rest last', List.cons_append]
      cases block with
      | live => exact attach_live _ _ _ _
      | free units =>
          rw [attach_free]
          have solid : Solid (before ++ after) := by
            intro next head
            cases before with
            | nil => exact last.resolve_left (by simp [lastAllocated, Block.allocated]) next head
            | cons block before => exact (first next head).resolve_left Bool.false_ne_true
          rcases solidRest_cases (before ++ after) with ⟨none, same, -⟩ | ⟨more, -, starts⟩
          · rw [none, same, Nat.add_zero]
          · have free := solid (.free more) (by rw [starts]; rfl)
            cases free

theorem mergeRuns_eq (apart : NoneAdjacent blocks) : mergeRuns blocks = blocks := by
  rw [mergeRuns, foldr_attach apart (.inr (by simp [Solid])), List.append_nil]

/-- The live blocks of some payloads are free. -/
def markFree (pps : List Nat) (a : Nat) : List Block → List Block
  | [] => []
  | .live units requested payload :: blocks =>
      (if a + 1 ∈ pps then .free units else .live units requested payload) ::
        markFree pps (a + 2 * units) blocks
  | .free units :: blocks => .free units :: markFree pps (a + 2 * units) blocks

theorem markFree_nil (a : Nat) (blocks : List Block) : markFree [] a blocks = blocks := by
  induction blocks generalizing a with
  | nil => rfl
  | cons block blocks ih => cases block <;> simp [markFree, ih]

theorem markFree_cons (pp : Nat) (pps : List Nat) (a : Nat) (blocks : List Block) :
    markFree (pp :: pps) a blocks = markFree pps a (markFree [pp] a blocks) := by
  induction blocks generalizing a with
  | nil => rfl
  | cons block blocks ih =>
      cases block with
      | free units => simp [markFree, ih]
      | live units requested payload =>
          by_cases here : a + 1 = pp
          · simp [markFree, ih, here]
          · simp [markFree, ih, here]

theorem markFree_append (pps : List Nat) (a : Nat) (before after : List Block) :
    markFree pps a (before ++ after) =
      markFree pps a before ++ markFree pps (a + 2 * unitsOf before) after := by
  induction before generalizing a with
  | nil => rfl
  | cons block before ih =>
      cases block <;> simp [markFree, ih, Block.units, Nat.mul_add, Nat.add_assoc]

theorem markFree_congr (same : ∀ pp, pp ∈ pps ↔ pp ∈ qqs) (a : Nat) (blocks : List Block) :
    markFree pps a blocks = markFree qqs a blocks := by
  induction blocks generalizing a with
  | nil => rfl
  | cons block blocks ih => cases block <;> simp [markFree, ih, same]

theorem markFree_other (none : ∀ live ∈ lives a blocks, live.pointer ∉ pps) :
    markFree pps a blocks = blocks := by
  induction blocks generalizing a with
  | nil => rfl
  | cons block blocks ih =>
      cases block with
      | free units => rw [markFree, ih none]
      | live units requested payload =>
          have own : a + 1 ∉ pps := none ⟨a, units, requested, payload⟩ List.mem_cons_self
          rw [markFree, if_neg own, ih fun live member => none live (List.mem_cons_of_mem _ member)]

/-- It does not matter whether runs are merged before other blocks are marked. -/
theorem mergeRuns_markFree (pps : List Nat) (a : Nat) (blocks : List Block) :
    mergeRuns (markFree pps a (mergeRuns blocks)) = mergeRuns (markFree pps a blocks) := by
  induction blocks generalizing a with
  | nil => rfl
  | cons block blocks ih =>
      cases block with
      | live units requested payload =>
          rw [mergeRuns_cons, attach_live, markFree, markFree, mergeRuns_cons, mergeRuns_cons, ih]
      | free units =>
          rw [mergeRuns_cons, markFree, mergeRuns_cons, ← ih]
          rcases solidRest_cases (mergeRuns blocks) with ⟨none, same, -⟩ | ⟨more, -, starts⟩
          · rw [attach_free, none, same, Nat.add_zero, markFree, mergeRuns_cons]
          · rw [starts, attach, markFree, markFree, mergeRuns_cons, mergeRuns_cons, attach_attach,
              Nat.mul_add, ← Nat.add_assoc]

theorem markFree_split (fits : ∀ block ∈ before ++ .live units requested payload :: after, block.Fits) :
    markFree [util.place before + 1] util.first (before ++ .live units requested payload :: after) =
      before ++ .free units :: after := by
  have large := (fits (.live units requested payload) (by simp)).1
  have earlier : markFree [util.place before + 1] util.first before = before := by
    apply markFree_other
    intro live member same
    have bounds := lives_bounds (fun block member => fits block (by simp [member])) member
    have := List.mem_singleton.mp same
    rw [Live.pointer, Sfutil.place] at this
    omega
  have later : markFree [util.place before + 1] (util.place before + 2 * units) after = after := by
    apply markFree_other
    intro live member same
    have bounds := lives_bounds (fun block member => fits block (by simp [member])) member
    have := List.mem_singleton.mp same
    rw [Live.pointer] at this
    omega
  have here : util.first + 2 * unitsOf before = util.place before := rfl
  rw [markFree_append, here, markFree, if_pos (List.mem_singleton.mpr rfl), earlier, later]

theorem afterFree_blocks (valid : heap.Valid util)
    (split : heap.blocks = before ++ .live units requested payload :: after) :
    (heap.afterFree util before units after).blocks =
      mergeRuns (markFree [util.place before + 1] util.first heap.blocks) := by
  have fits := valid.fits
  have apart := valid.apart
  rw [split] at fits apart ⊢
  obtain ⟨left, right, -⟩ := List.isChain_append.mp apart
  have rest : mergeRuns after = after := mergeRuns_eq (List.isChain_cons.mp right).2
  rw [markFree_split fits, mergeRuns, List.foldr_append]
  change solidPart before ++ .free (freeEnd before + units + freeStart after) :: solidRest after =
    before.foldr attach (attach (.free units) (mergeRuns after))
  rw [rest, attach_free]
  rcases solidPart_cases before with ⟨none, same, last⟩ | ⟨more, one, isBefore⟩
  · rw [foldr_attach left (.inl last), none, same, Nat.zero_add]
  · obtain ⟨front, isFront⟩ := solidPart_apart left
    rw [one]
    conv_rhs => rw [isBefore]
    rw [List.foldr_append, List.foldr_cons, List.foldr_nil, attach, foldr_attach front (.inl isFront),
      Nat.add_assoc]

/-- `sf_free` for one payload after the other. -/
def freeAll (util : Sfutil) : List Nat → HeapM Unit
  | [] => return
  | pp :: pps => do
      sfFree util pp
      freeAll util pps

/-- The payloads are those of live blocks with room for what was requested. -/
def Freeable (util : Sfutil) (heap : Heap) (pps : List Nat) : Prop :=
  pps.Nodup ∧ ∀ pp ∈ pps, ∃ live ∈ heap.lives util, live.pointer = pp ∧ live.Roomy

theorem freeAll_merges (valid : heap.Valid util) (described : Describes util (heap.picture util) m)
    (freeable : Freeable util heap pps) :
    ∃ (heap' : Heap) (m' : Memory), freeAll util pps m = .ok ((), m') ∧ heap'.Valid util ∧
      Describes util (heap'.picture util) m' ∧
      heap'.blocks = mergeRuns (markFree pps util.first heap.blocks) := by
  induction pps generalizing heap m with
  | nil =>
      refine ⟨heap, m, rfl, valid, described, ?_⟩
      rw [markFree_nil, mergeRuns_eq valid.apart]
  | cons pp pps ih =>
      obtain ⟨nodup, owned⟩ := freeable
      obtain ⟨other, once⟩ := List.nodup_cons.mp nodup
      obtain ⟨live, member, rfl, room⟩ := owned pp List.mem_cons_self
      obtain ⟨before, after, split, place⟩ := lives_split member
      have pointer : live.pointer = util.place before + 1 := by rw [Live.pointer, place, Sfutil.place]
      obtain ⟨m₁, runs, left⟩ := does_sfFree valid split room m described
      change sfFree util (util.place before + 1) m = _ at runs
      rw [← pointer] at runs
      have kept : Freeable util (heap.afterFree util before live.units after) pps := by
        refine ⟨once, fun qq listed => ?_⟩
        obtain ⟨next, member', rfl, room'⟩ := owned qq (List.mem_cons_of_mem _ listed)
        refine ⟨next, ?_, rfl, room'⟩
        rw [lives_of_split split] at member'
        rw [lives_afterFree]
        rcases List.mem_append.mp member' with earlier | later
        · exact List.mem_append_left _ earlier
        · rcases List.mem_cons.mp later with rfl | later
          · exact absurd (pointer ▸ listed) other
          · exact List.mem_append_right _ later
      obtain ⟨heap', m', runs', valid', described', blocks⟩ := ih (afterFree_valid valid split) left kept
      refine ⟨heap', m', ?_, valid', described', ?_⟩
      · rw [freeAll, run_bind runs, runs']
      · rw [blocks, afterFree_blocks valid split, mergeRuns_markFree, ← pointer, ← markFree_cons]

/-- The same blocks, and for each size the same ones on its list. -/
structure SameBlocks (left right : Heap) : Prop where
  blocks : left.blocks = right.blocks
  members : ∀ size, (onList size left.lists).Perm (onList size right.lists)

theorem Heap.Valid.sameBlocks {left right : Heap} (valid : left.Valid util) (valid' : right.Valid util)
    (same : left.blocks = right.blocks) : SameBlocks left right where
  blocks := same
  members := by
    have listed := valid.listed
    rw [same] at listed
    exact fun size => ((listed.trans valid'.listed.symm).filter _).map _

/-- Two orders leave the same blocks: the freed ones are free, and runs of free ones are merged. -/
theorem freeAll_orders (valid : heap.Valid util) (described : Describes util (heap.picture util) m)
    (freeable : Freeable util heap pps) (perm : pps.Perm qqs) :
    ∃ (left right : Heap) (m₁ m₂ : Memory),
      freeAll util pps m = .ok ((), m₁) ∧ freeAll util qqs m = .ok ((), m₂) ∧
      left.Valid util ∧ right.Valid util ∧
      Describes util (left.picture util) m₁ ∧ Describes util (right.picture util) m₂ ∧
      left.blocks = mergeRuns (markFree pps util.first heap.blocks) ∧ SameBlocks left right := by
  have freeable' : Freeable util heap qqs :=
    ⟨perm.nodup_iff.mp freeable.1, fun qq listed => freeable.2 qq (perm.mem_iff.mpr listed)⟩
  obtain ⟨left, m₁, runs₁, valid₁, described₁, blocks₁⟩ := freeAll_merges valid described freeable
  obtain ⟨right, m₂, runs₂, valid₂, described₂, blocks₂⟩ := freeAll_merges valid described freeable'
  refine ⟨left, right, m₁, m₂, runs₁, runs₂, valid₁, valid₂, described₁, described₂, blocks₁,
    valid₁.sameBlocks valid₂ ?_⟩
  rw [blocks₁, blocks₂, markFree_congr fun pp => perm.mem_iff]

/-- Payloads of the program with room for what was requested, which memory tells. -/
def ownsAll (pps : List Nat) (state : State) : Bool :=
  pps.all fun pp => decide (pp ∈ state.pointers ∧
    (infoAt state.memory pp).requestedSize.toNat + 8 ≤ 16 * (infoAt state.memory pp).blockSize.toNat)

theorem Stands.freeable {state : State} (stands : Stands util state (.used heap)) (once : pps.Nodup)
    (owned : ownsAll pps state = true) : Freeable util heap pps := by
  refine ⟨once, fun pp listed => ?_⟩
  obtain ⟨member, room⟩ := of_decide_eq_true (List.all_eq_true.mp owned pp listed)
  obtain ⟨_, live, same, present, rfl⟩ := stands.owns member
  cases same
  have described : Describes util (heap.picture util) state.memory := stands.described
  have here := described.inMemory present
  rw [here.requested, here.size] at room
  exact ⟨live, present, rfl, room⟩

/-- Three blocks side by side, from the left and with the middle one last. -/
theorem freeAll_three : ∃ (state : State) (heap : Heap),
    Runs.run (step fourPages) (start fourPages)
        [.malloc 100, .malloc 50, .malloc 60, .malloc 20] = some state ∧
      heap.Valid fourPages ∧ Describes fourPages (heap.picture fourPages) state.memory ∧
      ∃ (left right : Heap) (m₁ m₂ : Memory),
        freeAll fourPages [1006, 1020, 1028] state.memory = .ok ((), m₁) ∧
        freeAll fourPages [1006, 1028, 1020] state.memory = .ok ((), m₂) ∧
        left.Valid fourPages ∧ right.Valid fourPages ∧
        Describes fourPages (left.picture fourPages) m₁ ∧
        Describes fourPages (right.picture fourPages) m₂ ∧
        left.blocks = mergeRuns (markFree [1006, 1020, 1028] fourPages.first heap.blocks) ∧
        SameBlocks left right := by
  obtain ⟨state, taken, reached, owned⟩ := exists_allowed fourPages
    [.malloc 100, .malloc 50, .malloc 60, .malloc 20] (by decide +kernel)
    (fun state => ownsAll [1006, 1020, 1028] state && decide (1006 ∈ state.pointers))
    (by decide +kernel)
  rw [Bool.and_eq_true] at owned
  obtain ⟨shape, stands⟩ := stands_of_reachable reached
  obtain ⟨heap, -, rfl, -⟩ := stands.owns (of_decide_eq_true owned.2)
  exact ⟨state, heap, taken, stands.valid, stands.described, freeAll_orders stands.valid
    stands.described (stands.freeable (by decide) owned.1) ((List.Perm.swap 1028 1020 []).cons 1006)⟩

/-- The lists of two heaps differ in the order of their members only. -/
def SameLists (left right : Heap) : Prop :=
  List.Forall₂ (fun list list' : FreeList => list.size = list'.size ∧ list.members.Perm list'.members)
    left.lists right.lists

theorem SameLists.sizes {left right : Heap} (same : SameLists left right) :
    left.lists.map FreeList.size = right.lists.map FreeList.size := by
  rw [← List.forall₂_eq_eq_eq, List.forall₂_map_left_iff, List.forall₂_map_right_iff]
  exact same.imp fun _ _ pair => pair.1

/-- The list of a size at which a block was freed stays when it is merged, so that two orders leave
lists of other sizes, which are empty. -/
theorem not_always_sameLists :
    ¬ ∀ state, Runs.Reachable (step fourPages) (Allowed fourPages) (start fourPages) state →
      ∀ (heap : Heap) (pps qqs : List Nat), heap.Valid fourPages →
        Describes fourPages (heap.picture fourPages) state.memory →
        pps.Nodup → (∀ pp ∈ pps, pp ∈ state.pointers) → pps.Perm qqs →
          ∃ (left right : Heap) (m₁ m₂ : Memory),
            freeAll fourPages pps state.memory = .ok ((), m₁) ∧
            freeAll fourPages qqs state.memory = .ok ((), m₂) ∧
            Describes fourPages (left.picture fourPages) m₁ ∧
            Describes fourPages (right.picture fourPages) m₂ ∧
            left.blocks = mergeRuns (markFree pps fourPages.first heap.blocks) ∧
            right.blocks = left.blocks ∧ SameLists left right := by
  intro always
  obtain ⟨state, -, reached, passed⟩ := exists_allowed fourPages [.malloc 100, .malloc 50, .malloc 60]
    (by decide +kernel)
    (fun state => decide (1006 ∈ state.pointers ∧ 1020 ∈ state.pointers) &&
      returnsWith (freeAll fourPages [1006, 1020] state.memory) fun _ m₁ =>
        returnsWith (freeAll fourPages [1020, 1006] state.memory) fun _ m₂ =>
          decide ((freeLists fourPages m₁).map Prod.fst ≠ (freeLists fourPages m₂).map Prod.fst))
    (by decide +kernel)
  rw [Bool.and_eq_true] at passed
  obtain ⟨owned, differ⟩ := passed
  obtain ⟨first, second⟩ := of_decide_eq_true owned
  obtain ⟨shape, stands⟩ := stands_of_reachable reached
  obtain ⟨heap, -, rfl, -⟩ := stands.owns first
  obtain ⟨left, right, m₁, m₂, runs₁, runs₂, described₁, described₂, -, -, same⟩ :=
    always state reached heap [1006, 1020] [1020, 1006] stands.valid stands.described (by decide)
      (by simp [first, second]) (.swap _ _ _)
  rw [runs₁, runs₂] at differ
  have other := of_decide_eq_true differ
  rw [described₁.freeLists, described₂.freeLists, List.map_map, List.map_map] at other
  exact other same.sizes

end Audible.Sfmm
