import Audible.HeapData
import Audible.Returning

set_option autoImplicit false

/- `sf_malloc` with a `removeHeader` that looks whether the block it is called for is on a list. -/
namespace Audible.Sfmm

open Returning

variable (util : Sfutil)

def nodesFrom (m : Memory) : Nat → Nat → List Nat
  | 0, _ => []
  | rounds + 1, node =>
      if node = util.head then []
      else node :: nodesFrom m rounds ((m.word (node + 4)).getD util.head)

/-- The members of a list whose head is `sentinel`, from one on. -/
def membersFrom (m : Memory) (sentinel : Nat) : Nat → Nat → List Nat
  | 0, _ => []
  | rounds + 1, header =>
      if header = sentinel then []
      else header :: membersFrom m sentinel rounds ((m.word (header + 1)).getD sentinel)

/-- The blocks on the lists in memory. There are fewer of them than there are words in the heap. -/
def listedBlocks (m : Memory) : List Nat :=
  (nodesFrom util m m.nodes ((m.word (util.head + 4)).getD util.head)).flatMap fun node =>
    membersFrom m (node + 1) (m.pages * pageWords) ((m.word (node + 2)).getD (node + 1))

/-- `removeHeader`, for a block that is on a list. -/
def unlinkListed (freeHeader : Nat) : HeapM Nat := fun m =>
  if freeHeader ∈ listedBlocks util m then removeHeader freeHeader m else .error .undefined

variable {util} {unlink : Nat → HeapM Nat}

theorem below_unlinkListed (freeHeader : Nat) :
    Below (unlinkListed util freeHeader) (removeHeader freeHeader) := by
  intro m result runs
  unfold unlinkListed at runs
  split_ifs at runs
  exact runs

section

variable (below : ∀ freeHeader, Below (unlink freeHeader) (removeHeader freeHeader))
include below

theorem splitBlockWith_below (allocHeader : Nat) (newSize : Int) :
    Below (splitBlockWith util unlink allocHeader newSize) (splitBlock util allocHeader newSize) :=
  .ite (.refl _) <| .bind (.refl _) fun _ => .bind (.refl _) fun _ => .bind (.refl _) fun next =>
    .bind (.refl _) fun _ => .ite (.bind (below next) fun _ => .refl _) (.refl _)

theorem lastFree_below (epilogue : Nat) :
    Below (lastFree util unlink epilogue) (lastFree util removeHeader epilogue) :=
  .bind (.refl _) fun _ => .ite (.bind (.refl _) fun freeHeader => .bind (.refl _) fun _ =>
    .ite (below freeHeader) (.refl _)) (.refl _)

theorem memGrowWith_below : Below (memGrowWith util unlink) (memGrow util) := by
  refine .bind (.refl _) fun _ => .bind (.refl _) fun grown => ?_
  cases grown with
  | none => exact .refl _
  | some _ => exact .bind (lastFree_below below _) fun _ => .refl _

theorem findBlock_below (newSize : Int) :
    Below (findBlock util unlink newSize) (findBlock util removeHeader newSize) := by
  refine .bind (.refl _) fun _ => .bind (.refl _) fun _ => .bind (.refl _) fun found => ?_
  obtain ⟨_ | header, currentNode⟩ := found
  · exact .refl _
  · exact .ite (below header) (.refl _)

theorem growTo_below (newSize : Int) (rounds header : Nat) :
    Below (growTo util unlink newSize rounds header) (growTo util removeHeader newSize rounds header) := by
  induction rounds generalizing header with
  | zero => exact .refl _
  | succ rounds ih =>
      refine .bind (.refl _) fun _ => .ite (.bind (memGrowWith_below below) fun grown => ?_) (.refl _)
      cases grown with
      | none => exact .refl _
      | some header => exact ih header

theorem allocate_below (size : Nat) (newSize : Int) (header : Nat) :
    Below (allocate util unlink size newSize header) (allocate util removeHeader size newSize header) :=
  .bind (.refl _) fun _ => .bind (.refl _) fun _ =>
    .ite (.refl _) (.bind (splitBlockWith_below below _ _) fun _ => .refl _)

theorem growAndAllocate_below (size : Nat) (newSize : Int) (rounds header : Nat) :
    Below (growAndAllocate util unlink size newSize rounds header)
      (growAndAllocate util removeHeader size newSize rounds header) := by
  refine .bind (growTo_below below newSize rounds header) fun grown => ?_
  cases grown with
  | none => exact .refl _
  | some header => exact .map some (allocate_below below size newSize header)

/-- A call that returns does what `sf_malloc` does. -/
theorem sfMallocWith_below (size : Nat) :
    Below (sfMallocWith util unlink size) (sfMalloc util size) := by
  refine .ite (.refl _) (.bind (.refl _) fun _ =>
    .ite (.bind (.refl _) fun found => ?_) (.bind (.map some (findBlock_below below _)) fun found => ?_))
  all_goals
    cases found with
    | none => exact .refl _
    | some header => exact growAndAllocate_below below size _ _ header

end

end Audible.Sfmm
