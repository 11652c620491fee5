import Mathlib.Data.Nat.Bitwise
import Mathlib.Logic.Function.Basic

set_option autoImplicit false

/- The allocator of `sfmm.c`. All its accesses are to aligned words of 8 bytes, so memory is
indexed by words, a pointer is the index of the word it points to, and 0 is NULL. -/
namespace Audible.Sfmm

/-- `sf_block_info` -/
structure Info where
  allocated : Bool
  prevAllocated : Bool
  twoZeroes : BitVec 2
  blockSize : BitVec 28
  requestedSize : BitVec 32
  deriving DecidableEq

def Info.decode (word : Nat) : Info where
  allocated := word.testBit 0
  prevAllocated := word.testBit 1
  twoZeroes := BitVec.ofNat 2 (word / 4)
  blockSize := BitVec.ofNat 28 (word / 16)
  requestedSize := BitVec.ofNat 32 (word / 2 ^ 32)

def Info.encode (info : Info) : Nat :=
  info.allocated.toNat + 2 * info.prevAllocated.toNat + 4 * info.twoZeroes.toNat +
    16 * info.blockSize.toNat + 2 ^ 32 * info.requestedSize.toNat

/-- `block_size<<4`, an `int`. -/
def Info.bytes (info : Info) : Int := (16 * info.blockSize.toNat : Int).bmod (2 ^ 32)

/-- `size>>4` as it is stored in 28 bits. -/
def toField (size : Int) : BitVec 28 := BitVec.ofInt 28 (size / 16)

/-- An `int` where a `size_t` is wanted. -/
def toSize (n : Int) : Nat := (n % 2 ^ 64).toNat

/-- `sf_free_list_node`: `size`, `head.info`, `head.links.next`, `head.links.prev`, `next` and
`prev`. -/
def nodeWords : Nat := 6

/-- The words of a page, `PAGE_SZ` bytes. -/
def pageWords : Nat := 512

/-- What the allocator is given by `sfutil.c` and the linker: the start of the heap, the pages
there are, the list head and the places of the nodes of free lists, and what words hold
that nobody has written. The heap is smaller than 2 ^ 31 bytes. -/
structure Sfutil where
  start : Nat
  limit : Nat
  head : Nat
  node : Nat → Nat
  contents : Nat → Nat
  aligned : start % 2 = 0
  small : limit * 4096 < 2 ^ 31
  headApart : head + nodeWords ≤ start ∨ start + limit * pageWords ≤ head
  nodeApart : ∀ k, node k + nodeWords ≤ start ∨ start + limit * pageWords ≤ node k
  nodeOffHead : ∀ k, node k + nodeWords ≤ head ∨ head + nodeWords ≤ node k
  nodesApart : ∀ j k, j ≠ k → node j + nodeWords ≤ node k ∨ node k + nodeWords ≤ node j

/-- Words that are not part of the heap or of a node have no value. -/
structure Memory where
  word : Nat → Option Nat
  pages : Nat
  nodes : Nat
  enomem : Bool

inductive Stop
  | aborted
  | undefined
  deriving DecidableEq

abbrev HeapM := StateT Memory (Except Stop)

def load (address : Nat) : HeapM Nat := fun m =>
  match m.word address with
  | none => .error .undefined
  | some value => .ok (value, m)

def store (address value : Nat) : HeapM Unit := fun m =>
  if (m.word address).isSome then
    .ok ((), { m with word := Function.update m.word address (some value) })
  else .error .undefined

def undefined {α : Type} : HeapM α := fun _ => .error .undefined

def abort {α : Type} : HeapM α := fun _ => .error .aborted

def loadInfo (address : Nat) : HeapM Info := do return Info.decode (← load address)

/-- Assignments to bit-fields of one word. -/
def modifyInfo (address : Nat) (change : Info → Info) : HeapM Unit := do
  let word ← load address
  store address (change (Info.decode word)).encode

variable (util : Sfutil)

/-- `sf_mem_end` -/
def memEnd (m : Memory) : Nat := util.start + m.pages * pageWords

def getEnd : HeapM Nat := fun m => .ok (memEnd util m, m)

/-- `sf_mem_init`: no page, and a list head that points to itself. -/
def sfMemInit : Memory where
  word := fun a =>
    if a = util.head then some 0
    else if a = util.head + 4 ∨ a = util.head + 5 then some util.head
    else if util.head ≤ a ∧ a < util.head + nodeWords then some (util.contents a)
    else none
  pages := 0
  nodes := 0
  enomem := false

/-- `sf_mem_grow`: the old end of the heap, or NULL. -/
def sfMemGrow : HeapM (Option Nat) := fun m =>
  let last := memEnd util m
  if m.pages < util.limit then
    .ok (some last,
      { m with
        word := fun a => if last ≤ a ∧ a < last + pageWords then some (util.contents a) else m.word a
        pages := m.pages + 1 })
  else .ok (none, { m with enomem := true })

/-- The part of `sf_add_free_list` that takes memory: the six words of the next node. -/
def newNode (size next prev : Nat) : HeapM Nat := fun m =>
  let node := util.node m.nodes
  .ok (node,
    { m with
      word := fun a =>
        if a = node then some size
        else if a = node + 1 then some (util.contents a)
        else if a = node + 2 ∨ a = node + 3 then some (node + 1)
        else if a = node + 4 then some next
        else if a = node + 5 then some prev
        else m.word a
      nodes := m.nodes + 1 })

def sfAddFreeList (size next : Nat) : HeapM Nat := do
  let prev ← load (next + 5)
  let node ← newNode util size next prev
  store (prev + 4) node
  store (next + 5) node
  return node

def getFooterPointer (freeHeader : Nat) : HeapM Nat := do
  let info ← loadInfo freeHeader
  return freeHeader + 2 * info.blockSize.toNat - 1

/-- A pointer below the start of memory is undefined. -/
def getHeaderPointer (freeFooter : Nat) : HeapM Nat := do
  let info ← loadInfo freeFooter
  if 2 * info.blockSize.toNat ≤ freeFooter + 1 then
    return freeFooter + 1 - 2 * info.blockSize.toNat
  else undefined

def getNextHeaderPointer (hp : Nat) : HeapM Nat := do
  let info ← loadInfo hp
  return hp + 2 * info.blockSize.toNat

def getPayloadHeader (pp : Nat) : Nat := pp - 1

/-- What `setFreeHeader` and `setFooter` assign. -/
def Info.setFree (size : Int) (info : Info) : Info :=
  { info with
    allocated := false
    prevAllocated := true
    blockSize := toField size
    requestedSize := 0 }

def setFreeHeader (freeHeader : Nat) (size : Int) : HeapM Nat := do
  modifyInfo freeHeader (Info.setFree size)
  return freeHeader

def setFooter (freeFooter : Nat) (size : Int) : HeapM Nat := do
  modifyInfo freeFooter (Info.setFree size)
  return freeFooter

def setPrevAllocated (address : Nat) (prevAllocated : Bool) : HeapM Unit :=
  modifyInfo address fun info => { info with prevAllocated := prevAllocated }

/-- What `createPrologue` and `createEpilogue` assign. -/
def Info.setSentinel (size : Int) (info : Info) : Info :=
  { info with allocated := true, prevAllocated := false, blockSize := toField size }

def createPrologue : HeapM Nat := do
  modifyInfo (util.start + 1) (Info.setSentinel 48)
  modifyInfo (util.start + 4) (Info.setSentinel 48)
  return util.start

def createEpilogue : HeapM Nat := do
  let last ← getEnd util
  modifyInfo (last - 1) (Info.setSentinel 8)
  return last - 1

/-- A sum of an `int` and a `size_t` in an `int`. -/
def coalesce (freeHeader : Nat) (size : Int) : HeapM Nat := do
  let info ← loadInfo freeHeader
  let newSize := (info.bytes + size).bmod (2 ^ 32)
  let _ ← setFreeHeader freeHeader newSize
  let _ ← setFooter (← getFooterPointer freeHeader) newSize
  return freeHeader

def removeHeader (freeHeader : Nat) : HeapM Nat := do
  let prev ← load (freeHeader + 2)
  store (prev + 1) (← load (freeHeader + 1))
  let next ← load (freeHeader + 1)
  store (next + 2) (← load (freeHeader + 2))
  return freeHeader

/-- `sentinel->head` is the word after the node's size. -/
def addHeaderToFreeList (freeHeader sentinel : Nat) : HeapM Nat := do
  store (freeHeader + 1) (← load (sentinel + 2))
  store (freeHeader + 2) (sentinel + 1)
  let next ← load (sentinel + 2)
  store (next + 2) freeHeader
  store (sentinel + 2) freeHeader
  return freeHeader

/-- The loop from a node on. A loop that goes on after all the nodes never ends. -/
def getSizeNodeFrom (size : Nat) : Nat → Nat → HeapM Nat
  | 0, _ => undefined
  | rounds + 1, currentNode =>
      if currentNode = util.head then return util.head
      else do
        if size ≤ (← load currentNode) then return currentNode
        else getSizeNodeFrom size rounds (← load (currentNode + 4))

def getSizeNode (size : Nat) : HeapM Nat := do
  let first ← load (util.head + 4)
  getSizeNodeFrom util size ((← get).nodes + 1) first

def getSentinelOfSize (newSize : Nat) : HeapM Nat := do
  let currentNode ← getSizeNode util newSize
  if newSize = (← load currentNode) then return currentNode
  else sfAddFreeList util newSize currentNode

/-- A free block is put on the list of the size in its header. -/
def addToList (freeHeader : Nat) : HeapM Nat := do
  let info ← loadInfo freeHeader
  addHeaderToFreeList freeHeader (← getSentinelOfSize util (toSize info.bytes))

/- Every function that takes blocks off their lists has a parameter for `removeHeader`, so that a
function that looks at the blocks it is called for can stand in its place. -/

variable (unlink : Nat → HeapM Nat)

/-- `newSize` is at least `MIN_SZ` wherever it is called. -/
def splitBlockWith (allocHeader : Nat) (newSize : Int) : HeapM (Option Nat) := do
  if toSize newSize < 32 then return none
  else
    let freeHeader ← setFreeHeader (← getNextHeaderPointer allocHeader) newSize
    let nextHeader ← getNextHeaderPointer freeHeader
    let next ← loadInfo nextHeader
    if !next.allocated then
      let _ ← unlink nextHeader
      let _ ← coalesce freeHeader next.bytes
      let info ← loadInfo freeHeader
      let _ ← setFooter (← getFooterPointer freeHeader) info.bytes
      let _ ← addToList util freeHeader
      return some freeHeader
    else
      let _ ← addHeaderToFreeList freeHeader (← getSentinelOfSize util (toSize newSize))
      let _ ← setFooter (← getFooterPointer freeHeader) newSize
      return some freeHeader

def splitBlock : Nat → Int → HeapM (Option Nat) := splitBlockWith util removeHeader

def memInit : HeapM (Option Nat) := do
  if (← get).pages ≠ 0 then return none
  else
    match ← sfMemGrow util with
    | none => return none
    | some _ =>
        let _ ← createPrologue util
        let _ ← createEpilogue util
        let last ← getEnd util
        let freeSize : Int := ((last : Int) - util.start) * 8 - 40 - 8
        let freeHeader ← setFreeHeader (util.start + 5) freeSize
        let _ ← setFooter (← getFooterPointer freeHeader) freeSize
        return some freeHeader

/-- The block before the epilogue, if that says it is free, off its list if there is a list. -/
def lastFree (epilogue : Nat) : HeapM Nat := do
  let info ← loadInfo epilogue
  if !info.prevAllocated then
    let freeHeader ← getHeaderPointer (epilogue - 1)
    if (← load (util.head + 4)) ≠ util.head then unlink freeHeader
    else return freeHeader
  else return epilogue

def memGrowWith : HeapM (Option Nat) := do
  let epilogue := (← getEnd util) - 1
  match ← sfMemGrow util with
  | none =>
      let freeHeader ← getHeaderPointer (epilogue - 1)
      let _ ← addToList util freeHeader
      return none
  | some _ =>
      let freeHeader ← lastFree util unlink epilogue
      let _ ← createEpilogue util
      return some (← coalesce freeHeader 4096)

def memGrow : HeapM (Option Nat) := memGrowWith util removeHeader

-- sf_malloc

/-- The size is at most 2 ^ 64 - 1, and a sum above `INT_MAX` wraps. -/
def getNewSize (size : Nat) : Int :=
  let newSize : Int := ((8 + size : Nat) : Int).bmod (2 ^ 32)
  if 32 < newSize then
    if newSize % 16 ≠ 0 then (newSize + (16 - newSize % 16)).bmod (2 ^ 32) else newSize
  else 32

/-- The search loop from a node on, with `header` as it is: unset at first. Its result is `header` and
`currentNode`. The size of a node is a `size_t`, so `newSize` is compared as one. -/
def findFrom (newSize : Int) : Nat → Nat → Option Nat → HeapM (Option Nat × Nat)
  | 0, _, _ => undefined
  | rounds + 1, currentNode, header =>
      if currentNode = util.head then return (header, currentNode)
      else do
        if toSize newSize ≤ (← load currentNode) then
          let first ← load (currentNode + 2)
          if first ≠ currentNode + 1 then return (some first, currentNode)
          else findFrom newSize rounds (← load (currentNode + 4)) (some first)
        else findFrom newSize rounds (← load (currentNode + 4)) header

/-- A block off its list, or a list head whose size has been set to 0. The use of `header` when
it is unset is undefined. -/
def findBlock (newSize : Int) : HeapM Nat := do
  let first ← load (util.head + 4)
  match ← findFrom util newSize ((← get).nodes + 1) first none with
  | (none, _) => undefined
  | (some header, currentNode) =>
      if currentNode ≠ util.head then unlink header
      else
        modifyInfo header fun info => { info with blockSize := 0 }
        return header

/-- The loop that grows the heap; every round but the last takes a page. -/
def growTo (newSize : Int) : Nat → Nat → HeapM (Option Nat)
  | 0, _ => undefined
  | rounds + 1, header => do
      let info ← loadInfo header
      if info.bytes < newSize then
        match ← memGrowWith util unlink with
        | none =>
            modify fun m => { m with enomem := true }
            return none
        | some header => growTo newSize rounds header
      else return some header

/-- The rest of `sf_malloc`: the payload. -/
def allocate (size : Nat) (newSize : Int) (header : Nat) : HeapM Nat := do
  let info ← loadInfo header
  let oldBlockSize := info.bytes
  modifyInfo header fun info =>
    { info with
      blockSize := toField newSize
      requestedSize := BitVec.ofNat 32 size
      allocated := true
      prevAllocated := true }
  let splitSize := (oldBlockSize - newSize).bmod (2 ^ 32)
  if splitSize < 32 then
    modifyInfo header fun info => { info with blockSize := toField oldBlockSize }
  else
    let _ ← splitBlockWith util unlink header splitSize
  setPrevAllocated (← getNextHeaderPointer header) true
  return header + 1

def growAndAllocate (size : Nat) (newSize : Int) (rounds header : Nat) : HeapM (Option Nat) := do
  match ← growTo util unlink newSize rounds header with
  | none => return none
  | some header => some <$> allocate util unlink size newSize header

def sfMallocWith (size : Nat) : HeapM (Option Nat) := do
  if size = 0 then return none
  else
    let newSize := getNewSize size
    let pages := (← get).pages
    let found ← if pages = 0 then memInit util else some <$> findBlock util unlink newSize
    match found with
    | none => return none
    | some header => growAndAllocate util unlink size newSize (util.limit + 1 - pages) header

def sfMalloc : Nat → HeapM (Option Nat) := sfMallocWith util removeHeader

-- sf_free and sf_realloc

/-- `sf_abort` with a pointer into the heap or NULL. -/
def sfAbort (pp : Nat) : HeapM Unit := do
  let last ← getEnd util
  if pp = 0 ∨ last - 1 ≤ pp ∨ pp < util.start + 5 then abort
  else
    let info ← loadInfo (pp - 1)
    if !info.allocated ∨ info.bytes < 32 ∨ info.bytes % 16 ≠ 0 ∨
        toSize info.bytes < info.requestedSize.toNat + 8 then abort
    else if !info.prevAllocated then
      let previous ← loadInfo (pp - 2)
      if previous.allocated then abort else return
    else return

/-- The free block before `hp` is taken off its list and merged with the block at `hp`. -/
def mergePrevious (hp : Nat) : HeapM Nat := do
  let info ← loadInfo hp
  if !info.prevAllocated then
    let previous ← getHeaderPointer (hp - 1)
    let _ ← removeHeader previous
    coalesce (← getHeaderPointer (hp - 1)) info.bytes
  else return hp

/-- The free block after `hp` is taken off its list and merged into the block at `newHeader`. -/
def mergeNext (hp newHeader : Nat) : HeapM Unit := do
  let nextHeader ← getNextHeaderPointer hp
  let next ← loadInfo nextHeader
  if !next.allocated then
    let _ ← removeHeader nextHeader
    let _ ← coalesce newHeader (← loadInfo nextHeader).bytes
    return
  else return

def sfFree (pp : Nat) : HeapM Unit := do
  sfAbort util pp
  let hp := getPayloadHeader pp
  let newHeader ← mergePrevious hp
  mergeNext hp newHeader
  let _ ← coalesce newHeader 0
  let _ ← addToList util newHeader
  setPrevAllocated (← getNextHeaderPointer newHeader) false

def sfRealloc (pp rsize : Nat) : HeapM (Option Nat) := do
  sfAbort util pp
  if rsize = 0 then
    sfFree util pp
    return none
  else
    let hp := getPayloadHeader pp
    let newSize := getNewSize rsize
    let info ← loadInfo hp
    if info.requestedSize.toNat < rsize then
      match ← sfMalloc util rsize with
      | none => return none
      | some newPayload =>
          sfFree util pp
          return some newPayload
    else if rsize < info.requestedSize.toNat then
      let splitSize := (info.bytes - newSize).bmod (2 ^ 32)
      modifyInfo hp fun info => { info with requestedSize := BitVec.ofNat 32 rsize }
      if 32 ≤ splitSize then
        modifyInfo hp fun info => { info with blockSize := toField newSize }
        match ← splitBlock util hp splitSize with
        | none => undefined
        | some freeHeader => setPrevAllocated (← getNextHeaderPointer freeHeader) false
      return some pp
    else return some pp

end Audible.Sfmm
